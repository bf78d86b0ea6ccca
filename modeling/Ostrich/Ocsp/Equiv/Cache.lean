import Ostrich.Ca.Equiv.Repository
import Ostrich.Ocsp.Equiv.Responder

/-!
# The cache of the OCSP responder over a run

Every entry of the cache was made for a request with its key (`CacheOk`), in every state of every
run, and so was every response that the cache gave; `answered` says how a request was answered.
-/

namespace Ostrich.Ocsp

open Interleave

/-! ### Operations -/

namespace Cache

variable {cache : Cache} {now : DateTime} {key : CacheKey} {resp : OcspResponse}

theorem mem_of_get (h : cache.get now key = some resp) :
    ∃ entry, (key, entry) ∈ cache ∧ entry.response = resp := by
  unfold get at h
  split at h
  · rename_i k entry hfind
    split_ifs at h
    have hkey : k = key := by simpa using List.find?_some hfind
    exact ⟨entry, hkey ▸ List.mem_of_find?_eq_some hfind, Option.some.inj h⟩
  · cases h

theorem mem_of_evict {pick : ℕ} {e : CacheKey × CacheEntry} (h : e ∈ cache.evict pick) :
    e ∈ cache := by
  unfold evict at h
  dsimp only at h
  split at h
  · exact (List.mem_filter.mp h).1
  · exact h

/-- An entry after an insertion is an old one, or the new one. -/
theorem mem_of_insert {swept : CacheKey → DateTime} {maxEntries pick : ℕ}
    {e : CacheKey × CacheEntry} (h : e ∈ cache.insert maxEntries swept now pick key resp) :
    e ∈ cache ∨ e.1 = key ∧ e.2.response = resp := by
  unfold insert at h
  split at h
  · exact .inl h
  · rcases List.mem_cons.mp h with rfl | h
    · exact .inr ⟨rfl, rfl⟩
    · left
      have hroom := (List.mem_filter.mp h).1
      split_ifs at hroom
      · exact (List.mem_filter.mp (mem_of_evict hroom)).1
      · exact (List.mem_filter.mp hroom).1

theorem mem_of_invalidate {serialNumber : List UInt8} {e : CacheKey × CacheEntry}
    (h : e ∈ cache.invalidate serialNumber) :
    e ∈ cache ∧ e.1.serialNumber ≠ X509.hexEncode serialNumber := by
  obtain ⟨hmem, hne⟩ := List.mem_filter.mp h
  exact ⟨hmem, by simpa using hne⟩

end Cache

/-- The hexadecimal text determines the octets. -/
theorem hexEncode_injective {a b : List UInt8} (h : X509.hexEncode a = X509.hexEncode b) :
    a = b := by
  have hlist : a.flatMap (fun b => Text.hexFixed 2 b.toNat)
      = b.flatMap (fun b => Text.hexFixed 2 b.toNat) := String.ofList_injective h
  clear h
  induction a generalizing b with
  | nil =>
    cases b with
    | nil => rfl
    | cons y b => simp [Text.hexFixed] at hlist
  | cons x a ih =>
    cases b with
    | nil => simp [Text.hexFixed] at hlist
    | cons y b =>
      rw [List.flatMap_cons, List.flatMap_cons] at hlist
      obtain ⟨hhead, htail⟩ := List.append_inj hlist (by simp)
      have hxy := Text.hexFixed_injective 2 x.toNat_lt y.toNat_lt hhead
      rw [UInt8.toNat_inj.mp hxy, ih htail]

/-- The key of a request determines its serial number and its hash algorithm. -/
theorem cacheKey_inj {r r' : OcspRequest} (h : r.cacheKey = r'.cacheKey) :
    r.serialNumber = r'.serialNumber ∧ r.hashAlgorithm.oid = r'.hashAlgorithm.oid := by
  obtain ⟨hserial, halg⟩ := CacheKey.mk.inj h
  exact ⟨hexEncode_injective hserial, halg⟩

/-! ### Entries -/

variable {env : Env} {allowed : OcspWorld → OcspEvent → Prop} {cfg : OcspConfig}

/-- The response was made for a cacheable request with this key, from a row. -/
def EntryFor (env : Env) (key : CacheKey) (resp : OcspResponse) : Prop :=
  ∃ request status, key = request.cacheKey ∧ request.cacheable env = true ∧
    MadeFor env request status resp ∧ status ≠ .Unknown

/-- The entries, and what the cache gave so far, were made for requests with their keys. -/
structure CacheOk (env : Env) (w : OcspWorld) : Prop where
  entries : ∀ e ∈ w.store.cache, EntryFor env e.1 e.2.response
  hits : ∀ i key resp, .call i (.cacheGet key) (some resp) ∈ w.log → EntryFor env key resp

/-- What a call does to the cache. -/
theorem mem_cache_of_exec {e : Call} {c : Choice} {s : Store} {x : CacheKey × CacheEntry}
    (h : x ∈ (exec env e c s).2.cache) :
    x ∈ s.cache ∨ e = .cacheInsert x.1 x.2.response := by
  cases e with
  | cacheInsert key resp =>
    rcases Cache.mem_of_insert h with h | ⟨rfl, rfl⟩
    · exact .inl h
    · exact .inr rfl
  | cacheInvalidate serialNumber => exact .inl (Cache.mem_of_invalidate h).1
  | findBySerial serialNumber =>
    left
    unfold exec at h
    dsimp only at h
    split at h <;> exact h
  | _ => exact .inl h

theorem cacheOk {db : Ca.Store} (hreach : (system env).Reach allowed (System.initial { db }) cfg) :
    CacheOk env cfg.world := by
  have hJ : (system env).Preserves (ocspSpec env) allowed (fun _ => True) (CacheOk env) := by
    refine .of_call (fun w ev hev h => ⟨h.entries, fun i key resp hmem => ?_⟩) ?_
    · rcases List.mem_append.mp hmem with hmem | hmem
      · exact h.hits i key resp hmem
      · exact absurd (List.mem_singleton.mp hmem).symm (hev _ _ _)
    · intro w i n t e c _ _ h _ hcalls _
      refine ⟨fun x hx => ?_, fun j key resp hmem => ?_⟩
      · rcases mem_cache_of_exec hx with hx | rfl
        · exact h.entries x hx
        · obtain ⟨request, status, -, hkey, hcacheable, hmade, -, hknown⟩ := hcalls
          exact ⟨request, status, hkey, hcacheable, hmade, hknown⟩
      · rcases ((system env).call_mem_after).mp hmem with hold | hnew
        · exact h.hits j key resp hold
        · -- a hit is an entry
          obtain ⟨-, rfl, hr⟩ := Event.call.inj hnew
          have hget : w.store.cache.get c.now key = some resp := (eq_of_heq hr).symm
          obtain ⟨entry, hentry, rfl⟩ := Cache.mem_of_get hget
          exact h.entries _ hentry
  refine (hJ.reach (ocsp_meets env) ⟨?_, ?_⟩ hreach).2
  · exact fun _ h => absurd h List.not_mem_nil
  · exact fun _ _ _ h => absurd h List.not_mem_nil

/-- A call keeps the rows. -/
theorem exec_evolves (e : Call) (c : Choice) (s : Store) :
    s.db.Evolves (exec env e c s).2.db := by
  cases e with
  | ca q =>
    rcases q.exec_effect c.fault c.now s.db with ⟨-, heffect⟩ | ⟨-, hsame⟩
    · exact heffect.evolves
    · show s.db.Evolves (q.exec c.fault c.now s.db).2
      rw [hsame]
      exact .refl _
  | findBySerial serialNumber =>
    unfold exec
    dsimp only
    split <;> exact .refl _
  | _ => exact .refl _

/-- The rows stay along a run. -/
theorem reach_evolves {cfg' : OcspConfig} (h : (system env).Reach allowed cfg cfg') :
    cfg.world.store.db.Evolves cfg'.world.store.db :=
  h.store (R := fun s s' => s.db.Evolves s'.db) (fun s => .refl s.db)
    (fun h h' => Ca.Store.Evolves.trans h h') fun _ e c w _ => exec_evolves e c w.store

/-- How a request was answered. -/
theorem answered {db : Ca.Store} (hreach : (system env).Reach allowed (System.initial { db }) cfg)
    {i : ℕ} {der : List UInt8} {request : OcspRequest} {resp : OcspResponse}
    (hstarted : cfg.world.Started i (.processRequest der))
    (hparse : fromDer env.oidText der = .ok request)
    (hfinish : .finish i (.ok (some resp)) ∈ cfg.world.log) :
    Answer env (cfg.world.history i) request resp := by
  obtain ⟨t, hstarted', hresult⟩ := hreach.finished (ocsp_meets env) hfinish
  obtain ⟨request', ⟨der', rfl, hparse'⟩, hanswer⟩ := hresult resp rfl
  have hwf := hreach.wf (ocsp_meets env)
  obtain rfl := Task.processRequest.inj (hwf.started_unique hstarted hstarted')
  obtain rfl := Except.ok.inj (hparse.symm.trans hparse')
  exact hanswer

/-! ### Reading a log -/

/-- Task `i` is for the request in DER. -/
def startedAs (log : List OcspEvent) (i : ℕ) (der : List UInt8) : Bool :=
  log.any fun
    | .start j (.processRequest d) _ => j = i && d = der
    | _ => false

theorem started_of_startedAs {w : OcspWorld} {i : ℕ} {der : List UInt8}
    (h : startedAs w.log i der = true) : w.Started i (.processRequest der) := by
  obtain ⟨ev, hev, hmatch⟩ := List.any_eq_true.mp h
  split at hmatch
  · simp only [Bool.and_eq_true, decide_eq_true_eq] at hmatch
    obtain ⟨rfl, rfl⟩ := hmatch
    exact ⟨_, hev⟩
  · cases hmatch

/-- The response that task `i` gave. -/
def answerOf (log : List OcspEvent) (i : ℕ) : Option OcspResponse :=
  log.findSome? fun
    | .finish j (.ok (some resp)) => if j = i then some resp else none
    | _ => none

theorem finish_of_answerOf {w : OcspWorld} {i : ℕ} {resp : OcspResponse}
    (h : answerOf w.log i = some resp) : .finish i (.ok (some resp)) ∈ w.log := by
  obtain ⟨ev, hev, heq⟩ := List.exists_of_findSome?_eq_some h
  split at heq
  · split_ifs at heq with hj
    obtain rfl := Option.some.inj heq
    exact hj ▸ hev
  · cases heq

end Ostrich.Ocsp
