import Ostrich.Ocsp.Equiv.Cache
import Ostrich.Ocsp.Instance

/-!
# The cache of the OCSP responder as a bounded map

A run of the cache is any sequence of its operations, with any reading of the clock at each of
them.  `run_ok` is what the operations keep: no two entries have one key, and the entry of a key is
the response last inserted under it (`latest`).  `cache_bounded` is what follows for the size of the
cache, for what a lookup finds and for what an insertion evicts.

A full cache evicts before it looks whether the key is there already (`evicts_for_own_key`).
-/

namespace Ostrich.Ocsp

/-- When a response expires, if it may be cached. -/
def OcspResponse.expiry (response : OcspResponse) : Option DateTime :=
  response.responses.head?.bind (·.nextUpdate)

/-! ### Operations -/

/-- The operations of the cache, each with its readings of the clock. -/
inductive CacheOp where
  | get (now : DateTime) (key : CacheKey)
  | insert (swept : CacheKey → DateTime) (now : DateTime) (pick : ℕ) (key : CacheKey)
    (response : OcspResponse)
  | invalidate (serialNumber : List UInt8)
  | clear

/-- The cache after an operation. -/
def Cache.after (maxEntries : ℕ) (cache : Cache) : CacheOp → Cache
  | .get _ _ => cache
  | .insert swept now pick key response => cache.insert maxEntries swept now pick key response
  | .invalidate serialNumber => cache.invalidate serialNumber
  | .clear => cache.clear

/-- The cache after a sequence of operations on a new one. -/
def Cache.run (maxEntries : ℕ) (ops : List CacheOp) : Cache :=
  ops.foldl (Cache.after maxEntries) []

/-- The response last inserted under `key` and not invalidated or cleared, after an operation. -/
def CacheOp.track (key : CacheKey) (last : Option OcspResponse) : CacheOp → Option OcspResponse
  | .get _ _ => last
  | .insert _ _ _ key' response =>
    if key' = key ∧ response.expiry.isSome then some response else last
  | .invalidate serialNumber =>
    if key.serialNumber = X509.hexEncode serialNumber then none else last
  | .clear => none

theorem CacheOp.track_insert (key key' : CacheKey) (last : Option OcspResponse)
    (swept : CacheKey → DateTime) (now : DateTime) (pick : ℕ) (response : OcspResponse) :
    (CacheOp.insert swept now pick key' response).track key last =
      if key' = key ∧ response.expiry.isSome then some response else last := rfl

theorem CacheOp.track_invalidate (key : CacheKey) (last : Option OcspResponse)
    (serialNumber : List UInt8) : (CacheOp.invalidate serialNumber).track key last =
      if key.serialNumber = X509.hexEncode serialNumber then none else last := rfl

def latest (key : CacheKey) (ops : List CacheOp) : Option OcspResponse :=
  ops.foldl (CacheOp.track key) none

namespace Cache

/-- The entries that an insertion finds unexpired. -/
def unexpired (cache : Cache) (swept : CacheKey → DateTime) : Cache :=
  cache.filter fun e => swept e.1 < e.2.expiresAt

variable {cache : Cache} {maxEntries pick : ℕ} {swept : CacheKey → DateTime} {now : DateTime}
  {key : CacheKey} {resp : OcspResponse}

theorem exists_oldest (h : cache ≠ []) :
    ∃ e ∈ cache, ∀ other ∈ cache, e.2.insertedAt ≤ other.2.insertedAt := by
  have hle (a b : DateTime) (h : ¬ a ≤ b) : b ≤ a := by
    have hlt := DateTime.not_le.mp h
    rw [DateTime.lt_def] at hlt
    rw [DateTime.le_def]
    omega
  have hrefl (a : DateTime) : a ≤ a := DateTime.le_def.mpr (.inr ⟨rfl, Nat.le_refl _⟩)
  induction cache with
  | nil => exact absurd rfl h
  | cons first cache ih =>
    by_cases hnil : cache = []
    · subst hnil
      refine ⟨first, List.mem_singleton_self first, fun other hother => ?_⟩
      rw [List.mem_singleton.mp hother]
      exact hrefl _
    · obtain ⟨e, he, hmin⟩ := ih hnil
      by_cases hfirst : first.2.insertedAt ≤ e.2.insertedAt
      · refine ⟨first, List.mem_cons_self, fun other hother => ?_⟩
        rcases List.mem_cons.mp hother with rfl | hother
        · exact hrefl _
        · exact DateTime.le_trans hfirst (hmin other hother)
      · refine ⟨e, List.mem_cons_of_mem _ he, fun other hother => ?_⟩
        rcases List.mem_cons.mp hother with rfl | hother
        · exact hle _ _ hfirst
        · exact hmin other hother

/-- An eviction drops the key of an entry with the least insertion time. -/
theorem evict_spec (h : cache ≠ []) (pick : ℕ) :
    ∃ e ∈ cache, (∀ other ∈ cache, e.2.insertedAt ≤ other.2.insertedAt) ∧
      cache.evict pick = cache.filter (·.1 ≠ e.1) := by
  unfold evict
  set oldest := cache.filter fun e => cache.all fun other => e.2.insertedAt ≤ other.2.insertedAt
    with holdest
  obtain ⟨e, he, hmin⟩ := exists_oldest h
  have hmem : e ∈ oldest := List.mem_filter.mpr ⟨he, by simpa using hmin⟩
  have hpick : pick % oldest.length < oldest.length :=
    Nat.mod_lt _ (List.length_pos_of_mem hmem)
  have hpicked : oldest[pick % oldest.length] ∈ oldest := List.getElem_mem hpick
  dsimp only
  rw [List.getElem?_eq_getElem hpick]
  generalize oldest[pick % oldest.length] = picked at hpicked ⊢
  obtain ⟨hin, hall⟩ := List.mem_filter.mp hpicked
  exact ⟨picked, hin, by simpa using hall, rfl⟩

theorem evict_nil (pick : ℕ) : evict [] pick = [] := rfl

theorem length_evict_lt (h : cache ≠ []) (pick : ℕ) :
    (cache.evict pick).length < cache.length := by
  obtain ⟨e, he, -, heq⟩ := evict_spec h pick
  rw [heq]
  apply List.length_filter_lt_length_iff_exists.mpr
  exact ⟨e, he, by simp⟩

/-- The entries that an insertion leaves room beside. -/
def room (cache : Cache) (maxEntries : ℕ) (swept : CacheKey → DateTime) (pick : ℕ) : Cache :=
  if maxEntries ≤ (cache.unexpired swept).length then (cache.unexpired swept).evict pick
  else cache.unexpired swept

theorem insert_of_none (h : resp.expiry = none) :
    cache.insert maxEntries swept now pick key resp = cache := by
  unfold insert
  rw [show resp.responses.head?.bind (·.nextUpdate) = none from h]

theorem insert_of_some {expiresAt : DateTime} (h : resp.expiry = some expiresAt) :
    cache.insert maxEntries swept now pick key resp =
      (key, { response := resp, expiresAt, insertedAt := now }) ::
        (cache.room maxEntries swept pick).filter (·.1 ≠ key) := by
  unfold insert
  rw [show resp.responses.head?.bind (·.nextUpdate) = some expiresAt from h]
  rfl

theorem room_sublist : (cache.room maxEntries swept pick).Sublist (cache.unexpired swept) := by
  unfold room
  split
  · by_cases hnil : cache.unexpired swept = []
    · rw [hnil, evict_nil]
    · obtain ⟨e, -, -, heq⟩ := evict_spec hnil pick
      rw [heq]
      exact List.filter_sublist
  · exact List.Sublist.refl _

theorem length_room_lt (hmax : 0 < maxEntries) (hlen : cache.length ≤ maxEntries) :
    (cache.room maxEntries swept pick).length < maxEntries := by
  have hvalid : (cache.unexpired swept).length ≤ cache.length := List.length_filter_le _ _
  unfold room
  by_cases hfull : maxEntries ≤ (cache.unexpired swept).length
  · rw [if_pos hfull]
    have hnil : cache.unexpired swept ≠ [] := by
      intro hnil
      rw [hnil, List.length_nil] at hfull
      omega
    have hlt := length_evict_lt hnil pick
    omega
  · rw [if_neg hfull]
    omega

theorem length_insert_le (hmax : 0 < maxEntries) (hlen : cache.length ≤ maxEntries) :
    (cache.insert maxEntries swept now pick key resp).length ≤ maxEntries := by
  cases hexpiry : resp.expiry with
  | none =>
    rw [insert_of_none hexpiry]
    exact hlen
  | some expiresAt =>
    have hroom : (cache.room maxEntries swept pick).length < maxEntries :=
      length_room_lt hmax hlen
    have hfilter := List.length_filter_le (fun e => decide (e.1 ≠ key))
      (cache.room maxEntries swept pick)
    rw [insert_of_some hexpiry, List.length_cons]
    omega

/-- An unexpired entry of another key goes only from a full cache, and only if it is the oldest. -/
theorem evicted_of_insert (hnodup : (cache.map Prod.fst).Nodup) {e : CacheKey × CacheEntry}
    (he : e ∈ cache) (hkey : e.1 ≠ key) (hvalid : swept e.1 < e.2.expiresAt)
    (hgone : e ∉ cache.insert maxEntries swept now pick key resp) :
    maxEntries ≤ (cache.unexpired swept).length ∧
      ∀ other ∈ cache.unexpired swept, e.2.insertedAt ≤ other.2.insertedAt := by
  have hmem : e ∈ cache.unexpired swept := List.mem_filter.mpr ⟨he, by simpa using hvalid⟩
  cases hexpiry : resp.expiry with
  | none =>
    rw [insert_of_none hexpiry] at hgone
    exact absurd he hgone
  | some expiresAt =>
    rw [insert_of_some hexpiry] at hgone
    have hroom : e ∉ cache.room maxEntries swept pick := by
      intro hin
      apply hgone
      exact List.mem_cons_of_mem _ (List.mem_filter.mpr ⟨hin, by simpa using hkey⟩)
    unfold room at hroom
    by_cases hfull : maxEntries ≤ (cache.unexpired swept).length
    · rw [if_pos hfull] at hroom
      obtain ⟨oldest, holdest, hmin, heq⟩ := evict_spec (List.ne_nil_of_mem hmem) pick
      have hsame : e.1 = oldest.1 := by
        by_contra hne
        apply hroom
        rw [heq]
        exact List.mem_filter.mpr ⟨hmem, by simpa using hne⟩
      have hin : oldest ∈ cache := (List.mem_filter.mp holdest).1
      have hentry : e = oldest := List.inj_on_of_nodup_map hnodup he hin hsame
      exact ⟨hfull, hentry ▸ hmin⟩
    · rw [if_neg hfull] at hroom
      exact absurd hmem hroom

end Cache

/-! ### Runs -/

/-- What every operation keeps. -/
structure CacheInv (ops : List CacheOp) (cache : Cache) : Prop where
  nodup : (cache.map Prod.fst).Nodup
  latest : ∀ e ∈ cache, Ocsp.latest e.1 ops = some e.2.response ∧
    e.2.response.expiry = some e.2.expiresAt

theorem latest_concat (key : CacheKey) (ops : List CacheOp) (op : CacheOp) :
    latest key (ops ++ [op]) = op.track key (latest key ops) := by
  unfold latest
  rw [List.foldl_append]
  rfl

theorem CacheInv.after {ops : List CacheOp} {cache : Cache} (h : CacheInv ops cache)
    (maxEntries : ℕ) (op : CacheOp) : CacheInv (ops ++ [op]) (cache.after maxEntries op) := by
  cases op with
  | get now key => exact ⟨h.nodup, fun e he => by rw [latest_concat]; exact h.latest e he⟩
  | insert swept now pick key resp =>
    show CacheInv _ (cache.insert maxEntries swept now pick key resp)
    cases hexpiry : resp.expiry with
    | none =>
      rw [Cache.insert_of_none hexpiry]
      refine ⟨h.nodup, fun e he => ?_⟩
      rw [latest_concat]
      rw [CacheOp.track_insert, if_neg (by simp [hexpiry])]
      exact h.latest e he
    | some expiresAt =>
      rw [Cache.insert_of_some hexpiry]
      have hsub : ((cache.room maxEntries swept pick).filter (·.1 ≠ key)).Sublist cache :=
        List.filter_sublist.trans (Cache.room_sublist.trans List.filter_sublist)
      constructor
      · rw [List.map_cons, List.nodup_cons]
        refine ⟨fun hmem => ?_, h.nodup.sublist (hsub.map _)⟩
        obtain ⟨e, he, heq⟩ := List.mem_map.mp hmem
        have hne : e.1 ≠ key := by simpa using (List.mem_filter.mp he).2
        exact hne heq
      · intro e he
        rw [latest_concat, CacheOp.track_insert]
        rcases List.mem_cons.mp he with rfl | he
        · exact ⟨if_pos ⟨rfl, by simp [hexpiry]⟩, hexpiry⟩
        · have hne : e.1 ≠ key := by simpa using (List.mem_filter.mp he).2
          rw [if_neg fun hand => hne hand.1.symm]
          exact h.latest e (hsub.subset he)
  | invalidate serialNumber =>
    have hsub : (cache.invalidate serialNumber).Sublist cache := List.filter_sublist
    refine ⟨h.nodup.sublist (hsub.map _), fun e he => ?_⟩
    have hmem := Cache.mem_of_invalidate he
    rw [latest_concat, CacheOp.track_invalidate, if_neg hmem.2]
    exact h.latest e hmem.1
  | clear => exact ⟨List.nodup_nil, fun e he => absurd he List.not_mem_nil⟩

theorem run_concat (maxEntries : ℕ) (ops : List CacheOp) (op : CacheOp) :
    Cache.run maxEntries (ops ++ [op]) = (Cache.run maxEntries ops).after maxEntries op := by
  unfold Cache.run
  rw [List.foldl_append]
  rfl

theorem run_ok (maxEntries : ℕ) (ops : List CacheOp) :
    CacheInv ops (Cache.run maxEntries ops) := by
  induction ops using List.reverseRecOn with
  | nil => exact ⟨List.nodup_nil, fun e he => absurd he List.not_mem_nil⟩
  | append_singleton ops op ih =>
    rw [run_concat]
    exact ih.after maxEntries op

theorem length_run_le {maxEntries : ℕ} (hmax : 0 < maxEntries) (ops : List CacheOp) :
    (Cache.run maxEntries ops).length ≤ maxEntries := by
  induction ops using List.reverseRecOn with
  | nil => exact Nat.zero_le _
  | append_singleton ops op ih =>
    rw [run_concat]
    cases op with
    | get now key => exact ih
    | insert swept now pick key resp => exact Cache.length_insert_le hmax ih
    | invalidate serialNumber => exact (List.length_filter_le _ _).trans ih
    | clear => exact Nat.zero_le _

/-- **The cache is a bounded map.**  After any operations, a cache with room for one entry at least
holds no more than its maximum; a lookup finds nothing, or the response last inserted under the key,
before its `nextUpdate`; and an insertion that evicts an unexpired entry of another key found the
cache full of unexpired entries, of which that one is the oldest. -/
theorem cache_bounded (maxEntries : ℕ) (ops : List CacheOp) :
    let cache := Cache.run maxEntries ops
    (0 < maxEntries → cache.length ≤ maxEntries) ∧
      (∀ now key resp, cache.get now key = some resp →
        latest key ops = some resp ∧ ∃ expiresAt, resp.expiry = some expiresAt ∧ now < expiresAt) ∧
      ∀ swept now pick key resp, ∀ e ∈ cache, e.1 ≠ key → swept e.1 < e.2.expiresAt →
        e ∉ cache.insert maxEntries swept now pick key resp →
        maxEntries ≤ (cache.unexpired swept).length ∧
          ∀ other ∈ cache.unexpired swept, e.2.insertedAt ≤ other.2.insertedAt := by
  intro cache
  have hinv := run_ok maxEntries ops
  refine ⟨fun hmax => length_run_le hmax ops, ?_, ?_⟩
  · intro now key resp hget
    unfold Cache.get at hget
    split at hget
    · rename_i key' entry hfind
      split_ifs at hget with hnow
      obtain rfl := Option.some.inj hget
      have hkey : key' = key := by simpa using List.find?_some hfind
      subst hkey
      obtain ⟨hlatest, hexpiry⟩ := hinv.latest _ (List.mem_of_find?_eq_some hfind)
      exact ⟨hlatest, _, hexpiry, hnow⟩
    · cases hget
  · intro swept now pick key resp e he hkey hvalid hgone
    exact Cache.evicted_of_insert hinv.nodup he hkey hvalid hgone

/-- A response that may be cached up to a time in seconds. -/
def responseUntil (secs : ℤ) : OcspResponse where
  responseStatus := .Successful
  responses := [{
    serialNumber := [1]
    issuerNameHash := []
    issuerKeyHash := []
    hashAlgorithm := ""
    certStatus := .Good
    thisUpdate := Ca.Instance.time 0
    nextUpdate := some (Ca.Instance.time secs) }]
  tbsResponseData := []
  signature := []
  signatureAlgorithm := []
  signingCert := []
  producedAt := Ca.Instance.time 0
  nonce := none

/-- Insert a response for an hour. -/
def insertAt (secs : ℤ) (key : CacheKey) : CacheOp :=
  .insert (fun _ => Ca.Instance.time secs) (Ca.Instance.time secs) 0 key (responseUntil 3600)

/-- A new response for one of the two keys of a full cache evicts the other key. -/
theorem evicts_for_own_key :
    let (k, other) := (CacheKey.new [1] "", CacheKey.new [2] "")
    let cache := Cache.run 2 [insertAt 0 other, insertAt 1 k]
    let swept := fun _ => Ca.Instance.time 2
    ∃ e ∈ cache, e.1 ≠ k ∧ swept e.1 < e.2.expiresAt ∧
      e ∉ cache.insert 2 swept (Ca.Instance.time 2) 0 k (responseUntil 3600) ∧
      ((cache.unexpired swept).filter (·.1 ≠ k)).length < 2 := by
  refine ⟨(CacheKey.new [2] "",
    ⟨responseUntil 3600, Ca.Instance.time 3600, Ca.Instance.time 0⟩), ?_⟩
  decide +kernel

end Ostrich.Ocsp
