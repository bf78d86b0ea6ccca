import Ostrich.Ca.Equiv.Log
import Ostrich.Ca.Instance

/-!
# Certificates issued under an approval request

A certificate is issued under the approval request that its task names (`certificatesUnder`).  The
issuer reads the request, stores the certificate and then marks the request, and other tasks come
between.

* `one_per_approval`: in every run in which no issuance under a request reads it while another one
  is between its read and its mark, at most one certificate is issued under a request;
* `approved_content_iff`: a certificate is what its request asks for, unless a direct request asks
  for something else.
-/

namespace Ostrich.Ca

open Common Interleave Table

variable (env : Env)

/-! ### Issuance under a request -/

/-- The id of the approval request that the task names. -/
def Task.approvalId : Task → Option Uuid
  | .approveRequest _ id _ _ => env.parseUuid id
  | .issueCertificate _ req =>
    match parseApprovalRequestId env req.approvalRequestId with
    | .ok id => id
    | .error _ => none
  | _ => none

/-- The task with number `i`. -/
def taskOf (log : List CaEvent) (i : ℕ) : Option Task :=
  log.findSome? fun
    | .start j t _ => if j = i then some t else none
    | _ => none

/-- The certificate that the event stores, if its task names the request. -/
def issuedUnder (log : List CaEvent) (id : Uuid) : CaEvent → Option Certificate
  | .call i (.db (.createCertificate cert)) r =>
    if DbReply.applied r = true ∧ (taskOf log i).bind (Task.approvalId env) = some id then some cert
    else none
  | _ => none

/-- The certificates issued under a request. -/
def certificatesUnder (w : CaWorld) (id : Uuid) : List Certificate :=
  w.log.filterMap (issuedUnder env w.log id)

theorem started_of_taskOf {w : CaWorld} {i : ℕ} {t : Task} (h : taskOf w.log i = some t) :
    w.Started i t := by
  obtain ⟨ev, hev, heq⟩ := List.exists_of_findSome?_eq_some h
  split at heq
  · rename_i j t' parent
    split_ifs at heq with hj
    obtain rfl := Option.some.inj heq
    exact ⟨parent, hj ▸ hev⟩
  · cases heq

variable {env}

theorem issuedUnder_eq_some {w : CaWorld} {id : Uuid} {ev : CaEvent} {cert : Certificate}
    (h : issuedUnder env w.log id ev = some cert) : ∃ i r t,
      ev = .call i (.db (.createCertificate cert)) r ∧ DbReply.applied r = true ∧
      w.Started i t ∧ t.approvalId env = some id := by
  unfold issuedUnder at h
  split at h
  · rename_i i cert' r
    split_ifs at h with hcond
    obtain ⟨happlied, htask⟩ := hcond
    obtain rfl := Option.some.inj h
    obtain ⟨t, ht, hid⟩ := Option.bind_eq_some_iff.mp htask
    exact ⟨i, r, t, rfl, happlied, started_of_taskOf ht, hid⟩
  · cases h

variable {allowed : CaWorld → CaEvent → Prop} {cfg : CaConfig}

/-! ### What an issuance has seen -/

section

variable (hreach : (system env).Reach allowed (System.initial {}) cfg)

include hreach

/-- The state in which a certificate was stored under a request: the issuer asked for it, with the
approval of that request. -/
theorem issued_at {pre post : List CaEvent} {i : ℕ} {cert : Certificate}
    {r : DbReply Unit} {t : Task} {id : Uuid}
    (hlog : cfg.world.log = pre ++ .call i (.db (.createCertificate cert)) r :: post)
    (hstarted : cfg.world.Started i t) (hid : t.approvalId env = some id) :
    ∃ mid request, mid.world.log = pre ∧
      QueryAt env allowed cfg mid i t (.createCertificate cert) r ∧
      Asks env (mid.world.history i) t request ∧
      Issues env request (mid.world.history i) cert ∧ request.approvalRequestId = some id := by
  obtain ⟨mid, t', hpre, hat⟩ := query_at hreach hlog
  have hsub : mid.world.log ⊆ cfg.world.log := by
    rw [hlog, hpre]
    exact List.subset_append_left _ _
  obtain ⟨parent, hstart⟩ := hat.started
  obtain rfl := (hreach.wf (ca_meets env)).started_unique ⟨parent, hsub hstart⟩ hstarted
  rcases hat.calls with ⟨request, hasks, hissues⟩ | ⟨⟨c, rfl⟩, -⟩
  · refine ⟨mid, request, hpre, hat, hasks, hissues, ?_⟩
    cases hasks with
    | direct hparse hcontent =>
      simp only [Task.approvalId, hparse] at hid
      exact hid
    | approved hparse hread hpending happroval hcontent =>
      obtain rfl := Option.some.inj (hparse.symm.trans hid)
      rw [happroval, (request_of_read hat.reach (World.mem_history.mp hread)).1]
    | service => cases hid
  · cases hid

end

/-! ### One certificate for each approval -/

/-- The task has read the request as approved, to issue under it. -/
def ApprovedRead (log : List CaEvent) (i : ℕ) (id : Uuid) : Prop :=
  ∃ read, Answered log i (.getRequest id) (some read) ∧ read.status = .Approved

/-- When a task reads a request as approved, every other task that has read it so either has marked
the request, or has ended without storing a certificate. -/
def Exclusive (w : CaWorld) (ev : CaEvent) : Prop :=
  ∀ i id read, ev = .call i (.db (.getRequest id)) (.ok (some read)) → read.status = .Approved →
    ∀ j, j ≠ i → ApprovedRead w.log j id →
      (∃ certificateId, Ran w.log j (.markRequestCompleted id certificateId)) ∨
      w.Ended j ∧ ∀ cert, ¬Ran w.log j (.createCertificate cert)

/-- A task that reads the request as approved and unused is alone: every other one that read it so
before has ended, and has stored nothing. -/
theorem ended_of_read (hreach : (system env).Reach Exclusive (System.initial {}) cfg)
    {pre post : List CaEvent} {i j : ℕ} {id : Uuid} {read : ApprovalRequestRecord}
    (hlog : cfg.world.log = pre ++ .call j (.db (.getRequest id)) (.ok (some read)) :: post)
    (hstatus : read.status = .Approved) (hunused : read.certificateId = none) (hij : i ≠ j)
    (hread : ApprovedRead pre i id) :
    ((∃ r, .finish i r ∈ pre) ∨ .abort i ∈ pre) ∧ ∀ cert, ¬Ran pre i (.createCertificate cert) := by
  obtain ⟨mid, t, rfl, hat⟩ := query_at hreach hlog
  rcases hat.admitted j id read rfl hstatus i hij hread with ⟨certificateId, hmark⟩ | hended
  · -- the request was marked before this read, which would have shown it
    obtain ⟨r, hr, hid, hused⟩ := ran_markRequestCompleted hat.reach hmark
    obtain ⟨now, s, hrun⟩ := hat.run _ rfl
    obtain ⟨hmem, hreadId⟩ := mem_of_getRequest hrun
    have heq := (reach_unique hat.reach).requests read hmem r hr (hreadId.trans hid.symm)
    exact absurd (heq ▸ hunused) hused
  · exact hended

/-- Two tasks that both read the request as approved and unused do not both store a certificate. -/
theorem not_both_issue (hreach : (system env).Reach Exclusive (System.initial {}) cfg) {i j : ℕ}
    {id : Uuid} {readI readJ : ApprovalRequestRecord} {certI certJ : Certificate} (hij : i ≠ j)
    (hreadI : Answered cfg.world.log i (.getRequest id) (some readI))
    (hstatusI : readI.status = .Approved) (hunusedI : readI.certificateId = none)
    (hreadJ : Answered cfg.world.log j (.getRequest id) (some readJ))
    (hstatusJ : readJ.status = .Approved) (hunusedJ : readJ.certificateId = none)
    (hranI : Ran cfg.world.log i (.createCertificate certI))
    (hranJ : Ran cfg.world.log j (.createCertificate certJ)) : False := by
  -- the one that reads first has ended before the other reads, without a certificate
  have hfirst {i j : ℕ} {read : ApprovalRequestRecord} {cert : Certificate}
      {pre post : List CaEvent} (hij : i ≠ j)
      (hlog : cfg.world.log = pre ++ .call j (.db (.getRequest id)) (.ok (some read)) :: post)
      (hstatus : read.status = .Approved) (hunused : read.certificateId = none)
      (hread : ApprovedRead pre i id)
      (hran : Ran cfg.world.log i (.createCertificate cert)) : False := by
    obtain ⟨hended, hnone⟩ := ended_of_read hreach hlog hstatus hunused hij hread
    obtain ⟨r, hmem, happlied⟩ := hran
    have hmem' := hmem
    rw [hlog] at hmem'
    rcases List.mem_append.mp hmem' with hmem' | hmem'
    · exact hnone cert ⟨r, hmem', happlied⟩
    · exact hreach.not_mem_of_ended (ca_meets env) hlog hended hmem'
  obtain ⟨pre, post, hlog⟩ := List.append_of_mem hreadJ
  have hmem := hreadI
  unfold Answered at hmem
  rw [hlog] at hmem
  rcases List.mem_append.mp hmem with hmem | hmem
  · exact hfirst hij hlog hstatusJ hunusedJ ⟨readI, hmem, hstatusI⟩ hranI
  · rcases List.mem_cons.mp hmem with heq | hmem
    · exact hij (Event.call.inj heq).1
    · obtain ⟨between, post', rfl⟩ := List.append_of_mem hmem
      rw [← List.cons_append, ← List.append_assoc] at hlog
      refine hfirst hij.symm hlog hstatusI hunusedI ⟨readJ, ?_, hstatusJ⟩ hranJ
      exact List.mem_append_right _ (List.mem_cons_self ..)

/-- A list has at most one element that counts if none that counts comes after another. -/
theorem length_filterMap_le_one {α β : Type} {f : α → Option β} (l : List α)
    (h : ∀ pre x post, l = pre ++ x :: post → f x ≠ none → ∀ y ∈ pre, f y = none) :
    (l.filterMap f).length ≤ 1 := by
  induction l using List.reverseRecOn with
  | nil => exact Nat.zero_le 1
  | append_singleton l x ih =>
    rw [List.filterMap_append, List.length_append]
    have hl := ih fun pre y post hsplit =>
      h pre y (post ++ [x]) (by rw [hsplit, List.append_assoc, List.cons_append])
    cases hx : f x with
    | none => simpa [hx] using hl
    | some b =>
      have hnone : l.filterMap f = [] :=
        List.filterMap_eq_nil_iff.mpr (h l x [] rfl (by simp [hx]))
      simp [hnone, hx]

/-- **At most one certificate is issued under an approval request** when issuances under one request
do not overlap. -/
theorem one_per_approval (env : Env) (hrequire : env.requireApproval = true) (cfg : CaConfig)
    (hreach : (system env).Reach Exclusive (System.initial {}) cfg) (id : Uuid) :
    (certificatesUnder env cfg.world id).length ≤ 1 := by
  refine length_filterMap_le_one _ fun pre ev post hlog hissued ev' hev' => ?_
  obtain ⟨certJ, hissued⟩ := Option.ne_none_iff_exists'.mp hissued
  obtain ⟨j, r, t, rfl, happlied, hstarted, hid⟩ := issuedUnder_eq_some hissued
  obtain ⟨mid, request, hpre, hat, hasks, hissues, happroval⟩ :=
    issued_at hreach hlog hstarted hid
  by_contra hissued'
  obtain ⟨certI, hissued'⟩ := Option.ne_none_iff_exists'.mp hissued'
  obtain ⟨i, r', t', rfl, happlied', hstarted', hid'⟩ := issuedUnder_eq_some hissued'
  obtain ⟨pre', between, hsplit⟩ := List.append_of_mem hev'
  have hlog' := hlog
  rw [hsplit, List.append_assoc, List.cons_append] at hlog'
  obtain ⟨mid', request', hpre', hat', -, hissues', happroval'⟩ :=
    issued_at hreach hlog' hstarted' hid'
  -- a task stores one certificate
  have hij : i ≠ j := by
    rintro rfl
    refine hissues.first certI r' (World.mem_history.mpr ?_)
    rwa [hpre]
  obtain ⟨_, readJ, heqJ, hreadJ, hstatusJ, hunusedJ⟩ := hissues.approved hrequire
  obtain rfl := Option.some.inj (heqJ.symm.trans happroval)
  obtain ⟨_, readI, heqI, hreadI, hstatusI, hunusedI⟩ := hissues'.approved hrequire
  obtain rfl := Option.some.inj (heqI.symm.trans happroval')
  have hsub : mid.world.log ⊆ cfg.world.log := by
    rw [hpre, hlog]
    exact List.subset_append_left _ _
  have hsub' : mid'.world.log ⊆ cfg.world.log := by
    rw [hpre', hlog']
    exact List.subset_append_left _ _
  refine not_both_issue hreach hij (hsub' (World.mem_history.mp hreadI)) hstatusI hunusedI
    (hsub (World.mem_history.mp hreadJ)) hstatusJ hunusedJ ⟨r', ?_, happlied'⟩ ⟨r, ?_, happlied⟩
  · rw [hlog]
    exact List.mem_append_left _ hev'
  · rw [hlog]
    exact List.mem_append_right _ (List.mem_cons_self ..)

open Instance

/-- Two users approve the request 11; both read it before either decides. -/
def twoApprovers : List (Action Task Choice) :=
  submitted ++ approve 3 :: go 1 0 5 :: approve 4 :: go 2 0 5
    -- both decide, and both check the approved request before either marks it
    :: steps 1 20 8 6 ++ steps 2 40 8 6 ++ steps 1 30 8 7 ++ steps 2 50 8 7

/-- **Two certificates for one approval.** -/
theorem two_certificates_for_approval :
    ¬∀ cfg, (system (authority true)).Reach (fun _ _ => True) (System.initial {}) cfg →
      ∀ id, (certificatesUnder (authority true) cfg.world id).length ≤ 1 := by
  intro h
  have hrun : ((system (authority true)).run (fun _ _ => true) twoApprovers
      (System.initial {})).map (fun cfg =>
        (certificatesUnder (authority true) cfg.world (uuid 11)).length) = some 2 := by
    decide +kernel
  obtain ⟨cfg, hcfg, htwo⟩ := Option.map_eq_some_iff.mp hrun
  have hle := h cfg (System.reach_of_run (fun _ _ _ => trivial) _ hcfg) (uuid 11)
  omega

/-- The task that read a request as approved. -/
def readsApproved : CaEvent → Option ℕ
  | .call i (.db (.getRequest _)) (.ok (some read)) =>
    if read.status = .Approved then some i else none
  | _ => none

/-- `Exclusive` as a check: no other task has read a request as approved. -/
def exclusive (w : CaWorld) (ev : CaEvent) : Bool :=
  (readsApproved ev).all fun i => w.log.all fun past => (readsApproved past).all (· = i)

theorem exclusive_sound (w : CaWorld) (ev : CaEvent) (h : exclusive w ev = true) :
    Exclusive w ev := by
  rintro i id read rfl hstatus j hij ⟨read', hread', hstatus'⟩
  have hi : readsApproved (.call i (.db (.getRequest id)) (.ok (some read))) = some i :=
    if_pos hstatus
  have hj : readsApproved (.call j (.db (.getRequest id)) (.ok (some read'))) = some j :=
    if_pos hstatus'
  unfold exclusive at h
  rw [hi] at h
  have hall := List.all_eq_true.mp h _ hread'
  rw [hj] at hall
  exact absurd (of_decide_eq_true hall) hij

/-- One approver after the other: the second one finds the request completed. -/
theorem one_per_approval_in_turn :
    ∃ cfg, (system (authority true)).Reach Exclusive (System.initial {}) cfg ∧
      (certificatesUnder (authority true) cfg.world (uuid 11)).length = 1 ∧
      ∀ id, (certificatesUnder (authority true) cfg.world id).length ≤ 1 := by
  have hrun : ((system (authority true)).run exclusive
      (submitted ++ approve 3 :: steps 1 20 17 5 ++ approve 4 :: steps 2 40 2 6)
      (System.initial {})).map (fun cfg =>
        (certificatesUnder (authority true) cfg.world (uuid 11)).length) = some 1 := by
    decide +kernel
  obtain ⟨cfg, hcfg, hone⟩ := Option.map_eq_some_iff.mp hrun
  have hreach := System.reach_of_run exclusive_sound _ hcfg
  exact ⟨cfg, hreach, hone, one_per_approval _ rfl cfg hreach⟩

/-! ### The content of the certificates -/

/-- **A certificate is what its approval request asks for, unless a direct request asks for
something else.** -/
theorem approved_content_iff (env : Env) (hrequire : env.requireApproval = true) (cfg : CaConfig)
    (hreach : (system env).Reach (fun _ _ => True) (System.initial {}) cfg) (i : ℕ) (t : Task)
    (id : Uuid) (cert : Certificate) (hstarted : cfg.world.Started i t)
    (hid : t.approvalId env = some id)
    (hran : Ran cfg.world.log i (.createCertificate cert)) :
    ∃ r ∈ cfg.world.store.requests, r.id = id ∧
      (cert.content = approvedContent env r.requestDetails ↔
        ∀ user req, t = .issueCertificate user req →
          directContent env req = approvedContent env r.requestDetails) := by
  obtain ⟨reply, hmem, -⟩ := hran
  obtain ⟨pre, post, hlog⟩ := List.append_of_mem hmem
  obtain ⟨mid, request, hpre, hat, hasks, hissues, happroval⟩ :=
    issued_at hreach hlog hstarted hid
  -- every read of the request shows what its row still asks for
  have hshows {read : ApprovalRequestRecord}
      (hread : Replied (mid.world.history i) (.getRequest id) (some read)) :
      ∃ r ∈ cfg.world.store.requests, r.id = id ∧ r.requestDetails = read.requestDetails := by
    obtain ⟨hreadId, r, hr, hlater⟩ := request_of_read hat.reach (World.mem_history.mp hread)
    obtain ⟨r', hr', hlater'⟩ := hat.evolves.requests r hr
    exact ⟨r', hr', (hlater'.id.trans hlater.id).trans hreadId,
      hlater'.requestDetails.trans hlater.requestDetails⟩
  cases hasks with
  | direct hparse hcontent =>
    obtain ⟨_, read, heq, hread, -, -⟩ := hissues.approved hrequire
    obtain rfl := Option.some.inj (heq.symm.trans happroval)
    obtain ⟨r, hr, hrId, -⟩ := hshows hread
    refine ⟨r, hr, hrId, ?_⟩
    rw [hissues.content, ← hcontent]
    constructor
    · intro hsame user req htask
      obtain ⟨-, rfl⟩ := Task.issueCertificate.inj htask
      exact hsame
    · exact fun hall => hall _ _ rfl
  | approved hparse hread hpending hname hcontent =>
    obtain rfl := Option.some.inj (hparse.symm.trans hid)
    obtain ⟨r, hr, hrId, hdetails⟩ := hshows hread
    refine ⟨r, hr, hrId, ?_⟩
    rw [hissues.content, ← hcontent, hdetails]
    constructor
    · intro _ user req htask
      cases htask
    · exact fun _ => rfl
  | service => cases hid

/-- The request for "a" is approved, its certificate cannot be signed, and a direct request uses the
approval for "b". -/
def otherCsr : List (Action Task Choice) :=
  submitted ++ approve 3 :: steps 1 20 10 5
    ++ .run 1 { choice 30 5 with signature := .error "token removed" } :: go 1 31 5
    :: .arrive (.issueCertificate (raStaff 4) directRequest) :: steps 2 40 10 6

/-- A certificate issued under the request is for something else. -/
def differs (w : CaWorld) (id : Uuid) : Bool :=
  (certificatesUnder (authority true) w id).any fun cert => w.store.requests.any fun r =>
    r.id = id && cert.content ≠ approvedContent (authority true) r.requestDetails

/-- **A certificate that nobody approved.** -/
theorem issued_other_content :
    ¬∀ cfg, (system (authority true)).Reach (fun _ _ => True) (System.initial {}) cfg →
      ∀ i t id cert, cfg.world.Started i t → t.approvalId (authority true) = some id →
        Ran cfg.world.log i (.createCertificate cert) →
        ∀ r ∈ cfg.world.store.requests, r.id = id →
          cert.content = approvedContent (authority true) r.requestDetails := by
  intro h
  have hrun : ((system (authority true)).run (fun _ _ => true) otherCsr
      (System.initial {})).map (fun cfg => differs cfg.world (uuid 11)) = some true := by
    decide +kernel
  obtain ⟨cfg, hcfg, hdiffers⟩ := Option.map_eq_some_iff.mp hrun
  obtain ⟨cert, hcert, hdiffers⟩ := List.any_eq_true.mp hdiffers
  obtain ⟨r, hr, hdiffers⟩ := List.any_eq_true.mp hdiffers
  simp only [Bool.and_eq_true, decide_eq_true_eq] at hdiffers
  obtain ⟨ev, hev, hissued⟩ := List.mem_filterMap.mp hcert
  obtain ⟨i, reply, t, rfl, happlied, hstarted, hid⟩ := issuedUnder_eq_some hissued
  exact hdiffers.2 (h cfg (System.reach_of_run (fun _ _ _ => trivial) _ hcfg) i t _ cert hstarted
    hid ⟨reply, hev, happlied⟩ r hr hdiffers.1)

/-- The approver's own issuance: the certificate is for the name of the request. -/
theorem approved_content_of_approver :
    ∃ cfg i t cert, (system (authority true)).Reach (fun _ _ => True) (System.initial {}) cfg ∧
      cfg.world.Started i t ∧ Ran cfg.world.log i (.createCertificate cert) ∧
      cert.tbs.subject.commonName = "a" ∧
      ∃ r ∈ cfg.world.store.requests, r.id = uuid 11 ∧
        (cert.content = approvedContent (authority true) r.requestDetails ↔
          ∀ user req, t = .issueCertificate user req →
            directContent (authority true) req =
              approvedContent (authority true) r.requestDetails) := by
  have hrun : ((system (authority true)).run (fun _ _ => true)
      (submitted ++ approve 3 :: steps 1 20 17 5) (System.initial {})).map (fun cfg =>
        (certificatesUnder (authority true) cfg.world (uuid 11)).map
          (·.tbs.subject.commonName)) = some [some "a"] := by
    decide +kernel
  obtain ⟨cfg, hcfg, hone⟩ := Option.map_eq_some_iff.mp hrun
  have hreach : (system (authority true)).Reach (fun _ _ => True) (System.initial {}) cfg :=
    System.reach_of_run (fun _ _ _ => trivial) _ hcfg
  obtain ⟨cert, hcert, hname⟩ : ∃ cert ∈ certificatesUnder (authority true) cfg.world (uuid 11),
      cert.tbs.subject.commonName = some "a" :=
    List.mem_map.mp (hone ▸ List.mem_singleton_self (some "a"))
  obtain ⟨ev, hev, hissued⟩ := List.mem_filterMap.mp hcert
  obtain ⟨i, reply, t, rfl, happlied, hstarted, hid⟩ := issuedUnder_eq_some hissued
  have hran : Ran cfg.world.log i (.createCertificate cert) := ⟨reply, hev, happlied⟩
  exact ⟨cfg, i, t, cert, hreach, hstarted, hran, hname,
    approved_content_iff _ rfl cfg hreach i t _ cert hstarted hid hran⟩

end Ostrich.Ca
