import Ostrich.Acme.Dns01
import Mathlib.Data.List.Perm.Basic

/-!
# Which DNS-01 answers match

The CNAME records of an answer section are the edges of a graph of names.  If no name has two
different targets, the owners the validator accepts are the names that are reached from the query
name by at most `maxCnameChain` edges (`exists_mem_cnameOwners_iff`), whatever the order of the
records is, and also if the edges run in a loop.

`txtAnswersMatch_iff`: which answer sections match.
-/

namespace Ostrich.Acme.Dns01

open CutWalk

variable {Name : Type*} [BEq Name]

/-- A CNAME record leads from `a` to `b`. -/
def CnameEdge (answers : List (Record Name)) (a b : Name) : Prop :=
  ∃ record ∈ answers, record.name == a ∧ record.data = .CNAME b

/-- No two CNAME records with one owner have different targets. -/
def SingleCname (answers : List (Record Name)) : Prop :=
  ∀ record ∈ answers, ∀ record' ∈ answers, record.name == record'.name →
    ∀ target target', record.data = .CNAME target → record'.data = .CNAME target' →
      target == target'

/-- A TXT record of a name on the chain of `queryName` has the expected bytes. -/
def Proves (queryName : Name) (answers : List (Record Name)) (expected : List UInt8) : Prop :=
  ∃ record ∈ answers, ∃ txtData, record.data = .TXT txtData ∧ txtData.flatten = expected ∧
    ∃ k ≤ maxCnameChain, ∃ owner,
      Reaches (CnameEdge answers) k queryName owner ∧ owner == record.name

/-! ### The graph of the CNAME records -/

theorem nextCname_eq_some {answers : List (Record Name)} {a b : Name}
    (h : nextCname answers a = some b) : CnameEdge answers a b := by
  unfold nextCname at h
  obtain ⟨record, hmem, hrecord⟩ := List.exists_of_findSome?_eq_some h
  split at hrecord
  · rename_i target hdata
    by_cases hname : (record.name == a) = true
    · rw [if_pos hname] at hrecord
      cases hrecord
      exact ⟨record, hmem, hname, hdata⟩
    · rw [if_neg hname] at hrecord
      cases hrecord
  · cases hrecord

theorem not_cnameEdge_of_nextCname_eq_none {answers : List (Record Name)} {a b : Name}
    (h : nextCname answers a = none) : ¬ CnameEdge answers a b := by
  rintro ⟨record, hmem, hname, hdata⟩
  have hrecord := List.findSome?_eq_none_iff.1 h record hmem
  rw [hdata] at hrecord
  simp [hname] at hrecord

/-- If no name has two targets, `nextCname` takes the only way on. -/
theorem takes_nextCname [EquivBEq Name] {answers : List (Record Name)}
    (hcname : SingleCname answers) : Takes (nextCname answers) (CnameEdge answers) where
  sound := nextCname_eq_some
  stuck := not_cnameEdge_of_nextCname_eq_none
  congr := by
    rintro a a' b ⟨record, hmem, hname, hdata⟩ ha
    exact ⟨record, hmem, BEq.trans hname ha, hdata⟩
  only := by
    rintro a b b' ⟨record, hmem, hname, hdata⟩ ⟨record', hmem', hname', hdata'⟩
    have hnames : record.name == record'.name := BEq.trans hname (BEq.symm hname')
    exact hcname record hmem record' hmem' hnames b b' hdata hdata'

theorem exists_mem_cnameOwners_iff [EquivBEq Name] {answers : List (Record Name)}
    (hcname : SingleCname answers) (queryName b : Name) :
    (∃ o ∈ cnameOwners queryName answers, o == b) ↔
      ∃ k ≤ maxCnameChain, ∃ c, Reaches (CnameEdge answers) k queryName c ∧ c == b :=
  mem_walk_iff (takes_nextCname hcname) maxCnameChain queryName b

/-! ### The order of the records -/

theorem cnameEdge_perm {answers answers' : List (Record Name)} (h : answers'.Perm answers) :
    CnameEdge answers' = CnameEdge answers := by
  funext a b
  unfold CnameEdge
  simp only [h.mem_iff]

theorem singleCname_perm {answers answers' : List (Record Name)} (h : answers'.Perm answers)
    (hcname : SingleCname answers) : SingleCname answers' := by
  intro record hmem record' hmem'
  exact hcname record (h.mem_iff.1 hmem) record' (h.mem_iff.1 hmem')

theorem proves_perm {answers answers' : List (Record Name)} (h : answers'.Perm answers)
    (queryName : Name) (expected : List UInt8) :
    Proves queryName answers' expected ↔ Proves queryName answers expected := by
  unfold Proves
  simp only [h.mem_iff, cnameEdge_perm h]

/-! ### The match -/

theorem txtAnswersMatch_iff_proves [EquivBEq Name] {answers : List (Record Name)}
    (hcname : SingleCname answers) (queryName : Name) (expected : List UInt8) :
    txtAnswersMatch queryName answers expected = true ↔ Proves queryName answers expected := by
  unfold txtAnswersMatch Proves
  simp only [List.any_eq_true]
  constructor
  · rintro ⟨record, hmem, hmatch⟩
    split at hmatch
    · rename_i txtData hdata
      rw [Bool.and_eq_true, List.any_eq_true, beq_iff_eq] at hmatch
      obtain ⟨howner, hvalue⟩ := hmatch
      exact ⟨record, hmem, txtData, hdata, hvalue,
        (exists_mem_cnameOwners_iff hcname queryName record.name).1 howner⟩
    · cases hmatch
  · rintro ⟨record, hmem, txtData, hdata, hvalue, hreach⟩
    refine ⟨record, hmem, ?_⟩
    have howner := (exists_mem_cnameOwners_iff hcname queryName record.name).2 hreach
    rw [hdata]
    simp only [Bool.and_eq_true, List.any_eq_true, beq_iff_eq]
    exact ⟨howner, hvalue⟩

/-- **An answer section matches if and only if a TXT record at the query name, or at a name that is
reached from it by at most eight CNAME records, holds the expected bytes.**  The order of the
records does not matter; no owner is accepted twice, and a loop of the CNAME records adds none. -/
theorem txtAnswersMatch_iff [EquivBEq Name] (queryName : Name) (answers : List (Record Name))
    (expected : List UInt8) (hcname : SingleCname answers) :
    (txtAnswersMatch queryName answers expected = true ↔ Proves queryName answers expected) ∧
      (∀ answers' : List (Record Name), answers'.Perm answers →
        txtAnswersMatch queryName answers' expected = txtAnswersMatch queryName answers expected) ∧
      (cnameOwners queryName answers).Pairwise (fun a b => ¬ a == b) ∧
      (cnameOwners queryName answers).length ≤ maxCnameChain + 1 ∧
      ∀ i j a b, i < j → Reaches (CnameEdge answers) i queryName a →
        Reaches (CnameEdge answers) j queryName b → a == b →
          (cnameOwners queryName answers).length ≤ j := by
  have hnext := takes_nextCname hcname
  refine ⟨txtAnswersMatch_iff_proves hcname queryName expected, ?_,
    pairwise_walk _ _ _ (List.pairwise_singleton _ _),
    (getElem?_walk_start hnext maxCnameChain queryName).1, ?_⟩
  · intro answers' hperm
    rw [Bool.eq_iff_iff, txtAnswersMatch_iff_proves hcname,
      txtAnswersMatch_iff_proves (singleCname_perm hperm hcname), proves_perm hperm]
  · intro i j a b hij ha hb hab
    exact length_walk_le_of_loop hnext maxCnameChain hij ha hb hab

namespace Instance

/-- A name as its labels, compared without regard to ASCII case. -/
structure DnsName where
  labels : List (List UInt8)
  isFqdn : Bool

def lowerOctet (b : UInt8) : UInt8 := if 0x41 ≤ b ∧ b ≤ 0x5a then b + 0x20 else b

def DnsName.folded (n : DnsName) : List (List UInt8) × Bool :=
  (n.labels.map (·.map lowerOctet), n.isFqdn)

instance : BEq DnsName where
  beq a b := a.folded == b.folded

instance : EquivBEq DnsName where
  rfl {a} := beq_self_eq_true a.folded
  symm {a b} h := by
    have h' : a.folded = b.folded := eq_of_beq h
    show (b.folded == a.folded) = true
    exact beq_iff_eq.2 h'.symm
  trans {a b c} h h' := by
    have hab : a.folded = b.folded := eq_of_beq h
    have hbc : b.folded = c.folded := eq_of_beq h'
    show (a.folded == c.folded) = true
    exact beq_iff_eq.2 (hab.trans hbc)

/-- The names `a.` and `b.`, in upper or lower case. -/
def letter (b : UInt8) : DnsName := ⟨[[b]], true⟩

/-- `a.` leads to `B.` and `b.` to `A.`, and `b.` has the value `xy` in two strings. -/
def loopAnswers : List (Record DnsName) :=
  [⟨letter 0x62, .TXT [[0x78], [0x79]]⟩, ⟨letter 0x61, .CNAME (letter 0x42)⟩,
    ⟨letter 0x62, .CNAME (letter 0x41)⟩]

end Instance

theorem singleCname_loopAnswers : SingleCname Instance.loopAnswers := by
  intro record hmem record' hmem' hname target target' hdata hdata'
  simp only [Instance.loopAnswers, List.mem_cons, List.not_mem_nil, or_false] at hmem hmem'
  rcases hmem with rfl | rfl | rfl <;> rcases hmem' with rfl | rfl | rfl <;> cases hdata <;>
    cases hdata' <;> first | exact BEq.rfl | exact absurd hname (by decide)

theorem txtAnswersMatch_iff_loop :
    txtAnswersMatch (Instance.letter 0x41) Instance.loopAnswers [0x78, 0x79] = true ∧
      Proves (Instance.letter 0x41) Instance.loopAnswers [0x78, 0x79] ∧
      (cnameOwners (Instance.letter 0x41) Instance.loopAnswers).length = 2 :=
  ⟨by decide, (txtAnswersMatch_iff (Instance.letter 0x41) Instance.loopAnswers [0x78, 0x79]
    singleCname_loopAnswers).1.1 (by decide), by decide⟩

end Ostrich.Acme.Dns01
