import Mathlib.Data.List.Forall2
import Ostrich.X509.Equiv.Csr

/-!
# The names that a request asks for

`Names`, `Extensions` and `Values` say what an extensionRequest value holds, in the terms of the
decoders: the general names of a SAN extension, the SAN extensions of an Extensions SEQUENCE, and
those of all such SEQUENCEs of the SET.  `ListsEveryName` says that the texts that
`extractSansFromExtensionRequest` returns are those of the general names of all of them.

`extractSans_eq_ok_iff`: it returns whenever the Extensions SEQUENCE can be read, whatever the
general names are: the loop leaves out an address of another length than 4 or 16, and ends at an
entry that cannot be decoded.

`listsEveryName_iff`: so no name is lost exactly if every general name of the first SEQUENCE is well
formed, and there are no general names after it.
-/

namespace Ostrich.X509

open Der

/-! ### What a value holds -/

section

variable (lib : Asn1Lib)

/-- The general names of a SAN extension, up to the end. -/
inductive Names : List UInt8 → List GeneralName → Prop
  | nil : Names [] []
  | cons {der rest : List UInt8} {gn : GeneralName} {names : List GeneralName}
      (hread : lib.generalNameFromDer der = .ok (rest, gn)) (hrest : Names rest names) :
      Names der (gn :: names)

/-- What follows the OID of a SAN extension: its critical flag and its value, which holds the
general names in `content`. -/
def SanValue (after content : List UInt8) : Prop :=
  ∃ value octets tail tail',
    (if after.head? = some 0x01 then ∃ critical, lib.booleanFromDer after = .ok (value, critical)
      else value = after) ∧
    lib.octetStringFromDer value = .ok (tail, octets) ∧
    lib.sequenceFromDer octets = .ok (tail', content)

/-- The SAN extensions of an Extensions SEQUENCE, up to the end. -/
inductive Extensions : List UInt8 → List (List UInt8) → Prop
  | nil : Extensions [] []
  | other {der rest extension after : List UInt8} {oid : String} {contents : List (List UInt8)}
      (hread : lib.sequenceFromDer der = .ok (rest, extension))
      (hoid : lib.oidFromDer extension = .ok (after, oid)) (hother : oid ≠ "2.5.29.17")
      (hrest : Extensions rest contents) : Extensions der contents
  | san {der rest extension after content : List UInt8} {contents : List (List UInt8)}
      (hread : lib.sequenceFromDer der = .ok (rest, extension))
      (hoid : lib.oidFromDer extension = .ok (after, "2.5.29.17"))
      (hvalue : SanValue lib after content) (hrest : Extensions rest contents) :
      Extensions der (content :: contents)

/-- The SAN extensions of all Extensions SEQUENCEs of a SET, up to its end or to something that is
no Extensions SEQUENCE. -/
inductive Values : List UInt8 → List (List UInt8) → Prop
  | stop {der : List UInt8} (hstop : ∀ rest extensions contents,
      lib.sequenceFromDer der = .ok (rest, extensions) → ¬ Extensions lib extensions contents) :
      Values der []
  | cons {der rest extensions : List UInt8} {contents later : List (List UInt8)}
      (hread : lib.sequenceFromDer der = .ok (rest, extensions))
      (hextensions : Extensions lib extensions contents) (hrest : Values rest later) :
      Values der (contents ++ later)

/-- If names are extracted from a value, they are the texts of all its general names, in order. -/
def ListsEveryName (setDer : List UInt8) : Prop :=
  ∀ texts, extractSansFromExtensionRequest lib setDer = .ok texts →
    ∃ (tail set : List UInt8) (contents : List (List UInt8)) (names : List (List GeneralName)),
      lib.setFromDer setDer = .ok (tail, set) ∧ Values lib set contents ∧
        List.Forall₂ (Names lib) contents names ∧
        texts.map some = names.flatten.map fmtGeneralName

/-- An address has the length of an IPv4 or IPv6 address. -/
def WellFormed : GeneralName → Prop
  | .IPAddress ip => ip.length = 4 ∨ ip.length = 16
  | _ => True

/-- Every general name of the first Extensions SEQUENCE can be decoded and is well formed, and those
after it have none. -/
def NamesWellFormed (setDer : List UInt8) : Prop :=
  ∀ (tail set rest extensions : List UInt8) (contents later : List (List UInt8)),
    lib.setFromDer setDer = .ok (tail, set) → lib.sequenceFromDer set = .ok (rest, extensions) →
      Extensions lib extensions contents → Values lib rest later →
        (∀ content ∈ contents, ∃ names, Names lib content names ∧ ∀ gn ∈ names, WellFormed gn) ∧
        ∀ content ∈ later, content = []

end

variable {lib : Asn1Lib}

/-! ### The relations are functions -/

theorem sequenceFromDer_nil {read : List UInt8 × List UInt8} :
    lib.sequenceFromDer [] ≠ .ok read := by
  intro h
  exact absurd (lib.sequence_rest [] read.1 read.2 h) (Nat.not_lt_zero _)

theorem generalNameFromDer_nil {read : List UInt8 × GeneralName} :
    lib.generalNameFromDer [] ≠ .ok read := by
  intro h
  exact absurd (lib.generalName_rest [] read.1 read.2 h) (Nat.not_lt_zero _)

theorem eq_nil_of_names {content : List UInt8} (h : Names lib content []) : content = [] := by
  cases h
  rfl

theorem SanValue.unique {after content content' : List UInt8} (h : SanValue lib after content)
    (h' : SanValue lib after content') : content = content' := by
  obtain ⟨value, octets, tail, tail₂, hvalue, hoctets, hcontent⟩ := h
  obtain ⟨value', octets', tail', tail₂', hvalue', hoctets', hcontent'⟩ := h'
  have heq : value = value' := by
    split_ifs at hvalue hvalue'
    · obtain ⟨critical, hread⟩ := hvalue
      obtain ⟨critical', hread'⟩ := hvalue'
      exact congrArg Prod.fst (Except.ok.inj (hread.symm.trans hread'))
    · rw [hvalue, hvalue']
  rw [← heq] at hoctets'
  obtain ⟨-, rfl⟩ := Prod.mk.inj (Except.ok.inj (hoctets.symm.trans hoctets'))
  exact congrArg Prod.snd (Except.ok.inj (hcontent.symm.trans hcontent'))

theorem Extensions.unique {der : List UInt8} {contents contents' : List (List UInt8)}
    (h : Extensions lib der contents) (h' : Extensions lib der contents') :
    contents = contents' := by
  induction h generalizing contents' with
  | nil =>
    cases h' with
    | nil => rfl
    | other hread => exact absurd hread sequenceFromDer_nil
    | san hread => exact absurd hread sequenceFromDer_nil
  | other hread hoid hother _ ih =>
    cases h' with
    | nil => exact absurd hread sequenceFromDer_nil
    | other hread' hoid' hother' hrest' =>
      obtain ⟨rfl, -⟩ := Prod.mk.inj (Except.ok.inj (hread.symm.trans hread'))
      exact ih hrest'
    | san hread' hoid' hvalue' hrest' =>
      obtain ⟨-, rfl⟩ := Prod.mk.inj (Except.ok.inj (hread.symm.trans hread'))
      obtain ⟨-, rfl⟩ := Prod.mk.inj (Except.ok.inj (hoid.symm.trans hoid'))
      exact absurd rfl hother
  | san hread hoid hvalue _ ih =>
    cases h' with
    | nil => exact absurd hread sequenceFromDer_nil
    | other hread' hoid' hother' hrest' =>
      obtain ⟨-, rfl⟩ := Prod.mk.inj (Except.ok.inj (hread.symm.trans hread'))
      obtain ⟨-, rfl⟩ := Prod.mk.inj (Except.ok.inj (hoid.symm.trans hoid'))
      exact absurd rfl hother'
    | san hread' hoid' hvalue' hrest' =>
      obtain ⟨rfl, rfl⟩ := Prod.mk.inj (Except.ok.inj (hread.symm.trans hread'))
      obtain ⟨rfl, -⟩ := Prod.mk.inj (Except.ok.inj (hoid.symm.trans hoid'))
      rw [hvalue.unique hvalue', ih hrest']

theorem Values.unique {der : List UInt8} {contents contents' : List (List UInt8)}
    (h : Values lib der contents) (h' : Values lib der contents') : contents = contents' := by
  induction h generalizing contents' with
  | stop hstop =>
    cases h' with
    | stop => rfl
    | cons hread hextensions => exact absurd hextensions (hstop _ _ _ hread)
  | cons hread hextensions _ ih =>
    cases h' with
    | stop hstop => exact absurd hextensions (hstop _ _ _ hread)
    | cons hread' hextensions' hrest' =>
      obtain ⟨rfl, rfl⟩ := Prod.mk.inj (Except.ok.inj (hread.symm.trans hread'))
      rw [hextensions.unique hextensions', ih hrest']

/-- Every SET holds some SAN extensions. -/
theorem exists_values : ∀ (n : ℕ) (der : List UInt8), der.length ≤ n →
    ∃ contents, Values lib der contents := by
  intro n
  induction n using Nat.strong_induction_on with
  | _ n ih =>
  intro der hlen
  by_cases h : ∃ rest extensions contents,
      lib.sequenceFromDer der = .ok (rest, extensions) ∧ Extensions lib extensions contents
  · obtain ⟨rest, extensions, contents, hread, hextensions⟩ := h
    have hlt := lib.sequence_rest _ _ _ hread
    obtain ⟨later, hlater⟩ := ih rest.length (by omega) rest (Nat.le_refl _)
    exact ⟨contents ++ later, .cons hread hextensions hlater⟩
  · refine ⟨[], .stop fun rest extensions contents hread hextensions => ?_⟩
    exact h ⟨rest, extensions, contents, hread, hextensions⟩

/-! ### What is extracted -/

theorem isSome_fmtIpSan_iff (ip : List UInt8) :
    (fmtIpSan ip).isSome = true ↔ ip.length = 4 ∨ ip.length = 16 := by
  unfold fmtIpSan
  split
  · simp
  · simp
  · rename_i h4 h16
    constructor
    · intro h
      cases h
    · rintro (hlen | hlen)
      · match ip, hlen with
        | [a, b, c, d], _ => exact absurd rfl (h4 a b c d)
      · match ip, hlen with
        | [a, b, c, d, e, f, g, h, i, j, k, l, m, n, o, p], _ =>
          exact absurd rfl (h16 a b c d e f g h i j k l m n o p)

theorem isSome_fmtGeneralName_iff (gn : GeneralName) :
    (fmtGeneralName gn).isSome = true ↔ WellFormed gn := by
  cases gn with
  | IPAddress ip => exact isSome_fmtIpSan_iff ip
  | _ => simp [fmtGeneralName, WellFormed]

/-- The texts of the general names of a SAN extension, as far as the loop goes. -/
def printed (lib : Asn1Lib) (content : List UInt8) : List String :=
  generalNamesLoop lib content.length content []

theorem generalNamesLoop_append : ∀ (fuel : ℕ) (der : List UInt8) (sans : List String),
    generalNamesLoop lib fuel der sans = sans ++ generalNamesLoop lib fuel der [] := by
  intro fuel
  induction fuel with
  | zero => exact fun der sans => (List.append_nil sans).symm
  | succ fuel ih =>
    intro der sans
    rw [generalNamesLoop, generalNamesLoop]
    by_cases hnil : der = []
    · rw [if_pos hnil, if_pos hnil, List.append_nil]
    · rw [if_neg hnil, if_neg hnil]
      cases hread : lib.generalNameFromDer der with
      | error e => exact (List.append_nil sans).symm
      | ok read =>
        dsimp only
        cases htext : fmtGeneralName read.2 with
        | none => exact ih _ _
        | some text =>
          dsimp only
          rw [ih read.1 (sans ++ [text]), ih read.1 ([] ++ [text]), List.nil_append,
            List.append_assoc]

/-- If all names can be decoded, the loop prints those that have a text. -/
theorem printed_of_names {content : List UInt8} {names : List GeneralName}
    (h : Names lib content names) : printed lib content = names.filterMap fmtGeneralName := by
  induction h with
  | nil => rfl
  | @cons der rest gn names hread _ ih =>
    have hlt := lib.generalName_rest _ _ _ hread
    have hloop (sans : List String) : generalNamesLoop lib (der.length - 1) rest sans
        = sans ++ names.filterMap fmtGeneralName := by
      rw [generalNamesLoop_fuel lib _ rest sans (by omega), generalNamesLoop_append, ← ih]
      rfl
    have hne : der ≠ [] := fun hnil => generalNameFromDer_nil (hnil ▸ hread)
    have hlen : der.length = (der.length - 1) + 1 := by omega
    unfold printed
    rw [hlen, generalNamesLoop, if_neg hne, hread]
    dsimp only
    cases htext : fmtGeneralName gn with
    | none =>
      rw [List.filterMap_cons_none htext]
      exact hloop []
    | some text =>
      rw [List.filterMap_cons_some htext]
      exact hloop [text]

theorem parseErr_eq_ok_iff {α : Type} {what : String} {x : Except String α} {a : α} :
    parseErr what x = .ok a ↔ x = .ok a := by
  constructor
  · exact parseErr_eq_ok
  · rintro rfl
    rfl

/-- What is done with the value of the extension, after the critical flag. -/
def sansOfValue (lib : Asn1Lib) (value : List UInt8) (sans : List String) :
    Except Error (List String) := do
  let (_, octetString) ← parseErr "Failed to parse extnValue OCTET STRING"
    (lib.octetStringFromDer value)
  let (_, sanSeq) ← parseErr "Failed to parse SAN SEQUENCE" (lib.sequenceFromDer octetString)
  return generalNamesLoop lib sanSeq.length sanSeq sans

theorem sansOfExtension_eq_ok_iff {after : List UInt8} {sans texts : List String} :
    sansOfExtension lib after sans = .ok texts ↔
      ∃ content, SanValue lib after content ∧ texts = sans ++ printed lib content := by
  have hvalue : ∀ value, sansOfValue lib value sans = .ok texts ↔
      ∃ octets tail tail' content, lib.octetStringFromDer value = .ok (tail, octets) ∧
        lib.sequenceFromDer octets = .ok (tail', content) ∧
        texts = sans ++ printed lib content := by
    intro value
    constructor
    · intro h
      obtain ⟨⟨tail, octets⟩, hoctets, h⟩ := bind_eq_ok h
      obtain ⟨⟨tail', content⟩, hcontent, h⟩ := bind_eq_ok h
      refine ⟨octets, tail, tail', content, parseErr_eq_ok hoctets, parseErr_eq_ok hcontent, ?_⟩
      have htexts := (Except.ok.inj h).symm
      rw [generalNamesLoop_append] at htexts
      exact htexts
    · rintro ⟨octets, tail, tail', content, hoctets, hcontent, rfl⟩
      unfold sansOfValue
      rw [hoctets]
      dsimp only [parseErr, bind, Except.bind]
      rw [hcontent]
      dsimp only [pure, Except.pure]
      rw [generalNamesLoop_append]
      rfl
  unfold sansOfExtension SanValue
  dsimp only
  by_cases hflag : after.head? = some 0x01
  · simp only [if_pos hflag]
    constructor
    · intro h
      obtain ⟨⟨value, critical⟩, hread, h⟩ := bind_eq_ok h
      obtain ⟨octets, tail, tail', content, hoctets, hcontent, htexts⟩ := (hvalue value).1 h
      exact ⟨content, ⟨value, octets, tail, tail', ⟨critical, parseErr_eq_ok hread⟩, hoctets,
        hcontent⟩, htexts⟩
    · rintro ⟨content, ⟨value, octets, tail, tail', ⟨critical, hread⟩, hoctets, hcontent⟩, htexts⟩
      rw [hread]
      exact (hvalue value).2 ⟨octets, tail, tail', content, hoctets, hcontent, htexts⟩
  · simp only [if_neg hflag]
    constructor
    · intro h
      obtain ⟨octets, tail, tail', content, hoctets, hcontent, htexts⟩ := (hvalue after).1 h
      exact ⟨content, ⟨after, octets, tail, tail', rfl, hoctets, hcontent⟩, htexts⟩
    · rintro ⟨content, ⟨value, octets, tail, tail', rfl, hoctets, hcontent⟩, htexts⟩
      exact (hvalue _).2 ⟨octets, tail, tail', content, hoctets, hcontent, htexts⟩

/-- The loop over the extensions ends without an error exactly if they can be read. -/
theorem extensionsLoop_eq_ok_iff : ∀ (fuel : ℕ) (der : List UInt8) (sans texts : List String),
    der.length ≤ fuel → (extensionsLoop lib fuel der sans = .ok texts ↔
      ∃ contents, Extensions lib der contents ∧
        texts = sans ++ contents.flatMap (printed lib)) := by
  intro fuel
  induction fuel with
  | zero =>
    intro der sans texts hlen
    have hnil : der = [] := List.length_eq_zero_iff.1 (by omega)
    rw [hnil, extensionsLoop]
    constructor
    · intro h
      refine ⟨[], .nil, ?_⟩
      rw [← Except.ok.inj h, List.flatMap_nil, List.append_nil]
    · rintro ⟨contents, hcontents, rfl⟩
      rw [Extensions.nil.unique hcontents |>.symm, List.flatMap_nil, List.append_nil]
  | succ fuel ih =>
    intro der sans texts hlen
    rw [extensionsLoop]
    by_cases hnil : der = []
    · rw [if_pos hnil, hnil]
      constructor
      · intro h
        refine ⟨[], .nil, ?_⟩
        rw [← Except.ok.inj h, List.flatMap_nil, List.append_nil]
      · rintro ⟨contents, hcontents, rfl⟩
        rw [Extensions.nil.unique hcontents |>.symm, List.flatMap_nil, List.append_nil]
    · rw [if_neg hnil]
      constructor
      · intro h
        obtain ⟨⟨rest, extension⟩, hread, h⟩ := bind_eq_ok h
        obtain ⟨⟨after, oid⟩, hoid, h⟩ := bind_eq_ok h
        have hread' := parseErr_eq_ok hread
        have hlt := lib.sequence_rest _ _ _ hread'
        dsimp only at hoid h
        by_cases hsan : oid = "2.5.29.17"
        · rw [if_pos hsan] at h
          obtain ⟨more, hmore, h⟩ := bind_eq_ok h
          obtain ⟨contents, hcontents, rfl⟩ := (ih rest more texts (by omega)).1 h
          obtain ⟨content, hvalue, rfl⟩ := sansOfExtension_eq_ok_iff.1 hmore
          rw [hsan] at hoid
          refine ⟨content :: contents, .san hread' (parseErr_eq_ok hoid) hvalue hcontents, ?_⟩
          rw [List.flatMap_cons, List.append_assoc]
        · rw [if_neg hsan] at h
          obtain ⟨contents, hcontents, rfl⟩ := (ih rest sans texts (by omega)).1 h
          exact ⟨contents, .other hread' (parseErr_eq_ok hoid) hsan hcontents, rfl⟩
      · rintro ⟨contents, hcontents, rfl⟩
        cases hcontents with
        | nil => exact absurd rfl hnil
        | @other _ rest extension after oid _ hread hoid hother hrest =>
          have hlt := lib.sequence_rest _ _ _ hread
          rw [hread]
          dsimp only [parseErr, bind, Except.bind]
          rw [hoid]
          dsimp only
          rw [if_neg hother]
          exact (ih rest sans _ (by omega)).2 ⟨contents, hrest, rfl⟩
        | @san _ rest extension after content contents hread hoid hvalue hrest =>
          have hlt := lib.sequence_rest _ _ _ hread
          have hsan := sansOfExtension_eq_ok_iff.2
            ⟨content, hvalue, (rfl : sans ++ printed lib content = _)⟩
          rw [hread]
          dsimp only [parseErr, bind, Except.bind]
          rw [hoid]
          dsimp only
          rw [if_pos rfl, hsan]
          refine (ih rest _ _ (by omega)).2 ⟨contents, hrest, ?_⟩
          rw [List.flatMap_cons, List.append_assoc]

/-- **Names are extracted whenever the first Extensions SEQUENCE can be read.** -/
theorem extractSans_eq_ok_iff {setDer : List UInt8} {texts : List String} :
    extractSansFromExtensionRequest lib setDer = .ok texts ↔
      ∃ tail set rest extensions contents, lib.setFromDer setDer = .ok (tail, set) ∧
        lib.sequenceFromDer set = .ok (rest, extensions) ∧ Extensions lib extensions contents ∧
        texts = contents.flatMap (printed lib) := by
  unfold extractSansFromExtensionRequest
  constructor
  · intro h
    obtain ⟨⟨tail, set⟩, hset, h⟩ := bind_eq_ok h
    obtain ⟨⟨rest, extensions⟩, hread, h⟩ := bind_eq_ok h
    obtain ⟨contents, hcontents, htexts⟩ :=
      (extensionsLoop_eq_ok_iff _ _ _ _ (Nat.le_refl _)).1 h
    exact ⟨tail, set, rest, extensions, contents, parseErr_eq_ok hset, parseErr_eq_ok hread,
      hcontents, htexts⟩
  · rintro ⟨tail, set, rest, extensions, contents, hset, hread, hcontents, rfl⟩
    rw [hset]
    dsimp only [parseErr, bind, Except.bind]
    rw [hread]
    exact (extensionsLoop_eq_ok_iff _ _ _ _ (Nat.le_refl _)).2 ⟨contents, hcontents, rfl⟩

/-! ### No name is lost -/

theorem flatMap_printed {contents : List (List UInt8)} {names : List (List GeneralName)}
    (h : List.Forall₂ (Names lib) contents names) :
    contents.flatMap (printed lib) = names.flatten.filterMap fmtGeneralName := by
  induction h with
  | nil => rfl
  | cons hnames _ ih =>
    rw [List.flatMap_cons, List.flatten_cons, List.filterMap_append, printed_of_names hnames, ih]

/-- If the texts of some names are those of more names, all of the former have a text, and there are
no more. -/
theorem isSome_of_map_some_eq {α β : Type} {f : α → Option β} {l more : List α}
    (h : (l.filterMap f).map some = (l ++ more).map f) :
    (∀ a ∈ l, (f a).isSome = true) ∧ more = [] := by
  have hlen := congrArg List.length h
  have hle := List.length_filterMap_le f l
  rw [List.length_map, List.length_map, List.length_append] at hlen
  have hmore : more = [] := List.length_eq_zero_iff.1 (by omega)
  refine ⟨fun a ha => ?_, hmore⟩
  have hmem : f a ∈ (l.filterMap f).map some := by
    rw [h]
    exact List.mem_map_of_mem (List.mem_append_left _ ha)
  obtain ⟨b, -, hb⟩ := List.mem_map.1 hmem
  rw [← hb]
  rfl

theorem map_some_filterMap {α β : Type} {f : α → Option β} {l : List α}
    (h : ∀ a ∈ l, (f a).isSome = true) : (l.filterMap f).map some = l.map f := by
  induction l with
  | nil => rfl
  | cons a l ih =>
    obtain ⟨b, hb⟩ := Option.isSome_iff_exists.1 (h a (List.mem_cons_self ..))
    rw [List.filterMap_cons_some hb, List.map_cons, List.map_cons, hb,
      ih fun a ha => h a (List.mem_cons_of_mem _ ha)]

theorem exists_forall₂ {contents : List (List UInt8)} {p : GeneralName → Prop}
    (h : ∀ content ∈ contents, ∃ names, Names lib content names ∧ ∀ gn ∈ names, p gn) :
    ∃ names, List.Forall₂ (Names lib) contents names ∧ ∀ gn ∈ names.flatten, p gn := by
  induction contents with
  | nil => exact ⟨[], .nil, fun gn hgn => by cases hgn⟩
  | cons content contents ih =>
    obtain ⟨names, hnames, hall⟩ := h content (List.mem_cons_self ..)
    obtain ⟨rest, hrest, hrestAll⟩ := ih fun c hc => h c (List.mem_cons_of_mem _ hc)
    refine ⟨names :: rest, .cons hnames hrest, fun gn hgn => ?_⟩
    rw [List.flatten_cons] at hgn
    rcases List.mem_append.1 hgn with hgn | hgn
    · exact hall gn hgn
    · exact hrestAll gn hgn

/-- What is listed completely has nothing wrong in it. -/
theorem namesWellFormed_of_lists {setDer : List UInt8} (h : ListsEveryName lib setDer) :
    NamesWellFormed lib setDer := by
  intro tail set rest extensions contents later hset hread hextensions hlater
  have hextracted : extractSansFromExtensionRequest lib setDer
      = .ok (contents.flatMap (printed lib)) :=
    extractSans_eq_ok_iff.2 ⟨tail, set, rest, extensions, contents, hset, hread, hextensions, rfl⟩
  obtain ⟨tail', set', all, names, hset', hall, hnames, htexts⟩ := h _ hextracted
  obtain ⟨-, rfl⟩ := Prod.mk.inj (Except.ok.inj (hset.symm.trans hset'))
  rw [hall.unique (.cons hread hextensions hlater)] at hnames
  -- the names of the first SEQUENCE, and of those after it
  have hfirst : List.Forall₂ (Names lib) contents (names.take contents.length) := by
    have htake := List.forall₂_take contents.length hnames
    rwa [List.take_left] at htake
  have hrest : List.Forall₂ (Names lib) later (names.drop contents.length) := by
    have hdrop := List.forall₂_drop contents.length hnames
    rwa [List.drop_left] at hdrop
  have hsplit : names.flatten
      = (names.take contents.length).flatten ++ (names.drop contents.length).flatten := by
    rw [← List.flatten_append, List.take_append_drop]
  rw [flatMap_printed hfirst, hsplit] at htexts
  obtain ⟨hsome, hnone⟩ := isSome_of_map_some_eq htexts
  constructor
  · intro content hcontent
    obtain ⟨n, hn, rfl⟩ := List.getElem_of_mem hcontent
    have hlen := hfirst.length_eq
    refine ⟨(names.take contents.length)[n], hfirst.get hn (by omega), fun gn hgn => ?_⟩
    rw [← isSome_fmtGeneralName_iff]
    exact hsome gn (List.mem_flatten.2 ⟨_, List.getElem_mem _, hgn⟩)
  · intro content hcontent
    obtain ⟨n, hn, rfl⟩ := List.getElem_of_mem hcontent
    have hlen := hrest.length_eq
    have hget := hrest.get hn (by omega)
    have hempty : (names.drop contents.length).get ⟨n, by omega⟩ = [] :=
      List.flatten_eq_nil_iff.1 hnone _ (List.get_mem _ _)
    rw [hempty] at hget
    exact eq_nil_of_names hget

/-- **No requested name is lost** exactly if every general name of the first Extensions SEQUENCE is
well formed and those after it have none. -/
theorem listsEveryName_iff (lib : Asn1Lib) (setDer : List UInt8) :
    ListsEveryName lib setDer ↔ NamesWellFormed lib setDer := by
  constructor
  · exact namesWellFormed_of_lists
  · intro h texts hextracted
    obtain ⟨tail, set, rest, extensions, contents, hset, hread, hextensions, rfl⟩ :=
      extractSans_eq_ok_iff.1 hextracted
    obtain ⟨later, hlater⟩ : ∃ later, Values lib rest later :=
      exists_values rest.length rest (Nat.le_refl _)
    obtain ⟨hwell, hempty⟩ :=
      h tail set rest extensions contents later hset hread hextensions hlater
    obtain ⟨names, hnames, hall⟩ := exists_forall₂ hwell
    obtain ⟨none, hnone, hnoneAll⟩ : ∃ none, List.Forall₂ (Names lib) later none ∧
        ∀ gn ∈ none.flatten, False :=
      exists_forall₂ fun content hcontent =>
        ⟨[], by rw [hempty content hcontent]; exact .nil, fun gn hgn => by cases hgn⟩
    have hflat : none.flatten = [] := List.eq_nil_iff_forall_not_mem.2 hnoneAll
    refine ⟨tail, set, contents ++ later, names ++ none, hset, .cons hread hextensions hlater,
      List.rel_append hnames hnone, ?_⟩
    rw [flatMap_printed hnames, List.flatten_append, hflat, List.append_nil]
    exact map_some_filterMap fun gn hgn => (isSome_fmtGeneralName_iff gn).2 (hall gn hgn)

/-- **A SAN extension with one address of five octets** gives no name and no error. -/
theorem address_of_five_octets_is_lost :
    let setDer := extensionRequest [(0x87, [10, 0, 0, 0, 8])]
    extractSansFromExtensionRequest Reader.derReader setDer = .ok [] ∧
      ¬ ListsEveryName Reader.derReader setDer := by
  intro setDer
  refine ⟨by decide +kernel, fun h => ?_⟩
  let names : List (UInt8 × List UInt8) := [(0x87, [10, 0, 0, 0, 8])]
  have hset : Reader.derReader.setFromDer setDer = .ok ([], tlv 0x30 (sanExtension names)) := by
    decide +kernel
  have hread : Reader.derReader.sequenceFromDer (tlv 0x30 (sanExtension names))
      = .ok ([], sanExtension names) := by decide +kernel
  have hextension : Reader.derReader.sequenceFromDer (sanExtension names) = .ok ([],
      tlv 0x06 subjectAltNameOid ++ tlv 0x04 (tlv 0x30 (generalNames names))) := by decide +kernel
  have hoid : Reader.derReader.oidFromDer (tlv 0x06 subjectAltNameOid
        ++ tlv 0x04 (tlv 0x30 (generalNames names)))
      = .ok (tlv 0x04 (tlv 0x30 (generalNames names)), "2.5.29.17") := by decide +kernel
  have hvalue : SanValue Reader.derReader (tlv 0x04 (tlv 0x30 (generalNames names)))
      (generalNames names) :=
    ⟨_, tlv 0x30 (generalNames names), [], [], by rw [if_neg (by decide)], by decide +kernel,
      by decide +kernel⟩
  obtain ⟨hwell, -⟩ := namesWellFormed_of_lists h [] _ [] _ [generalNames names] [] hset hread
    (.san hextension hoid hvalue .nil)
    (.stop fun _ _ _ hnil => absurd hnil sequenceFromDer_nil)
  obtain ⟨gns, hnames, hall⟩ := hwell _ (List.mem_singleton_self _)
  have hname : Reader.derReader.generalNameFromDer (generalNames names)
      = .ok ([], .IPAddress [10, 0, 0, 0, 8]) := by decide +kernel
  rcases hnames with _ | ⟨hfirst, -⟩
  obtain ⟨-, rfl⟩ := Prod.mk.inj (Except.ok.inj (hname.symm.trans hfirst))
  rcases hall _ (List.mem_cons_self ..) with hfour | hsixteen
  · cases hfour
  · cases hsixteen

end Ostrich.X509
