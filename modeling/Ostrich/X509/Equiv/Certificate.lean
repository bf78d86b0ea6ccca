import Mathlib.Data.List.ReduceOption
import Ostrich.X509.Equiv.NameChaining

/-!
# Certificates that are built and read

`certificateFields_eq_ok`: of a certificate that was built (`tbsToDer`) and signed, the parser reads
the serial number, the validity in seconds, the key and the basic constraints that were requested,
the key usages but decipherOnly (`mem_usagesOf`), and the alternative names but the directory names
(`texts_of_entries`).  `saysAll_iff`: so it says what was requested exactly if none of these two was
requested; `decipherOnly_lost` is a certificate for key agreement that does not.
-/

namespace Ostrich.X509

open Ca (SubjectAltName TbsCertificate)
open Common.TrustedTime (fromTimestamp)
open Der Text

/-! ### What is written and what is read -/

/-- The text of a key usage. -/
def KeyUsage.text : KeyUsage → String
  | .DigitalSignature => "digitalSignature"
  | .NonRepudiation => "nonRepudiation"
  | .KeyEncipherment => "keyEncipherment"
  | .DataEncipherment => "dataEncipherment"
  | .KeyAgreement => "keyAgreement"
  | .KeyCertSign => "keyCertSign"
  | .CrlSign => "cRLSign"
  | .EncipherOnly => "encipherOnly"
  | .DecipherOnly => "decipherOnly"

/-- The bit of a key usage in the BIT STRING (RFC 5280 §4.2.1.3). -/
def KeyUsage.index : KeyUsage → ℕ
  | .DigitalSignature => 0
  | .NonRepudiation => 1
  | .KeyEncipherment => 2
  | .DataEncipherment => 3
  | .KeyAgreement => 4
  | .KeyCertSign => 5
  | .CrlSign => 6
  | .EncipherOnly => 7
  | .DecipherOnly => 8

/-- The text of an alternative name: its kind and its value. -/
def sanText : SubjectAltName → Option String
  | .DnsName dns => some ("DNS:" ++ dns)
  | .Rfc822Name email => some ("email:" ++ email)
  | .UniformResourceIdentifier uri => some ("URI:" ++ uri)
  | .IpAddress ip => fmtIpSan (sanOctets ip)
  | .DirectoryName dn => some ("DirName:" ++ dn)

def isDirectoryName : SubjectAltName → Bool
  | .DirectoryName _ => true
  | _ => false

/-- The certificate says what was requested. -/
structure SaysAll (tbs : TbsCertificate) (fields : CertificateFields) : Prop where
  serialNumber : ofBytes fields.serialNumber = ofBytes tbs.serialNumber
  notBefore : fields.notBefore = .ofMicros (tbs.notBefore.secs * 1000000)
  notAfter : fields.notAfter = .ofMicros (tbs.notAfter.secs * 1000000)
  publicKey : fields.publicKey = tbs.publicKey
  basicConstraints : fields.basicConstraints.getD (false, none) =
    (tbs.basicConstraintsCa, tbs.basicConstraintsPathLen)
  keyUsage : ∀ text, text ∈ fields.keyUsage.getD [] ↔ ∃ usage ∈ tbs.keyUsage, usage.text = text
  subjectAltNames : fields.subjectAltNames.map some = tbs.subjectAltNames.map sanText

/-- The crates encode and decode DER: a content is read back from the certificate that is signed
over it, and a key that is accepted has one encoding. -/
structure FollowsRfc5280 (lib : CertLib) (algorithm signature : List UInt8) : Prop where
  fromDer : ∀ content der, lib.toDer content = .ok der →
    lib.fromDer (signedCertificate der algorithm signature) = .ok content
  spki : ∀ key der, lib.spkiFromDer key = .ok der → der = key

/-! ### Key usage -/

theorem testBit_foldl_bits (usages : List KeyUsage) (k : ℕ) : ∀ bits : UInt16,
    (usages.foldl (fun bits usage => bits ||| usage.bits) bits).toNat.testBit k =
      (bits.toNat.testBit k || usages.any fun usage => usage.bits.toNat.testBit k) := by
  induction usages with
  | nil => simp
  | cons usage usages ih =>
    intro bits
    rw [List.foldl_cons, ih, UInt16.toNat_or, Nat.testBit_or, List.any_cons, Bool.or_assoc]

theorem bitAt_u16ToBeBytes (bits : UInt16) {n : ℕ} (hn : n ≤ 8) :
    bitAt (u16ToBeBytes bits) n = bits.toNat.testBit (15 - n) := by
  have hlt : bits.toNat < 65536 := bits.toNat_lt
  unfold bitAt u16ToBeBytes
  -- the eighth bit is the first one of the second octet
  by_cases h8 : n = 8
  · subst h8
    show (UInt8.ofNat bits.toNat).toNat.testBit 7 = _
    rw [UInt8.toNat_ofNat', Nat.testBit_mod_two_pow]
    simp
  · have hn : n < 8 := by omega
    rw [Nat.div_eq_of_lt hn, Nat.mod_eq_of_lt hn]
    show (UInt8.ofNat (bits.toNat / 2 ^ 8)).toNat.testBit (7 - n) = _
    rw [UInt8.toNat_ofNat', Nat.mod_eq_of_lt (by omega), Nat.testBit_div_two_pow]
    congr 1
    omega

/-- The bits of the decipherOnly usage stand for nothing. -/
theorem testBit_bits (usage : KeyUsage) : ∀ n ≤ 8,
    usage.bits.toNat.testBit (15 - n) = decide (usage.index = n ∧ usage ≠ .DecipherOnly) := by
  cases usage <;> decide

theorem bitAt_keyUsageBits (usages : List KeyUsage) {n : ℕ} (hn : n ≤ 8) :
    bitAt (u16ToBeBytes (keyUsageBits usages)) n = true ↔
      ∃ usage ∈ usages, usage.index = n ∧ usage ≠ .DecipherOnly := by
  rw [bitAt_u16ToBeBytes _ hn, keyUsageBits, testBit_foldl_bits]
  simp only [UInt16.toNat_zero, Nat.zero_testBit, Bool.false_or, List.any_eq_true]
  refine exists_congr fun usage => and_congr_right fun _ => ?_
  rw [testBit_bits usage n hn, decide_eq_true_iff]

theorem mem_keyUsageFlags (usage : KeyUsage) : (usage.index, usage.text) ∈ keyUsageFlags := by
  cases usage <;> decide

theorem text_of_flag (usage : KeyUsage) : ∀ flag ∈ keyUsageFlags, usage.index = flag.1 →
    usage.text = flag.2 := by
  cases usage <;> decide

theorem index_le (usage : KeyUsage) : usage.index ≤ 8 := by
  cases usage <;> decide

theorem flag_le : ∀ flag ∈ keyUsageFlags, flag.1 ≤ 8 := by decide

/-- **The key usages that are read**: those that were written, but decipherOnly. -/
theorem mem_usagesOf (usages : List KeyUsage) (text : String) :
    text ∈ usagesOf (u16ToBeBytes (keyUsageBits usages)) ↔
      ∃ usage ∈ usages, usage ≠ .DecipherOnly ∧ usage.text = text := by
  unfold usagesOf
  rw [List.mem_map]
  constructor
  · rintro ⟨flag, hflag, rfl⟩
    obtain ⟨hmem, hbit⟩ := List.mem_filter.mp hflag
    obtain ⟨usage, husage, hindex, hne⟩ := (bitAt_keyUsageBits usages (flag_le flag hmem)).mp hbit
    exact ⟨usage, husage, hne, text_of_flag usage flag hmem hindex⟩
  · rintro ⟨usage, husage, hne, rfl⟩
    refine ⟨(usage.index, usage.text), List.mem_filter.mpr ⟨mem_keyUsageFlags usage, ?_⟩, rfl⟩
    exact (bitAt_keyUsageBits usages (index_le usage)).mpr ⟨usage, husage, rfl, hne⟩

theorem text_injective : Function.Injective KeyUsage.text := by
  intro a b h
  revert h
  cases a <;> cases b <;> decide

theorem usages_iff (usages : List KeyUsage) :
    (∀ text, text ∈ usagesOf (u16ToBeBytes (keyUsageBits usages)) ↔
      ∃ usage ∈ usages, usage.text = text) ↔ KeyUsage.DecipherOnly ∉ usages := by
  constructor
  · intro h hmem
    have hread := (h _).mpr ⟨_, hmem, rfl⟩
    obtain ⟨usage, -, hne, htext⟩ := (mem_usagesOf usages _).mp hread
    exact hne (text_injective htext)
  · intro hnot text
    rw [mem_usagesOf]
    refine exists_congr fun usage => and_congr_right fun husage => ?_
    refine and_iff_right fun heq => hnot ?_
    rwa [heq] at husage

/-! ### Alternative names -/

section

variable {lib : CertLib}

theorem ia5StringNew_eq_ok {what value text : String} (h : ia5StringNew lib what value = .ok text) :
    text = value := by
  unfold ia5StringNew at h
  split_ifs at h
  exact (Except.ok.inj h).symm

theorem fmtIpSan_sanOctets (ip : Net.IpAddr) : (fmtIpSan (sanOctets ip)).isSome := by
  cases ip with
  | v4 ip => rfl
  | v6 ip =>
    have hsegments : List.ofFn ip.segments = [ip.segments 0, ip.segments 1, ip.segments 2,
        ip.segments 3, ip.segments 4, ip.segments 5, ip.segments 6, ip.segments 7] := rfl
    rw [sanOctets, hsegments]
    rfl

/-- An alternative name is read as its own text, and a directory name is not written. -/
theorem sanEntry_eq_ok {san : SubjectAltName} {entry : Option GeneralName}
    (h : sanEntry lib san = .ok entry) :
    (isDirectoryName san = true ∧ entry = none) ∨
      (isDirectoryName san = false ∧ ∃ name text, entry = some name ∧
        fmtCertificateSan name = some text ∧ sanText san = some text) := by
  cases san with
  | DnsName dns =>
    obtain ⟨text, htext, h⟩ := bind_eq_ok h
    obtain rfl := Except.ok.inj h
    rw [ia5StringNew_eq_ok htext]
    exact .inr ⟨rfl, _, _, rfl, rfl, rfl⟩
  | Rfc822Name email =>
    obtain ⟨text, htext, h⟩ := bind_eq_ok h
    obtain rfl := Except.ok.inj h
    rw [ia5StringNew_eq_ok htext]
    exact .inr ⟨rfl, _, _, rfl, rfl, rfl⟩
  | UniformResourceIdentifier uri =>
    obtain ⟨text, htext, h⟩ := bind_eq_ok h
    obtain rfl := Except.ok.inj h
    rw [ia5StringNew_eq_ok htext]
    exact .inr ⟨rfl, _, _, rfl, rfl, rfl⟩
  | IpAddress ip =>
    obtain rfl := Except.ok.inj h
    obtain ⟨text, htext⟩ := Option.isSome_iff_exists.mp (fmtIpSan_sanOctets ip)
    exact .inr ⟨rfl, _, text, rfl, htext, htext⟩
  | DirectoryName dn =>
    obtain rfl := Except.ok.inj h
    exact .inl ⟨rfl, rfl⟩

/-- **The alternative names that are read**: those that were written, but the directory names. -/
theorem texts_of_entries {sans : List SubjectAltName} {entries : List (Option GeneralName)}
    (h : sans.mapM (sanEntry lib) = .ok entries) :
    (entries.reduceOption.filterMap fmtCertificateSan).map some =
      (sans.filter fun san => !isDirectoryName san).map sanText := by
  induction sans generalizing entries with
  | nil =>
    obtain rfl := Except.ok.inj h
    rfl
  | cons san sans ih =>
    rw [List.mapM_cons] at h
    obtain ⟨entry, hentry, h⟩ := bind_eq_ok h
    obtain ⟨rest, hrest, h⟩ := bind_eq_ok h
    obtain rfl := Except.ok.inj h
    rcases sanEntry_eq_ok hentry with ⟨hdir, rfl⟩ | ⟨hdir, name, text, rfl, hname, htext⟩
    · rw [List.reduceOption_cons_of_none, ih hrest, List.filter_cons, hdir]
      rfl
    · rw [List.reduceOption_cons_of_some, List.filterMap_cons, hname, List.filter_cons, hdir]
      show some text :: _ = sanText san :: _
      rw [ih hrest, htext]

theorem sans_iff {sans : List SubjectAltName} {texts : List String}
    (h : texts.map some = (sans.filter fun san => !isDirectoryName san).map sanText) :
    texts.map some = sans.map sanText ↔ ∀ dn, SubjectAltName.DirectoryName dn ∉ sans := by
  rw [h]
  constructor
  · intro heq dn hmem
    have hlength := congrArg List.length heq
    rw [List.length_map, List.length_map, List.length_filter_eq_length_iff] at hlength
    exact absurd (hlength _ hmem) (by simp [isDirectoryName])
  · intro hnone
    rw [List.filter_eq_self.mpr]
    intro san hsan
    cases san with
    | DirectoryName dn => exact absurd hsan (hnone dn)
    | _ => rfl

/-! ### Validity -/

theorem datetimeToTime_eq_ok {dt : DateTime} {t : CertTime} (hpos : 0 ≤ dt.secs)
    (hmax : dt.secs ≤ DateTime.maxSecs) (h : datetimeToTime lib dt = .ok t) :
    (t.secs : ℤ) = dt.secs := by
  have hsecs : (((dt.secs % 2 ^ 64).toNat : ℕ) : ℤ) = dt.secs := by
    unfold DateTime.maxSecs at hmax
    omega
  unfold datetimeToTime utcTimeNew generalizedTimeNew at h
  dsimp only at h
  split_ifs at h <;> (obtain rfl := Except.ok.inj h; exact hsecs)

theorem validityTime_of {what : String} {dt : DateTime} {t : CertTime} (hpos : 0 ≤ dt.secs)
    (hmax : dt.secs ≤ DateTime.maxSecs) (h : (t.secs : ℤ) = dt.secs) :
    validityTime what t = .ok (.ofMicros (dt.secs * 1000000)) := by
  have hmin : DateTime.minSecs ≤ dt.secs := by
    unfold DateTime.minSecs
    omega
  unfold validityTime fromTimestamp
  rw [h, if_pos ⟨hmin, hmax⟩]

/-! ### Extensions -/

theorem parse_keyUsage (usages : List KeyUsage) (result : ExtensionsResult) :
    (keyUsageExtension usages).foldl parseExtension result =
      { result with keyUsage := if usages.isEmpty then result.keyUsage
                      else some (usagesOf (u16ToBeBytes (keyUsageBits usages))) } := by
  unfold keyUsageExtension
  split_ifs <;> rfl

theorem parse_basicConstraints (ca : Bool) (pathLen : Option ℕ) (result : ExtensionsResult) :
    (basicConstraintsExtension ca pathLen).foldl parseExtension result =
      { result with basicConstraints := if ca || pathLen.isSome then some (ca, pathLen)
                      else result.basicConstraints } := by
  unfold basicConstraintsExtension
  split_ifs <;> rfl

theorem parse_extendedKeyUsage {usages : List ExtendedKeyUsage} {extensions : List CertExtension}
    (h : extendedKeyUsageExtension lib usages = .ok extensions) (result : ExtensionsResult) :
    extensions.foldl parseExtension result = result := by
  unfold extendedKeyUsageExtension at h
  split_ifs at h
  · obtain rfl := Except.ok.inj h
    rfl
  · obtain ⟨ekus, -, h⟩ := bind_eq_ok h
    obtain rfl := Except.ok.inj h
    rfl

theorem parse_subjectAltName {sans : List SubjectAltName} {extensions : List CertExtension}
    (h : subjectAltNameExtension lib sans = .ok extensions) (result : ExtensionsResult) :
    ∃ texts : List String,
      texts.map some = (sans.filter fun san => !isDirectoryName san).map sanText ∧
      extensions.foldl parseExtension result =
        { result with subjectAltNames := result.subjectAltNames ++ texts } := by
  unfold subjectAltNameExtension at h
  split_ifs at h with hempty
  · obtain rfl := Except.ok.inj h
    rw [List.isEmpty_iff.mp hempty]
    exact ⟨[], rfl, by rw [List.append_nil]; rfl⟩
  · obtain ⟨entries, hentries, h⟩ := bind_eq_ok h
    obtain rfl := Except.ok.inj h
    refine ⟨_, texts_of_entries hentries, ?_⟩
    split_ifs with hnone
    · rw [List.isEmpty_iff.mp hnone]
      show result = _
      rw [List.filterMap_nil, List.append_nil]
    · rfl

end

/-! ### The round trip -/

section

variable {lib : CertLib}

theorem mapError_eq_ok {α : Type} {text : String → String} {x : Except String α} {a : α}
    (h : x.mapError text = .ok a) : x = .ok a := by
  cases x with
  | ok b => exact congrArg _ (Except.ok.inj h)
  | error e => cases h

theorem ofBytes_toBytesBe (n : ℕ) : ofBytes (toBytesBe n) = n := by
  unfold toBytesBe
  split_ifs with hzero
  · rw [hzero]
    rfl
  · exact ofBytes_minBytes n

/-- What is read of the extensions that were built. -/
theorem parse_buildExtensions {tbs : TbsCertificate} {extensions : List CertExtension}
    (h : buildExtensions lib tbs = .ok extensions) :
    ∃ texts : List String,
      texts.map some =
        (tbs.subjectAltNames.filter fun san => !isDirectoryName san).map sanText ∧
      parseCertificateExtensions extensions =
        ⟨if tbs.basicConstraintsCa || tbs.basicConstraintsPathLen.isSome
          then some (tbs.basicConstraintsCa, tbs.basicConstraintsPathLen) else none,
          if tbs.keyUsage.isEmpty then none
          else some (usagesOf (u16ToBeBytes (keyUsageBits tbs.keyUsage))), texts⟩ := by
  obtain ⟨eku, heku, h⟩ := bind_eq_ok h
  obtain ⟨san, hsan, h⟩ := bind_eq_ok h
  obtain rfl := Except.ok.inj h
  obtain ⟨texts, htexts, hparse⟩ := parse_subjectAltName hsan
    ⟨if tbs.basicConstraintsCa || tbs.basicConstraintsPathLen.isSome
      then some (tbs.basicConstraintsCa, tbs.basicConstraintsPathLen) else none,
      if tbs.keyUsage.isEmpty then none
      else some (usagesOf (u16ToBeBytes (keyUsageBits tbs.keyUsage))), []⟩
  refine ⟨texts, htexts, ?_⟩
  unfold parseCertificateExtensions
  rw [List.foldl_append, List.foldl_append, List.foldl_append, parse_keyUsage,
    parse_basicConstraints, parse_extendedKeyUsage heku, hparse]
  rfl

/-- What is encoded is what was asked for. -/
theorem contentOf_eq_ok {tbs : TbsCertificate} {content : TbsContent}
    (hbefore : 0 ≤ tbs.notBefore.secs ∧ tbs.notBefore.secs ≤ DateTime.maxSecs)
    (hafter : 0 ≤ tbs.notAfter.secs ∧ tbs.notAfter.secs ≤ DateTime.maxSecs)
    (h : contentOf lib tbs = .ok content) :
    content.serialNumber = ofBytes tbs.serialNumber ∧
      (content.notBefore.secs : ℤ) = tbs.notBefore.secs ∧
      (content.notAfter.secs : ℤ) = tbs.notAfter.secs ∧
      lib.spkiFromDer tbs.publicKey = .ok content.subjectPublicKeyInfo ∧
      buildExtensions lib tbs = .ok content.extensions := by
  obtain ⟨serial, hserial, h⟩ := bind_eq_ok h
  obtain ⟨issuer, -, h⟩ := bind_eq_ok h
  obtain ⟨subject, -, h⟩ := bind_eq_ok h
  obtain ⟨notBefore, hnotBefore, h⟩ := bind_eq_ok h
  obtain ⟨notAfter, hnotAfter, h⟩ := bind_eq_ok h
  obtain ⟨spki, hspki, h⟩ := bind_eq_ok h
  obtain ⟨extensions, hextensions, h⟩ := bind_eq_ok h
  obtain rfl := Except.ok.inj h
  refine ⟨?_, datetimeToTime_eq_ok hbefore.1 hbefore.2 hnotBefore,
    datetimeToTime_eq_ok hafter.1 hafter.2 hnotAfter, mapError_eq_ok hspki, hextensions⟩
  unfold serialNew at hserial
  split_ifs at hserial
  exact (Except.ok.inj hserial).symm

/-- **The fields that are read of a certificate that was built.** -/
theorem certificateFields_eq_ok {algorithm signature : List UInt8}
    (hlib : FollowsRfc5280 lib algorithm signature) {tbs : TbsCertificate}
    (hbefore : 0 ≤ tbs.notBefore.secs ∧ tbs.notBefore.secs ≤ DateTime.maxSecs)
    (hafter : 0 ≤ tbs.notAfter.secs ∧ tbs.notAfter.secs ≤ DateTime.maxSecs)
    {der : List UInt8} (hder : tbsToDer lib tbs = .ok der) :
    ∃ fields, certificateFields lib (signedCertificate der algorithm signature) = .ok fields ∧
      ofBytes fields.serialNumber = ofBytes tbs.serialNumber ∧
      fields.notBefore = .ofMicros (tbs.notBefore.secs * 1000000) ∧
      fields.notAfter = .ofMicros (tbs.notAfter.secs * 1000000) ∧
      fields.publicKey = tbs.publicKey ∧
      fields.basicConstraints.getD (false, none) =
        (tbs.basicConstraintsCa, tbs.basicConstraintsPathLen) ∧
      fields.keyUsage.getD [] = (if tbs.keyUsage.isEmpty then []
        else usagesOf (u16ToBeBytes (keyUsageBits tbs.keyUsage))) ∧
      fields.subjectAltNames.map some =
        (tbs.subjectAltNames.filter fun san => !isDirectoryName san).map sanText := by
  obtain ⟨content, hcontent, hder⟩ := bind_eq_ok hder
  obtain ⟨hserial, hnotBefore, hnotAfter, hspki, hextensions⟩ :=
    contentOf_eq_ok hbefore hafter hcontent
  obtain ⟨texts, htexts, hparse⟩ := parse_buildExtensions hextensions
  have hread := hlib.fromDer _ der (mapError_eq_ok hder)
  have hfirst : validityTime "notBefore" content.notBefore =
      .ok (.ofMicros (tbs.notBefore.secs * 1000000)) :=
    validityTime_of hbefore.1 hbefore.2 hnotBefore
  have hlast : validityTime "notAfter" content.notAfter =
      .ok (.ofMicros (tbs.notAfter.secs * 1000000)) :=
    validityTime_of hafter.1 hafter.2 hnotAfter
  have hfields : certificateFields lib (signedCertificate der algorithm signature) = .ok
      ⟨toBytesBe content.serialNumber, .ofMicros (tbs.notBefore.secs * 1000000),
        .ofMicros (tbs.notAfter.secs * 1000000), content.subjectPublicKeyInfo,
        if tbs.basicConstraintsCa || tbs.basicConstraintsPathLen.isSome
          then some (tbs.basicConstraintsCa, tbs.basicConstraintsPathLen) else none,
        if tbs.keyUsage.isEmpty then none
          else some (usagesOf (u16ToBeBytes (keyUsageBits tbs.keyUsage))), texts⟩ := by
    have hne : signedCertificate der algorithm signature ≠ [] := List.cons_ne_nil _ _
    unfold certificateFields
    rw [if_neg hne, hread]
    dsimp only [parseErr, Bind.bind, Except.bind]
    rw [hfirst]
    dsimp only
    rw [hlast]
    dsimp only
    rw [hparse]
    rfl
  refine ⟨_, hfields, ?_, rfl, rfl, hlib.spki _ _ hspki, ?_, ?_, htexts⟩
  · dsimp only
    rw [ofBytes_toBytesBe, hserial]
  · -- without the extension, a certificate is no CA's and has no path length
    cases tbs.basicConstraintsCa <;> cases tbs.basicConstraintsPathLen <;> rfl
  · dsimp only
    split_ifs <;> rfl

/-- **A certificate says what was requested if and only if no decipherOnly and no directory name
was.** -/
theorem saysAll_iff {algorithm signature : List UInt8}
    (hlib : FollowsRfc5280 lib algorithm signature) {tbs : TbsCertificate}
    (hbefore : 0 ≤ tbs.notBefore.secs ∧ tbs.notBefore.secs ≤ DateTime.maxSecs)
    (hafter : 0 ≤ tbs.notAfter.secs ∧ tbs.notAfter.secs ≤ DateTime.maxSecs)
    {der : List UInt8} (hder : tbsToDer lib tbs = .ok der) :
    (∃ fields, certificateFields lib (signedCertificate der algorithm signature) = .ok fields ∧
      SaysAll tbs fields) ↔
      KeyUsage.DecipherOnly ∉ tbs.keyUsage ∧
        ∀ dn, SubjectAltName.DirectoryName dn ∉ tbs.subjectAltNames := by
  obtain ⟨fields, hfields, hserial, hnotBefore, hnotAfter, hkey, hconstraints, husage, hsans⟩ :=
    certificateFields_eq_ok hlib hbefore hafter hder
  have husages : (∀ text, text ∈ fields.keyUsage.getD [] ↔
      ∃ usage ∈ tbs.keyUsage, usage.text = text) ↔ KeyUsage.DecipherOnly ∉ tbs.keyUsage := by
    rw [husage]
    split_ifs with hempty
    · rw [List.isEmpty_iff.mp hempty]
      simp
    · exact usages_iff tbs.keyUsage
  constructor
  · rintro ⟨fields', hfields', hall⟩
    obtain rfl := Except.ok.inj (hfields.symm.trans hfields')
    exact ⟨husages.mp hall.keyUsage, (sans_iff hsans).mp hall.subjectAltNames⟩
  · rintro ⟨hno, hnone⟩
    exact ⟨fields, hfields, hserial, hnotBefore, hnotAfter, hkey, hconstraints, husages.mpr hno,
      (sans_iff hsans).mpr hnone⟩

end

/-! ### Two certificates -/

def timeDer (t : CertTime) : List UInt8 :=
  let digits := (DateTime.dateText (t.secs / 86400) ++
    DateTime.timeText (.ofMicros (t.secs * 1000000))).filter Char.isDigit ++ ['Z']
  match t with
  | .UtcTime _ => tlv 0x17 (utf8 (String.ofList (digits.drop 2)))
  | .GeneralTime _ => tlv 0x18 (utf8 (String.ofList digits))

def generalNameDer : GeneralName → List UInt8
  | .RFC822Name email => tlv 0x81 (utf8 email)
  | .DNSName dns => tlv 0x82 (utf8 dns)
  | .URI uri => tlv 0x86 (utf8 uri)
  | .IPAddress ip => tlv 0x87 ip
  | _ => []

/-- The last arc of the OID of an extension, and the value. -/
def extensionValueDer : ExtensionValue → UInt8 × List UInt8
  | .KeyUsage bits => (0x0F, tlv 0x03 (0x00 :: bits))
  | .BasicConstraints ca pathLen => (0x13, tlv 0x30 ((if ca then tlv 0x01 [0xFF] else []) ++
    pathLen.elim [] fun n => tlv 0x02 (uintContent n)))
  | .ExtendedKeyUsage oids => (0x25, tlv 0x30 (oids.flatMap fun oid => tlv 0x06 (oidOctets oid)))
  | .SubjectAlternativeName names => (0x11, tlv 0x30 (names.flatMap generalNameDer))

def extensionDer (ext : CertExtension) : List UInt8 :=
  let (arc, value) := extensionValueDer ext.value
  tlv 0x30 (tlv 0x06 [0x55, 0x1D, arc] ++
    ((if ext.critical then tlv 0x01 [0xFF] else []) ++ tlv 0x04 value))

/-- The DER of a content that is signed with Ed25519. -/
def contentDer (content : TbsContent) : List UInt8 :=
  tlv 0x30 (tlv 0xA0 (tlv 0x02 [0x02]) ++ (tlv 0x02 (uintContent content.serialNumber) ++
    (ed25519Identifier ++ (nameDer oidOctets content.issuer ++
    (tlv 0x30 (timeDer content.notBefore ++ timeDer content.notAfter) ++
    (nameDer oidOctets content.subject ++ (content.subjectPublicKeyInfo ++
    tlv 0xA3 (tlv 0x30 (content.extensions.flatMap extensionDer)))))))))

/-- The other crates on this content. -/
def libFor (content : TbsContent) (signature : List UInt8) : CertLib where
  toDer c := if c = content then .ok (contentDer c) else .error "unsupported"
  fromDer der :=
    if der = signedCertificate (contentDer content) ed25519Identifier signature then .ok content
    else .error "Parsing Error"
  spkiFromDer key := .ok key
  oidNew oid := .ok oid
  derError := "malformed ASN.1 DER value"

theorem followsRfc5280_libFor (content : TbsContent) (signature : List UInt8) :
    FollowsRfc5280 (libFor content signature) ed25519Identifier signature where
  fromDer c der h := by
    have htoDer : (if c = content then .ok (contentDer c) else .error "unsupported" :
        Except String (List UInt8)) = .ok der := h
    split_ifs at htoDer with heq
    obtain rfl := Except.ok.inj htoDer
    rw [heq]
    unfold libFor
    dsimp only
    rw [if_pos rfl]
  spki key der h := (Except.ok.inj h).symm

/-- An Ed25519 key. -/
def serverKey : List UInt8 :=
  tlv 0x30 (ed25519Identifier ++ tlv 0x03 (0x00 :: List.replicate 32 0x2A))

/-- The certificate of a server, with these key usages. -/
def serverTbs (usages : List KeyUsage) : TbsCertificate where
  serialNumber := [0x01, 0x2A]
  subject := { commonName := some "a.example" }
  issuer := { commonName := some "Root" }
  notBefore := .ofMicros (1735689600 * 1000000)
  notAfter := .ofMicros (1767225600 * 1000000)
  publicKey := serverKey
  keyUsage := usages
  extendedKeyUsage := [.ServerAuth]
  basicConstraintsCa := false
  basicConstraintsPathLen := none
  subjectAltNames := [.DnsName "a.example", .IpAddress (.v4 ⟨![192, 0, 2, 1]⟩)]

/-- What is encoded of it. -/
def serverContent (bits : List UInt8) : TbsContent where
  serialNumber := 298
  issuer := [[⟨"2.5.4.3", 0x0C, utf8 "Root"⟩]]
  notBefore := .UtcTime 1735689600
  notAfter := .UtcTime 1767225600
  subject := [[⟨"2.5.4.3", 0x0C, utf8 "a.example"⟩]]
  subjectPublicKeyInfo := serverKey
  extensions := [⟨"2.5.29.15", true, .KeyUsage bits⟩,
    ⟨"2.5.29.37", false, .ExtendedKeyUsage ["1.3.6.1.5.5.7.3.1"]⟩,
    ⟨"2.5.29.17", false, .SubjectAlternativeName [.DNSName "a.example", .IPAddress [192, 0, 2, 1]]⟩]

theorem tbsToDer_libFor {tbs : TbsCertificate} {content : TbsContent} {signature : List UInt8}
    (h : contentOf (libFor content signature) tbs = .ok content) :
    tbsToDer (libFor content signature) tbs = .ok (contentDer content) := by
  unfold tbsToDer
  rw [h]
  show Except.mapError _ (if content = content then _ else _) = _
  rw [if_pos rfl]
  rfl

theorem server_saysAll :
    ∃ fields, certificateFields (libFor (serverContent [0xA0, 0x00]) (List.replicate 64 0x2A))
        (signedCertificate (contentDer (serverContent [0xA0, 0x00])) ed25519Identifier
          (List.replicate 64 0x2A)) = .ok fields ∧
      SaysAll (serverTbs [.DigitalSignature, .KeyEncipherment]) fields := by
  refine (saysAll_iff (followsRfc5280_libFor _ _) (by decide) (by decide)
    (tbsToDer_libFor ?_)).mpr ⟨by decide, ?_⟩
  · rfl
  · intro dn
    simp [serverTbs]

theorem decipherOnly_lost :
    ¬ ∃ fields, certificateFields (libFor (serverContent [0x08, 0x01]) (List.replicate 64 0x2A))
        (signedCertificate (contentDer (serverContent [0x08, 0x01])) ed25519Identifier
          (List.replicate 64 0x2A)) = .ok fields ∧
      SaysAll (serverTbs [.KeyAgreement, .DecipherOnly]) fields := by
  rintro ⟨fields, hfields, hall⟩
  have hcontent : contentOf (libFor (serverContent [0x08, 0x01]) (List.replicate 64 0x2A))
      (serverTbs [.KeyAgreement, .DecipherOnly]) = .ok (serverContent [0x08, 0x01]) := rfl
  obtain ⟨read, hread, -, -, -, -, -, husage, -⟩ :=
    certificateFields_eq_ok (followsRfc5280_libFor _ _) (by decide) (by decide)
      (tbsToDer_libFor hcontent)
  obtain rfl := Except.ok.inj (hread.symm.trans hfields)
  have hmem := (hall.keyUsage "decipherOnly").mpr ⟨.DecipherOnly, by decide, rfl⟩
  rw [husage] at hmem
  revert hmem
  decide

end Ostrich.X509
