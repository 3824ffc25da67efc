import SecureBoot.Proofs.X509
import SecureBoot.Text.Utf8

/-!
# Certificates written again

**Theorem (`encode_eq_iff`).** What was read strictly from some bytes is written as these bytes if
and only if they are a distinguished encoding: they do not spell out the first version, have the
attributes of both names in order, state that an extension is critical only where it is, and hold no
numbered field that is passed over.

Reading cuts a certificate into the elements of its fields (`reads_of_decode?`), and writing joins
the elements that the fields are written as (`encode_eq`). Both are rows, and rows are equal if and
only if their elements are. So the two are compared field by field: most fields have only one form,
and the others give the clauses of `Pieces.IsDistinguished`.

**Writing again changes nothing further** (`isDistinguished_encode`): what is written is
distinguished.
-/

namespace SecureBoot.X509

open Der

namespace Certificate

/-! ## Numbered fields -/

/-- The number of a numbered field. -/
def numberOf (e : Element) : Nat := e.tag.toNat % 32

/-- What is taken comes first but for fields of smaller numbers. -/
theorem takeContext_eq {number : Nat} {es rest : List Element} {found : Option Element}
    (h : takeContext number es = (found, rest)) :
    (∃ passed, es = passed ++ found.toList ++ rest ∧
        ∀ e ∈ passed, isContext e.tag ∧ numberOf e < number) ∧
      ∀ e ∈ found, isContext e.tag ∧ numberOf e = number := by
  induction es with
  | nil =>
    cases h
    exact ⟨⟨[], rfl, nofun⟩, nofun⟩
  | cons e tail ih =>
    rw [takeContext] at h
    split at h
    · rename_i hfound
      cases h
      exact ⟨⟨[], rfl, nofun⟩, fun _ he => Option.mem_some_iff.1 he ▸ hfound⟩
    · split at h
      · rename_i hpassed
        obtain ⟨⟨passed, htail, hcontext⟩, hnumber⟩ := ih h
        exact ⟨⟨e :: passed, by rw [htail]; rfl, List.forall_mem_cons.2 ⟨hpassed, hcontext⟩⟩,
          hnumber⟩
      · cases h
        exact ⟨⟨[], rfl, nofun⟩, nofun⟩

theorem isContext_of_takeContext {number : Nat} {es rest : List Element} {found : Option Element}
    (h : takeContext number es = (found, rest)) (hrest : ∀ e ∈ rest, isContext e.tag) :
    ∀ e ∈ es, isContext e.tag := by
  obtain ⟨⟨passed, rfl, hpassed⟩, hfound⟩ := takeContext_eq h
  intro e he
  rw [List.mem_append, List.mem_append, Option.mem_toList] at he
  rcases he with (he | he) | he
  · exact (hpassed e he).1
  · exact (hfound e he).1
  · exact hrest e he

/-- Among ascending fields nothing is passed over. -/
theorem takeContext_of_ascending {number : Nat} {es rest : List Element} {found : Option Element}
    (h : takeContext number es = (found, rest)) (hes : es.Pairwise (numberOf · < numberOf ·))
    (hle : ∀ e ∈ es, number ≤ numberOf e) (hcontext : ∀ e ∈ es, isContext e.tag) :
    es = found.toList ++ rest ∧ ∀ e ∈ rest, number < numberOf e := by
  rcases es with _ | ⟨e, tail⟩
  · cases h
    exact ⟨rfl, nofun⟩
  · rw [List.forall_mem_cons] at hle hcontext
    rw [List.pairwise_cons] at hes
    rw [takeContext] at h
    split at h
    · rename_i hfound
      cases h
      exact ⟨rfl, fun e' he' => hfound.2.symm.trans_lt (hes.1 e' he')⟩
    · rename_i hother
      rw [if_neg fun hpassed => Nat.not_lt.2 hle.1 hpassed.2] at h
      cases h
      have hlt : number < numberOf e := hle.1.lt_of_ne fun heq => hother ⟨hcontext.1, heq.symm⟩
      exact ⟨rfl, List.forall_mem_cons.2 ⟨hlt, fun e' he' => hlt.trans (hes.1 e' he')⟩⟩

/-- Fields with the numbers one to three, taken in this order until none are left, are all that
there are if and only if their numbers ascend. -/
theorem ascending_iff {es rest rest' : List Element} {first second third : Option Element}
    (hfirst : takeContext 1 es = (first, rest)) (hsecond : takeContext 2 rest = (second, rest'))
    (hthird : takeContext 3 rest' = (third, [])) :
    (0 :: es.map numberOf).Pairwise (· < ·) ↔
      es = first.toList ++ (second.toList ++ third.toList) := by
  rw [List.pairwise_cons, List.forall_mem_map, List.pairwise_map]
  constructor
  · rintro ⟨hpositive, hascending⟩
    have hall'' := isContext_of_takeContext hthird nofun
    have hall' := isContext_of_takeContext hsecond hall''
    have hall := isContext_of_takeContext hfirst hall'
    obtain ⟨rfl, hlt⟩ := takeContext_of_ascending hfirst hascending hpositive hall
    have hascending' := (List.pairwise_append.1 hascending).2.1
    obtain ⟨rfl, hlt'⟩ := takeContext_of_ascending hsecond hascending' hlt hall'
    have hascending'' := (List.pairwise_append.1 hascending').2.1
    obtain ⟨hall, -⟩ := takeContext_of_ascending hthird hascending'' hlt' hall''
    rw [hall, List.append_nil]
  · rintro rfl
    have hsingle : ∀ o : Option Element, o.toList.Pairwise (numberOf · < numberOf ·) := by
      rintro (_ | _) <;> simp
    have h₁ : ∀ e ∈ first.toList, numberOf e = 1 := fun e he =>
      ((takeContext_eq hfirst).2 e (Option.mem_toList.1 he)).2
    have h₂ : ∀ e ∈ second.toList, numberOf e = 2 := fun e he =>
      ((takeContext_eq hsecond).2 e (Option.mem_toList.1 he)).2
    have h₃ : ∀ e ∈ third.toList, numberOf e = 3 := fun e he =>
      ((takeContext_eq hthird).2 e (Option.mem_toList.1 he)).2
    refine ⟨?_, List.pairwise_append.2
      ⟨hsingle _, List.pairwise_append.2 ⟨hsingle _, hsingle _, ?_⟩, ?_⟩⟩ <;> grind

/-- If as many fields are taken as there are, none is passed over. -/
theorem eq_append_of_length {es rest rest' : List Element} {first second third : Option Element}
    (hfirst : takeContext 1 es = (first, rest)) (hsecond : takeContext 2 rest = (second, rest'))
    (hthird : takeContext 3 rest' = (third, []))
    (hlength : es.length = (first.toList ++ (second.toList ++ third.toList)).length) :
    es = first.toList ++ (second.toList ++ third.toList) := by
  obtain ⟨⟨passed, rfl, -⟩, -⟩ := takeContext_eq hfirst
  obtain ⟨⟨passed', rfl, -⟩, -⟩ := takeContext_eq hsecond
  obtain ⟨⟨passed'', rfl, -⟩, -⟩ := takeContext_eq hthird
  simp only [List.length_append, List.length_nil] at hlength
  obtain rfl : passed = [] := List.eq_nil_of_length_eq_zero (by omega)
  obtain rfl : passed' = [] := List.eq_nil_of_length_eq_zero (by omega)
  obtain rfl : passed'' = [] := List.eq_nil_of_length_eq_zero (by omega)
  rw [List.append_nil, List.nil_append, List.nil_append, List.nil_append]

/-! ## Read -/

/-- The elements of the fields of a certificate. -/
@[ext]
structure Pieces where
  version : Option Element
  serial : Element
  signature : Element
  issuer : Element
  validity : Element
  subject : Element
  publicKey : Element
  /-- The numbered fields behind the key. -/
  numbered : List Element
  signatureAlgorithm : Element
  signatureValue : Element

namespace Pieces

def fields (p : Pieces) : List Element :=
  p.version.toList ++ [p.serial, p.signature, p.issuer, p.validity, p.subject, p.publicKey] ++
    p.numbered

def element (p : Pieces) : Element :=
  row Tag.sequence [row Tag.sequence p.fields, p.signatureAlgorithm, p.signatureValue]

end Pieces

/-- What is read from the elements of a certificate. -/
structure Reads (p : Pieces) (c : Certificate) : Prop where
  version : (p.version = none ∧ c.version = 0) ∨
    ∃ field, p.version = some field ∧ version? .strict field = some c.version
  serial : serial? .strict p.serial = some c.serial
  signature : Algorithm.ofElement? .strict p.signature = some c.signature
  issuer : Name.ofElement? .strict p.issuer = some c.issuer
  validity : Validity.ofElement? .strict p.validity = some c.validity
  subject : Name.ofElement? .strict p.subject = some c.subject
  publicKey : PublicKey.ofElement? .strict p.publicKey = some c.publicKey
  numbered : ∃ issuerId subjectId extensions rest rest',
    takeContext 1 p.numbered = (issuerId, rest) ∧ takeContext 2 rest = (subjectId, rest') ∧
      takeContext 3 rest' = (extensions, []) ∧ uniqueId? 1 issuerId = some c.issuerId ∧
      uniqueId? 2 subjectId = some c.subjectId ∧ extensions? .strict extensions = some c.extensions
  signatureAlgorithm : Algorithm.ofElement? .strict p.signatureAlgorithm = some c.signatureAlgorithm
  signatureValue : BitString.ofElement? p.signatureValue = some c.signatureValue

theorem exists_version {field : Option Element} {f : Nat → Option Certificate} {c : Certificate}
    (h : (match field with
      | none => some 0 >>= f
      | some field => version? .strict field >>= f) = some c) :
    ∃ version, f version = some c ∧ ((field = none ∧ version = 0) ∨
      ∃ e, field = some e ∧ version? .strict e = some version) := by
  cases field with
  | none => exact ⟨0, h, .inl ⟨rfl, rfl⟩⟩
  | some e =>
    obtain ⟨version, hversion, h⟩ := bind_eq_some.1 h
    exact ⟨version, h, .inr ⟨e, rfl, hversion⟩⟩

theorem reads_of_decode? {x : Bytes} {c : Certificate} (h : decode? .strict x = some c) :
    ∃ p, single? .strict x = some p.element ∧ Reads p c := by
  obtain ⟨whole, hwhole, h⟩ := bind_eq_some.1 h
  obtain ⟨es, hinside, h⟩ := bind_eq_some.1 h
  rcases es with _ | ⟨toBeSigned, _ | ⟨signatureAlgorithm, _ | ⟨signatureValue, _ | ⟨_, _⟩⟩⟩⟩
  · cases h
  · cases h
  · cases h
  swap
  · cases h
  obtain ⟨fields, hfields, h⟩ := bind_eq_some.1 h
  rcases hversionField : takeContext 0 fields with ⟨versionField, rest⟩
  rw [hversionField] at h
  obtain ⟨version, h, hversion⟩ := exists_version h
  rcases rest with _ | ⟨serial, _ | ⟨signature, _ | ⟨issuer, _ | ⟨validity, _ | ⟨subject, _ |
    ⟨publicKey, numbered⟩⟩⟩⟩⟩⟩
  · cases h
  · cases h
  · cases h
  · cases h
  · cases h
  · cases h
  dsimp only at h
  rcases hissuerId : takeContext 1 numbered with ⟨issuerId, rest⟩
  rw [hissuerId] at h
  dsimp only at h
  rcases hsubjectId : takeContext 2 rest with ⟨subjectId, rest'⟩
  rw [hsubjectId] at h
  dsimp only at h
  rcases hextensions : takeContext 3 rest' with ⟨extensions, rest''⟩
  rw [hextensions] at h
  obtain ⟨hend, h⟩ := guard_bind_eq_some.1 h
  rw [List.isEmpty_iff] at hend
  subst hend
  obtain ⟨_, hserial, h⟩ := bind_eq_some.1 h
  obtain ⟨_, hsignature, h⟩ := bind_eq_some.1 h
  obtain ⟨_, hissuer, h⟩ := bind_eq_some.1 h
  obtain ⟨_, hvalidity, h⟩ := bind_eq_some.1 h
  obtain ⟨_, hsubject, h⟩ := bind_eq_some.1 h
  obtain ⟨_, hpublicKey, h⟩ := bind_eq_some.1 h
  obtain ⟨_, hissuerIdRead, h⟩ := bind_eq_some.1 h
  obtain ⟨_, hsubjectIdRead, h⟩ := bind_eq_some.1 h
  obtain ⟨_, hextensionsRead, h⟩ := bind_eq_some.1 h
  obtain ⟨_, hsignatureAlgorithm, h⟩ := bind_eq_some.1 h
  obtain ⟨_, hsignatureValue, h⟩ := bind_eq_some.1 h
  cases h
  refine ⟨⟨versionField, serial, signature, issuer, validity, subject, publicKey, numbered,
    signatureAlgorithm, signatureValue⟩, ?_, {
      version := ?_
      serial := hserial
      signature := hsignature
      issuer := hissuer
      validity := hvalidity
      subject := hsubject
      publicKey := hpublicKey
      numbered := ⟨_, _, _, _, _, hissuerId, hsubjectId, hextensions, hissuerIdRead,
        hsubjectIdRead, hextensionsRead⟩
      signatureAlgorithm := hsignatureAlgorithm
      signatureValue := hsignatureValue }⟩
  · obtain ⟨⟨passed, rfl, hpassed⟩, -⟩ := takeContext_eq hversionField
    obtain rfl := List.eq_nil_iff_forall_not_mem.2 fun e he => Nat.not_lt_zero _ (hpassed e he).2
    rw [hwhole, eq_row_of_inside? hinside, eq_row_of_inside? hfields, List.nil_append,
      Pieces.element, Pieces.fields, List.append_assoc]
    rfl
  · exact hversion

/-! ## Written again -/

/-- The field of the version as it is written. -/
def versionField (version : Nat) : Option Element :=
  if version = 0 then none else some (row (Tag.context 0) [⟨Tag.integer, [UInt8.ofNat version]⟩])

/-- The field of an identifier as it is written. -/
def uniqueIdField (number : Nat) (id : Option BitString) : Option Element :=
  id.map fun s => ⟨Tag.contextPrimitive number, s.content⟩

/-- The field of the extensions as it is written. -/
def extensionsField (extensions : Option (List Extension)) : Option Element :=
  extensions.map fun xs => row (Tag.context 3) [row Tag.sequence (xs.map Extension.element)]

/-- The elements that a certificate is written as. -/
def pieces (c : Certificate) : Pieces where
  version := versionField c.version
  serial := ⟨Tag.integer, c.serial⟩
  signature := c.signature.element
  issuer := c.issuer.element
  validity := c.validity.element
  subject := c.subject.element
  publicKey := c.publicKey.element
  numbered := (uniqueIdField 1 c.issuerId).toList ++
    ((uniqueIdField 2 c.subjectId).toList ++ (extensionsField c.extensions).toList)
  signatureAlgorithm := c.signatureAlgorithm.element
  signatureValue := c.signatureValue.element

theorem flatten_encode_map_toList {α : Type} (o : Option α) (f : α → Element) :
    ((o.map f).toList.map Element.encode).flatten = (o.map fun a => (f a).encode).getD [] := by
  cases o <;> simp

theorem encodeToBeSigned_eq (c : Certificate) :
    c.encodeToBeSigned = (row Tag.sequence c.pieces.fields).encode := by
  have hextension : Extension.encode = fun x => x.element.encode := funext Extension.encode_eq
  have hversion : (c.pieces.version.toList.map Element.encode).flatten =
      if c.version = 0 then [] else Der.context 0 [Der.smallInteger c.version] := by
    rw [pieces, versionField]
    split <;> simp [row, Der.context, Der.smallInteger, Der.element]
  have hnumbered : (c.pieces.numbered.map Element.encode).flatten =
      (c.issuerId.map fun s => Der.element (Tag.contextPrimitive 1) s.content).getD [] ++
        ((c.subjectId.map fun s => Der.element (Tag.contextPrimitive 2) s.content).getD [] ++
          (c.extensions.map fun xs =>
            Der.context 3 [Der.sequence (xs.map Extension.encode)]).getD []) := by
    rw [pieces]
    simp only [uniqueIdField, extensionsField, List.map_append, List.flatten_append,
      flatten_encode_map_toList, Der.element, Der.context, Der.sequence, row, hextension,
      List.map_map, List.map_cons, List.map_nil, List.flatten_cons, List.flatten_nil,
      List.append_nil, Function.comp_def]
  rw [encodeToBeSigned, row, Der.sequence, Pieces.fields, List.map_append, List.map_append,
    List.flatten_append, List.flatten_append, hversion, hnumbered]
  simp only [pieces, Algorithm.encode_eq, Name.encode_eq, Validity.encode_eq, PublicKey.encode_eq,
    Der.element, List.map_cons, List.map_nil, List.flatten_cons, List.flatten_nil, List.append_nil,
    List.append_assoc]

theorem encode_eq (c : Certificate) : c.encode = c.pieces.element.encode := by
  simp [encode, encodeToBeSigned_eq, Pieces.element, pieces, Algorithm.encode_eq, Der.sequence,
    Der.element, row, BitString.element]

/-! ## Distinguished encodings -/

/-- The first version, spelled out. -/
def firstVersion : Element := row (Tag.context 0) [⟨Tag.integer, [0]⟩]

/-- The extensions in a numbered field. -/
def extensionsIn (field : Element) : List Element :=
  match field.inside? .strict (Tag.context 3) with
  | some [extensions] => (extensions.inside? .strict Tag.sequence).getD []
  | _ => []

/-- Whether fields leave unsaid what goes without saying, are in order, and are all looked at. -/
structure Pieces.IsDistinguished (p : Pieces) : Prop where
  version : p.version ≠ some firstVersion
  issuer : Name.IsOrdered p.issuer
  subject : Name.IsOrdered p.subject
  numbered : (0 :: p.numbered.map numberOf).Pairwise (· < ·)
  extensions : ∀ field ∈ p.numbered, ∀ e ∈ extensionsIn field, Extension.IsPlain e

/-- Whether some bytes are a certificate in the form in which it is written. -/
def IsDistinguished (x : Bytes) : Prop :=
  ∃ p c, single? .strict x = some p.element ∧ Reads p c ∧ p.IsDistinguished

/-! ## Fields from their row -/

variable {p q : Pieces} {c : Certificate}

/-- What tells the version from the serial number. -/
structure Pieces.IsTagged (p : Pieces) : Prop where
  version : ∀ e ∈ p.version, e.tag = Tag.context 0
  serial : p.serial.tag = Tag.integer

theorem Pieces.fields_inj (hp : p.IsTagged) (hq : q.IsTagged) :
    p.fields = q.fields ↔ p.version = q.version ∧ p.serial = q.serial ∧
      p.signature = q.signature ∧ p.issuer = q.issuer ∧ p.validity = q.validity ∧
      p.subject = q.subject ∧ p.publicKey = q.publicKey ∧ p.numbered = q.numbered := by
  have hne : Tag.context 0 ≠ Tag.integer := by decide
  rw [fields, fields]
  rcases hversion : p.version with _ | v <;> rcases hversion' : q.version with _ | w
  · simp
  · have hw := hq.version w hversion'
    simp only [Option.toList_none, Option.toList_some, List.nil_append, List.cons_append,
      List.cons.injEq, reduceCtorEq, false_and, iff_false]
    rintro ⟨hserial, -⟩
    exact hne (hw.symm.trans (hserial ▸ hp.serial))
  · have hv := hp.version v hversion
    simp only [Option.toList_none, Option.toList_some, List.nil_append, List.cons_append,
      List.cons.injEq, reduceCtorEq, false_and, iff_false]
    rintro ⟨hserial, -⟩
    exact hne (hv.symm.trans (hserial ▸ hq.serial))
  · simp

theorem Pieces.element_inj (hp : p.IsTagged) (hq : q.IsTagged)
    (hlength : q.element.content.length < 2 ^ 64) : p.element = q.element ↔ p = q := by
  have hfields := length_lt_of_mem_row (e := row Tag.sequence q.fields) List.mem_cons_self hlength
  rw [Pieces.ext_iff, element, element, row_inj hlength, List.cons_eq_cons, row_inj hfields,
    fields_inj hp hq, List.cons_eq_cons, List.cons_eq_cons]
  tauto

theorem eq_of_version? {field : Element} {n : Nat} (h : version? .strict field = some n) :
    ∃ octet, field = row (Tag.context 0) [⟨Tag.integer, [octet]⟩] ∧ octet.toNat = n := by
  obtain ⟨es, hinside, h⟩ := bind_eq_some.1 h
  rcases es with _ | ⟨number, _ | ⟨_, _⟩⟩
  · cases h
  swap
  · cases h
  obtain ⟨content, hcontent, h⟩ := bind_eq_some.1 h
  rcases content with _ | ⟨octet, _ | ⟨_, _⟩⟩
  · cases h
  swap
  · cases h
  obtain ⟨-, h⟩ := guard_bind_eq_some.1 h
  cases h
  exact ⟨octet, by rw [eq_row_of_inside? hinside, eq_of_contentOf? hcontent], rfl⟩

theorem eq_of_serial? {e : Element} {serial : Bytes} (h : serial? .strict e = some serial) :
    e = ⟨Tag.integer, serial⟩ := by
  obtain ⟨content, hcontent, h⟩ := bind_eq_some.1 h
  obtain ⟨-, h⟩ := guard_bind_eq_some.1 h
  cases h
  exact eq_of_contentOf? hcontent

theorem Reads.isTagged (h : Reads p c) : p.IsTagged where
  version e he := by
    rcases h.version with ⟨hnone, -⟩ | ⟨field, hsome, hfield⟩
    · rw [hnone] at he
      cases he
    · obtain ⟨octet, rfl, -⟩ := eq_of_version? hfield
      rw [hsome] at he
      cases he
      rfl
  serial := congrArg Element.tag (eq_of_serial? h.serial)

theorem isTagged_pieces (c : Certificate) : c.pieces.IsTagged where
  version e he := by
    rw [pieces, versionField] at he
    split at he <;> cases he
    rfl
  serial := rfl

/-! ## Field by field -/

theorem versionField_toNat (octet : UInt8) : versionField octet.toNat =
    if octet = 0 then none else some (row (Tag.context 0) [⟨Tag.integer, [octet]⟩]) := by
  rw [versionField, UInt8.ofNat_toNat]
  exact ite_congr (propext (@UInt8.toNat_inj octet 0)) (fun _ => rfl) fun _ => rfl

theorem row_eq_firstVersion_iff {octet : UInt8} :
    row (Tag.context 0) [⟨Tag.integer, [octet]⟩] = firstVersion ↔ octet = 0 := by
  rw [firstVersion, row_inj (by decide)]
  simp

theorem versionField_ne (octet : UInt8) : versionField octet.toNat ≠ some firstVersion := by
  rw [versionField_toNat]
  split
  · nofun
  · rename_i hzero
    exact fun heq => hzero (row_eq_firstVersion_iff.1 (Option.some.inj heq))

theorem Reads.version_eq_iff (h : Reads p c) :
    c.pieces.version = p.version ↔ p.version ≠ some firstVersion := by
  rcases h.version with ⟨hnone, hzero⟩ | ⟨field, hsome, hfield⟩
  · rw [hnone, pieces, hzero]
    exact iff_of_true rfl nofun
  · obtain ⟨octet, rfl, hoctet⟩ := eq_of_version? hfield
    rw [hsome, pieces, ← hoctet, versionField_toNat, ne_eq, Option.some.injEq,
      row_eq_firstVersion_iff]
    split
    · rename_i hzero
      exact iff_of_false nofun (not_not_intro hzero)
    · rename_i hzero
      exact iff_of_true rfl hzero

theorem eq_of_uniqueId? {number : Nat} {field : Option Element} {id : Option BitString}
    (h : uniqueId? number field = some id) : uniqueIdField number id = field := by
  cases field with
  | none =>
    cases h
    rfl
  | some e =>
    obtain ⟨content, hcontent, h⟩ := Option.bind_eq_some_iff.1 h
    obtain ⟨s, hs, rfl⟩ := Option.map_eq_some_iff.1 h
    rw [uniqueIdField, Option.map_some, BitString.content_of_ofContent? hs,
      eq_of_contentOf? hcontent]

theorem extensionsField_eq_iff {field : Option Element} {extensions : Option (List Extension)}
    (h : extensions? .strict field = some extensions)
    (hlength : ∀ e ∈ field, e.content.length < 2 ^ 64) :
    extensionsField extensions = field ↔
      ∀ e ∈ field, ∀ x ∈ extensionsIn e, Extension.IsPlain x := by
  cases field with
  | none =>
    cases h
    exact iff_of_true rfl nofun
  | some e =>
    have hlength := hlength e rfl
    obtain ⟨es, hinside, h⟩ := bind_eq_some.1 h
    rcases es with _ | ⟨sequence, _ | ⟨_, _⟩⟩
    · cases h
    swap
    · cases h
    obtain ⟨members, hmembers, h⟩ := bind_eq_some.1 h
    obtain ⟨xs, hxs, h⟩ := bind_eq_some.1 h
    cases h
    have hrow := eq_row_of_inside? hinside
    have hsequence := eq_row_of_inside? hmembers
    have hin : extensionsIn e = members := by
      rw [extensionsIn, hinside]
      dsimp only
      rw [hmembers, Option.getD_some]
    rw [hrow] at hlength
    have hshort := length_lt_of_mem_row List.mem_cons_self hlength
    rw [hsequence] at hshort
    have hplain := map_eq_iff_of_forall₂ (mapM_eq_some.1 hxs) fun x hx _ hread =>
      Extension.element_eq_iff hread (length_lt_of_mem_row hx hshort)
    rw [extensionsField, Option.map_some, Option.some.injEq]
    nth_rewrite 1 [hrow]
    rw [row_inj hlength, List.singleton_inj, hsequence, row_inj hshort, hplain]
    simp only [Option.mem_some_iff, forall_eq', hin]

theorem isSome_extensionsField {field : Option Element} {extensions : Option (List Extension)}
    (h : extensions? .strict field = some extensions) :
    (extensionsField extensions).isSome = field.isSome := by
  cases field with
  | none =>
    cases h
    rfl
  | some e =>
    obtain ⟨es, -, h⟩ := bind_eq_some.1 h
    rcases es with _ | ⟨sequence, _ | ⟨_, _⟩⟩
    · cases h
    swap
    · cases h
    obtain ⟨members, -, h⟩ := bind_eq_some.1 h
    obtain ⟨xs, -, h⟩ := bind_eq_some.1 h
    cases h
    rfl

/-- Identifiers of the issuer and the subject hold no extensions. -/
theorem extensionsIn_of_mem_uniqueId {number : Nat} (hnumber : number = 1 ∨ number = 2)
    {id : Option BitString} {e : Element} (he : e ∈ uniqueIdField number id) :
    extensionsIn e = [] := by
  obtain ⟨s, -, rfl⟩ := Option.map_eq_some_iff.1 he
  have htag : Tag.contextPrimitive number ≠ Tag.context 3 := by
    rcases hnumber with rfl | rfl <;> decide
  rw [extensionsIn, Element.inside?, if_neg htag]

/-- The numbered fields come out as they were if they are all looked at and their extensions are
plain. -/
theorem Reads.numbered_eq_iff (h : Reads p c)
    (hlength : ∀ e ∈ p.numbered, e.content.length < 2 ^ 64) :
    c.pieces.numbered = p.numbered ↔ (0 :: p.numbered.map numberOf).Pairwise (· < ·) ∧
      ∀ field ∈ p.numbered, ∀ e ∈ extensionsIn field, Extension.IsPlain e := by
  obtain ⟨issuerId, subjectId, extensions, rest, rest', hfirst, hsecond, hthird, hissuerId,
    hsubjectId, hextensions⟩ := h.numbered
  have hissuerId := eq_of_uniqueId? hissuerId
  have hsubjectId := eq_of_uniqueId? hsubjectId
  have hwritten : c.pieces.numbered =
      issuerId.toList ++ (subjectId.toList ++ (extensionsField c.extensions).toList) := by
    rw [← hissuerId, ← hsubjectId]
    rfl
  rw [hwritten, ascending_iff hfirst hsecond hthird]
  have hall : issuerId.toList ++ (subjectId.toList ++ (extensionsField c.extensions).toList) =
      p.numbered → p.numbered = issuerId.toList ++ (subjectId.toList ++ extensions.toList) := by
    intro heq
    have hcount : (extensionsField c.extensions).toList.length = extensions.toList.length := by
      rw [Option.length_toList, Option.length_toList, isSome_extensionsField hextensions]
    refine eq_append_of_length hfirst hsecond hthird ?_
    rw [← congrArg List.length heq]
    simp only [List.length_append, hcount]
  have hplain : p.numbered = issuerId.toList ++ (subjectId.toList ++ extensions.toList) →
      (issuerId.toList ++ (subjectId.toList ++ (extensionsField c.extensions).toList) = p.numbered ↔
        ∀ field ∈ p.numbered, ∀ e ∈ extensionsIn field, Extension.IsPlain e) := by
    intro hall
    have hmem : ∀ e, e ∈ p.numbered ↔ e ∈ issuerId ∨ e ∈ subjectId ∨ e ∈ extensions := by
      simp [hall]
    have hsame : (extensionsField c.extensions).toList = extensions.toList ↔
        extensionsField c.extensions = extensions :=
      ⟨fun h => by simpa using congrArg List.head? h, congrArg Option.toList⟩
    rw [hall, List.append_cancel_left_eq, List.append_cancel_left_eq, ← hall, hsame,
      extensionsField_eq_iff hextensions fun e he => hlength e ((hmem e).2 (.inr (.inr he)))]
    refine ⟨fun h field hfield => ?_, fun h e he => h e ((hmem e).2 (.inr (.inr he)))⟩
    rcases (hmem field).1 hfield with hfield | hfield | hfield
    · rw [extensionsIn_of_mem_uniqueId (.inl rfl) (hissuerId ▸ hfield)]
      nofun
    · rw [extensionsIn_of_mem_uniqueId (.inr rfl) (hsubjectId ▸ hfield)]
      nofun
    · exact h field hfield
  exact ⟨fun heq => ⟨hall heq, (hplain (hall heq)).1 heq⟩, fun h => (hplain h.1).2 h.2⟩

/-- Fields come out as they were if and only if they are distinguished. -/
theorem Reads.pieces_eq_iff (h : Reads p c) (hlength : p.element.content.length < 2 ^ 64) :
    c.pieces = p ↔ p.IsDistinguished := by
  have hfields := length_lt_of_mem_row (e := row Tag.sequence p.fields) List.mem_cons_self hlength
  have hshort : ∀ e ∈ p.fields, e.content.length < 2 ^ 64 := fun e he =>
    length_lt_of_mem_row he hfields
  have hserial : c.pieces.serial = p.serial := (eq_of_serial? h.serial).symm
  have hsignature : c.pieces.signature = p.signature := Algorithm.element_of_ofElement? h.signature
  have hissuer : c.pieces.issuer = p.issuer ↔ _ :=
    Name.element_eq_iff h.issuer (hshort _ (by simp [Pieces.fields]))
  have hvalidity : c.pieces.validity = p.validity := Validity.element_of_ofElement? h.validity
  have hsubject : c.pieces.subject = p.subject ↔ _ :=
    Name.element_eq_iff h.subject (hshort _ (by simp [Pieces.fields]))
  have hpublicKey : c.pieces.publicKey = p.publicKey := PublicKey.element_of_ofElement? h.publicKey
  have hnumbered := h.numbered_eq_iff fun e he => hshort e (List.mem_append_right _ he)
  have hsignatureAlgorithm : c.pieces.signatureAlgorithm = p.signatureAlgorithm :=
    Algorithm.element_of_ofElement? h.signatureAlgorithm
  have hsignatureValue : c.pieces.signatureValue = p.signatureValue :=
    BitString.element_of_ofElement? h.signatureValue
  rw [Pieces.ext_iff, h.version_eq_iff, hissuer, hsubject, hnumbered]
  exact ⟨fun ⟨hversion, _, _, hissuer, _, hsubject, _, ⟨hnumbered, hextensions⟩, _, _⟩ =>
    ⟨hversion, hissuer, hsubject, hnumbered, hextensions⟩,
    fun h => ⟨h.version, hserial, hsignature, h.issuer, hvalidity, h.subject, hpublicKey,
      ⟨h.numbered, h.extensions⟩, hsignatureAlgorithm, hsignatureValue⟩⟩

/-! ## What is written is distinguished -/

theorem Reads.version_pieces_ne (h : Reads p c) : c.pieces.version ≠ some firstVersion := by
  rcases h.version with ⟨-, hzero⟩ | ⟨field, -, hfield⟩
  · rw [pieces, hzero]
    nofun
  · obtain ⟨octet, -, hoctet⟩ := eq_of_version? hfield
    rw [pieces, ← hoctet]
    exact versionField_ne octet

theorem mem_extensionsIn {field e : Element} (h : e ∈ extensionsIn field) :
    ∃ extensions members, field.inside? .strict (Tag.context 3) = some [extensions] ∧
      extensions.inside? .strict Tag.sequence = some members ∧ e ∈ members := by
  rw [extensionsIn] at h
  split at h
  · rename_i extensions hinside
    cases hmembers : extensions.inside? .strict Tag.sequence with
    | none =>
      rw [hmembers] at h
      cases h
    | some members =>
      rw [hmembers] at h
      exact ⟨extensions, members, hinside, hmembers, h⟩
  · cases h

theorem isPlain_of_mem_pieces (hlength : ∀ e ∈ c.pieces.numbered, e.content.length < 2 ^ 64) :
    ∀ field ∈ c.pieces.numbered, ∀ e ∈ extensionsIn field, Extension.IsPlain e := by
  intro field hfield e he
  have hshort := hlength field hfield
  simp only [pieces, List.mem_append, Option.mem_toList] at hfield
  rcases hfield with hfield | hfield | hfield
  · rw [extensionsIn_of_mem_uniqueId (.inl rfl) hfield] at he
    cases he
  · rw [extensionsIn_of_mem_uniqueId (.inr rfl) hfield] at he
    cases he
  · obtain ⟨xs, -, rfl⟩ := Option.map_eq_some_iff.1 hfield
    obtain ⟨extensions, members, hextensions, hmembers, he⟩ := mem_extensionsIn he
    obtain rfl := List.singleton_inj.1 ((row_inj hshort).1 (eq_row_of_inside? hextensions).symm)
    have hshort := length_lt_of_mem_row List.mem_cons_self hshort
    obtain rfl := (row_inj hshort).1 (eq_row_of_inside? hmembers).symm
    obtain ⟨x, -, rfl⟩ := List.mem_map.1 he
    exact Extension.isPlain_element (length_lt_of_mem_row he hshort)

theorem ascending_pieces (c : Certificate) :
    (0 :: c.pieces.numbered.map numberOf).Pairwise (· < ·) := by
  have hnumbers : c.pieces.numbered.map numberOf =
      (c.issuerId.map fun _ => 1).toList ++ ((c.subjectId.map fun _ => 2).toList ++
        (c.extensions.map fun _ => 3).toList) := by
    cases hissuerId : c.issuerId <;> cases hsubjectId : c.subjectId <;>
      cases hextensions : c.extensions <;>
      simp [pieces, hissuerId, hsubjectId, hextensions, uniqueIdField, extensionsField, row,
        numberOf, Tag.context, Tag.contextPrimitive]
  rw [hnumbers]
  cases c.issuerId <;> cases c.subjectId <;> cases c.extensions <;> simp

theorem Reads.isDistinguished_pieces (h : Reads p c)
    (hlength : c.pieces.element.content.length < 2 ^ 64) : c.pieces.IsDistinguished := by
  have hfields := length_lt_of_mem_row (e := row Tag.sequence c.pieces.fields) List.mem_cons_self
    hlength
  have hshort : ∀ e ∈ c.pieces.fields, e.content.length < 2 ^ 64 := fun e he =>
    length_lt_of_mem_row he hfields
  exact {
    version := h.version_pieces_ne
    issuer := Name.isOrdered_element h.issuer (hshort c.pieces.issuer (by simp [Pieces.fields]))
    subject := Name.isOrdered_element h.subject (hshort c.pieces.subject (by simp [Pieces.fields]))
    numbered := ascending_pieces c
    extensions := isPlain_of_mem_pieces fun e he => hshort e (List.mem_append_right _ he) }

/-! ## The whole -/

/-- What was read comes out as it was if and only if it is distinguished. -/
theorem encode_eq_iff {x : Bytes} (h : decode? .strict x = some c) :
    c.encode = x ↔ IsDistinguished x := by
  obtain ⟨p, hsingle, hreads⟩ := reads_of_decode? h
  have hx := eq_of_single?_strict hsingle
  have hshort := length_lt_of_single?_strict hsingle
  rw [hx] at hshort
  have hlength := (length_lt_length_element _ _).trans hshort
  have hsame : c.encode = x ↔ c.pieces = p := by
    rw [encode_eq, hx, ← Pieces.element_inj c.isTagged_pieces hreads.isTagged hlength]
    exact ⟨fun heq => (Element.encode_inj hshort heq.symm).symm, congrArg Element.encode⟩
  rw [hsame, hreads.pieces_eq_iff hlength]
  constructor
  · exact fun hp => ⟨p, c, hsingle, hreads, hp⟩
  · rintro ⟨q, c', hsingle', hreads', hq⟩
    have heq : q.element = p.element := Option.some.inj (hsingle'.symm.trans hsingle)
    rwa [← (Pieces.element_inj hreads'.isTagged hreads.isTagged hlength).1 heq]

/-- What is written is distinguished, if it can be read. -/
theorem isDistinguished_encode {x : Bytes} {c' : Certificate} (h : decode? .strict x = some c)
    (h' : decode? .strict c.encode = some c') : IsDistinguished c.encode := by
  obtain ⟨p, -, hreads⟩ := reads_of_decode? h
  obtain ⟨q, hsingle, hreads'⟩ := reads_of_decode? h'
  have hencode := eq_of_single?_strict hsingle
  have hshort := length_lt_of_single?_strict hsingle
  rw [hencode] at hshort
  have hlength := (length_lt_length_element _ _).trans hshort
  rw [encode_eq] at hencode
  have heq := Element.encode_inj hshort hencode.symm
  have hpieces := (Pieces.element_inj hreads'.isTagged c.isTagged_pieces (heq ▸ hlength)).1 heq
  refine ⟨q, c', hsingle, hreads', ?_⟩
  rw [hpieces]
  exact hreads.isDistinguished_pieces (heq ▸ hlength)

end Certificate

/-! ## A small certificate -/

/-- An algorithm without parameters. -/
def smallAlgorithm : Bytes := Der.sequence [Oid.encode ⟨[0x2a, 0x03, 0x04]⟩]

/-- A certificate without names, with its version as some elements or none. -/
def smallCertificate (version : List Bytes) : Bytes :=
  let moment (text : String) := Der.element Tag.utcTime (Text.encode text)
  let bits := Der.element Tag.bitString [0]
  Der.sequence [
    Der.sequence [
      version.flatten,
      Der.smallInteger 1,
      smallAlgorithm,
      Der.sequence [],
      Der.sequence [moment "260101000000Z", moment "270101000000Z"],
      Der.sequence [],
      Der.sequence [smallAlgorithm, bits]],
    smallAlgorithm,
    bits]

/-- The first version, spelled out. -/
def spelledOut : List Bytes := [Der.context 0 [Der.smallInteger 0]]

end SecureBoot.X509
