import Mathlib
import SecureBoot.Authenticode.Building
import SecureBoot.Proofs.Authenticode
import SecureBoot.Proofs.Outcome

/-!
# What a new signature states

A signature that was made from a recipe is read back as one that names the algorithm of the recipe
and states its digest (`Recipe.states_of_signature?`).

Reading goes down through rows of elements, and every row on the way was written by the recipe. So
each step down is one use of `row?_of_content`. What does not lie on the way, such as the
certificates, may be anything that lets the whole be read.
-/

namespace SecureBoot

/-! ## Rows of elements -/

namespace Der

theorem Element.row?_of_content (e : Element) (tag : UInt8) (es : List Element)
    (htag : e.tag = tag) (hcontent : e.content = (es.map Element.encode).flatten)
    (h : e.content.length < 2 ^ 64) :
    e.row? tag = some es ∧ ∀ part ∈ es, part.content.length < 2 ^ 64 := by
  have hcontents : ∀ part ∈ es, part.content.length < 2 ^ 64 := fun part hpart =>
    (length_content_lt hpart).trans (hcontent ▸ h)
  exact ⟨by simp [Element.row?, Element.inside?, htag, hcontent, elements?_encode hcontents],
    hcontents⟩

end Der

open Der

/-! ## Algorithms -/

/-- The identifier of an algorithm without parameters. -/
def algorithmElement (oid : Oid) : Element := ⟨Tag.sequence, oid.encode ++ null⟩

theorem SignedData.oid_of_algorithm? {oid : Oid} {a : X509.Algorithm}
    (hlength : (algorithmElement oid).content.length < 2 ^ 64)
    (h : algorithm? (algorithmElement oid) = some a) : a.oid = oid := by
  obtain ⟨hrow, -⟩ := (algorithmElement oid).row?_of_content Tag.sequence
    [⟨Tag.objectIdentifier, oid.content⟩, ⟨Tag.null, []⟩] rfl
    (by simp [algorithmElement, Oid.encode, null, element]) hlength
  rw [Element.row?] at hrow
  obtain ⟨a', ha', h⟩ := bind_eq_some.1 h
  obtain ⟨-, h⟩ := guard_bind_eq_some.1 h
  cases h
  simp only [X509.Algorithm.ofElement?, hrow, Option.bind_eq_bind, Option.bind_some] at ha'
  obtain ⟨_, hoid, ha'⟩ := bind_eq_some.1 ha'
  obtain ⟨-, ha'⟩ := guard_bind_eq_some.1 ha'
  obtain ⟨-, ha'⟩ := guard_bind_eq_some.1 ha'
  cases hoid
  cases ha'
  rfl

theorem DigestAlgorithm.ofOid_of_oid? {a : DigestAlgorithm} {oid : Oid} (h : a.oid? = some oid) :
    ofOid oid = .ok a := by
  cases a <;> cases h <;> rfl

/-! ## Signed data -/

/-- What reading finds in signed data of which the rows are known. -/
theorem SignedData.fields_of_decode? {x rest : Bytes} {signed : SignedData}
    {whole kind wrapper body version algorithms content : Element}
    {more more' fields row : List Element} (hnext : next? .lenient x = some (whole, rest))
    (hwhole : whole.row? Tag.sequence = some (kind :: wrapper :: more))
    (hwrapper : wrapper.row? (Tag.context 0) = some (body :: more'))
    (hbody : body.row? Tag.sequence = some (version :: algorithms :: content :: fields))
    (halgorithms : algorithms.row? Tag.set = some row) (h : SignedData.decode? x = some signed) :
    row.mapM algorithm? = some signed.digestAlgorithms ∧
      content? content = some (signed.contentType, signed.content) := by
  simp only [SignedData.decode?, hnext, hwhole, hwrapper, hbody, halgorithms, Option.bind_eq_bind,
    Option.bind_some] at h
  obtain ⟨_, -, h⟩ := bind_eq_some.1 h
  obtain ⟨_, -, h⟩ := bind_eq_some.1 h
  obtain ⟨⟨contentType, found⟩, hfound, h⟩ := bind_eq_some.1 h
  dsimp only at h
  split at h
  swap
  · cases h
  obtain ⟨_, -, h⟩ := bind_eq_some.1 h
  obtain ⟨_, -, h⟩ := bind_eq_some.1 h
  obtain ⟨_, -, h⟩ := bind_eq_some.1 h
  obtain ⟨_, -, h⟩ := bind_eq_some.1 h
  obtain ⟨named, hnamed, h⟩ := bind_eq_some.1 h
  obtain ⟨_, -, h⟩ := bind_eq_some.1 h
  cases h
  exact ⟨hnamed, hfound⟩

/-- What reading finds in a statement of which the rows are known. -/
theorem Statement.digest_of_ofElement? {e description info algorithm : Element} {digest : Bytes}
    {more more' : List Element} {s : Statement}
    (he : e.row? Tag.sequence = some (description :: info :: more))
    (hinfo : info.row? Tag.sequence = some (algorithm :: ⟨Tag.octetString, digest⟩ :: more'))
    (h : Statement.ofElement? e = some s) : s.digest = digest := by
  simp only [Statement.ofElement?, he, hinfo, Option.bind_eq_bind, Option.bind_some] at h
  obtain ⟨_, -, h⟩ := bind_eq_some.1 h
  obtain ⟨_, -, h⟩ := bind_eq_some.1 h
  obtain ⟨_, hdigest, h⟩ := bind_eq_some.1 h
  cases hdigest
  cases h
  rfl

/-! ## Signatures -/

namespace Authenticode

/-- The statement as an element. -/
def statementElement (oid : Oid) (fileHash : Bytes) : Element :=
  ⟨Tag.sequence, statementOf oid fileHash⟩

/-- The kind of content, and the statement. -/
def contentElement (oid : Oid) (fileHash : Bytes) : Element :=
  ⟨Tag.sequence, Oid.indirectData.encode ++
    Element.encode ⟨Tag.context 0, (statementElement oid fileHash).encode⟩⟩

/-- The fields of signed data. -/
def fieldsOf (oid : Oid) (fileHash : Bytes) (rest : List Element) : List Element :=
  ⟨Tag.integer, [1]⟩ :: ⟨Tag.set, (algorithmElement oid).encode⟩ :: contentElement oid fileHash ::
    rest

/-- Signed data without its kind. -/
def bodyElement (fields : List Element) : Element :=
  ⟨Tag.sequence, (fields.map Element.encode).flatten⟩

/-- Signed data around its fields. -/
def wholeElement (fields : List Element) : Element :=
  ⟨Tag.sequence, Oid.signedData.encode ++
    Element.encode ⟨Tag.context 0, (bodyElement fields).encode⟩⟩

variable {oid : Oid} {fileHash : Bytes}

theorem digest_of_statementElement {s : Statement}
    (hlength : (statementElement oid fileHash).content.length < 2 ^ 64)
    (h : Statement.ofElement? (statementElement oid fileHash) = some s) : s.digest = fileHash := by
  obtain ⟨description, hdescription⟩ : ∃ e : Element, e.encode = fileDescription := ⟨_, rfl⟩
  let info : Element := ⟨Tag.sequence, (algorithmElement oid).encode ++ octetString fileHash⟩
  obtain ⟨hrow, hshort⟩ := (statementElement oid fileHash).row?_of_content Tag.sequence
    [description, info] rfl
    (by simp [statementElement, statementOf, hdescription, info, Der.sequence, algorithmIdentifier,
      element, algorithmElement]) hlength
  obtain ⟨hinfo, -⟩ := info.row?_of_content Tag.sequence
    [algorithmElement oid, ⟨Tag.octetString, fileHash⟩] rfl
    (by simp [info, octetString, element]) (hshort info (by simp))
  exact Statement.digest_of_ofElement? hrow hinfo h

theorem content?_contentElement
    (hlength : (contentElement oid fileHash).content.length < 2 ^ 64) :
    SignedData.content? (contentElement oid fileHash) =
        some (Oid.indirectData, some (statementElement oid fileHash)) ∧
      (statementElement oid fileHash).content.length < 2 ^ 64 := by
  let wrapper : Element := ⟨Tag.context 0, (statementElement oid fileHash).encode⟩
  obtain ⟨hrow, hshort⟩ := (contentElement oid fileHash).row?_of_content Tag.sequence
    [⟨Tag.objectIdentifier, Oid.indirectData.content⟩, wrapper] rfl
    (by simp [contentElement, wrapper, Oid.encode, element]) hlength
  obtain ⟨hwrapper, hshort⟩ := wrapper.row?_of_content (Tag.context 0)
    [statementElement oid fileHash] rfl (by simp [wrapper]) (hshort wrapper (by simp))
  refine ⟨?_, hshort _ (by simp)⟩
  rw [SignedData.content?, hrow]
  simp [hwrapper, Oid.ofElement?, Element.contentOf?]

theorem rows_of_wholeElement {fields : List Element}
    (hlength : (wholeElement fields).content.length < 2 ^ 64) :
    ∃ wrapper, (wholeElement fields).row? Tag.sequence =
        some [⟨Tag.objectIdentifier, Oid.signedData.content⟩, wrapper] ∧
      wrapper.row? (Tag.context 0) = some [bodyElement fields] ∧
      (bodyElement fields).row? Tag.sequence = some fields ∧
      ∀ e ∈ fields, e.content.length < 2 ^ 64 := by
  let wrapper : Element := ⟨Tag.context 0, (bodyElement fields).encode⟩
  obtain ⟨hwhole, hshort⟩ := (wholeElement fields).row?_of_content Tag.sequence
    [⟨Tag.objectIdentifier, Oid.signedData.content⟩, wrapper] rfl
    (by simp [wholeElement, wrapper, Oid.encode, element]) hlength
  obtain ⟨hwrapper, hshort⟩ := wrapper.row?_of_content (Tag.context 0) [bodyElement fields] rfl
    (by simp [wrapper]) (hshort wrapper (by simp))
  obtain ⟨hbody, hshort⟩ := (bodyElement fields).row?_of_content Tag.sequence fields rfl rfl
    (hshort _ (by simp))
  exact ⟨wrapper, hwhole, hwrapper, hbody, hshort⟩

/-- What a signature names and states that was written with certain fields. -/
theorem states_of_fields {rest : List Element} {more : Bytes} {a : Authenticode}
    (hlength : (wholeElement (fieldsOf oid fileHash rest)).encode.length < 2 ^ 64)
    (ha : decode ((wholeElement (fieldsOf oid fileHash rest)).encode ++ more) = .ok a) :
    (∃ named, a.signed.digestAlgorithms = [named] ∧ named.oid = oid) ∧
      a.fileHash = some fileHash := by
  have hcontent := (length_lt_length_element _ _).trans hlength
  obtain ⟨wrapper, hwhole, hwrapper, hbody, hshort⟩ := rows_of_wholeElement hcontent
  let algorithms : Element := ⟨Tag.set, (algorithmElement oid).encode⟩
  obtain ⟨halgorithms, halgorithm⟩ := algorithms.row?_of_content Tag.set [algorithmElement oid] rfl
    (by simp [algorithms]) (hshort algorithms (by simp [fieldsOf, algorithms]))
  obtain ⟨hstated, hstatement⟩ :=
    content?_contentElement (hshort (contentElement oid fileHash) (by simp [fieldsOf]))
  rw [decode] at ha
  split at ha
  swap
  · cases ha
  rename_i found hfound
  cases ha
  obtain ⟨signed, hsigned, hfound⟩ := bind_eq_some.1 hfound
  obtain ⟨statement, hread, hfound⟩ := bind_eq_some.1 hfound
  cases hfound
  obtain ⟨hnamed, hcontents⟩ := SignedData.fields_of_decode? (next?_element hcontent more) hwhole
    hwrapper hbody halgorithms hsigned
  rw [hstated] at hcontents
  obtain ⟨htype, hcontents⟩ := Prod.mk.inj (Option.some.inj hcontents)
  rw [List.mapM_cons, List.mapM_nil] at hnamed
  obtain ⟨named, halgorithm', hnamed⟩ := bind_eq_some.1 hnamed
  rw [statement?, ← hcontents, ← htype] at hread
  obtain ⟨s, hs, rfl⟩ := Option.map_eq_some_iff.1 (by simpa using hread)
  refine ⟨⟨named, (Option.some.inj hnamed).symm,
    SignedData.oid_of_algorithm? (halgorithm _ (by simp)) halgorithm'⟩, ?_⟩
  rw [Authenticode.fileHash, Option.map_some, digest_of_statementElement hstatement hs]

/-- A signature names the algorithm of its recipe and states its digest. -/
theorem Recipe.states_of_signature? {r : Recipe} {x more : Bytes} {a : Authenticode}
    (hx : r.signature? = some x) (hlength : x.length < 2 ^ 64) (ha : decode (x ++ more) = .ok a) :
    a.digestAlgorithm = .ok r.algorithm ∧ a.fileHash = some r.fileHash := by
  obtain ⟨-, hx⟩ := guard_bind_eq_some.1 hx
  obtain ⟨oid, hoid, hx⟩ := bind_eq_some.1 hx
  obtain ⟨program, -, hx⟩ := bind_eq_some.1 hx
  obtain ⟨signature, -, hx⟩ := bind_eq_some.1 hx
  have hwhole : ∃ rest, x = (wholeElement (fieldsOf oid r.fileHash rest)).encode := by
    let attributes := attributesOf program (r.algorithm.digest (statementOf oid r.fileHash))
    refine ⟨[⟨Tag.context 0, r.certificates.flatten⟩, ⟨Tag.context 1, []⟩,
      ⟨Tag.set, r.signer (algorithmIdentifier oid) attributes signature⟩], ?_⟩
    rw [← Option.some.inj hx]
    simp [wholeElement, bodyElement, fieldsOf, contentElement, statementElement, algorithmElement,
      Der.sequence, Der.set, context, smallInteger, algorithmIdentifier, element, attributes]
  obtain ⟨rest, rfl⟩ := hwhole
  obtain ⟨⟨named, hnamed, hname⟩, hhash⟩ := states_of_fields hlength ha
  refine ⟨?_, hhash⟩
  rw [digestAlgorithm, hnamed]
  subst hname
  exact DigestAlgorithm.ofOid_of_oid? hoid

end Authenticode

end SecureBoot
