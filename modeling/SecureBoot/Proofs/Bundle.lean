import SecureBoot.Proofs.Authenticode.Building
import SecureBoot.Proofs.X509.Certificate
import SecureBoot.Signer

/-!
# Certificates in bundles

The certificates of a file go into a bundle as they are written after reading, not as they stand in
the file. The two are the same for certificates in their distinguished encoding and for no others.

**Theorem (`collects_of_ofPem`).** Every bundle that is made of a file can be read back, and holds
the certificates of the file, each written again, in another order: none is lost, none is added and
none is there twice. A block of the file is in the bundle, byte for byte, if and only if it is
distinguished (`Certificate.IsDistinguished`); so bundle and file hold the same bytes if and only if
all blocks are. A signer whose certificates come from the file has those of the bundle, and puts no
others into its signatures.

Whether a block is distinguished can be seen from the block alone. That it is in the bundle could
also be due to another block that is written as this one. But what is written is distinguished, so
then this one is too.

A certificate that spells out the first version is one that is not kept
(`not_mem_bundle_spelledOut`).
-/

namespace SecureBoot

open Der

/-! ## Bundles are read back -/

namespace Bundle

/-- The fields of signed data that only carries certificates. -/
def fieldsOf (contents : List Bytes) : List Element :=
  [⟨Tag.integer, [1]⟩, ⟨Tag.set, []⟩, ⟨Tag.sequence, Oid.data.encode⟩,
    ⟨Tag.context 0, (contents.map (Der.element Tag.sequence)).flatten⟩, ⟨Tag.set, []⟩]

theorem encode_eq (contents : List Bytes) : encode (contents.map (Der.element Tag.sequence)) =
    (Authenticode.wholeElement (fieldsOf contents)).encode := by
  simp [encode, fieldsOf, Authenticode.wholeElement, Authenticode.bodyElement, Der.sequence,
    Der.set, Der.context, Der.smallInteger, Der.element]

theorem certificates?_flatten {contents : List Bytes}
    (hlength : ((contents.map (Der.element Tag.sequence)).flatten).length < 2 ^ 64) :
    SignedData.certificates?
        (some ⟨Tag.context 0, (contents.map (Der.element Tag.sequence)).flatten⟩) =
      some (contents.map (Der.element Tag.sequence)) := by
  have hrow : contents.map (Der.element Tag.sequence) =
      (contents.map (Element.mk Tag.sequence)).map Element.encode := by
    rw [List.map_map]
    rfl
  rw [hrow] at hlength ⊢
  rw [SignedData.certificates?, pieces?_encode fun e he => (length_content_lt he).trans hlength]
  simp [List.filter_map, Function.comp_def]

/-- The certificates of a bundle are read back as they were put in. -/
theorem decode?_encode {contents : List Bytes}
    (hlength : (encode (contents.map (Der.element Tag.sequence))).length < 2 ^ 64) :
    SignedData.decode? (encode (contents.map (Der.element Tag.sequence))) = some {
      version := 1
      digestAlgorithms := []
      contentType := Oid.data
      content := none
      certificates := contents.map (Der.element Tag.sequence)
      signers := [] } := by
  rw [encode_eq] at hlength ⊢
  have hcontent := (length_lt_length_element _ _).trans hlength
  obtain ⟨wrapper, hwhole, hwrapper, hbody, hshort⟩ := Authenticode.rows_of_wholeElement hcontent
  have hnext : next? .lenient (Authenticode.wholeElement (fieldsOf contents)).encode =
      some (Authenticode.wholeElement (fieldsOf contents), []) := by
    have hread := @next?_element Tag.sequence _ hcontent []
    rwa [List.append_nil] at hread
  have hkind : Oid.ofElement? ⟨Tag.objectIdentifier, Oid.signedData.content⟩ =
    some Oid.signedData := rfl
  have hversion : SignedData.version? ⟨Tag.integer, [1]⟩ = some 1 := by decide
  have hset : Element.row? Tag.set ⟨Tag.set, []⟩ = some [] := by decide +kernel
  have hdata : SignedData.content? ⟨Tag.sequence, Oid.data.encode⟩ = some (Oid.data, none) := by
    decide +kernel
  have hcertificates := certificates?_flatten
    (hshort ⟨Tag.context 0, (contents.map (Der.element Tag.sequence)).flatten⟩ (by simp [fieldsOf]))
  refine bind_eq_some.2 ⟨_, hnext, ?_⟩
  refine bind_eq_some.2 ⟨_, hwhole, ?_⟩
  refine bind_eq_some.2 ⟨_, hkind, ?_⟩
  refine guard_bind_eq_some.2 ⟨rfl, ?_⟩
  refine bind_eq_some.2 ⟨_, hwrapper, ?_⟩
  refine bind_eq_some.2 ⟨_, hbody, ?_⟩
  refine bind_eq_some.2 ⟨_, hdata, ?_⟩
  refine bind_eq_some.2 ⟨_, hset, ?_⟩
  refine bind_eq_some.2 ⟨[], rfl, ?_⟩
  refine guard_bind_eq_some.2 ⟨.inl rfl, ?_⟩
  refine bind_eq_some.2 ⟨_, hversion, ?_⟩
  refine bind_eq_some.2 ⟨_, hset, ?_⟩
  refine bind_eq_some.2 ⟨[], rfl, ?_⟩
  exact bind_eq_some.2 ⟨_, hcertificates, rfl⟩

/-! ## From blocks to certificates -/

variable {pem block bundle : Bytes} {c : X509.Certificate}

theorem exists_of_certificateOf? (h : certificateOf? block = some c) :
    ∃ e rest, next? .strict block = some (e, rest) ∧ block = e.encode ++ rest ∧
      X509.Certificate.decode? .strict e.encode = some c := by
  obtain ⟨⟨e, rest⟩, hnext, h⟩ := bind_eq_some.1 h
  have hblock := eq_of_next?_strict hnext
  refine ⟨e, rest, hnext, hblock, ?_⟩
  dsimp only at h
  rwa [hblock, List.length_append, Nat.add_sub_cancel, List.take_left] at h

/-- Nothing follows the certificate in a block that is one element. -/
theorem decode?_of_certificateOf?_element {tag : UInt8} {content : Bytes}
    (h : certificateOf? (Der.element tag content) = some c) (hlength : content.length < 2 ^ 64) :
    X509.Certificate.decode? .strict (Der.element tag content) = some c := by
  obtain ⟨e, rest, hnext, hblock, hdecode⟩ := exists_of_certificateOf? h
  have hshort := (length_content_le_of_next?_strict hnext).trans_lt
    (show maxStrictLength < 2 ^ 64 by decide)
  have hread := @next?_element e.tag _ hshort rest
  have hwhole := @next?_element tag _ hlength []
  rw [List.append_nil, hblock] at hwhole
  obtain ⟨-, rfl⟩ := Prod.mk.inj (Option.some.inj (hread.symm.trans hwhole))
  rw [List.append_nil] at hblock
  rwa [hblock]

theorem encode_eq_element (c : X509.Certificate) :
    ∃ content, c.encode = Der.element Tag.sequence content := ⟨_, rfl⟩

theorem isDistinguished_of_eq_encode {block' : Bytes} {c' : X509.Certificate}
    (h : certificateOf? block = some c) (h' : certificateOf? block' = some c')
    (hlength : c'.encode.length < 2 ^ 64) (heq : c'.encode = block) :
    X509.Certificate.IsDistinguished block := by
  subst heq
  obtain ⟨e, rest, -, -, hdecode'⟩ := exists_of_certificateOf? h'
  obtain ⟨content, hcontent⟩ := encode_eq_element c'
  rw [hcontent] at h hlength
  have hdecode := decode?_of_certificateOf?_element h
    ((length_lt_length_element _ _).trans hlength)
  rw [← hcontent] at hdecode
  exact X509.Certificate.isDistinguished_encode hdecode' hdecode

/-- A block is what its certificate is written as if and only if it is distinguished. -/
theorem encode_eq_iff (h : certificateOf? block = some c) (hlength : c.encode.length < 2 ^ 64) :
    c.encode = block ↔ X509.Certificate.IsDistinguished block := by
  refine ⟨isDistinguished_of_eq_encode h h hlength, fun hdistinguished => ?_⟩
  obtain ⟨e, rest, hnext, hblock, hdecode⟩ := exists_of_certificateOf? h
  obtain ⟨p, -, hsingle, -, -⟩ := id hdistinguished
  obtain ⟨rfl, rfl⟩ := Prod.mk.inj (Option.some.inj (hnext.symm.trans (next?_of_single? hsingle)))
  rw [List.append_nil] at hblock
  rw [← hblock] at hdecode
  exact (X509.Certificate.encode_eq_iff hdecode).2 hdistinguished

/-! ## What a bundle holds -/

/-- How the certificates in a bundle come from the blocks of a file. -/
structure Collects (blocks held : List Bytes) : Prop where
  perm : ∃ certificates, List.Forall₂ (fun block c => certificateOf? block = some c) blocks
    certificates ∧ held.Perm (certificates.map X509.Certificate.encode)
  nodup : held.Nodup
  mem_iff : ∀ block ∈ blocks, block ∈ held ↔ X509.Certificate.IsDistinguished block
  same_iff : (∀ x, x ∈ held ↔ x ∈ blocks) ↔
    ∀ block ∈ blocks, X509.Certificate.IsDistinguished block

theorem collects_of_perm {blocks held : List Bytes} {certificates : List X509.Certificate}
    (hread : List.Forall₂ (fun block c => certificateOf? block = some c) blocks certificates)
    (hperm : held.Perm (certificates.map X509.Certificate.encode)) (hnodup : held.Nodup)
    (hlength : ∀ x ∈ held, x.length < 2 ^ 64) : Collects blocks held := by
  have hshort : ∀ c ∈ certificates, c.encode.length < 2 ^ 64 := fun c hc =>
    hlength _ (hperm.mem_iff.2 (List.mem_map_of_mem hc))
  have hmem : ∀ block ∈ blocks, block ∈ held ↔ X509.Certificate.IsDistinguished block := by
    intro block hblock
    obtain ⟨c, hc, hcertificate⟩ := exists_of_mem_forall₂ hread.flip hblock
    rw [hperm.mem_iff, List.mem_map]
    constructor
    · rintro ⟨c', hc', heq⟩
      obtain ⟨block', -, hcertificate'⟩ := exists_of_mem_forall₂ hread hc'
      exact isDistinguished_of_eq_encode hcertificate hcertificate' (hshort c' hc') heq
    · exact fun h => ⟨c, hc, (encode_eq_iff hcertificate (hshort c hc)).2 h⟩
  refine ⟨⟨certificates, hread, hperm⟩, hnodup, hmem, ?_⟩
  constructor
  · exact fun hsame block hblock => (hmem block hblock).1 ((hsame block).2 hblock)
  · intro hall x
    refine ⟨fun hx => ?_, fun hx => (hmem x hx).2 (hall x hx)⟩
    obtain ⟨c, hc, rfl⟩ := List.mem_map.1 (hperm.mem_iff.1 hx)
    obtain ⟨block, hblock, hcertificate⟩ := exists_of_mem_forall₂ hread hc
    rwa [(encode_eq_iff hcertificate (hshort c hc)).2 (hall block hblock)]

theorem length_le_of_mem {encodings : List Bytes} {x : Bytes} (hx : x ∈ encodings) :
    x.length ≤ (encode encodings).length := by
  have hflatten := (List.sublist_flatten_of_mem hx).length_le
  have hle : encodings.flatten.length ≤ (encode encodings).length := by
    simp [encode, Der.sequence, Der.context, Der.element, Element.encode]
    omega
  exact hflatten.trans hle

/-! ## Bundles of files -/

/-- The bundle of a file holds what its blocks are written as. -/
theorem exists_held_of_ofPem? (h : ofPem? pem = some bundle) :
    ∃ blocks signed, Pem.Chain.read? pem = some blocks ∧ SignedData.decode? bundle = some signed ∧
      Collects blocks signed.certificates := by
  obtain ⟨blocks, hblocks, h⟩ := bind_eq_some.1 h
  obtain ⟨certificates, hcertificates, h⟩ := bind_eq_some.1 h
  obtain ⟨hnodup, h⟩ := guard_bind_eq_some.1 h
  obtain ⟨hmax, h⟩ := guard_bind_eq_some.1 h
  cases h
  have hlength := hmax.trans_lt (show maxStrictLength < 2 ^ 64 by decide)
  have hperm := List.mergeSort_perm (certificates.map X509.Certificate.encode) X509.precedes
  rw [← X509.ascending] at hperm
  generalize X509.ascending (certificates.map X509.Certificate.encode) = held at *
  have hcollects := collects_of_perm (mapM_eq_some.1 hcertificates) hperm hnodup fun x hx =>
    (length_le_of_mem hx).trans_lt hlength
  obtain ⟨contents, rfl⟩ : held ∈ Set.range (List.map (Der.element Tag.sequence)) := by
    rw [Set.range_list_map]
    intro x hx
    obtain ⟨c, -, rfl⟩ := List.mem_map.1 (hperm.mem_iff.1 hx)
    obtain ⟨content, hcontent⟩ := encode_eq_element c
    exact ⟨content, hcontent.symm⟩
  exact ⟨blocks, _, hblocks, decode?_encode hlength, hcollects⟩

/-- A signer reads a file of certificates by way of its bundle. -/
theorem readBundle_of_ofPem? {signed : SignedData} {files : FileStore} {path : String} {text : Pem}
    (h : ofPem? pem = some bundle) (hsigned : SignedData.decode? bundle = some signed)
    (hfile : files.read path = .ok pem) (htext : Pem.read? pem = some text)
    (hlabel : text.label = "CERTIFICATE") :
    Signer.readBundle files path = .ok signed.certificates := by
  have hpem : Signer.readPem files path = .ok text :=
    bind_eq_ok.2 ⟨pem, hfile, by rw [htext]; rfl⟩
  have hother : ¬ text.label = "PKCS7" := by
    rw [hlabel]
    decide
  have hofPem : ofPem pem = .ok bundle := by rw [ofPem, h]
  refine bind_eq_ok.2 ⟨text, hpem, ?_⟩
  rw [if_neg hother, if_pos hlabel]
  refine bind_eq_ok.2 ⟨pem, hfile, bind_eq_ok.2 ⟨bundle, hofPem, ?_⟩⟩
  dsimp only
  rw [hsigned]
  rfl

theorem certificates_subset (s : Signer) : s.certificates ⊆ s.bundle := by
  rw [Signer.certificates]
  split
  · exact List.Subset.refl _
  · exact List.filter_subset_self _

theorem certificates_ne_nil {s : Signer} (h : s.bundle ≠ []) : s.certificates ≠ [] := by
  rw [Signer.certificates]
  split
  · exact h
  · rename_i hchain
    rwa [List.isEmpty_iff] at hchain

/-- A block of a file is in the bundle, byte for byte, if and only if it is distinguished; otherwise
the bundle holds what its certificate is written as. -/
theorem collects_of_ofPem (h : ofPem? pem = some bundle) :
    ∃ blocks signed, Pem.Chain.read? pem = some blocks ∧ SignedData.decode? bundle = some signed ∧
      Collects blocks signed.certificates ∧
      (∀ (files : FileStore) (path : String) (text : Pem), files.read path = .ok pem →
        Pem.read? pem = some text → text.label = "CERTIFICATE" →
          Signer.readBundle files path = .ok signed.certificates) ∧
      ∀ s : Signer, s.bundle = signed.certificates → s.certificates ⊆ signed.certificates ∧
        ((∀ block ∈ blocks, X509.Certificate.IsDistinguished block) → s.certificates ⊆ blocks) := by
  obtain ⟨blocks, signed, hblocks, hsigned, hcollects⟩ := exists_held_of_ofPem? h
  refine ⟨blocks, signed, hblocks, hsigned, hcollects, fun files path text =>
    readBundle_of_ofPem? h hsigned, fun s hs => ?_⟩
  have hsubset := hs ▸ certificates_subset s
  exact ⟨hsubset, fun hall x hx => (hcollects.same_iff.2 hall x).1 (hsubset hx)⟩

/-! ## A certificate of the first version -/

/-- A small certificate in a file. -/
def smallFile (version : List Bytes) : Bytes :=
  Pem.encode ⟨"CERTIFICATE", X509.smallCertificate version⟩

theorem collects_of_ofPem_smallFile : ∃ bundle, ofPem? (smallFile []) = some bundle ∧
    ∃ blocks signed, Pem.Chain.read? (smallFile []) = some blocks ∧
      SignedData.decode? bundle = some signed ∧ Collects blocks signed.certificates ∧
      (Pem.read? (smallFile [])).map (·.label) = some "CERTIFICATE" := by
  obtain ⟨bundle, hbundle⟩ := Option.isSome_iff_exists.1
    (show (ofPem? (smallFile [])).isSome by decide +kernel)
  obtain ⟨blocks, signed, hblocks, hsigned, hcollects, -⟩ := collects_of_ofPem hbundle
  exact ⟨bundle, hbundle, blocks, signed, hblocks, hsigned, hcollects, by decide +kernel⟩

/-- A certificate that spells out the first version is not in the bundle as it was. -/
theorem not_mem_bundle_spelledOut : ∃ bundle signed block,
    ofPem? (smallFile X509.spelledOut) = some bundle ∧ SignedData.decode? bundle = some signed ∧
      Pem.Chain.read? (smallFile X509.spelledOut) = some [block] ∧ block ∉ signed.certificates ∧
      ∀ s : Signer, s.bundle = signed.certificates →
        block ∉ s.certificates ∧ s.certificates ≠ [] := by
  have hheld : (ofPem? (smallFile X509.spelledOut)).any fun bundle =>
      (SignedData.decode? bundle).any fun signed =>
        signed.certificates = [X509.smallCertificate []] := by
    decide +kernel
  obtain ⟨bundle, hbundle, hheld⟩ := (Option.any_eq_true _ _).1 hheld
  obtain ⟨signed, hsigned, hheld⟩ := (Option.any_eq_true _ _).1 hheld
  have hheld : signed.certificates = [X509.smallCertificate []] := of_decide_eq_true hheld
  have hne : X509.smallCertificate X509.spelledOut ∉ signed.certificates := by
    rw [hheld]
    decide +kernel
  refine ⟨bundle, signed, _, hbundle, hsigned, by decide +kernel, hne, fun s hs =>
    ⟨fun hmem => hne (hs ▸ certificates_subset s hmem), certificates_ne_nil ?_⟩⟩
  rw [hs, hheld]
  nofun

end Bundle

end SecureBoot
