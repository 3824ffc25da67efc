import Mathlib
import SecureBoot.Proofs.Der
import SecureBoot.Proofs.Outcome
import SecureBoot.X509.Certificate

/-!
# Parts of certificates written again

Each part of a certificate is written as one element. What was read strictly from an element comes
out as this element (`element_of_ofElement?`) where strict reading leaves only one form: algorithms,
keys, attributes and the bounds of the validity. Two parts leave more than one.

* **Names.** The attributes of a set are read in any order and written in ascending order
  (`Name.element_eq_iff`).
* **Extensions.** One that is not critical may say so, and is written without
  (`Extension.element_eq_iff`).
-/

namespace SecureBoot

open Der

/-! ## Results one by one -/

section ResultsOneByOne

variable {α β : Type} {R : α → β → Prop} {f : β → α} {xs : List α} {ys : List β}

/-- Whether results give the parts back can be told part by part. -/
theorem map_eq_iff_of_forall₂ {P : α → Prop} (h : List.Forall₂ R xs ys)
    (hf : ∀ x ∈ xs, ∀ y, R x y → (f y = x ↔ P x)) : ys.map f = xs ↔ ∀ x ∈ xs, P x := by
  induction h with
  | nil => exact iff_of_true rfl nofun
  | cons hxy _ ih =>
    rw [List.forall_mem_cons] at hf ⊢
    rw [List.map_cons, List.cons.injEq, hf.1 _ hxy, ih hf.2]

theorem map_eq_of_forall₂ (h : List.Forall₂ R xs ys) (hf : ∀ x y, R x y → f y = x) :
    ys.map f = xs :=
  (map_eq_iff_of_forall₂ h fun _ _ _ hxy => iff_of_true (hf _ _ hxy) trivial).2 fun _ _ => trivial

theorem exists_of_mem_forall₂ (h : List.Forall₂ R xs ys) {y : β} (hy : y ∈ ys) :
    ∃ x ∈ xs, R x y := by
  induction h with
  | nil => cases hy
  | cons hxy _ ih =>
    rcases List.mem_cons.1 hy with rfl | hy
    · exact ⟨_, List.mem_cons_self, hxy⟩
    · obtain ⟨x, hx, hxy⟩ := ih hy
      exact ⟨x, List.mem_cons_of_mem _ hx, hxy⟩

end ResultsOneByOne

namespace Oid

def element (o : Oid) : Element := ⟨Tag.objectIdentifier, o.content⟩

theorem element_of_ofElement? {e : Element} {o : Oid} (h : ofElement? e = some o) :
    o.element = e := by
  obtain ⟨content, hcontent, rfl⟩ := Option.map_eq_some_iff.1 h
  exact (eq_of_contentOf? hcontent).symm

end Oid

namespace X509

/-! ## Algorithms and keys -/

namespace Algorithm

def element (a : Algorithm) : Element := row Tag.sequence (a.oid.element :: a.parameters.toList)

theorem encode_eq (a : Algorithm) : a.encode = a.element.encode := by
  cases h : a.parameters <;>
    simp [encode, element, row, h, Der.sequence, Der.element, Oid.encode, Oid.element]

theorem element_of_ofElement? {e : Element} {a : Algorithm}
    (h : ofElement? .strict e = some a) : a.element = e := by
  obtain ⟨es, hinside, h⟩ := bind_eq_some.1 h
  cases es with
  | nil => cases h
  | cons oid parameters =>
    obtain ⟨o, ho, h⟩ := bind_eq_some.1 h
    obtain ⟨-, h⟩ := guard_bind_eq_some.1 h
    obtain ⟨hcount, h⟩ := guard_bind_eq_some.1 h
    cases h
    rw [eq_row_of_inside? hinside, element, Oid.element_of_ofElement? ho]
    rcases parameters with _ | ⟨first, _ | ⟨second, rest⟩⟩
    · rfl
    · rfl
    · simp at hcount

end Algorithm

namespace BitString

def element (s : BitString) : Element := ⟨Tag.bitString, s.content⟩

theorem content_of_ofContent? {x : Bytes} {s : BitString} (h : ofContent? x = some s) :
    s.content = x := by
  cases x with
  | nil => cases h
  | cons unused bytes =>
    rw [ofContent?] at h
    split at h
    · cases h
      rfl
    · cases h

theorem element_of_ofElement? {e : Element} {s : BitString} (h : ofElement? e = some s) :
    s.element = e := by
  obtain ⟨x, hx, h⟩ := bind_eq_some.1 h
  rw [eq_of_contentOf? hx, element, content_of_ofContent? h]

end BitString

namespace PublicKey

def element (k : PublicKey) : Element := row Tag.sequence [k.algorithm.element, k.key.element]

theorem encode_eq (k : PublicKey) : k.encode = k.element.encode := by
  simp [encode, element, row, Der.sequence, Der.element, Algorithm.encode_eq, BitString.element]

theorem element_of_ofElement? {e : Element} {k : PublicKey}
    (h : ofElement? .strict e = some k) : k.element = e := by
  obtain ⟨es, hinside, h⟩ := bind_eq_some.1 h
  rcases es with _ | ⟨algorithm, _ | ⟨key, _ | ⟨_, _⟩⟩⟩ <;> try cases h
  obtain ⟨a, ha, h⟩ := bind_eq_some.1 h
  obtain ⟨s, hs, h⟩ := bind_eq_some.1 h
  cases h
  rw [eq_row_of_inside? hinside, element, Algorithm.element_of_ofElement? ha,
    BitString.element_of_ofElement? hs]

end PublicKey

/-! ## Names -/

theorem precedes_total (x y : Bytes) : (precedes x y || precedes y x) = true := by
  induction x generalizing y with
  | nil => rfl
  | cons a rest ih =>
    cases y with
    | nil => rfl
    | cons b rest' =>
      have hrest := ih rest'
      simp only [precedes, Bool.or_eq_true, Bool.and_eq_true, decide_eq_true_eq, beq_iff_eq]
        at hrest ⊢
      rcases Nat.lt_trichotomy a.toNat b.toNat with hlt | heq | hlt
      · exact .inl (.inl hlt)
      · obtain rfl := UInt8.toNat_inj.1 heq
        exact hrest.imp (fun h => .inr ⟨rfl, h⟩) fun h => .inr ⟨rfl, h⟩
      · exact .inr (.inl hlt)

theorem precedes_trans (x y z : Bytes) (hxy : precedes x y = true) (hyz : precedes y z = true) :
    precedes x z = true := by
  induction x generalizing y z with
  | nil => rfl
  | cons a rest ih =>
    rcases y with _ | ⟨b, rest'⟩
    · cases hxy
    rcases z with _ | ⟨c, rest''⟩
    · cases hyz
    simp only [precedes, Bool.or_eq_true, Bool.and_eq_true, decide_eq_true_eq, beq_iff_eq]
      at hxy hyz ⊢
    rcases hxy with hxy | ⟨rfl, hxy⟩ <;> rcases hyz with hyz | ⟨rfl, hyz⟩
    · exact .inl (UInt8.lt_trans hxy hyz)
    · exact .inl hxy
    · exact .inl hyz
    · exact .inr ⟨rfl, ih _ _ hxy hyz⟩

namespace Attribute

def element (a : Attribute) : Element := row Tag.sequence [a.kind.element, a.value]

theorem encode_eq (a : Attribute) : a.encode = a.element.encode := by
  simp [encode, element, row, Der.sequence, Der.element, Oid.encode, Oid.element]

theorem element_of_ofElement? {e : Element} {a : Attribute}
    (h : ofElement? .strict e = some a) : a.element = e := by
  obtain ⟨es, hinside, h⟩ := bind_eq_some.1 h
  rcases es with _ | ⟨kind, _ | ⟨value, _ | ⟨_, _⟩⟩⟩ <;> try cases h
  obtain ⟨o, ho, h⟩ := bind_eq_some.1 h
  obtain ⟨-, h⟩ := guard_bind_eq_some.1 h
  cases h
  rw [eq_row_of_inside? hinside, element, Oid.element_of_ofElement? ho]

end Attribute

namespace Name

/-- Whether attributes stand in ascending order. -/
def Ascends (part : List Attribute) : Prop := part.Pairwise fun a b => precedes a.encode b.encode

/-- A set of attributes. -/
def partElement (part : List Attribute) : Element := row Tag.set (part.map Attribute.element)

def element (n : Name) : Element := row Tag.sequence (n.parts.map partElement)

theorem encode_eq (n : Name) : n.encode = n.element.encode := by
  have hattribute : Attribute.encode = fun a => a.element.encode := funext Attribute.encode_eq
  simp [encode, element, partElement, row, Der.sequence, Der.set, Der.element, Function.comp_def,
    hattribute]

/-- Whether the elements in a set stand in ascending order. -/
def IsOrderedPart (e : Element) : Prop :=
  ∀ attributes ∈ e.inside? .strict Tag.set,
    attributes.Pairwise fun a b => precedes a.encode b.encode

/-- Whether the attributes of a name stand in ascending order, set by set. -/
def IsOrdered (e : Element) : Prop :=
  ∀ parts ∈ e.inside? .strict Tag.sequence, ∀ part ∈ parts, IsOrderedPart part

theorem ascends_iff {part : List Attribute} : Ascends part ↔
    (part.map Attribute.element).Pairwise fun a b => precedes a.encode b.encode := by
  simp only [Ascends, List.pairwise_map, Attribute.encode_eq]

theorem ascends_mergeSort (part : List Attribute) :
    Ascends (part.mergeSort fun a b => precedes a.encode b.encode) :=
  List.pairwise_mergeSort (fun a b c => precedes_trans a.encode b.encode c.encode)
    (fun a b => precedes_total a.encode b.encode) part

/-- Reading puts the attributes of a set in ascending order. -/
theorem ascends_of_part? {e : Element} {part : List Attribute} (h : part? .strict e = some part) :
    Ascends part := by
  obtain ⟨es, -, h⟩ := bind_eq_some.1 h
  obtain ⟨attributes, -, h⟩ := bind_eq_some.1 h
  obtain ⟨-, h⟩ := guard_bind_eq_some.1 h
  cases h
  exact ascends_mergeSort attributes

theorem partElement_eq_iff {e : Element} {part : List Attribute} (h : part? .strict e = some part)
    (hlength : e.content.length < 2 ^ 64) : partElement part = e ↔ IsOrderedPart e := by
  obtain ⟨es, hinside, h⟩ := bind_eq_some.1 h
  obtain ⟨attributes, hattributes, h⟩ := bind_eq_some.1 h
  obtain ⟨-, h⟩ := guard_bind_eq_some.1 h
  cases h
  have hrow := eq_row_of_inside? hinside
  have helements := map_eq_of_forall₂ (mapM_eq_some.1 hattributes) fun _ _ =>
    Attribute.element_of_ofElement?
  have hordered : IsOrderedPart e ↔ Ascends attributes := by
    rw [ascends_iff, helements, IsOrderedPart, hinside]
    simp only [Option.mem_some_iff, forall_eq']
  rw [hordered, hrow, partElement, row_inj (hrow ▸ hlength)]
  constructor
  · intro heq
    rw [ascends_iff, helements, ← heq, ← ascends_iff]
    exact ascends_mergeSort attributes
  · intro hascends
    rw [List.mergeSort_of_pairwise hascends, helements]

theorem element_eq_iff {e : Element} {n : Name} (h : ofElement? .strict e = some n)
    (hlength : e.content.length < 2 ^ 64) : n.element = e ↔ IsOrdered e := by
  obtain ⟨es, hinside, h⟩ := bind_eq_some.1 h
  obtain ⟨parts, hparts, h⟩ := bind_eq_some.1 h
  cases h
  have hrow := eq_row_of_inside? hinside
  rw [hrow] at hlength
  have hparts := map_eq_iff_of_forall₂ (mapM_eq_some.1 hparts) fun part hpart _ hread =>
    partElement_eq_iff hread (length_lt_of_mem_row hpart hlength)
  rw [IsOrdered, hinside, hrow, element, row_inj hlength, hparts]
  simp only [Option.mem_some_iff, forall_eq']

/-- Names are written in order. -/
theorem isOrdered_element {e : Element} {n : Name} (h : ofElement? .strict e = some n)
    (hlength : n.element.content.length < 2 ^ 64) : IsOrdered n.element := by
  obtain ⟨es, -, h⟩ := bind_eq_some.1 h
  obtain ⟨parts, hparts, h⟩ := bind_eq_some.1 h
  cases h
  rw [element] at hlength
  intro written hwritten part hpart attributes hattributes
  obtain rfl := (row_inj hlength).1 (eq_row_of_inside? hwritten).symm
  obtain ⟨sorted, hsorted, rfl⟩ := List.mem_map.1 hpart
  have hshort := length_lt_of_mem_row hpart hlength
  rw [partElement] at hshort hattributes
  obtain rfl := (row_inj hshort).1 (eq_row_of_inside? hattributes).symm
  obtain ⟨_, -, hread⟩ := exists_of_mem_forall₂ (mapM_eq_some.1 hparts) hsorted
  exact ascends_iff.1 (ascends_of_part? hread)

end Name

/-! ## Extensions -/

namespace Extension

def element (x : Extension) : Element :=
  row Tag.sequence (x.kind.element ::
    (if x.critical then [⟨Tag.boolean, [0xff]⟩] else []) ++ [⟨Tag.octetString, x.value⟩])

theorem encode_eq (x : Extension) : x.encode = x.element.encode := by
  cases h : x.critical <;>
    simp [encode, element, row, h, Der.sequence, Der.element, Der.octetString, Oid.encode,
      Oid.element]

/-- Whether an extension that is not critical leaves that unsaid. -/
def IsPlain (e : Element) : Prop :=
  ∀ kind value, e.inside? .strict Tag.sequence ≠ some [kind, ⟨Tag.boolean, [0x00]⟩, value]

theorem element_eq_iff {e : Element} {x : Extension} (h : ofElement? .strict e = some x)
    (hlength : e.content.length < 2 ^ 64) : x.element = e ↔ IsPlain e := by
  obtain ⟨es, hinside, h⟩ := bind_eq_some.1 h
  have hrow := eq_row_of_inside? hinside
  rw [hrow] at hlength
  rw [IsPlain, hinside, hrow, element, row_inj hlength]
  rcases es with _ | ⟨kind, fields⟩
  · cases h
  obtain ⟨o, ho, h⟩ := bind_eq_some.1 h
  obtain ⟨-, h⟩ := guard_bind_eq_some.1 h
  rcases fields with _ | ⟨first, _ | ⟨second, _ | ⟨_, _⟩⟩⟩
  · cases h
  · obtain ⟨content, hcontent, h⟩ := bind_eq_some.1 h
    cases h
    rw [Oid.element_of_ofElement? ho, eq_of_contentOf? hcontent]
    exact iff_of_true rfl nofun
  · obtain ⟨critical, hcritical, h⟩ := bind_eq_some.1 h
    obtain ⟨content, hcontent, h⟩ := bind_eq_some.1 h
    cases h
    rw [Oid.element_of_ofElement? ho, eq_of_contentOf? hcontent]
    obtain ⟨octets, hoctets, h⟩ := bind_eq_some.1 hcritical
    rw [eq_of_contentOf? hoctets]
    split at h
    · cases h
      simp
    · cases h
      simp
    · cases h
  · cases h

theorem isPlain_element {x : Extension} (hlength : x.element.content.length < 2 ^ 64) :
    IsPlain x.element := by
  intro kind value hinside
  have hrow := (row_inj hlength).1 (eq_row_of_inside? hinside).symm
  cases hcritical : x.critical <;> simp [hcritical] at hrow

end Extension

/-! ## Validity -/

namespace Validity

def element (v : Validity) : Element := row Tag.sequence [v.notBefore, v.notAfter]

theorem encode_eq (v : Validity) : v.encode = v.element.encode := by
  simp [encode, element, row, Der.sequence, Der.element]

theorem element_of_ofElement? {e : Element} {v : Validity}
    (h : ofElement? .strict e = some v) : v.element = e := by
  obtain ⟨es, hinside, h⟩ := bind_eq_some.1 h
  rcases es with _ | ⟨notBefore, _ | ⟨notAfter, _ | ⟨_, _⟩⟩⟩ <;> try cases h
  obtain ⟨-, h⟩ := guard_bind_eq_some.1 h
  cases h
  exact (eq_row_of_inside? hinside).symm

end Validity

end X509

end SecureBoot
