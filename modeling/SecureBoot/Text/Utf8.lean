import SecureBoot.Bytes

/-!
# UTF-8 and UTF-16

`pieces` reads bytes as UTF-8 from the left. Each piece is a character, or `none` for a longest
run of bytes that begins a character and does not go on as one. Two readings come of it: `decode?`
refuses the bytes when a piece is malformed, `decodeLossy` puts the replacement character there.
-/

namespace SecureBoot.Text

/-- A character of which some bytes are still to come: how many, the value so far, and the least
and greatest value of the next byte. -/
structure Utf8Pending where
  missing : Nat
  value : Nat
  least : Nat
  greatest : Nat

/-- What a byte at the start of a character tells. -/
inductive Utf8Lead where
  | complete (c : Char)
  | pending (p : Utf8Pending)
  | malformed

/-- The role of a byte at the start of a character. Overlong forms, surrogates and values above
`10FFFF` are excluded by the range of the second byte. -/
def utf8Lead (byte : UInt8) : Utf8Lead :=
  let b := byte.toNat
  if b < 0x80 then .complete (Char.ofNat b)
  else if b < 0xc2 then .malformed
  else if b < 0xe0 then .pending ⟨1, b - 0xc0, 0x80, 0xbf⟩
  else if b = 0xe0 then .pending ⟨2, 0, 0xa0, 0xbf⟩
  else if b = 0xed then .pending ⟨2, 0xd, 0x80, 0x9f⟩
  else if b < 0xf0 then .pending ⟨2, b - 0xe0, 0x80, 0xbf⟩
  else if b = 0xf0 then .pending ⟨3, 0, 0x90, 0xbf⟩
  else if b < 0xf4 then .pending ⟨3, b - 0xf0, 0x80, 0xbf⟩
  else if b = 0xf4 then .pending ⟨3, 4, 0x80, 0x8f⟩
  else .malformed

/-- The characters that bytes spell, `none` for a malformed piece. -/
def utf8Pieces : Option Utf8Pending → Bytes → List (Option Char)
  | none, [] => []
  | some _, [] => [none]
  | none, byte :: rest =>
    match utf8Lead byte with
    | .complete c => some c :: utf8Pieces none rest
    | .pending p => utf8Pieces (some p) rest
    | .malformed => none :: utf8Pieces none rest
  | some p, byte :: rest =>
    if p.least ≤ byte.toNat ∧ byte.toNat ≤ p.greatest then
      let value := 64 * p.value + (byte.toNat - 0x80)
      if p.missing ≤ 1 then some (Char.ofNat value) :: utf8Pieces none rest
      else utf8Pieces (some ⟨p.missing - 1, value, 0x80, 0xbf⟩) rest
    else
      none ::
        match utf8Lead byte with
        | .complete c => some c :: utf8Pieces none rest
        | .pending q => utf8Pieces (some q) rest
        | .malformed => none :: utf8Pieces none rest

/-- The text that bytes spell in UTF-8, if every byte belongs to a character. -/
def decode? (b : Bytes) : Option String :=
  ((utf8Pieces none b).mapM id).map String.ofList

/-- The text that bytes spell in UTF-8, with the replacement character for each malformed piece. -/
def decodeLossy (b : Bytes) : String :=
  String.ofList ((utf8Pieces none b).map (·.getD (Char.ofNat 0xfffd)))

/-- The bytes of a text in UTF-8. -/
def encode (s : String) : Bytes := s.toList.flatMap String.utf8EncodeChar

/-- The bytes of a text in UTF-16, high byte first. -/
def encodeUtf16 (s : String) : Bytes :=
  s.toList.flatMap fun c =>
    let n := c.toNat
    if n < 0x10000 then Bytes.ofNatBE 2 n
    else Bytes.ofNatBE 2 (0xd800 + (n - 0x10000) / 0x400) ++
      Bytes.ofNatBE 2 (0xdc00 + (n - 0x10000) % 0x400)

/-- Whether bytes, two for a unit and the low one first, are well-formed UTF-16: every high
surrogate is followed by a low one, and no low one stands alone. -/
def isUtf16LE : Bytes → Bool
  | [] => true
  | [_] => false
  | low :: high :: rest =>
    let unit := low.toNat + 256 * high.toNat
    if 0xdc00 ≤ unit ∧ unit < 0xe000 then false
    else if 0xd800 ≤ unit ∧ unit < 0xdc00 then
      match rest with
      | low' :: high' :: rest' =>
        let unit' := low'.toNat + 256 * high'.toNat
        0xdc00 ≤ unit' ∧ unit' < 0xe000 ∧ isUtf16LE rest'
      | _ => false
    else isUtf16LE rest

end SecureBoot.Text
