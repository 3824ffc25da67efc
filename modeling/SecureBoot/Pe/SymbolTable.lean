import SecureBoot.Pe.Headers

/-!
# Symbols and long section names

COFF symbols are followed by a string table, which also holds the section names of more than eight
bytes. `strings` is the whole string table with the four bytes of its length in front, so that the
offsets stated in names index it directly.

**Names are found, then added.** `intern` gives the offset of a name that the table already has as
one of its texts, and appends the name only if there is none. What was in the table stays where it
was.
-/

namespace SecureBoot.Pe

structure SymbolTable where
  symbols : Bytes
  strings : Bytes
  deriving DecidableEq, Inhabited, Repr

namespace SymbolTable

/-- Bytes of the length in front of the strings. -/
def lengthSize : Nat := 4

/-- No symbols and no strings. -/
def empty : SymbolTable := ⟨[], Bytes.zeros lengthSize⟩

def numberOfSymbols (t : SymbolTable) : Nat := t.symbols.length / Headers.symbolSize

/-- The text at an offset, up to the next zero byte. -/
def lookup? (t : SymbolTable) (offset : Nat) : Option String :=
  if offset < lengthSize ∨ t.strings.length ≤ offset then none
  else Text.decode? (Bytes.beforeNul (t.strings.drop offset))

/-- Whether `name` is the text that `strings` begins with. -/
def beginsWith (name strings : Bytes) : Bool :=
  Bytes.beforeNul (strings.take (name.length + 1)) == name

/-- Looks for `name` among the texts of `strings`, which stands at `offset` of the table; `atStart`
says whether a text begins there. -/
def find? (name : Bytes) : Nat → Bool → Bytes → Option Nat
  | _, _, [] => none
  | offset, atStart, byte :: rest =>
    if atStart && beginsWith name (byte :: rest) then some offset
    else find? name (offset + 1) (byte == 0) rest

/-- The offset of a name, and the table that has it. -/
def intern (t : SymbolTable) (name : Bytes) : Nat × SymbolTable :=
  match find? name lengthSize true (t.strings.drop lengthSize) with
  | some offset => (offset, t)
  | none => (t.strings.length, { t with strings := t.strings ++ (name ++ [0]) })

def encode (t : SymbolTable) : Bytes :=
  t.symbols ++ Bytes.ofNatLE lengthSize t.strings.length ++ t.strings.drop lengthSize

/-- Reads the symbols at `pointer` and the string table behind them; a pointer of zero means that
there are none. -/
def decode (b : Bytes) (pointer count : Nat) : Except Error (Option SymbolTable) := do
  if pointer = 0 then return none
  let available := b.length
  let strings := pointer + count * Headers.symbolSize
  if available < strings + lengthSize then
    throw (.truncated .symbolTable pointer (strings + lengthSize - pointer) (available - pointer))
  let length := max (b.u32 strings).toNat lengthSize
  if available < strings + length then
    throw (.truncated .stringTable strings length (available - strings))
  return some ⟨b.slice pointer strings, b.slice strings (strings + length)⟩

end SymbolTable

end SecureBoot.Pe
