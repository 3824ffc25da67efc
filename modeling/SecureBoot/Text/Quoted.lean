import SecureBoot.Text.Bare
import SecureBoot.Text.Hex

/-!
# Quoted text

Text from outside stands in messages between double quotes. A quote and a backslash get a backslash
in front; tab, newline, carriage return and the zero character have a letter; every other character
without a mark of its own is written as its code point in braces.
-/

namespace SecureBoot.Text

/-- How one character is written between quotes. -/
def quotedChar (c : Char) : List Char :=
  if c = '"' then ['\\', '"']
  else if c = '\\' then ['\\', '\\']
  else if c = '\n' then ['\\', 'n']
  else if c = '\r' then ['\\', 'r']
  else if c = '\t' then ['\\', 't']
  else if c = Char.ofNat 0 then ['\\', '0']
  else if isBare c then ['\\', 'u', '\x7b'] ++ (hex c.toNat).toList ++ ['\x7d']
  else [c]

/-- The text between double quotes. -/
def quoted (s : String) : String :=
  String.ofList ('"' :: (s.toList.flatMap quotedChar ++ ['"']))

end SecureBoot.Text
