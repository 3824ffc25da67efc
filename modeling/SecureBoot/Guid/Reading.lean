import SecureBoot.Error
import SecureBoot.Text.Blank

/-!
# GUIDs from text files

`Guid.read` is `Guid.parse?` for text from outside: blanks around the GUID are ignored, and the
error quotes what is left without them.
-/

namespace SecureBoot

def Guid.read (s : String) : Except Error Guid :=
  let trimmed := Text.trimBlanks s
  match Guid.parse? trimmed with
  | some g => .ok g
  | none => .error (.invalidGuid trimmed)

end SecureBoot
