/-!
# Where a signed image goes
-/

namespace SecureBoot

/-- Where to put a signed image. -/
inductive SignedOutput where
  /-- In the place of the image. -/
  | inPlace
  /-- Beside the image, under its name and an ending. -/
  | sibling
  | path (path : String)
  deriving DecidableEq, Inhabited, Repr

namespace SignedOutput

/-- The ending for an image beside the unsigned one. -/
def ending : String := ".signed"

/-- The path to write for an image. -/
def resolve (output : SignedOutput) (image : String) : String :=
  match output with
  | inPlace => image
  | sibling => image ++ ending
  | path p => p

end SignedOutput

end SecureBoot
