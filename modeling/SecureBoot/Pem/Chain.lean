import SecureBoot.Pem

/-!
# Chains of certificates in PEM

The strict form that a file of several certificates has. Line ends at the end of the file do not
count. The rest is cut behind each end line, and every piece must be one whole document:

* text before the begin line is ignored as long as it has no zero byte; the begin line must start a
  line,
* the label is `CERTIFICATE` on both lines,
* every line has exactly sixty-four digits, the last as many or fewer.
-/

namespace SecureBoot.Pem.Chain

def beginLine : Bytes := Text.encode "-----BEGIN CERTIFICATE-----"

def endLine : Bytes := Text.encode "-----END CERTIFICATE-----"

/-- What every begin line starts with. -/
def anyBegin : Bytes := Text.encode "-----BEGIN "

/-- The bytes without a line end in front, if there is one. -/
def dropLineEnd? : Bytes → Option Bytes
  | 0x0d :: 0x0a :: rest => some rest
  | 0x0d :: rest => some rest
  | 0x0a :: rest => some rest
  | _ => none

/-- The bytes without a line end at the end, if there is one. -/
def dropLastLineEnd? (b : Bytes) : Option Bytes :=
  match b.reverse with
  | 0x0a :: 0x0d :: rest => some rest.reverse
  | 0x0a :: rest => some rest.reverse
  | 0x0d :: rest => some rest.reverse
  | _ => none

/-- The document from its first begin line on; `atLineStart` says whether one may begin here. -/
def skipPreamble? (atLineStart : Bool) : Bytes → Option Bytes
  | [] => none
  | byte :: rest =>
    if atLineStart && anyBegin.isPrefixOf (byte :: rest) then some (byte :: rest)
    else if byte = 0 then none
    else skipPreamble? (byte == lineFeed) rest

/-- The digits of all lines; `room` lines at most are read. -/
def joinLines? : Nat → Bytes → Option Bytes
  | 0, _ => none
  | room + 1, b =>
    if b.length ≤ lineWidth then some ((dropLastLineEnd? b).getD b)
    else do
      let rest ← dropLineEnd? (b.drop lineWidth)
      if rest.isEmpty then return b.take lineWidth
      let tail ← joinLines? room rest
      return b.take lineWidth ++ tail

/-- The data of a document that ends with its end line. -/
def document? (b : Bytes) : Option Bytes := do
  let document ← skipPreamble? true b
  guard (beginLine.isPrefixOf document)
  let body ← dropLineEnd? (document.drop beginLine.length)
  guard (endLine.length ≤ body.length)
  let text ← dropLastLineEnd? (body.take (body.length - endLine.length))
  let digits ← joinLines? (text.length + 1) text
  Base64.decode? digits

/-- Where `mark` first ends in `b`. -/
def stopOf? (mark : Bytes) : Bytes → Option Nat
  | [] => none
  | byte :: rest =>
    if mark.isPrefixOf (byte :: rest) then some mark.length
    else (stopOf? mark rest).map (· + 1)

/-- Cuts behind each end line; a single byte left over is ignored. `room` documents at most are
read. -/
def documents? : Nat → Bytes → Option (List Bytes)
  | 0, _ => none
  | room + 1, b =>
    if b.length ≤ 1 then some []
    else do
      let stop ← stopOf? endLine b
      let first ← document? (b.take stop)
      let others ← documents? room (b.drop stop)
      return first :: others

/-- The data of all documents in a file, in order. An empty file has none and is refused. -/
def read? (b : Bytes) : Option (List Bytes) := do
  let trimmed := (b.reverse.dropWhile isLineEnd).reverse
  guard (!trimmed.isEmpty)
  documents? (trimmed.length + 1) trimmed

end SecureBoot.Pem.Chain
