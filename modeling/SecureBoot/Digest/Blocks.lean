import SecureBoot.Bytes

/-!
# Messages in blocks

The digests of the MD5 and SHA families take a message block by block. `padded` completes the last
block: a one bit, zero bits, and the length of the message in bits. `foldBlocks` runs a state over
the blocks.
-/

namespace SecureBoot.Digest

/-- Folds a function over consecutive blocks of `size` bytes, `count` of them. -/
def foldBlocks (size : Nat) (f : σ → Bytes → σ) : Nat → σ → Bytes → σ
  | 0, state, _ => state
  | count + 1, state, b => foldBlocks size f count (f state (b.take size)) (b.drop size)

/-- The message with its padding, a whole number of blocks. `lengthBytes` is the field that holds
the length in bits. -/
def padded (blockSize : Nat) (lengthBytes : Nat → Bytes) (message : Bytes) : Bytes :=
  let length := message.length
  let field := lengthBytes (8 * length)
  let used := (length + 1 + field.length) % blockSize
  message ++ 0x80 :: (Bytes.zeros ((blockSize - used) % blockSize) ++ field)

/-- Runs a compression function over all blocks of the padded message. -/
def runBlocks (blockSize : Nat) (lengthBytes : Nat → Bytes) (compress : σ → Bytes → σ) (start : σ)
    (message : Bytes) : σ :=
  let whole := padded blockSize lengthBytes message
  foldBlocks blockSize compress (whole.length / blockSize) start whole

/-- The 32-bit words of a block, most significant byte first. -/
def wordsBE32 (block : Bytes) : Array UInt32 :=
  go #[] block
where
  go (acc : Array UInt32) : Bytes → Array UInt32
    | a :: b :: c :: d :: rest =>
      go (acc.push (a.toUInt32 <<< 24 ||| b.toUInt32 <<< 16 ||| c.toUInt32 <<< 8 |||
        d.toUInt32)) rest
    | _ => acc

/-- The 32-bit words of a block, least significant byte first. -/
def wordsLE32 (block : Bytes) : Array UInt32 :=
  go #[] block
where
  go (acc : Array UInt32) : Bytes → Array UInt32
    | a :: b :: c :: d :: rest =>
      go (acc.push (d.toUInt32 <<< 24 ||| c.toUInt32 <<< 16 ||| b.toUInt32 <<< 8 |||
        a.toUInt32)) rest
    | _ => acc

/-- The 64-bit words of a block, most significant byte first. -/
def wordsBE64 (block : Bytes) : Array UInt64 :=
  pair #[] (wordsBE32 block).toList
where
  pair (acc : Array UInt64) : List UInt32 → Array UInt64
    | high :: low :: rest => pair (acc.push (high.toUInt64 <<< 32 ||| low.toUInt64)) rest
    | _ => acc

def rotateLeft32 (x : UInt32) (n : UInt32) : UInt32 := x <<< n ||| x >>> (32 - n)

def rotateRight32 (x : UInt32) (n : UInt32) : UInt32 := x >>> n ||| x <<< (32 - n)

def rotateLeft64 (x : UInt64) (n : UInt64) : UInt64 :=
  if n = 0 then x else x <<< n ||| x >>> (64 - n)

def rotateRight64 (x : UInt64) (n : UInt64) : UInt64 := x >>> n ||| x <<< (64 - n)

end SecureBoot.Digest
