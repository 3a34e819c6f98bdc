import CaptivoAccess.Spec.RecFetch
import CaptivoAccess.Spec.RecStore

/-! Slices of a stream in the connector's store (`ReadRange` and `TotalPlaintextBytes` in
`connector/recstore.go`), over the chunks that `Read` gives. -/

namespace Captivo.RecStore

open Lib.Utf8 Lib.FileTree

section

variable (openChunk : Bytes → Option Bytes) (root : Path) (t : Tree) (s : Stream)

def totalPlaintextBytes : Except StoreError ℕ :=
  (read openChunk root t s 0).map fun chunks => RecFetch.totalPlaintextBytes (chunks.map Prod.snd)

/-- `ReadRange`: the bytes from `fromByte` to `toByte`, both included. -/
def readRange (fromByte toByte : ℤ) : Except StoreError Bytes :=
  if fromByte < 0 ∨ toByte < fromByte then .error (.invalid "range")
  else (read openChunk root t s 0).map fun chunks => RecFetch.readChunks fromByte toByte 0 (chunks.map Prod.snd)

end

/-! Runs. -/

/-- A call of `Append` on a stream. Its writer numbers the chunks from zero. -/
structure Appending where
  now : ℤ
  nonce : Bytes
  seq : ℕ
  isInt : seq < 2 ^ 63
  plain : Bytes

/-- The tree after the calls, and the chunk that was last stored under each number. -/
def appendAll (c : Cipher) (root : Path) (s : Stream) (start : Tree × (ℕ → Option Bytes)) (calls : List Appending) :
    Tree × (ℕ → Option Bytes) :=
  calls.foldl (fun acc a =>
    let done := append (c.sealWith a.nonce) a.now root acc.1 s a.seq a.plain
    (done.1, if done.2.isOk then Function.update acc.2 a.seq (some a.plain) else acc.2)) start

/-- The chunks with a number below `n`, one after the other. -/
def concatenation (chunks : ℕ → Option Bytes) (n : ℕ) : Bytes := (List.range n).flatMap fun seq => (chunks seq).getD []

end Captivo.RecStore
