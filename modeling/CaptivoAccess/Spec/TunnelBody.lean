import CaptivoAccess.Lib.Arrivals
import CaptivoAccess.Lib.Framed

/-! Bodies on a tunnel stream (`tunnel/body.go`): chunks with their length in front, and a
chunk of length zero at the end. -/

namespace Captivo.Body

open Lib.Utf8 Lib.Framed Lib.Arrivals

def chunkSize : ℕ := 32768
def maxChunk : ℕ := 1048576

inductive SourceError where
  | EOF
  | failed

/-- One read of the source into a buffer of `chunkSize` bytes. -/
structure SourceRead where
  data : Bytes
  fits : data.length ≤ chunkSize
  err : Option SourceError

/-- What `WriteBody` writes while the source is read, and whether it has ended the body. -/
def WriteBody : List SourceRead → Bytes × Bool
  | [] => ([], false)
  | r :: reads =>
    let chunk := if r.data = [] then [] else encode r.data
    match r.err with
    | none => (chunk ++ (WriteBody reads).1, (WriteBody reads).2)
    | some .EOF => (chunk ++ header 0, true)
    | some .failed => (chunk, false)

def delivered : List SourceRead → Bytes
  | [] => []
  | r :: reads => r.data ++ if r.err.isNone then delivered reads else []

inductive ReadError where
  | EOF
  | ErrUnexpectedEOF
  | chunkTooLarge
  deriving DecidableEq, Repr

/-- `io.ReadFull` of a header. -/
def readHeader (s : Stream UInt8) : Except ReadError ℕ × Stream UInt8 :=
  let got := fill 4 s.pieces
  let left : Stream UInt8 := { s with pieces := got.2 }
  match got.1 with
  | [] => (.error .EOF, left)
  | [a, b, c, d] => (.ok (lengthOf a b c d), left)
  | _ => (.error .ErrUnexpectedEOF, left)

structure BodyReader where
  r : Stream UInt8
  remaining : ℕ
  done : Bool

def NewBodyReader (r : Stream UInt8) : BodyReader := ⟨r, 0, false⟩

/-- The end of `Read`, with some of the chunk remaining. The length of the buffer is compared as a 32-bit number. -/
def BodyReader.readChunk (size : ℕ) (b : BodyReader) : Bytes × Option ReadError × BodyReader :=
  let len := if b.remaining < size % 2 ^ 32 then b.remaining else size
  let got := b.r.read len
  (got.data, if got.ended then some .EOF else none,
    { b with r := got.left, remaining := (b.remaining + (2 ^ 32 - got.data.length % 2 ^ 32)) % 2 ^ 32 })

/-- `Read` into a buffer of `size` bytes. -/
def BodyReader.read (size : ℕ) (b : BodyReader) : Bytes × Option ReadError × BodyReader :=
  if b.done then ([], some .EOF, b)
  else if b.remaining = 0 then
    match readHeader b.r with
    | (.error e, r) => ([], some e, { b with r })
    | (.ok n, r) =>
      if n = 0 then ([], some .EOF, { b with r, done := true })
      else if maxChunk < n then ([], some .chunkTooLarge, { b with r })
      else readChunk size { b with r, remaining := n }
  else b.readChunk size

/-- What a consumer reads until the first error, buffer by buffer; none if it is not through after so many reads. -/
def readAll (sizes : ℕ → ℕ) : ℕ → BodyReader → Option (Bytes × ReadError × BodyReader)
  | 0, _ => none
  | n + 1, b =>
    match b.read (sizes 0) with
    | (data, some e, b') => some (data, e, b')
    | (data, none, b') => (readAll (fun i => sizes (i + 1)) n b').map fun rest => (data ++ rest.1, rest.2)

end Captivo.Body
