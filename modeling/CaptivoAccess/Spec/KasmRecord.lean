import CaptivoAccess.Spec.RecStore

/-! The video of an isolated session (`dataplane/kasmrecord.go`, the recording part of
`dataplane/kasmtunnel.go`). While the session lasts its live stream goes to the
connector's store in chunks; when it has ended the finalized file is sent chunk by
chunk to the same stream, from number zero on. Times are in nanoseconds, and a call
reads the clock once. -/

namespace Captivo.Video

open Lib.Utf8 Lib.FileTree Captivo.RecStore

def recFlushBytes : ℕ := 256 * 1024
def recFlushInterval : ℤ := 2 * 1000000000

/-- The video stream of a recording, under names that the store accepts. -/
structure VideoStream where
  cipher : Cipher
  root : Path
  tenantID : Bytes
  key : Bytes
  dir : Path
  accepted : RecStore.dir root ⟨tenantID, key, ascii "video"⟩ = .ok dir

def VideoStream.stream (v : VideoStream) : Stream := ⟨v.tenantID, v.key, ascii "video"⟩

/-- What becomes of a chunk on its way: it gets lost, it meets a connector without a store, or it is
written there with some nonce, at some time, and the answer comes back or does not. -/
inductive Transit where
  | lost
  | unsupported
  | carried (nonce : Bytes) (now : ℤ) (answered : Bool)

inductive SendError where
  | errRecUnsupported
  | failed
  deriving DecidableEq

/-- `writeRecChunk` with `handleRecWrite` at the other end. -/
def send (v : VideoStream) (t : Tree) (seq : ℕ) (data : Bytes) : Transit → Tree × Option SendError
  | .lost => (t, some .failed)
  | .unsupported => (t, some .errRecUnsupported)
  | .carried nonce now answered =>
    let stored := append (v.cipher.sealWith nonce) now v.root t v.stream seq data
    (stored.1, if stored.2.isOk && answered then none else some .failed)

structure KasmRecWriter where
  buf : Bytes
  seq : ℕ
  total : ℕ
  lastFlush : ℤ
  stopped : Bool

def newKasmRecWriter (now : ℤ) : KasmRecWriter := ⟨[], 0, 0, now, false⟩

/-- One read of at most `size` bytes, when it was made and what becomes of a chunk sent then. -/
structure Piece (size : ℕ) where
  data : Bytes
  fits : data.length ≤ size
  now : ℤ
  transit : Transit

/-- `flush`: what is buffered goes out under the next number. The number is used up also when the write fails. -/
def flush (v : VideoStream) (now : ℤ) (transit : Transit) (s : Tree × KasmRecWriter) : Tree × KasmRecWriter :=
  if s.2.buf = [] then s
  else
    let sent := send v s.1 s.2.seq s.2.buf transit
    (sent.1, { s.2 with
      buf := []
      seq := s.2.seq + 1
      lastFlush := now
      stopped := s.2.stopped || sent.2 = some .errRecUnsupported })

/-- `Write`, with a cap where `capBytes` is positive. -/
def write (v : VideoStream) (capBytes : ℕ) (s : Tree × KasmRecWriter) (p : Piece 65536) : Tree × KasmRecWriter :=
  if s.2.stopped then s
  else if 0 < capBytes ∧ capBytes ≤ s.2.total then flush v p.now p.transit (s.1, { s.2 with stopped := true })
  else
    let w := { s.2 with buf := s.2.buf ++ p.data, total := s.2.total + p.data.length }
    if recFlushBytes ≤ w.buf.length ∨ recFlushInterval ≤ p.now - w.lastFlush then flush v p.now p.transit (s.1, w)
    else (s.1, w)

/-- The relay of the live stream: every read that brings bytes is written, and `Close` flushes the rest. -/
def relay (v : VideoStream) (capBytes : ℕ) (t : Tree) (start : ℤ) (reads : List (Piece 65536)) (closed : ℤ) (last : Transit) :
    Tree × KasmRecWriter :=
  flush v closed last (reads.foldl (fun s p => if p.data = [] then s else write v capBytes s p) (t, newKasmRecWriter start))

/-- The loop that sends the finalized file, and whether every write has succeeded. -/
def finalize (v : VideoStream) : Tree → ℕ → List (Piece 262144) → Tree × Bool
  | t, _, [] => (t, true)
  | t, seq, p :: reads =>
    if p.data = [] then finalize v t seq reads
    else
      let sent := send v t seq p.data p.transit
      let rest := finalize v sent.1 (seq + 1) reads
      (rest.1, sent.2.isNone && rest.2)

end Captivo.Video
