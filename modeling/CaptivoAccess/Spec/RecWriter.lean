import CaptivoAccess.Spec.KasmRecord

/-! The two writers that tee a session to the connector's store (`recWriter` in
`dataplane/guacrecord.go`, `kasmRecWriter` in `dataplane/kasmrecord.go`), with all that
leaves them. They differ in the stream that they name. Times are in nanoseconds. -/

namespace Captivo.Capture

open Lib.Utf8 Captivo.Video

structure RecWriteRequest where
  tenantID : Bytes
  recordingKey : Bytes
  seq : ℕ
  format : Bytes
  protocol : Bytes
  data : Bytes
  deriving DecidableEq, Repr

/-- What a writer hands out: a chunk to the connector, the index of one, or the note that a recording was cut short. -/
inductive Out where
  | send (req : RecWriteRequest)
  | report (recordingKey : Bytes) (seq bytes : ℕ)
  | reportTruncated (recordingKey : Bytes)
  deriving DecidableEq, Repr

structure RecWriter where
  tenantID : Bytes
  key : Bytes
  format : Bytes
  protocol : Bytes
  capBytes : ℤ
  buf : Bytes
  seq : ℕ
  total : ℕ
  lastFlush : ℤ
  stopped : Bool

def newRecWriter (tenantID key protocol : Bytes) (capBytes now : ℤ) : RecWriter :=
  ⟨tenantID, key, ascii "guac", protocol, capBytes, [], 0, 0, now, false⟩

def newKasmRecWriter (tenantID key : Bytes) (capBytes now : ℤ) : RecWriter :=
  ⟨tenantID, key, ascii "video", [], capBytes, [], 0, 0, now, false⟩

def RecWriter.request (w : RecWriter) (seq : ℕ) (data : Bytes) : RecWriteRequest :=
  ⟨w.tenantID, w.key, seq, w.format, w.protocol, data⟩

/-- One call of `flush`, if there is one: what the clock says in it and how the send ends. -/
structure Flush where
  now : ℤ
  err : Option SendError

def RecWriter.flush (w : RecWriter) (f : Flush) : RecWriter × List Out :=
  if w.buf = [] then (w, [])
  else
    ({ w with
        seq := w.seq + 1
        buf := []
        lastFlush := f.now
        stopped := w.stopped || f.err = some .errRecUnsupported },
      [.send (w.request w.seq w.buf), .report w.key w.seq w.buf.length])

/-- `Write`, at a time. -/
def RecWriter.write (w : RecWriter) (inst : Bytes) (now : ℤ) (f : Flush) : RecWriter × List Out :=
  if w.stopped then (w, [])
  else if 0 < w.capBytes ∧ w.capBytes ≤ w.total then
    let flushed := { w with stopped := true }.flush f
    (flushed.1, flushed.2 ++ [.reportTruncated w.key])
  else
    let w := { w with buf := w.buf ++ inst, total := w.total + inst.length }
    if recFlushBytes ≤ w.buf.length ∨ recFlushInterval ≤ now - w.lastFlush then w.flush f else (w, [])

/-- A call of `Write` in a run. -/
structure Write where
  inst : Bytes
  now : ℤ
  flush : Flush

def RecWriter.writes (w : RecWriter) : List Write → RecWriter × List Out
  | [] => (w, [])
  | call :: calls =>
    let first := w.write call.inst call.now call.flush
    let rest := first.1.writes calls
    (rest.1, first.2 ++ rest.2)

/-- All writes of a session and `Close`. -/
def RecWriter.session (w : RecWriter) (calls : List Write) (close : Flush) : List Out :=
  let written := w.writes calls
  written.2 ++ (written.1.flush close).2

end Captivo.Capture
