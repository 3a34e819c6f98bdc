import CaptivoAccess.Spec.GuacProto
import Mathlib.Data.List.AList

/-! The two observers of the browser-to-guacd direction: file transfers
(`dataplane/guacfiletransfer.go`) and keystrokes (`dataplane/keyevents.go`). Each
parses a copy of one WebSocket message until the first error and keeps nothing of
the unparsed rest. A Go string is a list of bytes, a time is in nanoseconds. -/

namespace Captivo.Guac

open Lib.Utf8

/-- One call of `parseInstruction`: the slices it asked for, and how it failed if it did. -/
structure Call where
  requests : List Request
  fault : Option Fault
  deriving DecidableEq

structure Observed (σ ε : Type) where
  state : σ
  events : List ε
  calls : List Call
  deriving DecidableEq

/-- The loop of both observers. Every round but the last uses up input, so one
round more than the message has bytes is enough. -/
def observeLoop {σ ε : Type} (act : σ → Instruction → σ × List ε) : ℕ → σ → Bytes → Observed σ ε
  | 0, s, _ => ⟨s, [], []⟩
  | k + 1, s, bs =>
    match parseInstruction bs with
    | (requests, .error e) => ⟨s, [], [⟨requests, some e⟩]⟩
    | (requests, .ok (i, r)) =>
      let next := observeLoop act k (act s i).1 r
      ⟨next.state, (act s i).2 ++ next.events, ⟨requests, none⟩ :: next.calls⟩

/-- A panic in the parser takes the process down. -/
def Observed.crashed {σ ε : Type} (o : Observed σ ε) : Bool := o.calls.any fun c => c.fault = some .panic

/-- One message after another through one observer; `none` once the process is down. -/
def observeAll {σ ε : Type} (observe : σ → Bytes → Observed σ ε) : σ → List Bytes → Option (σ × List ε)
  | s, [] => some (s, [])
  | s, c :: cs =>
    if (observe s c).crashed then none
    else (observeAll observe (observe s c).state cs).map fun se => (se.1, (observe s c).events ++ se.2)

/-! File transfers. -/

def verbDownload : Bytes := ascii "DOWNLOAD"

def verbUpload : Bytes := ascii "UPLOAD"

def verbDownloadPartial : Bytes := ascii "DOWNLOAD-PARTIAL"

def verbUploadPartial : Bytes := ascii "UPLOAD-PARTIAL"

def maxOpenStreams : ℕ := 256

def maxFilenameLen : ℕ := 512

inductive XferDir where
  | download
  | upload
  deriving DecidableEq

structure FtKey where
  dir : XferDir
  idx : Bytes
  deriving DecidableEq

structure FtStream where
  filename : Bytes
  mimetype : Bytes
  bytes : ℤ
  deriving DecidableEq

structure AuditEvent where
  timestamp : ℤ
  userID : Bytes
  siteID : Bytes
  host : Bytes
  method : Bytes
  path : Bytes
  status : ℕ
  bytesOut : ℤ
  decision : Bytes
  reason : Bytes
  clientIP : Bytes
  userAgent : Bytes
  deriving DecidableEq

structure FtSession where
  userID : Bytes
  siteID : Bytes
  host : Bytes
  clientIP : Bytes
  userAgent : Bytes

/-- The open streams, never more than `maxOpenStreams`. -/
structure Streams where
  live : AList fun _ : FtKey => FtStream
  bounded : live.entries.length ≤ maxOpenStreams

def Streams.empty : Streams := ⟨∅, Nat.zero_le _⟩

def Streams.get (s : Streams) (k : FtKey) : Option FtStream := s.live.lookup k

/-- `open`; at the cap every new stream is ignored, also one under an index that is open. -/
def Streams.openStream (s : Streams) (dir : XferDir) (idx filename mimetype : Bytes) : Streams :=
  if h : maxOpenStreams ≤ s.live.entries.length then s
  else
    { live := s.live.insert ⟨dir, idx⟩ ⟨filename, mimetype, 0⟩
      bounded := by
        change (List.kinsert _ _ s.live.entries).length ≤ _
        rw [List.kinsert_def, List.length_cons]
        exact (Nat.succ_le_succ (List.kerase_sublist _ _).length_le).trans (not_le.mp h) }

/-- The pointer write `st.bytes += …` to the stream under `k`, in 64 bits. -/
def Streams.addBytes (s : Streams) (k : FtKey) (n : ℤ) : Streams :=
  match s.get k with
  | none => s
  | some st =>
    { live := s.live.replace k { st with bytes := (st.bytes + n).bmod (2 ^ 64) }
      bounded := by
        change (List.kreplace _ _ s.live.entries).length ≤ _
        rw [List.kreplace, List.length_lookmap]
        exact s.bounded }

def Streams.delete (s : Streams) (k : FtKey) : Streams :=
  { live := s.live.erase k
    bounded := (List.kerase_sublist k s.live.entries).length_le.trans s.bounded }

def b64DecodedLen (s : Bytes) : ℤ :=
  let n := s.length
  let pad : ℤ :=
    if s.getLast? = some 61 then (if s.dropLast.getLast? = some 61 then 2 else 1) else 0
  ((n / 4 * 3 : ℕ) : ℤ) - pad

/-- One leading slash whatever the name starts with; the cut at `maxFilenameLen` is in bytes. -/
def transferPath (filename : Bytes) : Bytes := 47 :: (filename.dropWhile (· = 47)).take maxFilenameLen

/-- The audit event of a stream that ended, or of one cut off by the teardown. -/
def event (o : FtSession) (now : ℤ) (dir : XferDir) (st : FtStream) (aborted : Bool) : AuditEvent where
  timestamp := now
  userID := o.userID
  siteID := o.siteID
  host := o.host
  method :=
    match dir, aborted with
    | .download, false => verbDownload
    | .upload, false => verbUpload
    | .download, true => verbDownloadPartial
    | .upload, true => verbUploadPartial
  path := transferPath st.filename
  status := if aborted then 499 else 200
  bytesOut := st.bytes
  decision := ascii "ALLOW"
  reason := if aborted then ascii "file-transfer-aborted" else ascii "file:" ++ st.mimetype
  clientIP := o.clientIP
  userAgent := o.userAgent

/-- What `ftObserver.observe` does on one instruction. -/
def ftAct (o : FtSession) (now : ℤ) (dir : XferDir) (s : Streams) : Instruction → Streams × List AuditEvent
  | (op, args) =>
    if op = ascii "file" then
      match args with
      | idx :: mime :: name :: _ => (s.openStream dir idx name mime, [])
      | _ => (s, [])
    else if op = ascii "put" ∨ op = ascii "body" then
      match args with
      | _ :: idx :: mime :: name :: _ => (s.openStream dir idx name mime, [])
      | _ => (s, [])
    else if op = ascii "blob" then
      match args with
      | idx :: data :: _ => (s.addBytes ⟨dir, idx⟩ (b64DecodedLen data), [])
      | _ => (s, [])
    else if op = ascii "end" then
      match args with
      | idx :: _ =>
        match s.get ⟨dir, idx⟩ with
        | some st => (s.delete ⟨dir, idx⟩, [event o now dir st false])
        | none => (s, [])
      | _ => (s, [])
    else (s, [])

def ftObserve (o : FtSession) (now : ℤ) (dir : XferDir) (s : Streams) (raw : Bytes) : Observed Streams AuditEvent :=
  observeLoop (ftAct o now dir) (raw.length + 1) s raw

/-- The streams still open at the teardown, in the order Go's map happens to give. -/
def ftFlush (o : FtSession) (now : ℤ) (s : Streams) : Multiset AuditEvent :=
  ↑(s.live.entries.map fun e => event o now e.1.dir e.2 true)

/-! Keystrokes. -/

structure KeyEvent where
  atMs : ℤ
  kind : Bytes
  text : Bytes
  masked : Bool
  deriving DecidableEq

structure KeyObserver where
  ssh : Bool
  start : ℤ
  line : Bytes
  /-- `none` is the zero time. -/
  lastKey : Option ℤ
  maskNext : Bool
  deriving DecidableEq

/-- The observer of a session; `ssh` is whether the protocol is `ssh`, in whatever case. -/
def newKeyObserver (ssh : Bool) (start : ℤ) : KeyObserver := ⟨ssh, start, [], none, false⟩

def ksEnter : ℤ := 0xff0d

def ksBackspace : ℤ := 0xff08

def isSpace (b : UInt8) : Bool := b = 32 || (9 ≤ b && b ≤ 13)

def trimSpace (s : Bytes) : Bytes := ((s.dropWhile isSpace).reverse.dropWhile isSpace).reverse

def toLower (s : Bytes) : Bytes := s.map fun b => if 65 ≤ b ∧ b ≤ 90 then b + 32 else b

def passwordPrompt (s : Bytes) : Bool :=
  let l := toLower (trimSpace s)
  (ascii "sudo").isPrefixOf l || (ascii "su ").isPrefixOf l || l = ascii "su" ||
    l.tails.any fun t => (ascii "passwd").isPrefixOf t

/-- Four bullets, U+2022 each. -/
def maskText : Bytes := (List.replicate 4 [0xE2, 0x80, 0xA2]).flatten

/-- `Time.Sub`, whose result is 64 bits wide and stops at either end. -/
def timeSub (t u : ℤ) : ℤ := max (-2 ^ 63) (min (t - u) (2 ^ 63 - 1))

/-- `emit`: the line as an event. Whether the next one is masked is read off the text shown. -/
def KeyObserver.emit (o : KeyObserver) (now : ℤ) : KeyObserver × KeyEvent :=
  let text := if o.maskNext then maskText else o.line
  ({ o with line := [], maskNext := passwordPrompt text },
    { atMs := (timeSub now o.start).tdiv 1000000
      kind := if o.ssh then ascii "command" else ascii "text"
      text := text
      masked := o.maskNext })

/-- The flush of a line left alone for more than 1500 ms, which ssh does not have. -/
def KeyObserver.idle (o : KeyObserver) (now : ℤ) : KeyObserver × List KeyEvent :=
  match o.lastKey with
  | some last =>
    if o.ssh = false ∧ 1500 * 1000000 < now - last ∧ o.line ≠ [] then ((o.emit now).1, [(o.emit now).2]) else (o, [])
  | none => (o, [])

def KeyObserver.press (o : KeyObserver) (now : ℤ) (keysym : ℤ) : KeyObserver × List KeyEvent :=
  if keysym = ksEnter then
    if o.line ≠ [] then ((o.emit now).1, [(o.emit now).2]) else (o, [])
  else if keysym = ksBackspace then ({ o with line := o.line.dropLast }, [])
  else if 0x20 ≤ keysym ∧ keysym ≤ 0x7e then ({ o with line := o.line ++ [UInt8.ofNat keysym.toNat] }, [])
  else (o, [])

/-- What `keyObserver.observe` does on one instruction. Only `key` with the state `1`, a
key going down, counts; the keysym is what `Atoi` returns, also where it fails. -/
def keyAct (now : ℤ) (o : KeyObserver) : Instruction → KeyObserver × List KeyEvent
  | (op, args) =>
    match args with
    | sym :: state :: _ =>
      if op = ascii "key" ∧ state = ascii "1" then
        let idle := o.idle now
        let pressed := { idle.1 with lastKey := some now }.press now (atoi sym).1
        (pressed.1, idle.2 ++ pressed.2)
      else (o, [])
    | _ => (o, [])

def keyObserve (now : ℤ) (o : KeyObserver) (raw : Bytes) : Observed KeyObserver KeyEvent :=
  observeLoop (keyAct now) (raw.length + 1) o raw

def keyFlush (now : ℤ) (o : KeyObserver) : List KeyEvent := if o.line = [] then [] else [(o.emit now).2]

end Captivo.Guac
