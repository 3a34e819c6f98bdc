import CaptivoAccess.Lib.Framed

/-! Frames on a tunnel stream (`tunnel/frame.go`), and the control stream between the
data plane and a connector (`control.go`, `registry.go`, `connector/handler.go`), on
which several goroutines write. Each `Write` call is one step; which writer takes the
next one is left to a schedule. A stream that breaks is a schedule that ends. -/

namespace Captivo.Tunnel

open Lib.Parse Lib.Utf8 Lib.Framed

/-- 1 MiB. -/
def maxFrame : ℕ := 1048576

/-- The two `Write` calls of `WriteFrame`; `none` when the payload is too large. -/
def writeFrame (payload : Bytes) : Option (Bytes × Bytes) :=
  if maxFrame < payload.length then none else some (header payload.length, payload)

def ReadFrame : Reader UInt8 Bytes := reader maxFrame

/-- What a `ReadFrame` loop gets from the bytes of a stream. -/
def readLoop (bs : Bytes) : List Bytes := (ReadFrame.all bs).1

/-- What `json.Marshal` returns is never empty. -/
structure Json where
  bytes : Bytes
  ne : bytes ≠ []
  deriving DecidableEq

inductive Call where
  /-- `sess.setControl(st)`. -/
  | setControl
  /-- `PushPolicy` reads the stream, and gives up when there is none. -/
  | loadControl
  /-- `WriteFrame`. A goroutine with `orReturn` ends when it fails, the others go on. -/
  | write (payload : Json) (orReturn : Bool)
  deriving DecidableEq

/-- A goroutine, with the frame of which it has written the header only. -/
structure Writer where
  half : Option Json
  todo : List Call
  deriving DecidableEq

/-- One direction of a control stream. `sent` has the frames whose `WriteFrame` is done, with their writer. -/
structure Control where
  writers : ℕ → Writer
  visible : Bool
  bytes : Bytes
  sent : List (ℕ × Json)

/-- The next step of writer `i`. -/
def step (s : Control) (i : ℕ) : Control :=
  let become (w : Writer) : ℕ → Writer := Function.update s.writers i w
  match s.writers i with
  | ⟨some p, todo⟩ => { s with writers := become ⟨none, todo⟩, bytes := s.bytes ++ p.bytes, sent := s.sent ++ [(i, p)] }
  | ⟨none, []⟩ => s
  | ⟨none, .setControl :: todo⟩ => { s with writers := become ⟨none, todo⟩, visible := true }
  | ⟨none, .loadControl :: todo⟩ => { s with writers := become ⟨none, if s.visible then todo else []⟩ }
  | ⟨none, .write p orReturn :: todo⟩ =>
    match writeFrame p.bytes with
    | none => { s with writers := become ⟨none, if orReturn then [] else todo⟩ }
    | some (hdr, _) => { s with writers := become ⟨some p, todo⟩, bytes := s.bytes ++ hdr }

def run (s : Control) (schedule : List ℕ) : Control := schedule.foldl step s

/-- `ControlHello`. -/
def hello : Json := ⟨ascii "\x7b\"kind\":\"control\"\x7d", by decide⟩

/-- Writer 0 is `runControl`, which publishes the stream before it writes on it; the others are
pushes over `/connector-policy`. -/
def runControl (initialPolicy : Json) : Writer :=
  ⟨none, [.setControl, .write hello true, .loadControl, .write initialPolicy false]⟩

def pushPolicy (policy : Json) : Writer := ⟨none, [.loadControl, .write policy true]⟩

/-- Who writes on the stream: the data plane, with any number of pushes, or the connector, whose
telemetry loop and whose policy reader each write frames of their own. -/
inductive Side where
  | dataPlane (initialPolicy : Json) (pushes : ℕ → Json)
  | connector (telemetry acks : List Json)

def Side.writer : Side → ℕ → Writer
  | .dataPlane initialPolicy _, 0 => runControl initialPolicy
  | .dataPlane _ pushes, i + 1 => pushPolicy (pushes i)
  | .connector telemetry _, 0 => ⟨none, telemetry.map (.write · true)⟩
  | .connector _ acks, 1 => ⟨none, acks.map (.write · false)⟩
  | .connector _ _, _ + 2 => ⟨none, []⟩

def Side.start (side : Side) : Control := ⟨side.writer, false, [], []⟩

end Captivo.Tunnel
