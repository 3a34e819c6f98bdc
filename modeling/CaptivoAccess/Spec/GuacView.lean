import CaptivoAccess.Sanity.GuacProto

/-! The viewer side of a live session: who holds control
(`dataplane/sessionhub.go`) and the relay from a viewer's browser to guacd
(`dataplane/guacview.go`). The handshake is over when the relay starts, so guacd
is between two instructions then. -/

namespace Captivo.Guac

open Lib.Utf8 Lib.Parse

/-- A viewer's input is let through only while that viewer holds control. -/
def viewerInputAllowed (controlOwner userID : String) : Bool := userID ≠ "" && controlOwner = userID

/-- `setControl`; `none` stands for `errControlHeld`. -/
def setControl (controlOwner owner : String) : Option String :=
  if controlOwner ≠ "" ∧ controlOwner ≠ owner then none else some owner

def releaseControl (controlOwner owner : String) : String :=
  if controlOwner = owner then "" else controlOwner

/-- What happens to one viewer's relay: control moves, or the viewer sends a WebSocket message. -/
inductive ViewEvent where
  | setControl (owner : String)
  | releaseControl (owner : String)
  | message (data : Bytes)

/-- One write to guacd, and whether the viewer held control when it was let through. -/
structure Write where
  data : Bytes
  hasControl : Bool
  deriving DecidableEq

structure ViewState where
  controlOwner : String
  written : List Write
  deriving DecidableEq

def ViewState.init : ViewState := ⟨"", []⟩

/-- One round of the relay of `serveGuacView`, or one change of control. -/
def serveGuacView (viewer : String) (s : ViewState) : ViewEvent → ViewState
  | .setControl owner => { s with controlOwner := (setControl s.controlOwner owner).getD s.controlOwner }
  | .releaseControl owner => { s with controlOwner := releaseControl s.controlOwner owner }
  | .message data =>
    if viewerMayForward (instructionOpcode data) (viewerInputAllowed s.controlOwner viewer) then
      { s with written := s.written ++ [⟨data, viewerInputAllowed s.controlOwner viewer⟩] }
    else s

/-- The bytes written to guacd while the viewer did not hold control. -/
def watchedBytes (s : ViewState) : Bytes := ((s.written.filter fun w => !w.hasControl).map (·.data)).flatten

def opcodes (bs : Bytes) : List Bytes := (instruction.all bs).1.map (·.1)

end Captivo.Guac
