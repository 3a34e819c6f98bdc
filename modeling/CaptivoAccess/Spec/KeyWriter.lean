import CaptivoAccess.Spec.GuacObserve
import CaptivoAccess.Spec.ProxyResponse
import CaptivoAccess.Spec.RecWriter

/-! Keystrokes on their way to the connector's store (`keyWriter` in
`dataplane/keywriter.go`): every batch of events that the observer hands out is one
chunk, a JSON array and a line feed. -/

namespace Captivo.Keys

open Lib.Utf8 Captivo.Guac Captivo.Video Captivo.Capture

/-- A string as `json.Marshal` writes it. The strings of an event are UTF-8. -/
def marshalString (s : Bytes) : Bytes := Proxy.quoted (text s)

def marshalEvent (e : KeyEvent) : Bytes :=
  ascii "\x7b\"atMs\":" ++ decimal e.atMs ++ ascii ",\"kind\":" ++ marshalString e.kind ++ ascii ",\"text\":" ++ marshalString e.text ++
    ascii ",\"masked\":" ++ ascii (if e.masked then "true" else "false") ++ ascii "\x7d"

/-- `json.Marshal` of the events. -/
def marshalEvents (events : List KeyEvent) : Bytes := [91] ++ [44].intercalate (events.map marshalEvent) ++ [93]

structure KeyWriter where
  tenantID : Bytes
  key : Bytes
  seq : ℕ
  stopped : Bool

def newKeyWriter (tenantID key : Bytes) : KeyWriter := ⟨tenantID, key, 0, false⟩

/-- `post`, with how the send ends. -/
def KeyWriter.post (w : KeyWriter) (events : List KeyEvent) (err : Option SendError) : KeyWriter × List RecWriteRequest :=
  if events = [] ∨ w.stopped then (w, [])
  else
    ({ w with seq := w.seq + 1, stopped := err = some .errRecUnsupported },
      [⟨w.tenantID, w.key, w.seq, ascii "keys", [], marshalEvents events ++ [10]⟩])

/-- The batches of a session: one for each message, and one for the line that is left at the end. A panic of the parser
takes the process down. -/
def batches : KeyObserver → List (ℤ × Bytes) → ℤ → List (List KeyEvent)
  | o, [], last => [keyFlush last o]
  | o, (now, raw) :: messages, last =>
    let seen := keyObserve now o raw
    if seen.crashed then [] else seen.events :: batches seen.state messages last

def KeyWriter.postAll (w : KeyWriter) : List (List KeyEvent) → List RecWriteRequest
  | [] => []
  | events :: rest => (w.post events none).2 ++ (w.post events none).1.postAll rest

end Captivo.Keys
