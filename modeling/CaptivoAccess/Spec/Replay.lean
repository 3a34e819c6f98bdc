import CaptivoAccess.Lib.JsonRead
import CaptivoAccess.Spec.RecFetch
import CaptivoAccess.Spec.RecStore

/-! What the console makes of a recording that the connector sends back
(`recording/assemble.ts`, `recording/assemble-keys.ts`): the chunks arrive decrypted, in
the order of their numbers and joined, and are read line by line. -/

namespace Captivo.Replay

open Lib.Utf8 Lib.JsonText Lib.JsonRead Captivo.RecStore

abbrev Text := List Char

def fetched (openChunk : Bytes → Option Bytes) (root : Lib.FileTree.Path) (t : Lib.FileTree.Tree) (s : Stream) : Bytes :=
  match read openChunk root t s 0 with
  | .ok chunks => (chunks.map (·.2)).flatten
  | .error _ => []

structure Engine where
  /-- `Buffer.toString("utf8")`; what it makes of bytes that are no UTF-8 is left open. -/
  utf8 : Bytes → Text
  utf8_encodeText : ∀ t, utf8 (encodeText t) = t
  /-- How many arguments a call may have: one with more throws. -/
  maxArguments : ℕ
  /-- The double nearest to a number, which is the number for an integer that is not too large. -/
  number : NumText → ℚ
  number_decimal : ∀ (n : ℤ) (t : NumText), t.text = (decimal n).map (·.toUInt16) → n.natAbs ≤ 2 ^ 53 → number t = n

/-- The lines that are not blank, parsed; none is one that does not parse. -/
def parsedLines (text : Text) : List (Option Json) :=
  ((text.splitOn '\n').map RecFetch.trim).filterMap fun line => if line = [] then none else some (parse line)

/-- `out.push(...parsed)` throws where there are too many elements, and the batch is skipped. -/
def eventsOf (engine : Engine) : Option Json → List Json
  | none => []
  | some (.arr xs) => if xs.length ≤ engine.maxArguments then xs else []
  | some v => [v]

def assembleEvents (engine : Engine) (raw : Bytes) : List Json := (parsedLines (engine.utf8 raw)).flatMap (eventsOf engine)

/-! Keystrokes. -/

structure KeyEvent where
  atMs : ℚ
  kind : Units
  masked : Bool
  text : Units
  deriving DecidableEq

/-- The property of an object: of a name that is there twice, the last. -/
def property (fs : List (Units × Json)) (name : String) : Option Json :=
  (fs.reverse.find? fun f => f.1 = units name).map (·.2)

/-- Four bullets. -/
def maskText : Units := List.replicate 4 0x2022

def keyEventOf (engine : Engine) (fs : List (Units × Json)) : KeyEvent :=
  let masked := match property fs "masked" with
    | some (.bool b) => b
    | _ => false
  { atMs := match property fs "atMs" with
      | some (.num n) => engine.number n
      | _ => 0
    kind := match property fs "kind" with
      | some (.str s) => if s = units "command" then s else units "text"
      | _ => units "text"
    masked := masked
    text := if masked then maskText else match property fs "text" with
      | some (.str s) => s
      | _ => [] }

/-- The events of one batch: the elements that are objects, also those that are arrays, which have none of the properties. -/
def keyEventsOf (engine : Engine) : Option Json → List KeyEvent
  | some (.arr xs) => xs.filterMap fun
    | .obj fs => some (keyEventOf engine fs)
    | .arr _ => some (keyEventOf engine [])
    | _ => none
  | _ => []

/-- `sort` keeps the order of events at the same time. -/
def assembleKeyEvents (engine : Engine) (raw : Bytes) : List KeyEvent :=
  ((parsedLines (engine.utf8 raw)).flatMap (keyEventsOf engine)).insertionSort fun a b => a.atMs ≤ b.atMs

end Captivo.Replay
