import CaptivoAccess.Lib.Utf8

/-! The Guacamole protocol as the data plane reads it (`dataplane/guacproto.go`).
An instruction is a list of elements `LENGTH.VALUE`, separated by commas and ended
by a semicolon, with LENGTH in runes. `parseInstruction` allocates the announced number
of runes before it reads any, and the model keeps each such request. -/

namespace Captivo.Guac

open Lib.Utf8

/-- The digits of `strconv.ParseUint` in base 10. It stops at the first overflow
of 64 bits, so what follows the overflow is not looked at. -/
def parseUint : ℕ → Bytes → Option ℕ
  | acc, [] => some acc
  | acc, b :: r =>
    if 48 ≤ b ∧ b ≤ 57 then
      let n := acc * 10 + (b.toNat - 48)
      if 2 ^ 64 ≤ n then some (2 ^ 64 - 1) else parseUint n r
    else none

/-- `strconv.Atoi`: the number and whether there was no error. A syntax error comes
with 0, a range error with the nearest 64-bit integer. -/
def atoi (s : Bytes) : ℤ × Bool :=
  let neg := s.head? = some 45
  let body := if s.head? = some 45 ∨ s.head? = some 43 then s.tail else s
  match body with
  | [] => (0, false)
  | _ :: _ =>
    match parseUint 0 body with
    | none => (0, false)
    | some n =>
      if neg then (if n ≤ 2 ^ 63 then (-(n : ℤ), true) else (-(2 ^ 63), false))
      else if n < 2 ^ 63 then ((n : ℤ), true) else (2 ^ 63 - 1, false)

inductive Fault where
  | panic
  | eof
  | badLength (lenStr : Bytes)
  | badSeparator (sep : ℕ)
  | emptyInstruction
  deriving DecidableEq

/-- The most bytes the runtime can allocate at once on a 64-bit platform. -/
def maxAlloc : ℕ := 2 ^ 48

/-- `ReadString('.')`: what stands before the first dot and what follows it. -/
def readDot : Bytes → Option (Bytes × Bytes)
  | [] => none
  | b :: r => if b = 46 then some ([], r) else (readDot r).map fun lr => (b :: lr.1, lr.2)

/-- The length prefix of an element, with the bytes left after its dot. -/
def readLength (bs : Bytes) : Except Fault (ℕ × Bytes) :=
  match readDot bs with
  | none => .error .eof
  | some (lenStr, rest) =>
    if (atoi lenStr).2 = false ∨ (atoi lenStr).1 < 0 then .error (.badLength lenStr)
    else .ok ((atoi lenStr).1.toNat, rest)

/-- `make([]rune, n)`, the `n` runes of a value, and the separator rune after them. -/
def readValue (n : ℕ) (rest : Bytes) : Except Fault (Bytes × ℕ × Bytes) :=
  if maxAlloc < 4 * n then .error .panic
  else match takeRunes n rest with
    | none => .error .eof
    | some (val, r) =>
      match decodeRune r with
      | none => .error .eof
      | some (sep, r') => .ok (val.flatMap encodeRune, sep, r')

/-- A request for a slice of `len` runes made while `left` bytes of the input were unread. -/
structure Request where
  len : ℕ
  left : ℕ
  deriving DecidableEq

/-- The loop of `parseInstruction`, with the allocation requests it makes. An element
takes at least two bytes, so the length of the input is fuel enough. -/
def parseElems : ℕ → Bytes → List Request × Except Fault (List Bytes × Bytes)
  | 0, _ => ([], .error .eof)
  | k + 1, bs =>
    match readLength bs with
    | .error e => ([], .error e)
    | .ok (n, rest) =>
      match readValue n rest with
      | .error e => ([⟨n, rest.length⟩], .error e)
      | .ok (val, sep, rest') =>
        if sep = 59 then ([⟨n, rest.length⟩], .ok ([val], rest'))
        else if sep = 44 then
          (⟨n, rest.length⟩ :: (parseElems k rest').1, (parseElems k rest').2.map fun er => (val :: er.1, er.2))
        else ([⟨n, rest.length⟩], .error (.badSeparator sep))

abbrev Instruction := Bytes × List Bytes

def parseInstruction (bs : Bytes) : List Request × Except Fault (Instruction × Bytes) :=
  ((parseElems bs.length bs).1,
    match (parseElems bs.length bs).2 with
    | .error e => .error e
    | .ok ([], _) => .error .emptyInstruction
    | .ok (op :: args, r) => .ok ((op, args), r))

/-- The loop of `readRawInstruction`, with fuel as for `parseElems`. A value is put together from its runes again. -/
def readRawElems : ℕ → Bytes → Except Fault (Bytes × Bytes)
  | 0, _ => .error .eof
  | k + 1, bs =>
    match readDot bs with
    | none => .error .eof
    | some (lenStr, rest) =>
      if (atoi lenStr).2 = false ∨ (atoi lenStr).1 < 0 then .error (.badLength lenStr)
      else match takeRunes (atoi lenStr).1.toNat rest with
        | none => .error .eof
        | some (val, r) =>
          match decodeRune r with
          | none => .error .eof
          | some (sep, r') =>
            let raw := lenStr ++ 46 :: val.flatMap encodeRune ++ [UInt8.ofNat sep]
            if sep = 59 then .ok (raw, r')
            else if sep = 44 then (readRawElems k r').map fun er => (raw ++ er.1, er.2)
            else .error (.badSeparator sep)

def readRawInstruction (bs : Bytes) : Except Fault (Bytes × Bytes) := readRawElems bs.length bs

/-- `LENGTH.VALUE`. -/
def encodeElem (e : Bytes) : Bytes := decimal (text e).length ++ 46 :: e

def encodeInstruction : List Bytes → Bytes
  | [] => [59]
  | [e] => encodeElem e ++ [59]
  | e :: e' :: es => encodeElem e ++ 44 :: encodeInstruction (e' :: es)

/-- The rune loop of `instructionOpcode`: `acc` is what has been passed, `n` the runes to go. -/
def scanOpcode : ℕ → Bytes → Bytes → Bytes
  | n, acc, s =>
    match n, s with
    | _, [] => []
    | 0, b :: _ => if b = 44 ∨ b = 59 then acc else []
    | n + 1, b :: r =>
      match decodeRune (b :: r) with
      | none => []
      | some (_, r') => scanOpcode n (acc ++ (b :: r).take ((b :: r).length - r'.length)) r'

/-- The opcode of the first instruction of `raw`, or the empty string where it cannot be read. -/
def instructionOpcode (raw : Bytes) : Bytes :=
  match readDot raw with
  | none => []
  | some (lenStr, s) =>
    if lenStr = [] then []
    else if (atoi lenStr).2 = false ∨ (atoi lenStr).1 ≤ 0 then []
    else scanOpcode (atoi lenStr).1.toNat [] s

def viewerUpstreamAlways (op : Bytes) : Bool := op = ascii "sync" || op = ascii "nop"

def viewerMayForward (op : Bytes) (hasControl : Bool) : Bool := viewerUpstreamAlways op || hasControl

end Captivo.Guac
