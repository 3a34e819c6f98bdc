import CaptivoAccess.Spec.Tunnel

/-! Replay of a video recording: the route that answers a Range request
(`recordings/[id]/video/route.ts`), the data plane's `RecFetch`, and `handleRecFetch`
of the connector that holds the chunks. The connector is online. -/

namespace Captivo.RecFetch

open Lib.Utf8 Captivo.Tunnel

abbrev Text := List Char

/-- A stream of a recording: the plaintext of its chunks, as `Read` returns them. The connector
has all of it in memory, so its length is one that a JavaScript number holds exactly. -/
structure Recording where
  chunks : List Bytes
  safe : chunks.flatten.length ≤ 2 ^ 53

def Recording.bytes (r : Recording) : Bytes := r.chunks.flatten

/-! The connector. -/

def totalPlaintextBytes (chunks : List Bytes) : ℕ := (chunks.map List.length).sum

/-- The loop of `ReadRange`: `offset` bytes came before these chunks. -/
def readChunks (fromByte toByte : ℤ) : ℤ → List Bytes → Bytes
  | _, [] => []
  | offset, data :: chunks =>
    let size : ℤ := data.length
    let last := offset + size - 1
    if last < fromByte then readChunks fromByte toByte (offset + size) chunks
    else if offset > toByte then []
    else
      let lo := if fromByte > offset then fromByte - offset else 0
      let hi := if toByte < last then toByte - offset else size - 1
      (data.take (hi + 1).toNat).drop lo.toNat ++ readChunks fromByte toByte (offset + size) chunks

def readRange (chunks : List Bytes) (fromByte toByte : ℤ) : Option Bytes :=
  if fromByte < 0 ∨ toByte < fromByte then none else some (readChunks fromByte toByte 0 chunks)

def writeFrames : List Bytes → Bytes
  | [] => []
  | data :: chunks =>
    match writeFrame data with
    | none => []
    | some (hdr, payload) => hdr ++ payload ++ writeFrames chunks

/-- The total of the response frame, `none` when it is an error, and what is written behind it. -/
def handleRecFetch (chunks : List Bytes) (fromByte toByte : ℤ) : Option ℕ × Bytes :=
  let total := totalPlaintextBytes chunks
  if fromByte > 0 ∨ toByte > 0 then
    let clamped : ℤ := if toByte ≤ 0 ∨ toByte ≥ total then total - 1 else toByte
    if total = 0 ∨ fromByte > clamped then (none, [])
    else match readRange chunks fromByte clamped with
      | none => (none, [])
      | some part => (some total, writeFrames [part])
  else (some total, writeFrames chunks)

/-! The data plane. -/

/-- The body ends with the stream, and at the first frame without bytes. -/
def recFetch (chunks : List Bytes) (fromByte toByte : ℤ) : Option (ℕ × Bytes) :=
  let answer := handleRecFetch chunks fromByte toByte
  answer.1.map fun total => (total, ((readLoop answer.2).takeWhile (· ≠ [])).flatten)

/-! The route. -/

/-- What `parseInt` makes of decimal digits. Above `2 ^ 53` the number is rounded, but it is only
compared with lengths then. -/
inductive JsNumber where
  | finite (n : ℕ)
  | Infinity
  deriving DecidableEq

/-- The numbers from here on are nearer to infinity than to the largest double. -/
def infinityFrom : ℕ := 2 ^ 1024 - 2 ^ 970

/-- The numbers from here on are rounded to `2 ^ 63` or more, which is no `int64`. -/
def tooLargeFrom : ℕ := 2 ^ 63 - 512

def decimalValue (digits : Text) : ℕ := digits.foldl (fun n c => n * 10 + (c.toNat - 48)) 0

def parseInt (digits : Text) : JsNumber :=
  if decimalValue digits < infinityFrom then .finite (decimalValue digits) else .Infinity

/-- The number as `JSON.stringify` writes it and Go reads it into an `int64`; infinity is written `null`,
which leaves the field zero. -/
def int64 : JsNumber → Option ℤ
  | .finite n => if n < tooLargeFrom then some n else none
  | .Infinity => some 0

def fetchFromConnector (chunks : List Bytes) (fromByte toByte : JsNumber) : Option (ℕ × Bytes) :=
  match int64 fromByte, int64 toByte with
  | some fromByte, some toByte => recFetch chunks fromByte toByte
  | _, _ => none

def isSpace (c : Char) : Bool :=
  (9 ≤ c.toNat && c.toNat ≤ 13) || [32, 0xA0, 0x1680, 0x2028, 0x2029, 0x202F, 0x205F, 0x3000, 0xFEFF].contains c.toNat ||
    (0x2000 ≤ c.toNat && c.toNat ≤ 0x200A)

def trim (t : Text) : Text := ((t.dropWhile isSpace).reverse.dropWhile isSpace).reverse

/-- `/^bytes=(\d*)-(\d*)$/`. -/
def rangeMatch (t : Text) : Option (Text × Text) :=
  if "bytes=".toList.isPrefixOf t then
    let rest := t.drop 6
    match rest.dropWhile Char.isDigit with
    | '-' :: last => if last.all Char.isDigit then some (rest.takeWhile Char.isDigit, last) else none
    | _ => none
  else none

/-- `bytes first-last/total`. -/
structure ContentRange where
  first : JsNumber
  last : ℕ
  total : ℕ
  deriving DecidableEq

structure Response where
  status : ℕ
  contentRange : Option ContentRange
  contentLength : Option ℕ
  body : Bytes
  deriving DecidableEq

def side (digits : Text) : JsNumber := if digits = [] then .finite 0 else parseInt digits

def respond (wantsRange : Bool) (fromByte toByte : JsNumber) : Option (ℕ × Bytes) → Response
  | none => ⟨503, none, none, []⟩
  | some (totalBytes, body) =>
    if wantsRange ∧ 0 < totalBytes then
      let last :=
        match toByte with
        | .finite n => if 0 < n ∧ n < totalBytes then n else totalBytes - 1
        | .Infinity => totalBytes - 1
      ⟨206, some ⟨fromByte, last, totalBytes⟩, none, body⟩
    else ⟨200, none, if 0 < totalBytes then some totalBytes else none, body⟩

def videoGet (chunks : List Bytes) (range : Option Text) : Response :=
  match range.bind fun t => rangeMatch (trim t) with
  | none => respond false (.finite 0) (.finite 0) (fetchFromConnector chunks (.finite 0) (.finite 0))
  | some (first, last) =>
    respond (first ≠ [] || last ≠ []) (side first) (side last) (fetchFromConnector chunks (side first) (side last))

end Captivo.RecFetch
