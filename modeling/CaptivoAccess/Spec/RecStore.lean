import CaptivoAccess.Lib.FileTree
import CaptivoAccess.Spec.GuacProto
import Mathlib.Data.List.Sort

/-! The connector's recording store (`connector/recstore.go`): where a stream of a
recording lies below the store root, and the calls that write, read and erase. The
root is a clean rooted path, as `RECORDING_DIR` has it by default. The AES-GCM seal
is a parameter: what is read back depends on it only in that it opens what it made. -/

namespace Captivo.RecStore

open Lib.Utf8 Lib.FileTree Captivo.Guac

/-- A stream of a recording, by the three strings that arrive over the tunnel. -/
structure Stream where
  tenantID : Bytes
  recordingKey : Bytes
  format : Bytes
  deriving DecidableEq

inductive StoreError where
  | invalid (what : String)
  | os
  | sealing
  deriving DecidableEq

/-- The class `[A-Za-z0-9_.:@-]`. -/
def safeByte (b : UInt8) : Bool :=
  (65 ≤ b && b ≤ 90) || (97 ≤ b && b ≤ 122) || (48 ≤ b && b ≤ 57) || b = 95 || b = 46 || b = 58 || b = 64 || b = 45

/-- `^[A-Za-z0-9_.:@-]{1,200}$`. -/
def safeSegment (s : Bytes) : Bool := 1 ≤ s.length && s.length ≤ 200 && s.all safeByte

/-- `strings.Contains(s, "..")`. -/
def containsDotDot (s : Bytes) : Bool := s.tails.any fun t => [46, 46].isPrefixOf t

/-- The check that `recDir` and `dir` make of each segment. -/
def checkSegment (what : String) (s : Bytes) : Except StoreError Unit :=
  if safeSegment s = false ∨ containsDotDot s = true then .error (.invalid what) else .ok ()

def recDir (root : Path) (tenantID recordingKey : Bytes) : Except StoreError Path := do
  checkSegment "tenant id" tenantID
  checkSegment "recording key" recordingKey
  return join (join root tenantID) recordingKey

def dir (root : Path) (s : Stream) : Except StoreError Path := do
  let base ← recDir root s.tenantID s.recordingKey
  checkSegment "format" s.format
  return join base s.format

/-- `Append`: the length of what was recorded, with the tree as it is left. -/
def append (sealChunk : Bytes → Option Bytes) (now : ℤ) (root : Path) (t : Tree) (s : Stream) (seq : ℤ) (plain : Bytes) :
    Tree × Except StoreError ℕ :=
  match dir root s with
  | .error e => (t, .error e)
  | .ok d =>
    let made := t.mkdirAll now d
    if made.2 = false then (made.1, .error .os)
    else match sealChunk plain with
      | none => (made.1, .error .sealing)
      | some sealed =>
        let written := made.1.writeFile now (join d (decimal seq ++ ascii ".bin")) sealed
        (written.1, if written.2 then .ok plain.length else .error .os)

/-- The store's key: a sealed chunk is opened again, whatever nonce it was made with. -/
structure Cipher where
  sealWith : Bytes → Bytes → Option Bytes
  openChunk : Bytes → Option Bytes
  opens : ∀ nonce plain sealed, sealWith nonce plain = some sealed → openChunk sealed = some plain

/-- `strings.TrimSuffix(name, ".bin")` of a name that has the suffix. -/
def chunkStem (name : Bytes) : Option Bytes :=
  if ascii ".bin" <:+ name then some (name.take (name.length - 4)) else none

/-- One entry of the loop in `Read`: what is no chunk, is below `fromSeq` or is not opened is passed over. -/
def chunkOf (openChunk : Bytes → Option Bytes) (fromSeq : ℤ) : Bytes × Node → Option (ℤ × Bytes)
  | (_, .dir _) => none
  | (name, .file sealed) =>
    match chunkStem name with
    | none => none
    | some stem =>
      if (atoi stem).2 = false ∨ (atoi stem).1 < fromSeq then none
      else (openChunk sealed).map fun plain => ((atoi stem).1, plain)

/-- `Read`: the chunks of a stream from `fromSeq` on, by number. -/
def read (openChunk : Bytes → Option Bytes) (root : Path) (t : Tree) (s : Stream) (fromSeq : ℤ) :
    Except StoreError (List (ℤ × Bytes)) :=
  match dir root s with
  | .error e => .error e
  | .ok d =>
    match t.readDir d with
    | none => if t.missing d then .ok [] else .error .os
    | some entries => .ok ((entries.filterMap (chunkOf openChunk fromSeq)).insertionSort fun c c' => c.1 ≤ c'.1)

/-- `Delete`: a recording with every stream of it. -/
def delete (now : ℤ) (root : Path) (t : Tree) (tenantID recordingKey : Bytes) : Tree × Except StoreError Unit :=
  match recDir root tenantID recordingKey with
  | .error e => (t, .error e)
  | .ok d => ((t.removeAll now d).1, if (t.removeAll now d).2 then .ok () else .error .os)

/-- One entry of the retention sweep: a directory last modified before `olderThan` goes. -/
def sweepEntry (now : ℤ) (base : Path) (olderThan : ℤ) (acc : Tree × ℕ) : Bytes × Node → Tree × ℕ
  | (_, .file _) => acc
  | (name, .dir modTime) =>
    if modTime < olderThan then
      let removed := acc.1.removeAll now (join base name)
      (removed.1, if removed.2 then acc.2 + 1 else acc.2)
    else acc

/-- `Purge`. Unlike the other calls it does not look for `..` in the tenant id. -/
def purge (now : ℤ) (root : Path) (t : Tree) (tenantID : Bytes) (olderThan : ℤ) : Tree × Except StoreError ℕ :=
  if safeSegment tenantID = false then (t, .error (.invalid "tenant id"))
  else match t.readDir (join root tenantID) with
    | none => (t, if t.missing (join root tenantID) then .ok 0 else .error .os)
    | some entries =>
      let swept := entries.foldl (sweepEntry now (join root tenantID) olderThan) (t, 0)
      (swept.1, .ok swept.2)

end Captivo.RecStore
