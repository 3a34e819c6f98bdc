import CaptivoAccess.Lib.Parse
import CaptivoAccess.Lib.Utf8

/-! Frames on a byte stream: a big-endian length of four bytes and that many bytes of
payload. Whole frames are read back one by one; of a frame that is cut off nothing is. -/

namespace Lib.Framed

open Lib.Parse Lib.Utf8

def header (n : ℕ) : Bytes :=
  [UInt8.ofNat (n / 16777216), UInt8.ofNat (n / 65536), UInt8.ofNat (n / 256), UInt8.ofNat n]

def lengthOf (a b c d : UInt8) : ℕ := ((a.toNat * 256 + b.toNat) * 256 + c.toNat) * 256 + d.toNat

def encode (p : Bytes) : Bytes := header p.length ++ p

/-- A length above `cap` is refused, and so is a frame that is not there in full. -/
def readFrame (cap : ℕ) : Bytes → Option (Bytes × Bytes)
  | a :: b :: c :: d :: rest =>
    let n := lengthOf a b c d
    if cap < n ∨ rest.length < n then none else some (rest.take n, rest.drop n)
  | _ => none

theorem readFrame_shortens {cap : ℕ} {xs p r : Bytes} (h : readFrame cap xs = some (p, r)) : r.length < xs.length := by
  match xs, h with
  | a :: b :: c :: d :: rest, h =>
    simp only [readFrame] at h
    split_ifs at h with hn
    obtain ⟨-, rfl⟩ := Prod.mk.inj (Option.some.inj h)
    simp only [List.length_drop, List.length_cons]
    omega

def reader (cap : ℕ) : Reader UInt8 Bytes := ⟨readFrame cap, readFrame_shortens⟩

section Cap

variable {cap : ℕ} (hcap : cap < 2 ^ 32)

theorem lengthOf_header {n : ℕ} (hn : n < 2 ^ 32) :
    lengthOf (UInt8.ofNat (n / 16777216)) (UInt8.ofNat (n / 65536)) (UInt8.ofNat (n / 256)) (UInt8.ofNat n) = n := by
  simp only [lengthOf, UInt8.toNat_ofNat']
  omega

include hcap

theorem read_header {n : ℕ} (hn : n ≤ cap) (xs : Bytes) :
    (reader cap).read (header n ++ xs) = if xs.length < n then none else some (xs.take n, xs.drop n) := by
  simp only [reader, header, List.cons_append, List.nil_append, readFrame, lengthOf_header (lt_of_le_of_lt hn hcap)]
  simp only [Nat.not_lt.2 hn, false_or]

theorem read_encode {p : Bytes} (hp : p.length ≤ cap) (xs : Bytes) :
    (reader cap).read (encode p ++ xs) = some (p, xs) := by
  rw [encode, List.append_assoc, read_header hcap hp, if_neg (by rw [List.length_append]; omega)]
  simp

theorem all_encode {ps : List Bytes} (hps : ∀ p ∈ ps, p.length ≤ cap) (xs : Bytes) :
    (reader cap).all (ps.flatMap encode ++ xs) = (ps ++ ((reader cap).all xs).1, ((reader cap).all xs).2) := by
  induction ps with
  | nil => rfl
  | cons p ps ih =>
    rw [List.forall_mem_cons] at hps
    rw [List.flatMap_cons, List.append_assoc, (reader cap).all_of_some (read_encode hcap hps.1 _), ih hps.2]
    rfl

theorem frames_encode {ps : List Bytes} (hps : ∀ p ∈ ps, p.length ≤ cap) :
    ((reader cap).all (ps.flatMap encode)).1 = ps := by
  have h := all_encode hcap hps []
  rw [List.append_nil, Reader.all_nil, List.append_nil] at h
  rw [h]

theorem frames_encode_header {ps : List Bytes} (hps : ∀ p ∈ ps, p.length ≤ cap) {n : ℕ} (hn : n ≤ cap) (hpos : 0 < n) :
    ((reader cap).all (ps.flatMap encode ++ header n)).1 = ps := by
  have hnone : (reader cap).read (header n) = none := by
    have h := read_header hcap hn []
    rwa [List.append_nil, if_pos (by simpa using hpos)] at h
  rw [all_encode hcap hps, (reader cap).all_of_none hnone, List.append_nil]

end Cap

end Lib.Framed
