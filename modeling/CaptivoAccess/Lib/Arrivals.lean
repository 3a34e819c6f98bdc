import Mathlib.Tactic

/-! A stream as its bytes arrive, piece by piece. A read takes from the first piece that is
there; a piece may be empty. The end comes with a read of its own, or with the last piece. -/

namespace Lib.Arrivals

variable {β : Type}

structure Stream (β : Type) where
  pieces : List (List β)
  endsWithLast : Bool

def Stream.bytes (s : Stream β) : List β := s.pieces.flatten

/-- What is read, whether the end was reported with it, and what is left. -/
structure ReadResult (β : Type) where
  data : List β
  ended : Bool
  left : Stream β

def Stream.read (size : ℕ) (s : Stream β) : ReadResult β :=
  match s.pieces with
  | [] => ⟨[], true, s⟩
  | a :: rest =>
    if a.length ≤ size then ⟨a, rest.isEmpty && s.endsWithLast, { s with pieces := rest }⟩
    else ⟨a.take size, false, { s with pieces := a.drop size :: rest }⟩

/-- Reads until `n` bytes are there or the stream ends: what it got, and what is left. -/
def fill : ℕ → List (List β) → List β × List (List β)
  | _, [] => ([], [])
  | n, a :: rest =>
    if n = 0 then ([], a :: rest)
    else if a.length ≤ n then (a ++ (fill (n - a.length) rest).1, (fill (n - a.length) rest).2)
    else (a.take n, a.drop n :: rest)

theorem fill_bytes (n : ℕ) (pieces : List (List β)) :
    (fill n pieces).1 = pieces.flatten.take n ∧ (fill n pieces).2.flatten = pieces.flatten.drop n := by
  induction pieces generalizing n with
  | nil => simp [fill]
  | cons a rest ih =>
    rw [fill]
    split_ifs with hzero hall
    · simp [hzero]
    · obtain ⟨htake, hdrop⟩ := ih (n - a.length)
      rw [htake, hdrop, List.flatten_cons, List.take_append, List.drop_append, List.take_of_length_le hall,
        List.drop_of_length_le hall]
      exact ⟨rfl, rfl⟩
    · have hle : n ≤ a.length := by omega
      rw [List.flatten_cons, List.flatten_cons, List.take_append_of_le_length hle, List.drop_append_of_le_length hle]
      exact ⟨rfl, rfl⟩

/-- What is still to be read: bytes, and pieces that may be empty. -/
def weight (pieces : List (List β)) : ℕ := pieces.flatten.length + pieces.length

theorem weight_fill_le (n : ℕ) (pieces : List (List β)) : weight (fill n pieces).2 ≤ weight pieces := by
  induction pieces generalizing n with
  | nil => exact le_rfl
  | cons a rest ih =>
    rw [fill]
    split_ifs with hzero hall
    · exact le_rfl
    · have hrest := ih (n - a.length)
      simp only [weight, List.flatten_cons, List.length_append, List.length_cons] at hrest ⊢
      omega
    · simp only [weight, List.flatten_cons, List.length_append, List.length_cons, List.length_drop]
      omega

theorem read_bytes (size : ℕ) (s : Stream β) : (s.read size).data ++ (s.read size).left.bytes = s.bytes := by
  rw [Stream.read, Stream.bytes, Stream.bytes]
  cases hp : s.pieces with
  | nil => simp [hp]
  | cons a rest =>
    simp only
    split_ifs with hall
    · rfl
    · rw [List.flatten_cons, List.flatten_cons, ← List.append_assoc, List.take_append_drop]

theorem read_le (size : ℕ) (s : Stream β) : (s.read size).data.length ≤ size := by
  rw [Stream.read]
  cases s.pieces with
  | nil => exact Nat.zero_le _
  | cons a rest =>
    simp only
    split_ifs with hall
    · exact hall
    · exact List.length_take_le _ _

theorem left_of_ended {size : ℕ} {s : Stream β} (h : (s.read size).ended = true) : (s.read size).left.bytes = [] := by
  rw [Stream.read] at h ⊢
  cases hp : s.pieces with
  | nil => simp [Stream.bytes, hp]
  | cons a rest =>
    rw [hp] at h
    simp only at h ⊢
    split_ifs at h ⊢ with hall
    · obtain rfl : rest = [] := List.isEmpty_iff.1 (Bool.and_eq_true_iff.1 h).1
      rfl

theorem weight_read_lt {size : ℕ} (hsize : 1 ≤ size) {s : Stream β} (hs : (s.read size).ended = false) :
    weight (s.read size).left.pieces < weight s.pieces := by
  rw [Stream.read] at hs ⊢
  cases hp : s.pieces with
  | nil =>
    rw [hp] at hs
    cases hs
  | cons a rest =>
    simp only
    split_ifs with hall
    · simp only [weight, List.flatten_cons, List.length_append, List.length_cons]
      omega
    · simp only [weight, List.flatten_cons, List.length_append, List.length_cons, List.length_drop]
      omega

end Lib.Arrivals
