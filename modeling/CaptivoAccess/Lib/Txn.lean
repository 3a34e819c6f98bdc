import Mathlib.Tactic

/-! Programs that talk to a database over one open transaction. A statement reads the
database and answers with the rows it writes, or fails. After a failure the server
refuses every later statement of the transaction, and a commit of it is a rollback. -/

namespace Lib.Txn

/-- A program over a database `D` with writes `W`, replies `R` and errors `E`. A
failed statement answers `none`, and the program may go on from there. -/
inductive Prog (D W R E A : Type) where
  | ret (a : A)
  | throw (e : E)
  | stmt (s : D → Option (List W × R)) (k : Option R → Prog D W R E A)

/-- What a program leaves behind in its transaction. -/
structure Result (D W E A : Type) where
  db : D
  aborted : Bool
  writes : List W
  value : Except E A

section Exec

variable {D W R E A : Type} (apply : D → W → D)

/-- A statement in a transaction that may be aborted. -/
def answer (d : D) (aborted : Bool) (s : D → Option (List W × R)) : Option (List W × R) :=
  if aborted then none else s d

def exec : D → Bool → Prog D W R E A → Result D W E A
  | d, aborted, .ret a => ⟨d, aborted, [], .ok a⟩
  | d, aborted, .throw e => ⟨d, aborted, [], .error e⟩
  | d, aborted, .stmt s k =>
    match answer d aborted s with
    | none => exec d true (k none)
    | some (ws, r) =>
      let rest := exec (ws.foldl apply d) aborted (k (some r))
      { rest with writes := ws ++ rest.writes }

theorem exec_stmt_none {d : D} {s : D → Option (List W × R)} {k : Option R → Prog D W R E A} (h : s d = none) :
    exec apply d false (.stmt s k) = exec apply d true (k none) := by
  simp [exec, answer, h]

theorem exec_stmt_some {d : D} {s : D → Option (List W × R)} {k : Option R → Prog D W R E A} {ws : List W} {r : R}
    (h : s d = some (ws, r)) :
    exec apply d false (.stmt s k) =
      { exec apply (ws.foldl apply d) false (k (some r)) with
        writes := ws ++ (exec apply (ws.foldl apply d) false (k (some r))).writes } := by
  simp [exec, answer, h]

theorem exec_aborted (d : D) (p : Prog D W R E A) :
    (exec apply d true p).aborted = true ∧ (exec apply d true p).writes = [] := by
  induction p generalizing d with
  | ret a => exact ⟨rfl, rfl⟩
  | throw e => exact ⟨rfl, rfl⟩
  | stmt s k ih => exact ih none d

/-- A statement of the program fails on the database that it meets. -/
def fails : D → Prog D W R E A → Bool
  | _, .ret _ => false
  | _, .throw _ => false
  | d, .stmt s k =>
    match s d with
    | none => true
    | some (ws, r) => fails (ws.foldl apply d) (k (some r))

theorem aborted_eq_fails (d : D) (p : Prog D W R E A) : (exec apply d false p).aborted = fails apply d p := by
  induction p generalizing d with
  | ret a => rfl
  | throw e => rfl
  | stmt s k ih =>
    cases hs : s d with
    | none => rw [exec_stmt_none apply hs, (exec_aborted apply d _).1, fails, hs]
    | some out => rw [exec_stmt_some apply hs, fails, hs, ih]

end Exec

end Lib.Txn
