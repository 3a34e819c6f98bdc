import Mathlib.Tactic

/-! Runs of a deterministic step function. A condition on steps is read in the
state the step is taken in (`Meets`). An invariant that every such step keeps
holds at the end of the run, and a relation that matching steps keep holds between
the ends of two runs. A step that also emits something is run by `outputs`. -/

namespace Lib.Run

variable {S E O : Type*}

/-- Every event meets `ok` in the state it is taken in. -/
def Meets (step : S → E → S) (ok : S → E → Prop) : S → List E → Prop
  | _, [] => True
  | s, e :: es => ok s e ∧ Meets step ok (step s e) es

instance decidableMeets (step : S → E → S) (ok : S → E → Prop) [∀ s e, Decidable (ok s e)] :
    ∀ s es, Decidable (Meets step ok s es)
  | _, [] => isTrue trivial
  | s, e :: es => @instDecidableAnd _ _ _ (decidableMeets step ok (step s e) es)

variable {step : S → E → S} {ok : S → E → Prop}

theorem meets_append {s : S} {es es' : List E} :
    Meets step ok s (es ++ es') ↔ Meets step ok s es ∧ Meets step ok (es.foldl step s) es' := by
  induction es generalizing s with
  | nil => simp [Meets]
  | cons e es ih => simp only [List.cons_append, Meets, ih, List.foldl_cons, and_assoc]

theorem meets_of_always (h : ∀ s e, ok s e) (s : S) (es : List E) :
    Meets step ok s es := by
  induction es generalizing s with
  | nil => exact trivial
  | cons e es ih => exact ⟨h s e, ih _⟩

theorem meets_of_forall {ok : E → Prop} {es : List E} (h : ∀ e ∈ es, ok e) (s : S) :
    Meets step (fun _ => ok) s es := by
  induction es generalizing s with
  | nil => exact trivial
  | cons e es ih => exact ⟨h e List.mem_cons_self, ih (fun e' he' => h e' (List.mem_cons_of_mem _ he')) _⟩

theorem invariant {Inv : S → Prop}
    (hstep : ∀ s e, Inv s → ok s e → Inv (step s e)) {s : S} {es : List E} (hs : Inv s)
    (hes : Meets step ok s es) : Inv (es.foldl step s) := by
  induction es generalizing s with
  | nil => exact hs
  | cons e es ih => exact ih (hstep s e hs hes.1) hes.2

/-- What matching steps keep between two states, two runs of matching steps keep. -/
theorem related {R : S → S → Prop} {Q : E → E → Prop}
    (hstep : ∀ s s' e e', R s s' → Q e e' → ok s e → R (step s e) (step s' e')) {s s' : S} {es es' : List E}
    (hs : R s s') (hq : List.Forall₂ Q es es') (hes : Meets step ok s es) : R (es.foldl step s) (es'.foldl step s') := by
  induction hq generalizing s s' with
  | nil => exact hs
  | cons he _ ih => exact ih (hstep _ _ _ _ hs he hes.1) hes.2

/-- A run of steps that emit: the last state, and all that was emitted in order. -/
def outputs (act : S → E → S × List O) : S → List E → S × List O
  | s, [] => (s, [])
  | s, e :: es => ((outputs act (act s e).1 es).1, (act s e).2 ++ (outputs act (act s e).1 es).2)

variable (act : S → E → S × List O)

theorem outputs_fst (s : S) (es : List E) :
    (outputs act s es).1 = es.foldl (fun s e => (act s e).1) s := by
  induction es generalizing s with
  | nil => rfl
  | cons e es ih => exact ih _

theorem outputs_map {E' : Type} (f : E' → E) (s : S) (es : List E') :
    outputs act s (es.map f) = outputs (fun s e => act s (f e)) s es := by
  induction es generalizing s with
  | nil => rfl
  | cons e es ih => simp only [List.map_cons, outputs, ih]

theorem outputs_append (s : S) (es es' : List E) :
    outputs act s (es ++ es') =
      ((outputs act (outputs act s es).1 es').1, (outputs act s es).2 ++ (outputs act (outputs act s es).1 es').2) := by
  induction es generalizing s with
  | nil => rfl
  | cons e es ih => simp only [List.cons_append, outputs, ih, List.append_assoc]

end Lib.Run
