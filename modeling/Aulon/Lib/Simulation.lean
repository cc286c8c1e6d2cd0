import Mathlib.Data.List.Basic

/-!
# Machines with outputs and simulation

A machine is a total step function `step : σ → α → σ × β` that answers every input. Two machines
over the same inputs are compared by a relation between their states: if every step keeps the
relation and gives the same answer on both sides, whole runs do.

* `exec step s as` — the state after the inputs `as`, and the answers in order.
* `exec_invariant` — the invariant rule.
* `exec_simulation` — the simulation rule.
-/

namespace Aulon.Lib

variable {σ τ α β : Type*}

/-- The state after a list of inputs, and the answers. -/
def exec (step : σ → α → σ × β) : σ → List α → σ × List β
  | s, [] => (s, [])
  | s, a :: as => ((exec step (step s a).1 as).1, (step s a).2 :: (exec step (step s a).1 as).2)

/-- Two runs one after the other are one run. -/
lemma exec_append (step : σ → α → σ × β) (s : σ) (as bs : List α) :
    (exec step s (as ++ bs)).1 = (exec step (exec step s as).1 bs).1 := by
  induction as generalizing s with
  | nil => rfl
  | cons a as ih => exact ih _

/-- One more input at the end is one more step. -/
lemma exec_concat (step : σ → α → σ × β) (s : σ) (as : List α) (a : α) :
    (exec step s (as ++ [a])).1 = (step (exec step s as).1 a).1 :=
  exec_append step s as [a]

/-- What is asked of every input together with those before it, asked of one input more. -/
lemma forall_split_concat {P : List α → α → Prop} {as : List α} {a : α} :
    (∀ before x after, as ++ [a] = before ++ x :: after → P before x) ↔
      (∀ before x after, as = before ++ x :: after → P before x) ∧ P as a := by
  constructor
  · intro h
    refine ⟨fun before x after heq => h before x (after ++ [a]) ?_, h as a [] rfl⟩
    rw [heq, List.append_assoc, List.cons_append]
  · rintro ⟨h, ha⟩ before x after heq
    rcases List.eq_nil_or_concat after with rfl | ⟨after, b, rfl⟩
    · obtain ⟨rfl, hlast⟩ := List.append_inj' heq rfl
      cases hlast
      exact ha
    · rw [List.concat_eq_append, ← List.cons_append, ← List.append_assoc] at heq
      exact h before x after (List.append_inj_left' heq rfl)

/-- **Invariant rule.** What every step keeps holds after whole runs. -/
theorem exec_invariant {step : σ → α → σ × β} {I : σ → Prop}
    (hstep : ∀ s a, I s → I (step s a).1) {s : σ} (h : I s) (as : List α) :
    I (exec step s as).1 := by
  induction as generalizing s with
  | nil => exact h
  | cons a as ih => exact ih (hstep s a h)

/-- **Simulation rule.** A relation that every step keeps, with equal answers, is kept by whole
runs, with equal answers. -/
theorem exec_simulation {step : σ → α → σ × β} {step' : τ → α → τ × β} {R : σ → τ → Prop}
    (hstep : ∀ s t a, R s t → R (step s a).1 (step' t a).1 ∧ (step s a).2 = (step' t a).2)
    {s : σ} {t : τ} (h : R s t) (as : List α) :
    R (exec step s as).1 (exec step' t as).1 ∧ (exec step s as).2 = (exec step' t as).2 := by
  induction as generalizing s t with
  | nil => exact ⟨h, rfl⟩
  | cons a as ih =>
      obtain ⟨hrel, hout⟩ := hstep s t a h
      obtain ⟨hrel', hout'⟩ := ih hrel
      refine ⟨hrel', ?_⟩
      simp only [exec, hout, hout']

end Aulon.Lib
