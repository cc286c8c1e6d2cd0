import Mathlib.Data.List.Basic
import Mathlib.Data.List.Induction
import Mathlib.Data.Option.Basic
import Mathlib.Order.WellFounded

/-!
# Runs of a partial step function

A system is a step function `step : σ → α → Option σ`: the action says which party moves and how
the outside world resolves its choices, and `none` means that the action is not enabled. A run
is a list of actions; every interleaving is one such list.

* `run step s as` — the state after the actions `as`, if all of them were enabled.
* `run_invariant` — what one step preserves, a whole run preserves.
* `run_invariant_of` — the same for the runs all of whose steps meet a condition on the state
  before the step and the action (`Meets`).
* `run_history` — the same for what relates the state to the actions so far.
* `run_view` — a view of the state on which the steps act moves along a run.
* `run_log` — what every step appends to a log, a whole run appends.
* `not_forever`, `exists_stuck` — actions that all lower a rank run out.
-/

namespace Aulon.Lib

variable {σ α : Type*}

/-- The state after a list of actions, if all of them were enabled. -/
def run (step : σ → α → Option σ) (s : σ) (as : List α) : Option σ :=
  as.foldlM step s

variable {step : σ → α → Option σ}

/-- A run of no actions. -/
@[simp] lemma run_nil (s : σ) : run step s [] = some s := rfl

/-- A run, its first action apart. -/
@[simp] lemma run_cons (s : σ) (a : α) (as : List α) :
    run step s (a :: as) = (step s a).bind fun t => run step t as := rfl

/-- A run that goes through, its first action apart. -/
lemma run_cons_eq_some {s u : σ} {a : α} {as : List α} :
    run step s (a :: as) = some u ↔ ∃ t, step s a = some t ∧ run step t as = some u := by
  rw [run_cons, Option.bind_eq_some_iff]

/-- A run of two lists of actions. -/
lemma run_append (s : σ) (as bs : List α) :
    run step s (as ++ bs) = (run step s as).bind fun t => run step t bs := by
  induction as generalizing s with
  | nil => rfl
  | cons a as ih =>
      rw [List.cons_append, run_cons, run_cons, Option.bind_assoc]
      simp only [ih]

/-- A run of two lists of actions that goes through. -/
lemma run_append_eq_some {s u : σ} {as bs : List α} :
    run step s (as ++ bs) = some u ↔ ∃ t, run step s as = some t ∧ run step t bs = some u := by
  rw [run_append, Option.bind_eq_some_iff]

/-- **Invariant rule.** What every step preserves holds at the end of every run. -/
theorem run_invariant {I : σ → Prop}
    (hstep : ∀ s a t, I s → step s a = some t → I t)
    {s t : σ} {as : List α} (hs : I s) (h : run step s as = some t) : I t := by
  induction as generalizing s with
  | nil => cases h; exact hs
  | cons a as ih =>
      obtain ⟨u, hu, hrun⟩ := run_cons_eq_some.mp h
      exact ih (hstep s a u hs hu) hrun

/-- **History rule.** The same for what relates the state to the actions so far; the steps may use
that these lead to it. -/
theorem run_history {I : List α → σ → Prop} {s : σ} (hs : I [] s)
    (hstep : ∀ as t a u, run step s as = some t → I as t → step t a = some u → I (as ++ [a]) u)
    {as : List α} {t : σ} (h : run step s as = some t) : I as t := by
  induction as using List.reverseRecOn generalizing t with
  | nil => cases h; exact hs
  | append_singleton as a ih =>
      obtain ⟨u, hu, hlast⟩ := run_append_eq_some.mp h
      obtain ⟨t', ht, hend⟩ := run_cons_eq_some.mp hlast
      cases hend
      exact hstep as u a t hu (ih hu) ht

/-- **View rule.** A view on which every step acts by a function of the action changes, over a run,
by the actions one after the other. -/
theorem run_view {τ : Type*} (view : σ → τ) (act : τ → α → τ)
    (hstep : ∀ s a t, step s a = some t → view t = act (view s) a)
    {s t : σ} {as : List α} (h : run step s as = some t) : view t = as.foldl act (view s) := by
  induction as generalizing s with
  | nil => cases h; rfl
  | cons a as ih =>
      obtain ⟨u, hu, hrun⟩ := run_cons_eq_some.mp h
      rw [ih hrun, hstep s a u hu, List.foldl_cons]

/-- **Log rule.** A log to which each step appends what its action says holds, at the end, what the
actions of the run say. -/
theorem run_log {β : Type*} (log : σ → List β) {entries : α → List β}
    (hstep : ∀ s a t, step s a = some t → log t = log s ++ entries a)
    {s t : σ} {as : List α} (h : run step s as = some t) :
    log t = log s ++ as.flatMap entries := by
  rw [run_view log (fun l a => l ++ entries a) hstep h]
  generalize log s = l
  induction as generalizing s l with
  | nil => simp
  | cons a as ih =>
      obtain ⟨u, -, hrun⟩ := run_cons_eq_some.mp h
      rw [List.foldl_cons, ih hrun, List.flatMap_cons, List.append_assoc]

/-- Every step of the run meets the condition `C` on the state before it and its action. -/
def Meets (step : σ → α → Option σ) (C : σ → α → Prop) : σ → List α → Prop
  | _, [] => True
  | s, a :: as => C s a ∧ ∀ t, step s a = some t → Meets step C t as

/-- Along a given run a decidable condition can be decided. -/
instance Meets.decidable {C : σ → α → Prop} [∀ s a, Decidable (C s a)] (s : σ) (as : List α) :
    Decidable (Meets step C s as) :=
  match as with
  | [] => .isTrue trivial
  | a :: as =>
      match h : step s a with
      | none => decidable_of_iff (C s a) ⟨fun hC => ⟨hC, by simp [h]⟩, fun hC => hC.1⟩
      | some t =>
          have := Meets.decidable (C := C) t as
          decidable_of_iff (C s a ∧ Meets step C t as) (by simp [Meets, h])

/-- A condition on the actions alone is met wherever the run starts. -/
lemma meets_of_forall {C : σ → α → Prop} {as : List α} (h : ∀ a ∈ as, ∀ s, C s a) (s : σ) :
    Meets step C s as := by
  induction as generalizing s with
  | nil => trivial
  | cons a as ih =>
      exact ⟨h a List.mem_cons_self s, fun t _ =>
        ih (fun a' ha' => h a' (List.mem_cons_of_mem _ ha')) t⟩

/-- A condition is met if it holds wherever a part of the run leads. -/
lemma meets_of_run {C : σ → α → Prop} {s : σ} {as : List α}
    (h : ∀ before a after t, as = before ++ a :: after → run step s before = some t → C t a) :
    Meets step C s as := by
  induction as generalizing s with
  | nil => trivial
  | cons a as ih =>
      refine ⟨h [] a as s rfl rfl, fun t ht => ih fun before a' after u hsplit hrun => ?_⟩
      exact h (a :: before) a' after u (by rw [hsplit]; rfl)
        (run_cons_eq_some.mpr ⟨t, ht, hrun⟩)

/-- A weaker condition is met as well. -/
lemma Meets.mono {C D : σ → α → Prop} (hCD : ∀ s a, C s a → D s a) {s : σ} {as : List α}
    (h : Meets step C s as) : Meets step D s as := by
  induction as generalizing s with
  | nil => trivial
  | cons a as ih => exact ⟨hCD _ _ h.1, fun t ht => ih (h.2 t ht)⟩

/-- **Conditional invariant rule.** What every step that meets `C` preserves holds at the end of
every run whose steps all meet `C`. -/
theorem run_invariant_of {C : σ → α → Prop} {I : σ → Prop}
    (hstep : ∀ s a t, I s → C s a → step s a = some t → I t)
    {s t : σ} {as : List α} (hs : I s) (hC : Meets step C s as)
    (h : run step s as = some t) : I t := by
  induction as generalizing s with
  | nil => cases h; exact hs
  | cons a as ih =>
      obtain ⟨u, hu, hrun⟩ := run_cons_eq_some.mp h
      exact ih (hstep s a u hs hC.1 hu) (hC.2 u hu) hrun

/-! ## Ranks -/

section rank

variable {ρ : Type*} [LT ρ] [WellFoundedLT ρ] {rank : σ → ρ} {I : σ → Prop} {P : α → Prop}
  (hI : ∀ s a t, I s → P a → step s a = some t → I t)
  (hrank : ∀ s a t, I s → P a → step s a = some t → rank t < rank s)
include hI hrank

/-- **Rank rule.** Actions that lower a rank are not taken forever. -/
theorem not_forever {ss : ℕ → σ} {as : ℕ → α} (hs : I (ss 0))
    (h : ∀ k, P (as k) ∧ step (ss k) (as k) = some (ss (k + 1))) : False := by
  have hss : ∀ k, I (ss k) := by
    intro k
    induction k with
    | zero => exact hs
    | succ k ih => exact hI _ _ _ ih (h k).1 (h k).2
  obtain ⟨k, hk⟩ := WellFounded.not_rel_apply_succ (r := fun x y : ρ => x < y) (rank ∘ ss)
  exact hk (hrank _ _ _ (hss k) (h k).1 (h k).2)

/-- They lead to a state in which none of them is enabled. -/
theorem exists_stuck {s : σ} (hs : I s) :
    ∃ as t, (∀ a ∈ as, P a) ∧ run step s as = some t ∧ ∀ a, P a → step t a = none := by
  induction hk : rank s using WellFoundedLT.induction generalizing s with
  | ind k ih =>
      by_cases hstuck : ∀ a, P a → step s a = none
      · exact ⟨[], s, by simp, rfl, hstuck⟩
      · push Not at hstuck
        obtain ⟨a, ha, hstep⟩ := hstuck
        obtain ⟨u, hu⟩ := Option.ne_none_iff_exists'.mp hstep
        obtain ⟨as, t, has, hrun, hend⟩ :=
          ih (rank u) (hk ▸ hrank s a u hs ha hu) (hI s a u hs ha hu) rfl
        refine ⟨a :: as, t, ?_, run_cons_eq_some.mpr ⟨u, hu, hrun⟩, hend⟩
        intro b hb
        rcases List.mem_cons.mp hb with rfl | hb
        · exact ha
        · exact has b hb

end rank

end Aulon.Lib
