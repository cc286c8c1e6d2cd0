import Aulon.Lib.Bytes
import Aulon.Lib.Word

/-!
# Computations that may panic

The operations of a systems program that stop it when they are used outside their range, with the
reason for stopping: unchecked arithmetic on words, indexing, ranges of slices, assertions. A
function translated with them says where it can panic; that it never does is then the statement
that it returns, and each operation has one lemma that says when.

* `Checked α` — a value, or the panic that came instead.
* `add`, `sub` — arithmetic that panics outside the words.
* `get`, `set`, `range` — access to a slice that panics outside its bounds.
* `expect`, `ensure` — what the program asserts.
* `foldlM_eq` — the loop rule; `index_of_drop_eq_cons` — the step of a loop over an index;
  `copyLoop_eq` — copying byte by byte within bounds.
* `mapM_eq_ok_iff` — a loop that stops at the first element it rejects.
-/

namespace Aulon.Lib

/-- Why a program stopped. -/
inductive Panic where
  /-- An addition left the word. -/
  | addOverflow
  /-- A subtraction went below zero. -/
  | subOverflow
  /-- An index was not below the length. -/
  | index
  /-- A range did not lie within the slice. -/
  | range
  /-- An optional value that was expected was not there. -/
  | expect
  /-- An assertion failed. -/
  | assertion
  /-- A place that was marked as unreachable was reached. -/
  | unreachable
deriving DecidableEq, Repr

/-- A computation that may panic. -/
abbrev Checked (α : Type) : Type := Except Panic α

namespace Checked

variable {α : Type}

/-- Addition of words that panics on overflow. -/
def add (a b : ℕ) : Checked ℕ := if a + b < wordMod then .ok (a + b) else .error .addOverflow

/-- Subtraction of words that panics below zero. -/
def sub (a b : ℕ) : Checked ℕ := if b ≤ a then .ok (a - b) else .error .subOverflow

/-- The cell at an index. -/
def get (xs : List α) (i : ℕ) : Checked α := (xs[i]?).elim (.error .index) .ok

/-- The slice with another value in the cell at an index. -/
def set (xs : List α) (i : ℕ) (x : α) : Checked (List α) :=
  if i < xs.length then .ok (xs.set i x) else .error .index

/-- The range `xs[i..j]`. -/
def range (xs : Bytes) (i j : ℕ) : Checked Bytes :=
  if i ≤ j ∧ j ≤ xs.length then .ok (slice xs i j) else .error .range

/-- A value that is expected to be there. -/
def expect (o : Option α) : Checked α := o.elim (.error .expect) .ok

/-- An assertion. -/
def ensure (p : Prop) [Decidable p] : Checked Unit := if p then .ok () else .error .assertion

/-! ## Within their range the operations return -/

/-- An addition that does not overflow. -/
lemma add_eq {a b : ℕ} (h : a + b < wordMod) : add a b = .ok (a + b) := if_pos h

/-- A subtraction that does not underflow. -/
lemma sub_eq {a b : ℕ} (h : b ≤ a) : sub a b = .ok (a - b) := if_pos h

/-- An access within bounds. -/
lemma get_eq {xs : List α} {i : ℕ} {x : α} (h : xs[i]? = some x) : get xs i = .ok x := by
  rw [get, h]
  rfl

/-- A store within bounds. -/
lemma set_eq {xs : List α} {i : ℕ} (h : i < xs.length) (x : α) : set xs i x = .ok (xs.set i x) :=
  if_pos h

/-- A range within bounds. -/
lemma range_eq {xs : Bytes} {i j : ℕ} (hi : i ≤ j) (hj : j ≤ xs.length) :
    range xs i j = .ok (slice xs i j) := if_pos ⟨hi, hj⟩

/-- A check that holds. -/
lemma ensure_eq {p : Prop} [Decidable p] (h : p) : ensure p = .ok () := if_pos h

/-- Two computations in sequence, the first of which returns. -/
lemma bind_ok {β : Type} {m : Checked α} {a : α} (h : m = .ok a) (k : α → Checked β) :
    m >>= k = k a := by
  rw [h]
  rfl

/-- **Loop rule.** A loop whose rounds return, as long as an invariant holds, which they keep,
returns what the loop without checks computes. -/
lemma foldlM_eq {σ : Type} {step : σ → α → Checked σ} {f : σ → α → σ} {I : σ → Prop} {as : List α}
    (hstep : ∀ s, ∀ a ∈ as, I s → step s a = .ok (f s a) ∧ I (f s a)) {s : σ} (hs : I s) :
    as.foldlM step s = .ok (as.foldl f s) := by
  induction as generalizing s with
  | nil => rfl
  | cons a as ih =>
      obtain ⟨hok, hI⟩ := hstep s a List.mem_cons_self hs
      rw [List.foldlM_cons, bind_ok hok]
      exact ih (fun s b hb => hstep s b (List.mem_cons_of_mem _ hb)) hI

/-- Where an index loop over a list stands: at the head of what is left, and one further on at its
tail. -/
lemma index_of_drop_eq_cons {xs rest : List α} {i : ℕ} {x : α} (h : xs.drop i = x :: rest) :
    xs[i]? = some x ∧ xs.drop (i + 1) = rest ∧ xs.length = i + (rest.length + 1) := by
  have hget : (xs.drop i)[0]? = some x := by rw [h]; rfl
  have hlen := congrArg List.length h
  rw [List.length_drop, List.length_cons] at hlen
  refine ⟨by simpa using hget, ?_, by omega⟩
  rw [← List.drop_drop, h]
  rfl

/-- Copy `n` bytes, one at a time, from `src[i..]` to `dst[j..]`. -/
def copyLoop (src : Bytes) (i : ℕ) (dst : Bytes) (j n : ℕ) : Checked Bytes :=
  (List.range n).foldlM (fun dst k => do
    let b ← get src (← add i k)
    set dst (← add j k) b) dst

/-- Where both ranges are in bounds, the loop overwrites one by the other. -/
lemma copyLoop_eq {src dst : Bytes} {i j n : ℕ} (hi : i + n ≤ src.length)
    (hj : j + n ≤ dst.length) (hin : i + n ≤ wordMod) (hjn : j + n ≤ wordMod) :
    copyLoop src i dst j n = .ok (overwrite dst j (slice src i (i + n))) := by
  have hread : (List.range n).map (fun k => (src[i + k]?).getD 0) = slice src i (i + n) := by
    refine List.ext_getElem? fun k => ?_
    rw [List.getElem?_map, slice, List.getElem?_drop, List.getElem?_take]
    by_cases hk : k < n
    · rw [List.getElem?_range hk, Option.map_some, if_pos (by omega),
        List.getElem?_eq_getElem (by omega), Option.getD_some]
    · rw [List.getElem?_eq_none (by simpa using hk), if_neg (by omega)]
      rfl
  rw [← hread, ← foldl_set_eq_overwrite _ n hj]
  refine foldlM_eq (I := fun out : Bytes => out.length = dst.length) (fun out k hk hlen => ?_) rfl
  have hkn : k < n := List.mem_range.mp hk
  have hget : src[i + k]? = some ((src[i + k]?).getD 0) := by
    rw [List.getElem?_eq_getElem (by omega)]
    rfl
  rw [bind_ok (add_eq (by omega)), bind_ok (get_eq hget), bind_ok (add_eq (by omega)),
    set_eq (by omega)]
  exact ⟨rfl, by rw [List.length_set, hlen]⟩

end Checked

/-- A loop that turns every element into `g` of it, and stops at the first one that is not `p`,
goes through if all are. -/
lemma mapM_eq_ok_iff {ε α β : Type} {f : α → Except ε β} {p : α → Prop} {g : α → β}
    (hf : ∀ a b, f a = .ok b ↔ p a ∧ b = g a) (as : List α) (bs : List β) :
    as.mapM f = .ok bs ↔ (∀ a ∈ as, p a) ∧ bs = as.map g := by
  induction as generalizing bs with
  | nil =>
      rw [List.mapM_nil, List.map_nil]
      refine ⟨fun h => ?_, fun h => h.2 ▸ rfl⟩
      cases h
      exact ⟨fun a ha => absurd ha List.not_mem_nil, rfl⟩
  | cons a as ih =>
      rw [List.mapM_cons, List.forall_mem_cons, List.map_cons]
      constructor
      · intro h
        cases ha : f a with
        | error e => rw [ha] at h; cases h
        | ok b =>
            cases has : as.mapM f with
            | error e => rw [ha, has] at h; cases h
            | ok bs' =>
                rw [ha, has] at h
                cases h
                obtain ⟨hp, rfl⟩ := (hf a b).mp ha
                obtain ⟨hall, rfl⟩ := (ih bs').mp has
                exact ⟨⟨hp, hall⟩, rfl⟩
      · rintro ⟨⟨hp, hall⟩, rfl⟩
        rw [(hf a (g a)).mpr ⟨hp, rfl⟩, (ih _).mpr ⟨hall, rfl⟩]
        rfl

end Aulon.Lib
