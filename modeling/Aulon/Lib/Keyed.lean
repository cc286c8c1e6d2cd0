import Mathlib.Data.List.Perm.Basic
import Mathlib.Data.List.Nodup
import Mathlib.Tactic

/-!
# Flat lists of keyed entries

A list of pairs of a key and a value, seen as one bucket of values per key. It is the reference
for a structure that spreads its values over buckets: adding an entry appends to one bucket,
deleting by key and predicate filters one bucket, and reading some distinct keys one after the
other reads exactly the entries with these keys.

* `valuesAt l k` — the bucket of a key.
* `flatMap_valuesAt_perm` — reading the buckets of distinct keys.
* `addAt` — grouping by key while reading the list: one group per key, in the order in which the
  keys are first met.
-/

namespace Aulon.Lib

variable {κ α : Type*} [DecidableEq κ]

/-- The values under one key, in the order of the list. -/
def valuesAt (l : List (κ × α)) (k : κ) : List α := (l.filter (·.1 = k)).map (·.2)

/-- The list without the entries under `k` whose value satisfies `p`. -/
def deleteAt (l : List (κ × α)) (k : κ) (p : α → Bool) : List (κ × α) :=
  l.filter fun e => !(e.1 = k ∧ p e.2)

/-- No entries, no values. -/
@[simp] lemma valuesAt_nil (k : κ) : valuesAt ([] : List (κ × α)) k = [] := rfl

/-- The values of a key, the first entry apart. -/
lemma valuesAt_cons (e : κ × α) (l : List (κ × α)) (k : κ) :
    valuesAt (e :: l) k = if e.1 = k then e.2 :: valuesAt l k else valuesAt l k := by
  unfold valuesAt
  by_cases h : e.1 = k <;> simp [h]

/-- A new entry comes last among the values of its key. -/
lemma valuesAt_append_singleton (l : List (κ × α)) (k k' : κ) (x : α) :
    valuesAt (l ++ [(k', x)]) k = if k = k' then valuesAt l k ++ [x] else valuesAt l k := by
  unfold valuesAt
  by_cases h : k' = k
  · simp [h]
  · simp [h, Ne.symm h]

/-- Deleting at a key filters its values, and leaves the others. -/
lemma valuesAt_deleteAt (l : List (κ × α)) (k k' : κ) (p : α → Bool) :
    valuesAt (deleteAt l k' p) k =
      if k = k' then (valuesAt l k).filter (fun x => !p x) else valuesAt l k := by
  unfold valuesAt deleteAt
  rw [List.filter_filter]
  split_ifs with hk
  · subst hk
    rw [List.filter_map, List.filter_filter]
    congr 1
    refine List.filter_congr fun e _ => ?_
    by_cases he : e.1 = k <;> simp [he]
  · congr 1
    refine List.filter_congr fun e _ => ?_
    by_cases he : e.1 = k
    · simp [he, hk]
    · simp [he]

/-- A search for a key and a property is one among the values of the key. -/
lemma any_eq_any_valuesAt (l : List (κ × α)) (k : κ) (p : α → Bool) :
    l.any (fun e => decide (e.1 = k ∧ p e.2 = true)) = (valuesAt l k).any p := by
  induction l with
  | nil => rfl
  | cons e l ih =>
      rw [List.any_cons, ih, valuesAt_cons]
      by_cases he : e.1 = k <;> simp [he]

/-- Of the buckets of distinct keys, at most one is that of a given key. -/
lemma flatMap_ite_of_nodup {ks : List κ} (hks : ks.Nodup) (k : κ) (as : List α) :
    ks.flatMap (fun k' => if k' = k then as else []) = if k ∈ ks then as else [] := by
  induction ks with
  | nil => rfl
  | cons k' ks ih =>
      obtain ⟨hnot, hks⟩ := List.nodup_cons.mp hks
      rw [List.flatMap_cons, ih hks]
      by_cases hk : k' = k
      · subst hk
        simp [hnot]
      · simp [hk, Ne.symm hk]

/-- Reading the buckets of distinct keys one after the other reads every entry with one of these
keys exactly once. -/
theorem flatMap_valuesAt_perm (l : List (κ × α)) {ks : List κ} (hks : ks.Nodup) {p : κ → Bool}
    (hp : ∀ k, k ∈ ks ↔ p k = true) :
    (ks.flatMap (valuesAt l)).Perm ((l.filter fun e => p e.1).map (·.2)) := by
  induction l with
  | nil => simp
  | cons e l ih =>
      by_cases he : e.1 ∈ ks
      · obtain ⟨as, bs, hsplit⟩ := List.append_of_mem he
        have has : e.1 ∉ as ∧ e.1 ∉ bs := by
          rw [hsplit, List.nodup_append] at hks
          exact ⟨fun h => hks.2.2 _ h _ List.mem_cons_self rfl, (List.nodup_cons.mp hks.2.1).1⟩
        have hsame : ∀ ks' : List κ, e.1 ∉ ks' →
            ks'.flatMap (valuesAt (e :: l)) = ks'.flatMap (valuesAt l) := by
          intro ks' hmem
          refine List.flatMap_congr fun k hk => ?_
          rw [valuesAt_cons, if_neg (by rintro rfl; exact hmem hk)]
        have hread : ks.flatMap (valuesAt (e :: l)) =
            as.flatMap (valuesAt l) ++ e.2 :: (valuesAt l e.1 ++ bs.flatMap (valuesAt l)) := by
          rw [hsplit, List.flatMap_append, List.flatMap_cons, hsame as has.1, hsame bs has.2,
            valuesAt_cons, if_pos rfl, List.cons_append]
        have hold : ks.flatMap (valuesAt l) =
            as.flatMap (valuesAt l) ++ (valuesAt l e.1 ++ bs.flatMap (valuesAt l)) := by
          rw [hsplit, List.flatMap_append, List.flatMap_cons]
        rw [List.filter_cons_of_pos (by exact (hp e.1).mp he), List.map_cons, hread]
        rw [hold] at ih
        exact List.perm_middle.trans (ih.cons e.2)
      · have hread : ks.flatMap (valuesAt (e :: l)) = ks.flatMap (valuesAt l) := by
          refine List.flatMap_congr fun k hk => ?_
          rw [valuesAt_cons, if_neg (by rintro rfl; exact he hk)]
        rw [List.filter_cons_of_neg (by exact fun h => he ((hp e.1).mpr h)), hread]
        exact ih

/-! ## Grouping -/

/-- Add a value to the group of its key, or start that group at the end. -/
def addAt : List (κ × List α) → κ → α → List (κ × List α)
  | [], k, x => [(k, [x])]
  | (k', xs) :: groups, k, x =>
      if k' = k then (k', xs ++ [x]) :: groups else (k', xs) :: addAt groups k x

/-- The groups are those of the list: one for each key that occurs, with the values under it. -/
structure Grouped (groups : List (κ × List α)) (l : List (κ × α)) : Prop where
  nodup : (groups.map (·.1)).Nodup
  values : ∀ g ∈ groups, g.2 = valuesAt l g.1
  keys : ∀ k, k ∈ groups.map (·.1) ↔ k ∈ l.map (·.1)

/-- A key that is there has a value. -/
lemma valuesAt_ne_nil {l : List (κ × α)} {k : κ} (h : k ∈ l.map (·.1)) : valuesAt l k ≠ [] := by
  obtain ⟨e, he, rfl⟩ := List.mem_map.mp h
  refine List.ne_nil_of_mem (a := e.2) (List.mem_map_of_mem ?_)
  simpa using he

/-- The values of a key are those of its entries. -/
lemma mem_valuesAt {l : List (κ × α)} {k : κ} {x : α} : x ∈ valuesAt l k ↔ (k, x) ∈ l := by
  simp [valuesAt]

/-- A key that is new comes last, one that is there stays where it is. -/
lemma keys_addAt (groups : List (κ × List α)) (k : κ) (x : α) :
    (addAt groups k x).map (·.1) =
      if k ∈ groups.map (·.1) then groups.map (·.1) else groups.map (·.1) ++ [k] := by
  induction groups with
  | nil => simp [addAt]
  | cons g groups ih =>
      obtain ⟨k', xs⟩ := g
      by_cases h : k' = k
      · simp [addAt, h]
      · simp only [addAt, if_neg h, List.map_cons, ih, List.mem_cons, Ne.symm h, false_or]
        split_ifs <;> rfl

/-- A group after an addition is an old one under another key, or that of the key, longer by one. -/
lemma mem_addAt {groups : List (κ × List α)} {k : κ} {x : α} {g : κ × List α}
    (hnodup : (groups.map (·.1)).Nodup) (hg : g ∈ addAt groups k x) :
    (g.1 ≠ k ∧ g ∈ groups) ∨
      (g.1 = k ∧ ((∃ xs, (k, xs) ∈ groups ∧ g.2 = xs ++ [x]) ∨
        (k ∉ groups.map (·.1) ∧ g.2 = [x]))) := by
  induction groups with
  | nil =>
      rw [addAt, List.mem_singleton] at hg
      subst hg
      simp
  | cons head groups ih =>
      obtain ⟨k', xs⟩ := head
      rw [List.map_cons, List.nodup_cons] at hnodup
      by_cases h : k' = k
      · subst h
        rw [addAt, if_pos rfl, List.mem_cons] at hg
        rcases hg with rfl | hg
        · exact Or.inr ⟨rfl, Or.inl ⟨xs, List.mem_cons_self, rfl⟩⟩
        · refine Or.inl ⟨?_, List.mem_cons_of_mem _ hg⟩
          rintro rfl
          exact hnodup.1 (List.mem_map.mpr ⟨g, hg, rfl⟩)
      · rw [addAt, if_neg h, List.mem_cons] at hg
        rcases hg with rfl | hg
        · exact Or.inl ⟨h, List.mem_cons_self⟩
        · rcases ih hnodup.2 hg with ⟨hne, hmem⟩ | ⟨heq, ⟨ys, hys, hval⟩ | ⟨hnew, hval⟩⟩
          · exact Or.inl ⟨hne, List.mem_cons_of_mem _ hmem⟩
          · exact Or.inr ⟨heq, Or.inl ⟨ys, List.mem_cons_of_mem _ hys, hval⟩⟩
          · refine Or.inr ⟨heq, Or.inr ⟨?_, hval⟩⟩
            rw [List.map_cons, List.mem_cons]
            exact fun hmem => hmem.elim (fun heq' => h heq'.symm) hnew

/-- Reading one more entry. -/
lemma Grouped.addAt {groups : List (κ × List α)} {l : List (κ × α)} (h : Grouped groups l)
    (k : κ) (x : α) : Grouped (addAt groups k x) (l ++ [(k, x)]) where
  nodup := by
    rw [keys_addAt]
    split_ifs with hk
    · exact h.nodup
    · exact List.nodup_append.mpr ⟨h.nodup, List.nodup_singleton k, by
        rintro a ha b hb rfl
        exact hk (List.mem_singleton.mp hb ▸ ha)⟩
  values := by
    intro g hg
    rw [valuesAt_append_singleton]
    rcases mem_addAt h.nodup hg with ⟨hne, hmem⟩ | ⟨heq, ⟨xs, hxs, hval⟩ | ⟨hnew, hval⟩⟩
    · rw [if_neg hne, h.values g hmem]
    · rw [if_pos heq, hval, heq, ← h.values _ hxs]
    · have hnil : valuesAt l k = [] := by
        rw [List.eq_nil_iff_forall_not_mem]
        intro y hy
        exact hnew ((h.keys k).mpr (List.mem_map_of_mem (mem_valuesAt.mp hy)))
      rw [if_pos heq, hval, heq, hnil, List.nil_append]
  keys := by
    intro k'
    rw [keys_addAt, List.map_append, List.mem_append, ← h.keys k']
    split_ifs with hk
    · constructor
      · exact Or.inl
      · rintro (hmem | hmem)
        · exact hmem
        · rw [List.mem_singleton.mp hmem]; exact hk
    · rw [List.mem_append]
      rfl

/-- No groups, for no entries. -/
lemma grouped_nil : Grouped ([] : List (κ × List α)) [] := ⟨List.nodup_nil, by simp, by simp⟩

end Aulon.Lib
