import Mathlib.Data.List.Sigma
import Mathlib.Tactic

/-!
# Ordered maps

A map as the list of its entries in the order of the keys. The order is a field of the structure,
so two maps with the same lookups are equal, whatever they were built from.

* `SortedMap.lookup` — the value under a key.
* `SortedMap.upsert` — replace the value under a key, or insert one.
* `SortedMap.mapValues` — change every value.
* `SortedMap.ext_lookup` — extensionality.
-/

namespace Aulon.Lib

variable {κ β γ : Type} [LinearOrder κ]

/-- A map with its entries in ascending order of the keys. -/
structure SortedMap (κ β : Type) [LinearOrder κ] where
  entries : List (Sigma fun _ : κ => β)
  sorted : entries.Pairwise fun a b => a.1 < b.1

namespace SortedMap

/-- The map without entries. -/
def empty : SortedMap κ β := ⟨[], .nil⟩

/-- The value under a key. -/
def lookup (m : SortedMap κ β) (k : κ) : Option β := m.entries.dlookup k

/-- Put `f` of what is under a key in its place, in the list of the entries. -/
def upsertList (k : κ) (f : Option β → β) :
    List (Sigma fun _ : κ => β) → List (Sigma fun _ : κ => β)
  | [] => [⟨k, f none⟩]
  | e :: rest =>
      if k < e.1 then ⟨k, f none⟩ :: e :: rest
      else if k = e.1 then ⟨k, f (some e.2)⟩ :: rest
      else e :: upsertList k f rest

/-- The keys after an upsert are the old ones and the new one. -/
lemma key_of_mem_upsertList {k : κ} {f : Option β → β} {l : List (Sigma fun _ : κ => β)}
    {a : Sigma fun _ : κ => β} (ha : a ∈ upsertList k f l) : a.1 = k ∨ a ∈ l := by
  induction l with
  | nil =>
      rw [List.mem_singleton.mp ha]
      exact Or.inl rfl
  | cons e rest ih =>
      rw [upsertList] at ha
      split_ifs at ha with hlt heq
      · rcases List.mem_cons.mp ha with rfl | ha
        · exact Or.inl rfl
        · exact Or.inr ha
      · rcases List.mem_cons.mp ha with rfl | ha
        · exact Or.inl rfl
        · exact Or.inr (List.mem_cons_of_mem e ha)
      · rcases List.mem_cons.mp ha with rfl | ha
        · exact Or.inr List.mem_cons_self
        · exact (ih ha).imp_right (List.mem_cons_of_mem e)

/-- An upsert keeps the entries in order. -/
lemma pairwise_upsertList (k : κ) (f : Option β → β) {l : List (Sigma fun _ : κ => β)}
    (hl : l.Pairwise fun a b => a.1 < b.1) :
    (upsertList k f l).Pairwise fun a b => a.1 < b.1 := by
  induction l with
  | nil => exact List.pairwise_singleton _ _
  | cons e rest ih =>
      obtain ⟨hhead, hrest⟩ := List.pairwise_cons.mp hl
      rw [upsertList]
      split_ifs with hlt heq
      · refine List.pairwise_cons.mpr ⟨fun a ha => ?_, hl⟩
        rcases List.mem_cons.mp ha with rfl | ha
        · exact hlt
        · exact hlt.trans (hhead a ha)
      · exact List.pairwise_cons.mpr ⟨fun a ha => heq ▸ hhead a ha, hrest⟩
      · refine List.pairwise_cons.mpr ⟨fun a ha => ?_, ih hrest⟩
        rcases key_of_mem_upsertList ha with hkey | ha
        · rw [hkey]
          exact lt_of_le_of_ne (not_lt.mp hlt) (Ne.symm heq)
        · exact hhead a ha

/-- Put `f` of what is under a key in its place. -/
def upsert (m : SortedMap κ β) (k : κ) (f : Option β → β) : SortedMap κ β :=
  ⟨upsertList k f m.entries, pairwise_upsertList k f m.sorted⟩

/-- Change every value. -/
def mapValues (g : β → γ) (m : SortedMap κ β) : SortedMap κ γ :=
  ⟨m.entries.map fun e => ⟨e.1, g e.2⟩, List.pairwise_map.mpr m.sorted⟩

/-! ## Lookups -/

variable {m m' : SortedMap κ β}

/-- No key occurs twice. -/
lemma nodupKeys (m : SortedMap κ β) : m.entries.NodupKeys :=
  List.nodupKeys_iff_pairwise.mpr (m.sorted.imp ne_of_lt)

/-- The entries are what a lookup finds. -/
lemma mem_entries {e : Sigma fun _ : κ => β} : e ∈ m.entries ↔ m.lookup e.1 = some e.2 :=
  (List.mem_dlookup_iff m.nodupKeys).symm

/-- Lookups determine a map. -/
lemma ext_lookup (h : ∀ k, m.lookup k = m'.lookup k) : m = m' := by
  have hperm : m.entries.Perm m'.entries :=
    List.lookup_ext m.nodupKeys m'.nodupKeys fun k y => by
      rw [show m.entries.dlookup k = m'.entries.dlookup k from h k]
  have hentries : m.entries = m'.entries :=
    hperm.eq_of_pairwise (fun _ _ _ _ hab hba => absurd hab (not_lt.mpr hba.le)) m.sorted m'.sorted
  cases m
  cases m'
  cases hentries
  rfl

/-- No key is below the least one. -/
lemma dlookup_of_lt {k : κ} {l : List (Sigma fun _ : κ => β)} (h : ∀ e ∈ l, k < e.1) :
    l.dlookup k = none := by
  rw [List.dlookup_eq_none]
  intro hk
  obtain ⟨e, he, rfl⟩ := List.mem_map.mp hk
  exact lt_irrefl _ (h e he)

/-- What a lookup finds in the list after an upsert. -/
lemma dlookup_upsertList (k k' : κ) (f : Option β → β) {l : List (Sigma fun _ : κ => β)}
    (hl : l.Pairwise fun a b => a.1 < b.1) : (upsertList k f l).dlookup k' =
      if k' = k then some (f (l.dlookup k)) else l.dlookup k' := by
  induction l with
  | nil =>
      by_cases hk : k' = k
      · subst hk
        simp [upsertList]
      · simp [upsertList, hk]
  | cons e rest ih =>
      obtain ⟨hhead, hrest⟩ := List.pairwise_cons.mp hl
      obtain ⟨key, value⟩ := e
      rcases lt_trichotomy k key with hlt | rfl | hgt
      · have hnone : List.dlookup k (⟨key, value⟩ :: rest) = none := by
          refine dlookup_of_lt fun a ha => ?_
          rcases List.mem_cons.mp ha with rfl | ha
          · exact hlt
          · exact hlt.trans (hhead a ha)
        rw [upsertList, if_pos hlt]
        by_cases hk : k' = k
        · rw [if_pos hk, hk, List.dlookup_cons_eq, hnone]
        · rw [if_neg hk, List.dlookup_cons_ne _ _ hk]
      · rw [upsertList, if_neg (lt_irrefl k), if_pos rfl]
        by_cases hk : k' = k
        · rw [if_pos hk, hk, List.dlookup_cons_eq, List.dlookup_cons_eq]
        · rw [if_neg hk, List.dlookup_cons_ne _ _ hk, List.dlookup_cons_ne _ _ hk]
      · have hskip : List.dlookup k (⟨key, value⟩ :: rest) = rest.dlookup k :=
          List.dlookup_cons_ne rest ⟨key, value⟩ hgt.ne'
        rw [upsertList, if_neg hgt.asymm, if_neg hgt.ne', hskip]
        by_cases hkey : k' = key
        · rw [if_neg (hkey ▸ hgt.ne), hkey, List.dlookup_cons_eq, List.dlookup_cons_eq]
        · rw [List.dlookup_cons_ne _ _ hkey, List.dlookup_cons_ne _ _ hkey, ih hrest]

/-- What a lookup finds after an upsert. -/
lemma lookup_upsert (m : SortedMap κ β) (k k' : κ) (f : Option β → β) :
    (m.upsert k f).lookup k' = if k' = k then some (f (m.lookup k)) else m.lookup k' :=
  dlookup_upsertList k k' f m.sorted

/-- What a lookup finds after a function was applied to all values. -/
lemma lookup_mapValues (g : β → γ) (m : SortedMap κ β) (k : κ) :
    (m.mapValues g).lookup k = (m.lookup k).map g :=
  List.dlookup_map₂ (f := fun _ => g) k

end SortedMap

end Aulon.Lib
