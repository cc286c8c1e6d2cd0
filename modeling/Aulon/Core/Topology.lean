import Aulon.Lib.Keyed
import Aulon.Lib.SortedMap
import Mathlib.Data.List.Sort

/-!
# Discovery of the L3 domains

One shard for each L3 cache: the directories of the cpus are read in whatever order the file system
lists them, cpus are collected under the least cpu of the list their L3 cache is shared with, and
the buckets, sorted, are numbered in the order of these least cpus.

Texts are lists of characters; what the file system fails to read is `none`. Cpu ids are natural
numbers below `2 ^ 32`, the additions of the source are checked there.

* `parseCpuDirName`, `parseCpuList`, `readL3SharedList` — what is read from a cpu's directory.
* `detectIn` — the discovery.
* `entries`, `keyed` — what a listing means to it.
* `detectIn_eq` — the discovery in terms of the pairs of a least cpu and a cpu.
* `ofBuckets_fill_perm` — the order of the pairs does not matter.
* `partitions_ofBuckets` — the shards partition the cpus.
* `shardIds_of_detectIn` — whatever is listed, the shards are numbered without gaps.

Source: `aulon-core/src/topology.rs`.
-/

namespace Aulon.Core

open Aulon.Lib

/-! ## Texts -/

/-- A text, as a list of characters. -/
abbrev Text := List Char

/-- The number of values of a 32-bit word. -/
def u32Mod : ℕ := 2 ^ 32

/-- Is the character white space? -/
def isWhitespace (c : Char) : Bool :=
  (9 ≤ c.toNat && c.toNat ≤ 13) || (0x2000 ≤ c.toNat && c.toNat ≤ 0x200A) ||
    [0x20, 0x85, 0xA0, 0x1680, 0x2028, 0x2029, 0x202F, 0x205F, 0x3000].contains c.toNat

/-- The text without white space at both ends. -/
def trim (s : Text) : Text :=
  ((s.dropWhile isWhitespace).reverse.dropWhile isWhitespace).reverse

/-- The parts before and after the first occurrence of a character. -/
def splitOnce (c : Char) (s : Text) : Option (Text × Text) :=
  match s.dropWhile (· ≠ c) with
  | [] => none
  | _ :: rest => some (s.takeWhile (· ≠ c), rest)

/-- One more digit, checked at 32 bits. -/
def digitStepU32 (n : ℕ) (c : Char) : Option ℕ :=
  if c.isDigit ∧ n * 10 + (c.toNat - '0'.toNat) < u32Mod then
    some (n * 10 + (c.toNat - '0'.toNat))
  else none

/-- The number a text denotes: digits, after a plus sign at most. -/
def parseU32 : Text → Option ℕ
  | [] => none
  | ['+'] => none
  | ['-'] => none
  | '+' :: rest => rest.foldlM digitStepU32 0
  | s => s.foldlM digitStepU32 0

/-- The digits of a `u32` are read without overflow. -/
lemma lt_of_foldlM_digitStepU32 {s : Text} {n v : ℕ} (hn : n < u32Mod)
    (h : s.foldlM digitStepU32 n = some v) : v < u32Mod := by
  induction s generalizing n with
  | nil =>
      cases h
      exact hn
  | cons c s ih =>
      rw [List.foldlM_cons, Option.bind_eq_bind, Option.bind_eq_some_iff] at h
      obtain ⟨m, hm, h⟩ := h
      unfold digitStepU32 at hm
      split_ifs at hm with hdigit
      cases hm
      exact ih hdigit.2 h

/-- What is read as a number fits 32 bits. -/
lemma lt_of_parseU32 {s : Text} {v : ℕ} (h : parseU32 s = some v) : v < u32Mod := by
  unfold parseU32 at h
  split at h
  · cases h
  · cases h
  · cases h
  · exact lt_of_foldlM_digitStepU32 (by decide) h
  · exact lt_of_foldlM_digitStepU32 (by decide) h

/-! ## What is read from a cpu's directory -/

/-- The id in the name of a cpu's directory.
Source: `topology.rs`, `parse_cpu_dir_name` -/
def parseCpuDirName (name : Text) : Option ℕ :=
  if "cpu".toList.isPrefixOf name then
    let rest := name.drop "cpu".toList.length
    if rest.isEmpty || !rest.all Char.isDigit then none else parseU32 rest
  else none

/-- The cpus of one part of a list: a number, or a range with both ends; anything else is skipped.
Source: `topology.rs`, `parse_cpu_list` -/
def parseCpuPart (part : Text) : List ℕ :=
  let part := trim part
  if part.isEmpty then []
  else
    match splitOnce '-' part with
    | some (lo, hi) =>
        match parseU32 lo, parseU32 hi with
        | some lo, some hi => List.range' lo (hi + 1 - lo)
        | _, _ => []
    | none => (parseU32 part).toList

/-- The cpus of a list such as `0-3,8,12-15`.
Source: `topology.rs`, `parse_cpu_list` -/
def parseCpuList (s : Text) : List ℕ := (s.splitOn ',').flatMap parseCpuPart

/-- A directory below `cache`: its name, if it is a text, and what its files `level` and
`shared_cpu_list` hold, if they can be read. -/
structure IndexDir where
  name : Option Text
  level : Option Text
  sharedCpuList : Option Text

/-- The loop over the directories below `cache`, up to the first one of level 3. A directory that
cannot be read, or whose name is no text, ends it.
Source: `topology.rs`, `read_l3_shared_list` -/
def findL3 : List (Option IndexDir) → Option (List ℕ)
  | [] => none
  | none :: _ => none
  | some dir :: rest =>
      match dir.name with
      | none => none
      | some name =>
          if !"index".toList.isPrefixOf name then findL3 rest
          else
            match dir.level with
            | none => findL3 rest
            | some level =>
                if trim level ≠ "3".toList then findL3 rest
                else dir.sharedCpuList.map fun s => parseCpuList (trim s)

/-- A directory below the root: its name, if it is a text, and the listing of its `cache`, if there
is one. -/
structure CpuDir where
  name : Option Text
  cache : Option (List (Option IndexDir))

/-- The cpus that share the L3 cache.
Source: `topology.rs`, `read_l3_shared_list` -/
def readL3SharedList (cache : Option (List (Option IndexDir))) : Option (List ℕ) :=
  cache.bind findL3

/-- The ids of a range are `u32`. -/
lemma lt_of_mem_parseCpuPart {part : Text} {cpu : ℕ} (h : cpu ∈ parseCpuPart part) :
    cpu < u32Mod := by
  unfold parseCpuPart at h
  dsimp only at h
  split_ifs at h
  · cases h
  · split at h
    · split at h
      · rename_i lo hi hlo hhi
        have hlt := lt_of_parseU32 hhi
        rw [List.mem_range'_1] at h
        omega
      · cases h
    · exact lt_of_parseU32 (Option.mem_toList.mp h)

/-- Every cpu of a list fits 32 bits. -/
lemma lt_of_mem_parseCpuList {s : Text} {cpu : ℕ} (h : cpu ∈ parseCpuList s) : cpu < u32Mod := by
  obtain ⟨part, -, hcpu⟩ := List.mem_flatMap.mp h
  exact lt_of_mem_parseCpuPart hcpu

/-- The ids that share an L3 cache are `u32`. -/
lemma lt_of_findL3 {dirs : List (Option IndexDir)} {shared : List ℕ}
    (h : findL3 dirs = some shared) {cpu : ℕ} (hcpu : cpu ∈ shared) : cpu < u32Mod := by
  induction dirs with
  | nil => cases h
  | cons dir rest ih =>
      cases dir with
      | none => cases h
      | some dir =>
          rw [findL3] at h
          split at h
          · cases h
          · split_ifs at h
            · exact ih h
            · split at h
              · exact ih h
              · split_ifs at h
                · exact ih h
                · obtain ⟨s, -, rfl⟩ := Option.map_eq_some_iff.mp h
                  exact lt_of_mem_parseCpuList hcpu

/-- So are those read from a CPU's directory. -/
lemma lt_of_readL3SharedList {cache : Option (List (Option IndexDir))} {shared : List ℕ}
    (h : readL3SharedList cache = some shared) {cpu : ℕ} (hcpu : cpu ∈ shared) : cpu < u32Mod := by
  obtain ⟨dirs, -, hfind⟩ := Option.bind_eq_some_iff.mp h
  exact lt_of_findL3 hfind hcpu

/-! ## The discovery -/

/-- One L3 cache domain.
Source: `topology.rs`, `Shard` -/
structure Topology.Shard where
  shardId : ℕ
  cpus : List ℕ
deriving DecidableEq, Repr

/-- Source: `topology.rs`, `Topology` -/
structure Topology where
  shards : List Topology.Shard
deriving DecidableEq, Repr

namespace Topology

/-- A number as a 32-bit word, or the greatest one. -/
def u32OrMax (n : ℕ) : ℕ := if n < u32Mod then n else u32Mod - 1

/-- A single shard for all cpus; one, if their number is not known.
Source: `topology.rs`, `Topology::single` -/
def single (availableParallelism : Option ℕ) : Topology :=
  ⟨[⟨0, (List.range (availableParallelism.getD 1)).map u32OrMax⟩]⟩

/-- Source: `topology.rs`, `Topology::shard_count` -/
def shardCount (t : Topology) : ℕ := t.shards.length

/-- The buckets, under the least cpu each is shared with. -/
abbrev Buckets := SortedMap ℕ (List ℕ)

/-- Put a cpu into a bucket, unless it is there.
Source: `topology.rs`, `detect_in` -/
def addCpu (byCanonical : Buckets) (canonical cpuId : ℕ) : Buckets :=
  byCanonical.upsert canonical fun bucket =>
    if (bucket.getD []).contains cpuId then bucket.getD [] else bucket.getD [] ++ [cpuId]

/-- One round of the loop over the root: the buckets, and whether a cpu was seen. A directory that
cannot be read, or whose name is no text, ends the discovery.
Source: `topology.rs`, `detect_in` -/
def visit (state : Buckets × Bool) (dir : Option CpuDir) : Option (Buckets × Bool) := do
  let dir ← dir
  let name ← dir.name
  match parseCpuDirName name with
  | none => return state
  | some cpuId =>
      match readL3SharedList dir.cache with
      | none => return (state.1, true)
      | some shared =>
          match shared.min? with
          | none => return (state.1, true)
          | some canonical => return (addCpu state.1 canonical cpuId, true)

/-- The shards of the buckets, sorted and numbered.
Source: `topology.rs`, `detect_in` -/
def ofBuckets (byCanonical : Buckets) : Topology :=
  ⟨byCanonical.entries.zipIdx.map fun e =>
    ⟨u32OrMax e.2, e.1.2.insertionSort (· ≤ ·)⟩⟩

/-- The discovery below a root, if that is a directory that can be listed.
Source: `topology.rs`, `detect_in` -/
def detectIn (cpuRoot : Option (List (Option CpuDir))) : Option Topology := do
  let dirs ← cpuRoot
  let (byCanonical, anyCpuSeen) ← dirs.foldlM visit (.empty, false)
  if byCanonical.entries.isEmpty then
    if anyCpuSeen then none else none
  else some (ofBuckets byCanonical)

/-- Source: `topology.rs`, `detect` -/
def detect (cpuRoot : Option (List (Option CpuDir))) (availableParallelism : Option ℕ) :
    Topology :=
  (detectIn cpuRoot).getD (single availableParallelism)

/-! ## What a directory means -/

/-- A cpu with the list its L3 cache is shared with, if the directory is one of a cpu. -/
def entry (dir : CpuDir) : Option (ℕ × Option (List ℕ)) :=
  (dir.name.bind parseCpuDirName).map fun cpuId => (cpuId, readL3SharedList dir.cache)

/-- The cpus of a listing. -/
def entries (dirs : List CpuDir) : List (ℕ × Option (List ℕ)) := dirs.filterMap entry

/-- The least cpu a cache is shared with, and a cpu of that cache. -/
def keyed (es : List (ℕ × Option (List ℕ))) : List (ℕ × ℕ) :=
  es.filterMap fun e => (e.2.bind List.min?).map fun canonical => (canonical, e.1)

/-- The lists that are read hold cpu ids. -/
lemma lt_of_mem_entries {dirs : List CpuDir} {cpu : ℕ} {shared : List ℕ}
    (h : (cpu, some shared) ∈ entries dirs) : ∀ c ∈ shared, c < u32Mod := by
  obtain ⟨dir, -, hentry⟩ := List.mem_filterMap.mp h
  obtain ⟨cpuId, -, heq⟩ := Option.map_eq_some_iff.mp hentry
  exact fun c hc => lt_of_readL3SharedList (congrArg Prod.snd heq) hc

/-- The pairs of a bucket key and an id: the key is the least of the ids that share the cache. -/
lemma mem_keyed {es : List (ℕ × Option (List ℕ))} {canonical cpuId : ℕ} :
    (canonical, cpuId) ∈ keyed es ↔
      ∃ shared, (cpuId, some shared) ∈ es ∧ shared.min? = some canonical := by
  rw [keyed, List.mem_filterMap]
  constructor
  · rintro ⟨⟨cpu, shared⟩, he, hkey⟩
    obtain ⟨c, hc, heq⟩ := Option.map_eq_some_iff.mp hkey
    obtain ⟨shared, rfl, hmin⟩ := Option.bind_eq_some_iff.mp hc
    cases heq
    exact ⟨shared, he, hmin⟩
  · rintro ⟨shared, he, hmin⟩
    exact ⟨(cpuId, some shared), he, by simp [hmin]⟩

/-- A cpu whose list is not empty has a key. -/
lemma exists_mem_keyed {es : List (ℕ × Option (List ℕ))} {cpuId : ℕ} {shared : List ℕ}
    (he : (cpuId, some shared) ∈ es) (hne : shared ≠ []) :
    ∃ canonical, shared.min? = some canonical ∧ (canonical, cpuId) ∈ keyed es := by
  obtain ⟨canonical, hmin⟩ := Option.ne_none_iff_exists'.mp (mt List.min?_eq_none_iff.mp hne)
  exact ⟨canonical, hmin, mem_keyed.mpr ⟨shared, he, hmin⟩⟩

/-- Of cpus with distinct ids, every one is under one key. -/
lemma nodup_keyed {es : List (ℕ × Option (List ℕ))} (h : (es.map Prod.fst).Nodup) :
    ((keyed es).map Prod.snd).Nodup := by
  refine h.sublist ?_
  induction es with
  | nil => exact List.Sublist.refl _
  | cons e es ih =>
      have hrest := ih (List.nodup_cons.mp h).2
      rw [keyed, List.filterMap_cons]
      cases he : (e.2.bind List.min?).map fun canonical => (canonical, e.1) with
      | none => exact hrest.cons _
      | some p =>
          obtain ⟨c, -, rfl⟩ := Option.map_eq_some_iff.mp he
          exact hrest.cons_cons _

/-- The pairs of a listing, its first directory apart. -/
lemma keyed_entries_cons (dir : CpuDir) (dirs : List CpuDir) :
    keyed (entries (dir :: dirs)) = keyed (entries [dir]) ++ keyed (entries dirs) := by
  rw [← List.singleton_append, entries, List.filterMap_append, keyed, List.filterMap_append]
  rfl

/-- The pairs, put into buckets one after the other. -/
def fill (m : Buckets) (ps : List (ℕ × ℕ)) : Buckets := ps.foldl (fun m p => addCpu m p.1 p.2) m

/-- Buckets are filled pair by pair. -/
lemma fill_append (m : Buckets) (ps qs : List (ℕ × ℕ)) :
    fill m (ps ++ qs) = fill (fill m ps) qs := List.foldl_append

/-- A round of the loop on a directory that can be read. -/
lemma visit_some (state : Buckets × Bool) {dir : CpuDir} (hname : dir.name.isSome) :
    ∃ seen, visit state (some dir) = some (fill state.1 (keyed (entries [dir])), seen) := by
  obtain ⟨name, hname⟩ := Option.isSome_iff_exists.mp hname
  have hentry : entries [dir] =
      ((parseCpuDirName name).map fun cpuId => (cpuId, readL3SharedList dir.cache)).toList := by
    rw [entries, List.filterMap_cons, List.filterMap_nil, entry, hname, Option.bind_some]
    cases parseCpuDirName name with
    | none => rfl
    | some cpuId => rfl
  rw [hentry]
  cases hcpu : parseCpuDirName name with
  | none => exact ⟨state.2, by simp [visit, hname, hcpu, keyed, fill]⟩
  | some cpuId =>
      refine ⟨true, ?_⟩
      cases hshared : readL3SharedList dir.cache with
      | none => simp [visit, hname, hcpu, hshared, keyed, fill]
      | some shared =>
          cases hmin : shared.min? with
          | none => simp [visit, hname, hcpu, hshared, hmin, keyed, fill]
          | some canonical => simp [visit, hname, hcpu, hshared, hmin, keyed, fill]

/-- The loop over a listing that can be read fills the buckets. -/
lemma foldlM_visit {dirs : List CpuDir} (hnames : ∀ dir ∈ dirs, dir.name.isSome)
    (state : Buckets × Bool) :
    ∃ seen, (dirs.map some).foldlM visit state =
      some (fill state.1 (keyed (entries dirs)), seen) := by
  induction dirs generalizing state with
  | nil => exact ⟨state.2, rfl⟩
  | cons dir dirs ih =>
      obtain ⟨hname, hrest⟩ := List.forall_mem_cons.mp hnames
      obtain ⟨seen, hvisit⟩ := visit_some state hname
      obtain ⟨seen', hfold⟩ := ih hrest (fill state.1 (keyed (entries [dir])), seen)
      refine ⟨seen', ?_⟩
      rw [List.map_cons, List.foldlM_cons, hvisit, keyed_entries_cons dir dirs, fill_append]
      exact hfold

/-! ## The buckets -/

/-- With every cpu once, a bucket has the cpus under its key in the order of the listing, and there
is none for a key without cpus. -/
lemma lookup_fill {ps : List (ℕ × ℕ)} (hnodup : (ps.map Prod.snd).Nodup) (k : ℕ) :
    (fill .empty ps).lookup k = if valuesAt ps k = [] then none else some (valuesAt ps k) := by
  induction ps using List.reverseRecOn generalizing k with
  | nil => rfl
  | append_singleton ps p ih =>
      rw [List.map_append, List.map_singleton, List.nodup_append] at hnodup
      obtain ⟨hps, -, hnew⟩ := hnodup
      have hbucket : ((fill .empty ps).lookup p.1).getD [] = valuesAt ps p.1 := by
        rw [ih hps p.1]
        by_cases hnil : valuesAt ps p.1 = []
        · rw [if_pos hnil, hnil]
          rfl
        · rw [if_neg hnil, Option.getD_some]
      have hcontains : (valuesAt ps p.1).contains p.2 = false := by
        rw [List.contains_eq_mem, decide_eq_false_iff_not, mem_valuesAt]
        intro hmem
        exact hnew p.2 (List.mem_map_of_mem hmem) p.2 (List.mem_singleton_self _) rfl
      have hfill : fill .empty (ps ++ [p]) = addCpu (fill .empty ps) p.1 p.2 :=
        fill_append .empty ps [p]
      rw [hfill, addCpu, SortedMap.lookup_upsert, hbucket, hcontains,
        valuesAt_append_singleton]
      by_cases hk : k = p.1
      · rw [if_pos hk, if_pos hk, hk]
        simp
      · rw [if_neg hk, if_neg hk, ih hps k]

/-- The buckets of a listing: under each least cpu the cpus with it, if there are any. -/
lemma mem_entries_fill {ps : List (ℕ × ℕ)} (hnodup : (ps.map Prod.snd).Nodup)
    {e : Sigma fun _ : ℕ => List ℕ} :
    e ∈ (fill .empty ps).entries ↔ e.2 = valuesAt ps e.1 ∧ e.2 ≠ [] := by
  rw [SortedMap.mem_entries, lookup_fill hnodup]
  by_cases hnil : valuesAt ps e.1 = []
  · rw [if_pos hnil, hnil]
    exact ⟨fun h => (by cases h), fun h => absurd h.1 h.2⟩
  · rw [if_neg hnil]
    constructor
    · intro h
      rw [← Option.some.inj h]
      exact ⟨rfl, hnil⟩
    · intro h
      rw [h.1]

/-! ## Any order of the listing -/

/-- The shards, with the buckets sorted before they are numbered. -/
def number (m : Buckets) : Topology :=
  ⟨m.entries.zipIdx.map fun e => ⟨u32OrMax e.2, e.1.2⟩⟩

/-- The shards are the sorted buckets, numbered. -/
lemma ofBuckets_eq_number (m : Buckets) :
    ofBuckets m = number (m.mapValues fun cpus => cpus.insertionSort (· ≤ ·)) := by
  rw [ofBuckets, number, SortedMap.mapValues, List.zipIdx_map, List.map_map]
  rfl

/-- Sorting forgets the order. -/
lemma insertionSort_eq_of_perm {l l' : List ℕ} (h : l.Perm l') :
    l.insertionSort (· ≤ ·) = l'.insertionSort (· ≤ ·) := by
  have hperm : (l.insertionSort (· ≤ ·)).Perm (l'.insertionSort (· ≤ ·)) :=
    (List.perm_insertionSort _ l).trans (h.trans (List.perm_insertionSort _ l').symm)
  exact hperm.eq_of_pairwise' (List.pairwise_insertionSort _ l) (List.pairwise_insertionSort _ l')

/-- The order of the pairs does not matter. -/
lemma ofBuckets_fill_perm {ps ps' : List (ℕ × ℕ)} (hnodup : (ps.map Prod.snd).Nodup)
    (hperm : ps.Perm ps') : ofBuckets (fill .empty ps) = ofBuckets (fill .empty ps') := by
  have hnodup' : (ps'.map Prod.snd).Nodup := (hperm.map Prod.snd).nodup_iff.mp hnodup
  rw [ofBuckets_eq_number, ofBuckets_eq_number]
  refine congrArg number (SortedMap.ext_lookup fun k => ?_)
  have hvalues : (valuesAt ps k).Perm (valuesAt ps' k) := (hperm.filter _).map _
  rw [SortedMap.lookup_mapValues, SortedMap.lookup_mapValues, lookup_fill hnodup,
    lookup_fill hnodup']
  by_cases hnil : valuesAt ps k = []
  · have hnil' : valuesAt ps' k = [] := by
      rw [hnil] at hvalues
      exact hvalues.nil_eq.symm
    rw [if_pos hnil, if_pos hnil']
  · have hnil' : valuesAt ps' k ≠ [] := fun h => hnil (List.perm_nil.mp (h ▸ hvalues))
    rw [if_neg hnil, if_neg hnil', Option.map_some, Option.map_some,
      insertionSort_eq_of_perm hvalues]

/-- The discovery on a listing that can be read and has a cpu with a shared list. -/
lemma detectIn_eq {dirs : List CpuDir} (hnames : ∀ dir ∈ dirs, dir.name.isSome)
    (hnodup : ((entries dirs).map Prod.fst).Nodup) (hne : keyed (entries dirs) ≠ []) :
    detectIn (some (dirs.map some)) = some (ofBuckets (fill .empty (keyed (entries dirs)))) := by
  obtain ⟨seen, hfold⟩ := foldlM_visit hnames (.empty, false)
  have hentries : (fill .empty (keyed (entries dirs))).entries.isEmpty = false := by
    obtain ⟨p, hp⟩ := List.exists_mem_of_ne_nil _ hne
    have hvalue : p.2 ∈ valuesAt (keyed (entries dirs)) p.1 := mem_valuesAt.mpr hp
    have hmem := (mem_entries_fill (nodup_keyed hnodup)
      (e := ⟨p.1, valuesAt (keyed (entries dirs)) p.1⟩)).mpr ⟨rfl, List.ne_nil_of_mem hvalue⟩
    cases h : (fill .empty (keyed (entries dirs))).entries with
    | nil =>
        rw [h] at hmem
        cases hmem
    | cons e es => rfl
  simp only [detectIn, Option.bind_eq_bind, Option.bind_some, hfold, hentries, Bool.false_eq_true,
    if_false]

/-! ## The shards partition the cpus -/

/-- What a topology is to the cpus it was discovered from: its shards are numbered from zero on, and
they are the classes of the cpus with a shared list that is not empty, two of them together if the
least cpus of their lists are the same. -/
structure Partitions (t : Topology) (es : List (ℕ × Option (List ℕ))) : Prop where
  shardIds : t.shards.map (·.shardId) = List.range t.shardCount
  nonempty : ∀ s ∈ t.shards, s.cpus ≠ []
  ascending : ∀ s ∈ t.shards, s.cpus.Pairwise (· < ·)
  unique : ∀ cpu shared, (cpu, some shared) ∈ es → shared ≠ [] →
    ∃! s, s ∈ t.shards ∧ cpu ∈ s.cpus
  only : ∀ s ∈ t.shards, ∀ cpu ∈ s.cpus, ∃ shared, (cpu, some shared) ∈ es ∧ shared ≠ []
  together : ∀ cpu shared cpu' shared', (cpu, some shared) ∈ es → shared ≠ [] →
    (cpu', some shared') ∈ es → shared' ≠ [] →
      ((∃ s ∈ t.shards, cpu ∈ s.cpus ∧ cpu' ∈ s.cpus) ↔ shared.min? = shared'.min?)

section Partition

variable {m : Buckets}

/-- The shards are the buckets, numbered in the order of their keys. -/
lemma mem_shards_ofBuckets {s : Shard} : s ∈ (ofBuckets m).shards ↔
    ∃ i e, m.entries[i]? = some e ∧ s = ⟨u32OrMax i, e.2.insertionSort (· ≤ ·)⟩ := by
  rw [ofBuckets, List.mem_map]
  constructor
  · rintro ⟨⟨e, i⟩, he, rfl⟩
    exact ⟨i, e, List.mem_zipIdx_iff_getElem?.mp he, rfl⟩
  · rintro ⟨i, e, he, rfl⟩
    exact ⟨(e, i), List.mem_zipIdx_iff_getElem?.mpr he, rfl⟩

/-- Keys below `2 ^ 32` number the shards without gaps. -/
lemma shardIds_ofBuckets (hkeys : ∀ e ∈ m.entries, e.1 < u32Mod) :
    (ofBuckets m).shards.map (·.shardId) = List.range (ofBuckets m).shardCount := by
  have hcount : m.entries.length ≤ u32Mod := by
    have hsub : m.entries.keys ⊆ List.range u32Mod := by
      intro k hk
      obtain ⟨e, he, rfl⟩ := List.mem_map.mp hk
      exact List.mem_range.mpr (hkeys e he)
    have hle := (m.nodupKeys.subperm hsub).length_le
    rwa [List.length_range, List.keys, List.length_map] at hle
  have hlength : (ofBuckets m).shardCount = m.entries.length := by
    rw [shardCount, ofBuckets, List.length_map, List.length_zipIdx]
  have hids : (ofBuckets m).shards.map (·.shardId) =
      (m.entries.zipIdx.map Prod.snd).map u32OrMax := by
    rw [ofBuckets, List.map_map, List.map_map]
    rfl
  rw [hids, hlength, List.zipIdx_map_snd, ← List.range_eq_range']
  refine (List.map_congr_left fun i hi => ?_).trans (List.map_id _)
  exact if_pos ((List.mem_range.mp hi).trans_le hcount)

variable {es : List (ℕ × Option (List ℕ))}

/-- A shard of a discovery has a key, and consists of the cpus with it. -/
lemma exists_key (hnodup : (es.map Prod.fst).Nodup) {s : Shard}
    (hs : s ∈ (ofBuckets (fill .empty (keyed es))).shards) :
    ∃ i e, (fill .empty (keyed es)).entries[i]? = some e ∧
      s = ⟨u32OrMax i, e.2.insertionSort (· ≤ ·)⟩ ∧ e.2 ≠ [] ∧
      ∀ cpu, cpu ∈ s.cpus ↔ (e.1, cpu) ∈ keyed es := by
  obtain ⟨i, e, he, rfl⟩ := mem_shards_ofBuckets.mp hs
  obtain ⟨hvalues, hne⟩ := (mem_entries_fill (nodup_keyed hnodup)).mp (List.mem_of_getElem? he)
  refine ⟨i, e, he, rfl, hne, fun cpu => ?_⟩
  rw [← mem_valuesAt, ← hvalues]
  exact List.mem_insertionSort _

/-- Every key has a shard. -/
lemma exists_shard (hnodup : (es.map Prod.fst).Nodup) {k cpu : ℕ} (hk : (k, cpu) ∈ keyed es) :
    ∃ s ∈ (ofBuckets (fill .empty (keyed es))).shards, ∀ c, c ∈ s.cpus ↔ (k, c) ∈ keyed es := by
  have hne : valuesAt (keyed es) k ≠ [] := List.ne_nil_of_mem (mem_valuesAt.mpr hk)
  have hmem := (mem_entries_fill (nodup_keyed hnodup) (e := ⟨k, valuesAt (keyed es) k⟩)).mpr
    ⟨rfl, hne⟩
  obtain ⟨i, hi⟩ := List.getElem?_of_mem hmem
  refine ⟨_, mem_shards_ofBuckets.mpr ⟨i, _, hi, rfl⟩, fun c => ?_⟩
  rw [← mem_valuesAt]
  exact List.mem_insertionSort _

/-- A cpu has one key. -/
lemma key_unique (hnodup : (es.map Prod.fst).Nodup) {k k' cpu : ℕ} (hk : (k, cpu) ∈ keyed es)
    (hk' : (k', cpu) ∈ keyed es) : k = k' := by
  have heq := List.inj_on_of_nodup_map (nodup_keyed hnodup) hk hk' rfl
  exact congrArg Prod.fst heq

/-- Shards that share a cpu are the same. -/
lemma shard_unique (hnodup : (es.map Prod.fst).Nodup) {s s' : Shard}
    (hs : s ∈ (ofBuckets (fill .empty (keyed es))).shards)
    (hs' : s' ∈ (ofBuckets (fill .empty (keyed es))).shards) {cpu : ℕ} (hcpu : cpu ∈ s.cpus)
    (hcpu' : cpu ∈ s'.cpus) : s = s' := by
  obtain ⟨i, e, he, rfl, -, hmem⟩ := exists_key hnodup hs
  obtain ⟨i', e', he', rfl, -, hmem'⟩ := exists_key hnodup hs'
  have hkey : e.1 = e'.1 := key_unique hnodup ((hmem cpu).mp hcpu) ((hmem' cpu).mp hcpu')
  have hkeys := (fill .empty (keyed es)).nodupKeys
  obtain rfl : i = i' := by
    have hi : (fill .empty (keyed es)).entries.keys[i]? = some e.1 := by
      rw [List.keys, List.getElem?_map, he, Option.map_some]
    have hi' : (fill .empty (keyed es)).entries.keys[i']? = some e.1 := by
      rw [List.keys, List.getElem?_map, he', Option.map_some, hkey]
    exact (List.getElem?_inj (List.getElem?_eq_some_iff.mp hi).1 hkeys).mp (hi.trans hi'.symm)
  rw [he] at he'
  cases he'
  rfl

/-- **The discovery partitions the cpus.** -/
theorem partitions_ofBuckets (hnodup : (es.map Prod.fst).Nodup)
    (hbound : ∀ cpu shared, (cpu, some shared) ∈ es → ∀ c ∈ shared, c < u32Mod) :
    (ofBuckets (fill .empty (keyed es))).Partitions es where
  shardIds := by
    refine shardIds_ofBuckets fun e he => ?_
    obtain ⟨hvalues, hne⟩ := (mem_entries_fill (nodup_keyed hnodup)).mp he
    obtain ⟨cpu, hcpu⟩ := List.exists_mem_of_ne_nil _ hne
    rw [hvalues, mem_valuesAt, mem_keyed] at hcpu
    obtain ⟨shared, hshared, hmin⟩ := hcpu
    exact hbound cpu shared hshared e.1 (List.min?_mem hmin)
  nonempty s hs := by
    obtain ⟨i, e, he, rfl, hne, hmem⟩ := exists_key hnodup hs
    obtain ⟨cpu, hcpu⟩ := List.exists_mem_of_ne_nil _ hne
    exact List.ne_nil_of_mem ((List.mem_insertionSort _).mpr hcpu)
  ascending s hs := by
    obtain ⟨i, e, he, rfl, -, -⟩ := exists_key hnodup hs
    obtain ⟨hvalues, -⟩ := (mem_entries_fill (nodup_keyed hnodup)).mp (List.mem_of_getElem? he)
    have hdistinct : e.2.Nodup := by
      rw [hvalues]
      exact (nodup_keyed hnodup).sublist (List.filter_sublist.map _)
    have hsorted := List.pairwise_insertionSort (· ≤ ·) e.2
    have hnodup' := (List.perm_insertionSort (· ≤ ·) e.2).nodup_iff.mpr hdistinct
    exact (hsorted.and hnodup').imp fun h => lt_of_le_of_ne h.1 h.2
  unique cpu shared hcpu hne := by
    obtain ⟨k, -, hkey⟩ := exists_mem_keyed hcpu hne
    obtain ⟨s, hs, hmem⟩ := exists_shard hnodup hkey
    have hin : cpu ∈ s.cpus := (hmem cpu).mpr hkey
    exact ⟨s, ⟨hs, hin⟩, fun s' h' => shard_unique hnodup h'.1 hs h'.2 hin⟩
  only s hs cpu hcpu := by
    obtain ⟨i, e, -, -, -, hmem⟩ := exists_key hnodup hs
    obtain ⟨shared, hshared, hmin⟩ := mem_keyed.mp ((hmem cpu).mp hcpu)
    exact ⟨shared, hshared, List.ne_nil_of_mem (List.min?_mem hmin)⟩
  together cpu shared cpu' shared' hcpu hne hcpu' hne' := by
    obtain ⟨k, hk, hkey⟩ := exists_mem_keyed hcpu hne
    obtain ⟨k', hk', hkey'⟩ := exists_mem_keyed hcpu' hne'
    rw [hk, hk', Option.some.injEq]
    constructor
    · rintro ⟨s, hs, hin, hin'⟩
      obtain ⟨i, e, -, -, -, hmem⟩ := exists_key hnodup hs
      exact (key_unique hnodup hkey ((hmem cpu).mp hin)).trans
        (key_unique hnodup ((hmem cpu').mp hin') hkey')
    · rintro rfl
      obtain ⟨s, hs, hmem⟩ := exists_shard hnodup hkey
      exact ⟨s, hs, (hmem cpu).mpr hkey, (hmem cpu').mpr hkey'⟩

end Partition

/-! ## Whatever is listed -/

/-- Every key is a cpu of a list that was read. -/
lemma key_lt_of_visit {state state' : Buckets × Bool} {dir : Option CpuDir}
    (hkeys : ∀ e ∈ state.1.entries, e.1 < u32Mod) (h : visit state dir = some state') :
    ∀ e ∈ state'.1.entries, e.1 < u32Mod := by
  obtain ⟨dir, rfl, h⟩ := Option.bind_eq_some_iff.mp h
  obtain ⟨name, -, h⟩ := Option.bind_eq_some_iff.mp h
  split at h
  · cases h
    exact hkeys
  · split at h
    · cases h
      exact hkeys
    · rename_i shared hshared
      split at h
      · cases h
        exact hkeys
      · rename_i canonical hmin
        cases h
        intro e he
        rcases SortedMap.key_of_mem_upsertList he with hkey | he
        · rw [hkey]
          exact lt_of_readL3SharedList hshared (List.min?_mem hmin)
        · exact hkeys e he

/-- The bucket keys are `u32`. -/
lemma key_lt_of_foldlM_visit {dirs : List (Option CpuDir)} {state state' : Buckets × Bool}
    (hkeys : ∀ e ∈ state.1.entries, e.1 < u32Mod) (h : dirs.foldlM visit state = some state') :
    ∀ e ∈ state'.1.entries, e.1 < u32Mod := by
  induction dirs generalizing state with
  | nil =>
      cases h
      exact hkeys
  | cons dir dirs ih =>
      rw [List.foldlM_cons] at h
      obtain ⟨next, hvisit, h⟩ := Option.bind_eq_some_iff.mp h
      exact ih (key_lt_of_visit hkeys hvisit) h

/-- Whatever is listed, distinct ids or not, a topology that is discovered numbers its shards
without gaps. -/
lemma shardIds_of_detectIn {cpuRoot : Option (List (Option CpuDir))} {t : Topology}
    (h : detectIn cpuRoot = some t) : t.shards.map (·.shardId) = List.range t.shardCount := by
  obtain ⟨dirs, rfl, h⟩ := Option.bind_eq_some_iff.mp h
  obtain ⟨⟨m, seen⟩, hfold, h⟩ := Option.bind_eq_some_iff.mp h
  dsimp only at h
  split_ifs at h
  cases h
  exact shardIds_ofBuckets (key_lt_of_foldlM_visit (by simp [SortedMap.empty]) hfold)

end Topology

end Aulon.Core
