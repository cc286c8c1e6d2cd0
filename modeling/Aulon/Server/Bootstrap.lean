import Aulon.Core.Topology
import Aulon.Lib.Checked

/-!
# The start of the shards

`main` decides on a topology, makes the reader of an eventfd for each shard, and starts a worker for
each shard with the reader at the index of its id. Indexing the readers, and taking a reader that
is not there any more, would stop the broker before it serves anyone.

* `chooseTopology` — the topology: forced, discovered, or a single shard.
* `startShards` — what the workers are started with.
* `startShards_eq` — shards that are numbered without gaps get a reader each.
* `detection_order_irrelevant` — the discovery partitions the cpus, whatever the order of the
  listing, and its shards can be started.
* `startShards_main` — `main` never stops here.

Source: `aulon-server/src/main.rs`, `main`.
-/

namespace Aulon.Server

open Aulon.Lib Aulon.Core

/-! ## The topology -/

/-- Source: `main.rs`, `synthetic_topology` -/
def syntheticTopology (n : ℕ) : Topology := ⟨(List.range n).map fun i => ⟨i, [i]⟩⟩

/-- The topology `main` works with; a number of shards in the environment overrides the discovery.
Source: `main.rs`, `main` -/
def chooseTopology (forceShards : Option Text) (cpuRoot : Option (List (Option CpuDir)))
    (availableParallelism : Option ℕ) : Topology :=
  match (forceShards.bind parseU32).filter (0 < ·) with
  | some forced => syntheticTopology forced
  | none => Topology.detect cpuRoot availableParallelism

/-! ## The workers -/

variable {ρ : Type}

/-- What a worker is started with.
Source: `main.rs`, `worker_main` -/
structure WorkerStart (ρ : Type) where
  shardId : ℕ
  cpuId : Option ℕ
  reader : ρ
deriving DecidableEq, Repr

/-- The worker of a shard, with a reader. -/
def workerStart (shard : Topology.Shard) (reader : ρ) : WorkerStart ρ :=
  ⟨shard.shardId, shard.cpus.head?, reader⟩

/-- Take the reader at an index; it is expected to be there.
Source: `main.rs`, `main` -/
def takeReader (readers : List (Option ρ)) (i : ℕ) : Checked (ρ × List (Option ρ)) := do
  let slot ← Checked.get readers i
  let reader ← Checked.expect slot
  let readers ← Checked.set readers i none
  return (reader, readers)

/-- One round of the loop over the shards.
Source: `main.rs`, `main` -/
def spawnShard (state : List (Option ρ) × List (WorkerStart ρ)) (shard : Topology.Shard) :
    Checked (List (Option ρ) × List (WorkerStart ρ)) := do
  let (reader, readers) ← takeReader state.1 shard.shardId
  return (readers, state.2 ++ [workerStart shard reader])

/-- The workers `main` starts; a single one runs on the main thread.
Source: `main.rs`, `main` -/
def startShards (topology : Topology) (readers : List ρ) : Checked (List (WorkerStart ρ)) :=
  if topology.shardCount = 1 then do
    let shard ← Checked.expect topology.shards.head?
    let (reader, _) ← takeReader (readers.map some) 0
    return [workerStart shard reader]
  else do
    let (_, handles) ← topology.shards.foldlM spawnShard (readers.map some, [])
    return handles

/-- A reader that is still there is taken, and its place is empty then. -/
lemma takeReader_eq (before : List (Option ρ)) (reader : ρ) (after : List (Option ρ)) :
    takeReader (before ++ some reader :: after) before.length =
      .ok (reader, before ++ none :: after) := by
  have hget : (before ++ some reader :: after)[before.length]? = some (some reader) := by simp
  have hset : (before ++ some reader :: after).set before.length none =
      before ++ none :: after := by simp
  rw [takeReader, Checked.bind_ok (Checked.get_eq hget)]
  have hexpect : Checked.expect (some reader) = .ok reader := rfl
  rw [Checked.bind_ok hexpect, Checked.bind_ok (Checked.set_eq (by simp) none), hset]
  rfl

/-- The loop, from the shard with the number `k` on: the readers before it are taken. -/
lemma foldlM_spawnShard {shards : List Topology.Shard} {readers : List ρ} {k : ℕ}
    (hids : shards.map (·.shardId) = List.range' k shards.length)
    (hlen : readers.length = shards.length) (handles : List (WorkerStart ρ)) :
    shards.foldlM spawnShard (List.replicate k none ++ readers.map some, handles) =
      .ok (List.replicate (k + shards.length) none,
        handles ++ List.zipWith workerStart shards readers) := by
  induction shards generalizing readers k handles with
  | nil =>
      obtain rfl : readers = [] := List.length_eq_zero_iff.mp hlen
      simp only [List.foldlM_nil, List.map_nil, List.append_nil, List.length_nil, add_zero,
        List.zipWith_nil_left]
      rfl
  | cons shard shards ih =>
      obtain ⟨reader, readers, rfl⟩ := List.exists_cons_of_length_eq_add_one hlen
      rw [List.map_cons, List.length_cons, List.range'_succ, List.cons.injEq] at hids
      obtain ⟨rfl, hids⟩ := hids
      have htake := takeReader_eq (List.replicate shard.shardId none) reader (readers.map some)
      rw [List.length_replicate] at htake
      have hspawn : spawnShard (List.replicate shard.shardId none ++ (reader :: readers).map some,
          handles) shard = .ok (List.replicate (shard.shardId + 1) none ++ readers.map some,
            handles ++ [workerStart shard reader]) := by
        rw [spawnShard, List.map_cons]
        dsimp only
        rw [Checked.bind_ok htake, List.replicate_succ', List.append_assoc]
        rfl
      rw [List.foldlM_cons, Checked.bind_ok hspawn, ih hids (Nat.succ.inj hlen),
        List.length_cons, List.zipWith_cons_cons, List.append_assoc, Nat.add_right_comm, add_assoc]
      rfl

/-- **Shards that are numbered without gaps get a reader each.** -/
theorem startShards_eq {topology : Topology}
    (hids : topology.shards.map (·.shardId) = List.range topology.shardCount)
    {readers : List ρ} (hlen : readers.length = topology.shardCount) :
    startShards topology readers =
      .ok (List.zipWith workerStart topology.shards readers) := by
  unfold startShards
  split_ifs with hone
  · obtain ⟨shard, hshards⟩ := List.length_eq_one_iff.mp hone
    obtain ⟨reader, rfl⟩ := List.length_eq_one_iff.mp (hlen.trans hone)
    have hexpect : Checked.expect topology.shards.head? = .ok shard := by
      rw [hshards]
      rfl
    have htake : takeReader ([reader].map some) 0 = .ok (reader, [none]) :=
      takeReader_eq [] reader []
    rw [Checked.bind_ok hexpect, Checked.bind_ok htake, hshards]
    rfl
  · rw [List.range_eq_range'] at hids
    have hloop := foldlM_spawnShard hids hlen []
    rw [List.replicate_zero, List.nil_append, List.nil_append] at hloop
    rw [Checked.bind_ok hloop]
    rfl

/-! ## The discovery and the start -/

/-- **The order of the listing does not matter.** Take a listing of the root that can be read, with
distinct cpu ids and a cpu whose L3 cache has a shared list that is not empty, and another one with
the same cpus in any order. The discovery gives the same topology on both: its shards are numbered
`0..n` in order, and partition the cpus that have a shared list by the least cpu of that list. So
`main` finds a reader for every shard. -/
theorem detection_order_irrelevant {dirs dirs' : List CpuDir}
    (hnames : ∀ dir ∈ dirs, dir.name.isSome) (hnames' : ∀ dir ∈ dirs', dir.name.isSome)
    (hnodup : ((Topology.entries dirs).map Prod.fst).Nodup)
    (hshared : ∃ cpu shared, (cpu, some shared) ∈ Topology.entries dirs ∧ shared ≠ [])
    (hperm : (Topology.entries dirs').Perm (Topology.entries dirs)) :
    ∃ t : Topology, Topology.detectIn (some (dirs.map some)) = some t ∧
      Topology.detectIn (some (dirs'.map some)) = some t ∧
      t.Partitions (Topology.entries dirs) ∧
      ∀ readers : List ρ, readers.length = t.shardCount →
        startShards t readers = .ok (List.zipWith workerStart t.shards readers) := by
  obtain ⟨cpu, shared, hmem, hne⟩ := hshared
  obtain ⟨k, -, hkeyed⟩ := Topology.exists_mem_keyed hmem hne
  have hkeyed' := (hperm.filterMap _).mem_iff.mpr hkeyed
  have hnodup' := (hperm.map Prod.fst).nodup_iff.mpr hnodup
  have hdetect := Topology.detectIn_eq hnames hnodup (List.ne_nil_of_mem hkeyed)
  have hdetect' := Topology.detectIn_eq hnames' hnodup' (List.ne_nil_of_mem hkeyed')
  rw [Topology.ofBuckets_fill_perm (Topology.nodup_keyed hnodup') (hperm.filterMap _)] at hdetect'
  have hpartitions := Topology.partitions_ofBuckets hnodup fun _ _ => Topology.lt_of_mem_entries
  exact ⟨_, hdetect, hdetect', hpartitions, fun _ hlen => startShards_eq hpartitions.shardIds hlen⟩

/-- A machine with two L3 domains, and a directory that is not a cpu's, listed in two orders: the
same two shards, and each gets its reader. -/
theorem detection_order_irrelevant_two_domains :
    let cpu : String → String → CpuDir := fun name shared =>
      ⟨some name.toList, some [
        some ⟨some "index0".toList, some "1\n".toList, none⟩,
        some ⟨some "index3".toList, some "3\n".toList, some shared.toList⟩]⟩
    let dirs : List CpuDir := [cpu "cpu0" "0-1\n", cpu "cpu1" "0-1\n", cpu "cpu10" "2,10\n",
      cpu "cpu2" "2,10\n", ⟨some "cpufreq".toList, none⟩]
    let t : Topology := ⟨[⟨0, [0, 1]⟩, ⟨1, [2, 10]⟩]⟩
    Topology.detectIn (some (dirs.reverse.map some)) = some t ∧
      t.Partitions (Topology.entries dirs) ∧
      startShards t ["first", "second"] = .ok [⟨0, some 0, "first"⟩, ⟨1, some 2, "second"⟩] := by
  intro cpu dirs t
  have hnames : ∀ dir ∈ dirs, dir.name.isSome := by decide +kernel
  have hnames' : ∀ dir ∈ dirs.reverse, dir.name.isSome := by decide +kernel
  have hnodup : ((Topology.entries dirs).map Prod.fst).Nodup := by decide +kernel
  have hshared : (0, some [0, 1]) ∈ Topology.entries dirs := by decide +kernel
  have hperm : (Topology.entries dirs.reverse).Perm (Topology.entries dirs) :=
    (List.reverse_perm dirs).filterMap _
  obtain ⟨t', hdetect, hdetect', hpartitions, hstart⟩ := detection_order_irrelevant (ρ := String)
    hnames hnames' hnodup ⟨0, [0, 1], hshared, by decide⟩ hperm
  have ht : Topology.detectIn (some (dirs.map some)) = some t := by decide +kernel
  obtain rfl : t' = t := Option.some.inj (hdetect.symm.trans ht)
  exact ⟨hdetect', hpartitions, hstart ["first", "second"] rfl⟩

/-- **`main` never stops at the readers.** Whatever the environment asks for and whatever is found
below the root, with a reader for each shard all shards are started. -/
theorem startShards_main (forceShards : Option Text) (cpuRoot : Option (List (Option CpuDir)))
    (availableParallelism : Option ℕ) {readers : List ρ}
    (hlen : readers.length =
      (chooseTopology forceShards cpuRoot availableParallelism).shardCount) :
    startShards (chooseTopology forceShards cpuRoot availableParallelism) readers =
      .ok (List.zipWith workerStart
        (chooseTopology forceShards cpuRoot availableParallelism).shards readers) := by
  refine startShards_eq ?_ hlen
  unfold chooseTopology
  split
  · simp [syntheticTopology, Topology.shardCount, Function.comp_def]
  · unfold Topology.detect
    cases hdetect : Topology.detectIn cpuRoot with
    | none => rfl
    | some t => exact Topology.shardIds_of_detectIn hdetect

end Aulon.Server
