import Aulon.Core.TrieEquality
import Aulon.Server.Steps

/-!
# The tries of the broker

Whatever the tasks of a broker do, they change the trie of a worker only by calls of `subscribe` and
`unsubscribe`. So the tries of a run are those that such calls can reach, and what holds of these
holds in every run.

* `Worker.Called w w'` — the trie of `w'` is that of `w` after some calls.
* `table_run` — in every run every trie is an empty one after some calls.
* `pruned_table` — so no trie ever has a dead node.
* `exit_order_irrelevant` — and the end of a reader comes to the same in whatever order its map of
  subscriptions is iterated.
-/

namespace Aulon.Server

open Aulon.Lib Aulon.Core Aulon.Proto

variable {n : ℕ}

namespace Worker

/-- The trie of a worker is that of another one, after some calls. -/
def Called (w w' : Worker) : Prop :=
  ∃ ops, w'.table = (exec SubscriptionTrie.apply w.table ops).1

variable {w w' w'' : Worker}

/-- A trie that stays needs no call. -/
lemma Called.of_table (h : w'.table = w.table) : w.Called w' := ⟨[], h⟩

/-- What keeps the core keeps the trie. -/
lemma Called.of_core (h : w'.core = w.core) : w.Called w' := .of_table (table_of_core h)

/-- Calls compose. -/
lemma Called.trans (h : w.Called w') (h' : w'.Called w'') : w.Called w'' := by
  obtain ⟨ops, hops⟩ := h
  obtain ⟨ops', hops'⟩ := h'
  exact ⟨ops ++ ops', by rw [hops', hops, exec_append]⟩

/-- A `SUB` makes one call, or two. -/
lemma called_handleSub (w : Worker) (r : ConnRef) (c : Connection) (subject : Bytes)
    (queueGroup : Option Bytes) (sid : Bytes) :
    w.Called (w.handleSub r c subject queueGroup sid) := by
  unfold handleSub
  cases hsub : w.table.subscribe subject ⟨c.state.id, sid, queueGroup⟩ with
  | error e => exact .of_core (core_emitErrTo w r (subjectErrorText e))
  | ok table =>
      refine ⟨[.subscribe subject ⟨c.state.id, sid, queueGroup⟩], ?_⟩
      simp only [exec, SubscriptionTrie.apply, hsub]

/-- An `UNSUB` makes one call, or none. -/
lemma called_handleUnsub (w : Worker) (r : ConnRef) (c : Connection) (sid : Bytes)
    (maxMsgs : Option UInt64) : w.Called (w.handleUnsub r c sid maxMsgs) := by
  unfold handleUnsub
  split_ifs
  · exact .of_core (core_emitErrTo w r (ascii "UNSUB max_msgs not supported in v1"))
  · cases c.subscriptions.lookup sid with
    | none => exact .of_table rfl
    | some subject => exact ⟨[.unsubscribe subject c.state.id sid], rfl⟩

/-- A command makes the calls of its handler. -/
lemma called_handleCommand (w : Worker) (r : ConnRef) (c : Connection) (f : Frame) :
    w.Called (w.handleCommand r c f) := by
  cases f with
  | connect options | pong | pub subject replyTo payload => exact .of_table rfl
  | ping => exact .of_core (extends_handlePing w r).core
  | sub subject queueGroup sid => exact called_handleSub w r c subject queueGroup sid
  | unsub sid maxMsgs => exact called_handleUnsub w r c sid maxMsgs
  | msg subject sid replyTo payload | info options | ok | err message =>
      exact .of_core (core_emitErrTo w r (ascii "unexpected verb"))

/-- The loop of the cleanup is the removal of all the pairs it yields. -/
lemma table_cleanup (w : Worker) (r : ConnRef) (c : Connection)
    (order : List (Sigma fun _ : Bytes => Bytes)) : (w.cleanup r c order).table =
      unsubscribeAll c.state.id (order.map fun e => (e.1, e.2)) w.table := by
  rw [unsubscribeAll, List.foldl_map]
  rfl

/-- The end of a reader makes one call for each of its subscriptions. -/
lemma called_cleanup (w : Worker) (r : ConnRef) (c : Connection)
    (order : List (Sigma fun _ : Bytes => Bytes)) : w.Called (w.cleanup r c order) := by
  refine ⟨order.map fun e => .unsubscribe e.2 c.state.id e.1, ?_⟩
  rw [table_cleanup]
  generalize w.table = trie
  induction order generalizing trie with
  | nil => rfl
  | cons e order ih => exact ih _

end Worker

/-- A piece of a task makes calls to the trie of its worker. -/
lemma Shard.called_run {s s' : Shard n} {i : Fin n} {t : Task} (h : s.run i t = some s') :
    s.worker.Called s'.worker := by
  have hrun := Shard.run_eq_some h
  cases t with
  | accept granted =>
      rw [hrun]
      cases granted with
      | true => exact .of_table rfl
      | false => exact .of_table rfl
  | greet r =>
      obtain ⟨c, -, -, rfl⟩ := hrun
      have hoffer := Worker.table_of_core (Worker.extends_offer s.worker r none
        (.info serverInfoJson) (encode (.info serverInfoJson))).core
      rw [Worker.greet_eq]
      exact .of_table hoffer
  | reject r =>
      obtain ⟨c, -, -, rfl⟩ := hrun
      exact .of_table rfl
  | send r buf =>
      obtain ⟨c, -, rfl⟩ := hrun
      exact .of_table rfl
  | exit r order =>
      obtain ⟨c, -, -, -, rfl⟩ := hrun
      exact s.worker.called_cleanup r c order
  | frame r f =>
      obtain ⟨c, -, -, rfl⟩ := hrun
      rcases s.worker_handleFrame i r c f with ⟨-, hext⟩ | hcommand
      · exact .of_core hext.core
      · rw [hcommand]
        exact s.worker.called_handleCommand r c f

/-- **Step lemma.** Every action makes calls to the tries, if it touches them at all. -/
lemma called_step {b b' : Broker n} {a : Action n} (hstep : step b a = some b') (i : Fin n) :
    (b.shards i).worker.Called (b'.shards i).worker := by
  rcases step_cases hstep i with ⟨t, rfl, hs⟩ | ⟨-, hext⟩
  · exact Shard.called_run hs
  · exact .of_core hext.core

variable {capacity : ℕ} {as : List (Action n)} {b : Broker n}

/-- **The tries of a run.** In every run of the broker, the trie of every worker is what some
sequence of calls makes of an empty one. -/
theorem table_run (hrun : run step (Broker.init n capacity) as = some b) (i : Fin n) :
    ∃ ops, (b.shards i).worker.table = (exec SubscriptionTrie.apply .new ops).1 := by
  have hcalled : ((Broker.init n capacity).shards i).worker.Called (b.shards i).worker :=
    run_invariant (I := fun b : Broker n =>
      ((Broker.init n capacity).shards i).worker.Called (b.shards i).worker)
      (fun _ _ _ h hstep => h.trans (called_step hstep i)) (.of_table rfl) hrun
  exact hcalled

/-- No trie of a run has a dead node. -/
theorem pruned_table (hrun : run step (Broker.init n capacity) as = some b) (i : Fin n) :
    (b.shards i).worker.table.root.Pruned := by
  obtain ⟨ops, hops⟩ := table_run hrun i
  rw [hops]
  exact pruned_exec ops

/-- **The end of a reader does not depend on the order of its map.** Two orders of iteration leave
the same trie, node by node and in the counter, and the same worker otherwise. -/
theorem exit_order_irrelevant (hrun : run step (Broker.init n capacity) as = some b) {i : Fin n}
    {r : ConnRef} {order order' : List (Sigma fun _ : Bytes => Bytes)} {b₁ b₂ : Broker n}
    (h₁ : step b (.task i (.exit r order)) = some b₁)
    (h₂ : step b (.task i (.exit r order')) = some b₂) :
    (b₁.shards i).worker.table.Same (b₂.shards i).worker.table ∧
      (b₂.shards i).worker =
        { (b₁.shards i).worker with table := (b₂.shards i).worker.table } := by
  obtain ⟨-, s₁, hs₁, rfl⟩ := step_eq_some h₁
  obtain ⟨-, s₂, hs₂, rfl⟩ := step_eq_some h₂
  obtain ⟨c, hc, -, horder, rfl⟩ := Shard.run_eq_some hs₁
  obtain ⟨c', hc', -, horder', rfl⟩ := Shard.run_eq_some hs₂
  obtain rfl : c = c' := Option.some.inj (hc.symm.trans hc')
  rw [shards_setShard_self, shards_setShard_self]
  refine ⟨?_, rfl⟩
  rw [Worker.table_cleanup, Worker.table_cleanup]
  exact same_unsubscribeAll c.state.id ((horder.trans horder'.symm).map _) (pruned_table hrun i)

end Aulon.Server
