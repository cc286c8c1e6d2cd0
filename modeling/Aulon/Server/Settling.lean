import Aulon.Server.Reading
import Aulon.Server.Writing
import Mathlib.Algebra.Order.BigOperators.Group.Finset
import Mathlib.Data.Prod.Lex

/-!
# The server settles

When the clients do nothing, the server does not go on forever. The readers take the bytes that have
arrived and make frames of them, which are fewer and fewer; for a given number of frames, the push
loops and the drain tasks move publications from shard to shard, each once; and when these have
come to an end, the writers empty the queues. So the rank of a state is the work of its readers,
then that of its push loops and drain tasks, and then that of its writers, in lexicographic order:
a frame costs its reader a part of its work, and what it makes for the others may be anything.

* `View.readWork`, `View.Moves.readWork_lt` — the work of a reader, which its moves lower.
* `Process.routeWork`, `routeWork_lt` — the work of the push loops and drain tasks.
* `Writer.work`, `Writer.work_lt` — the work of a writer.
* `Process.rank_lt` — what is not done by a client lowers the rank.
-/

namespace Aulon.Server

open Aulon.Lib Aulon.Core Aulon.Proto

variable {B : FixedBufPool} {n inboxCapacity poolCapacity : ℕ} {es : List (Event n)}
  {s s' t : Process B n} {e : Event n}
  {i : Fin n} {r : ConnRef} {v v' : View}

/-! ## Readers -/

/-- What a reader has to do, at most: a byte that was not read yet costs more than one that waits in
the accumulator. -/
def View.readWork (v : View) : ℕ :=
  let unread := v.link.socket.inbound.length
  let unparsed := v.link.reader.accum.length
  match v.link.reader.phase with
  | .starting => 5 * unread + 2 * unparsed + 2
  | .waiting => 5 * unread + 2 * unparsed + 1
  | .parsing consumedTotal => 5 * unread + 2 * (unparsed - consumedTotal) + 2
  | .checking consumedTotal => 5 * unread + 2 * (unparsed - consumedTotal) + 3
  | .finished => 0

namespace View

/-- What an offer leaves, offers leave. -/
lemma Offered.keeps {α : Type} {f : View → α} (hf : ∀ v o, f (v.offer o) = f v) {os : List Offer}
    (h : v.Offered os v') : f v' = f v :=
  h.invariant (I := fun w => f w = f v) (fun w o hw _ => (hf w o).trans hw) rfl

/-- An offer gives the reader no work. -/
lemma readWork_offer (v : View) (o : Offer) : (v.offer o).readWork = v.readWork := rfl

/-- A reader that has not returned has work. -/
lemma readWork_pos (h : v.link.reader.phase ≠ .finished) : 0 < v.readWork := by
  unfold readWork
  dsimp only
  split
  · omega
  · omega
  · omega
  · omega
  · exact absurd (by assumption) h

/-- Whatever a reader does, it has less to do afterwards. -/
lemma Moves.readWork_lt {failed : Bool} (h : v.Moves (.reader failed) v') :
    v'.readWork < v.readWork := by
  cases h with
  | start hphase =>
      show 5 * v.link.socket.inbound.length + 2 * v.link.reader.accum.length + 1 < _
      simp only [readWork, hphase]
      omega
  | read k hphase hpos hbuf hk hsize =>
      obtain ⟨-, haccum⟩ := received_afterRead (v := v) hk
      have hinbound : (v.link.afterRead k).socket.inbound = v.link.socket.inbound.drop k := by
        show v.link.socket.stream.drop (v.link.socket.taken + k) = _
        rw [← List.drop_drop]
        rfl
      show 5 * (v.link.afterRead k).socket.inbound.length +
        2 * ((v.link.afterRead k).reader.accum.length - 0) + 2 < _
      rw [haccum, hinbound]
      simp only [readWork, hphase, List.length_append, List.length_take, List.length_drop]
      omega
  | overflow k hphase | eof _ hphase | malformed k e hphase | roundClosed k hphase
  | checkClosed k hphase => exact readWork_pos (by simp [hphase])
  | frame consumedTotal f consumed hphase hparse =>
      obtain ⟨hpos, hle⟩ := incremental_parseFrame.progress hparse
      rw [List.length_drop] at hle
      show 5 * v.link.socket.inbound.length +
        2 * (v.link.reader.accum.length - (consumedTotal + consumed)) + 3 < _
      simp only [readWork, hphase]
      omega
  | round consumedTotal hphase =>
      show 5 * v.link.socket.inbound.length +
        2 * (v.link.reader.accum.drop consumedTotal).length + 1 < _
      simp only [readWork, hphase, List.length_drop]
      omega
  | check consumedTotal hphase =>
      show 5 * v.link.socket.inbound.length +
        2 * (v.link.reader.accum.length - consumedTotal) + 2 < _
      simp only [readWork, hphase]
      omega

/-- A move of the writer gives the reader no work. -/
lemma Moves.readWork_eq {failed : Bool} (h : v.Moves (.writer failed) v') :
    v'.readWork = v.readWork := by
  cases h
  rfl

end View

/-! ## Writers -/

/-- What is left of the way of a writer to the next wait, when nothing is pending. -/
def WriterPhase.weight : WriterPhase → ℕ
  | .spawned | .writing => 3
  | .woken => 2
  | .parked | .parting => 1
  | .exited => 0

namespace Writer

/-- What a writer has to do, at most. -/
def work (w : Writer) : ℕ :=
  2 * w.state.pending.length + w.phase.weight + w.state.notify.toNat

/-- What a writer that waits has to do. -/
lemma work_waitForEvent (w : Writer) :
    w.waitForEvent.work = 2 * w.state.pending.length + 1 + w.state.notify.toNat := by
  unfold work
  rw [pending_waitForEvent]
  unfold waitForEvent
  split_ifs with hpermit
  · simp only [hpermit, WriterPhase.weight, Bool.toNat_true, Bool.toNat_false]
  · rfl

/-- A writer that checks for a reason to close has no more to do than one that waits. -/
lemma work_checkClose_le (w : Writer) :
    w.checkClose.work ≤ 2 * w.state.pending.length + 1 + w.state.notify.toNat := by
  rcases w.checkClose_cases with ⟨-, hwait⟩ | ⟨reason, -, hstate, -, -, hphase, -⟩
  · rw [hwait, work_waitForEvent]
  · unfold work
    rw [hstate]
    rcases hphase with hphase | hphase <;> rw [hphase] <;> simp only [WriterPhase.weight] <;> omega

/-- A round of the drain loop: what it takes from the queue is worth the write. -/
lemma work_drain_le (w : Writer) :
    w.drain.work ≤ 2 * w.state.pending.length + 1 + w.state.notify.toNat := by
  have hpending := congrArg List.length (w.state.pending_drainInto w.buf)
  have hcount := (w.state.drainInto_eq w.buf).1
  have hnotify := notify_drainInto w.state w.buf
  rw [List.length_drop] at hpending
  unfold drain
  dsimp only
  split_ifs with hzero
  · refine (work_checkClose_le _).trans ?_
    dsimp only
    rw [hnotify, hpending]
    omega
  · unfold work
    dsimp only [WriterPhase.weight]
    rw [hnotify, hpending]
    omega

/-- Whatever a writer does by itself, it has less to do afterwards. -/
lemma work_lt {w w' : Writer} {a : Action} (ha : a = .poll ∨ ∃ ok, a = .written ok)
    (h : w.step a = some w') : w'.work < w.work := by
  have hs := step_eq_some h
  have hwork : w.work = 2 * w.state.pending.length + w.phase.weight + w.state.notify.toNat := rfl
  have hexit : ({ w with phase := .exited } : Writer).work =
    2 * w.state.pending.length + 0 + w.state.notify.toNat := rfl
  rcases ha with rfl | ⟨ok, rfl⟩
  · rcases hs with ⟨hphase, rfl⟩ | ⟨hphase, rfl⟩
    · rw [hwork, hphase, work_waitForEvent]
      simp only [WriterPhase.weight]
      omega
    · have hdrain := w.work_drain_le
      rw [hwork, hphase]
      simp only [WriterPhase.weight]
      omega
  · rcases hs with ⟨hphase, -, rfl⟩ | ⟨hphase, -, rfl⟩ | ⟨hphase, rfl⟩
    · have hdrain := w.work_drain_le
      rw [hwork, hphase]
      simp only [WriterPhase.weight]
      omega
    · rw [hwork, hphase, hexit]
      simp only [WriterPhase.weight]
      omega
    · rw [hwork, hphase, hexit]
      simp only [WriterPhase.weight]
      omega

end Writer

/-- What the writer of a connection has to do. -/
def View.writeWork (v : View) : ℕ := (v.link.writerOf v.state).work

/-- A move of the writer makes its work less. -/
lemma View.Moves.writeWork_lt {failed : Bool} (h : v.Moves (.writer failed) v') :
    v'.writeWork < v.writeWork := by
  cases h with
  | write _ a w ha _ hstep =>
      show w.work < _
      exact Writer.work_lt ha hstep

/-! ## Push loops and drain tasks -/

/-- What is left of the loop a shard is in: a push may fill an inbox and wake a drain task. -/
def Activity.weight : Activity n → ℕ
  | .idle => 0
  | .publishing _ todo => 4 * todo.length + 1
  | .draining => 1

/-- A sum that differs in one place. -/
lemma sum_add_of_ne {f g : Fin n → ℕ} (i : Fin n) (h : ∀ j ≠ i, g j = f j) :
    ∑ j, g j + f i = ∑ j, f j + g i := by
  have hf := Finset.add_sum_erase Finset.univ f (Finset.mem_univ i)
  have hg := Finset.add_sum_erase Finset.univ g (Finset.mem_univ i)
  have hrest : ∑ j ∈ Finset.univ.erase i, g j = ∑ j ∈ Finset.univ.erase i, f j :=
    Finset.sum_congr rfl fun j hj => h j (Finset.ne_of_mem_erase hj)
  omega

namespace Broker

variable (b b' : Broker n)

/-- What the push loops and the drain tasks have to do, at most, for the frames that were
handled. -/
def work : ℕ :=
  ∑ i, (b.shards i).activity.weight + ∑ i, (b.inboxes i).items.length + 2 * ∑ i, b.wakers i

variable {b b'}

/-- The activities of two brokers that differ in one shard. -/
lemma sum_weight_setShard (b : Broker n) (i : Fin n) (s : Shard n) :
    ∑ j, ((b.setShard i s).shards j).activity.weight + (b.shards i).activity.weight =
      ∑ j, (b.shards j).activity.weight + s.activity.weight := by
  have hsum := sum_add_of_ne (f := fun j => (b.shards j).activity.weight)
    (g := fun j => ((b.setShard i s).shards j).activity.weight) i
    fun j hj => by rw [shards_setShard_ne _ _ _ hj]
  rw [shards_setShard_self] at hsum
  exact hsum

/-- The sum after an update. -/
lemma sum_update (f : Fin n → ℕ) (i : Fin n) (x : ℕ) :
    ∑ j, Function.update f i x j + f i = ∑ j, f j + x := by
  have hsum := sum_add_of_ne (f := f) (g := Function.update f i x) i
    fun j hj => Function.update_of_ne hj _ _
  rw [Function.update_self] at hsum
  exact hsum

/-- The frames in the inboxes after one inbox was changed. -/
lemma sum_length_update (b : Broker n) (i : Fin n) (q : BoundedQueue (Parcel n)) :
    ∑ j, (Function.update b.inboxes i q j).items.length + (b.inboxes i).items.length =
      ∑ j, (b.inboxes j).items.length + q.items.length := by
  have hsum := sum_add_of_ne (f := fun j => (b.inboxes j).items.length)
    (g := fun j => (Function.update b.inboxes i q j).items.length) i
    fun j hj => by rw [Function.update_of_ne hj]
  rw [Function.update_self] at hsum
  exact hsum

/-- A shard goes on to another activity, and its inbox or another one changes. -/
lemma work_goto (b : Broker n) (i : Fin n) {s : Shard n} {activity : Activity n}
    (hs : s.activity = activity) (inboxes : Fin n → BoundedQueue (Parcel n)) (wakers : Fin n → ℕ) :
    ({ b.setShard i s with inboxes := inboxes, wakers := wakers } : Broker n).work +
        (b.shards i).activity.weight + ∑ j, (b.inboxes j).items.length + 2 * ∑ j, b.wakers j =
      b.work + activity.weight + ∑ j, (inboxes j).items.length + 2 * ∑ j, wakers j := by
  have hsum := b.sum_weight_setShard i s
  rw [hs] at hsum
  unfold work
  dsimp only
  omega

/-- A shard whose thread does the same has the same work. -/
lemma work_setShard (b : Broker n) (i : Fin n) {s : Shard n}
    (hs : s.activity = (b.shards i).activity) : (b.setShard i s).work = b.work := by
  have hsum := b.sum_weight_setShard i s
  rw [hs] at hsum
  exact congrArg (· + _ + _) (Nat.add_right_cancel hsum)

/-- A push makes the work less. -/
lemma work_pushNext_lt {i : Fin n} {p : Publication n} {todo : List (Fin n)}
    (h : (b.shards i).activity = .publishing p todo) : (b.pushNext i p todo).work < b.work := by
  have hweight : (b.shards i).activity.weight = 4 * todo.length + 1 := by rw [h]; rfl
  cases todo with
  | nil =>
      have hgoto := b.work_goto i (show ((b.shards i).finish p).activity = .idle from rfl)
        b.inboxes b.wakers
      have hidle : (Activity.idle : Activity n).weight = 0 := rfl
      rw [List.length_nil] at hweight
      have hlt : ({ b.setShard i ((b.shards i).finish p) with
        inboxes := b.inboxes, wakers := b.wakers } : Broker n).work < b.work := by omega
      exact hlt
  | cons j todo =>
      rw [List.length_cons] at hweight
      have hgoto := fun p' : Publication n => b.work_goto i
        (show ({ b.shards i with activity := .publishing p' todo } : Shard n).activity =
          .publishing p' todo from rfl)
      have hnext : ∀ p' : Publication n, (Activity.publishing p' todo).weight =
        4 * todo.length + 1 := fun _ => rfl
      have hkeep : ∀ p' : Publication n, ({ b.setShard i { b.shards i with
          activity := .publishing p' todo } with
          inboxes := b.inboxes, wakers := b.wakers } : Broker n).work < b.work := by
        intro p'
        have hthis := hgoto p' b.inboxes b.wakers
        rw [hnext] at hthis
        omega
      rw [pushNext]
      split_ifs
      · exact hkeep p
      · split
        · exact hkeep _
        · rename_i wasEmpty inbox hpush
          have hitems := congrArg List.length (BoundedQueue.items_of_push hpush)
          have hlength := b.sum_length_update j inbox
          have hwakers : ∑ k, (if wasEmpty then Function.update b.wakers j (b.wakers j + 1)
              else b.wakers) k ≤ ∑ k, b.wakers k + 1 := by
            have hupdate := sum_update b.wakers j (b.wakers j + 1)
            split_ifs <;> omega
          have hthis := hgoto { p with pushes := p.pushes ++ [(j, true)] }
            (Function.update b.inboxes j inbox)
            (if wasEmpty then Function.update b.wakers j (b.wakers j + 1) else b.wakers)
          rw [List.length_append, List.length_singleton] at hitems
          rw [hnext] at hthis
          refine lt_of_add_lt_add_right (a := (b.shards i).activity.weight +
            ∑ k, (b.inboxes k).items.length + 2 * ∑ k, b.wakers k) ?_
          refine lt_of_eq_of_lt (by simpa only [add_assoc] using hthis) ?_
          omega

/-- A drain task that starts makes the work less. -/
lemma work_startDrain_lt {i : Fin n} (h : (b.shards i).activity = .idle) (hwake : 0 < b.wakers i) :
    (b.startDrain i).work < b.work := by
  have hgoto := b.work_goto i (show ({ b.shards i with activity := .draining } : Shard n).activity =
    .draining from rfl) b.inboxes (Function.update b.wakers i 0)
  have hwakers := sum_update b.wakers i 0
  have hdrain : (Activity.draining : Activity n).weight = 1 := rfl
  have hidle : (b.shards i).activity.weight = 0 := by rw [h]; rfl
  have hlt : ({ b.setShard i { b.shards i with activity := .draining } with
    inboxes := b.inboxes, wakers := Function.update b.wakers i 0 } : Broker n).work < b.work := by
    omega
  exact hlt

/-- A pop makes the work less. -/
lemma work_popNext_lt {i : Fin n} (h : (b.shards i).activity = .draining) :
    (b.popNext i).work < b.work := by
  have hdrain : (b.shards i).activity.weight = 1 := by rw [h]; rfl
  unfold popNext
  split
  · have hgoto := b.work_goto i (show ({ b.shards i with activity := .idle } : Shard n).activity =
      .idle from rfl) b.inboxes b.wakers
    have hidle : (Activity.idle : Activity n).weight = 0 := rfl
    have hlt : ({ b.setShard i { b.shards i with activity := .idle } with
      inboxes := b.inboxes, wakers := b.wakers } : Broker n).work < b.work := by omega
    exact hlt
  · rename_i parcel inbox hpop
    have hitems := congrArg List.length (BoundedQueue.items_of_pop hpop)
    have hlength := b.sum_length_update i inbox
    have hactivity : ((b.shards i).dispatchDrained parcel).activity = (b.shards i).activity := by
      unfold Shard.dispatchDrained
      split <;> rfl
    have hgoto := b.work_goto i hactivity (Function.update b.inboxes i inbox) b.wakers
    rw [List.length_cons] at hitems
    have hlt : ({ b.setShard i ((b.shards i).dispatchDrained parcel) with
      inboxes := Function.update b.inboxes i inbox, wakers := b.wakers } : Broker n).work <
        b.work := by omega
    exact hlt

end Broker

/-! ## The process -/

namespace Process

/-- The links of a process are those of its connections. -/
def Paired (s : Process B n) : Prop :=
  ∀ i, (s.runtimes i).links.length = (s.broker.shards i).worker.conns.length

/-- The sum over all connections. -/
def total (s : Process B n) (f : View → ℕ) : ℕ :=
  ∑ i, ∑ r ∈ Finset.range (s.runtimes i).links.length, ((s.view i r).map f).getD 0

/-- What the push loops and the drain tasks have to do; that a drain task may fail counts as
well. -/
def routeWork (s : Process B n) : ℕ := s.broker.work + ∑ i, (s.runtimes i).draining.toNat

/-- The rank: readers come first, and writers last. -/
def rank (s : Process B n) : ℕ ×ₗ ℕ ×ₗ ℕ :=
  toLex (s.total View.readWork, toLex (s.routeWork, s.total View.writeWork))

section total

variable {f : View → ℕ} (hpaired : s.Paired)
  (hlen : ∀ i, (s'.runtimes i).links.length = (s.runtimes i).links.length)
  (hle : ∀ i r v, s.view i r = some v → ∃ v', s'.view i r = some v' ∧ f v' ≤ f v)
include hpaired hlen hle

/-- A sum over the connections does not grow if it does not at any of them. -/
lemma total_le : s'.total f ≤ s.total f := by
  unfold total
  refine Finset.sum_le_sum fun i _ => ?_
  rw [hlen i]
  refine Finset.sum_le_sum fun r hr => ?_
  obtain ⟨v, hv⟩ := view_isSome (hpaired i) (Finset.mem_range.mp hr)
  obtain ⟨v', hv', hf⟩ := hle i r v hv
  rw [hv, hv']
  exact hf

/-- It gets less if it does at one of them. -/
lemma total_lt (hv : s.view i r = some v) (hv' : s'.view i r = some v') (hlt : f v' < f v) :
    s'.total f < s.total f := by
  have hpoint : ∀ i, ∀ r ∈ Finset.range (s.runtimes i).links.length,
      ((s'.view i r).map f).getD 0 ≤ ((s.view i r).map f).getD 0 := by
    intro i r hr
    obtain ⟨v, hv⟩ := view_isSome (hpaired i) (Finset.mem_range.mp hr)
    obtain ⟨v', hv', hf⟩ := hle i r v hv
    rw [hv, hv']
    exact hf
  have hr : r < (s.runtimes i).links.length :=
    (List.getElem?_eq_some_iff.mp (link_of_view hv)).1
  unfold total
  simp only [hlen]
  refine Finset.sum_lt_sum (fun i _ => Finset.sum_le_sum (hpoint i)) ⟨i, Finset.mem_univ i, ?_⟩
  refine Finset.sum_lt_sum (hpoint i) ⟨r, Finset.mem_range.mpr hr, ?_⟩
  rw [hv, hv']
  exact hlt

end total

/-- Only a client adds a connection. -/
lemma length_step_of_ne (hstep : s.step e = some s') (he : e.agent ≠ .client) (i : Fin n) :
    (s'.runtimes i).links.length = (s.runtimes i).links.length := by
  rcases length_step hstep i with ⟨_, _, _, _, rfl, -⟩ | ⟨-, hlen⟩
  · exact absurd rfl he
  · exact hlen

/-- No event of the server gives a reader more to do. -/
lemma readWork_step (hstep : s.step e = some s') (he : e.agent ≠ .client)
    (hv : s.view i r = some v) : ∃ v', s'.view i r = some v' ∧ v'.readWork ≤ v.readWork ∧
      ((∃ failed, e.agent = .reader failed) → e.conn = some (i, r) →
        v'.readWork < v.readWork) := by
  by_cases hconn : e.conn = some (i, r)
  · obtain ⟨v₁, hmoves, new, w, -, hw, hview⟩ := view_step_own hstep hv hconn
    refine ⟨w, hview, ?_⟩
    rw [hw.keeps View.readWork_offer]
    cases hagent : e.agent with
    | client => exact absurd hagent he
    | reader failed =>
        rw [hagent] at hmoves
        exact ⟨hmoves.readWork_lt.le, fun _ _ => hmoves.readWork_lt⟩
    | router =>
        rw [hagent] at hmoves
        cases hmoves
    | writer failed =>
        rw [hagent] at hmoves
        exact ⟨hmoves.readWork_eq.le, fun h => by simp at h⟩
  · obtain ⟨new, w, -, hw, hview⟩ := view_step_of_ne hstep hv hconn
    exact ⟨w, hview, (hw.keeps View.readWork_offer).le, fun _ h => absurd h hconn⟩

/-- A writer that goes on leaves the broker as it is, but for the queue it has drained. -/
lemma acts_writerPlan {l : Link} {a : Writer.Action} {w : Writer}
    (ht : run act s (writerPlan i r l a w : Plan B n).1 = some t) : t.broker.work = s.broker.work ∧
      ∀ j, (t.broker.shards j).worker.offers = (s.broker.shards j).worker.offers ∧
        (t.broker.shards j).activity = (s.broker.shards j).activity := by
  unfold writerPlan at ht
  dsimp only at ht
  split_ifs at ht
  · obtain ⟨u, hu, hlast⟩ := run_cons_eq_some.mp ht
    cases hlast
    have hstep := (act_eq_some hu).1
    obtain ⟨-, shard, hrun, hbroker⟩ := Server.step_eq_some hstep
    obtain ⟨c, -, rfl⟩ := Shard.run_eq_some hrun
    constructor
    · rw [hbroker]
      exact s.broker.work_setShard i rfl
    · intro j
      rw [hbroker]
      rcases eq_or_ne j i with rfl | hj
      · rw [shards_setShard_self]
        exact ⟨rfl, rfl⟩
      · rw [shards_setShard_ne _ _ _ hj]
        exact ⟨rfl, rfl⟩
  · cases ht
    exact ⟨rfl, fun _ => ⟨rfl, rfl⟩⟩

/-- The actions of a plan leave the drain tasks. -/
lemma draining_acts {as : List (Action n)} (h : run act s as = some t) (i : Fin n) :
    (t.runtimes i).draining = (s.runtimes i).draining := by
  obtain ⟨calls, hcalls⟩ := runtimes_acts h i
  rw [hcalls]
  rfl

/-- An event whose plan leaves the drain task alone lowers the work as the broker does. -/
lemma routeWork_change {as : List (Action n)} (h : run act s as = some t)
    {f : Runtime B → Runtime B}
    (hf : ∀ rt, (f rt).draining = rt.draining) :
    (t.change i f).routeWork + s.broker.work = s.routeWork + t.broker.work := by
  have hdraining : ∀ j, ((t.change i f).runtimes j).draining = (s.runtimes j).draining := by
    intro j
    rcases eq_or_ne j i with rfl | hj
    · rw [runtimes_change_self, hf, draining_acts h]
    · rw [runtimes_change_ne t hj, draining_acts h]
  unfold routeWork
  simp only [hdraining]
  show t.broker.work + _ + _ = _
  omega

/-- An event of the router makes its work less. -/
lemma routeWork_lt (hstep : s.step e = some s') (he : e.agent = .router) :
    s'.routeWork < s.routeWork := by
  obtain ⟨p, t, hp, ht, rfl⟩ := step_eq_some hstep
  -- a kick that is lost counts like one that was made
  change (t.change e.shard p.2).routeWork < _
  have hn := next_eq_some hp
  cases e with
  | push i kicks =>
      rw [hn] at ht ⊢
      have hwork := routeWork_change (i := i) (f := id) ht fun _ => rfl
      obtain ⟨u, hu, hlast⟩ := run_cons_eq_some.mp ht
      cases hlast
      obtain ⟨pub, todo, hactivity, hbroker⟩ := Server.step_eq_some (act_eq_some hu).1
      have hlt := Broker.work_pushNext_lt hactivity
      rw [← hbroker] at hlt
      show (t.change i id).routeWork < _
      omega
  | drainRead i =>
      obtain ⟨-, -, -, rfl⟩ := hn
      have hwork := routeWork_change (i := i) (f := id) ht fun _ => rfl
      obtain ⟨u, hu, hlast⟩ := run_cons_eq_some.mp ht
      cases hlast
      obtain ⟨hidle, hwake, hbroker⟩ := Server.step_eq_some (act_eq_some hu).1
      have hlt := Broker.work_startDrain_lt hidle hwake
      rw [← hbroker] at hlt
      show (t.change i id).routeWork < _
      omega
  | drainPop i =>
      rw [hn] at ht ⊢
      have hwork := routeWork_change (i := i) (f := id) ht fun _ => rfl
      obtain ⟨u, hu, hlast⟩ := run_cons_eq_some.mp ht
      cases hlast
      obtain ⟨hactivity, hbroker⟩ := Server.step_eq_some (act_eq_some hu).1
      have hlt := Broker.work_popNext_lt hactivity
      rw [← hbroker] at hlt
      show (t.change i id).routeWork < _
      omega
  | drainFail i =>
      obtain ⟨-, hdraining, rfl⟩ := hn
      cases ht
      -- the read fails, and the drain task has ended
      have hsum := sum_add_of_ne (f := fun j => (s.runtimes j).draining.toNat) (g := fun j =>
        ((s.change i fun rt => { rt with draining := false }).runtimes j).draining.toNat) i
        fun j hj => by rw [runtimes_change_ne s hj]
      simp only [hdraining, runtimes_change_self, Bool.toNat_true, Bool.toNat_false] at hsum
      show s.broker.work + ∑ j, ((s.change i fun rt =>
        { rt with draining := false }).runtimes j).draining.toNat < _
      unfold routeWork
      omega
  | _ => cases he

/-- A writer that goes on changes nothing but its own connection, and has less to do. -/
lemma writer_step {failed : Bool} (hstep : s.step e = some s') (he : e.agent = .writer failed) :
    s'.routeWork = s.routeWork ∧
      ∀ j, (s'.broker.shards j).worker.offers = (s.broker.shards j).worker.offers := by
  obtain ⟨p, t, hp, ht, rfl⟩ := step_eq_some hstep
  have hn := next_eq_some hp
  cases e with
  | poll i r | written i r ok =>
      obtain ⟨l, c, w, -, -, -, -, rfl⟩ := hn
      obtain ⟨hwork, hoffers⟩ := acts_writerPlan ht
      refine ⟨?_, fun j => (hoffers j).1⟩
      have hroute := routeWork_change (i := i) (f := fun rt => rt.setWriter r w l.writer.buf) ht
        fun _ => rfl
      rw [hwork] at hroute
      exact Nat.add_right_cancel hroute
  | _ => cases he

/-- An event of a writer makes its work less, and gives no other writer work. -/
lemma writeWork_step {failed : Bool} (hstep : s.step e = some s')
    (he : e.agent = .writer failed) (hv : s.view i r = some v) :
    ∃ v', s'.view i r = some v' ∧ v'.writeWork ≤ v.writeWork ∧
      (e.conn = some (i, r) → v'.writeWork < v.writeWork) := by
  have hquiet := (writer_step hstep he).2 i
  by_cases hconn : e.conn = some (i, r)
  · obtain ⟨v₁, hmoves, new, w, hoffers, hw, hview⟩ := view_step_own hstep hv hconn
    obtain rfl : new = [] := by simpa [hquiet] using hoffers
    obtain rfl : w = v₁ := hw
    rw [he] at hmoves
    exact ⟨w, hview, hmoves.writeWork_lt.le, fun _ => hmoves.writeWork_lt⟩
  · obtain ⟨new, w, hoffers, hw, hview⟩ := view_step_of_ne hstep hv hconn
    obtain rfl : new = [] := by simpa [hquiet] using hoffers
    obtain rfl : w = v := hw
    exact ⟨w, hview, le_rfl, fun h => absurd h hconn⟩

/-- An event of a connection finds the connection. -/
lemma view_of_step (hpaired : s.Paired) (hstep : s.step e = some s') (he : e.conn = some (i, r)) :
    ∃ v, s.view i r = some v := by
  obtain ⟨p, t, hp, -, -⟩ := step_eq_some hstep
  have hn := next_eq_some hp
  have hview : ∀ l, s.link i r = some l → ∃ v, s.view i r = some v := fun l hl =>
    view_isSome (hpaired i) (List.getElem?_eq_some_iff.mp hl).1
  cases e with
  | connect _ | push _ _ | drainRead _ | drainPop _ | drainFail _ => cases he
  | parse j r' order | check j r' order =>
      obtain ⟨rfl, rfl⟩ : j = i ∧ r' = r := Prod.mk.inj (Option.some.inj he)
      obtain ⟨l, _, _, hl, -⟩ := hn
      exact hview l hl
  | poll j r' | written j r' ok =>
      obtain ⟨rfl, rfl⟩ : j = i ∧ r' = r := Prod.mk.inj (Option.some.inj he)
      obtain ⟨l, _, _, hl, -⟩ := hn
      exact hview l hl
  | _ =>
      obtain ⟨rfl, rfl⟩ := Prod.mk.inj (Option.some.inj he)
      obtain ⟨l, hl, -⟩ := hn
      exact hview l hl

/-- **The rank falls** with every event that is not a client's. -/
theorem rank_lt (hpaired : s.Paired) (he : e.agent ≠ .client) (hstep : s.step e = some s') :
    s'.rank < s.rank := by
  have hlen := length_step_of_ne hstep he
  have hreaders : ∀ i r v, s.view i r = some v →
      ∃ v', s'.view i r = some v' ∧ v'.readWork ≤ v.readWork := by
    intro i r v hv
    obtain ⟨v', hv', hle, -⟩ := readWork_step hstep he hv
    exact ⟨v', hv', hle⟩
  have hle := total_le hpaired hlen hreaders
  unfold rank
  rw [Prod.Lex.toLex_lt_toLex, Prod.Lex.toLex_lt_toLex]
  cases hagent : e.agent with
  | client => exact absurd hagent he
  | reader failed =>
      obtain ⟨⟨i, r⟩, hconn⟩ : ∃ x, e.conn = some x := by
        cases e <;> first | exact ⟨_, rfl⟩ | cases hagent
      obtain ⟨v, hv⟩ := view_of_step hpaired hstep hconn
      obtain ⟨v', hv', -, hlt⟩ := readWork_step hstep he hv
      exact Or.inl (total_lt hpaired hlen hreaders hv hv' (hlt ⟨failed, hagent⟩ hconn))
  | router => exact hle.lt_or_eq.imp_right fun heq => ⟨heq, Or.inl (routeWork_lt hstep hagent)⟩
  | writer failed =>
      have hwriters : ∀ i r v, s.view i r = some v →
          ∃ v', s'.view i r = some v' ∧ v'.writeWork ≤ v.writeWork := by
        intro i r v hv
        obtain ⟨v', hv', hle, -⟩ := writeWork_step hstep hagent hv
        exact ⟨v', hv', hle⟩
      obtain ⟨⟨i, r⟩, hconn⟩ : ∃ x, e.conn = some x := by
        cases e <;> first | exact ⟨_, rfl⟩ | cases hagent
      obtain ⟨v, hv⟩ := view_of_step hpaired hstep hconn
      obtain ⟨v', hv', -, hlt⟩ := writeWork_step hstep hagent hv
      refine hle.lt_or_eq.imp_right fun heq => ⟨heq, Or.inr ⟨(writer_step hstep hagent).1, ?_⟩⟩
      exact total_lt hpaired hlen hwriters hv hv' (hlt hconn)

/-- A step keeps links and connections together. -/
lemma Paired.step (h : s.Paired) (hstep : s.step e = some s') : s'.Paired := by
  intro i
  rcases length_step hstep i with
    ⟨_, _, _, _, -, -, -, -, -, ⟨id, hconns⟩, links, hlinks, hlinks'⟩ | ⟨hconns, hlinks⟩
  · rw [hconns, hlinks', List.length_append, List.length_append, hlinks, h i]
    rfl
  · rw [hconns, hlinks, h i]

/-- **The server settles.** In whichever state a run has left the server, and whatever reads and
writes fail from then on: when the clients do nothing more, the server does not go on forever. -/
theorem settles (hrun : run step (init n inboxCapacity poolCapacity : Process B n) es = some s) :
    ¬ ∃ (ss : ℕ → Process B n) (es' : ℕ → Event n), ss 0 = s ∧
      ∀ k, (es' k).agent ≠ .client ∧ (ss k).step (es' k) = some (ss (k + 1)) := by
  rintro ⟨ss, es', rfl, hsteps⟩
  exact not_forever (I := Paired) (P := fun e : Event n => e.agent ≠ .client)
    (fun s e s' h _ hstep => h.step hstep) (fun s e s' h he hstep => rank_lt h he hstep)
    (length_links hrun) hsteps

/-- A client has connected and was greeted. -/
theorem settles_one_client : ∃ s, run step (initStack 1 4 2) [.connect 0, .start 0 0] = some s ∧
    ¬ ∃ (ss : ℕ → Process .stack 1) (es' : ℕ → Event 1), ss 0 = s ∧
      ∀ k, (es' k).agent ≠ .client ∧ (ss k).step (es' k) = some (ss (k + 1)) := by
  have hsome : (run step (initStack 1 4 2) [.connect 0, .start 0 0]).isSome = true := by
    decide +kernel
  obtain ⟨s, hs⟩ := Option.isSome_iff_exists.mp hsome
  exact ⟨s, hs, settles hs⟩

end Process

end Aulon.Server
