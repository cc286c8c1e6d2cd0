import Aulon.Server.Views

/-!
# The buffers of a worker

Every connection borrows two buffers of its worker's pool, one for each task, and a task that ends
gives its buffer back. Over whole runs, whatever the clients do and whichever reads and writes fail,
the free buffers and the borrowed ones are always the registered ones: none is lost, and none is
lent twice. This is what the server owes to the pool of the runtime: that pool is a parameter, and
all that is used of it are the fields of `FixedBufPool`.

* `Link.held`, `Runtime.lent` — the buffers that tasks hold.
* `balanced_run` — the accounts of every pool balance in every state of every run.
* `buffers_conserved` — what that says of the buffers and of the tasks.
-/

namespace Aulon.Server

open Aulon.Lib Aulon.Core Aulon.Proto

variable {B : FixedBufPool} {n : ℕ}

/-- The buffers that the tasks of a link hold. -/
def Link.held (l : Link) : List FixedBuf :=
  (if l.reader.phase = .finished then [] else [l.reader.buf]) ++
    if l.writer.phase = .exited then [] else [l.writer.buf]

namespace Runtime

/-- The buffers that are lent. -/
def lent (rt : Runtime B) : List FixedBuf := rt.links.flatMap Link.held

/-- The accounts of the pool balance. -/
def Balanced (capacity : ℕ) (rt : Runtime B) : Prop :=
  BufferPool.Accounts capacity defaultBufferSize rt.pool rt.lent

variable {capacity : ℕ} {rt rt' : Runtime B} {r : ConnRef} {l : Link}

/-- A buffer is lent for each reader that has not returned, and for each writer. -/
lemma length_lent (rt : Runtime B) : rt.lent.length =
    rt.links.countP (·.reader.phase ≠ .finished) + rt.links.countP (·.writer.phase ≠ .exited) := by
  unfold lent
  induction rt.links with
  | nil => rfl
  | cons l links ih =>
      have hheld : l.held.length = (if l.reader.phase ≠ .finished then 1 else 0) +
          if l.writer.phase ≠ .exited then 1 else 0 := by
        unfold Link.held
        split_ifs <;> simp_all
      rw [List.flatMap_cons, List.length_append, ih, hheld, List.countP_cons, List.countP_cons]
      simp only [decide_eq_true_eq]
      omega

/-- What is lent, with a link taken out. -/
lemma perm_lent (hl : rt.links[r]? = some l) :
    rt.lent.Perm (l.held ++ (rt.links.eraseIdx r).flatMap Link.held) := by
  obtain ⟨hlt, rfl⟩ := List.getElem?_eq_some_iff.mp hl
  exact ((List.getElem_cons_eraseIdx_perm hlt).flatMap fun _ _ => .refl _).symm

/-- What is lent after a link has changed. -/
lemma perm_lent_modify (hl : rt.links[r]? = some l) (g : Link → Link) :
    (rt.modify r g).lent.Perm ((g l).held ++ (rt.links.eraseIdx r).flatMap Link.held) := by
  obtain ⟨hlt, rfl⟩ := List.getElem?_eq_some_iff.mp hl
  have hset : (rt.modify r g).links = rt.links.set r (g rt.links[r]) := by
    rw [Runtime.modify, List.modify_eq_set_getElem?, hl]
    rfl
  rw [lent, hset]
  exact (List.set_perm_cons_eraseIdx hlt _).flatMap fun _ _ => .refl _

/-- One link changes, and maybe the pool with it. -/
lemma Balanced.modify (h : rt.Balanced capacity) (hl : rt.links[r]? = some l) {g : Link → Link}
    (hlinks : rt'.links = (rt.modify r g).links)
    (hpool : ∀ rest, BufferPool.Accounts capacity defaultBufferSize rt.pool (l.held ++ rest) →
      BufferPool.Accounts capacity defaultBufferSize rt'.pool ((g l).held ++ rest)) :
    rt'.Balanced capacity := by
  have hlent : rt'.lent = (rt.modify r g).lent := by rw [lent, lent, hlinks]
  rw [Balanced, hlent]
  exact (hpool _ (h.of_perm (perm_lent hl))).of_perm (perm_lent_modify hl g).symm

end Runtime

/-! ## Notifications -/

namespace WriterTask

variable (t : WriterTask) (e : WriterEvent) (es : List WriterEvent)

/-- A call on the connection leaves the writer its buffer. -/
lemma notice_keeps : (t.notice e).buf = t.buf ∧
    ((t.notice e).phase = .exited ↔ t.phase = .exited) := by
  unfold notice notifyOne
  dsimp only
  split_ifs with hnotifies hparked
  · simp [hparked]
  · simp
  · simp

/-- So do the calls of an action. -/
lemma foldl_notice_keeps : (es.foldl notice t).buf = t.buf ∧
    ((es.foldl notice t).phase = .exited ↔ t.phase = .exited) := by
  induction es generalizing t with
  | nil => simp
  | cons e es ih =>
      obtain ⟨hbuf, hphase⟩ := ih (t.notice e)
      obtain ⟨hbuf', hphase'⟩ := t.notice_keeps e
      exact ⟨hbuf.trans hbuf', hphase.trans hphase'⟩

end WriterTask

/-- So the calls of an action leave what the tasks of a connection hold. -/
lemma Link.held_notice (l : Link) (es : List WriterEvent) :
    Link.held { l with writer := es.foldl WriterTask.notice l.writer } = l.held := by
  obtain ⟨hbuf, hphase⟩ := l.writer.foldl_notice_keeps es
  unfold Link.held
  simp only [hbuf, hphase]

/-- They leave what is lent. -/
lemma Runtime.lent_notice (rt : Runtime B) (calls : ConnRef → List WriterEvent) :
    (rt.notice calls).lent = rt.lent := by
  have hmap : (rt.notice calls).links.map Link.held = rt.links.map Link.held := by
    refine List.ext_getElem (by simp [Runtime.notice]) fun r h h' => ?_
    simp only [Runtime.notice, List.getElem_map, List.getElem_mapIdx]
    exact Link.held_notice _ _
  rw [lent, lent, List.flatMap_def, List.flatMap_def, hmap]

/-- They leave the accounts balanced. -/
lemma Runtime.Balanced.notice {capacity : ℕ} {rt : Runtime B} (h : rt.Balanced capacity)
    (calls : ConnRef → List WriterEvent) : (rt.notice calls).Balanced capacity := by
  rw [Balanced, lent_notice]
  exact h

/-! ## The plans -/

/-- A step of the writer leaves its buffer the length. -/
lemma Writer.length_buf_step {w w' : Writer} {a : Writer.Action} (h : w.step a = some w') :
    w'.buf.length = w.buf.length := by
  have hdrain : w.drain.buf.length = w.buf.length := by
    rcases w.drain_cases with ⟨-, -, -, -, -, -, hlen⟩ | ⟨w₁, heq, -, -, -, -, hlen, -⟩
    · exact hlen
    · rw [heq, ← hlen]
      rcases w₁.checkClose_cases with ⟨-, hwait⟩ | ⟨-, -, -, -, hbuf, -⟩
      · rw [hwait, Writer.buf_waitForEvent]
      · exact hbuf
  have hs := Writer.step_eq_some h
  cases a with
  | enqueue bytes => simp [hs]
  | markClose reason => simp [hs]
  | poll =>
      rcases hs with ⟨-, rfl⟩ | ⟨-, rfl⟩
      · simp
      · exact hdrain
  | written ok =>
      rcases hs with ⟨-, -, rfl⟩ | ⟨-, -, rfl⟩ | ⟨-, rfl⟩
      · exact hdrain
      · rfl
      · rfl

/-- A writer that has returned does nothing. -/
lemma Writer.phase_ne_exited {w w' : Writer} {a : Writer.Action}
    (ha : a = .poll ∨ ∃ ok, a = .written ok) (h : w.step a = some w') : w.phase ≠ .exited := by
  have hs := Writer.step_eq_some h
  rcases ha with rfl | ⟨ok, rfl⟩
  · rcases hs with ⟨hphase, -⟩ | ⟨hphase, -⟩ <;> simp [hphase]
  · rcases hs with ⟨hphase, -⟩ | ⟨hphase, -⟩ | ⟨hphase, -⟩ <;> simp [hphase]

/-- A read leaves the buffer its length. -/
lemma length_bytes_afterRead {l : Link} {k : ℕ} (hbuf : k ≤ l.reader.buf.bytes.length) :
    (l.afterRead k).reader.buf.bytes.length = l.reader.buf.bytes.length := by
  refine length_overwrite ?_
  rw [List.length_take]
  omega

section plans

variable {capacity : ℕ} {rt : Runtime B} {i : Fin n} {r : ConnRef} {l l' : Link} {order : Order}

/-- A change that keeps the buffers and that ends no task. -/
lemma balanced_modify (h : rt.Balanced capacity) (hl : rt.links[r]? = some l') {g : Link → Link}
    (hheld : (g l').held = l'.held) {rt' : Runtime B} (hlinks : rt'.links = (rt.modify r g).links)
    (hpool : rt'.pool = rt.pool) : rt'.Balanced capacity := by
  refine h.modify hl hlinks fun rest hrest => ?_
  rw [hheld, hpool]
  exact hrest

/-- A reader that returns gives its buffer back. -/
lemma balanced_readerExit (h : rt.Balanced capacity) (hl : rt.links[r]? = some l')
    (hreader : l'.reader = l.reader) (hphase : l.reader.phase ≠ .finished) :
    (rt.readerExit r l.reader.buf).Balanced capacity := by
  refine h.modify hl (g := (·.goto .finished)) rfl fun rest hrest => ?_
  have hheld : l'.held = l.reader.buf :: (l'.goto .finished).held := by
    simp [Link.held, Link.goto, hreader, hphase]
  rw [hheld] at hrest
  exact hrest.release

/-- A read leaves the accounts balanced: the buffer stays with the reader, or is given back if the
reader returns. -/
lemma balanced_readPlan (h : rt.Balanced capacity) (hl : rt.links[r]? = some l')
    (hreader : l'.reader = l.reader) (hsocket : l'.socket = l.socket) {k : ℕ}
    (hphase : l.reader.phase = .waiting) (hbuf : k ≤ l.reader.buf.bytes.length) :
    ((readPlan i r l k order : Plan B n).2 rt).Balanced capacity := by
  have hafter : (rt.modify r fun l => l.afterRead k).Balanced capacity := by
    refine h.modify hl rfl fun rest hrest => ?_
    have hheld : l'.held = l'.reader.buf :: if l'.writer.phase = .exited then []
        else [l'.writer.buf] := by
      simp [Link.held, hreader, hphase]
    rw [hheld] at hrest
    refine hrest.write (l'.afterRead k).reader.buf rfl ?_
    exact length_bytes_afterRead (by rw [hreader]; exact hbuf)
  have hlink : (rt.modify r fun l => l.afterRead k).links[r]? = some (l'.afterRead k) := by
    rw [links_modify_self, hl]
    rfl
  unfold readPlan
  dsimp only
  split_ifs
  · refine balanced_readerExit (l := l.afterRead k) hafter hlink ?_ (by simp [Link.afterRead])
    simp [Link.afterRead, hreader, hsocket]
  · exact hafter

/-- So does a step of a writer. -/
lemma balanced_writerPlan (h : rt.Balanced capacity) (hl : rt.links[r]? = some l')
    (hbuf : l'.writer.buf = l.writer.buf) (hphase : l'.writer.phase ≠ .exited)
    {state : ConnectionState} {a : Writer.Action} {w : Writer}
    (hstep : (l.writerOf state).step a = some w) :
    ((writerPlan i r l a w : Plan B n).2 rt).Balanced capacity := by
  have hlen : w.buf.length = l.writer.buf.bytes.length := Writer.length_buf_step hstep
  refine h.modify hl rfl fun rest hrest => ?_
  have hheld : l'.held ++ rest = (if l'.reader.phase = .finished then [] else [l'.reader.buf]) ++
      l.writer.buf :: rest := by
    simp [Link.held, hphase, hbuf]
  rw [hheld] at hrest
  have hwrite := (hrest.of_perm List.perm_middle).write
    { l.writer.buf with bytes := w.buf } rfl hlen
  by_cases hexited : w.phase = .exited
  · simpa [writerPlan, Runtime.setWriter, Link.held, hexited] using hwrite.release
  · simpa [writerPlan, Runtime.setWriter, Link.held, hexited] using
      hwrite.of_perm List.perm_middle.symm

/-- So does an accept, which takes two buffers or none. -/
lemma balanced_acceptPlan (h : rt.Balanced capacity) {rt₀ : Runtime B}
    (hpool : rt.pool = rt₀.pool) :
    ((acceptPlan i rt₀).2 rt).Balanced capacity := by
  unfold acceptPlan
  split
  · exact h
  · rename_i readBuf pool hread
    have hlent := h.acquire (by rw [hpool]; exact hread)
    split
    · exact hlent.release
    · rename_i writeBuf pool' hwrite
      have hnew : Runtime.lent { rt with
          pool := pool', links := rt.links ++ [.new readBuf writeBuf] } =
            rt.lent ++ [readBuf, writeBuf] := by
        simp [Runtime.lent, Link.held, Link.new]
      refine (hlent.acquire hwrite).of_perm ?_
      rw [hnew]
      exact (List.Perm.swap readBuf writeBuf rt.lent).trans
        (@List.perm_append_comm _ [readBuf, writeBuf] _)

end plans

/-! ## Whole runs -/

namespace Process

variable {capacity : ℕ} {s s' t : Process B n} {e : Event n} {i : Fin n} {r : ConnRef}

/-- A link after actions of the broker. -/
lemma link_acts {as : List (Action n)} (h : run act s as = some t) {l : Link}
    (hl : s.link i r = some l) : ∃ l', (t.runtimes i).links[r]? = some l' ∧
      l'.reader = l.reader ∧ l'.socket = l.socket ∧ l'.writer.buf = l.writer.buf ∧
      (l'.writer.phase = .exited ↔ l.writer.phase = .exited) := by
  obtain ⟨calls, hcalls⟩ := runtimes_acts h i
  refine ⟨{ l with writer := (calls r).foldl WriterTask.notice l.writer }, ?_, rfl, rfl,
    l.writer.foldl_notice_keeps (calls r)⟩
  rw [hcalls, Runtime.links_notice, show (s.runtimes i).links[r]? = some l from hl]
  rfl

/-- Whatever plan an event has, it leaves the accounts balanced. -/
lemma balanced_change {p : Plan B n} (hnext : s.next e = some p) (hacts : run act s p.1 = some t)
    (h : (t.runtimes e.shard).Balanced capacity) :
    (p.2 (t.runtimes e.shard)).Balanced capacity := by
  have hn := next_eq_some hnext
  cases e with
  | connect j =>
      obtain ⟨-, rfl⟩ := hn
      obtain ⟨calls, hcalls⟩ := runtimes_acts hacts j
      exact balanced_acceptPlan h (by rw [Event.shard, hcalls]; rfl)
  | push j kicks | drainPop j =>
      rw [hn]
      exact h
  | drainRead j =>
      obtain ⟨-, -, -, rfl⟩ := hn
      exact h
  | drainFail j =>
      obtain ⟨-, -, rfl⟩ := hn
      exact h
  | send j r bytes | close j r =>
      obtain ⟨l, hl, -, rfl⟩ := hn
      obtain ⟨l', hl', -⟩ := link_acts hacts hl
      exact balanced_modify h hl' (by rfl) rfl rfl
  | start j r =>
      obtain ⟨l, hl, -, hphase, rfl⟩ := hn
      obtain ⟨l', hl', hreader, -⟩ := link_acts hacts hl
      exact balanced_modify h hl' (by simp [Link.held, Link.goto, hreader, hphase]) rfl rfl
  | read j r k order =>
      obtain ⟨l, hl, -, hphase, -, hbuf, -, rfl⟩ := hn
      obtain ⟨l', hl', hreader, hsocket, -⟩ := link_acts hacts hl
      exact balanced_readPlan h hl' hreader hsocket hphase hbuf
  | readEnd j r order =>
      obtain ⟨l, hl, -, hphase, -, rfl⟩ := hn
      obtain ⟨l', hl', hreader, -⟩ := link_acts hacts hl
      exact balanced_readerExit h hl' hreader (by simp [hphase])
  | readFail j r order =>
      obtain ⟨l, hl, -, hphase, rfl⟩ := hn
      obtain ⟨l', hl', hreader, -⟩ := link_acts hacts hl
      exact balanced_readerExit h hl' hreader (by simp [hphase])
  | parse j r order =>
      obtain ⟨l, c, k, hl, -, -, -, hphase, rfl⟩ := hn
      obtain ⟨l', hl', hreader, -⟩ := link_acts hacts hl
      unfold parsePlan roundPlan
      split
      · exact balanced_modify h hl' (by simp [Link.held, Link.goto, hreader, hphase]) rfl rfl
      · split_ifs
        · exact balanced_readerExit h hl' hreader (by simp [hphase])
        · exact balanced_modify h hl' (by simp [Link.held, hreader, hphase]) rfl rfl
      · exact balanced_readerExit h hl' hreader (by simp [hphase])
  | check j r order =>
      obtain ⟨l, c, k, hl, -, -, -, hphase, rfl⟩ := hn
      obtain ⟨l', hl', hreader, -⟩ := link_acts hacts hl
      unfold checkPlan
      split_ifs
      · exact balanced_readerExit h hl' hreader (by simp [hphase])
      · exact balanced_modify h hl' (by simp [Link.held, Link.goto, hreader, hphase]) rfl rfl
  | poll j r =>
      obtain ⟨l, c, w, hl, -, -, hstep, rfl⟩ := hn
      obtain ⟨l', hl', -, -, hbuf, hphase⟩ := link_acts hacts hl
      refine balanced_writerPlan h hl' hbuf ?_ hstep
      exact fun hexited => Writer.phase_ne_exited (Or.inl rfl) hstep (hphase.mp hexited)
  | written j r ok =>
      obtain ⟨l, c, w, hl, -, -, hstep, rfl⟩ := hn
      obtain ⟨l', hl', -, -, hbuf, hphase⟩ := link_acts hacts hl
      refine balanced_writerPlan h hl' hbuf ?_ hstep
      exact fun hexited => Writer.phase_ne_exited (Or.inr ⟨ok, rfl⟩) hstep (hphase.mp hexited)

/-- The accounts of every pool balance in every state of every run. -/
theorem balanced_run {inboxCapacity : ℕ} {es : List (Event n)}
    (hrun : run step (init n inboxCapacity capacity : Process B n) es = some s) (i : Fin n) :
    (s.runtimes i).Balanced capacity := by
  refine runtimes_run (fun i => ?_) (fun rt calls h => h.notice calls) (fun s t e p => ?_) hrun i
  · exact BufferPool.accounts_new capacity defaultBufferSize
  · exact balanced_change

/-- **No buffer is lost, and none is lent twice.** For every pool of the runtime that keeps to
`FixedBufPool`, in every state of every run: the free buffers of a worker and those its tasks hold
are the registered ones, each once and in its size; so no two tasks share one, and there are as many
lent as there are tasks that have not returned. -/
theorem buffers_conserved {inboxCapacity : ℕ} {es : List (Event n)}
    (hrun : run step (init n inboxCapacity capacity : Process B n) es = some s) (i : Fin n) :
    (((s.runtimes i).pool.free ++ (s.runtimes i).lent).map (·.index)).Perm
        (BufferPool.registered B capacity defaultBufferSize) ∧
      (((s.runtimes i).pool.free ++ (s.runtimes i).lent).map (·.index)).Nodup ∧
      (∀ buf ∈ (s.runtimes i).pool.free ++ (s.runtimes i).lent,
        buf.bytes.length = defaultBufferSize) ∧
      (s.runtimes i).pool.free.length + ((s.runtimes i).links.countP (·.reader.phase ≠ .finished) +
        (s.runtimes i).links.countP (·.writer.phase ≠ .exited)) =
          (BufferPool.registered B capacity defaultBufferSize).length := by
  have hbalanced := balanced_run hrun i
  refine ⟨hbalanced.perm, hbalanced.nodup, hbalanced.size, ?_⟩
  rw [← Runtime.length_lent]
  exact hbalanced.length

/-- A worker with three buffers has one client, and has turned a second one away: the buffer that
was taken for it is free again. -/
theorem buffers_conserved_turned_away :
    ∃ s, run step (initStack 1 4 3) [.connect 0, .connect 0] = some s ∧
      (s.runtimes 0).links.length = 1 ∧
      (s.runtimes 0).pool.free.length + ((s.runtimes 0).links.countP (·.reader.phase ≠ .finished) +
        (s.runtimes 0).links.countP (·.writer.phase ≠ .exited)) = 3 := by
  have hsome : (run step (initStack 1 4 3) [.connect 0, .connect 0]).map (fun s =>
      (s.runtimes 0).links.length) = some 1 := by decide +kernel
  obtain ⟨s, hs, hlen⟩ := Option.map_eq_some_iff.mp hsome
  have hregistered : (BufferPool.registered .stack 3 defaultBufferSize).length = 3 := by
    decide +kernel
  exact ⟨s, hs, hlen, (buffers_conserved hs 0).2.2.2.trans hregistered⟩

end Process

end Aulon.Server
