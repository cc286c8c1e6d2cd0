import Aulon.Core.BufferPool
import Aulon.Server.Outbound
import Aulon.Server.Writer

/-!
# The tasks of the server

The broker together with what drives it: the clients, their sockets, and on every shard the accept
loop with its buffer pool, a reader and a writer task for each connection, and the drain task. The
handlers are the broker's; here is when they run. A step is one event: something a client does, or
a piece of a task of a shard. A task that has not come to an await yet keeps the thread of its
shard, so no other task of the shard runs between two frames of one read, or in the middle of a
publication or of a drain; the other shards may do anything meanwhile.

* A **socket** is the byte stream the client has sent, how much of it was read, and the bytes passed
  to `write_fixed_all`. Reads return any number of the bytes that are there, up to the size of the
  buffer. After a shutdown, a read may also report the end of the stream.
* A **notification** wakes the writer if it waits, and leaves a permit otherwise. The calls that an
  action of the broker makes on a connection are read off the offers it has added.
* `Process.trace` is the list of the actions of the broker so far; no code reads it, nor the log of
  a writer. The broker of a process is the one that these actions lead to.

* A **kick** is a write to the eventfd of another shard. The broker counts one for every frame that
  it pushes into an empty inbox. The load of `head` in `push` may miss that the inbox was empty, and
  then the kick is not made: `Event.push` says whether it is, and `Process.lost` counts those that
  the broker has counted and that were not made.

The pool of registered buffers is a parameter `B`. Left out are the failures of `accept` and of the
registration of the buffers, both of which end the process.

* `Process.next` — what an event makes the shard do: actions of the broker, and then a change of the
  shard's tasks.
* `Process.step` — the event.
-/

namespace Aulon.Server

open Aulon.Lib Aulon.Core Aulon.Proto

variable {B : FixedBufPool} {n : ℕ}

/-! ## State -/

/-- A client's socket. -/
structure Socket where
  /-- All bytes the client has sent. -/
  stream : Bytes
  /-- How many of them the reader has read. -/
  taken : ℕ
  /-- The client has closed its side. -/
  closed : Bool
  /-- The writer has shut the socket down. -/
  shut : Bool
  /-- The bytes passed to `write_fixed_all`. -/
  sent : Bytes

/-- The bytes that wait to be read. -/
def Socket.inbound (s : Socket) : Bytes := s.stream.drop s.taken

/-- Where a reader task is. -/
inductive ReaderPhase where
  /-- Spawned and not polled yet. -/
  | starting
  /-- In `read_fixed`. -/
  | waiting
  /-- In its inner loop, about to parse what follows the bytes consumed so far. -/
  | parsing (consumedTotal : ℕ)
  /-- In its inner loop, when a frame was handled and before it looks for a close reason. -/
  | checking (consumedTotal : ℕ)
  /-- It has returned. -/
  | finished
deriving DecidableEq, Repr

/-- A reader task.
Source: `main.rs`, `reader_task` -/
structure ReaderTask where
  phase : ReaderPhase
  accum : Bytes
  buf : FixedBuf

/-- A writer task: where it is suspended, the permit its connection holds for it, its buffer, and
the calls the other tasks have made on the connection.
Source: `main.rs`, `writer_task` -/
structure WriterTask where
  phase : WriterPhase
  permit : Bool
  buf : FixedBuf
  log : List WriterEvent

/-- A client's socket and the two tasks that serve it. -/
structure Link where
  socket : Socket
  reader : ReaderTask
  writer : WriterTask

/-- The tasks of a shard; `running` is the reader that is in its inner loop. -/
structure Runtime (B : FixedBufPool) where
  pool : BufferPool B
  /-- The links of all connections ever accepted, in the order of `Worker.conns`. -/
  links : List Link
  running : Option ConnRef
  /-- Does the drain task still run? -/
  draining : Bool

/-- The server process. -/
structure Process (B : FixedBufPool) (n : ℕ) where
  broker : Broker n
  runtimes : Fin n → Runtime B
  trace : List (Action n)
  /-- The kicks of a shard's eventfd that were not made, since it was read last. -/
  lost : Fin n → ℕ

/-- The writer task of a link, with the connection it shares with the other tasks. -/
def Link.writerOf (l : Link) (state : ConnectionState) : Writer where
  state := { state with notify := l.writer.permit }
  phase := l.writer.phase
  buf := l.writer.buf.bytes
  sent := l.socket.sent
  log := l.writer.log

/-- The link with its reader in another phase. -/
def Link.goto (l : Link) (phase : ReaderPhase) : Link :=
  { l with reader := { l.reader with phase := phase } }

/-- The link of a connection that was just accepted. -/
def Link.new (readBuf writeBuf : FixedBuf) : Link where
  socket := ⟨[], 0, false, false, []⟩
  reader := ⟨.starting, [], readBuf⟩
  writer := ⟨.spawned, false, writeBuf, []⟩

/-- The process at the start, with inboxes and pools of the given capacities.
Source: `main.rs`, `main`, `worker_main` and `Worker::new` -/
def Process.init (n capacity poolCapacity : ℕ) : Process B n where
  broker := .init n capacity
  runtimes _ := ⟨.new poolCapacity defaultBufferSize, [], none, true⟩
  trace := []
  lost _ := 0

/-- The process at the start over the pool `FixedBufPool.stack`, for runs that are to be
computed. -/
abbrev Process.initStack (n capacity poolCapacity : ℕ) : Process .stack n :=
  .init n capacity poolCapacity

/-! ## Notifications -/

/-- Does the call notify the writer? -/
def WriterEvent.notifies : WriterEvent → Bool
  | .enqueued _ .alreadyClosing => false
  | _ => true

namespace WriterTask

/-- Wake the task if it waits, or leave a permit.
Source: `connection_state.rs`, `notify_one` in `enqueue` and `mark_close` -/
def notifyOne (t : WriterTask) : WriterTask :=
  if t.phase = .parked then { t with phase := .woken } else { t with permit := true }

/-- Another task has made a call on the connection. -/
def notice (t : WriterTask) (e : WriterEvent) : WriterTask :=
  let t := { t with log := t.log ++ [e] }
  if e.notifies then t.notifyOne else t

end WriterTask

/-- The mark that an action leaves on connection `r` of shard `i`, if any. -/
def Action.marks (i : Fin n) (r : ConnRef) (a : Action n) : List WriterEvent :=
  match a.call i r with
  | some (.markClose reason) => [.marked reason]
  | _ => []

/-- The calls that an action of shard `i` has made on connection `r`. -/
def callsOn (before after : Worker) (i : Fin n) (a : Action n) (r : ConnRef) : List WriterEvent :=
  ((after.offers.drop before.offers.length).filter (·.target = r)).map
    (fun o => .enqueued o.bytes o.outcome) ++ a.marks i r

namespace Runtime

/-- The writers take notice of the calls made on their connections. -/
def notice (rt : Runtime B) (calls : ConnRef → List WriterEvent) : Runtime B :=
  { rt with links := rt.links.mapIdx fun r l =>
      { l with writer := (calls r).foldl WriterTask.notice l.writer } }

/-- The runtime with a link changed. -/
def modify (rt : Runtime B) (r : ConnRef) (f : Link → Link) : Runtime B :=
  { rt with links := rt.links.modify r f }

/-- The reader of a connection returns and drops its buffer.
Source: `main.rs`, `reader_task` -/
def readerExit (rt : Runtime B) (r : ConnRef) (buf : FixedBuf) : Runtime B :=
  { rt.modify r (·.goto .finished) with
    pool := rt.pool.release buf
    running := none }

/-- The writer of a connection goes on to another state; when it returns, it shuts the socket down
and drops its buffer.
Source: `main.rs`, `writer_task` -/
def setWriter (rt : Runtime B) (r : ConnRef) (w : Writer) (buf : FixedBuf) : Runtime B :=
  { rt.modify r fun l => { l with
      socket := { l.socket with sent := w.sent, shut := w.phase = .exited }
      writer := ⟨w.phase, w.state.notify, { buf with bytes := w.buf }, w.log⟩ } with
    pool := if w.phase = .exited then rt.pool.release { buf with bytes := w.buf } else rt.pool }

end Runtime

/-! ## Events -/

/-- An order in which a reader that ends may iterate over its map. -/
abbrev Order := List (Sigma fun _ : Bytes => Bytes)

/-- An event. -/
inductive Event (n : ℕ) where
  /-- A client connects to shard `i`. -/
  | connect (i : Fin n)
  /-- A client sends bytes. -/
  | send (i : Fin n) (r : ConnRef) (bytes : Bytes)
  /-- A client closes its side of the connection. -/
  | close (i : Fin n) (r : ConnRef)
  /-- A reader is polled for the first time. -/
  | start (i : Fin n) (r : ConnRef)
  /-- A read returns `k` bytes. -/
  | read (i : Fin n) (r : ConnRef) (k : ℕ) (order : Order)
  /-- A read returns no bytes. -/
  | readEnd (i : Fin n) (r : ConnRef) (order : Order)
  /-- A read fails. -/
  | readFail (i : Fin n) (r : ConnRef) (order : Order)
  /-- The inner loop of a reader parses. -/
  | parse (i : Fin n) (r : ConnRef) (order : Order)
  /-- The inner loop of a reader looks for a close reason. -/
  | check (i : Fin n) (r : ConnRef) (order : Order)
  /-- The next round of the push loop; if it has found the inbox empty, is the kick made? -/
  | push (i : Fin n) (kicks : Bool)
  /-- The drain task's read returns. -/
  | drainRead (i : Fin n)
  /-- The next round of the pop loop. -/
  | drainPop (i : Fin n)
  /-- The drain task's read fails, which ends the task. -/
  | drainFail (i : Fin n)
  /-- A writer is polled, when it was just spawned or was woken. -/
  | poll (i : Fin n) (r : ConnRef)
  /-- The write of a writer has ended. -/
  | written (i : Fin n) (r : ConnRef) (ok : Bool)

/-- The shard an event happens at. -/
def Event.shard : Event n → Fin n
  | .connect i | .send i _ _ | .close i _ | .start i _ | .read i _ _ _ | .readEnd i _ _
  | .readFail i _ _ | .parse i _ _ | .check i _ _ | .push i _ | .drainRead i | .drainPop i
  | .drainFail i | .poll i _ | .written i _ _ => i

/-- What a shard does: actions of the broker, and then a change of the shard's tasks. -/
abbrev Plan (B : FixedBufPool) (n : ℕ) := List (Action n) × (Runtime B → Runtime B)

namespace Process

/-- The link of a connection. -/
def link (s : Process B n) (i : Fin n) (r : ConnRef) : Option Link := (s.runtimes i).links[r]?

/-- A connection. -/
def conn (s : Process B n) (i : Fin n) (r : ConnRef) : Option Connection :=
  (s.broker.shards i).worker.conns[r]?

/-- All tasks of the shard are at an await. -/
def Free (s : Process B n) (i : Fin n) : Prop :=
  (s.broker.shards i).activity = .idle ∧ (s.runtimes i).running = none

/-- Whether a thread is free can be decided. -/
instance Free.decidable (s : Process B n) (i : Fin n) : Decidable (s.Free i) :=
  inferInstanceAs (Decidable (_ ∧ _))

end Process

section plans

variable (i : Fin n) (r : ConnRef)

/-- Two buffers for a connection, if there are two.
Source: `main.rs`, `worker_main` -/
def acceptPlan (rt : Runtime B) : Plan B n :=
  match rt.pool.acquire with
  | none => ([.task i (.accept false)], id)
  | some (readBuf, pool) =>
      match pool.acquire with
      | none => ([.task i (.accept false)], fun rt => { rt with pool := pool.release readBuf })
      | some (writeBuf, pool) =>
          ([.task i (.accept true)], fun rt =>
            { rt with pool := pool, links := rt.links ++ [.new readBuf writeBuf] })

/-- The reader leaves its loop.
Source: `main.rs`, `reader_task` -/
def exitPlan (l : Link) (order : Order) : Plan B n :=
  ([.task i (.exit r order)], fun rt => rt.readerExit r l.reader.buf)

/-- The reader marks the connection for close, and leaves its loop.
Source: `main.rs`, `reader_task` -/
def rejectPlan (l : Link) (order : Order) : Plan B n :=
  ([.task i (.reject r), .task i (.exit r order)], fun rt => rt.readerExit r l.reader.buf)

/-- The reader and its socket after a read of `k` bytes. -/
def Link.afterRead (l : Link) (k : ℕ) : Link :=
  let bytes := overwrite l.reader.buf.bytes 0 (l.socket.inbound.take k)
  { l with
    socket := { l.socket with taken := l.socket.taken + k }
    reader := ⟨.parsing 0, l.reader.accum ++ bytes.take k, { l.reader.buf with bytes := bytes }⟩ }

/-- A read returns `k` bytes: they go to the accumulator, which must not grow too large.
Source: `main.rs`, `reader_task` -/
def readPlan (l : Link) (k : ℕ) (order : Order) : Plan B n :=
  let l := l.afterRead k
  if l.reader.accum.length > maxFrameSize then
    ([.task i (.reject r), .task i (.exit r order)],
      fun rt => (rt.modify r fun l => l.afterRead k).readerExit r l.reader.buf)
  else ([], fun rt => { rt.modify r fun l => l.afterRead k with running := some r })

/-- The end of a round of the outer loop: the consumed bytes are dropped, and the reader reads
again unless the connection is to close.
Source: `main.rs`, `reader_task` -/
def roundPlan (c : Connection) (l : Link) (consumedTotal : ℕ)
    (order : Order) : Plan B n :=
  if c.state.closeWith.isSome then exitPlan i r l order
  else ([], fun rt => { rt.modify r fun l => { l with reader :=
      ⟨.waiting, l.reader.accum.drop consumedTotal, l.reader.buf⟩ } with running := none })

/-- The inner loop parses: a frame is handled.
Source: `main.rs`, `reader_task` -/
def parsePlan (c : Connection) (l : Link) (consumedTotal : ℕ)
    (order : Order) : Plan B n :=
  match parseFrame (l.reader.accum.drop consumedTotal) with
  | .frame frame consumed =>
      ([.task i (.frame r frame)],
        fun rt => rt.modify r (·.goto (.checking (consumedTotal + consumed))))
  | .needMore => roundPlan i r c l consumedTotal order
  | .err _ => rejectPlan i r l order

/-- A frame was handled: the inner loop goes on unless the connection is to close.
Source: `main.rs`, `reader_task` -/
def checkPlan (c : Connection) (l : Link) (consumedTotal : ℕ)
    (order : Order) : Plan B n :=
  if c.state.closeWith.isSome then exitPlan i r l order
  else ([], fun rt => rt.modify r (·.goto (.parsing consumedTotal)))

/-- The writer goes on. It drains when it was woken, and after a write that succeeded.
Source: `main.rs`, `writer_task` -/
def writerPlan (l : Link) (a : Writer.Action) (w : Writer) : Plan B n :=
  (if l.writer.phase = .woken ∨ l.writer.phase = .writing ∧ a = .written true then
    [.task i (.send r l.writer.buf.bytes)] else [], fun rt => rt.setWriter r w l.writer.buf)

end plans

namespace Process

variable (s : Process B n)

/-- What an event makes its shard do, if it can happen. -/
def next : Event n → Option (Plan B n)
  | .connect i => do
      guard (s.Free i)
      return acceptPlan i (s.runtimes i)
  | .send i r bytes => do
      let l ← s.link i r
      guard (l.socket.closed = false)
      return ([], fun rt => rt.modify r fun l =>
        { l with socket := { l.socket with stream := l.socket.stream ++ bytes } })
  | .close i r => do
      let l ← s.link i r
      guard (l.socket.closed = false)
      return ([], fun rt => rt.modify r fun l =>
        { l with socket := { l.socket with closed := true } })
  | .start i r => do
      let l ← s.link i r
      guard (s.Free i ∧ l.reader.phase = .starting)
      return ([.task i (.greet r)], fun rt => rt.modify r (·.goto .waiting))
  | .read i r k order => do
      let l ← s.link i r
      guard (s.Free i ∧ l.reader.phase = .waiting ∧ 0 < k ∧ k ≤ l.reader.buf.bytes.length ∧
        k ≤ l.socket.inbound.length)
      return readPlan i r l k order
  | .readEnd i r order => do
      let l ← s.link i r
      guard (s.Free i ∧ l.reader.phase = .waiting ∧
        (l.socket.shut ∨ l.socket.closed ∧ l.socket.inbound = []))
      return exitPlan i r l order
  | .readFail i r order => do
      let l ← s.link i r
      guard (s.Free i ∧ l.reader.phase = .waiting)
      return exitPlan i r l order
  | .parse i r order => do
      let l ← s.link i r
      let c ← s.conn i r
      guard ((s.broker.shards i).activity = .idle ∧ (s.runtimes i).running = some r)
      match l.reader.phase with
      | .parsing consumedTotal => return parsePlan i r c l consumedTotal order
      | _ => none
  | .check i r order => do
      let l ← s.link i r
      let c ← s.conn i r
      guard ((s.broker.shards i).activity = .idle ∧ (s.runtimes i).running = some r)
      match l.reader.phase with
      | .checking consumedTotal => return checkPlan i r c l consumedTotal order
      | _ => none
  | .push i _ => some ([.push i], id)
  | .drainRead i => do
      guard (s.Free i ∧ (s.runtimes i).draining ∧ s.lost i < s.broker.wakers i)
      return ([.drainRead i], id)
  | .drainPop i => some ([.drainPop i], id)
  | .drainFail i => do
      guard (s.Free i ∧ (s.runtimes i).draining)
      return ([], fun rt => { rt with draining := false })
  | .poll i r => do
      let l ← s.link i r
      let c ← s.conn i r
      guard (s.Free i)
      let w ← (l.writerOf c.state).step .poll
      return writerPlan i r l .poll w
  | .written i r ok => do
      let l ← s.link i r
      let c ← s.conn i r
      guard (s.Free i)
      let w ← (l.writerOf c.state).step (.written ok)
      return writerPlan i r l (.written ok) w

/-- An action of the broker, and the notifications of the calls it makes. -/
def act (a : Action n) : Option (Process B n) := do
  let broker ← Server.step s.broker a
  let i := a.shard
  return {
    broker := broker
    runtimes := Function.update s.runtimes i ((s.runtimes i).notice
      (callsOn (s.broker.shards i).worker (broker.shards i).worker i a))
    trace := s.trace ++ [a]
    lost := s.lost }

/-- The tasks of a shard change. -/
def change (i : Fin n) (f : Runtime B → Runtime B) : Process B n :=
  { s with runtimes := Function.update s.runtimes i (f (s.runtimes i)) }

/-- The runtime that was changed. -/
@[simp] lemma runtimes_change_self (i : Fin n) (f : Runtime B → Runtime B) :
    (s.change i f).runtimes i = f (s.runtimes i) := by
  simp [change]

/-- The other runtimes stay. -/
lemma runtimes_change_ne {i j : Fin n} (h : j ≠ i) (f : Runtime B → Runtime B) :
    (s.change i f).runtimes j = s.runtimes j := by
  simp [change, h]

/-- The process with another count of lost kicks. -/
def withLost (lost : Fin n → ℕ) : Process B n := { s with lost := lost }

/-- A lost kick leaves the runtimes. -/
@[simp] lemma runtimes_withLost (lost : Fin n → ℕ) : (s.withLost lost).runtimes = s.runtimes := rfl

/-- The kicks that were lost, when an event has led to the state `s'`: of a push all those that it
should have made, if it makes none; a read of the eventfd starts a new count. -/
def lostAfter (s' : Process B n) : Event n → Fin n → ℕ
  | .push _ false => fun j => s.lost j + (s'.broker.wakers j - s.broker.wakers j)
  | .drainRead i => Function.update s.lost i 0
  | _ => s.lost

/-- An event. -/
def step (e : Event n) : Option (Process B n) := do
  let (actions, f) ← s.next e
  let s' ← run act s actions
  return (s'.withLost (s.lostAfter s' e)).change e.shard f

end Process

end Aulon.Server
