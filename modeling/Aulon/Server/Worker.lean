import Aulon.Core.ConnectionState
import Aulon.Core.TrieRefinement
import Aulon.Proto.Emit
import Aulon.Server.Reader
import Mathlib.Data.List.AList

/-!
# A worker

One shard's share of the broker: its trie, its connections, and the handlers that run on its
thread. Nothing here awaits, so each function is one atomic piece of a task of the worker.

Connections are shared objects: a task holds a reference to its connection, and the worker's map
takes connection ids to references. A reference is a position in the list `Worker.conns` of all
connections the worker ever accepted, and the reader's own `sid → subject` map is kept with the
connection.

`Worker.offers` is a history that no code reads: every attempt to enqueue a frame for a
connection, with its outcome.

* `dispatchLocal` — match a publication and offer it to subscribers and queue groups.
* `handleCommand` — every arm of `handle_frame` but `PUB`.
* `cleanup` — what the reader does last.
-/

namespace Aulon.Server

open Aulon.Lib Aulon.Core Aulon.Proto

/-! ## Constants and texts -/

/-- Source: `main.rs`, `EMIT_SCRATCH_CAPACITY` -/
def emitScratchCapacity : ℕ := maxPayloadBytes + 4096

/-- Source: `main.rs`, `SHORT_FRAME_BUF` -/
def shortFrameBuf : ℕ := 4096

/-- Source: `main.rs`, `SERVER_INFO_JSON` -/
def serverInfoJson : Bytes :=
  ascii "\x7b\"server_id\":\"aulon\",\"server_name\":\"aulon\",\"version\":\"0.0.1\"," ++
  ascii "\"host\":\"127.0.0.1\",\"port\":4222,\"max_payload\":1048576,\"proto\":1," ++
  ascii "\"headers\":false,\"jetstream\":false\x7d"

/-- Source: `main.rs`, `subject_error_text` -/
def subjectErrorText : SubjectError → Bytes
  | .empty => ascii "empty subject"
  | .emptyToken => ascii "empty token in subject"
  | .wildcardInPublish => ascii "wildcard not allowed in publish subject"
  | .invalidGreaterPosition => ascii "`>` must be the last token"

/-! ## State -/

/-- Where the reader task of a connection stands: spawned, in its read loop, or done. -/
inductive ReaderStatus where
  | starting
  | reading
  | finished
deriving DecidableEq, Repr

/-- A connection: the state its tasks share, and the reader's map from sids to subjects. -/
structure Connection where
  state : ConnectionState
  subscriptions : AList (fun _ : Bytes => Bytes)
  reader : ReaderStatus

/-- A reference to a connection. -/
abbrev ConnRef := ℕ

/-- One attempt to enqueue `bytes`, the encoding of `frame`, for a connection; `group` is the
queue group on whose behalf a message was offered. -/
structure Offer where
  target : ConnRef
  group : Option Bytes
  frame : Frame
  bytes : Bytes
  outcome : EnqueueOutcome
deriving DecidableEq

/-- Source: `main.rs`, `Worker` -/
structure Worker where
  table : SubscriptionTrie
  connections : AList (fun _ : ConnectionId => ConnRef)
  nextConnId : UInt32
  emitScratch : Bytes
  rng : UInt64
  conns : List Connection
  offers : List Offer

/-- A publication, as it travels between shards.
Source: `main.rs`, `PublishedFrame` -/
structure PublishedFrame where
  subject : Bytes
  replyTo : Option Bytes
  payload : Bytes
deriving DecidableEq, Repr

/-- The message that carries the publication to a subscription. -/
def PublishedFrame.msg (frame : PublishedFrame) (sid : Bytes) : Frame :=
  .msg frame.subject sid frame.replyTo frame.payload

/-- The generator of queue-group picks.
Source: `main.rs`, `Worker::pick_index` -/
def xorshift (s : UInt64) : UInt64 :=
  let s := s ^^^ (s <<< 13)
  let s := s ^^^ (s >>> 7)
  s ^^^ (s <<< 17)

namespace Worker

/-- Source: `main.rs`, `Worker::new` -/
def new (shardId : UInt32) : Worker where
  table := .new
  connections := ∅
  nextConnId := 0
  emitScratch := List.replicate emitScratchCapacity 0
  rng := 0x123456789abcdef0 ^^^ (shardId.toUInt64 * 0x9E3779B9)
  conns := []
  offers := []

/-- Source: `main.rs`, `Worker::next_id` -/
def nextId (w : Worker) : ConnectionId × Worker :=
  (⟨w.nextConnId⟩, { w with nextConnId := w.nextConnId + 1 })

/-- Source: `main.rs`, `Worker::lookup` -/
def lookup (w : Worker) (id : ConnectionId) : Option ConnRef := w.connections.lookup id

/-- An index below `n`, and the worker with the next state of the generator.
Source: `main.rs`, `Worker::pick_index` -/
def pickIndex (w : Worker) (n : ℕ) : ℕ × Worker :=
  ((xorshift w.rng).toNat % n, { w with rng := xorshift w.rng })

/-- Enqueue the bytes of a frame for a connection. -/
def offer (w : Worker) (target : ConnRef) (group : Option Bytes) (frame : Frame) (bytes : Bytes) :
    Worker :=
  match w.conns[target]? with
  | none => w
  | some c =>
      { w with
        conns := w.conns.set target { c with state := (c.state.enqueue bytes).2 }
        offers := w.offers ++ [⟨target, group, frame, bytes, (c.state.enqueue bytes).1⟩] }

/-- Source: `main.rs`, `emit_err_to` -/
def emitErrTo (w : Worker) (target : ConnRef) (msg : Bytes) : Worker :=
  match emitErr msg (List.replicate shortFrameBuf 0) with
  | (.ok n, buf) => w.offer target none (.err msg) (buf.take n)
  | (.error _, _) => w

/-! ## Dispatch -/

/-- What `dispatch_local` keeps of a match. -/
abbrev Snapshot := ConnectionId × Bytes

/-- The visitor `dispatch_local` passes to the trie: subscriptions without a group one after the
other, the others by group, in the order in which the groups are first met.
Source: `main.rs`, `dispatch_local` -/
def collect (acc : List Snapshot × List (Bytes × List Snapshot)) (sub : Sub) :
    List Snapshot × List (Bytes × List Snapshot) :=
  match sub.queueGroup with
  | some qg => (acc.1, addAt acc.2 qg (sub.connId, sub.sid))
  | none => (acc.1 ++ [(sub.connId, sub.sid)], acc.2)

/-- Encode a message into the scratch buffer and enqueue it; a message that does not fit the
scratch is skipped, and so is one for an id that is not registered.
Source: `main.rs`, `dispatch_local` -/
def deliver (w : Worker) (frame : PublishedFrame) (group : Option Bytes) (entry : Snapshot) :
    Worker :=
  match emitMsg frame.subject entry.2 frame.replyTo frame.payload w.emitScratch with
  | (.error _, scratch) => { w with emitScratch := scratch }
  | (.ok n, scratch) =>
      let w := { w with emitScratch := scratch }
      match w.lookup entry.1 with
      | none => w
      | some target => w.offer target group (frame.msg entry.2) (scratch.take n)

/-- Pick one member of a group and deliver to it. The pick is always in range; the source would
panic otherwise.
Source: `main.rs`, `dispatch_local` -/
def deliverToGroup (w : Worker) (frame : PublishedFrame) (group : Bytes × List Snapshot) :
    Worker :=
  let (pick, w) := w.pickIndex group.2.length
  match group.2[pick]? with
  | none => w
  | some entry => w.deliver frame (some group.1) entry

/-- Match a publication and deliver it on this worker; an invalid subject changes nothing.
Source: `main.rs`, `dispatch_local` -/
def dispatchLocal (w : Worker) (frame : PublishedFrame) : Except SubjectError Worker := do
  let (plain, groups) ← w.table.forEachMatch frame.subject collect ([], [])
  let w := plain.foldl (fun w entry => w.deliver frame none entry) w
  return groups.foldl (fun w group => w.deliverToGroup frame group) w

/-! ## The reader task -/

/-- Accept a connection. The id is taken first; if the buffer pool is exhausted the connection is
dropped again.
Source: `main.rs`, `worker_main` -/
def accept (w : Worker) (granted : Bool) : Worker :=
  let (id, w) := w.nextId
  if granted then
    { w with
      connections := w.connections.insert id w.conns.length
      conns := w.conns ++ [⟨.new id defaultOutboundCapacity, ∅, .starting⟩] }
  else w

/-- The worker with another state of a connection. -/
def setState (w : Worker) (r : ConnRef) (c : Connection) (state : ConnectionState) : Worker :=
  { w with conns := w.conns.set r { c with state := state } }

/-- The worker with the reader of a connection in another state. -/
def setReader (w : Worker) (r : ConnRef) (status : ReaderStatus) : Worker :=
  { w with conns := w.conns.modify r fun c => { c with reader := status } }

/-- The greeting a reader sends before its loop; a reader that cannot encode it gives up.
Source: `main.rs`, `reader_task` -/
def greet (w : Worker) (r : ConnRef) : Worker :=
  match emitInfo serverInfoJson (List.replicate shortFrameBuf 0) with
  | (.ok n, buf) => (w.offer r none (.info serverInfoJson) (buf.take n)).setReader r .reading
  | (.error _, _) =>
      { w with conns := w.conns.modify r fun c =>
        { c with state := c.state.markClose .protocolError, reader := .finished } }

/-- Source: `main.rs`, `handle_frame`, `Frame::Sub` -/
def handleSub (w : Worker) (r : ConnRef) (c : Connection) (subject : Bytes)
    (queueGroup : Option Bytes) (sid : Bytes) : Worker :=
  match w.table.subscribe subject ⟨c.state.id, sid, queueGroup⟩ with
  | .error e => w.emitErrTo r (subjectErrorText e)
  | .ok table =>
      { w with
        table := table
        conns := w.conns.set r { c with subscriptions := c.subscriptions.insert sid subject } }

/-- Source: `main.rs`, `handle_frame`, `Frame::Unsub` -/
def handleUnsub (w : Worker) (r : ConnRef) (c : Connection) (sid : Bytes)
    (maxMsgs : Option UInt64) : Worker :=
  if maxMsgs.isSome then w.emitErrTo r (ascii "UNSUB max_msgs not supported in v1")
  else
    match c.subscriptions.lookup sid with
    | none => w
    | some subject =>
        { w with
          table := (w.table.unsubscribe subject c.state.id sid).1
          conns := w.conns.set r { c with subscriptions := c.subscriptions.erase sid } }

/-- Source: `main.rs`, `handle_frame`, `Frame::Ping` -/
def handlePing (w : Worker) (r : ConnRef) : Worker :=
  match emitPong (List.replicate 8 0) with
  | (.ok n, buf) => w.offer r none .pong (buf.take n)
  | (.error _, _) => w

/-- Every arm of the frame handler but the one for `PUB`, which may reach other shards.
Source: `main.rs`, `handle_frame` -/
def handleCommand (w : Worker) (r : ConnRef) (c : Connection) : Frame → Worker
  | .connect _ | .pong | .pub _ _ _ => w
  | .ping => w.handlePing r
  | .sub subject queueGroup sid => w.handleSub r c subject queueGroup sid
  | .unsub sid maxMsgs => w.handleUnsub r c sid maxMsgs
  | .msg _ _ _ _ | .info _ | .ok | .err _ => w.emitErrTo r (ascii "unexpected verb")

/-- The reader's last act: remove the subscriptions of its map, in whatever order the map is
iterated, unregister the id, and close.
Source: `main.rs`, `reader_task` -/
def cleanup (w : Worker) (r : ConnRef) (c : Connection)
    (order : List (Sigma fun _ : Bytes => Bytes)) : Worker :=
  { w with
    table := order.foldl (fun table e => (table.unsubscribe e.2 c.state.id e.1).1) w.table
    connections := w.connections.erase c.state.id
    conns := w.conns.set r { c with state := c.state.markClose .peerClosed, reader := .finished } }

end Worker

end Aulon.Server
