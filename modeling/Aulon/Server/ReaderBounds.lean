import Aulon.Proto.ParseBounds
import Aulon.Server.Reader

/-!
# The read loop and its indices

The read loop with the slice it parses, the unchecked sum of the consumed bytes and the drain, each
of which can panic. A frame takes more than two bytes and never more than there are, so the inner
loop comes to an end on every accumulator, within its bytes.

* `takeFramesRaw_eq` — the inner loop ends and never panics.
* `readerTaskRaw_eq` — nor does the whole loop, however the reads come in.
* `parser_and_reader_in_bounds` — the parser, what a frame takes, and the inner loop together.

Source: `aulon-server/src/main.rs`, `reader_task`.
-/

namespace Aulon.Server

open Aulon.Lib Aulon.Core Aulon.Proto

variable {σ : Type} (env : Handlers σ)

/-- The inner loop, for a given number of rounds: nothing if it has not ended by then.
Source: `main.rs`, `reader_task` -/
def takeFramesRaw (accum : Bytes) : ℕ → ℕ → σ → List Frame → Checked (Option (Taken σ))
  | 0, _, _, _ => .ok none
  | fuel + 1, consumedTotal, s, calls => do
      match ← parseFrameRaw (← Checked.range accum consumedTotal accum.length) with
      | .frame frame consumed =>
          let s := env.handleFrame s frame
          let calls := calls ++ [frame]
          let consumedTotal ← Checked.add consumedTotal consumed
          if (env.closeReason s).isSome then return some ⟨consumedTotal, s, calls, false⟩
          else takeFramesRaw accum fuel consumedTotal s calls
      | .needMore => return some ⟨consumedTotal, s, calls, false⟩
      | .err _ => return some ⟨consumedTotal, env.markClose s .protocolError, calls, true⟩

/-- What `accum.drain(..consumed_total)` leaves.
Source: `main.rs`, `reader_task` -/
def drainRaw (accum : Bytes) (consumedTotal : ℕ) : Checked Bytes :=
  if consumedTotal > 0 then Checked.range accum consumedTotal accum.length else .ok accum

/-- The outer loop, with the inner one and the drain as above.
Source: `main.rs`, `reader_task` -/
def readerTaskRaw (last : σ → σ) :
    Bytes → List Frame → σ → List (Bytes × (σ → σ)) → Checked (Option (ReaderEnd σ))
  | _, calls, s, [] => .ok (some ⟨calls, .eof, leave env (last s)⟩)
  | accum, calls, s, (bytes, others) :: reads => do
      let s := others s
      let accum := accum ++ bytes
      if accum.length > maxFrameSize then
        return some ⟨calls, .tooLarge, leave env (env.markClose s .protocolError)⟩
      else
        match ← takeFramesRaw env accum (accum.length + 1) 0 s calls with
        | none => return none
        | some t =>
            let accum ← drainRaw accum t.consumedTotal
            if (env.closeReason t.world).isSome then
              return some ⟨t.calls, if t.malformed then .malformed else .closed, leave env t.world⟩
            else readerTaskRaw last accum t.calls t.world reads

/-- The slice from an index to the end. -/
lemma range_to_end {accum : Bytes} {i : ℕ} (hi : i ≤ accum.length) :
    Checked.range accum i accum.length = .ok (accum.drop i) := by
  rw [Checked.range_eq hi le_rfl, slice, List.take_length]

/-- A drain within the accumulator does not panic. -/
lemma drainRaw_eq {accum : Bytes} {consumedTotal : ℕ} (h : consumedTotal ≤ accum.length) :
    drainRaw accum consumedTotal = .ok (accum.drop consumedTotal) := by
  rw [drainRaw]
  split
  · exact range_to_end h
  · next hzero => rw [Nat.eq_zero_of_not_pos hzero, List.drop_zero]

/-- From any place within the accumulator, the inner loop ends after at most one round for each
byte left and one more, and stays within the accumulator. -/
lemma takeFramesRaw_eq {accum : Bytes} (haccum : accum.length < signBit) {fuel consumedTotal : ℕ}
    (hle : consumedTotal ≤ accum.length) (hfuel : accum.length - consumedTotal < fuel) (s : σ)
    (calls : List Frame) :
    takeFramesRaw env accum fuel consumedTotal s calls =
        .ok (some (takeFrames env accum fuel consumedTotal s calls)) ∧
      (takeFrames env accum fuel consumedTotal s calls).consumedTotal ≤ accum.length := by
  have hword := signBit_add_signBit
  induction fuel generalizing consumedTotal s calls with
  | zero => omega
  | succ fuel ih =>
      have hparse : parseFrameRaw (accum.drop consumedTotal) =
          .ok (parseFrame (accum.drop consumedTotal)) :=
        parseFrameRaw_eq (by rw [List.length_drop]; omega)
      rw [takeFramesRaw, takeFrames, Checked.bind_ok (range_to_end hle), Checked.bind_ok hparse]
      cases hp : parseFrame (accum.drop consumedTotal) with
      | needMore => exact ⟨rfl, hle⟩
      | err e => exact ⟨rfl, hle⟩
      | frame frame consumed =>
          -- the frame lies in what is left of the accumulator
          obtain ⟨htwo, hconsumed⟩ := two_lt_of_parseFrame hp
          rw [List.length_drop] at hconsumed
          dsimp only
          rw [Checked.bind_ok (Checked.add_eq (by omega))]
          by_cases hclosed : (env.closeReason (env.handleFrame s frame)).isSome = true
          · rw [if_pos hclosed, if_pos hclosed]
            exact ⟨rfl, by dsimp only; omega⟩
          · rw [if_neg hclosed, if_neg hclosed]
            exact ih (by omega) (by omega) _ _

/-- With the rounds the model gives it, the inner loop ends on every accumulator. -/
lemma takeFramesRaw_start {accum : Bytes} (haccum : accum.length < signBit) (s : σ)
    (calls : List Frame) :
    takeFramesRaw env accum (accum.length + 1) 0 s calls =
        .ok (some (takeFrames env accum (accum.length + 1) 0 s calls)) ∧
      (takeFrames env accum (accum.length + 1) 0 s calls).consumedTotal ≤ accum.length :=
  takeFramesRaw_eq env haccum (Nat.zero_le _) (by omega) s calls

/-- The limit of the accumulator leaves the indices far from an overflow. -/
lemma maxFrameSize_lt : maxFrameSize < signBit := by decide

/-- Whatever the reads bring and the other tasks do, the read loop never panics and each of its
inner loops ends. -/
theorem readerTaskRaw_eq (last : σ → σ) (accum : Bytes) (calls : List Frame) (s : σ)
    (reads : List (Bytes × (σ → σ))) : readerTaskRaw env last accum calls s reads =
      .ok (some (readerTask env last accum calls s reads)) := by
  induction reads generalizing accum calls s with
  | nil => rfl
  | cons read reads ih =>
      obtain ⟨bytes, others⟩ := read
      rw [readerTaskRaw, readerTask]
      dsimp only
      by_cases hlarge : (accum ++ bytes).length > maxFrameSize
      · rw [if_pos hlarge, if_pos hlarge]
        rfl
      · -- an accumulator that is parsed has at most `MAX_FRAME_SIZE` bytes
        have hshort : (accum ++ bytes).length < signBit :=
          (Nat.le_of_not_gt hlarge).trans_lt maxFrameSize_lt
        obtain ⟨htake, hconsumed⟩ := takeFramesRaw_start env hshort (others s) calls
        rw [if_neg hlarge, if_neg hlarge, Checked.bind_ok htake]
        generalize takeFrames env (accum ++ bytes) _ 0 (others s) calls = t at hconsumed
        dsimp only
        rw [Checked.bind_ok (drainRaw_eq hconsumed)]
        by_cases hclosed : (env.closeReason t.world).isSome = true
        · rw [if_pos hclosed, if_pos hclosed]
          rfl
        · rw [if_neg hclosed, if_neg hclosed]
          exact ih _ _ _

/-- On every buffer below `2 ^ 63` bytes the parser returns; a frame takes more than two bytes,
none beyond the buffer, and its payload is as long as its line announces; and the inner loop of the
reader on that accumulator ends, with a total that can be drained. -/
theorem parser_and_reader_in_bounds (buf : Bytes) (hbuf : buf.length < 2 ^ 63) :
    parseFrameRaw buf = .ok (parseFrame buf) ∧
    (∀ f c, parseFrame buf = .frame f c → (2 < c ∧ c ≤ buf.length) ∧
      ∀ payload, f.payload = some payload →
        ∃ line, FirstCrlf buf line.length ∧ buf.take c = line ++ crlf ++ (payload ++ crlf) ∧
          Announces line payload.length) ∧
    ∀ (σ : Type) (env : Handlers σ) (s : σ) (calls : List Frame),
      ∃ t, takeFramesRaw env buf (buf.length + 1) 0 s calls = .ok (some t) ∧
        t = takeFrames env buf (buf.length + 1) 0 s calls ∧ t.consumedTotal ≤ buf.length ∧
        drainRaw buf t.consumedTotal = .ok (buf.drop t.consumedTotal) := by
  refine ⟨parseFrameRaw_eq hbuf, fun f c h => ⟨two_lt_of_parseFrame h, fun payload hp =>
    payload_of_parseFrame h hp⟩, fun σ env s calls => ?_⟩
  obtain ⟨htake, hconsumed⟩ := takeFramesRaw_start env hbuf s calls
  exact ⟨_, htake, rfl, hconsumed, drainRaw_eq hconsumed⟩

/-- A publish, half a frame after it, and a world that is the close reason alone. -/
theorem parser_and_reader_in_bounds_pub :
    let buf := ascii "PUB foo 2\r\nhi\r\nPI"
    let env : Handlers (Option CloseReason) :=
      ⟨fun s _ => s, id, id, fun s reason => s.orElse fun _ => some reason⟩
    parseFrameRaw buf = .ok (.frame (.pub (ascii "foo") none (ascii "hi")) 15) ∧
      ∃ t, takeFramesRaw env buf (buf.length + 1) 0 none [] = .ok (some t) ∧
        t.consumedTotal = 15 ∧ drainRaw buf t.consumedTotal = .ok (ascii "PI") := by
  intro buf env
  obtain ⟨hparse, -, hloop⟩ := parser_and_reader_in_bounds buf (by decide)
  obtain ⟨t, htake, rfl, -, hdrain⟩ := hloop _ env none []
  refine ⟨hparse.trans (congrArg Except.ok (by decide)), _, htake, by decide, hdrain.trans ?_⟩
  exact congrArg Except.ok (by decide)

end Aulon.Server
