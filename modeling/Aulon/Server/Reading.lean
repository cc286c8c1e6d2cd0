import Aulon.Server.ViewRuns

/-!
# What readers make of their streams

The reader task of every connection in every state of every run: which frames it has handled of what
the client has sent, what it keeps for later, and when it stops.

* `phased_run` — the reader is where the broker takes it to be.
* `reads_run` — it is partway through the greedy parse of what it has received.
* `View.closeWith_moves`, `View.closeWith_offer` — a reason to close stays.
-/

namespace Aulon.Server

open Aulon.Lib Aulon.Core Aulon.Proto

variable {B : FixedBufPool} {n inboxCapacity poolCapacity : ℕ} {es : List (Event n)}
  {s : Process B n} {i : Fin n} {r : ConnRef} {v v' : View}

/-! ## Phases -/

/-- What a phase of a reader is for the broker. -/
def ReaderPhase.status : ReaderPhase → ReaderStatus
  | .starting => .starting
  | .waiting | .parsing _ | .checking _ => .reading
  | .finished => .finished

/-- The reader is where the broker takes it to be. -/
def View.Phased (v : View) : Prop := v.status = v.link.reader.phase.status

/-- A move takes the reader along with what the broker knows of it. -/
lemma View.Phased.moves (h : v.Phased) {a : Agent} (hmoves : v.Moves a v') : v'.Phased := by
  unfold View.Phased at h ⊢
  cases hmoves with
  | send | close | write => exact h
  | start => rfl
  | overflow | eof | malformed | roundClosed | checkClosed => rfl
  | read k hphase | frame k f c hphase | round k hphase | check k hphase =>
      rw [hphase] at h
      exact h

/-- The broker knows where the reader is, after every run. -/
lemma phased_run (hrun : run Process.step (.init n inboxCapacity poolCapacity) es = some s)
    (hv : s.view i r = some v) : v.Phased :=
  Process.view_run (fun _ _ _ _ _ => rfl) (fun _ _ _ h hmoves => h.moves hmoves) (fun _ _ h _ => h)
    hrun hv

/-! ## Frames -/

/-- What the reader has received. -/
def View.received (v : View) : Bytes := v.link.socket.stream.take v.link.socket.taken

/-- How much of the accumulator is consumed. -/
def ReaderPhase.consumed : ReaderPhase → ℕ
  | .parsing consumedTotal | .checking consumedTotal => consumedTotal
  | _ => 0

/-- The reader is partway through the greedy parse of what it has received: the frames handled so
far are taken, and the rest of the accumulator is left. A reader at an await has taken all there
is. When it has returned, it has handled the first frames. -/
structure View.Reads (v : View) : Prop where
  taken : v.link.socket.taken ≤ v.link.socket.stream.length
  consumed : v.link.reader.phase ≠ .finished →
    v.link.reader.phase.consumed ≤ v.link.reader.accum.length ∧
      v.link.reader.accum.length ≤ maxFrameSize
  partway : v.link.reader.phase ≠ .finished → ∃ fs, v.frames = fs.map (·.1) ∧
    Partway parseFrame v.received fs (v.link.reader.accum.drop v.link.reader.phase.consumed)
  clean : v.link.reader.phase = .starting ∨ v.link.reader.phase = .waiting →
    parseFrame v.link.reader.accum = .needMore
  frames : v.frames <+: (parseAll parseFrame v.received).frames.map (·.1)

namespace View

/-- A reader that is partway through the parse reads it. -/
lemma Reads.of_partway (htaken : v.link.socket.taken ≤ v.link.socket.stream.length)
    (hconsumed : v.link.reader.phase.consumed ≤ v.link.reader.accum.length)
    (hsize : v.link.reader.accum.length ≤ maxFrameSize) {fs : List (Frame × ℕ)}
    (hfs : v.frames = fs.map (·.1)) (hpartway : Partway parseFrame v.received fs
      (v.link.reader.accum.drop v.link.reader.phase.consumed))
    (hclean : v.link.reader.phase = .starting ∨ v.link.reader.phase = .waiting →
      parseFrame v.link.reader.accum = .needMore) : v.Reads := by
  refine ⟨htaken, fun _ => ⟨hconsumed, hsize⟩, fun _ => ⟨fs, hfs, hpartway⟩, hclean, ?_⟩
  rw [hfs]
  exact hpartway.isPrefix.map _

/-- The reader returns. -/
lemma Reads.leave (htaken : v.link.socket.taken ≤ v.link.socket.stream.length)
    (hframes : v.frames <+: (parseAll parseFrame v.received).frames.map (·.1)) :
    v.leave.Reads := by
  refine ⟨htaken, fun h => absurd rfl h, fun h => absurd rfl h, fun h => ?_, hframes⟩
  rcases h with h | h <;> cases h

/-- What a read brings. -/
lemma received_afterRead {k : ℕ} (hk : k ≤ v.link.socket.inbound.length) :
    (v.mapLink fun l => l.afterRead k).received = v.received ++ v.link.socket.inbound.take k ∧
      (v.link.afterRead k).reader.accum = v.link.reader.accum ++ v.link.socket.inbound.take k := by
  have hlen : (v.link.socket.inbound.take k).length = k := by simp [hk]
  refine ⟨?_, ?_⟩
  · show v.link.socket.stream.take (v.link.socket.taken + k) = _
    rw [List.take_add]
    rfl
  · show v.link.reader.accum ++ (overwrite _ 0 _).take k = _
    have htake := take_overwrite_zero v.link.reader.buf.bytes (v.link.socket.inbound.take k)
    rw [hlen] at htake
    rw [htake]

/-- The reader goes on over bytes that it has just received. -/
lemma Reads.afterRead (h : v.Reads) {k : ℕ} (hphase : v.link.reader.phase = .waiting)
    (hk : k ≤ v.link.socket.inbound.length) :
    (v.mapLink fun l => l.afterRead k).link.socket.taken ≤
        (v.mapLink fun l => l.afterRead k).link.socket.stream.length ∧
      ∃ fs, v.frames = fs.map (·.1) ∧
        Partway parseFrame (v.mapLink fun l => l.afterRead k).received fs
          (v.link.afterRead k).reader.accum := by
  obtain ⟨hreceived, haccum⟩ := received_afterRead (v := v) hk
  obtain ⟨fs, hfs, hpartway⟩ := h.partway (by simp [hphase])
  refine ⟨?_, fs, hfs, ?_⟩
  · have hlen : v.link.socket.inbound.length =
        v.link.socket.stream.length - v.link.socket.taken := List.length_drop
    have htaken := h.taken
    show v.link.socket.taken + k ≤ v.link.socket.stream.length
    omega
  · rw [hphase] at hpartway
    rw [hreceived, haccum]
    exact hpartway.append incremental_parseFrame (h.clean (Or.inr hphase)) _

/-- A move keeps the reader on the parse. -/
lemma Reads.moves (h : v.Reads) {a : Agent} (hmoves : v.Moves a v') : v'.Reads := by
  cases hmoves with
  | send bytes hopen =>
      have hreceived : (v.mapLink fun l => { l with socket :=
          { l.socket with stream := l.socket.stream ++ bytes } }).received = v.received :=
        List.take_append_of_le_length h.taken
      refine ⟨h.taken.trans (by simp [mapLink]), h.consumed, ?_, h.clean, ?_⟩
      · rw [hreceived]
        exact h.partway
      · rw [hreceived]
        exact h.frames
  | close | write => exact ⟨h.taken, h.consumed, h.partway, h.clean, h.frames⟩
  | start hphase =>
      obtain ⟨fs, hfs, hpartway⟩ := h.partway (by simp [hphase])
      obtain ⟨hconsumed, hsize⟩ := h.consumed (by simp [hphase])
      rw [hphase] at hpartway hconsumed
      exact .of_partway h.taken hconsumed hsize hfs hpartway fun _ => h.clean (Or.inl hphase)
  | read k hphase hpos hbuf hk hsize =>
      obtain ⟨htaken, fs, hfs, hpartway⟩ := h.afterRead hphase hk
      refine .of_partway htaken (Nat.zero_le _) hsize hfs hpartway fun hend => ?_
      rcases hend with hend | hend <;> cases hend
  | overflow k hphase hpos hbuf hk hsize =>
      obtain ⟨htaken, fs, hfs, hpartway⟩ := h.afterRead hphase hk
      refine .leave htaken ?_
      show v.frames <+: _
      rw [hfs]
      exact hpartway.isPrefix.map _
  | eof failed hphase => exact .leave h.taken h.frames
  | malformed k e hphase hparse => exact .leave h.taken h.frames
  | roundClosed k hphase hparse hclosed => exact .leave h.taken h.frames
  | checkClosed k hphase hclosed => exact .leave h.taken h.frames
  | frame k f c hphase hparse =>
      obtain ⟨fs, hfs, hpartway⟩ := h.partway (by simp [hphase])
      obtain ⟨hconsumed, hsize⟩ := h.consumed (by simp [hphase])
      rw [hphase] at hpartway hconsumed
      have hc := (incremental_parseFrame.progress hparse).2
      rw [List.length_drop] at hc
      have hnext := hpartway.frame incremental_parseFrame hparse
      rw [List.drop_drop] at hnext
      refine .of_partway h.taken ?_ hsize ?_ hnext fun hend => ?_
      · show k + c ≤ v.link.reader.accum.length
        have hk : k ≤ v.link.reader.accum.length := hconsumed
        omega
      · show v.frames ++ [f] = _
        rw [hfs, List.map_append]
        rfl
      · rcases hend with hend | hend <;> cases hend
  | round k hphase hparse hopen =>
      obtain ⟨fs, hfs, hpartway⟩ := h.partway (by simp [hphase])
      obtain ⟨hconsumed, hsize⟩ := h.consumed (by simp [hphase])
      rw [hphase] at hpartway
      refine .of_partway h.taken (Nat.zero_le _) ?_ hfs hpartway fun _ => hparse
      exact (List.drop_sublist _ _).length_le.trans hsize
  | check k hphase hopen =>
      obtain ⟨fs, hfs, hpartway⟩ := h.partway (by simp [hphase])
      obtain ⟨hconsumed, hsize⟩ := h.consumed (by simp [hphase])
      rw [hphase] at hpartway hconsumed
      refine .of_partway h.taken hconsumed hsize hfs hpartway fun hend => ?_
      rcases hend with hend | hend <;> cases hend

end View

/-- A new reader is at the start of the parse. -/
lemma View.reads_new (id : ConnectionId) (readBuf writeBuf : FixedBuf) :
    (View.new id readBuf writeBuf).Reads := by
  have hnone : ([] : List Frame) = ([] : List (Frame × ℕ)).map (·.1) := rfl
  exact .of_partway (Nat.zero_le _) (Nat.zero_le _) (Nat.zero_le _) hnone (Partway.start [])
    fun _ => rfl

/-- An offer does not concern the reader. -/
lemma View.Reads.offer (h : v.Reads) (o : Offer) : (v.offer o).Reads :=
  ⟨h.taken, h.consumed, h.partway, h.clean, h.frames⟩

/-- The reader is on the parse after every run. -/
lemma reads_run (hrun : run Process.step (.init n inboxCapacity poolCapacity) es = some s)
    (hv : s.view i r = some v) : v.Reads :=
  Process.view_run (fun id readBuf writeBuf _ _ => View.reads_new id readBuf writeBuf)
    (fun _ _ _ h hmoves => h.moves hmoves) (fun _ o h _ => h.offer o) hrun hv

/-- The frames a client has sent, as the parser of the broker reads its stream. -/
def Socket.requests (s : Socket) : List Frame := (parseAll parseFrame s.stream).frames.map (·.1)

/-- Frames are handled in the order in which the client has sent them, from the first one on. -/
lemma View.Reads.isPrefix (h : v.Reads) : v.frames <+: v.link.socket.requests := by
  have hmore := parseAll_frames_append incremental_parseFrame v.received v.link.socket.inbound
  rw [View.received, Socket.inbound, List.take_append_drop] at hmore
  exact h.frames.trans (hmore.map _)

/-- A reader that waits has handled what it has received, but for an incomplete frame. -/
lemma View.Reads.parseAll_received (h : v.Reads) (hphase : v.link.reader.phase = .waiting) :
    ∃ fs, v.frames = fs.map (·.1) ∧
      parseAll parseFrame v.received = ⟨fs, v.link.reader.accum, none⟩ := by
  obtain ⟨fs, hfs, hpartway⟩ := h.partway (by simp [hphase])
  have hrest : v.link.reader.accum.drop v.link.reader.phase.consumed = v.link.reader.accum := by
    rw [hphase]
    rfl
  refine ⟨fs, hfs, ?_⟩
  rw [hpartway, hrest, parseAll_of_needMore (h.clean (Or.inr hphase)), List.append_nil]

/-- **Readers handle what was sent.** In every state of every run, the frames handled for a
connection are the first ones of the greedy parse of the stream its client has sent, whatever the
sizes of the reads, and however the connection comes to its end. The accumulator never holds more
than `MAX_FRAME_SIZE` bytes between two reads; and a reader that waits for input has handled every
frame that it has received, and keeps exactly the bytes of the incomplete one. -/
theorem frames_of_stream
    (hrun : run Process.step (.init n inboxCapacity poolCapacity) es = some s)
    (hv : s.view i r = some v) :
    v.frames <+: v.link.socket.requests ∧
      (v.link.reader.phase ≠ .finished → v.link.reader.accum.length ≤ maxFrameSize) ∧
      (v.link.reader.phase = .waiting → ∃ fs, v.frames = fs.map (·.1) ∧
        parseAll parseFrame v.received = ⟨fs, v.link.reader.accum, none⟩) := by
  have h := reads_run hrun hv
  exact ⟨h.isPrefix, fun hphase => (h.consumed hphase).2, h.parseAll_received⟩

/-- A frame and a part of the next one, in one read. -/
theorem frames_of_stream_one_read :
    ∃ s v, run Process.step (.initStack 1 4 2) [.connect 0, .start 0 0,
        .send 0 0 (ascii "PING\r\nPI"), .read 0 0 8 [], .parse 0 0 []] = some s ∧
      s.view 0 0 = some v ∧ v.frames = [.ping] ∧
      v.frames <+: v.link.socket.requests ∧ v.link.reader.accum.length ≤ maxFrameSize := by
  have hsome : (run Process.step (.initStack 1 4 2) [.connect 0, .start 0 0,
      .send 0 0 (ascii "PING\r\nPI"), .read 0 0 8 [], .parse 0 0 []]).bind (fun s =>
        (s.view 0 0).map fun v => (v.frames, v.link.reader.phase)) =
          some ([.ping], .checking 6) := by decide +kernel
  obtain ⟨s, hs, hview⟩ := Option.bind_eq_some_iff.mp hsome
  obtain ⟨v, hv, heq⟩ := Option.map_eq_some_iff.mp hview
  obtain ⟨hframes, hphase⟩ := Prod.mk.inj heq
  obtain ⟨hinitial, hsize, -⟩ := frames_of_stream hs hv
  exact ⟨s, v, hs, hv, hframes, hinitial, hsize (by simp [hphase])⟩

/-! ## The end of a connection -/

/-- Neither a poll nor a write of the writer gives a reason to close. -/
lemma Link.closeWith_writerOf {l : Link} {state : ConnectionState} {a : Writer.Action} {w : Writer}
    (ha : a = .poll ∨ ∃ ok, a = .written ok) (h : (l.writerOf state).step a = some w) :
    w.state.closeWith = state.closeWith := by
  have hstate := congrArg ConnectionState.closeWith (Link.state_writerOf ha h)
  split_ifs at hstate
  · exact hstate.trans (state.closeWith_drainInto _)
  · exact hstate

/-- A reason to close stays. -/
lemma View.closeWith_moves {reason : CloseReason} (h : v.state.closeWith = some reason) {a : Agent}
    (hmoves : v.Moves a v') : v'.state.closeWith = some reason := by
  have hmark : ∀ (u : View) reason', u.state.closeWith = some reason →
      (u.mark reason').state.closeWith = some reason := by
    intro u reason' hu
    show (u.state.markClose reason').closeWith = _
    rw [ConnectionState.closeWith_markClose, hu]
    rfl
  cases hmoves with
  | send | close | start | read | frame | round | check => exact h
  | eof | roundClosed | checkClosed => exact hmark v _ h
  | overflow | malformed => exact hmark _ _ (hmark v _ h)
  | write failed a w ha _ hstep => exact (Link.closeWith_writerOf ha hstep).trans h

/-- A connection that is closing stays so when it moves. -/
lemma View.closing_moves (h : v.state.closeWith ≠ none) {a : Agent} (hmoves : v.Moves a v') :
    v'.state.closeWith ≠ none := by
  obtain ⟨reason, hreason⟩ := Option.ne_none_iff_exists'.mp h
  rw [View.closeWith_moves hreason hmoves]
  exact Option.some_ne_none _

/-- An offer leaves the reason that there is. -/
lemma View.closeWith_offer {reason : CloseReason} (h : v.state.closeWith = some reason)
    (o : Offer) :
    (v.offer o).state.closeWith = some reason := by
  have hstate : (v.offer o).state = (v.state.enqueue o.bytes).2 := rfl
  rw [hstate, v.state.enqueue_of_closing o.bytes (by simp [h])]
  exact h

/-- A connection that is closing stays so when more is offered. -/
lemma View.closing_offer (h : v.state.closeWith ≠ none) (o : Offer) :
    (v.offer o).state.closeWith ≠ none := by
  obtain ⟨reason, hreason⟩ := Option.ne_none_iff_exists'.mp h
  rw [View.closeWith_offer hreason o]
  exact Option.some_ne_none _

end Aulon.Server
