import Aulon.Lib.Bytes
import Aulon.Lib.Stream

/-!
# Wire frames and codec errors

The data types of the NATS-core codec: the ten frames, the parser's and the emitter's errors,
and the outcome of one parser call. A frame's borrowed slices are byte strings here; the
lifetime that ties them to the input buffer carries no data.

Source: `aulon-proto/src/frame.rs`, `aulon-proto/src/error.rs`.
-/

namespace Aulon.Proto

open Aulon.Lib

/-- A NATS-core wire frame.
Source: `frame.rs`, `Frame` -/
inductive Frame where
  /-- `CONNECT <options>` -/
  | connect (options : Bytes)
  /-- `PUB <subject> [reply-to] <#bytes>`, then the payload -/
  | pub (subject : Bytes) (replyTo : Option Bytes) (payload : Bytes)
  /-- `SUB <subject> [queue-group] <sid>` -/
  | sub (subject : Bytes) (queueGroup : Option Bytes) (sid : Bytes)
  /-- `UNSUB <sid> [max_msgs]` -/
  | unsub (sid : Bytes) (maxMsgs : Option UInt64)
  /-- `MSG <subject> <sid> [reply-to] <#bytes>`, then the payload -/
  | msg (subject sid : Bytes) (replyTo : Option Bytes) (payload : Bytes)
  /-- `PING` -/
  | ping
  /-- `PONG` -/
  | pong
  /-- `INFO <options>` -/
  | info (options : Bytes)
  /-- `+OK` -/
  | ok
  /-- `-ERR <message>` -/
  | err (message : Bytes)
  deriving DecidableEq, Repr

/-- Source: `error.rs`, `ParseError` -/
inductive ParseError where
  | unknownVerb
  | badHeader
  | payloadLengthInvalid
  | maxMsgsInvalid
  | missingTrailingCrlf
  deriving DecidableEq, Repr

/-- Source: `error.rs`, `EmitError` -/
inductive EmitError where
  | bufferTooSmall (needed have_ : ℕ)
  deriving DecidableEq, Repr

/-- Outcome of one `parseFrame` call: a frame with the bytes it took, a request for more input,
or a fatal error.
Source: `parse.rs`, `ParseOutcome` -/
abbrev ParseOutcome : Type := Outcome Frame ParseError

/-- The byte of a carriage return. -/
def cr : UInt8 := 13

/-- The byte of a line feed. -/
def lf : UInt8 := 10

/-- Source: `parse.rs` and `emit.rs`, `CRLF` -/
def crlf : Bytes := [cr, lf]

/-- The single space between the fields of an emitted header.
Source: `emit.rs`, `SP` -/
def sp : UInt8 := 32

/-- The bytes the parser takes as white space: space and tab. -/
def isBlank (b : UInt8) : Bool := b == 32 || b == 9

end Aulon.Proto
