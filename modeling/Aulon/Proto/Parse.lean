import Aulon.Lib.Decimal
import Aulon.Lib.Word
import Aulon.Proto.Frame

/-!
# The wire parser

`parseFrame buf` looks for the first line end in `buf`, splits the line before it into verb and
remainder, and hands the remainder to the parser of that verb; `PUB` and `MSG` go on to read a
payload of the announced length from the bytes after the line.

The index loops of the source (`find_crlf`, `trim_leading_spaces`, `position`) are the list
functions they compute. `usize` values are natural numbers; the additions the source checks for
overflow are `checkedAdd` at 64 bits, the others cannot overflow on a slice.

Source: `aulon-proto/src/parse.rs`.
-/

namespace Aulon.Proto

open Aulon.Lib

/-! ## Byte-level helpers -/

/-- Position of the first line end.
Source: `parse.rs`, `find_crlf` -/
def findCrlf : Bytes → Option ℕ
  | [] => none
  | [_] => none
  | a :: b :: t =>
      if a == cr && b == lf then some 0 else (findCrlf (b :: t)).map (· + 1)

/-- The verb and what follows the one blank after it.
Source: `parse.rs`, `split_verb` -/
def splitVerb (line : Bytes) : Bytes × Bytes :=
  match line.findIdx? isBlank with
  | some idx => (line.take idx, line.drop (idx + 1))
  | none => (line, [])

/-- Source: `parse.rs`, `trim_leading_spaces` -/
def trimLeadingSpaces (s : Bytes) : Bytes := s.dropWhile isBlank

/-- Iterator over the blank-separated tokens of a header line: the part not yet read.
Source: `parse.rs`, `TokenIter` -/
structure TokenIter where
  rest : Bytes

/-- Source: `parse.rs`, `TokenIter::next` -/
def TokenIter.next (it : TokenIter) : Option Bytes × TokenIter :=
  let rest := trimLeadingSpaces it.rest
  if rest.isEmpty then
    (none, ⟨rest⟩)
  else
    let stop := (rest.findIdx? isBlank).getD rest.length
    (some (rest.take stop), ⟨rest.drop stop⟩)

/-- One turn of the digit loops: `n` times ten plus the digit, checked at 64 bits. -/
def digitStep (n : ℕ) (b : UInt8) : Option ℕ :=
  if !isAsciiDigit b then none
  else (checkedMul n 10).bind fun m => checkedAdd m (digitVal b)

/-- Source: `parse.rs`, `parse_usize` on a 64-bit target -/
def parseUsize (bytes : Bytes) : Option ℕ :=
  if bytes.isEmpty then none else bytes.foldlM digitStep 0

/-- Source: `parse.rs`, `parse_u64` -/
def parseU64 (bytes : Bytes) : Option UInt64 :=
  if bytes.isEmpty then none else (bytes.foldlM digitStep 0).map UInt64.ofNat

/-- The payload and the total number of bytes of the frame, if the payload and its line end are
there.
Source: `parse.rs`, `consume_payload` -/
def consumePayload (buf : Bytes) (headerTotal payloadLen : ℕ) : Option (Bytes × ℕ) := do
  let payloadEnd ← checkedAdd headerTotal payloadLen
  let total ← checkedAdd payloadEnd crlf.length
  if buf.length < total then none
  else if slice buf payloadEnd total ≠ crlf then none
  else some (slice buf headerTotal payloadEnd, total)

/-- Why `consumePayload` gave nothing.
Source: `parse.rs`, `need_more_or_missing_crlf` -/
def needMoreOrMissingCrlf (buf : Bytes) (headerTotal payloadLen : ℕ) : ParseOutcome :=
  match checkedAdd headerTotal payloadLen with
  | none => .err .payloadLengthInvalid
  | some payloadEnd =>
      match checkedAdd payloadEnd crlf.length with
      | none => .err .payloadLengthInvalid
      | some total =>
          if buf.length < total then .needMore else .err .missingTrailingCrlf

/-! ## Verb parsers -/

/-- Source: `parse.rs`, `header_only` -/
def headerOnly (frame : Frame) (rest : Bytes) (headerTotal : ℕ) : ParseOutcome :=
  if !rest.isEmpty then .err .badHeader else .frame frame headerTotal

/-- Source: `parse.rs`, `parse_err` -/
def parseErr (rest : Bytes) (headerTotal : ℕ) : ParseOutcome :=
  .frame (.err rest) headerTotal

/-- The shape `CONNECT` and `INFO` share: a non-empty text taken verbatim. -/
def parseVerbatim (mk : Bytes → Frame) (rest : Bytes) (headerTotal : ℕ) : ParseOutcome :=
  if rest.isEmpty then .err .badHeader else .frame (mk rest) headerTotal

/-- Source: `parse.rs`, `parse_connect` -/
def parseConnect : Bytes → ℕ → ParseOutcome := parseVerbatim .connect

/-- Source: `parse.rs`, `parse_info` -/
def parseInfo : Bytes → ℕ → ParseOutcome := parseVerbatim .info

/-- Source: `parse.rs`, `parse_sub` -/
def parseSub (rest : Bytes) (headerTotal : ℕ) : ParseOutcome :=
  let tokens : TokenIter := ⟨rest⟩
  match tokens.next with
  | (none, _) => .err .badHeader
  | (some subject, tokens) =>
      match tokens.next with
      | (none, _) => .err .badHeader
      | (some second, tokens) =>
          let (third, tokens) := tokens.next
          let (extra, _) := tokens.next
          if extra.isSome then .err .badHeader
          else
            let (queueGroup, sid) :=
              match third with
              | some sid => (some second, sid)
              | none => (none, second)
            .frame (.sub subject queueGroup sid) headerTotal

/-- Source: `parse.rs`, `parse_unsub` -/
def parseUnsub (rest : Bytes) (headerTotal : ℕ) : ParseOutcome :=
  let tokens : TokenIter := ⟨rest⟩
  match tokens.next with
  | (none, _) => .err .badHeader
  | (some sid, tokens) =>
      match tokens.next with
      | (some token, tokens) =>
          match parseU64 token with
          | none => .err .maxMsgsInvalid
          | some n =>
              if tokens.next.1.isSome then .err .badHeader
              else .frame (.unsub sid (some n)) headerTotal
      | (none, tokens) =>
          if tokens.next.1.isSome then .err .badHeader
          else .frame (.unsub sid none) headerTotal

/-- What `PUB` and `MSG` do once the byte count is known: read it and the payload. -/
def parseBody (mk : Bytes → Frame) (buf : Bytes) (countToken : Bytes) (headerTotal : ℕ) :
    ParseOutcome :=
  match parseUsize countToken with
  | none => .err .payloadLengthInvalid
  | some payloadLen =>
      match consumePayload buf headerTotal payloadLen with
      | none => needMoreOrMissingCrlf buf headerTotal payloadLen
      | some (payload, total) => .frame (mk payload) total

/-- Source: `parse.rs`, `parse_pub` -/
def parsePub (buf rest : Bytes) (headerTotal : ℕ) : ParseOutcome :=
  let tokens : TokenIter := ⟨rest⟩
  match tokens.next with
  | (none, _) => .err .badHeader
  | (some subject, tokens) =>
      match tokens.next with
      | (none, _) => .err .badHeader
      | (some second, tokens) =>
          let (third, tokens) := tokens.next
          if tokens.next.1.isSome then .err .badHeader
          else
            let (replyTo, countToken) :=
              match third with
              | some count => (some second, count)
              | none => (none, second)
            parseBody (.pub subject replyTo) buf countToken headerTotal

/-- Source: `parse.rs`, `parse_msg` -/
def parseMsg (buf rest : Bytes) (headerTotal : ℕ) : ParseOutcome :=
  let tokens : TokenIter := ⟨rest⟩
  match tokens.next with
  | (none, _) => .err .badHeader
  | (some subject, tokens) =>
      match tokens.next with
      | (none, _) => .err .badHeader
      | (some sid, tokens) =>
          match tokens.next with
          | (none, _) => .err .badHeader
          | (some third, tokens) =>
              let (fourth, tokens) := tokens.next
              if tokens.next.1.isSome then .err .badHeader
              else
                let (replyTo, countToken) :=
                  match fourth with
                  | some count => (some third, count)
                  | none => (none, third)
                parseBody (.msg subject sid replyTo) buf countToken headerTotal

/-- Parse one frame from the head of the buffer.
Source: `parse.rs`, `parse_frame` -/
def parseFrame (buf : Bytes) : ParseOutcome :=
  match findCrlf buf with
  | none => .needMore
  | some lineEnd =>
      let headerTotal := lineEnd + crlf.length
      let line := buf.take lineEnd
      let (verb, rest) := splitVerb line
      if verb = ascii "PING" then headerOnly .ping rest headerTotal
      else if verb = ascii "PONG" then headerOnly .pong rest headerTotal
      else if verb = ascii "+OK" then headerOnly .ok rest headerTotal
      else if verb = ascii "-ERR" then parseErr rest headerTotal
      else if verb = ascii "CONNECT" then parseConnect rest headerTotal
      else if verb = ascii "INFO" then parseInfo rest headerTotal
      else if verb = ascii "SUB" then parseSub rest headerTotal
      else if verb = ascii "UNSUB" then parseUnsub rest headerTotal
      else if verb = ascii "PUB" then parsePub buf rest headerTotal
      else if verb = ascii "MSG" then parseMsg buf rest headerTotal
      else .err .unknownVerb

end Aulon.Proto
