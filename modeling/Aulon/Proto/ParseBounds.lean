import Aulon.Lib.Checked
import Aulon.Proto.Canonical

/-!
# The parser and its indices

The parser once more, as the source writes it: with the index loops, the ranges of slices and the
unchecked additions and subtractions that can panic. On every buffer a slice can be, each function
returns what the one of the model returns.

* `findCrlfRaw_eq`, `splitVerbRaw_eq`, `exists_next_eq`, `parseDigitsRaw_eq`,
  `consumePayloadRaw_eq` — the helpers.
* `parseFrameRaw_eq` — the parser never panics.
* `two_lt_of_parseFrame`, `payload_of_parseFrame` — a frame takes more than two bytes, and its
  payload has the announced length.

Source: `aulon-proto/src/parse.rs`.
-/

namespace Aulon.Proto

open Aulon.Lib

/-! ## The loops over indices -/

/-- The test of the loop of `find_crlf`: the second byte is read only if the first one is right. -/
def crlfAtRaw (buf : Bytes) (i : ℕ) : Checked Bool := do
  let a ← Checked.get buf i
  if a == cr then
    let b ← Checked.get buf (← Checked.add i 1)
    return b == lf
  else return false

/-- The loop of `find_crlf` from `i` on.
Source: `parse.rs`, `find_crlf` -/
def findCrlfRaw (buf : Bytes) (i : ℕ) : Checked (Option ℕ) := do
  let _ ← Checked.add i 1
  if _h : i + 1 < buf.length then
    if ← crlfAtRaw buf i then return some i
    else
      let _ ← Checked.add i 1
      findCrlfRaw buf (i + 1)
  else return none
termination_by buf.length - i

/-- The loop of `trim_leading_spaces` from `i` on.
Source: `parse.rs`, `trim_leading_spaces` -/
def trimLoopRaw (s : Bytes) (i : ℕ) : Checked ℕ :=
  if _h : i < s.length then do
    if isBlank (← Checked.get s i) then
      let _ ← Checked.add i 1
      trimLoopRaw s (i + 1)
    else return i
  else .ok i
termination_by s.length - i

/-- The search for the line end does not panic. -/
lemma findCrlfRaw_eq {buf rest : Bytes} (hbuf : buf.length < signBit) {i : ℕ}
    (hi : i ≤ buf.length) (hrest : buf.drop i = rest) :
    findCrlfRaw buf i = .ok ((findCrlf rest).map (· + i)) := by
  have hword := signBit_add_signBit
  have hadd : Checked.add i 1 = .ok (i + 1) := Checked.add_eq (by omega)
  induction rest generalizing i with
  | nil =>
      have hle := List.drop_eq_nil_iff.mp hrest
      rw [findCrlfRaw, Checked.bind_ok hadd, dif_neg (by omega)]
      rfl
  | cons a rest ih =>
      obtain ⟨ha, hrest', hlen⟩ := Checked.index_of_drop_eq_cons hrest
      rw [findCrlfRaw, Checked.bind_ok hadd]
      cases rest with
      | nil =>
          rw [dif_neg (by rw [hlen]; simp)]
          rfl
      | cons b t =>
          obtain ⟨hb, -, hlen'⟩ := Checked.index_of_drop_eq_cons hrest'
          have htest : crlfAtRaw buf i = .ok (a == cr && b == lf) := by
            rw [crlfAtRaw, Checked.bind_ok (Checked.get_eq ha)]
            cases hcr : a == cr with
            | false => rfl
            | true =>
                rw [if_pos rfl, Checked.bind_ok hadd, Checked.bind_ok (Checked.get_eq hb)]
                rfl
          rw [dif_pos (by omega), Checked.bind_ok htest, findCrlf]
          cases hhit : (a == cr && b == lf) with
          | true => simp [pure, Except.pure]
          | false =>
              rw [if_neg (by simp), Checked.bind_ok hadd,
                ih (by omega) hrest' (Checked.add_eq (by omega)), if_neg (by simp),
                Option.map_map]
              congr 2
              funext k
              simp only [Function.comp_apply]
              omega

/-- The loop that skips the blanks does not panic. -/
lemma trimLoopRaw_eq {s rest : Bytes} (hs : s.length < signBit) {i : ℕ} (hi : i ≤ s.length)
    (hrest : s.drop i = rest) :
    trimLoopRaw s i = .ok (s.length - (trimLeadingSpaces rest).length) := by
  have hword := signBit_add_signBit
  induction rest generalizing i with
  | nil =>
      have hle := List.drop_eq_nil_iff.mp hrest
      rw [trimLoopRaw, dif_neg (by omega)]
      simp only [trimLeadingSpaces, List.dropWhile_nil, List.length_nil]
      congr 1
      omega
  | cons b rest ih =>
      obtain ⟨hb, hrest', hlen⟩ := Checked.index_of_drop_eq_cons hrest
      rw [trimLoopRaw, dif_pos (by omega), Checked.bind_ok (Checked.get_eq hb)]
      cases hblank : isBlank b with
      | true =>
          rw [if_pos rfl, Checked.bind_ok (Checked.add_eq (by omega)), ih (by omega) hrest']
          simp only [trimLeadingSpaces, List.dropWhile_cons, hblank, if_true]
      | false =>
          rw [if_neg (by simp)]
          simp only [trimLeadingSpaces, List.dropWhile_cons, hblank, Bool.false_eq_true, if_false,
            List.length_cons, pure, Except.pure]
          congr 1
          omega

/-- Source: `parse.rs`, `trim_leading_spaces` -/
def trimLeadingSpacesRaw (s : Bytes) : Checked Bytes := do
  let i ← trimLoopRaw s 0
  Checked.range s i s.length

/-- Trimming does not panic. -/
lemma trimLeadingSpacesRaw_eq {s : Bytes} (hs : s.length < signBit) :
    trimLeadingSpacesRaw s = .ok (trimLeadingSpaces s) := by
  have hsuffix : trimLeadingSpaces s <:+ s := List.dropWhile_suffix _
  rw [trimLeadingSpacesRaw, Checked.bind_ok (trimLoopRaw_eq hs (Nat.zero_le _) List.drop_zero),
    Checked.range_eq (Nat.sub_le _ _) le_rfl, slice, List.take_length,
    ← List.suffix_iff_eq_drop.mp hsuffix]

/-! ## The other helpers -/

/-- Source: `parse.rs`, `split_verb` -/
def splitVerbRaw (line : Bytes) : Checked (Bytes × Bytes) :=
  match line.findIdx? isBlank with
  | some idx => do
      let verb ← Checked.range line 0 idx
      let rest ← Checked.range line (← Checked.add idx 1) line.length
      return (verb, rest)
  | none => .ok (line, [])

/-- Splitting the verb off does not panic. -/
lemma splitVerbRaw_eq {line : Bytes} (hline : line.length < signBit) :
    splitVerbRaw line = .ok (splitVerb line) := by
  have hword := signBit_add_signBit
  rw [splitVerbRaw, splitVerb]
  cases hidx : line.findIdx? isBlank with
  | none => rfl
  | some idx =>
      have hlt : idx < line.length := (List.findIdx?_eq_some_iff_getElem.mp hidx).1
      dsimp only
      rw [Checked.bind_ok (Checked.range_eq (Nat.zero_le _) hlt.le),
        Checked.bind_ok (Checked.add_eq (by omega)),
        Checked.bind_ok (Checked.range_eq hlt le_rfl), slice, slice, List.take_length,
        List.drop_zero]
      rfl

/-- What follows the verb is no longer than the line. -/
lemma length_splitVerb_le (line : Bytes) : (splitVerb line).2.length ≤ line.length := by
  rw [splitVerb]
  cases line.findIdx? isBlank with
  | none => exact Nat.zero_le _
  | some idx => exact (List.length_drop).trans_le (Nat.sub_le _ _)

/-- Source: `parse.rs`, `TokenIter::next` -/
def TokenIter.nextRaw (it : TokenIter) : Checked (Option Bytes × TokenIter) := do
  let rest ← trimLeadingSpacesRaw it.rest
  if rest.isEmpty then return (none, ⟨rest⟩)
  else
    let stop := (rest.findIdx? isBlank).getD rest.length
    let token ← Checked.range rest 0 stop
    let rest ← Checked.range rest stop rest.length
    return (some token, ⟨rest⟩)

/-- On an iterator over a slice the next token comes without a panic, and an iterator over a slice
is left. -/
lemma exists_next_eq (it : TokenIter) (hit : it.rest.length < signBit) :
    ∃ token it', it.next = (token, it') ∧ it.nextRaw = .ok (token, it') ∧
      it'.rest.length < signBit := by
  have htrim : (trimLeadingSpaces it.rest).length ≤ it.rest.length :=
    (List.dropWhile_suffix _).length_le
  rw [TokenIter.next, TokenIter.nextRaw, Checked.bind_ok (trimLeadingSpacesRaw_eq hit)]
  generalize trimLeadingSpaces it.rest = rest at htrim
  cases hempty : rest.isEmpty with
  | true => exact ⟨none, ⟨rest⟩, rfl, rfl, htrim.trans_lt hit⟩
  | false =>
      have hstop : (rest.findIdx? isBlank).getD rest.length ≤ rest.length := by
        cases hidx : rest.findIdx? isBlank with
        | none => exact le_rfl
        | some idx => exact (List.findIdx?_eq_some_iff_getElem.mp hidx).1.le
      dsimp only
      generalize (rest.findIdx? isBlank).getD rest.length = stop at hstop
      refine ⟨some (rest.take stop), ⟨rest.drop stop⟩, rfl, ?_, ?_⟩
      · rw [if_neg Bool.false_ne_true, Checked.bind_ok (Checked.range_eq (Nat.zero_le _) hstop),
          Checked.bind_ok (Checked.range_eq hstop le_rfl), slice, slice, List.take_length,
          List.drop_zero]
        rfl
      · rw [List.length_drop]
        omega

/-- One turn of the digit loops, with the subtraction of `b'0'`. -/
def parseDigitRaw (n : ℕ) (b : UInt8) : Checked (Option ℕ) :=
  if !isAsciiDigit b then .ok none
  else
    match checkedMul n 10 with
    | none => .ok none
    | some m => do return checkedAdd m (← Checked.sub b.toNat 48)

/-- The loop of `parse_usize` and `parse_u64`. -/
def parseDigitsRaw : Bytes → ℕ → Checked (Option ℕ)
  | [], n => .ok (some n)
  | b :: t, n => do
      match ← parseDigitRaw n b with
      | none => return none
      | some n => parseDigitsRaw t n

/-- Source: `parse.rs`, `parse_usize` on a 64-bit target -/
def parseUsizeRaw (bytes : Bytes) : Checked (Option ℕ) :=
  if bytes.isEmpty then .ok none else parseDigitsRaw bytes 0

/-- Source: `parse.rs`, `parse_u64` -/
def parseU64Raw (bytes : Bytes) : Checked (Option UInt64) :=
  if bytes.isEmpty then .ok none
  else do return (← parseDigitsRaw bytes 0).map UInt64.ofNat

/-- Reading a digit does not panic. -/
lemma parseDigitRaw_eq (n : ℕ) (b : UInt8) : parseDigitRaw n b = .ok (digitStep n b) := by
  rw [parseDigitRaw, digitStep]
  cases hdigit : isAsciiDigit b with
  | false => rfl
  | true =>
      have hle : 48 ≤ b := by
        rw [isAsciiDigit, Bool.and_eq_true, decide_eq_true_eq] at hdigit
        exact hdigit.1
      have hsub : Checked.sub b.toNat 48 = .ok (b.toNat - 48) :=
        Checked.sub_eq (UInt8.le_iff_toNat_le.mp hle)
      have hval : digitVal b = b.toNat - 48 := UInt8.toNat_sub_of_le b 48 hle
      rw [if_neg (by decide), if_neg (by decide)]
      cases checkedMul n 10 with
      | none => rfl
      | some m =>
          dsimp only [Option.bind_some]
          rw [Checked.bind_ok hsub, hval]
          rfl

/-- Reading the digits does not panic. -/
lemma parseDigitsRaw_eq (bytes : Bytes) (n : ℕ) :
    parseDigitsRaw bytes n = .ok (bytes.foldlM digitStep n) := by
  induction bytes generalizing n with
  | nil => rfl
  | cons b t ih =>
      rw [parseDigitsRaw, Checked.bind_ok (parseDigitRaw_eq n b), List.foldlM_cons]
      cases digitStep n b with
      | none => rfl
      | some n => exact ih n

/-- `parse_usize` does not panic. -/
lemma parseUsizeRaw_eq (bytes : Bytes) : parseUsizeRaw bytes = .ok (parseUsize bytes) := by
  rw [parseUsizeRaw, parseUsize, parseDigitsRaw_eq, apply_ite Except.ok]

/-- `parse_u64` does not panic. -/
lemma parseU64Raw_eq (bytes : Bytes) : parseU64Raw bytes = .ok (parseU64 bytes) := by
  rw [parseU64Raw, parseU64, Checked.bind_ok (parseDigitsRaw_eq bytes 0), apply_ite Except.ok]
  rfl

/-- Source: `parse.rs`, `consume_payload` -/
def consumePayloadRaw (buf : Bytes) (headerTotal payloadLen : ℕ) :
    Checked (Option (Bytes × ℕ)) :=
  match checkedAdd headerTotal payloadLen with
  | none => .ok none
  | some payloadEnd =>
      match checkedAdd payloadEnd crlf.length with
      | none => .ok none
      | some total => do
          if buf.length < total then return none
          else if (← Checked.range buf payloadEnd total) ≠ crlf then return none
          else return some (← Checked.range buf headerTotal payloadEnd, total)

/-- `consume_payload` does not panic. -/
lemma consumePayloadRaw_eq (buf : Bytes) (headerTotal payloadLen : ℕ) :
    consumePayloadRaw buf headerTotal payloadLen =
      .ok (consumePayload buf headerTotal payloadLen) := by
  rw [consumePayloadRaw, consumePayload]
  cases hend : checkedAdd headerTotal payloadLen with
  | none => rfl
  | some payloadEnd =>
      obtain ⟨-, rfl⟩ := checkedAdd_eq_some.mp hend
      cases htotal : checkedAdd (headerTotal + payloadLen) crlf.length with
      | none => simp only [htotal, Option.bind_eq_bind, Option.bind_some, Option.bind_none]
      | some total =>
          obtain ⟨-, rfl⟩ := checkedAdd_eq_some.mp htotal
          simp only [htotal, Option.bind_eq_bind, Option.bind_some]
          by_cases hshort : buf.length < headerTotal + payloadLen + crlf.length
          · rw [if_pos hshort, if_pos hshort]
            rfl
          · rw [if_neg hshort, if_neg hshort,
              Checked.bind_ok (Checked.range_eq (by omega) (by omega)),
              Checked.bind_ok (Checked.range_eq (by omega) (by omega)), apply_ite Except.ok]
            rfl

/-! ## The verb parsers -/

/-- Source: `parse.rs`, `parse_sub` -/
def parseSubRaw (rest : Bytes) (headerTotal : ℕ) : Checked ParseOutcome := do
  match ← (⟨rest⟩ : TokenIter).nextRaw with
  | (none, _) => return .err .badHeader
  | (some subject, tokens) =>
      match ← tokens.nextRaw with
      | (none, _) => return .err .badHeader
      | (some second, tokens) =>
          let (third, tokens) ← tokens.nextRaw
          let (extra, _) ← tokens.nextRaw
          if extra.isSome then return .err .badHeader
          else
            let (queueGroup, sid) :=
              match third with
              | some sid => (some second, sid)
              | none => (none, second)
            return .frame (.sub subject queueGroup sid) headerTotal

/-- Source: `parse.rs`, `parse_unsub` -/
def parseUnsubRaw (rest : Bytes) (headerTotal : ℕ) : Checked ParseOutcome := do
  match ← (⟨rest⟩ : TokenIter).nextRaw with
  | (none, _) => return .err .badHeader
  | (some sid, tokens) =>
      match ← tokens.nextRaw with
      | (some token, tokens) =>
          match ← parseU64Raw token with
          | none => return .err .maxMsgsInvalid
          | some n =>
              if (← tokens.nextRaw).1.isSome then return .err .badHeader
              else return .frame (.unsub sid (some n)) headerTotal
      | (none, tokens) =>
          if (← tokens.nextRaw).1.isSome then return .err .badHeader
          else return .frame (.unsub sid none) headerTotal

/-- What `PUB` and `MSG` do once the byte count is known. -/
def parseBodyRaw (mk : Bytes → Frame) (buf countToken : Bytes) (headerTotal : ℕ) :
    Checked ParseOutcome := do
  match ← parseUsizeRaw countToken with
  | none => return .err .payloadLengthInvalid
  | some payloadLen =>
      match ← consumePayloadRaw buf headerTotal payloadLen with
      | none => return needMoreOrMissingCrlf buf headerTotal payloadLen
      | some (payload, total) => return .frame (mk payload) total

/-- Source: `parse.rs`, `parse_pub` -/
def parsePubRaw (buf rest : Bytes) (headerTotal : ℕ) : Checked ParseOutcome := do
  match ← (⟨rest⟩ : TokenIter).nextRaw with
  | (none, _) => return .err .badHeader
  | (some subject, tokens) =>
      match ← tokens.nextRaw with
      | (none, _) => return .err .badHeader
      | (some second, tokens) =>
          let (third, tokens) ← tokens.nextRaw
          if (← tokens.nextRaw).1.isSome then return .err .badHeader
          else
            let (replyTo, countToken) :=
              match third with
              | some count => (some second, count)
              | none => (none, second)
            parseBodyRaw (.pub subject replyTo) buf countToken headerTotal

/-- Source: `parse.rs`, `parse_msg` -/
def parseMsgRaw (buf rest : Bytes) (headerTotal : ℕ) : Checked ParseOutcome := do
  match ← (⟨rest⟩ : TokenIter).nextRaw with
  | (none, _) => return .err .badHeader
  | (some subject, tokens) =>
      match ← tokens.nextRaw with
      | (none, _) => return .err .badHeader
      | (some sid, tokens) =>
          match ← tokens.nextRaw with
          | (none, _) => return .err .badHeader
          | (some third, tokens) =>
              let (fourth, tokens) ← tokens.nextRaw
              if (← tokens.nextRaw).1.isSome then return .err .badHeader
              else
                let (replyTo, countToken) :=
                  match fourth with
                  | some count => (some third, count)
                  | none => (none, third)
                parseBodyRaw (.msg subject sid replyTo) buf countToken headerTotal

/-- `parse_sub` does not panic. -/
lemma parseSubRaw_eq {rest : Bytes} (hrest : rest.length < signBit) (headerTotal : ℕ) :
    parseSubRaw rest headerTotal = .ok (parseSub rest headerTotal) := by
  obtain ⟨token₁, it₁, hnext₁, hraw₁, hit₁⟩ := exists_next_eq ⟨rest⟩ hrest
  obtain ⟨token₂, it₂, hnext₂, hraw₂, hit₂⟩ := exists_next_eq it₁ hit₁
  obtain ⟨third, it₃, hnext₃, hraw₃, hit₃⟩ := exists_next_eq it₂ hit₂
  obtain ⟨extra, it₄, hnext₄, hraw₄, -⟩ := exists_next_eq it₃ hit₃
  rw [parseSubRaw, parseSub, Checked.bind_ok hraw₁, hnext₁]
  cases token₁ with
  | none => rfl
  | some subject =>
      dsimp only
      rw [Checked.bind_ok hraw₂, hnext₂]
      cases token₂ with
      | none => rfl
      | some second =>
          dsimp only
          rw [Checked.bind_ok hraw₃, hnext₃]
          dsimp only
          rw [Checked.bind_ok hraw₄, hnext₄, apply_ite Except.ok]
          rfl

/-- `parse_unsub` does not panic. -/
lemma parseUnsubRaw_eq {rest : Bytes} (hrest : rest.length < signBit) (headerTotal : ℕ) :
    parseUnsubRaw rest headerTotal = .ok (parseUnsub rest headerTotal) := by
  obtain ⟨token₁, it₁, hnext₁, hraw₁, hit₁⟩ := exists_next_eq ⟨rest⟩ hrest
  obtain ⟨token₂, it₂, hnext₂, hraw₂, hit₂⟩ := exists_next_eq it₁ hit₁
  obtain ⟨extra, it₃, hnext₃, hraw₃, -⟩ := exists_next_eq it₂ hit₂
  rw [parseUnsubRaw, parseUnsub, Checked.bind_ok hraw₁, hnext₁]
  cases token₁ with
  | none => rfl
  | some sid =>
      dsimp only
      rw [Checked.bind_ok hraw₂, hnext₂]
      cases token₂ with
      | none =>
          dsimp only
          rw [Checked.bind_ok hraw₃, hnext₃, apply_ite Except.ok]
          rfl
      | some token =>
          dsimp only
          rw [Checked.bind_ok (parseU64Raw_eq token)]
          cases parseU64 token with
          | none => rfl
          | some n =>
              dsimp only
              rw [Checked.bind_ok hraw₃, hnext₃, apply_ite Except.ok]
              rfl

/-- Reading the count and the payload does not panic. -/
lemma parseBodyRaw_eq (mk : Bytes → Frame) (buf countToken : Bytes) (headerTotal : ℕ) :
    parseBodyRaw mk buf countToken headerTotal =
      .ok (parseBody mk buf countToken headerTotal) := by
  rw [parseBodyRaw, parseBody, Checked.bind_ok (parseUsizeRaw_eq countToken)]
  cases parseUsize countToken with
  | none => rfl
  | some payloadLen =>
      dsimp only
      rw [Checked.bind_ok (consumePayloadRaw_eq buf headerTotal payloadLen)]
      cases consumePayload buf headerTotal payloadLen with
      | none => rfl
      | some taken => rfl

/-- `parse_pub` does not panic. -/
lemma parsePubRaw_eq (buf : Bytes) {rest : Bytes} (hrest : rest.length < signBit)
    (headerTotal : ℕ) :
    parsePubRaw buf rest headerTotal = .ok (parsePub buf rest headerTotal) := by
  obtain ⟨token₁, it₁, hnext₁, hraw₁, hit₁⟩ := exists_next_eq ⟨rest⟩ hrest
  obtain ⟨token₂, it₂, hnext₂, hraw₂, hit₂⟩ := exists_next_eq it₁ hit₁
  obtain ⟨third, it₃, hnext₃, hraw₃, hit₃⟩ := exists_next_eq it₂ hit₂
  obtain ⟨extra, it₄, hnext₄, hraw₄, -⟩ := exists_next_eq it₃ hit₃
  rw [parsePubRaw, parsePub, Checked.bind_ok hraw₁, hnext₁]
  cases token₁ with
  | none => rfl
  | some subject =>
      dsimp only
      rw [Checked.bind_ok hraw₂, hnext₂]
      cases token₂ with
      | none => rfl
      | some second =>
          dsimp only
          rw [Checked.bind_ok hraw₃, hnext₃]
          dsimp only
          rw [Checked.bind_ok hraw₄, hnext₄, apply_ite Except.ok, parseBodyRaw_eq]
          rfl

/-- `parse_msg` does not panic. -/
lemma parseMsgRaw_eq (buf : Bytes) {rest : Bytes} (hrest : rest.length < signBit)
    (headerTotal : ℕ) :
    parseMsgRaw buf rest headerTotal = .ok (parseMsg buf rest headerTotal) := by
  obtain ⟨token₁, it₁, hnext₁, hraw₁, hit₁⟩ := exists_next_eq ⟨rest⟩ hrest
  obtain ⟨token₂, it₂, hnext₂, hraw₂, hit₂⟩ := exists_next_eq it₁ hit₁
  obtain ⟨token₃, it₃, hnext₃, hraw₃, hit₃⟩ := exists_next_eq it₂ hit₂
  obtain ⟨fourth, it₄, hnext₄, hraw₄, hit₄⟩ := exists_next_eq it₃ hit₃
  obtain ⟨extra, it₅, hnext₅, hraw₅, -⟩ := exists_next_eq it₄ hit₄
  rw [parseMsgRaw, parseMsg, Checked.bind_ok hraw₁, hnext₁]
  cases token₁ with
  | none => rfl
  | some subject =>
      dsimp only
      rw [Checked.bind_ok hraw₂, hnext₂]
      cases token₂ with
      | none => rfl
      | some sid =>
          dsimp only
          rw [Checked.bind_ok hraw₃, hnext₃]
          cases token₃ with
          | none => rfl
          | some third =>
              dsimp only
              rw [Checked.bind_ok hraw₄, hnext₄]
              dsimp only
              rw [Checked.bind_ok hraw₅, hnext₅, apply_ite Except.ok, parseBodyRaw_eq]
              rfl

/-! ## The parser -/

/-- Source: `parse.rs`, `parse_frame` -/
def parseFrameRaw (buf : Bytes) : Checked ParseOutcome := do
  match ← findCrlfRaw buf 0 with
  | none => return .needMore
  | some lineEnd =>
      let headerTotal ← Checked.add lineEnd crlf.length
      let line ← Checked.range buf 0 lineEnd
      let (verb, rest) ← splitVerbRaw line
      if verb = ascii "PING" then return headerOnly .ping rest headerTotal
      else if verb = ascii "PONG" then return headerOnly .pong rest headerTotal
      else if verb = ascii "+OK" then return headerOnly .ok rest headerTotal
      else if verb = ascii "-ERR" then return parseErr rest headerTotal
      else if verb = ascii "CONNECT" then return parseConnect rest headerTotal
      else if verb = ascii "INFO" then return parseInfo rest headerTotal
      else if verb = ascii "SUB" then parseSubRaw rest headerTotal
      else if verb = ascii "UNSUB" then parseUnsubRaw rest headerTotal
      else if verb = ascii "PUB" then parsePubRaw buf rest headerTotal
      else if verb = ascii "MSG" then parseMsgRaw buf rest headerTotal
      else return .err .unknownVerb

/-- On every slice the parser returns, whatever its bytes are. -/
lemma parseFrameRaw_eq {buf : Bytes} (hbuf : buf.length < signBit) :
    parseFrameRaw buf = .ok (parseFrame buf) := by
  have hword := signBit_add_signBit
  rw [parseFrameRaw, parseFrame,
    Checked.bind_ok (findCrlfRaw_eq hbuf (Nat.zero_le _) List.drop_zero)]
  cases hfind : findCrlf buf with
  | none => rfl
  | some lineEnd =>
      have hend := findCrlf_le hfind
      have hline : (buf.take lineEnd).length < signBit := by
        rw [List.length_take]
        omega
      have hrest := (length_splitVerb_le (buf.take lineEnd)).trans_lt hline
      have hslice : slice buf 0 lineEnd = buf.take lineEnd := List.drop_zero
      simp only [Option.map_some, Nat.add_zero]
      rw [Checked.bind_ok (Checked.add_eq (by rw [length_crlf]; omega)),
        Checked.bind_ok (Checked.range_eq (Nat.zero_le _) (by omega)), hslice,
        Checked.bind_ok (splitVerbRaw_eq hline)]
      simp only [parseSubRaw_eq hrest, parseUnsubRaw_eq hrest, parsePubRaw_eq buf hrest,
        parseMsgRaw_eq buf hrest, apply_ite Except.ok]
      rfl

/-! ## What a frame takes -/

/-- The payload of the frames that have one. -/
def Frame.payload : Frame → Option Bytes
  | .pub _ _ payload => some payload
  | .msg _ _ _ payload => some payload
  | .connect _ | .sub _ _ _ | .unsub _ _ | .ping | .pong | .info _ | .ok | .err _ => none

/-- A header line announces `n` bytes: its last token is a numeral for `n`. -/
def Announces (line : Bytes) (n : ℕ) : Prop :=
  ∃ count, (tokens line).getLast? = some count ∧ Numeral count n

/-- No verb is shorter than three bytes. -/
lemma Derives.three_le {line body : Bytes} {f : Frame} (h : Derives line body f) :
    3 ≤ line.length := by
  cases h with
  | errAlone => decide
  | _ =>
      rw [List.length_append]
      exact le_add_right (by decide)

/-- A line whose last field is a numeral announces its value. -/
lemma announces_of_fields {verb s count : Bytes} {ts : List Bytes} {n : ℕ} (hne : verb ≠ [])
    (hverb : verb.any isBlank = false) (h : Fields ts s) (hlast : ts.getLast? = some count)
    (hcount : Numeral count n) : Announces (verb ++ s) n := by
  have hfield : Field verb :=
    ⟨hne, fun x hx => Bool.eq_false_of_not_eq_true (List.any_eq_false.mp hverb x hx)⟩
  refine ⟨count, ?_, hcount⟩
  rw [tokens_field_append hfield h.head_blank, h.tokens_eq, List.getLast?_cons, hlast]
  rfl

/-- A frame with a payload is derived from a line that announces its length. -/
lemma Derives.payload {line body : Bytes} {f : Frame} (h : Derives line body f) {payload : Bytes}
    (hp : f.payload = some payload) : body = payload ++ crlf ∧ Announces line payload.length := by
  cases h with
  | pub p h hcount | pubReply p h hcount | msg p h hcount | msgReply p h hcount =>
      cases hp
      exact ⟨rfl, announces_of_fields (by decide) (by decide) h rfl hcount⟩
  | _ => cases hp

/-- A frame takes more than its line end, and nothing beyond the buffer. -/
lemma two_lt_of_parseFrame {buf : Bytes} {f : Frame} {c : ℕ} (h : parseFrame buf = .frame f c) :
    2 < c ∧ c ≤ buf.length := by
  obtain ⟨line, body, htake, -, hderives⟩ := derives_of_parseFrame h
  have hlen := congrArg List.length htake
  have hthree := hderives.three_le
  simp only [List.length_take, List.length_append, length_crlf] at hlen
  exact ⟨by omega, (parseFrame_progress h).2⟩

/-- The payload of a frame stands after the first line end, is as long as the line announces, and
is followed by a line end, with which the frame ends. -/
lemma payload_of_parseFrame {buf payload : Bytes} {f : Frame} {c : ℕ}
    (h : parseFrame buf = .frame f c) (hp : f.payload = some payload) :
    ∃ line, FirstCrlf buf line.length ∧ buf.take c = line ++ crlf ++ (payload ++ crlf) ∧
      Announces line payload.length := by
  obtain ⟨line, body, htake, hfirst, hderives⟩ := derives_of_parseFrame h
  obtain ⟨rfl, hcount⟩ := hderives.payload hp
  exact ⟨line, hfirst, htake, hcount⟩

end Aulon.Proto
