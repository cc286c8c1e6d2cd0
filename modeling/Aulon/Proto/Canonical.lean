import Aulon.Proto.Grammar

/-!
# Every parsed frame can be written again

The parser accepts many spellings of a frame: tabs, runs of blanks, blanks at the end of the line,
counts with leading zeros, `-ERR` with nothing after it. The emitter writes one of them.

* `wellFormed_of_parseFrame` — what the parser returns is well formed.
* `length_encode_le` — the spelling of the emitter is at most one byte longer than the one that was
  read (`-ERR` alone becomes `-ERR` and a space), because every field costs at least one blank and
  no numeral is shorter than the canonical one.
* `reencode` — so the emitter succeeds in any buffer with one byte to spare, the parser reads the
  frame back, and writing it again gives the same bytes.
-/

namespace Aulon.Proto

open Aulon.Lib

/-! ## Parsed frames are well formed -/

/-- A field of a line without a line end is a token. -/
lemma isToken_of_field {t line : Bytes} (ht : Field t) (hpart : t <:+: line)
    (hline : ¬ crlf <:+: line) : IsToken t := by
  refine ⟨ht.1, fun x hx => ?_, fun hcrlf => hline (hcrlf.trans hpart)⟩
  simpa [isBlank] using ht.2 x hx

/-- So are all the fields of a line. -/
lemma Fields.isToken {ts : List Bytes} {verb s : Bytes} (h : Fields ts s)
    (hline : ¬ crlf <:+: verb ++ s) : ∀ t ∈ ts, IsToken t := fun t ht =>
  isToken_of_field (h.field t ht) ((h.isInfix t ht).trans (List.suffix_append verb s).isInfix) hline

/-- What is derived with a header line that holds no line end is well formed. -/
lemma Derives.wellFormed {line body : Bytes} {f : Frame} (h : Derives line body f)
    (hline : ¬ crlf <:+: line) : f.WellFormed := by
  -- a text taken verbatim is the end of the line
  have htext : ∀ {verb text : Bytes} {b : UInt8}, ¬ crlf <:+: verb ++ b :: text →
      ¬ crlf <:+: text := by
    intro verb text b hline hcrlf
    exact hline (hcrlf.trans ⟨verb ++ [b], [], by simp⟩)
  cases h with
  | ping | pong | ok => trivial
  | errAlone => exact fun hcrlf => by cases List.infix_nil.mp hcrlf
  | err hb message => exact htext hline
  | connect hb hne => exact ⟨hne, htext hline⟩
  | info hb hne => exact ⟨hne, htext hline⟩
  | sub h =>
      have htoken := h.isToken hline
      exact ⟨htoken _ (by simp), by simp, htoken _ (by simp)⟩
  | subQueue h =>
      have htoken := h.isToken hline
      exact ⟨htoken _ (by simp), by simpa using htoken _ (by simp), htoken _ (by simp)⟩
  | unsub h => exact h.isToken hline _ (by simp)
  | unsubMax h => exact h.isToken hline _ (by simp)
  | pub payload h => exact ⟨h.isToken hline _ (by simp), by simp⟩
  | pubReply payload h =>
      have htoken := h.isToken hline
      exact ⟨htoken _ (by simp), by simpa using htoken _ (by simp)⟩
  | msg payload h =>
      have htoken := h.isToken hline
      exact ⟨htoken _ (by simp), htoken _ (by simp), by simp⟩
  | msgReply payload h =>
      have htoken := h.isToken hline
      exact ⟨htoken _ (by simp), htoken _ (by simp), by simpa using htoken _ (by simp)⟩

/-- **What the parser returns is well formed.** -/
theorem wellFormed_of_parseFrame {buf : Bytes} {f : Frame} {c : ℕ}
    (h : parseFrame buf = .frame f c) : f.WellFormed := by
  obtain ⟨line, body, htake, hfirst, hderives⟩ := derives_of_parseFrame h
  refine hderives.wellFormed (findCrlf_eq_none.mp ?_)
  have hprefix : line <+: buf := by
    refine List.IsPrefix.trans ?_ (List.take_prefix c buf)
    rw [htake, List.append_assoc]
    exact List.prefix_append line _
  rw [List.prefix_iff_eq_take.mp hprefix]
  exact findCrlf_take_of_lt hfirst.findCrlf_eq (Nat.lt_add_of_pos_right two_pos)

/-! ## The emitter's spelling is short -/

/-- Every field costs at least one blank. -/
lemma Fields.length_le {ts : List Bytes} {s : Bytes} (h : Fields ts s) :
    (ts.map fun t => t.length + 1).sum ≤ s.length := by
  induction h with
  | nil hw => simp
  | @cons w t s ts hne hw ht hs ih =>
      have hpos : 0 < w.length := List.length_pos_iff.mpr hne
      simp only [List.map_cons, List.sum_cons, List.length_append]
      omega

/-- The canonical numeral of a number is the shortest one. -/
lemma Numeral.length_le {t : Bytes} {n : ℕ} (h : Numeral t n) (ht : Field t) :
    (decimal n).length ≤ t.length := by
  rw [← h.2.1]
  exact length_decimal_value_le ht.1 h.1

/-- The header line of the emitter is at most one byte longer than any other one. -/
lemma Derives.length_headerLine_le {line rest : Bytes} {f : Frame} (h : Derives line rest f) :
    (headerLine f).length ≤ line.length + 1 := by
  cases h with
  | ping hw hone | pong hw hone | ok hw hone =>
      rw [headerLine, List.length_append]
      omega
  | errAlone | err hb message | connect hb hne | info hb hne => simp [headerLine]
  | sub h | subQueue h | unsub h =>
      have hlen := h.length_le
      simp only [headerLine, encodeOptional, List.map_cons, List.map_nil, List.sum_cons,
        List.sum_nil, List.length_append, List.length_singleton, List.length_nil] at hlen ⊢
      omega
  | unsubMax h hcount | pub payload h hcount | pubReply payload h hcount | msg payload h hcount
  | msgReply payload h hcount =>
      -- the numeral that was read is no shorter than the one that is written
      have hlen := h.length_le
      have hnum := hcount.length_le (h.field _ (by simp))
      simp only [headerLine, encodeOptional, List.map_cons, List.map_nil, List.sum_cons,
        List.sum_nil, List.length_append, List.length_singleton, List.length_nil] at hlen ⊢
      omega

/-- What follows the line of a frame is the body of the frame. -/
lemma Derives.body_eq {line rest : Bytes} {f : Frame} (h : Derives line rest f) :
    body f = rest := by
  cases h <;> rfl

/-- The spelling of the emitter is at most one byte longer than the one that was read. -/
lemma length_encode_le {buf : Bytes} {f : Frame} {c : ℕ} (h : parseFrame buf = .frame f c) :
    (encode f).length ≤ c + 1 := by
  obtain ⟨line, rest, htake, -, hderives⟩ := derives_of_parseFrame h
  have hline := hderives.length_headerLine_le
  have hc := (parseFrame_progress h).2
  have hlen := congrArg List.length htake
  rw [← hderives.body_eq] at hlen
  simp only [List.length_take, List.length_append, encode] at hlen ⊢
  omega

/-- **Re-encoding.** A frame that was parsed is written without failure into any buffer with one
byte more than it took, what was written parses to the same frame, and writing what was parsed
again gives the same bytes. -/
theorem reencode {buf : Bytes} {f : Frame} {c : ℕ} (h : parseFrame buf = .frame f c) :
    (∀ out : Bytes, c + 1 ≤ out.length → out.length < wordMod →
      ∃ n out', emitFrame f out = (.ok n, out')) ∧
    ∀ out n out', emitFrame f out = (.ok n, out') →
      parseFrame (out'.take n) = .frame f n ∧
      ∀ g m out₂ k out₂', parseFrame (out'.take n) = .frame g m →
        emitFrame g out₂ = (.ok k, out₂') → k = n ∧ out₂'.take k = out'.take n := by
  refine ⟨fun out hout hword => ?_, fun out n out' hemit => ?_⟩
  · have hlen := length_encode_le h
    exact ⟨_, _, emitFrame_of_le (by omega) hword⟩
  · have hword := endsInWord_emitFrame f out n out' hemit
    obtain ⟨rfl, -, rfl⟩ := emitFrame_ok hemit
    rw [take_overwrite_zero]
    have hback : parseFrame (encode f) = .frame f (encode f).length := by
      simpa using parseFrame_encode (wellFormed_of_parseFrame h) hword []
    refine ⟨hback, fun g m out₂ k out₂' hparse hemit₂ => ?_⟩
    obtain rfl : f = g := by
      rw [hback] at hparse
      cases hparse
      rfl
    obtain ⟨rfl, -, rfl⟩ := emitFrame_ok hemit₂
    exact ⟨rfl, take_overwrite_zero out₂ (encode f)⟩

/-- A message read with tabs, runs of blanks and leading zeros, and the shortest `-ERR`. -/
theorem reencode_spellings :
    (∃ n out', emitFrame (.msg (ascii "a.b") (ascii "9") none (ascii "x"))
      (List.replicate 21 0) = (.ok n, out') ∧
      parseFrame (out'.take n) = .frame (.msg (ascii "a.b") (ascii "9") none (ascii "x")) n) ∧
    ∃ n out', emitFrame (.err []) (List.replicate 7 0) = (.ok n, out') ∧
      parseFrame (out'.take n) = .frame (.err []) n := by
  have hmsg : parseFrame (ascii "MSG\ta.b  9 \t001\r\nx\r\n") =
      .frame (.msg (ascii "a.b") (ascii "9") none (ascii "x")) 20 := by decide
  have herr : parseFrame (ascii "-ERR\r\n") = .frame (.err []) 6 := by decide
  obtain ⟨n, out', hemit⟩ := (reencode hmsg).1 (List.replicate 21 0) (by decide) (by decide)
  obtain ⟨n₂, out₂', hemit₂⟩ := (reencode herr).1 (List.replicate 7 0) (by decide) (by decide)
  exact ⟨⟨n, out', hemit, ((reencode hmsg).2 _ _ _ hemit).1⟩,
    n₂, out₂', hemit₂, ((reencode herr).2 _ _ _ hemit₂).1⟩

end Aulon.Proto
