import Aulon.Proto.Header

/-!
# The parser is incremental

The verdict of `parseFrame` never changes when more bytes arrive, and it never comes early. The
header part rests on the search for the first line end: it is stable under appending
(`findCrlf_append`) and finds nothing in a buffer cut before the end of the line
(`findCrlf_take_of_lt`). The payload part rests on `Header.outcome`, which classifies short,
overflowing and wrongly terminated payloads in one place.

* `incremental_parseFrame` — the laws of `Lib.Incremental`.
* `parseFrame_stable` — the same in the terms of one buffer and its extensions and cuts.
-/

namespace Aulon.Proto

open Aulon.Lib

/-! ## The first line end -/

/-- The line end found lies within the buffer. -/
lemma findCrlf_le {b : Bytes} {i : ℕ} (h : findCrlf b = some i) : i + 2 ≤ b.length := by
  induction b generalizing i with
  | nil => cases h
  | cons x b ih =>
      rcases b with _ | ⟨y, t⟩
      · cases h
      · rw [findCrlf] at h
        split_ifs at h with hxy
        · cases h; simp
        · obtain ⟨j, hj, rfl⟩ := Option.map_eq_some_iff.mp h
          have := ih hj
          simp only [List.length_cons] at this ⊢
          omega

/-- More bytes do not move the first line end. -/
lemma findCrlf_append {b : Bytes} {i : ℕ} (h : findCrlf b = some i) (e : Bytes) :
    findCrlf (b ++ e) = some i := by
  induction b generalizing i with
  | nil => cases h
  | cons x b ih =>
      rcases b with _ | ⟨y, t⟩
      · cases h
      · rw [findCrlf] at h
        rw [List.cons_append, List.cons_append, findCrlf]
        split_ifs at h ⊢ with hxy
        · exact h
        · obtain ⟨j, hj, rfl⟩ := Option.map_eq_some_iff.mp h
          rw [← List.cons_append, ih hj]
          rfl

/-- A buffer cut before the end of its first line end has none. -/
lemma findCrlf_take_of_lt {b : Bytes} {i k : ℕ} (h : findCrlf b = some i) (hk : k < i + 2) :
    findCrlf (b.take k) = none := by
  cases hc : findCrlf (b.take k) with
  | none => rfl
  | some j =>
      have hle := findCrlf_le hc
      have happ := findCrlf_append hc (b.drop k)
      rw [List.take_append_drop, h] at happ
      cases happ
      simp only [List.length_take] at hle
      omega

/-- A line followed by a line end: the search finds it if the line holds none itself. -/
lemma findCrlf_append_crlf {l : Bytes} (h : findCrlf l = none) (t : Bytes) :
    findCrlf (l ++ (crlf ++ t)) = some l.length := by
  induction l with
  | nil => rfl
  | cons x l ih =>
      rcases l with _ | ⟨y, l⟩
      · -- the last byte of the line may be a carriage return; the next one is not a line feed
        have hx : (x == cr && cr == lf) = false := by
          rw [show (cr == lf) = false by decide, Bool.and_false]
        simp only [crlf, List.cons_append, List.nil_append, findCrlf, hx]
        rfl
      · rw [findCrlf] at h
        split_ifs at h with hxy
        have hl : findCrlf (y :: l) = none := Option.map_eq_none_iff.mp h
        rw [List.cons_append, List.cons_append, findCrlf, if_neg hxy, ← List.cons_append, ih hl]
        rfl

/-- The buffer around its first line end. -/
lemma eq_append_of_findCrlf {b : Bytes} {i : ℕ} (h : findCrlf b = some i) :
    b = b.take i ++ (crlf ++ b.drop (i + 2)) := by
  induction b generalizing i with
  | nil => cases h
  | cons x b ih =>
      rcases b with _ | ⟨y, t⟩
      · cases h
      · rw [findCrlf] at h
        split_ifs at h with hxy
        · cases h
          simp only [Bool.and_eq_true, beq_iff_eq] at hxy
          simp [crlf, hxy]
        · obtain ⟨j, hj, rfl⟩ := Option.map_eq_some_iff.mp h
          conv_lhs => rw [ih hj]
          rfl

/-- A buffer cut after its first line end still has it. -/
lemma findCrlf_take {b : Bytes} {i k : ℕ} (h : findCrlf b = some i) (hk : i + 2 ≤ k) :
    findCrlf (b.take k) = some i := by
  have hle := findCrlf_le h
  have hnone := findCrlf_take_of_lt h (show i < i + 2 by omega)
  have hlen : (b.take i).length = i := by simp only [List.length_take]; omega
  have hcut : b.take k = b.take i ++ (crlf ++ (b.drop (i + 2)).take (k - (i + 2))) := by
    conv_lhs => rw [eq_append_of_findCrlf h]
    have hcrlf : crlf.take (k - i) = crlf :=
      List.take_of_length_le (by rw [length_crlf]; omega)
    rw [List.take_append, hlen, List.take_append, hcrlf, List.take_of_length_le (by omega),
      length_crlf, Nat.sub_sub]
  rw [hcut, findCrlf_append_crlf hnone, hlen]

/-! ## The verdict on a header carried to longer and shorter buffers -/

/-- Without a line end, more is needed. -/
lemma parseFrame_of_none {b : Bytes} (h : findCrlf b = none) : parseFrame b = .needMore := by
  rw [parseFrame_eq, h]

/-- With a line end, the header decides. -/
lemma parseFrame_of_some {b : Bytes} {i : ℕ} (h : findCrlf b = some i) :
    parseFrame b = (parseHeader (b.take i)).outcome b (i + 2) := by
  rw [parseFrame_eq, h]

/-- A verdict other than a request for more comes from a line end. -/
lemma exists_findCrlf {b : Bytes} (h : parseFrame b ≠ .needMore) :
    ∃ i, findCrlf b = some i ∧ parseFrame b = (parseHeader (b.take i)).outcome b (i + 2) := by
  cases hi : findCrlf b with
  | none => exact absurd (parseFrame_of_none hi) h
  | some i => exact ⟨i, rfl, parseFrame_of_some hi⟩

/-- What a frame verdict says about the header: the line was complete, or the payload and its
line end are there. -/
lemma Header.outcome_eq_frame {hd : Header} {b : Bytes} {n c : ℕ} {f : Frame} :
    hd.outcome b n = .frame f c ↔
      (hd = .full f ∧ c = n) ∨
      ∃ mk len, hd = .withBody mk len ∧ c = n + len + 2 ∧ c < wordMod ∧ c ≤ b.length ∧
        slice b (n + len) c = crlf ∧ f = mk (slice b n (n + len)) := by
  cases hd with
  | bad e => simp [Header.outcome]
  | full g => simp [Header.outcome, eq_comm]
  | withBody mk len =>
      constructor
      · intro h
        refine Or.inr ⟨mk, len, rfl, ?_⟩
        rw [Header.outcome] at h
        split_ifs at h with hw hlt hcrlf
        cases h
        exact ⟨rfl, hw, by omega, hcrlf, rfl⟩
      · rintro (⟨h, -⟩ | ⟨mk', len', h, rfl, hw, hle, hcrlf, rfl⟩)
        · cases h
        · cases h
          rw [Header.outcome, if_pos hw, if_neg (by omega), if_pos hcrlf]

/-- What an error verdict says about the header. -/
lemma Header.outcome_eq_err {hd : Header} {b : Bytes} {n : ℕ} {x : ParseError} :
    hd.outcome b n = .err x ↔
      hd = .bad x ∨
      ∃ mk len, hd = .withBody mk len ∧
        ((¬ n + len + 2 < wordMod ∧ x = .payloadLengthInvalid) ∨
          (n + len + 2 < wordMod ∧ n + len + 2 ≤ b.length ∧
            slice b (n + len) (n + len + 2) ≠ crlf ∧ x = .missingTrailingCrlf)) := by
  cases hd with
  | bad e => simp [Header.outcome]
  | full g => simp [Header.outcome]
  | withBody mk len =>
      constructor
      · intro h
        refine Or.inr ⟨mk, len, rfl, ?_⟩
        rw [Header.outcome] at h
        split_ifs at h with hw hlt hcrlf
        · cases h
          exact Or.inr ⟨hw, by omega, hcrlf, rfl⟩
        · cases h
          exact Or.inl ⟨hw, rfl⟩
      · rintro (h | ⟨mk', len', h, ⟨hw, rfl⟩ | ⟨hw, hle, hcrlf, rfl⟩⟩)
        · cases h
        · cases h
          rw [Header.outcome, if_neg hw]
        · cases h
          rw [Header.outcome, if_pos hw, if_neg (by omega), if_neg hcrlf]

/-- A verdict other than a request for more is not changed by more bytes. -/
lemma Header.outcome_append {hd : Header} {b : Bytes} {n : ℕ}
    (h : hd.outcome b n ≠ .needMore) (e : Bytes) : hd.outcome (b ++ e) n = hd.outcome b n := by
  cases ho : hd.outcome b n with
  | needMore => exact absurd ho h
  | err x =>
      rw [Header.outcome_eq_err] at ho ⊢
      refine ho.imp_right ?_
      rintro ⟨mk, len, rfl, hov | ⟨hw, hle, hcrlf, rfl⟩⟩
      · exact ⟨mk, len, rfl, Or.inl hov⟩
      · refine ⟨mk, len, rfl, Or.inr ⟨hw, by rw [List.length_append]; omega, ?_, rfl⟩⟩
        rwa [slice_append_of_le hle]
  | frame f c =>
      rw [Header.outcome_eq_frame] at ho ⊢
      refine ho.imp_right ?_
      rintro ⟨mk, len, rfl, rfl, hw, hle, hcrlf, rfl⟩
      refine ⟨mk, len, rfl, rfl, hw, by rw [List.length_append]; omega, ?_, ?_⟩
      · rwa [slice_append_of_le hle]
      · rw [slice_append_of_le (by omega)]

/-! ## The laws -/

/-- What was decided stays so with more bytes. -/
lemma parseFrame_append {b : Bytes} (h : parseFrame b ≠ .needMore) (e : Bytes) :
    parseFrame (b ++ e) = parseFrame b := by
  obtain ⟨i, hi, ho⟩ := exists_findCrlf h
  have hle := findCrlf_le hi
  rw [parseFrame_of_some (findCrlf_append hi e), List.take_append_of_le_length (by omega),
    Header.outcome_append (ho ▸ h), ho]

/-- A frame has two bytes or more, and lies within the buffer. -/
lemma parseFrame_progress {b : Bytes} {f : Frame} {c : ℕ} (h : parseFrame b = .frame f c) :
    2 ≤ c ∧ c ≤ b.length := by
  obtain ⟨i, hi, ho⟩ := exists_findCrlf (b := b) (by rw [h]; simp)
  have hle := findCrlf_le hi
  rw [ho, Header.outcome_eq_frame] at h
  rcases h with ⟨-, rfl⟩ | ⟨mk, len, -, rfl, -, hc, -⟩
  · omega
  · omega

/-- Cutting a buffer at a place inside its frame, past the line end. -/
lemma parseHeader_take {b : Bytes} {i k : ℕ} (hi : findCrlf b = some i) (hk : i + 2 ≤ k) :
    parseFrame (b.take k) = (parseHeader (b.take i)).outcome (b.take k) (i + 2) := by
  rw [parseFrame_of_some (findCrlf_take hi hk), List.take_take, Nat.min_eq_left (by omega)]

/-- A frame needs no more than its own bytes. -/
lemma parseFrame_take {b : Bytes} {f : Frame} {c : ℕ} (h : parseFrame b = .frame f c) :
    parseFrame (b.take c) = .frame f c := by
  obtain ⟨i, hi, ho⟩ := exists_findCrlf (b := b) (by rw [h]; simp)
  rw [ho, Header.outcome_eq_frame] at h
  rcases h with ⟨hd, rfl⟩ | ⟨mk, len, hd, rfl, hw, hc, hcrlf, rfl⟩
  · rw [parseHeader_take hi le_rfl, hd]
    rfl
  · rw [parseHeader_take hi (by omega), Header.outcome_eq_frame]
    refine Or.inr ⟨mk, len, hd, rfl, hw, by simp only [List.length_take]; omega, ?_, ?_⟩
    · rw [slice, List.take_take, Nat.min_self]
      exact hcrlf
    · rw [slice, slice, List.take_take, Nat.min_eq_left (by omega)]

/-- A frame needs all of its bytes. -/
lemma parseFrame_early {b : Bytes} {f : Frame} {c : ℕ} (h : parseFrame b = .frame f c) {k : ℕ}
    (hk : k < c) : parseFrame (b.take k) = .needMore := by
  obtain ⟨i, hi, ho⟩ := exists_findCrlf (b := b) (by rw [h]; simp)
  by_cases hki : k < i + 2
  · exact parseFrame_of_none (findCrlf_take_of_lt hi hki)
  · rw [ho, Header.outcome_eq_frame] at h
    rcases h with ⟨-, rfl⟩ | ⟨mk, len, hd, rfl, hw, -⟩
    · omega
    · rw [parseHeader_take hi (by omega), hd, Header.outcome, if_pos hw, if_pos]
      simp only [List.length_take]
      omega

/-- `parseFrame` is an incremental parser. -/
theorem incremental_parseFrame : Incremental parseFrame where
  progress h := ⟨by have := parseFrame_progress h; omega, (parseFrame_progress h).2⟩
  frame_append h e := by rw [parseFrame_append (by rw [h]; simp), h]
  frame_take := parseFrame_take
  frame_early h _ hk := parseFrame_early h hk
  err_append h e := by rw [parseFrame_append (by rw [h]; simp), h]

/-- **The parser's verdict is stable and never early.** On any longer buffer a frame or an error
stays what it was; of the bytes of a frame, no proper initial part gives anything but a request
for more; and no initial part of a malformed buffer is a frame.
Source: `parse.rs`, `parse_frame` -/
theorem parseFrame_stable (b e : Bytes) :
    (∀ f c, parseFrame b = .frame f c →
      parseFrame (b ++ e) = .frame f c ∧ ∀ k < c, parseFrame (b.take k) = .needMore) ∧
    (∀ x, parseFrame b = .err x →
      parseFrame (b ++ e) = .err x ∧ ∀ k f c, parseFrame (b.take k) ≠ .frame f c) := by
  refine ⟨fun f c h => ⟨?_, fun k hk => ?_⟩, fun x h => ⟨?_, fun k f c => ?_⟩⟩
  · exact incremental_parseFrame.frame_append h e
  · exact incremental_parseFrame.frame_early h k hk
  · exact incremental_parseFrame.err_append h e
  · exact incremental_parseFrame.take_ne_frame_of_err h k f c

end Aulon.Proto
