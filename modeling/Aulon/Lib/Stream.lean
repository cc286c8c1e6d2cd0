import Mathlib.Data.List.Basic
import Mathlib.Tactic

/-!
# Incremental parsers

A streaming parser looks at a buffer and answers with one frame and the number of bytes it
took, asks for more input, or fails. `Incremental` says when its verdicts can be trusted on a
buffer that is still growing: a verdict never changes when more input arrives, a frame needs all
the bytes it takes and no more, and it takes at least one.

* `parseAll parse b` — the frames taken greedily from the head of `b`, what is left over, and
  the error that stopped the parse, if any.
* `parseAll_append_of_error`, `parseAll_append_of_clean` — parsing a longer stream is parsing
  the shorter one and going on from its leftover. These two rules are what makes a reader that
  parses after every read insensitive to how the stream was cut.
* `parseAll_flatten`, `parseAll_of_isPrefix` — a stream of encoded frames parses into these frames,
  and the start of it into those that are whole.
* `Partway` — a parse in progress: it takes frames, and waits for input in between.
* `length_rest_le` — the leftover of a part of the stream is no longer than the longest frame,
  or than the leftover of the whole.
-/

namespace Aulon.Lib

/-- Answer of a streaming parser. -/
inductive Outcome (φ ε : Type) where
  /-- One frame, made of the first `consumed` bytes. -/
  | frame (x : φ) (consumed : ℕ)
  /-- No complete frame yet. -/
  | needMore
  /-- Malformed in a way that more input does not repair. -/
  | err (e : ε)
  deriving DecidableEq, Repr

variable {β φ ε : Type}

/-- The laws of an incremental parser. -/
structure Incremental (parse : List β → Outcome φ ε) : Prop where
  /-- A frame takes at least one byte, and only bytes that are there. -/
  progress : ∀ {b x c}, parse b = .frame x c → 0 < c ∧ c ≤ b.length
  /-- More input does not change a frame. -/
  frame_append : ∀ {b x c}, parse b = .frame x c → ∀ e, parse (b ++ e) = .frame x c
  /-- The bytes a frame takes are enough to see it. -/
  frame_take : ∀ {b x c}, parse b = .frame x c → parse (b.take c) = .frame x c
  /-- Fewer bytes are not. -/
  frame_early : ∀ {b x c}, parse b = .frame x c → ∀ k < c, parse (b.take k) = .needMore
  /-- More input does not change an error. -/
  err_append : ∀ {b x}, parse b = .err x → ∀ e, parse (b ++ e) = .err x

namespace Incremental

variable {parse : List β → Outcome φ ε} (h : Incremental parse)
include h

/-- A buffer that asks for more is shorter than the frame it grows into. -/
lemma length_lt_of_needMore {b e : List β} {x : φ} {c : ℕ} (hb : parse b = .needMore)
    (hbe : parse (b ++ e) = .frame x c) : b.length < c := by
  by_contra hc
  have hcb : c ≤ b.length := by omega
  have htake := h.frame_take hbe
  rw [List.take_append_of_le_length hcb] at htake
  have hb' := h.frame_append htake (b.drop c)
  rw [List.take_append_drop, hb] at hb'
  cases hb'

/-- No initial part of a buffer that fails is a frame. -/
lemma take_ne_frame_of_err {b : List β} {x : ε} (hb : parse b = .err x) (k : ℕ) (y : φ) (c : ℕ) :
    parse (b.take k) ≠ .frame y c := by
  intro hk
  have hb' := h.frame_append hk (b.drop k)
  rw [List.take_append_drop, hb] at hb'
  cases hb'

end Incremental

/-! ## Greedy parsing -/

/-- Result of a greedy parse. -/
structure Parsed (β φ ε : Type) where
  /-- The frames, each with the number of bytes it took. -/
  frames : List (φ × ℕ)
  /-- What is left over after the last frame. -/
  rest : List β
  /-- The error the parse stopped at, if it did not stop for lack of input. -/
  error : Option ε

/-- Greedy parse with a bound on the number of frames. -/
def parseAllFuel (parse : List β → Outcome φ ε) : ℕ → List β → Parsed β φ ε
  | 0, b => ⟨[], b, none⟩
  | n + 1, b =>
      match parse b with
      | .frame x c =>
          let p := parseAllFuel parse n (b.drop c)
          ⟨(x, c) :: p.frames, p.rest, p.error⟩
      | .needMore => ⟨[], b, none⟩
      | .err e => ⟨[], b, some e⟩

/-- Take frames from the head of the buffer until it asks for more or fails. A frame takes at
least one byte, so the length of the buffer bounds their number. -/
def parseAll (parse : List β → Outcome φ ε) (b : List β) : Parsed β φ ε :=
  parseAllFuel parse (b.length + 1) b

section laws

variable {parse : List β → Outcome φ ε}

/-- Fuel above the length of the buffer is never used up. -/
lemma parseAllFuel_eq (h : Incremental parse) (n : ℕ) :
    ∀ m b, b.length < n → b.length < m → parseAllFuel parse n b = parseAllFuel parse m b := by
  induction n with
  | zero => intro m b hn; omega
  | succ n ih =>
      intro m b hn hm
      obtain ⟨m, rfl⟩ : ∃ k, m = k + 1 := ⟨m - 1, by omega⟩
      unfold parseAllFuel
      cases hp : parse b with
      | frame x c =>
          have hc := h.progress hp
          have hd : (b.drop c).length = b.length - c := List.length_drop
          simp only
          rw [ih m (b.drop c) (by omega) (by omega)]
      | needMore => rfl
      | err e => rfl

/-- The parse of a buffer that starts with a frame. -/
lemma parseAll_of_frame (h : Incremental parse) {b : List β} {x : φ} {c : ℕ}
    (hp : parse b = .frame x c) :
    parseAll parse b =
      ⟨(x, c) :: (parseAll parse (b.drop c)).frames, (parseAll parse (b.drop c)).rest,
        (parseAll parse (b.drop c)).error⟩ := by
  have hc := h.progress hp
  have hd : (b.drop c).length = b.length - c := List.length_drop
  rw [parseAll, parseAllFuel, hp]
  simp only
  rw [parseAllFuel_eq h b.length ((b.drop c).length + 1) (b.drop c) (by omega) (by omega)]
  rfl

/-- The parse of a buffer without a whole frame. -/
lemma parseAll_of_needMore {b : List β} (hp : parse b = .needMore) :
    parseAll parse b = ⟨[], b, none⟩ := by
  rw [parseAll, parseAllFuel, hp]

/-- The parse of a buffer that starts with an error. -/
lemma parseAll_of_err {b : List β} {e : ε} (hp : parse b = .err e) :
    parseAll parse b = ⟨[], b, some e⟩ := by
  rw [parseAll, parseAllFuel, hp]

/-- Induction along a greedy parse. -/
theorem parseAll_induction (h : Incremental parse) {P : List β → Prop}
    (needMore : ∀ b, parse b = .needMore → P b)
    (err : ∀ b e, parse b = .err e → P b)
    (frame : ∀ b x c, parse b = .frame x c → P (b.drop c) → P b) (b : List β) : P b := by
  induction hn : b.length using Nat.strong_induction_on generalizing b with
  | _ n ih =>
      cases hp : parse b with
      | frame x c =>
          have hc := h.progress hp
          have hd : (b.drop c).length = b.length - c := List.length_drop
          exact frame b x c hp (ih _ (by omega) (b.drop c) rfl)
      | needMore => exact needMore b hp
      | err e => exact err b e hp

/-- Dropping the bytes of a frame and growing the buffer commute. -/
private lemma drop_append_of_frame (h : Incremental parse) {b : List β} {x : φ} {c : ℕ}
    (hp : parse b = .frame x c) (e : List β) : (b ++ e).drop c = b.drop c ++ e :=
  List.drop_append_of_le_length (h.progress hp).2

/-- A parse that failed fails in the same way, after the same frames, on every longer stream. -/
theorem parseAll_append_of_error (h : Incremental parse) (b e : List β) {x : ε}
    (hb : (parseAll parse b).error = some x) :
    (parseAll parse (b ++ e)).frames = (parseAll parse b).frames ∧
      (parseAll parse (b ++ e)).error = some x := by
  induction b using parseAll_induction h with
  | needMore b hp => rw [parseAll_of_needMore hp] at hb; cases hb
  | err b y hp =>
      rw [parseAll_of_err hp] at hb
      rw [parseAll_of_err hp, parseAll_of_err (h.err_append hp e)]
      exact ⟨rfl, hb⟩
  | frame b y c hp ih =>
      rw [parseAll_of_frame h hp] at hb
      rw [parseAll_of_frame h hp, parseAll_of_frame h (h.frame_append hp e),
        drop_append_of_frame h hp]
      exact ⟨by rw [(ih hb).1], (ih hb).2⟩

/-- A parse that stopped for lack of input goes on from its leftover on a longer stream. -/
theorem parseAll_append_of_clean (h : Incremental parse) (b e : List β)
    (hb : (parseAll parse b).error = none) :
    parseAll parse (b ++ e) =
      ⟨(parseAll parse b).frames ++ (parseAll parse ((parseAll parse b).rest ++ e)).frames,
        (parseAll parse ((parseAll parse b).rest ++ e)).rest,
        (parseAll parse ((parseAll parse b).rest ++ e)).error⟩ := by
  induction b using parseAll_induction h with
  | needMore b hp => rw [parseAll_of_needMore hp]; rfl
  | err b y hp => rw [parseAll_of_err hp] at hb; cases hb
  | frame b y c hp ih =>
      rw [parseAll_of_frame h hp] at hb
      rw [parseAll_of_frame h (h.frame_append hp e), drop_append_of_frame h hp, ih hb,
        parseAll_of_frame h hp]
      rfl

/-- The leftover of a parse that stopped for lack of input asks for more. -/
lemma parse_rest_of_clean (h : Incremental parse) (b : List β)
    (hb : (parseAll parse b).error = none) : parse (parseAll parse b).rest = .needMore := by
  induction b using parseAll_induction h with
  | needMore b hp => rw [parseAll_of_needMore hp]; exact hp
  | err b y hp => rw [parseAll_of_err hp] at hb; cases hb
  | frame b y c hp ih =>
      rw [parseAll_of_frame h hp] at hb ⊢
      exact ih hb

/-- The leftover after part of a stream is bounded by the frames and the leftover of the whole
stream. -/
theorem length_rest_le (h : Incremental parse) (b e : List β) {m : ℕ}
    (hb : (parseAll parse b).error = none)
    (hframes : ∀ f ∈ (parseAll parse (b ++ e)).frames, f.2 ≤ m)
    (hrest : (parseAll parse (b ++ e)).rest.length ≤ m) :
    (parseAll parse b).rest.length ≤ m := by
  have hmore := parse_rest_of_clean h b hb
  rw [parseAll_append_of_clean h b e hb] at hframes hrest
  set r := (parseAll parse b).rest
  cases hp : parse (r ++ e) with
  | frame x c =>
      have hlt := h.length_lt_of_needMore hmore hp
      rw [parseAll_of_frame h hp] at hframes
      have hc : c ≤ m := hframes (x, c) (by simp)
      omega
  | needMore =>
      rw [parseAll_of_needMore hp] at hrest
      simp only [List.length_append] at hrest
      omega
  | err x =>
      rw [parseAll_of_err hp] at hrest
      simp only [List.length_append] at hrest
      omega

/-- A stream of encoded frames parses into these frames, with nothing left. -/
theorem parseAll_flatten (h : Incremental parse) (hnil : parse [] = .needMore) {α : Type}
    {encode : α → List β} {value : α → φ} {xs : List α}
    (hxs : ∀ x ∈ xs, ∀ rest, parse (encode x ++ rest) = .frame (value x) (encode x).length) :
    parseAll parse (xs.map encode).flatten =
      ⟨xs.map fun x => (value x, (encode x).length), [], none⟩ := by
  induction xs with
  | nil => exact parseAll_of_needMore hnil
  | cons x xs ih =>
      rw [List.map_cons, List.flatten_cons, parseAll_of_frame h (hxs x List.mem_cons_self _),
        List.drop_left, ih fun y hy => hxs y (List.mem_cons_of_mem x hy)]
      rfl

/-- How many of some chunks, given by their lengths, are whole in the first `m` bytes. -/
def wholeChunks : List ℕ → ℕ → ℕ
  | [], _ => 0
  | c :: cs, m => if c ≤ m then wholeChunks cs (m - c) + 1 else 0

/-- A part of a frame is not a frame and not an error. -/
lemma Incremental.needMore_of_isPrefix (h : Incremental parse) {b p : List β} {x : φ}
    (hb : parse b = .frame x b.length) (hp : p <+: b) (hlt : p.length < b.length) :
    parse p = .needMore := by
  have hearly := h.frame_early hb p.length hlt
  rwa [← List.prefix_iff_eq_take.mp hp] at hearly

/-- The start of a stream of encoded frames parses into those of them that are whole. -/
theorem parseAll_of_isPrefix (h : Incremental parse) (hnil : parse [] = .needMore) {α : Type}
    {encode : α → List β} {value : α → φ} {xs : List α}
    (hxs : ∀ x ∈ xs, ∀ rest, parse (encode x ++ rest) = .frame (value x) (encode x).length)
    {b : List β} (hb : b <+: (xs.map encode).flatten) :
    (parseAll parse b).frames.map (·.1) =
      (xs.map value).take (wholeChunks (xs.map fun x => (encode x).length) b.length) := by
  induction xs generalizing b with
  | nil =>
      obtain rfl : b = [] := List.prefix_nil.mp hb
      rw [parseAll_of_needMore hnil]
      rfl
  | cons x xs ih =>
      rw [List.map_cons, List.flatten_cons] at hb
      rw [List.map_cons, List.map_cons, wholeChunks]
      by_cases hlen : (encode x).length ≤ b.length
      · obtain ⟨rest, rfl⟩ :=
          List.prefix_of_prefix_length_le (List.prefix_append _ _) hb hlen
        rw [List.prefix_append_right_inj] at hb
        have htail := ih (fun y hy => hxs y (List.mem_cons_of_mem x hy)) hb
        rw [if_pos hlen, parseAll_of_frame h (hxs x List.mem_cons_self rest), List.drop_left,
          List.map_cons, htail, List.take_succ_cons, List.length_append, Nat.add_sub_cancel_left]
      · have hpart : b <+: encode x :=
          List.prefix_of_prefix_length_le hb (List.prefix_append _ _) (by omega)
        have hx := hxs x List.mem_cons_self []
        rw [List.append_nil] at hx
        rw [if_neg hlen, parseAll_of_needMore (h.needMore_of_isPrefix hx hpart (by omega))]
        rfl

/-- The frames of a greedy parse are frames of the parser. -/
lemma exists_parse_of_mem (h : Incremental parse) {b : List β} {x : φ × ℕ}
    (hx : x ∈ (parseAll parse b).frames) : ∃ buf, parse buf = .frame x.1 x.2 := by
  induction b using parseAll_induction h with
  | needMore b hp =>
      rw [parseAll_of_needMore hp] at hx
      cases hx
  | err b e hp =>
      rw [parseAll_of_err hp] at hx
      cases hx
  | frame b y c hp ih =>
      rw [parseAll_of_frame h hp] at hx
      rcases List.mem_cons.mp hx with rfl | hx
      · exact ⟨b, hp⟩
      · exact ih hx

/-! ## A parse in progress -/

/-- The greedy parse of `b` has taken `frames` and goes on at `rest`. -/
def Partway (parse : List β → Outcome φ ε) (b : List β) (frames : List (φ × ℕ)) (rest : List β) :
    Prop :=
  parseAll parse b = ⟨frames ++ (parseAll parse rest).frames, (parseAll parse rest).rest,
    (parseAll parse rest).error⟩

/-- At the start nothing was taken. -/
lemma Partway.start (b : List β) : Partway parse b [] b := rfl

/-- It takes the next frame. -/
lemma Partway.frame (h : Incremental parse) {b rest : List β} {frames : List (φ × ℕ)}
    (hb : Partway parse b frames rest) {x : φ} {c : ℕ} (hp : parse rest = .frame x c) :
    Partway parse b (frames ++ [(x, c)]) (rest.drop c) := by
  unfold Partway at hb ⊢
  rw [hb, parseAll_of_frame h hp, List.append_assoc]
  rfl

/-- It waits for input, and some arrives. -/
lemma Partway.append (h : Incremental parse) {b rest : List β} {frames : List (φ × ℕ)}
    (hb : Partway parse b frames rest) (hp : parse rest = .needMore) (e : List β) :
    Partway parse (b ++ e) frames (rest ++ e) := by
  unfold Partway at hb ⊢
  rw [parseAll_of_needMore hp, List.append_nil] at hb
  rw [parseAll_append_of_clean h b e (by rw [hb]), hb]

/-- What was taken is the start of what the whole parse takes. -/
lemma Partway.isPrefix {b rest : List β} {frames : List (φ × ℕ)}
    (hb : Partway parse b frames rest) : frames <+: (parseAll parse b).frames := by
  rw [hb]
  exact List.prefix_append _ _

/-- A longer stream begins with the frames of the shorter one. -/
lemma parseAll_frames_append (h : Incremental parse) (b e : List β) :
    (parseAll parse b).frames <+: (parseAll parse (b ++ e)).frames := by
  cases hb : (parseAll parse b).error with
  | none =>
      rw [parseAll_append_of_clean h b e hb]
      exact List.prefix_append _ _
  | some x => rw [(parseAll_append_of_error h b e hb).1]

/-- What a parse without error starts with parses without error. -/
lemma parseAll_error_of_append (h : Incremental parse) (b e : List β)
    (hbe : (parseAll parse (b ++ e)).error = none) : (parseAll parse b).error = none := by
  cases hb : (parseAll parse b).error with
  | none => rfl
  | some x =>
      rw [(parseAll_append_of_error h b e hb).2] at hbe
      cases hbe

end laws

end Aulon.Lib
