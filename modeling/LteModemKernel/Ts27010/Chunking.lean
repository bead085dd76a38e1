import LteModemKernel.Lib.Scanner
import LteModemKernel.Ts27010.Recv

/-!
# Receiving a stream in chunks

The line discipline writes each chunk of the received stream behind the unconsumed
bytes and then runs `ts27010_mux_recv`, which parses these bytes once more from
the idle state.  Two places of the routine make the result depend on how the stream
was cut.  A flag where an address is expected is consumed together with the opening
flag before it, although the parser is inside a frame.  And the length test of a long
header compares with the index of the data in the buffer, which depends on what is
still in front of the frame.

On streams that reach neither place, the routine is a restarted scanner, and the
frames do not depend on the cuts.

Main results:

- Theorem `receive_eq_run`: on a safe stream the frames are those of one scan.
- Theorem `receive_cut_independent`: any two ways of cutting a safe stream give
  the same frames.
- Theorem `receive_cut_dependent`: a doubled opening flag breaks this.
-/

namespace LteModemKernel.Ts27010

open Lib List

/-! ## Runs over chunks -/

/-- Write each chunk and run `ts27010_mux_recv` after it: the frames handed over,
or nothing if some chunk does not fit into the free room of the buffer. -/
def receive : Ringbuf → List (List UInt8) → Option (List Frame)
  | _, [] => some []
  | r, chunk :: rest =>
    if chunk.length ≤ r.room then
      let call := muxRecv (r.write chunk).1
      (receive call.1 rest).map fun later => call.2 ++ later
    else none

/-! ## The scanner and its safe streams -/

/-- The parser of one frame after another.  The length test of a long header is made
as if the frame stood at the start of the buffer. -/
def parser : Scanner Phase UInt8 Frame where
  start := .idle
  step := Phase.step 5

theorem parser_resets : parser.Resets := by
  intro st c hout
  cases st with
  | idle | addr | len | len2 | data =>
    exfalso
    simp only [parser, Phase.step] at hout
    split_ifs at hout <;> exact hout rfl
  | control a => exact absurd rfl hout
  | ending a k fcs payload => rfl

/-- Byte `c` at position `i` of the stream does not reach a place where the
result depends on the cuts.  An address is not a flag.  The length of a long header
passes or fails its test whichever earlier idle position `b` the scan started
from, as long as the bytes in between fit into the buffer. -/
def safeAt (s : List UInt8) (i : Nat) (c : UInt8) : Bool :=
  match (parser.run .idle (s.take i)).1 with
  | .addr => c ≠ basicFlag
  | .len2 _ _ lo =>
    (List.range (i + 1)).all fun b =>
      (parser.run .idle (s.take b)).1 ≠ .idle ∨ i + 1 - b ≥ ldiscBufferSize ∨
        (longLen lo c + (i + 1 - b) ≥ ldiscBufferSize ↔ longLen lo c + 5 ≥ ldiscBufferSize)
  | _ => true

/-- No byte of the stream reaches such a place. -/
def CutSafe (s : List UInt8) : Prop :=
  ∀ i < s.length, safeAt s i (s.getD i 0) = true

instance (s : List UInt8) : Decidable (CutSafe s) :=
  inferInstanceAs (Decidable (∀ i < s.length, safeAt s i (s.getD i 0) = true))

variable {b : Nat}

namespace CutSafe

variable {p q : List UInt8} {c : UInt8}

theorem safeAt_length (h : CutSafe (p ++ c :: q)) : safeAt (p ++ c :: q) p.length c = true := by
  have hsafe := h p.length (by simp)
  simpa using hsafe

theorem addr_ne_flag (h : CutSafe (p ++ c :: q)) (hst : (parser.run .idle p).1 = .addr) :
    c ≠ basicFlag := by
  have hsafe := h.safeAt_length
  unfold safeAt at hsafe
  rw [take_left, hst] at hsafe
  simpa using hsafe

/-- On a safe stream the length test of a long header has the same result from every
idle position that the buffer can start at. -/
theorem len2_iff (h : CutSafe (p ++ c :: q)) {a k lo : UInt8}
    (hst : (parser.run .idle p).1 = .len2 a k lo) (hb : b ≤ p.length)
    (hidle : (parser.run .idle (p.take b)).1 = .idle) (hroom : p.length + 1 - b < ldiscBufferSize) :
    longLen lo c + (p.length + 1 - b) ≥ ldiscBufferSize ↔ longLen lo c + 5 ≥ ldiscBufferSize := by
  have hsafe := h.safeAt_length
  unfold safeAt at hsafe
  rw [take_left, hst] at hsafe
  have hall := all_eq_true.mp hsafe b (mem_range.mpr (by omega))
  rw [decide_eq_true_eq, take_append_of_le_length hb] at hall
  rcases hall with hne | hge | hiff
  · exact absurd hidle hne
  · omega
  · exact hiff

end CutSafe

variable {p q : List UInt8} {r : Ringbuf} {frames : List Frame}

theorem step_eq_parserStep {c : UInt8} (h : CutSafe (p ++ c :: q)) (hb : b ≤ p.length)
    (hidle : (parser.run .idle (p.take b)).1 = .idle) (hroom : p.length + 1 - b < ldiscBufferSize) :
    (parser.run .idle p).1.step (p.length - b + 1) c = parser.step (parser.run .idle p).1 c := by
  have hidx : p.length - b + 1 = p.length + 1 - b := by omega
  cases hst : (parser.run .idle p).1 with
  | len2 a k lo =>
    have hiff := h.len2_iff hst hb hidle hroom
    simp [parser, Phase.step, hidx, hiff]
  | idle | addr | control | len | data | ending => rfl

/-- On a safe stream, a byte is done with exactly when the parser is idle again. -/
theorem consumeAfter_eq_parserStep {c : UInt8} (h : CutSafe (p ++ c :: q)) (hb : b ≤ p.length)
    (hidle : (parser.run .idle (p.take b)).1 = .idle) (hroom : p.length + 1 - b < ldiscBufferSize)
    (consume : Nat) :
    (parser.run .idle p).1.consumeAfter (p.length - b + 1) consume c =
      if (parser.step (parser.run .idle p).1 c).1 = .idle then p.length - b + 1
      else consume := by
  unfold Phase.consumeAfter
  rw [step_eq_parserStep h hb hidle hroom]
  have hiff : ((parser.step (parser.run .idle p).1 c).1 = .idle ∨
      (parser.run .idle p).1 = .addr ∧ c = basicFlag) ↔
      (parser.step (parser.run .idle p).1 c).1 = .idle := by
    constructor
    · rintro (hstep | ⟨hst, hc⟩)
      · exact hstep
      · exact absurd hc (h.addr_ne_flag hst)
    · exact .inl
  simp [hiff]

/-- The scan of a part of a safe stream that the buffer holds from the idle position
`b` on is the run of the parser.  The induction is on the bytes still to scan. -/
theorem scan_eq_run (rest : List UInt8) (h : CutSafe (p ++ rest ++ q)) (hb : b ≤ p.length)
    (hidle : (parser.run .idle (p.take b)).1 = .idle)
    (hroom : p.length + rest.length - b < ldiscBufferSize) (consume : Nat) :
    (parser.run .idle p).1.scan (p.length - b) consume rest =
      (if parser.consumed (parser.run .idle p).1 rest = 0 then consume
        else p.length - b + parser.consumed (parser.run .idle p).1 rest,
        (parser.run (parser.run .idle p).1 rest).2) := by
  induction rest generalizing p consume with
  | nil => rfl
  | cons c rest ih =>
    rw [append_assoc, cons_append] at h
    rw [length_cons] at hroom
    have hstep := step_eq_parserStep h hb hidle (by omega)
    have hcons := consumeAfter_eq_parserStep h hb hidle (by omega) consume
    have hnext : (parser.run .idle (p ++ [c])).1 = (parser.step (parser.run .idle p).1 c).1 := by
      rw [Scanner.run_append]
      rfl
    have hrec := ih (p := p ++ [c]) (by simpa using h) (by rw [length_append]; omega)
      (by rwa [take_append_of_le_length hb])
      (by rw [length_append, length_singleton]; omega)
      ((parser.run .idle p).1.consumeAfter (p.length - b + 1) consume c)
    have hlen : (p ++ [c]).length - b = p.length - b + 1 := by
      rw [length_append, length_singleton]
      omega
    rw [hlen, hnext] at hrec
    rw [Phase.scan, hstep, hrec, hcons, Scanner.run_cons, Scanner.consumed_cons]
    have hstart : parser.start = .idle := rfl
    rw [hstart]
    apply Prod.ext
    · by_cases hk : parser.consumed (parser.step (parser.run .idle p).1 c).1 rest = 0
      · by_cases hst : (parser.step (parser.run .idle p).1 c).1 = .idle
        · rw [hst] at hk ⊢
          simp [hk]
        · simp [hk, hst]
      · simp [hk]
        omega
    · rfl

/-! ## Independence of the cuts -/

/-- One chunk of a safe stream: the call hands over the frames of the restarted scanner
and leaves what that keeps. -/
theorem muxRecv_eq_feed {chunk : List UInt8} (hlen : r.len = ldiscBufferSize)
    (hcontents : r.contents = parser.pending p) (hfit : chunk.length ≤ r.room)
    (h : CutSafe (p ++ chunk ++ q)) :
    (muxRecv (r.write chunk).1).1.len = ldiscBufferSize ∧
      (muxRecv (r.write chunk).1).1.contents = (parser.feed (parser.pending p) chunk).1 ∧
      (muxRecv (r.write chunk).1).2 = (parser.feed (parser.pending p) chunk).2 := by
  obtain ⟨hwrite, hwlen, -⟩ := r.contents_write chunk hfit
  rw [hcontents] at hwrite
  -- the buffer holds the stream from the last idle position of the parser on
  have hle : parser.consumed .idle p ≤ p.length := parser.consumed_le .idle p
  have hpending : parser.pending p = p.drop (parser.consumed .idle p) := rfl
  have hidle : (parser.run .idle (p.take (parser.consumed .idle p))).1 = .idle :=
    parser.run_take_consumed p
  have htake : (p.take (parser.consumed .idle p)).length = parser.consumed .idle p := by
    rw [length_take, Nat.min_eq_left hle]
  have hsize : (parser.pending p ++ chunk).length < ldiscBufferSize := by
    rw [← hwrite, Ringbuf.length_contents, ← hlen, ← hwlen]
    exact Ringbuf.level_lt _
  have hscan := scan_eq_run (parser.pending p ++ chunk)
    (p := p.take (parser.consumed .idle p)) (q := q) (b := parser.consumed .idle p)
    (by
      rw [hpending, ← append_assoc, take_append_drop]
      exact h)
    htake.ge (by rw [take_take, Nat.min_self]; exact hidle)
    (by rw [htake, Nat.add_sub_cancel_left]; exact hsize) 0
  rw [hidle, htake, Nat.sub_self, Nat.zero_add] at hscan
  have hconsume : (Phase.idle.scan 0 0 (parser.pending p ++ chunk)).1 =
      parser.consumed .idle (parser.pending p ++ chunk) := by
    rw [hscan]
    split_ifs with hk
    · exact hk.symm
    · rfl
  refine ⟨?_, ?_, ?_⟩
  · rw [muxRecv_eq_scan]
    exact hwlen.trans hlen
  · rw [muxRecv_eq_scan, Ringbuf.contents_consume, hwrite, hconsume]
    rfl
  · rw [muxRecv_eq_scan, hwrite, hscan]
    rfl

/-- A whole run over chunks of a safe stream hands over the frames of the restarted
scanner.  The induction is on the chunks, with the stream received so far as `p`. -/
theorem receive_eq_feedAll (chunks : List (List UInt8)) (hlen : r.len = ldiscBufferSize)
    (hcontents : r.contents = parser.pending p) (h : CutSafe (p ++ chunks.flatten))
    (hrun : receive r chunks = some frames) :
    frames = (parser.feedAll (parser.pending p) chunks).2 := by
  induction chunks generalizing r p frames with
  | nil =>
    cases hrun
    rfl
  | cons chunk rest ih =>
    rw [flatten_cons, ← append_assoc] at h
    rw [receive] at hrun
    by_cases hfit : chunk.length ≤ r.room
    · rw [if_pos hfit, Option.map_eq_some_iff] at hrun
      obtain ⟨later, hlater, rfl⟩ := hrun
      obtain ⟨hlen', hcontents', hframes⟩ := muxRecv_eq_feed hlen hcontents hfit h
      have hpending := (parser.feed_spec parser_resets p chunk).1
      have hrec := ih hlen' (hcontents'.trans hpending) h hlater
      rw [hframes, hrec, ← hpending]
      rfl
    · rw [if_neg hfit] at hrun
      cases hrun

/-- On a safe stream the frames of a run are those of one scan of the stream. -/
theorem receive_eq_run {chunks : List (List UInt8)} (hlen : r.len = ldiscBufferSize)
    (hempty : r.level = 0) (h : CutSafe chunks.flatten) (hrun : receive r chunks = some frames) :
    frames = (parser.run .idle chunks.flatten).2 := by
  have hnil : r.contents = [] := eq_nil_of_length_eq_zero (by simp [hempty])
  have hfeed := receive_eq_feedAll chunks (p := []) hlen hnil h hrun
  have hall := parser.feedAll_outputs parser_resets [] chunks
  rw [hfeed]
  exact hall.symm

/-- Two ways of cutting a safe stream, each chunk fitting into the free room of the
receive buffer, hand over the same sequence of frames. -/
theorem receive_cut_independent (s : List UInt8) (h : CutSafe s)
    (cuts cuts' : List (List UInt8)) (hcuts : cuts.flatten = s) (hcuts' : cuts'.flatten = s)
    (r r' : Ringbuf) (hlen : r.len = ldiscBufferSize) (hlen' : r'.len = ldiscBufferSize)
    (hempty : r.level = 0) (hempty' : r'.level = 0) (frames frames' : List Frame)
    (hrun : receive r cuts = some frames) (hrun' : receive r' cuts' = some frames') :
    frames = frames' := by
  subst hcuts
  have hleft := receive_eq_run hlen hempty h hrun
  have hright := receive_eq_run hlen' hempty' (by rwa [hcuts']) hrun'
  rw [hleft, hright, hcuts']

/-- The receive buffer that the line discipline allocates. -/
def freshBuffer : Ringbuf := Ringbuf.alloc ldiscBufferSize (by decide)

/-- A frame of channel 1 without payload, cut inside its header. -/
theorem receive_cut_independent_header :
    receive freshBuffer [[0xF9, 0x07, 0x3f, 0x01, 0xde, 0xF9]] = some [⟨0x07, 0x3f, []⟩] ∧
      ∀ frames, receive freshBuffer [[0xF9, 0x07], [0x3f, 0x01, 0xde, 0xF9]] = some frames →
        frames = [⟨0x07, 0x3f, []⟩] := by
  refine ⟨by decide +kernel, ?_⟩
  intro frames hrun
  exact receive_cut_independent [0xF9, 0x07, 0x3f, 0x01, 0xde, 0xF9] (by decide)
    [[0xF9, 0x07], [0x3f, 0x01, 0xde, 0xF9]] [[0xF9, 0x07, 0x3f, 0x01, 0xde, 0xF9]] rfl rfl
    freshBuffer freshBuffer rfl rfl rfl rfl frames _ hrun (by decide +kernel)

/-- The same frame behind a second opening flag: cut after the two flags it is lost. -/
theorem receive_cut_dependent :
    [[0xF9, 0xF9, 0x07, 0x3f, 0x01, 0xde, 0xF9]].flatten =
        [[0xF9, 0xF9], [0x07, 0x3f, 0x01, 0xde, (0xF9 : UInt8)]].flatten ∧
      receive freshBuffer [[0xF9, 0xF9, 0x07, 0x3f, 0x01, 0xde, 0xF9]] =
        some [⟨0x07, 0x3f, []⟩] ∧
      receive freshBuffer [[0xF9, 0xF9], [0x07, 0x3f, 0x01, 0xde, 0xF9]] = some [] := by
  decide +kernel

end LteModemKernel.Ts27010
