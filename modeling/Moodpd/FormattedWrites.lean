import Moodpd.DaemonRuns

/-!
# Formatted writes

Both printf-style writers format into a buffer of fixed size. `writeCommandF` then sends as
many bytes as the whole text has, `writef` the C string that the buffer holds.
-/
namespace Moodpd
open Memory HexText Daemon

namespace NonblockWriter

def writeString (k : Kernel) (s : List UInt8) (w : NonblockWriter) : Except Halt NonblockWriter :=
  w.write k s

def writef (k : Kernel) (fmt : List Piece) (args : List ℤ) (w : NonblockWriter) :
    Except Halt NonblockWriter := do
  let (c, _) := vsnprintf 2048 (format fmt args)
  let s ← checked (cstring c)
  w.writeString k s

end NonblockWriter

/-- `writeCommandF` ends, without an access outside what was stored, and has submitted the
formatted text. -/
def CommandExact (k : HealthyKernel) (fmt : List Piece) (args : List ℤ) (s : Daemon) : Prop :=
  ∃ s', s.writeCommandF k.toKernel fmt args = .ok s' ∧
    s'.serial.submitted = s.serial.submitted ++ [format fmt args]

/-- The same of `writef`. -/
def WritefExact (k : HealthyKernel) (fmt : List Piece) (args : List ℤ) (w : NonblockWriter) :
    Prop :=
  ∃ w', w.writef k.toKernel fmt args = .ok w' ∧
    w'.submitted = w.submitted ++ [format fmt args]

section Text
variable {fmt : List Piece} {args : List ℤ}

/-- Every text is the outcome of a format. -/
theorem format_lit (text : List UInt8) : format (text.map .lit) [] = text := by
  induction text with
  | nil => rfl
  | cons b text ih => rw [List.map_cons, format, ih]

/-- As long as the buffer holds as many bytes as the text has, these are sent. -/
theorem writeCommandF_stored (k : HealthyKernel) (hpos : format fmt args ≠ [])
    (hn : (format fmt args).length ≤ 1023) (s : Daemon) :
    ∃ s', s.writeCommandF k.toKernel fmt args = .ok s' ∧ s'.serial.submitted =
      s.serial.submitted ++ [((format fmt args).take 1022 ++ [0]).take (format fmt args).length] := by
  have hlen : 0 < (format fmt args).length := List.length_pos_iff.mpr hpos
  have hstored : (format fmt args).length ≤ ((format fmt args).take 1022 ++ [0]).length := by
    rw [List.length_append, List.length_take, List.length_singleton]
    omega
  obtain ⟨s', hs', -, hw⟩ := of_submits_one k (writeCommand_view k.toKernel hlen hstored s)
  refine ⟨s', ?_, hw.submitted⟩
  unfold writeCommandF vsnprintf
  simp only
  rw [if_pos (by omega)]
  exact hs'

/-- A longer text is read past the bytes that were stored. -/
theorem writeCommandF_overread (k : Kernel) (hn : 1023 < (format fmt args).length) (s : Daemon) :
    s.writeCommandF k fmt args = .error (.fault .outOfBounds) := by
  have hread : readRange ((format fmt args).take 1022 ++ [0]) 0 (format fmt args).length =
      .error .outOfBounds := by
    refine if_neg ?_
    rw [List.length_append, List.length_take, List.length_singleton]
    omega
  unfold writeCommandF vsnprintf writeCommand
  simp only
  rw [if_pos (by omega), if_neg (by omega), Int.toNat_natCast, hread]
  rfl

/-- The terminator stands for the last byte of a text of 1023 bytes. -/
theorem stored_eq_iff {text : List UInt8} (hn : text.length ≤ 1023) :
    (text.take 1022 ++ [0]).take text.length = text ↔
      text.length ≤ 1022 ∨ ∃ t, t.length = 1022 ∧ text = t ++ [0] := by
  by_cases hle : text.length ≤ 1022
  · rw [List.take_of_length_le hle, List.take_left]
    exact iff_of_true rfl (.inl hle)
  · have hlen : (text.take 1022).length = 1022 := List.length_take_of_le (by omega)
    rw [List.take_of_length_le (by rw [List.length_append, hlen, List.length_singleton]; omega)]
    constructor
    · intro h
      exact .inr ⟨_, hlen, h.symm⟩
    · rintro (h | ⟨t, ht, rfl⟩)
      · exact absurd h hle
      · rw [List.take_left' ht]

theorem commandExact_iff (k : HealthyKernel) (hpos : format fmt args ≠ []) (s : Daemon) :
    CommandExact k fmt args s ↔ (format fmt args).length ≤ 1022 ∨
      ∃ t, t.length = 1022 ∧ format fmt args = t ++ [0] := by
  by_cases hn : (format fmt args).length ≤ 1023
  · have hsent : CommandExact k fmt args s ↔ _ :=
      exists_ok_append_iff (writeCommandF_stored k hpos hn s)
    rw [hsent, List.singleton_inj, stored_eq_iff hn]
  · refine iff_of_false ?_ ?_
    · rintro ⟨s', hs', -⟩
      rw [writeCommandF_overread k.toKernel (by omega)] at hs'
      cases hs'
    · rintro (h | ⟨t, ht, h⟩)
      · omega
      · rw [h, List.length_append, ht] at hn
        exact hn le_rfl

theorem cstring_takeWhile (msg post : List UInt8) :
    cstring (msg ++ 0 :: post) = .ok (msg.takeWhile (· ≠ 0)) := by
  obtain ⟨post', hsplit⟩ := message_split msg post
  rw [hsplit]
  exact cstring_append (takeWhile_no_nul msg) post'

theorem writef_ok (k : HealthyKernel) (fmt : List Piece) (args : List ℤ) (w : NonblockWriter) :
    ∃ w', w.writef k.toKernel fmt args = .ok w' ∧ w'.submitted =
      w.submitted ++ [((format fmt args).take 2047).takeWhile (· ≠ 0)] := by
  obtain ⟨w', hw', hwritten⟩ :=
    NonblockWriter.write_ok k (((format fmt args).take 2047).takeWhile (· ≠ 0)) w
  refine ⟨w', ?_, hwritten.submitted⟩
  unfold NonblockWriter.writef vsnprintf
  simp only [cstring_takeWhile, checked_ok, ok_bind]
  exact hw'

/-- Nothing is cut off a text that fits and has no NUL in it. -/
theorem cut_eq_iff {text : List UInt8} :
    (text.take 2047).takeWhile (· ≠ 0) = text ↔ text.length ≤ 2047 ∧ 0 ∉ text := by
  constructor
  · intro h
    have hle := (List.takeWhile_prefix (l := text.take 2047) (· ≠ 0)).length_le
    rw [h, List.length_take] at hle
    refine ⟨by omega, ?_⟩
    rw [← h]
    exact takeWhile_no_nul _
  · rintro ⟨hlen, h0⟩
    rw [List.take_of_length_le hlen, List.takeWhile_eq_self_iff]
    intro b hb
    rw [decide_eq_true_eq]
    rintro rfl
    exact h0 hb

theorem writefExact_iff (k : HealthyKernel) (w : NonblockWriter) :
    WritefExact k fmt args w ↔ (format fmt args).length ≤ 2047 ∧ 0 ∉ format fmt args := by
  have hsent : WritefExact k fmt args w ↔ _ := exists_ok_append_iff (writef_ok k fmt args w)
  rw [hsent, List.singleton_inj, cut_eq_iff]

end Text

/-- Which texts the two writers send as they were formatted, whatever the state of the queue. -/
theorem exact_writes_iff (k : HealthyKernel) (fmt : List Piece) (args : List ℤ)
    (hpos : format fmt args ≠ []) :
    (∀ s, CommandExact k fmt args s ↔ (format fmt args).length ≤ 1022 ∨
      ∃ t, t.length = 1022 ∧ format fmt args = t ++ [0]) ∧
    ∀ w, WritefExact k fmt args w ↔
      (format fmt args).length ≤ 2047 ∧ 0 ∉ format fmt args :=
  ⟨commandExact_iff k hpos, writefExact_iff k⟩

/-- A text of two bytes of which one is NUL. -/
theorem exact_writes_nul :
    (∀ s, CommandExact blocked [.lit 68, .char] [256] s ↔ 2 ≤ 1022 ∨
      ∃ t : List UInt8, t.length = 1022 ∧ [68, 0] = t ++ [0]) ∧
    ∀ w, WritefExact blocked [.lit 68, .char] [256] w ↔
      2 ≤ 2047 ∧ (0 : UInt8) ∉ ([68, 0] : List UInt8) :=
  exact_writes_iff blocked [.lit 68, .char] [256] (by decide)

/-- A text of 1023 bytes is one too long for `writeCommandF`, and one with a NUL in it is cut
by `writef`. -/
theorem long_text_changed :
    ¬ CommandExact blocked ((List.replicate 1023 97).map .lit) [] idle ∧
    ¬ WritefExact blocked [.lit 68, .char] [0] .empty := by
  constructor
  · rw [commandExact_iff blocked (by rw [format_lit]; decide), format_lit]
    rintro (h | ⟨t, ht, h⟩)
    · rw [List.length_replicate] at h
      exact absurd h (by decide)
    · have hmem : (0 : UInt8) ∈ List.replicate 1023 97 := h ▸ by simp
      exact absurd (List.eq_of_mem_replicate hmem) (by decide)
  · rw [writefExact_iff]
    exact fun h => h.2 (by decide)

end Moodpd
