import Moodpd.ColorGrammar

/-!
# Documented colour messages

A `#` message of six digits and a line end of any length comes out as the same six digits in
lower case, in one command behind all that is queued.
-/
namespace Moodpd
open Memory HexText Daemon

/-- A line end of any length. -/
def LineEnd (w : List UInt8) : Prop := ∀ b ∈ w, b = 13 ∨ b = 10

instance : DecidablePred LineEnd := fun w => inferInstanceAs (Decidable (∀ b ∈ w, b = 13 ∨ b = 10))

/-- The command for six digits. -/
def colorCommand (d : List UInt8) : Chunk := 105 :: (d.map toLower ++ [10])

/-- A text of digits is a text of one line. -/
theorem digits_line {text : List UInt8} (h : ∀ b ∈ text, isHexDigit b = true) :
    0 ∉ text ∧ ∀ b ∈ text, ¬ (b = 13 ∨ b = 10) := by
  have hne : ∀ c, isHexDigit c = false → c ∉ text := by
    intro c hc hm
    rw [h c hm] at hc
    cases hc
  refine ⟨hne 0 (by decide), ?_⟩
  rintro b hb (rfl | rfl)
  · exact hne 13 (by decide) hb
  · exact hne 10 (by decide) hb

/-- What is cut off a long datagram belongs to the line end. -/
theorem messageText_received {d w : List UInt8} (hd : DigitText 6 d) (hw : LineEnd w) :
    messageText (receivedMessage (d ++ w)) = d := by
  obtain ⟨hlen, hhex⟩ := hd
  obtain ⟨h0, hline⟩ := digits_line hhex
  have htext := messageText_line h0 hline hw
  have hfits : d.length ≤ maxPacketSize - packetSize := by
    rw [hlen]
    decide
  exact (messageText_take (by rw [htext]; exact hfits)).trans htext

/-- Six digits are scanned as three numbers of two. -/
theorem sixHex_scan {d : List UInt8} (hd : DigitText 6 d) : ∃ a₁ b₁ a₂ b₂ a₃ b₃,
    d = [a₁, b₁, a₂, b₂, a₃, b₃] ∧ sscanf [2, 2, 2] d =
      (3, [(hexNumber [a₁, b₁] : ℤ), (hexNumber [a₂, b₂] : ℤ), (hexNumber [a₃, b₃] : ℤ)]) := by
  obtain ⟨hlen, hhex⟩ := hd
  obtain ⟨a₁, b₁, a₂, b₂, a₃, b₃, rfl⟩ : ∃ a₁ b₁ a₂ b₂ a₃ b₃, d = [a₁, b₁, a₂, b₂, a₃, b₃] := by
    match d, hlen with
    | [a₁, b₁, a₂, b₂, a₃, b₃], _ => exact ⟨a₁, b₁, a₂, b₂, a₃, b₃, rfl⟩
  simp only [List.forall_mem_cons] at hhex
  obtain ⟨ha₁, hb₁, ha₂, hb₂, ha₃, hb₃, -⟩ := hhex
  have hpair : ∀ {a b : UInt8}, isHexDigit a = true → isHexDigit b = true → Filling 2 [a, b] :=
    fun ha hb => ⟨rfl, by decide, by decide, by simp [ha, hb]⟩
  exact ⟨a₁, b₁, a₂, b₂, a₃, b₃, rfl,
    sscanf_filling (show [[a₁, b₁], [a₂, b₂], [a₃, b₃]] ≠ [] by simp)
      (.cons (hpair ha₁ hb₁) (.cons (hpair ha₂ hb₂) (.cons (hpair ha₃ hb₃) .nil)))⟩

/-- Printing the three numbers only changes the case of the digits. -/
theorem sscanf_colorFormat {d : List UInt8} (hd : DigitText 6 d) :
    ∃ r g b, sscanf [2, 2, 2] d = (3, [r, g, b]) ∧ format colorFormat [r, g, b] = colorCommand d := by
  obtain ⟨a₁, b₁, a₂, b₂, a₃, b₃, rfl, hscan⟩ := sixHex_scan hd
  have hhex := hd.2
  simp only [List.forall_mem_cons] at hhex
  obtain ⟨ha₁, hb₁, ha₂, hb₂, ha₃, hb₃, -⟩ := hhex
  refine ⟨_, _, _, hscan, ?_⟩
  simp [colorFormat, format, colorCommand, hexDigits_hexNumber, *]

/-- Six digits of either case and a line end of any length, in one datagram of any length,
submit these digits in lower case and nothing else. The queue only grows by this command. -/
theorem color_delivered (k : HealthyKernel) (stale : Stale) {d w : List UInt8} (hd : DigitText 6 d)
    (hw : LineEnd w) (s : Daemon) :
    ∃ s', s.handle k.toKernel (.command stale (some (colorDatagram (d ++ w)))) = .ok s' ∧
      s'.serial.submitted = s.serial.submitted ++ [colorCommand d] ∧
      s'.allowRawMode = s.allowRawMode ∧
      s'.serial.accepted ++ s'.serial.pending =
        s.serial.accepted ++ s.serial.pending ++ colorCommand d := by
  obtain ⟨r, g, b, hscan, hformat⟩ := sscanf_colorFormat hd
  have hmsg : d ++ w ≠ [] := by
    intro he
    have hlen := hd.1
    rw [(List.append_eq_nil_iff.mp he).1] at hlen
    exact absurd hlen (by decide)
  have hh := handle_color k.toKernel stale hmsg s
  rw [messageText_received hd hw, hscan, if_neg (by simp)] at hh
  obtain ⟨s', hs', hraw, hwritten⟩ := writeCommandF_ok k
    (show 0 < (format colorFormat [r, g, b]).length by simp [colorFormat, format])
    (le_trans (format_length_le _ _) (by decide)) s
  rw [hformat] at hwritten
  exact ⟨s', hh.trans hs', hwritten.submitted, hraw, hwritten.conserved⟩

/-- Digits of both cases with a CR LF. -/
theorem color_delivered_mixed : ∃ s',
    idle.handle blocked.toKernel (.command (.replicate 1025 0)
      (some (colorDatagram (ascii "1aF00B" ++ ascii "\r\n")))) = .ok s' ∧
    s'.serial.submitted = idle.serial.submitted ++ [colorCommand (ascii "1aF00B")] ∧
    s'.allowRawMode = idle.allowRawMode ∧
    s'.serial.accepted ++ s'.serial.pending =
      idle.serial.accepted ++ idle.serial.pending ++ colorCommand (ascii "1aF00B") :=
  color_delivered blocked (.replicate 1025 0) (by decide +kernel) (by decide +kernel) idle

end Moodpd
