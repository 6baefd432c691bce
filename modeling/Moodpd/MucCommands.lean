import Moodpd.MucInput

/-!
# The documented muccc-style commands

Every documented command goes out as one frame, but for those without arguments when nothing
follows them: their datagram has only five bytes, which the header check takes for malformed.
-/
namespace Moodpd.Muc
open Memory HexText Daemon

/-- A text of `n` hexadecimal digits. -/
abbrev Digits (n : ℕ) := { ds : List UInt8 // DigitText n ds }

theorem Digits.ne_nil {n : ℕ} (ds : Digits n) (hn : n ≠ 0) : ds.val ≠ [] := by
  intro h
  have hlen := ds.property.1
  rw [h] at hlen
  exact hn hlen.symm

/-- The commands of the documentation. -/
inductive Command
  | color (rgb : Digits 6)
  | brightness (v : Digits 2)
  | fade (rgbTime : Digits 10)
  | pause
  | power

namespace Command

/-- The type of the packet. -/
def type : Command → UInt8
  | color _ => Daemon.color
  | brightness _ => setBrightness
  | fade _ => fadeMs
  | pause => Muc.pause
  | power => Muc.power

/-- The digits behind the type. -/
def digits : Command → List UInt8
  | color rgb => rgb.val
  | brightness v => v.val
  | fade rgbTime => rgbTime.val
  | pause => []
  | power => []

end Command

/-- The bytes that digits in pairs denote. -/
def hexBytes : List UInt8 → List UInt8
  | a :: b :: ds => UInt8.ofNat (hexNumber [a, b]) :: hexBytes ds
  | _ => []

/-- The bytes between the two ends of the frame, the time of a fade high byte first. -/
def Command.bytes : Command → Chunk
  | color rgb => 67 :: hexBytes rgb.val
  | brightness v => 68 :: hexBytes v.val
  | fade rgbTime => 77 :: hexBytes rgbTime.val
  | pause => [0x17]
  | power => [0x10]

/-- The command, followed by a line end, submits its frame and nothing else. -/
def Executed (c : Command) (w : List UInt8) : Prop :=
  ∀ (k : HealthyKernel) (stale : Stale) (loc : Locals) (s : Daemon), ∃ s',
    handle k.toKernel stale (datagram c.type (c.digits ++ w)) loc s = .ok s' ∧
    s'.serial.submitted = s.serial.submitted ++ [ascii "acP\x02", c.bytes, ascii "ab"]

theorem Command.digits_hex (c : Command) : ∀ b ∈ c.digits, isHexDigit b = true := by
  cases c with
  | color rgb => exact rgb.property.2
  | brightness v => exact v.property.2
  | fade rgbTime => exact rgbTime.property.2
  | pause => simp [digits]
  | power => simp [digits]

theorem Command.digits_length (c : Command) : c.digits.length ≤ 10 := by
  cases c with
  | color rgb => exact le_of_eq_of_le rgb.property.1 (by decide)
  | brightness v => exact le_of_eq_of_le v.property.1 (by decide)
  | fade rgbTime => exact le_of_eq rgbTime.property.1
  | pause => simp [digits]
  | power => simp [digits]

/-- The line end and the size of the receive buffer do not show in the text. -/
theorem Command.text (c : Command) {w : List UInt8} (hw : LineEnd w) :
    messageText (receivedMessage (c.digits ++ w)) = c.digits := by
  obtain ⟨h0, hline⟩ := digits_line c.digits_hex
  have htext := messageText_line h0 hline hw
  have hlen := c.digits_length
  refine (messageText_take ?_).trans htext
  rw [htext]
  exact le_trans hlen (by decide)

theorem char_hexNumber (ds : List UInt8) :
    UInt8.ofNat ((hexNumber ds : ℤ) % 256).toNat = UInt8.ofNat (hexNumber ds) := by
  apply UInt8.toNat_inj.mp
  rw [UInt8.toNat_ofNat', UInt8.toNat_ofNat']
  omega

/-- The two bytes of a number of four digits. -/
theorem char_time (a b c d : UInt8) :
    UInt8.ofNat ((hexNumber [a, b, c, d] : ℤ) / 256 % 256 % 256).toNat =
        UInt8.ofNat (hexNumber [a, b]) ∧
      UInt8.ofNat ((hexNumber [a, b, c, d] : ℤ) % 256 % 256).toNat =
        UInt8.ofNat (hexNumber [c, d]) := by
  have hsplit : hexNumber [a, b, c, d] = hexNumber [a, b] * 256 + hexNumber [c, d] :=
    hexNumber_append [a, b] [c, d]
  have hlow : hexNumber [c, d] < 256 := hexNumber_lt [c, d]
  constructor <;> apply UInt8.toNat_inj.mp <;> rw [UInt8.toNat_ofNat', UInt8.toNat_ofNat', hsplit] <;>
    omega

theorem colorChunks_digits (rgb : Digits 6) :
    colorChunks rgb.val = frame (67 :: hexBytes rgb.val) := by
  obtain ⟨text, htext⟩ := rgb
  obtain ⟨a₁, b₁, a₂, b₂, a₃, b₃, rfl, hscan⟩ := sixHex_scan htext
  unfold colorChunks
  rw [hscan, if_neg (by simp)]
  simp [colorFormat, format, hexBytes, char_hexNumber]

theorem brightnessChunks_digits (loc : Locals) (v : Digits 2) :
    brightnessChunks loc v.val = frame (68 :: hexBytes v.val) := by
  obtain ⟨text, htext⟩ := v
  unfold brightnessChunks
  rw [if_neg (not_not.mpr htext.1), scan_brightness htext]
  obtain ⟨a, b, rfl⟩ := List.length_eq_two.mp htext.1
  simp [scanned, cmdSetBrightness, format, hexBytes, char_hexNumber]

theorem fadeChunks_digits (loc : Locals) (rgbTime : Digits 10) :
    fadeChunks loc rgbTime.val = frame (77 :: hexBytes rgbTime.val) := by
  obtain ⟨text, htext⟩ := rgbTime
  obtain ⟨r, g, b, time, rfl, hr, hg, hb, ht, hscan⟩ := scan_fade htext
  unfold fadeChunks
  rw [if_neg (not_not.mpr htext.1), hscan]
  obtain ⟨r₁, r₂, rfl⟩ := List.length_eq_two.mp hr.1
  obtain ⟨g₁, g₂, rfl⟩ := List.length_eq_two.mp hg.1
  obtain ⟨b₁, b₂, rfl⟩ := List.length_eq_two.mp hb.1
  match time, ht.1 with
  | [t₁, t₂, t₃, t₄], _ =>
    obtain ⟨hhigh, hlow⟩ := char_time t₁ t₂ t₃ t₄
    simp only [scanned, List.getD_cons_zero, List.getD_cons_succ, cmdFadeMs, format,
      char_hexNumber, hhigh, hlow]
    rfl

/-- A message that is received submits the frame of its command. -/
theorem Command.chunks (c : Command) {w : List UInt8} (hw : LineEnd w) (raw : Bool)
    (loc : Locals) :
    messageChunks raw loc c.type (receivedMessage (c.digits ++ w)) = frame c.bytes := by
  have htext := c.text hw
  unfold messageChunks
  rw [htext]
  cases c with
  | color rgb => exact colorChunks_digits rgb
  | brightness v => exact brightnessChunks_digits loc v
  | fade rgbTime => exact fadeChunks_digits loc rgbTime
  | pause => rfl
  | power => rfl

/-- The commands without arguments need a line end. -/
theorem received_eq_nil_iff (c : Command) (w : List UInt8) :
    receivedMessage (c.digits ++ w) = [] ↔ (c = .pause ∨ c = .power) ∧ w = [] := by
  have hcut : receivedMessage (c.digits ++ w) = [] ↔ c.digits ++ w = [] := by
    unfold receivedMessage
    rw [List.take_eq_nil_iff]
    exact or_iff_right (by decide)
  rw [hcut, List.append_eq_nil_iff]
  refine and_congr_left fun _ => ?_
  cases c with
  | color rgb => exact iff_of_false (rgb.ne_nil (by decide)) (by simp)
  | brightness v => exact iff_of_false (v.ne_nil (by decide)) (by simp)
  | fade rgbTime => exact iff_of_false (rgbTime.ne_nil (by decide)) (by simp)
  | pause => simp [Command.digits]
  | power => simp [Command.digits]

/-- Whether one datagram submits the frame of its command does not depend on the state. -/
theorem handle_command_iff (c : Command) {w : List UInt8} (hw : LineEnd w) (k : HealthyKernel)
    (stale : Stale) (loc : Locals) (s : Daemon) :
    (∃ s', handle k.toKernel stale (datagram c.type (c.digits ++ w)) loc s = .ok s' ∧
      s'.serial.submitted = s.serial.submitted ++ [ascii "acP\x02", c.bytes, ascii "ab"]) ↔
      (c = .pause ∨ c = .power → w ≠ []) := by
  have hframe : frame c.bytes = [ascii "acP\x02", c.bytes, ascii "ab"] := rfl
  have hnil := received_eq_nil_iff c w
  rw [exists_ok_append_iff (handle_ok k stale _ loc s), commandChunks_datagram]
  by_cases hempty : receivedMessage (c.digits ++ w) = []
  · obtain ⟨hargs, hw0⟩ := hnil.mp hempty
    rw [if_pos hempty]
    exact iff_of_false (List.cons_ne_nil _ _).symm fun h => h hargs hw0
  · rw [if_neg hempty, c.chunks hw, hframe]
    exact iff_of_true rfl fun hargs hw0 => hempty (hnil.mpr ⟨hargs, hw0⟩)

/-- In every state, a documented command with a line end of any length is executed exactly when
it is not a command without arguments and without a line end. -/
theorem commands_executed_iff (c : Command) (w : List UInt8) (hw : LineEnd w) :
    Executed c w ↔ (c = .pause ∨ c = .power → w ≠ []) := by
  constructor
  · intro h
    exact (handle_command_iff c hw blocked (.replicate 1025 0) ⟨0, 0, 0, 0, 0⟩ idle).mp
      (h _ _ _ _)
  · intro h k stale loc s
    exact (handle_command_iff c hw k stale loc s).mpr h

/-- A fade with a time of 256 milliseconds. -/
theorem commands_executed_fade :
    Executed (.fade ⟨ascii "00ff800100", by decide +kernel⟩) (ascii "\r\n") ↔
      ((Command.fade ⟨ascii "00ff800100", by decide +kernel⟩) = .pause ∨
        (Command.fade ⟨ascii "00ff800100", by decide +kernel⟩) = .power → ascii "\r\n" ≠ []) :=
  commands_executed_iff (.fade ⟨ascii "00ff800100", by decide +kernel⟩) (ascii "\r\n") (by decide +kernel)

/-- The five bytes `m00dP` are taken for a malformed packet. -/
theorem bare_pause_ignored : ¬ Executed .pause [] := by
  intro h
  have hempty : LineEnd [] := by simp [LineEnd]
  have hcond := (handle_command_iff .pause hempty blocked (.replicate 1025 0) ⟨0, 0, 0, 0, 0⟩
    idle).mp (h _ _ _ _)
  exact hcond (.inl rfl) rfl

end Moodpd.Muc
