import Moodpd.OscDispatch
import Moodpd.OscRequests

/-!
# The lamp of an rgb request

The lamp number is scanned from the address with a width of two characters. A longer numeral
is cut to its first two digits, so that the check for numbers above 255 never finds one.
-/
namespace Moodpd
open Memory HexText Oscpkt Daemon

/-- One or more hexadecimal digits and nothing else. -/
def HexNumeral (seg : List UInt8) : Prop := seg ≠ [] ∧ ∀ b ∈ seg, isHexDigit b = true

instance : DecidablePred HexNumeral := fun _ => inferInstanceAs (Decidable (_ ∧ _))

/-- White space, perhaps a sign, and a digit. -/
def StartsWithNumber (seg : List UInt8) : Prop :=
  ∃ ws sign rest a, seg = ws ++ (sign ++ a :: rest) ∧ (∀ b ∈ ws, isSpace b = true) ∧
    (sign = [] ∨ sign = [43] ∨ sign = [45]) ∧ isHexDigit a = true

/-- White space, a minus sign and a digit. -/
def StartsNegative (seg : List UInt8) : Prop :=
  ∃ ws rest a, seg = ws ++ 45 :: a :: rest ∧ (∀ b ∈ ws, isSpace b = true) ∧ isHexDigit a = true

/-- The lamp that a segment stands for. -/
structure StandsFor (seg : List UInt8) (lamp : ℕ) : Prop where
  byte : lamp ≤ 255
  numeral : HexNumeral seg → lamp = if hexNumber seg ≤ 255 then hexNumber seg else 0
  no_number : ¬ StartsWithNumber seg → lamp = 0
  negative : StartsNegative seg → lamp = 0

/-- The segment is no numeral of three or more digits, or it starts with `00` and its number
is 0 or above 255. -/
def WithinWidth (seg : List UInt8) : Prop :=
  HexNumeral seg → seg.length ≤ 2 ∨
    (hexNumber (seg.take 2) = 0 ∧ (hexNumber seg = 0 ∨ 255 < hexNumber seg))

instance : DecidablePred WithinWidth := fun _ => inferInstanceAs (Decidable (_ → _))

theorem lampNumber_scanned {seg rest : List UInt8} {v : ℤ}
    (h : scanHex 2 (seg ++ rgbSuffix) = .converted v rest) :
    lampNumber seg = if v < 0 ∨ v > 255 then 0 else v := by
  simp only [lampNumber, sscanf, scanFields, h, List.headD_cons]

theorem lampNumber_unscanned {seg : List UInt8}
    (h : ∀ v rest, scanHex 2 (seg ++ rgbSuffix) ≠ .converted v rest) : lampNumber seg = 0 := by
  have hfields : scanFields [2] (seg ++ rgbSuffix) = [] := by
    unfold scanFields
    split
    · rename_i v rest hv
      exact absurd hv (h v rest)
    · rfl
  simp only [lampNumber, sscanf, hfields]
  rfl

/-- The first two digits of a numeral are its lamp number. -/
theorem lampNumber_numeral {seg : List UInt8} (h : HexNumeral seg) :
    lampNumber seg = hexNumber (seg.take 2) := by
  obtain ⟨hne, hhex⟩ := h
  have hlt := hexNumber_lt (seg.take 2)
  have hle : hexNumber (seg.take 2) ≤ 255 := by
    have hpow : 16 ^ (seg.take 2).length ≤ 16 ^ 2 :=
      Nat.pow_le_pow_right (by decide) (List.length_take_le _ _)
    omega
  obtain ⟨f, rest, hsplit, hfield⟩ : ∃ f rest, seg ++ rgbSuffix = f ++ rest ∧
      Field f (hexNumber (seg.take 2)) rest := by
    match seg, hne with
    | [a], _ =>
      obtain ⟨x, hx⟩ := isHexDigit_iff.mp (hhex a (by simp))
      have hnumber : hexNumber ([a].take 2) = x := by simp [hexNumber, hx]
      refine ⟨[a], rgbSuffix, rfl, ?_⟩
      rw [hnumber]
      refine .one hx fun c hc => ?_
      obtain rfl : 47 = c := Option.some.inj hc
      exact ⟨by decide, by simp⟩
    | a :: b :: t, _ =>
      obtain ⟨x, hx⟩ := isHexDigit_iff.mp (hhex a (by simp))
      obtain ⟨y, hy⟩ := isHexDigit_iff.mp (hhex b (by simp))
      refine ⟨[a, b], t ++ rgbSuffix, rfl, ?_⟩
      rw [show (a :: b :: t).take 2 = [a, b] from rfl, hexNumber_pair hx hy]
      exact .two hx hy
  have hscan := scanHex_two_iff.mpr ⟨[], f, hsplit, by simp, hfield⟩
  rw [lampNumber_scanned hscan, if_neg (by omega)]

/-- What stands before the slash of `/rgb` belongs to the segment. -/
theorem segment_of_split {seg tail xs ys : List UInt8} {y : UInt8}
    (h : seg ++ 47 :: tail = xs ++ y :: ys) (hxs : 47 ∉ xs) (hy : y ≠ 47) :
    ∃ t, seg = xs ++ y :: t := by
  rcases List.append_eq_append_iff.mp h with ⟨as, rfl, has⟩ | ⟨as, rfl, has⟩
  · cases as with
    | nil => exact absurd (List.cons.inj has).1.symm hy
    | cons a as =>
      rw [List.cons_append, List.cons.injEq] at has
      exact absurd (by simp [← has.1]) hxs
  · cases as with
    | nil => exact absurd (List.cons.inj has).1 hy
    | cons a as =>
      rw [List.cons_append, List.cons.injEq] at has
      exact ⟨as, by rw [has.1]⟩

/-- A number that is scanned starts in the segment. -/
theorem startsWithNumber_of_scan {seg rest : List UInt8} {v : ℤ}
    (h : scanHex 2 (seg ++ rgbSuffix) = .converted v rest) : StartsWithNumber seg := by
  obtain ⟨ws, f, hsplit, hspace, hfield⟩ := scanHex_two_iff.mp h
  have hws : 47 ∉ ws := fun hm => absurd (hspace 47 hm) (by decide)
  have hdigit : ∀ {a x}, hexValue a = some x → a ≠ 47 := by
    rintro a x hx rfl
    exact absurd hx (by simp [hexValue])
  have hhex : ∀ {a x}, hexValue a = some x → isHexDigit a = true :=
    fun hx => isHexDigit_iff.mpr ⟨_, hx⟩
  have hrgb : rgbSuffix = 47 :: ascii "rgb" := by decide
  rw [hrgb] at hsplit
  cases hfield with
  | two ha _ =>
    obtain ⟨t, rfl⟩ := segment_of_split hsplit hws (hdigit ha)
    exact ⟨ws, [], t, _, rfl, hspace, .inl rfl, hhex ha⟩
  | one ha _ =>
    obtain ⟨t, rfl⟩ := segment_of_split hsplit hws (hdigit ha)
    exact ⟨ws, [], t, _, rfl, hspace, .inl rfl, hhex ha⟩
  | @plus a x _ ha =>
    have hsign : seg ++ 47 :: ascii "rgb" = (ws ++ [43]) ++ a :: rest := by simp [hsplit]
    obtain ⟨t, rfl⟩ := segment_of_split hsign (by simp [hws]) (hdigit ha)
    exact ⟨ws, [43], t, a, by simp, hspace, .inr (.inl rfl), hhex ha⟩
  | @minus a x _ ha =>
    have hsign : seg ++ 47 :: ascii "rgb" = (ws ++ [45]) ++ a :: rest := by simp [hsplit]
    obtain ⟨t, rfl⟩ := segment_of_split hsign (by simp [hws]) (hdigit ha)
    exact ⟨ws, [45], t, a, by simp, hspace, .inr (.inr rfl), hhex ha⟩

theorem lampNumber_negative {seg : List UInt8} (h : StartsNegative seg) : lampNumber seg = 0 := by
  obtain ⟨ws, rest, a, rfl, hspace, ha⟩ := h
  obtain ⟨x, hx⟩ := isHexDigit_iff.mp ha
  have hscan : scanHex 2 (ws ++ 45 :: a :: rest ++ rgbSuffix) =
      .converted (-(x : ℤ)) (rest ++ rgbSuffix) :=
    scanHex_two_iff.mpr ⟨ws, [45, a], by simp, hspace, .minus hx⟩
  rw [lampNumber_scanned hscan]
  split_ifs with hneg
  · rfl
  · omega

/-- The number that is scanned is the one the segment stands for exactly within the width. -/
theorem standsFor_lampNumber_iff (seg : List UInt8) :
    StandsFor seg (lampNumber seg).toNat ↔ WithinWidth seg := by
  have hrange := lampNumber_range seg
  have hnumber : HexNumeral seg → (lampNumber seg).toNat = hexNumber (seg.take 2) := by
    intro h
    rw [lampNumber_numeral h, Int.toNat_natCast]
  have hsplit : hexNumber seg =
      hexNumber (seg.take 2) * 16 ^ (seg.length - 2) + hexNumber (seg.drop 2) := by
    rw [← List.length_drop, ← hexNumber_append, List.take_append_drop]
  constructor
  · intro h hnumeral
    have hlamp := h.numeral hnumeral
    rw [hnumber hnumeral] at hlamp
    by_cases hlen : seg.length ≤ 2
    · exact .inl hlen
    · -- the digits behind the width multiply the number
      have hpow : 16 ^ 1 ≤ 16 ^ (seg.length - 2) := Nat.pow_le_pow_right (by decide) (by omega)
      have hmul := Nat.mul_le_mul_left (hexNumber (seg.take 2)) hpow
      split_ifs at hlamp with hle
      · exact .inr ⟨by omega, by omega⟩
      · exact .inr ⟨hlamp, .inr (by omega)⟩
  · intro h
    refine ⟨by omega, fun hnumeral => ?_, fun hno => ?_, fun hneg => ?_⟩
    · rw [hnumber hnumeral]
      rcases h hnumeral with hlen | ⟨hzero, hv | hv⟩
      · rw [List.take_of_length_le hlen]
        have hlt := hexNumber_lt seg
        have hpow : 16 ^ seg.length ≤ 16 ^ 2 := Nat.pow_le_pow_right (by decide) hlen
        rw [if_pos (by omega)]
      · rw [hzero, hv, if_pos (by decide)]
      · rw [hzero, if_neg (by omega)]
    · rw [lampNumber_unscanned fun v rest hv => hno (startsWithNumber_of_scan hv)]
      rfl
    · rw [lampNumber_negative hneg]
      rfl

/-- The reaction to a message submits one command, in which two digits name the lamp that the
segment stands for. -/
def SelectsLamp (k : HealthyKernel) (msg : Message) (seg : List UInt8) (s : Daemon) : Prop :=
  ∃ s' rgb lamp, s.handleMessage k.toKernel msg = .ok s' ∧ rgb.length = 6 ∧
    s'.serial.submitted = s.serial.submitted ++ [105 :: (rgb ++ (hexByte lamp ++ [10]))] ∧
    StandsFor seg lamp

theorem hexByte_injective {m n : ℕ} (hm : m ≤ 255) (hn : n ≤ 255) (h : hexByte m = hexByte n) :
    m = n := by
  simp only [hexByte, List.cons.injEq, and_true] at h
  have hhigh := digitChar_injective _ (by omega) _ (by omega) h.1
  have hlow := digitChar_injective _ (by omega) _ (by omega) h.2
  omega

section Message
variable {d : List UInt8} {pr : PacketReader} (h : PacketReader.init d = .ok pr)
  (hok : pr.isOk = true) {msg : Message} (hm : msg ∈ pr.messages) {seg : List UInt8}
  (hseg : 47 ∉ seg) (haddr : msg.address = lampsPrefix ++ (seg ++ rgbSuffix))
  (htags : HasInt32Tags msg)
include h hok hm hseg haddr htags

/-- The command carries the number that is scanned. -/
theorem handleMessage_lamp (k : HealthyKernel) (s : Daemon) :
    ∃ s' rgb, s.handleMessage k.toKernel msg = .ok s' ∧ rgb.length = 6 ∧
      s'.serial.submitted = s.serial.submitted ++
        [105 :: (rgb ++ (hexByte (lampNumber seg).toNat ++ [10]))] := by
  obtain ⟨v, e, c, hv, hrep⟩ := init_message h hok hm
  have hsegment : lampSegment c.address = some seg :=
    lampSegment_eq_some.mpr ⟨hseg, hrep.address ▸ haddr⟩
  obtain ⟨x, y, z, hints⟩ : ∃ x y z, c.int32s = some (x, y, z) :=
    ⟨_, _, _, if_pos (hrep.typeTags ▸ htags)⟩
  have hchunks : contentChunks c = [rgbChunk x y z (lampNumber seg)] := by
    unfold contentChunks
    rw [hints]
    simp only [hsegment]
  have hview := handleMessage_view k.toKernel hrep s
  rw [hchunks] at hview
  obtain ⟨s', hs', -, hwritten⟩ := of_submits_one k hview
  have hbyte : ∀ v, (hexDigits 2 (clamp v)).length = 2 := fun v => by
    unfold clamp
    exact hexDigits_byte_length (by omega) (by omega)
  have hrange := lampNumber_range seg
  refine ⟨s', hexDigits 2 (clamp x) ++ (hexDigits 2 (clamp y) ++ hexDigits 2 (clamp z)), hs',
    by simp only [List.length_append, hbyte], ?_⟩
  rw [hwritten.submitted, ← hexDigits_eq_hexByte (v := lampNumber seg) (by omega) (by omega)]
  simp [rgbChunk, lampFormat, format]

theorem selectsLamp_iff (k : HealthyKernel) (s : Daemon) :
    SelectsLamp k msg seg s ↔ StandsFor seg (lampNumber seg).toNat := by
  obtain ⟨s', rgb, hs', hlen, hsub⟩ := handleMessage_lamp h hok hm hseg haddr htags k s
  constructor
  · rintro ⟨t, rgb', lamp, ht, hlen', hsub', hlamp⟩
    rw [← Except.ok.inj (hs'.symm.trans ht), hsub] at hsub'
    have hcommand := (List.cons.inj (List.singleton_inj.mp (List.append_cancel_left hsub'))).2
    obtain ⟨-, hrest⟩ := List.append_inj hcommand (hlen.trans hlen'.symm)
    have hrange := lampNumber_range seg
    rw [hexByte_injective (by omega) hlamp.byte (List.append_cancel_right hrest)]
    exact hlamp
  · exact fun hlamp => ⟨s', rgb, _, hs', hlen, hsub, hlamp⟩

end Message

/-- For an rgb message of any packet, whatever its segment, the command names the lamp that
the segment stands for exactly when the segment is within the width of the scan. -/
theorem lamp_selected_iff {d : List UInt8} {pr : PacketReader} (h : PacketReader.init d = .ok pr)
    (hok : pr.isOk = true) {msg : Message} (hm : msg ∈ pr.messages) {seg : List UInt8}
    (hseg : 47 ∉ seg) (haddr : msg.address = lampsPrefix ++ (seg ++ rgbSuffix))
    (htags : HasInt32Tags msg) (k : HealthyKernel) (s : Daemon) :
    SelectsLamp k msg seg s ↔ WithinWidth seg :=
  (selectsLamp_iff h hok hm hseg haddr htags k s).trans (standsFor_lampNumber_iff seg)

def lampPacket (seg : List UInt8) : List UInt8 :=
  padded (lampsPrefix ++ (seg ++ rgbSuffix)) ++ (padded (ascii ",iii") ++ int32Payload 1 2 3)

/-- The message of a packet whose address is `n` bytes long with its padding. -/
def lampMessage (seg : List UInt8) (n : ℕ) : Message where
  timeTag := 1
  address := lampsPrefix ++ (seg ++ rgbSuffix)
  typeTags := ascii "iii"
  arguments := [(n + 8, 4), (n + 12, 4), (n + 16, 4)]
  storage := lampPacket seg
  err := .okNoError

theorem lamp_selected_leadingZero : SelectsLamp blocked (lampMessage (ascii "0c") 24) (ascii "0c") idle ↔
    WithinWidth (ascii "0c") :=
  lamp_selected_iff (show PacketReader.init (lampPacket (ascii "0c")) =
      .ok ⟨[lampMessage (ascii "0c") 24], .okNoError⟩ by decide +kernel)
    rfl (List.mem_singleton.mpr rfl) (by decide) rfl rfl blocked idle

/-- The numeral `100` is above 255, and the lamp with the number of its first two digits is
coloured. -/
theorem hundred_selects_sixteen : PacketReader.init (lampPacket (ascii "100")) =
      .ok ⟨[lampMessage (ascii "100") 24], .okNoError⟩ ∧
    ¬ SelectsLamp blocked (lampMessage (ascii "100") 24) (ascii "100") idle := by
  have hinit : PacketReader.init (lampPacket (ascii "100")) =
      .ok ⟨[lampMessage (ascii "100") 24], .okNoError⟩ := by decide +kernel
  refine ⟨hinit, ?_⟩
  rw [selectsLamp_iff hinit rfl (List.mem_singleton.mpr rfl) (by decide) rfl rfl,
    standsFor_lampNumber_iff]
  decide +kernel

end Moodpd
