import Moodpd.WireGrammar

/-!
# Angles and colours

An orientation message becomes a colour in 32-bit arithmetic with a remainder that truncates
towards zero. This is modular arithmetic only on one side of -180 degrees.
-/
namespace Moodpd
open Memory HexText Oscpkt Daemon

/-- The result of an `int` operation, unless it overflows. -/
def intResult (v : ℤ) : Option ℤ := if -2 ^ 31 ≤ v ∧ v < 2 ^ 31 then some v else none

/-- `(x+180)%360*255/360`, undefined when one of the operations overflows. -/
def orientationInt (x : ℤ) : Option ℤ := do
  let a ← intResult (x + 180)
  let t ← intResult (a.tmod 360)
  let p ← intResult (t * 255)
  intResult (p.tdiv 360)

theorem intResult_of {v : ℤ} (h : -2 ^ 31 ≤ v ∧ v < 2 ^ 31) : intResult v = some v := if_pos h

/-- Only the addition can overflow. -/
theorem orientationInt_eq {x : ℤ} (h0 : -2 ^ 31 ≤ x) :
    orientationInt x = if x + 180 < 2 ^ 31 then some (orientation x) else none := by
  unfold orientationInt
  split_ifs with h1
  · have hlt := Int.tmod_lt_of_pos (x + 180) (show (0 : ℤ) < 360 by decide)
    have hgt := Int.lt_tmod_of_pos (x + 180) (show (0 : ℤ) < 360 by decide)
    have hrange := (scale_degree hgt hlt).1
    have hb : Int.bmod (x + 180) (2 ^ 32) = x + 180 :=
      Int.bmod_eq_of_le (by norm_num at h0 ⊢; omega) (by norm_num at h1 ⊢; omega)
    have ha : intResult (x + 180) = some (x + 180) := intResult_of ⟨by omega, h1⟩
    have ht : intResult ((x + 180).tmod 360) = some ((x + 180).tmod 360) :=
      intResult_of ⟨by norm_num; omega, by norm_num; omega⟩
    have hp : intResult ((x + 180).tmod 360 * 255) = some ((x + 180).tmod 360 * 255) :=
      intResult_of ⟨by norm_num; omega, by norm_num; omega⟩
    have hr : intResult (((x + 180).tmod 360 * 255).tdiv 360) =
        some (((x + 180).tmod 360 * 255).tdiv 360) :=
      intResult_of ⟨by norm_num; omega, by norm_num; omega⟩
    unfold orientation
    rw [hb]
    simp only [ha, ht, hp, hr, Option.bind_eq_bind, Option.bind_some]
  · have ha : intResult (x + 180) = none := if_neg fun h => h1 h.2
    rw [ha]
    rfl

/-- A component that is a byte is the scaled residue, or it is 0 below -180 degrees. -/
theorem orientation_of_scales {x : ℤ} (h0 : -2 ^ 31 ≤ x) (h : ScalesToByte x) :
    orientation x = (if 0 ≤ x + 180 then (x + 180) % 360 * 255 / 360 else 0) ∧
      (x + 180 < 0 → (x + 180) % 360 = 0 ∨ (x + 180) % 360 = 359) := by
  obtain ⟨h1, hsign⟩ := h
  have hb : Int.bmod (x + 180) (2 ^ 32) = x + 180 :=
    Int.bmod_eq_of_le (by norm_num at h0 ⊢; omega) (by norm_num at h1 ⊢; omega)
  unfold orientation
  rw [hb]
  by_cases hx : 0 ≤ x + 180
  · rw [Int.tmod_eq_emod_of_nonneg hx, if_pos hx, Int.tdiv_eq_ediv_of_nonneg (by omega)]
    exact ⟨rfl, fun hneg => absurd hx (by omega)⟩
  · have hmod := Int.tmod_eq_emod (a := x + 180) (b := 360)
    rw [show Int.natAbs 360 = 360 from rfl] at hmod
    have hrem : ((x + 180) % 360 = 0 ∧ (x + 180).tmod 360 = 0) ∨
        ((x + 180) % 360 = 359 ∧ (x + 180).tmod 360 = -1) := by
      split_ifs at hmod with hdvd
      · left
        omega
      · right
        omega
    rw [if_neg hx]
    rcases hrem with ⟨hres, hrem⟩ | ⟨hres, hrem⟩
    · exact ⟨by rw [hrem]; rfl, fun _ => .inl hres⟩
    · exact ⟨by rw [hrem]; rfl, fun _ => .inr hres⟩

/-- Congruent angles give the same byte unless -180 degrees lies between them. -/
theorem orientation_congr_iff {x y : ℤ} (hx : -2 ^ 31 ≤ x) (hy : -2 ^ 31 ≤ y)
    (sx : ScalesToByte x) (sy : ScalesToByte y) (hxy : x ≡ y [ZMOD 360]) :
    orientation x = orientation y ↔
      ((x + 180) % 360 ≠ 0 → (0 ≤ x + 180 ↔ 0 ≤ y + 180)) := by
  obtain ⟨ex, rx⟩ := orientation_of_scales hx sx
  obtain ⟨ey, ry⟩ := orientation_of_scales hy sy
  have hres : (x + 180) % 360 = (y + 180) % 360 := hxy.add_right 180
  rw [ex, ey]
  split_ifs with h1 h2 h2
  · rw [hres]
    exact iff_of_true rfl fun _ => iff_of_true h1 h2
  · have := ry (by omega)
    omega
  · have := rx (by omega)
    omega
  · exact iff_of_true rfl fun _ => iff_of_false h1 h2

/-- An `/ori` message with any three integers. -/
structure OriMessage where
  r : BitVec 32
  g : BitVec 32
  b : BitVec 32
  deriving DecidableEq, Repr

namespace OriMessage

def encode (m : OriMessage) : List UInt8 :=
  padded oriPattern ++ (padded (ascii ",iii") ++ int32Payload m.r m.g m.b)

def angles (m : OriMessage) : List ℤ := [m.r.toInt, m.g.toInt, m.b.toInt]

/-- The reaction to the message submits the colour of its three angles. -/
theorem handle_encode (m : OriMessage) (k : HealthyKernel) (s : Daemon) :
    ∃ s', s.handle k.toKernel (.osc (some m.encode)) = .ok s' ∧ s'.serial.submitted =
      s.serial.submitted ++ [oriChunk m.r.toInt m.g.toInt m.b.toInt] := by
  obtain ⟨s', hs', -, -, hsub⟩ := handle_ok k (.osc (some m.encode)) s
  have hmessage := isMessage_int32s (show oriPattern.head? = some 47 from rfl) (by decide) m.r m.g m.b
  have hlen : m.encode.length = 28 := by
    unfold encode int32Payload
    simp only [List.length_append, toBigEndian_length]
    rfl
  have hcontents : contents (m.encode.take oscBufferSize) = [⟨oriPattern,
      [typeTagInt32, typeTagInt32, typeTagInt32], int32Payload m.r m.g m.b⟩] := by
    rw [List.take_of_length_le (by rw [hlen]; decide)]
    exact contents_of_packet (.message hmessage)
  have hemits : emits s.allowRawMode (.osc (some m.encode)) =
      [oriChunk m.r.toInt m.g.toInt m.b.toInt] := by
    have hseg : lampSegment oriPattern = none := by decide
    simp only [emits, Option.map_some, Option.getD_some, oscChunks, hcontents,
      List.flatMap_singleton, contentChunks, int32s_payload, hseg, if_true]
  exact ⟨s', hs', by rw [hsub, hemits]⟩

end OriMessage

/-- The angles in some messages. -/
def anglesOf (ms : List OriMessage) : List ℤ := ms.flatMap OriMessage.angles

theorem anglesOf_min {ms : List OriMessage} {x : ℤ} (h : x ∈ anglesOf ms) : -2 ^ 31 ≤ x := by
  obtain ⟨m, -, hx⟩ := List.mem_flatMap.mp h
  have hmin : ∀ v : BitVec 32, -2 ^ 31 ≤ v.toInt := fun v => BitVec.le_toInt v
  unfold OriMessage.angles at hx
  simp only [List.mem_cons, List.not_mem_nil, or_false] at hx
  rcases hx with rfl | rfl | rfl <;> exact hmin _

/-- `i`, six lowercase hexadecimal digits and a newline. -/
def IsColorCommand (c : Chunk) : Prop :=
  ∃ ds : List UInt8, c = 105 :: (ds ++ [10]) ∧ (∀ b ∈ ds, IsLowerHex b) ∧ ds.length = 6

theorem isColorCommand_format {r g b : ℤ} (hr : 0 ≤ r ∧ r ≤ 255) (hg : 0 ≤ g ∧ g ≤ 255)
    (hb : 0 ≤ b ∧ b ≤ 255) : IsColorCommand (format colorFormat [r, g, b]) := by
  refine ⟨hexDigits 2 r ++ (hexDigits 2 g ++ hexDigits 2 b), by simp [colorFormat, format], ?_, ?_⟩
  · intro c hc
    simp only [List.mem_append] at hc
    rcases hc with hc | hc | hc <;> exact hexDigits_lower hc
  · simp only [List.length_append, hexDigits_byte_length hr.1 hr.2,
      hexDigits_byte_length hg.1 hg.2, hexDigits_byte_length hb.1 hb.2]

/-- Some messages all give colours, which depend on their angles modulo 360 only. -/
structure GivesColors (ms : List OriMessage) : Prop where
  byte : ∀ x ∈ anglesOf ms, ∃ v, orientationInt x = some v ∧ 0 ≤ v ∧ v ≤ 255
  congruent : ∀ x ∈ anglesOf ms, ∀ y ∈ anglesOf ms, x ≡ y [ZMOD 360] →
    orientationInt x = orientationInt y
  command : ∀ m ∈ ms, ∀ (k : HealthyKernel) (s : Daemon), ∃ s' c,
    s.handle k.toKernel (.osc (some m.encode)) = .ok s' ∧
      s'.serial.submitted = s.serial.submitted ++ [c] ∧ IsColorCommand c

/-- No angle overflows or has a remainder below -1, and no two of them are congruent on both
sides of -180, unless they are congruent to -180. -/
structure TameAngles (angles : List ℤ) : Prop where
  scales : ∀ x ∈ angles, ScalesToByte x
  same_side : ∀ x ∈ angles, ∀ y ∈ angles, x ≡ y [ZMOD 360] → (x + 180) % 360 ≠ 0 →
    (0 ≤ x + 180 ↔ 0 ≤ y + 180)

/-- Below -180 there are only angles that are 179 or 180 up to full turns, and those that are 179
are all below -180 or all not. -/
theorem tameAngles_iff (angles : List ℤ) : TameAngles angles ↔
    (∀ x ∈ angles, x < 2 ^ 31 - 180 ∧ (-180 ≤ x ∨ x % 360 = 179 ∨ x % 360 = 180)) ∧
      ((∀ x ∈ angles, x % 360 = 179 → x < -180) ∨ ∀ x ∈ angles, x % 360 = 179 → -180 ≤ x) := by
  constructor
  · intro h
    refine ⟨fun x hx => (scalesToByte_iff x).mp (h.scales x hx), ?_⟩
    by_contra hno
    rw [not_or] at hno
    push Not at hno
    obtain ⟨⟨x, hx, hx179, hxhigh⟩, y, hy, hy179, hylow⟩ := hno
    have hside := h.same_side x hx y hy (hx179.trans hy179.symm) (by omega)
    omega
  · rintro ⟨hscales, hside⟩
    refine ⟨fun x hx => (scalesToByte_iff x).mpr (hscales x hx), fun x hx y hy hxy hne => ?_⟩
    have hmod : x % 360 = y % 360 := hxy
    have hsx := hscales x hx
    have hsy := hscales y hy
    rcases hside with hlow | hhigh
    · have := hlow x hx
      have := hlow y hy
      omega
    · have := hhigh x hx
      have := hhigh y hy
      omega

theorem orientationInt_byte_iff {x : ℤ} (h0 : -2 ^ 31 ≤ x) :
    (∃ v, orientationInt x = some v ∧ 0 ≤ v ∧ v ≤ 255) ↔ ScalesToByte x := by
  rw [orientationInt_eq h0]
  constructor
  · rintro ⟨v, hv, hpos, -⟩
    split_ifs at hv with h1
    obtain rfl := Option.some.inj hv
    exact (orientation_nonneg_iff h0 h1).mp hpos
  · intro h
    exact ⟨orientation x, if_pos h.1, (orientation_nonneg_iff h0 h.1).mpr h,
      (orientation_range x).2⟩

/-- Orientation messages give colours exactly when their angles are tame. -/
theorem gives_colors_iff (ms : List OriMessage) : GivesColors ms ↔ TameAngles (anglesOf ms) := by
  constructor
  · intro h
    have hscales : ∀ x ∈ anglesOf ms, ScalesToByte x :=
      fun x hx => (orientationInt_byte_iff (anglesOf_min hx)).mp (h.byte x hx)
    refine ⟨hscales, fun x hx y hy hxy => ?_⟩
    have hsame := h.congruent x hx y hy hxy
    rw [orientationInt_eq (anglesOf_min hx), orientationInt_eq (anglesOf_min hy),
      if_pos (hscales x hx).1, if_pos (hscales y hy).1] at hsame
    exact (orientation_congr_iff (anglesOf_min hx) (anglesOf_min hy) (hscales x hx) (hscales y hy)
      hxy).mp (Option.some.inj hsame)
  · intro h
    refine ⟨fun x hx => (orientationInt_byte_iff (anglesOf_min hx)).mpr (h.scales x hx), ?_, ?_⟩
    · intro x hx y hy hxy
      have hsame := (orientation_congr_iff (anglesOf_min hx) (anglesOf_min hy) (h.scales x hx)
        (h.scales y hy) hxy).mpr (h.same_side x hx y hy hxy)
      rw [orientationInt_eq (anglesOf_min hx), orientationInt_eq (anglesOf_min hy),
        if_pos (h.scales x hx).1, if_pos (h.scales y hy).1, hsame]
    · intro m hm k s
      obtain ⟨s', hs', hsub⟩ := m.handle_encode k s
      have hbyte : ∀ x ∈ m.angles, 0 ≤ orientation x ∧ orientation x ≤ 255 := by
        intro x hx
        have hmem : x ∈ anglesOf ms := List.mem_flatMap.mpr ⟨m, hm, hx⟩
        have hsc := h.scales x hmem
        exact ⟨(orientation_nonneg_iff (anglesOf_min hmem) hsc.1).mpr hsc, (orientation_range x).2⟩
      exact ⟨s', _, hs', hsub, isColorCommand_format (hbyte _ (by simp [OriMessage.angles]))
        (hbyte _ (by simp [OriMessage.angles])) (hbyte _ (by simp [OriMessage.angles]))⟩

/-- The component of -300 degrees is negative, unlike that of 60 degrees. -/
theorem steep_angle_breaks_color : ¬ GivesColors [⟨-300, 0, 60⟩] := by
  intro h
  obtain ⟨v, hv, hpos, -⟩ := h.byte (-300) (by decide)
  have hcomponent : orientationInt (-300) = some (-85) := by decide
  obtain rfl : -85 = v := Option.some.inj (hcomponent.symm.trans hv)
  exact absurd hpos (by decide)

end Moodpd
