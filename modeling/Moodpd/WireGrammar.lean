import Moodpd.DaemonRuns

/-!
# The grammar of the lamp link

A command is `i`, six or eight lowercase hexadecimal digits and a newline. The formats only
bound the number of digits from below, so that a negative value breaks the grammar. The
clamped requests never have one, `#` messages and orientations can.
-/
namespace Moodpd
open Memory HexText Oscpkt Daemon

def IsCommand (c : Chunk) : Prop :=
  ∃ ds : List UInt8, c = 105 :: (ds ++ [10]) ∧ (∀ b ∈ ds, IsLowerHex b) ∧
    (ds.length = 6 ∨ ds.length = 8)

/-- The initialization command, and then commands of the grammar. -/
def WireStream (bytes : Chunk) : Prop :=
  ∃ cmds : List Chunk, bytes = ascii "q\n" ++ cmds.flatten ∧ ∀ c ∈ cmds, IsCommand c

theorem isCommand_iff {ds : List UInt8} (h : ∀ b ∈ ds, IsLowerHex b) :
    IsCommand (105 :: (ds ++ [10])) ↔ ds.length = 6 ∨ ds.length = 8 := by
  constructor
  · rintro ⟨es, he, -, hlen⟩
    obtain rfl : ds = es := List.append_cancel_right (List.cons.inj he).2
    exact hlen
  · intro hlen
    exact ⟨ds, rfl, h, hlen⟩

/-- A small negative value prints all of its eight digits. -/
theorem hexDigits_negative_length {v : ℤ} (h0 : -255 ≤ v) (h1 : v < 0) :
    (hexDigits 2 v).length = 8 := by
  have hv : v % 4294967296 = v + 4294967296 := by omega
  have htop : (v + 4294967296).toNat / 268435456 % 16 ≠ 0 := by omega
  simp [hexDigits, nibbles, hv, htop]

theorem hexDigits_length_cases {v : ℤ} (h0 : -255 ≤ v) (h1 : v ≤ 255) :
    (0 ≤ v → (hexDigits 2 v).length = 2) ∧ (v < 0 → (hexDigits 2 v).length = 8) :=
  ⟨fun h => hexDigits_byte_length h h1, hexDigits_negative_length h0⟩

/-- A colour command is in the grammar exactly when no value in it is negative. -/
theorem colorFormat_command {r g b : ℤ} (hr : -255 ≤ r ∧ r ≤ 255) (hg : -255 ≤ g ∧ g ≤ 255)
    (hb : -255 ≤ b ∧ b ≤ 255) :
    IsCommand (format colorFormat [r, g, b]) ↔ 0 ≤ r ∧ 0 ≤ g ∧ 0 ≤ b := by
  have hform : format colorFormat [r, g, b] =
      105 :: ((hexDigits 2 r ++ (hexDigits 2 g ++ hexDigits 2 b)) ++ [10]) := by
    simp [colorFormat, format]
  have hlower : ∀ c ∈ hexDigits 2 r ++ (hexDigits 2 g ++ hexDigits 2 b), IsLowerHex c := by
    intro c hc
    rcases List.mem_append.mp hc with hc | hc
    · exact hexDigits_lower hc
    · rcases List.mem_append.mp hc with hc | hc <;> exact hexDigits_lower hc
  rw [hform, isCommand_iff hlower, List.length_append, List.length_append]
  obtain ⟨hr0, hr1⟩ := hexDigits_length_cases hr.1 hr.2
  obtain ⟨hg0, hg1⟩ := hexDigits_length_cases hg.1 hg.2
  obtain ⟨hb0, hb1⟩ := hexDigits_length_cases hb.1 hb.2
  constructor
  · intro h
    refine ⟨?_, ?_, ?_⟩ <;> (by_contra hneg; omega)
  · rintro ⟨h0, h1, h2⟩
    rw [hr0 h0, hg0 h1, hb0 h2]
    omega

theorem clamp_range (x : ℤ) : 0 ≤ clamp x ∧ clamp x ≤ 255 := by
  unfold clamp
  omega

/-- The command of an rgb request is always in the grammar. -/
theorem rgbChunk_command (r g b : ℤ) (seg : List UInt8) :
    IsCommand (rgbChunk r g b (lampNumber seg)) := by
  have hbyte : ∀ {v : ℤ}, 0 ≤ v ∧ v ≤ 255 → (hexDigits 2 v).length = 2 :=
    fun h => hexDigits_byte_length h.1 h.2
  refine ⟨hexDigits 2 (clamp r) ++ (hexDigits 2 (clamp g) ++ (hexDigits 2 (clamp b) ++
    hexDigits 2 (lampNumber seg))), by simp [rgbChunk, lampFormat, format], ?_, .inr ?_⟩
  · intro c hc
    simp only [List.mem_append] at hc
    rcases hc with hc | hc | hc | hc <;> exact hexDigits_lower hc
  · simp only [List.length_append, hbyte (clamp_range _), hbyte (lampNumber_range seg)]

/-- An angle whose scaling neither overflows nor is negative. -/
def ScalesToByte (x : ℤ) : Prop := x + 180 < 2 ^ 31 ∧ -1 ≤ (x + 180).tmod 360

instance : DecidablePred ScalesToByte := fun _ => inferInstanceAs (Decidable (_ ∧ _))

/-- These are the angles from -180 on, and those below that are 179 or 180 up to full turns. -/
theorem scalesToByte_iff (x : ℤ) :
    ScalesToByte x ↔ x < 2 ^ 31 - 180 ∧ (-180 ≤ x ∨ x % 360 = 179 ∨ x % 360 = 180) := by
  unfold ScalesToByte
  rcases le_or_gt 0 (x + 180) with hpos | hneg
  · have := Int.tmod_nonneg 360 hpos
    omega
  · have hsign : (x + 180).tmod 360 = -((-(x + 180)) % 360) := by
      rw [← Int.tmod_eq_emod_of_nonneg (by omega), Int.neg_tmod, neg_neg]
    omega

/-- Scaling a degree to a byte keeps the range, and only -1 changes its sign. -/
theorem scale_degree {t : ℤ} (h0 : -360 < t) (h1 : t < 360) :
    (-255 ≤ (t * 255).tdiv 360 ∧ (t * 255).tdiv 360 ≤ 255) ∧
      (0 ≤ (t * 255).tdiv 360 ↔ -1 ≤ t) := by
  have hdiv := Int.tmod_add_tdiv_mul (t * 255) 360
  have hlt := Int.tmod_lt_of_pos (t * 255) (show (0 : ℤ) < 360 by decide)
  have hgt := Int.lt_tmod_of_pos (t * 255) (show (0 : ℤ) < 360 by decide)
  have hsign : (0 ≤ t → 0 ≤ (t * 255).tmod 360) ∧ (t ≤ 0 → (t * 255).tmod 360 ≤ 0) := by
    constructor
    · intro h
      exact Int.tmod_nonneg 360 (by omega)
    · intro h
      have hneg := Int.tmod_nonneg 360 (show 0 ≤ -(t * 255) by omega)
      rw [Int.neg_tmod] at hneg
      omega
  omega

theorem orientation_range (x : ℤ) : -255 ≤ orientation x ∧ orientation x ≤ 255 :=
  (scale_degree (Int.lt_tmod_of_pos _ (by decide)) (Int.tmod_lt_of_pos _ (by decide))).1

theorem orientation_nonneg_iff {x : ℤ} (h0 : -2 ^ 31 ≤ x) (h1 : x + 180 < 2 ^ 31) :
    0 ≤ orientation x ↔ ScalesToByte x := by
  have hb : Int.bmod (x + 180) (2 ^ 32) = x + 180 :=
    Int.bmod_eq_of_le (by norm_num at h0 ⊢; omega) (by norm_num at h1 ⊢; omega)
  have hscale := (scale_degree (Int.lt_tmod_of_pos (x + 180) (show (0 : ℤ) < 360 by decide))
    (Int.tmod_lt_of_pos (x + 180) (by decide))).2
  unfold orientation ScalesToByte
  rw [hb, hscale]
  exact ⟨fun h => ⟨h1, h⟩, fun h => h.2⟩

theorem int32s_range {c : Content} {r g b : ℤ} (h : c.int32s = some (r, g, b)) :
    -2 ^ 31 ≤ r ∧ -2 ^ 31 ≤ g ∧ -2 ^ 31 ≤ b := by
  have hmin : ∀ n : ℕ, -2 ^ 31 ≤ int32 n := fun n => Int.le_bmod (by decide)
  unfold Content.int32s at h
  split_ifs at h
  simp only [Option.some.injEq, Prod.mk.injEq] at h
  obtain ⟨rfl, rfl, rfl⟩ := h
  exact ⟨hmin _, hmin _, hmin _⟩

/-- A text that has no three fields of which one is a minus sign and a digit other than 0. -/
def UnsignedColor (text : List UInt8) : Prop :=
  ∀ vs, vs.length = 3 → Fields text vs → ∀ v ∈ vs, 0 ≤ v

/-- No message of a packet asks for an orientation that does not scale to bytes. -/
def UnsignedOrientations (packet : List UInt8) : Prop :=
  ∀ w cs, Packet w packet cs → ∀ c ∈ cs, c.address = oriPattern → ∀ r g b,
    c.int32s = some (r, g, b) → ScalesToByte r ∧ ScalesToByte g ∧ ScalesToByte b

/-- An arrival that carries no signed colour value. -/
def Unsigned : Arrival → Prop
  | .command _ datagram =>
    let d := (datagram.getD []).take maxPacketSize
    Accepted d → d.getD 4 0 = color → UnsignedColor (messageText (d.drop 5))
  | .osc packet => ∀ d ∈ packet, UnsignedOrientations (d.take oscBufferSize)
  | .serial _ _ => True
  | .key _ => True

theorem colorChunks_command_iff (text : List UInt8) :
    (∀ c ∈ colorChunks text, IsCommand c) ↔ UnsignedColor text := by
  rcases colorScan_cases text with ⟨r, g, b, hf, hs⟩ | ⟨hne, hno⟩
  · have hrange := hf.range
    simp only [List.forall_mem_cons, List.not_mem_nil, false_imp_iff, implies_true, and_true]
      at hrange
    have hchunks : colorChunks text = [format colorFormat [r, g, b]] := by
      unfold colorChunks
      rw [hs]
      rfl
    have hiff := colorFormat_command (r := r) (g := g) (b := b) (by omega) (by omega) (by omega)
    rw [hchunks, List.forall_mem_singleton, hiff]
    constructor
    · intro h vs hn hvs
      obtain rfl : vs = [r, g, b] :=
        ((fields_iff hn).mp hvs).symm.trans ((fields_iff (n := 3) rfl).mp hf)
      simpa using h
    · intro h
      simpa using h [r, g, b] rfl hf
  · have hchunks : colorChunks text = [] := if_pos hne
    rw [hchunks]
    exact ⟨fun _ vs hn hf => absurd ⟨vs, hn, hf⟩ hno, by simp⟩

theorem contentChunks_command {c : Content} (h : c.address = oriPattern → ∀ r g b,
    c.int32s = some (r, g, b) → ScalesToByte r ∧ ScalesToByte g ∧ ScalesToByte b) :
    ∀ chunk ∈ contentChunks c, IsCommand chunk := by
  unfold contentChunks
  cases hargs : c.int32s with
  | none => simp
  | some rgb =>
    obtain ⟨r, g, b⟩ := rgb
    cases hseg : lampSegment c.address with
    | some seg => simpa using rgbChunk_command r g b seg
    | none =>
      simp only
      split_ifs with haddr
      · obtain ⟨hr, hg, hb⟩ := h haddr r g b hargs
        obtain ⟨hr0, hg0, hb0⟩ := int32s_range hargs
        rw [List.forall_mem_singleton]
        exact (colorFormat_command (orientation_range r) (orientation_range g)
          (orientation_range b)).mpr ⟨(orientation_nonneg_iff hr0 hr.1).mpr hr,
            (orientation_nonneg_iff hg0 hg.1).mpr hg, (orientation_nonneg_iff hb0 hb.1).mpr hb⟩
      · simp

theorem commandChunks_command {d : List UInt8}
    (h : Accepted d → d.getD 4 0 = color → UnsignedColor (messageText (d.drop 5))) :
    ∀ c ∈ commandChunks false d, IsCommand c := by
  unfold commandChunks messageChunks
  simp only [Bool.false_eq_true, if_false]
  split_ifs with ha hraw hcolor
  · simp
  · exact (colorChunks_command_iff _).mpr (h ha hcolor)
  · simp
  · simp

theorem oscChunks_command {d : List UInt8} (h : UnsignedOrientations d) :
    ∀ c ∈ oscChunks d, IsCommand c := by
  unfold oscChunks
  by_cases hp : ∃ w cs, Packet w d cs
  · obtain ⟨w, cs, hp⟩ := hp
    rw [contents_of_packet hp]
    intro chunk hchunk
    obtain ⟨c, hc, hmem⟩ := List.mem_flatMap.mp hchunk
    exact contentChunks_command (h w cs hp c hc) chunk hmem
  · rw [contents_of_no_packet hp]
    simp

theorem emits_command {a : Arrival} (h : Unsigned a) : ∀ c ∈ emits false a, IsCommand c := by
  cases a with
  | command stale datagram => exact commandChunks_command h
  | serial revents data => simp [emits]
  | key c => simp [emits]
  | osc packet =>
    cases packet with
    | none => simp [emits]
    | some d => exact oscChunks_command (h d rfl)

/-- A run without the key `r` in which no arrival carries a signed colour value submits the
initialization command and then commands of the grammar, whatever `::write` answers. -/
theorem wire_grammar (k : Kernel) (logMask : BitVec 32) (arrivals : List Arrival)
    (hkey : Arrival.key (some 114) ∉ arrivals) (h : ∀ a ∈ arrivals, Unsigned a) :
    WireStream (submittedBy (live k logMask arrivals)).flatten := by
  obtain ⟨cs, hcs, hsub⟩ := live_submitted k logMask arrivals
  have hstep : ∀ (raw : Bool) (a : Arrival), raw = false → (a ≠ .key (some 114) ∧ Unsigned a) →
      lampTransducer.next raw a = false := by
    rintro raw a rfl ⟨hne, -⟩
    exact if_neg hne
  have hall := lampTransducer.outputs_forall (P := IsCommand) hstep
    (by rintro raw a rfl ⟨-, ha⟩; exact emits_command ha) (rfl : false = false)
    (fun a ha => ⟨fun he => hkey (he ▸ ha), h a ha⟩)
  refine ⟨cs, by rw [hsub, List.flatten_cons], fun c hc => hall c (hcs.subset hc)⟩

/-- A `#` message and a key, with a device that takes nothing. -/
theorem wire_grammar_color : WireStream (submittedBy (live blocked.toKernel 2
    [.command (.replicate 1025 0) (some (ascii "m00d#10fF00")), .key (some 118)])).flatten := by
  refine wire_grammar blocked.toKernel 2 _ (by decide) ?_
  simp only [List.forall_mem_cons, List.not_mem_nil, false_imp_iff, implies_true, and_true]
  refine ⟨fun _ _ => ?_, trivial⟩
  intro vs hlen hf v hv
  obtain rfl : [16, 255, 0] = vs := (fields_iff hlen).mp hf
  revert v
  decide

/-- Three signed fields print 24 digits. -/
theorem signed_color_breaks_wire : ¬ WireStream (submittedBy (live blocked.toKernel 2
    [.command (.replicate 1025 0) (some (ascii "m00d#-1-1-1"))])).flatten := by
  rintro ⟨cmds, hbytes, hcmds⟩
  obtain ⟨s, hs, -, hsub⟩ := live_ok blocked 2
    [.command (.replicate 1025 0) (some (ascii "m00d#-1-1-1"))]
  have hout : lampTransducer.outputs false
      [.command (.replicate 1025 0) (some (ascii "m00d#-1-1-1"))] =
      [ascii "iffffffffffffffffffffffff\n"] := by decide
  rw [hs, submittedBy, hsub, hout, List.flatten_cons] at hbytes
  have hrest : ascii "iffffffffffffffffffffffff\n" = cmds.flatten := by
    simpa using List.append_cancel_left hbytes
  cases cmds with
  | nil => exact absurd hrest (by decide)
  | cons c cmds =>
    obtain ⟨ds, rfl, -, hlen⟩ := hcmds c (by simp)
    -- the newline would stand behind six or eight digits
    have hnewline : (ascii "iffffffffffffffffffffffff\n")[ds.length + 1]? = some 10 := by
      rw [hrest]
      simp
    rcases hlen with hlen | hlen
    · rw [hlen] at hnewline
      exact absurd hnewline (by decide)
    · rw [hlen] at hnewline
      exact absurd hnewline (by decide)

end Moodpd
