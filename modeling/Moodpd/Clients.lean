import Moodpd.CommandStream

/-!
# The clients

The colour chooser `setcolor.py` and the control panel `nanosublight.py`, and what the daemon
makes of their messages. The encoder of liblo is a parameter. All that is asked of it is that
it encodes a message as OSC 1.0 has it.
-/
namespace Moodpd
open Memory HexText Oscpkt Daemon

/-- A path that OSC allows, and short enough for one datagram. -/
structure OscPath where
  text : List UInt8
  slash : text.head? = some 47
  noNul : 0 ∉ text
  short : text.length ≤ 65000

/-- A message of OSC 1.0 with integers: the path, a type tag `i` for each, and four bytes for
each. -/
def oscMessage (path : List UInt8) (args : List ℕ) : List UInt8 :=
  padded path ++ (padded (44 :: args.map fun _ => typeTagInt32) ++
    args.flatMap fun v => toBigEndian 4 v)

/-- The bytes that `liblo.send` sends of a `liblo.Message(path)` with integers added. -/
abbrev LoMessage := List UInt8 → List ℕ → List UInt8

/-- A message to a path with nonnegative integers of 32 bits is encoded as OSC 1.0 has it. -/
def OscEncoding (loMessage : LoMessage) : Prop :=
  ∀ (path : OscPath) (args : List ℕ), (∀ v ∈ args, v < 2 ^ 31) →
    loMessage path.text args = oscMessage path.text args

theorem oscEncoding_oscMessage : OscEncoding oscMessage := fun _ _ _ => rfl

/-- A message with the three components of a colour. -/
structure ColorMessage where
  path : OscPath
  r : UInt8
  g : UInt8
  b : UInt8

namespace ColorMessage

def datagram (loMessage : LoMessage) (m : ColorMessage) : List UInt8 :=
  loMessage m.path.text [m.r.toNat, m.g.toNat, m.b.toNat]

/-- An angle that happens to be a byte, as a component. -/
def tilt (v : UInt8) : UInt8 := UInt8.ofNat (orientation v.toNat).toNat

/-- The colours that the message asks for, by its path. -/
def colors (m : ColorMessage) : List LampColor :=
  match lampSegment m.path.text with
  | some seg => [.addressed m.r m.g m.b (UInt8.ofNat (lampNumber seg).toNat)]
  | none => if m.path.text = oriPattern then [.broadcast (tilt m.r) (tilt m.g) (tilt m.b)] else []

def bits (v : UInt8) : BitVec 32 := BitVec.ofNat 32 v.toNat

theorem bits_toNat (v : UInt8) : (bits v).toNat = v.toNat := by
  have := v.toNat_lt
  rw [bits, BitVec.toNat_ofNat, Nat.mod_eq_of_lt (by omega)]

theorem bits_toInt (v : UInt8) : (bits v).toInt = LampColor.int v := by
  have := v.toNat_lt
  rw [BitVec.toInt_eq_toNat_cond, bits_toNat, if_pos (by omega), LampColor.int]

def content (m : ColorMessage) : Content :=
  ⟨m.path.text, [typeTagInt32, typeTagInt32, typeTagInt32],
    int32Payload (bits m.r) (bits m.g) (bits m.b)⟩

section Encoding
variable {loMessage : LoMessage} (hlo : OscEncoding loMessage)
include hlo

theorem datagram_eq (m : ColorMessage) : m.datagram loMessage = padded m.path.text ++
    (padded [44, typeTagInt32, typeTagInt32, typeTagInt32] ++
      int32Payload (bits m.r) (bits m.g) (bits m.b)) := by
  have hbytes : ∀ v ∈ [m.r.toNat, m.g.toNat, m.b.toNat], v < 2 ^ 31 := by
    intro v hv
    simp only [List.mem_cons, List.not_mem_nil, or_false] at hv
    rcases hv with rfl | rfl | rfl <;> exact lt_trans (UInt8.toNat_lt _) (by decide)
  unfold datagram
  rw [hlo m.path _ hbytes]
  unfold oscMessage int32Payload
  simp only [bits_toNat, List.flatMap_cons, List.flatMap_nil, List.append_nil, List.map_cons,
    List.map_nil]

theorem isMessage (m : ColorMessage) : IsMessage false (m.datagram loMessage) m.content := by
  rw [datagram_eq hlo]
  exact isMessage_int32s m.path.slash m.path.noNul (bits m.r) (bits m.g) (bits m.b)

theorem datagram_fits (m : ColorMessage) : (m.datagram loMessage).length ≤ oscBufferSize := by
  have hpath := m.path.short
  rw [datagram_eq hlo]
  unfold int32Payload
  simp only [List.length_append, padded_length, toBigEndian_length, List.length_cons,
    List.length_nil]
  unfold ceil4 oscBufferSize
  omega

end Encoding

theorem clamp_int (v : UInt8) : clamp (LampColor.int v) = LampColor.int v := by
  have := v.toNat_lt
  unfold clamp LampColor.int
  omega

theorem int_ofNat {v : ℤ} (h0 : 0 ≤ v) (h1 : v ≤ 255) :
    LampColor.int (UInt8.ofNat v.toNat) = v := by
  have hlt : v.toNat < UInt8.size := by
    unfold UInt8.size
    omega
  rw [LampColor.int, UInt8.toNat_ofNat_of_lt' hlt]
  omega

theorem int_tilt (v : UInt8) : LampColor.int (tilt v) = orientation (LampColor.int v) := by
  have hv := v.toNat_lt
  have hrange := (orientation_range (LampColor.int v)).2
  have hnonneg : 0 ≤ orientation (LampColor.int v) := by
    unfold LampColor.int
    rw [orientation_nonneg_iff (by omega) (by omega)]
    have hmod := Int.tmod_nonneg 360 (show (0 : ℤ) ≤ v.toNat + 180 by omega)
    exact ⟨by omega, by omega⟩
  exact int_ofNat hnonneg hrange

/-- The daemon submits the commands of the colours that a message asks for. -/
theorem emits_datagram {loMessage : LoMessage} (hlo : OscEncoding loMessage) (raw : Bool)
    (m : ColorMessage) :
    emits raw (.osc (some (m.datagram loMessage))) = m.colors.map LampColor.bytes := by
  have hcontents : contents ((m.datagram loMessage).take oscBufferSize) = [m.content] := by
    rw [List.take_of_length_le (m.datagram_fits hlo)]
    exact contents_of_packet (.message (m.isMessage hlo))
  simp only [emits, Option.map_some, Option.getD_some, oscChunks, hcontents,
    List.flatMap_singleton]
  unfold contentChunks colors
  rw [content, int32s_payload]
  simp only [bits_toInt]
  cases hseg : lampSegment m.path.text with
  | some seg =>
    have hrange := lampNumber_range seg
    simp only [rgbChunk, clamp_int, List.map_cons, List.map_nil, LampColor.bytes]
    rw [int_ofNat hrange.1 hrange.2]
  | none =>
    by_cases hori : m.path.text = oriPattern
    · simp only [if_pos hori, oriChunk, List.map_cons, List.map_nil, LampColor.bytes, int_tilt]
    · simp only [if_neg hori, List.map_nil]

end ColorMessage

/-- `gtk.gdk.Color`, with components of 16 bits. -/
structure GdkColor where
  red : UInt16
  green : UInt16
  blue : UInt16

/-- `color_changed`, with the text of the path entry. -/
def colorChanged (oscpath : OscPath) (col : GdkColor) : ColorMessage :=
  ⟨oscpath, (col.red / 256).toUInt8, (col.green / 256).toUInt8, (col.blue / 256).toUInt8⟩

/-- A MIDI message: a status byte and two data bytes. -/
structure MidiMessage where
  status : UInt8
  controller : Fin 128
  value : Fin 128

/-- The loop keeps the doubled data byte of every controller. -/
structure Panel where
  controllerState : Fin 128 → UInt8

namespace Panel

def init : Panel := ⟨fun _ => 0⟩

/-- `controllerState[controller]= value`. -/
def set (p : Panel) (controller : Fin 128) (value : ℕ) : Panel :=
  ⟨Function.update p.controllerState controller (UInt8.ofNat value)⟩

/-- `"%02d"` of a number with one digit. -/
def decimal (n : ℕ) : List UInt8 := [48, UInt8.ofNat (48 + n)]

/-- `'/moodpd/lamps/%02d/rgb' % n`. -/
def lampPath (n : Fin 5) : OscPath where
  text := lampsPrefix ++ (decimal n.val ++ rgbSuffix)
  slash := rfl
  noNul := by revert n; decide
  short := by revert n; decide

/-- `'/dali/lamps/%02d/bright' % n`. -/
def daliPath (n : Fin 5) : OscPath where
  text := ascii "/dali/lamps/" ++ (decimal n.val ++ ascii "/bright")
  slash := rfl
  noNul := by revert n; decide
  short := by revert n; decide

/-- What a MIDI message makes the panel send: a colour to the daemon or a brightness to the
other server. -/
inductive Send
  | moodpd (m : ColorMessage)
  | dali (path : OscPath) (value : ℕ)

/-- The panning controllers of the small lamps come in groups of three. -/
def lampno (controller : ℕ) : ℕ := (controller - 16) / 3 % 4

theorem lampno_lt (controller : ℕ) : lampno controller < 4 := Nat.mod_lt _ (by decide)

/-- The controllers of lamp 0 are the first three, those of the others start at 16. -/
def knob (n : Fin 5) (i : Fin 3) : Fin 128 :=
  if n = 0 then ⟨i.val, by omega⟩ else ⟨(n.val - 1) * 3 + 16 + i.val, by omega⟩

/-- The message with the controllers of a lamp. -/
def oscmsg (p : Panel) (n : Fin 5) : ColorMessage :=
  ⟨lampPath n, p.controllerState (knob n 0), p.controllerState (knob n 1),
    p.controllerState (knob n 2)⟩

/-- The loop body for one message, with the state after the controller is set. -/
def handle (p : Panel) (msg : MidiMessage) : Panel × List Send :=
  if msg.status >>> 4 = 0x0B then
    let controller := msg.controller.val
    let value := msg.value.val * 2
    let p := p.set msg.controller value
    if controller ≥ 32 then
      (p, [.dali (daliPath ⟨controller % 4 + 1, by omega⟩) value])
    else if controller < 3 ∨ controller ≥ 16 then
      if controller ≥ 16 then
        (p, [.moodpd (p.oscmsg ⟨lampno controller + 1, by have := lampno_lt controller; omega⟩)])
      else (p, [.moodpd (p.oscmsg 0)])
    else (p, [.dali (daliPath ⟨controller % 4 + 1, by omega⟩) value])
  else (p, [])

/-- `for msg in MidiData[-1:]`. -/
def read (p : Panel) (midiData : List MidiMessage) : Panel × List Send :=
  match midiData.getLast? with
  | none => (p, [])
  | some msg => p.handle msg

end Panel

/-- `"/moodpd/lamps/00/rgb"`, the text of the path entry at first. -/
def entryPath : OscPath := Panel.lampPath 0

end Moodpd
