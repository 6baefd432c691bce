import Moodpd.MucProtocol
import Moodpd.PrefixCode
import Moodpd.WireGrammar

/-!
# Runs of the build with MUCPROTOCOL

A run of this build writes its initialization bytes and then frames. The frames are the words of
a code, so that the lamp can tell the commands from the bytes that have arrived, although the
bytes of a command may contain those that end a frame. The commands are well-formed as long as
no orientation is out of range.
-/
namespace Moodpd.Muc
open Memory HexText Oscpkt Daemon PrefixCode

/-- The OSC branch is compiled without a difference, but for `writeCommandF`. -/
def handleMessage (k : Kernel) (msg : Message) (s : Daemon) : Except Halt Daemon := do
  match ← checked (msg.matchInt32s rgbPattern) with
  | some (r, g, b) =>
    let r := clamp r
    let g := clamp g
    let b := clamp b
    let lamp ← checked (lampIndex msg.address)
    let s := s.flog .info "osc: lamp %d -> red %d, green %d, blue %d\n"
      [.int lamp, .int r, .int g, .int b]
    writeCommandF k lampFormat [r, g, b, lamp] s
  | none =>
    match ← checked (msg.matchInt32s oriPattern) with
    | some (r, g, b) =>
      let s := s.flog .info "andOSC orientation: %d, %d, %d\n" [.int r, .int g, .int b]
      writeCommandF k Daemon.colorFormat [orientation r, orientation g, orientation b] s
    | none => .ok s

def receiveOsc (k : Kernel) (packet : Option (List UInt8)) (s : Daemon) : Except Halt Daemon :=
  let s := s.flog .info "OSC packet\n" []
  match packet with
  | none => .ok s
  | some datagram => do
    let pr ← checked (PacketReader.init (datagram.take oscBufferSize))
    if pr.isOk then pr.messages.foldlM (fun s msg => handleMessage k msg s) s else .ok s

/-- An arrival, with what the uninitialised variables hold when it is handled. -/
abbrev Input := Arrival × Locals

/-- The keys and the serial link are not affected by the option. -/
def reaction (k : Kernel) (i : Input) (s : Daemon) : Except Halt Daemon :=
  match i.1 with
  | .command stale datagram => handle k stale (datagram.getD []) i.2 s
  | .osc packet => receiveOsc k packet s
  | .serial revents data => s.handle k (.serial revents data)
  | .key c => s.handle k (.key c)

/-- `"acI\1\2\2ab"`. -/
def init0 : Chunk := [97, 99, 73, 1, 2, 2, 97, 98]

/-- `"acW\0ab"`. -/
def init1 : Chunk := [97, 99, 87, 0, 97, 98]

def start (k : Kernel) (logMask : BitVec 32) : Except Halt Daemon := do
  let s ← { idle with logMask := logMask }.write k init0
  let s ← s.write k init1
  .ok (s.flog .info "entering main loop.\n" [])

def live (k : Kernel) (logMask : BitVec 32) (inputs : List Input) : Except Halt Daemon := do
  let s ← start k logMask
  inputs.foldlM (fun s i => reaction k i s) s

/-- The chunks an arrival submits. An OSC packet submits the commands of the other build, each
in a frame. -/
def emits (raw : Bool) (i : Input) : List Chunk :=
  match i.1 with
  | .command _ datagram => commandChunks raw i.2 ((datagram.getD []).take maxPacketSize)
  | .osc packet =>
    (packet.map fun d => (oscChunks (d.take oscBufferSize)).flatMap frame).getD []
  | .serial _ _ => []
  | .key _ => []

theorem handleMessage_view (k : Kernel) {msg : Message} {c : Content} (h : Represents msg c)
    (s : Daemon) :
    lampView (handleMessage k msg s) = submits k ((contentChunks c).flatMap frame) s.lamp := by
  have hrgb := matchInt32s_of_represents h (rgbPattern_match c.address)
  have hori := matchInt32s_of_represents h (oriPattern_match c.address)
  unfold handleMessage contentChunks
  rw [hrgb, hori]
  cases hargs : c.int32s with
  | none => cases lampSegment c.address <;> by_cases hdec : c.address = oriPattern <;> simp [hdec]
  | some rgb =>
    obtain ⟨r, g, b⟩ := rgb
    cases hseg : lampSegment c.address with
    | some seg =>
      have hlamp := lampIndex_of_segment hseg h.nul
      rw [← h.address] at hlamp
      simp only [Option.isSome_some, if_true, checked_ok, ok_bind, hlamp]
      rw [writeCommandF_view k (by simp [lampFormat, format])
        (le_trans (format_length_le _ _) (by simp [lampFormat])), flog_lamp]
      simp [rgbChunk]
    | none =>
      by_cases hdec : c.address = oriPattern
      · simp only [Option.isSome_none, Bool.false_eq_true, if_false, hdec, decide_true, if_true,
          checked_ok, ok_bind]
        rw [writeCommandF_view k (by simp [Daemon.colorFormat, format])
          (le_trans (format_length_le _ _) (by simp [Daemon.colorFormat])), flog_lamp]
        simp [oriChunk]
      · simp [hdec]

theorem handleMessages_view (k : Kernel) {ms : List Message} {cs : List Content}
    (h : List.Forall₂ Represents ms cs) (s : Daemon) :
    lampView (ms.foldlM (fun s msg => handleMessage k msg s) s) =
      submits k ((cs.flatMap contentChunks).flatMap frame) s.lamp := by
  induction h generalizing s with
  | nil => simp
  | cons head _ ih =>
    rw [List.foldlM_cons, List.flatMap_cons, List.flatMap_append]
    exact lampView_bind (handleMessage_view k head s) fun s' _ => ih s'

theorem receiveOsc_view (k : Kernel) (d : List UInt8) (s : Daemon) :
    lampView (receiveOsc k (some d) s) =
      submits k ((oscChunks (d.take oscBufferSize)).flatMap frame) s.lamp := by
  unfold receiveOsc oscChunks
  rcases init_cases (d.take oscBufferSize) with ⟨pr, hr, hne, hno⟩ | ⟨w, cs, ms, hp, hr, hrep⟩
  · rw [contents_of_no_packet hno]
    simp [hr, PacketReader.isOk, hne]
  · rw [contents_of_packet hp]
    simp only [hr, checked_ok, ok_bind, PacketReader.isOk, decide_true, if_true]
    rw [handleMessages_view k hrep, flog_lamp]

theorem submits_sound (k : HealthyKernel) {r : Except Halt Daemon} {chunks : List Chunk}
    {s s' : Daemon} (h : lampView r = submits k.toKernel chunks s.lamp) (hr : r = .ok s')
    (hs : s.serial.Sound) : s'.serial.Sound := by
  obtain ⟨w, hw, -⟩ := NonblockWriter.writeAll_ok k chunks s.serial
  have hsubmits : submits k.toKernel chunks s.lamp = .ok (s.allowRawMode, w) := by
    unfold submits
    rw [show s.lamp.2 = s.serial from rfl, hw]
    rfl
  rw [hr, lampView_ok, hsubmits] at h
  obtain ⟨-, hserial⟩ := Prod.mk.inj (Except.ok.inj h)
  rw [hserial]
  exact hs.writeAll hw

theorem start_ok (k : HealthyKernel) (logMask : BitVec 32) :
    ∃ s, start k.toKernel logMask = .ok s ∧ s.serial.Sound ∧ s.allowRawMode = false ∧
      s.serial.submitted = [init0, init1] := by
  have hv : lampView (start k.toKernel logMask) =
      submits k.toKernel [init0, init1] { idle with logMask := logMask }.lamp := by
    unfold start
    rw [show [init0, init1] = [init0] ++ [init1] from rfl]
    refine lampView_bind (write_view _ init0 _) fun s _ => ?_
    rw [lampView_log (fun s' => flog_lamp _ _ _ s'), write_view]
  obtain ⟨s, hs, hraw, hsub⟩ := of_submits k hv
  exact ⟨s, hs, submits_sound k hv hs NonblockWriter.sound_empty, hraw, hsub⟩

/-- What stands between the two ends of a frame. -/
inductive IsPayload : Chunk → Prop
  | color (r g b : UInt8) : IsPayload [67, r, g, b]
  | brightness (v : UInt8) : IsPayload [68, v]
  | fade (r g b high low : UInt8) : IsPayload [77, r, g, b, high, low]
  | pause : IsPayload [0x17]
  | power : IsPayload [0x10]
  | lamp {digits : List UInt8} (h : ∀ b ∈ digits, IsLowerHex b) :
      IsPayload (105 :: (digits ++ [10]))

abbrev Payload := { c : Chunk // IsPayload c }

namespace Payload

/-- Digits up to a newline make a code. -/
theorem prefixFree_digits :
    PrefixFree fun ds : { ds : List UInt8 // ∀ b ∈ ds, IsLowerHex b } => ds.val ++ [10] :=
  prefixFree_terminated Subtype.val_injective fun ds hmem => absurd (ds.property 10 hmem) (by decide)

/-- A payload is told by its first byte, and its length by that byte or by the newline. -/
theorem prefixFree : PrefixFree fun c : Payload => c.val where
  ne_nil := by
    rintro ⟨c, hc⟩
    cases hc <;> simp
  eq_of_prefix := by
    rintro ⟨c, hc⟩ ⟨d, hd⟩ hp
    apply Subtype.ext
    cases hc with
    | @lamp ds hds =>
      cases hd with
      | @lamp es hes =>
        have htail := (List.cons_prefix_cons.mp hp).2
        have he := prefixFree_digits.eq_of_prefix ⟨ds, hds⟩ ⟨es, hes⟩ htail
        exact congrArg (fun ds => 105 :: (ds ++ [10])) (Subtype.mk.inj he)
      | _ => simp [List.cons_prefix_cons] at hp
    | _ => cases hd <;> simp_all [List.cons_prefix_cons]

def bytes (c : Payload) : Chunk := (frame c.val).flatten

theorem prefixFree_bytes : PrefixFree bytes := by
  have hbytes : bytes = fun c => frameStart ++ (c.val ++ frameEnd) := by
    funext c
    simp [bytes, frame]
  rw [hbytes]
  exact prefixFree.framed frameStart frameEnd

end Payload

/-- A command that is also one of the other build has six or eight digits. -/
def WellFormed (c : Chunk) : Prop := c.head? = some 105 → IsCommand c

/-- Chunks that are frames one after another, of well-formed commands under a condition. -/
def Framed (narrow : Prop) (chunks : List Chunk) : Prop :=
  ∃ cs : List Payload, chunks = (cs.flatMap fun c => frame c.val) ∧
    (narrow → ∀ c ∈ cs, WellFormed c.val)

section Framed
variable {narrow : Prop}

theorem Framed.append {cs ds : List Chunk} (hc : Framed narrow cs) (hd : Framed narrow ds) :
    Framed narrow (cs ++ ds) := by
  obtain ⟨cs, rfl, hcs⟩ := hc
  obtain ⟨ds, rfl, hds⟩ := hd
  refine ⟨cs ++ ds, List.flatMap_append.symm, fun hn c hc => ?_⟩
  rcases List.mem_append.mp hc with hc | hc
  · exact hcs hn c hc
  · exact hds hn c hc

end Framed

/-- The bytes of a run that sends some commands. -/
def stream (cs : List Payload) : Chunk := init0 ++ (init1 ++ cs.flatMap Payload.bytes)

end Moodpd.Muc
