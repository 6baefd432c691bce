import Moodpd.OscView

/-!
# Recognising a request

Which of the two handlers runs for a message is decided by its address and its type tags
alone, and the handler gets the three integers of the message.
-/
namespace Moodpd
open Memory HexText Oscpkt

/-- The handler that runs for a message, with the values it has popped. -/
inductive OscRequest
  | rgb (r g b : ℤ)
  | ori (r g b : ℤ)
  | ignored
  deriving DecidableEq, Repr

/-- The tests in front of the two handlers. -/
def Oscpkt.Message.request (msg : Message) : Checked OscRequest := do
  match ← msg.matchInt32s Daemon.rgbPattern with
  | some (r, g, b) => .ok (.rgb r g b)
  | none =>
    match ← msg.matchInt32s Daemon.oriPattern with
    | some (r, g, b) => .ok (.ori r g b)
    | none => .ok .ignored

namespace Daemon

def rgbHandler (k : Kernel) (address : List UInt8) (r g b : ℤ) (s : Daemon) :
    Except Halt Daemon := do
  let r := clamp r
  let g := clamp g
  let b := clamp b
  let lamp ← checked (lampIndex address)
  let s := s.flog .info "osc: lamp %d -> red %d, green %d, blue %d\n"
    [.int lamp, .int r, .int g, .int b]
  s.writeCommandF k lampFormat [r, g, b, lamp]

def oriHandler (k : Kernel) (r g b : ℤ) (s : Daemon) : Except Halt Daemon :=
  let s := s.flog .info "andOSC orientation: %d, %d, %d\n" [.int r, .int g, .int b]
  s.writeCommandF k colorFormat [orientation r, orientation g, orientation b]

def handleRequest (k : Kernel) (address : List UInt8) (s : Daemon) :
    OscRequest → Except Halt Daemon
  | .rgb r g b => s.rgbHandler k address r g b
  | .ori r g b => s.oriHandler k r g b
  | .ignored => .ok s

/-- The daemon's reaction to a message is the handler of its request. -/
theorem handleMessage_request (k : Kernel) (msg : Message) (s : Daemon) :
    s.handleMessage k msg = (do
      let request ← checked msg.request
      s.handleRequest k msg.address request) := by
  unfold handleMessage Message.request
  cases msg.matchInt32s rgbPattern with
  | error e => rfl
  | ok rgb =>
    cases rgb with
    | some rgb => rfl
    | none =>
      simp only [checked_ok, ok_bind]
      cases msg.matchInt32s oriPattern with
      | error e => rfl
      | ok ori => cases ori <;> rfl

end Daemon

/-- `"/moodpd/lamps/"`, a text without a slash and `"/rgb"`. -/
def LampAddress (address : List UInt8) : Prop :=
  ∃ seg, 47 ∉ seg ∧ address = lampsPrefix ++ (seg ++ rgbSuffix)

/-- The type tags are `iii`. -/
def HasInt32Tags (msg : Message) : Prop :=
  msg.typeTags = [typeTagInt32, typeTagInt32, typeTagInt32]

/-- The type tags are `iii`, and the arguments are these integers in this order. -/
def HasInt32s (msg : Message) (x y z : ℤ) : Prop :=
  HasInt32Tags msg ∧ ∃ r g b : BitVec 32, msg.content.payload = int32Payload r g b ∧
    x = r.toInt ∧ y = g.toInt ∧ z = b.toInt

/-- No address is that of both handlers. -/
theorem LampAddress.ne_ori {address : List UInt8} (h : LampAddress address) :
    address ≠ Daemon.oriPattern := by
  obtain ⟨seg, -, rfl⟩ := h
  intro he
  have hlen := congrArg List.length he
  simp only [List.length_append] at hlen
  have hlamps : lampsPrefix.length = 14 := by decide
  have hori : Daemon.oriPattern.length = 4 := by decide
  omega

theorem lampSegment_isSome {address : List UInt8} :
    (lampSegment address).isSome = true ↔ LampAddress address := by
  rw [Option.isSome_iff_exists]
  exact exists_congr fun seg => lampSegment_eq_some

section Parsed
variable {d : List UInt8} {pr : PacketReader} (h : PacketReader.init d = .ok pr)
  (hok : pr.isOk = true) {msg : Message} (hm : msg ∈ pr.messages)
include h hok hm

/-- The test of a handler with some pattern, by the integers of the message. -/
theorem matchInt32s_parsed {test : List UInt8} {m : Bool}
    (hmatch : fullPatternMatch test msg.address = .ok m) :
    ∃ ints, msg.matchInt32s test = .ok (if m then ints else none) ∧
      (∀ x y z, ints = some (x, y, z) ↔ HasInt32s msg x y z) ∧
      (ints = none ↔ ¬ HasInt32Tags msg) := by
  obtain ⟨v, e, c, hv, hrep⟩ := init_message h hok hm
  rw [hrep.address] at hmatch
  refine ⟨c.int32s, matchInt32s_of_represents hrep hmatch, fun x y z => ?_, ?_⟩
  · rw [int32s_iff hv]
    unfold HasInt32s HasInt32Tags
    rw [content_of_represents hrep, hrep.typeTags]
  · unfold Content.int32s HasInt32Tags
    rw [hrep.typeTags]
    split_ifs with htags <;> simp [htags]

theorem request_rgb {x y z : ℤ} (hargs : HasInt32s msg x y z) (haddr : LampAddress msg.address) :
    msg.request = .ok (.rgb x y z) := by
  obtain ⟨ints, hmatch, hints, -⟩ := matchInt32s_parsed h hok hm (rgbPattern_match msg.address)
  rw [lampSegment_isSome.mpr haddr, (hints x y z).mpr hargs] at hmatch
  unfold Message.request
  rw [hmatch]
  rfl

/-- Where the address is no lamp address the first test fails. -/
theorem matchInt32s_no_lamp (haddr : ¬ LampAddress msg.address) :
    msg.matchInt32s Daemon.rgbPattern = .ok none := by
  obtain ⟨ints, hmatch, -⟩ := matchInt32s_parsed h hok hm (rgbPattern_match msg.address)
  rw [hmatch, if_neg fun hseg => haddr (lampSegment_isSome.mp hseg)]

theorem request_ori {x y z : ℤ} (hargs : HasInt32s msg x y z)
    (haddr : msg.address = Daemon.oriPattern) : msg.request = .ok (.ori x y z) := by
  have hno : ¬ LampAddress msg.address := fun hlamp => hlamp.ne_ori haddr
  obtain ⟨ints, hmatch, hints, -⟩ := matchInt32s_parsed h hok hm (oriPattern_match msg.address)
  rw [(hints x y z).mpr hargs, if_pos (decide_eq_true haddr)] at hmatch
  unfold Message.request
  rw [matchInt32s_no_lamp h hok hm hno, ok_bind]
  simp only [hmatch, ok_bind]

theorem request_ignored
    (hno : ¬ ((LampAddress msg.address ∨ msg.address = Daemon.oriPattern) ∧ HasInt32Tags msg)) :
    msg.request = .ok .ignored := by
  have hfails : ∀ {test m}, fullPatternMatch test msg.address = .ok m →
      (m = true → LampAddress msg.address ∨ msg.address = Daemon.oriPattern) →
      msg.matchInt32s test = .ok none := by
    intro test m hmatch haddr
    obtain ⟨ints, hres, -, hnone⟩ := matchInt32s_parsed h hok hm hmatch
    rw [hres]
    cases m with
    | false => rfl
    | true => rw [hnone.mpr fun htags => hno ⟨haddr rfl, htags⟩, if_pos rfl]
  have hrgb := hfails (rgbPattern_match msg.address) fun hseg => .inl (lampSegment_isSome.mp hseg)
  have hori := hfails (oriPattern_match msg.address) fun hdec => .inr (of_decide_eq_true hdec)
  unfold Message.request
  rw [hrgb, hori]
  rfl

theorem hasInt32s_of_tags (htags : HasInt32Tags msg) : ∃ x y z, HasInt32s msg x y z := by
  obtain ⟨ints, -, hints, hnone⟩ := matchInt32s_parsed h hok hm (rgbPattern_match msg.address)
  cases ints with
  | none => exact absurd htags (hnone.mp rfl)
  | some xyz => exact ⟨xyz.1, xyz.2.1, xyz.2.2, (hints _ _ _).mp rfl⟩

/-- A message is exactly one of a lamp request, an orientation request and neither. -/
theorem request_cases :
    (∃ x y z, LampAddress msg.address ∧ HasInt32s msg x y z ∧ msg.request = .ok (.rgb x y z)) ∨
    (∃ x y z, msg.address = Daemon.oriPattern ∧ HasInt32s msg x y z ∧
      msg.request = .ok (.ori x y z)) ∨
    (¬ ((LampAddress msg.address ∨ msg.address = Daemon.oriPattern) ∧ HasInt32Tags msg) ∧
      msg.request = .ok .ignored) := by
  by_cases hreq : (LampAddress msg.address ∨ msg.address = Daemon.oriPattern) ∧ HasInt32Tags msg
  · obtain ⟨haddr, htags⟩ := hreq
    obtain ⟨x, y, z, hargs⟩ := hasInt32s_of_tags h hok hm htags
    rcases haddr with hlamp | hori
    · exact .inl ⟨x, y, z, hlamp, hargs, request_rgb h hok hm hargs hlamp⟩
    · exact .inr (.inl ⟨x, y, z, hori, hargs, request_ori h hok hm hargs hori⟩)
  · exact .inr (.inr ⟨hreq, request_ignored h hok hm hreq⟩)

end Parsed

theorem receiveOsc_messages {d : List UInt8} {pr : PacketReader} (h : PacketReader.init d = .ok pr)
    (hok : pr.isOk = true) (k : Kernel) (s : Daemon) {packet : List UInt8}
    (hd : packet.take Daemon.oscBufferSize = d) : s.receiveOsc k (some packet) =
      pr.messages.foldlM (fun s msg => s.handleMessage k msg) (s.flog .info "OSC packet\n" []) := by
  unfold Daemon.receiveOsc
  simp only [hd, h, checked_ok, ok_bind, hok, if_true]

/-- For a message of any packet that was read without an error, the rgb handler runs exactly
on the lamp addresses and the orientation handler exactly on `/ori`, both with the type tags
`iii` only and on the three integers in order. On any other message nothing is done. What the
daemon does with the packet is to handle its messages one after another. -/
theorem osc_dispatch {d : List UInt8} {pr : PacketReader} (h : PacketReader.init d = .ok pr)
    (hok : pr.isOk = true) {msg : Message} (hm : msg ∈ pr.messages) :
    (∀ r g b, msg.request = .ok (.rgb r g b) ↔
      LampAddress msg.address ∧ HasInt32s msg r g b) ∧
    (∀ r g b, msg.request = .ok (.ori r g b) ↔
      msg.address = Daemon.oriPattern ∧ HasInt32s msg r g b) ∧
    (¬ ((LampAddress msg.address ∨ msg.address = Daemon.oriPattern) ∧ HasInt32Tags msg) →
      ∀ (k : Kernel) (s : Daemon), s.handleMessage k msg = .ok s) ∧
    (∀ (k : Kernel) (s : Daemon), s.handleMessage k msg = (do
      let request ← checked msg.request
      s.handleRequest k msg.address request)) ∧
    ∀ (k : Kernel) (s : Daemon) (packet : List UInt8), packet.take Daemon.oscBufferSize = d →
      s.receiveOsc k (some packet) =
        pr.messages.foldlM (fun s msg => s.handleMessage k msg) (s.flog .info "OSC packet\n" []) := by
  refine ⟨fun r g b => ⟨fun he => ?_, fun hc => request_rgb h hok hm hc.2 hc.1⟩,
    fun r g b => ⟨fun he => ?_, fun hc => request_ori h hok hm hc.2 hc.1⟩, fun hno k s => ?_,
    fun k s => Daemon.handleMessage_request k msg s,
    fun k s _ hd => receiveOsc_messages h hok k s hd⟩
  · rcases request_cases h hok hm with ⟨x, y, z, hlamp, hargs, hreq⟩ | ⟨_, _, _, -, -, hreq⟩ | ⟨-, hreq⟩
    · obtain ⟨rfl, rfl, rfl⟩ := OscRequest.rgb.inj (Except.ok.inj (hreq.symm.trans he))
      exact ⟨hlamp, hargs⟩
    · cases hreq.symm.trans he
    · cases hreq.symm.trans he
  · rcases request_cases h hok hm with ⟨_, _, _, -, -, hreq⟩ | ⟨x, y, z, hori, hargs, hreq⟩ | ⟨-, hreq⟩
    · cases hreq.symm.trans he
    · obtain ⟨rfl, rfl, rfl⟩ := OscRequest.ori.inj (Except.ok.inj (hreq.symm.trans he))
      exact ⟨hori, hargs⟩
    · cases hreq.symm.trans he
  · rw [Daemon.handleMessage_request, request_ignored h hok hm hno]
    rfl

def tiltPacket : List UInt8 :=
  padded (ascii "/ori") ++ (padded (ascii ",iii") ++ int32Payload 10 (-20) 30)

def tilt : Message where
  timeTag := 1
  address := ascii "/ori"
  typeTags := ascii "iii"
  arguments := [(16, 4), (20, 4), (24, 4)]
  storage := tiltPacket
  err := .okNoError

theorem osc_dispatch_tilt : tilt.request = .ok (.ori 10 (-20) 30) :=
  ((osc_dispatch (show PacketReader.init tiltPacket = .ok ⟨[tilt], .okNoError⟩ by decide +kernel)
    rfl (List.mem_singleton.mpr rfl)).2.1 10 (-20) 30).mpr
      ⟨rfl, rfl, 10, -20, 30, by decide +kernel, rfl, by decide, rfl⟩

end Moodpd
