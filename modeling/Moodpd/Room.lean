import Moodpd.Clients
import Moodpd.Delivery
import Moodpd.Wire

/-!
# The clients, the network and the daemon

The colour chooser and the control panel send over a network that drops, duplicates and
reorders their messages. The lamp gets the colours of the messages that arrive and nothing
else, and when all messages of the panel arrive in order every lamp shows what the MIDI data
says of its controllers.
-/
namespace Moodpd
open Memory HexText Oscpkt Daemon Wire

structure Room where
  oscpath : OscPath
  panel : Panel
  net : Net ColorMessage
  daemon : Daemon

/-- What of the panel's messages goes to the daemon. -/
def Panel.Send.toDaemon : Panel.Send → List ColorMessage
  | .moodpd m => [m]
  | .dali _ _ => []

namespace Room

/-- A colour is picked, MIDI data is read, a datagram is lost, doubled or delivered, or the
daemon hears from the lamp or a key. -/
inductive Event
  | edit (oscpath : OscPath)
  | pick (col : GdkColor)
  | midi (data : List MidiMessage)
  | drop (j : ℕ)
  | duplicate (j : ℕ)
  | deliver (j : ℕ)
  | serial (revents : BitVec 16) (data : List UInt8)
  | key (c : Option UInt8)

def step (loMessage : LoMessage) (k : Kernel) (room : Room) : Event → Except Halt Room
  | .edit oscpath => .ok { room with oscpath := oscpath }
  | .pick col => .ok { room with net := room.net.send [colorChanged room.oscpath col] }
  | .midi data =>
    let (panel, sends) := room.panel.read data
    .ok { room with panel := panel, net := room.net.send (sends.flatMap Panel.Send.toDaemon) }
  | .drop j => .ok { room with net := room.net.drop j }
  | .duplicate j => .ok { room with net := room.net.duplicate j }
  | .deliver j => do
    let daemon ← room.daemon.react k
      (room.net.transit[j]?.toList.map fun m => .osc (some (m.datagram loMessage)))
    .ok { room with net := room.net.deliver j, daemon := daemon }
  | .serial revents data => do
    let daemon ← room.daemon.handle k (.serial revents data)
    .ok { room with daemon := daemon }
  | .key c => do
    let daemon ← room.daemon.handle k (.key c)
    .ok { room with daemon := daemon }

def start (daemon : Daemon) : Room := ⟨entryPath, .init, .empty, daemon⟩

def run (loMessage : LoMessage) (k : Kernel) (logMask : BitVec 32) (events : List Event) :
    Except Halt Room := do
  let daemon ← Daemon.start k logMask
  events.foldlM (fun room e => room.step loMessage k e) (start daemon)

/-- The colours that the delivered messages ask for. -/
def colors (room : Room) : List LampColor := room.net.delivered.flatMap ColorMessage.colors

/-- What holds in every run. -/
structure Faithful (room : Room) : Prop where
  honest : room.net.Honest
  sound : room.daemon.serial.Sound
  submitted : room.daemon.serial.submitted =
    ascii "q\n" :: room.colors.map LampColor.bytes

theorem outputs_messages {loMessage : LoMessage} (hlo : OscEncoding loMessage) (raw : Bool)
    (ms : List ColorMessage) :
    lampTransducer.outputs raw (ms.map fun m => .osc (some (m.datagram loMessage))) =
      (ms.flatMap ColorMessage.colors).map LampColor.bytes := by
  induction ms with
  | nil => rfl
  | cons m ms ih =>
    rw [List.map_cons, Transducer.outputs_cons, lampTransducer_out, lampTransducer_next, gate_osc,
      ColorMessage.emits_datagram hlo, ih, List.flatMap_cons, List.map_append]

theorem react_sound (k : HealthyKernel) (arrivals : List Arrival) {s : Daemon}
    (h : s.serial.Sound) : ∃ t, s.react k.toKernel arrivals = .ok t ∧ t.serial.Sound := by
  induction arrivals generalizing s with
  | nil => exact ⟨s, rfl, h⟩
  | cons a arrivals ih =>
    obtain ⟨u, hu, hsound, -⟩ := handle_ok k a s
    obtain ⟨t, ht, hs⟩ := ih (hsound h)
    refine ⟨t, ?_, hs⟩
    unfold react at ht ⊢
    rw [List.foldlM_cons, hu]
    exact ht

/-- An arrival that submits nothing leaves a room faithful. -/
theorem Faithful.handle {k : HealthyKernel} {room : Room} (h : room.Faithful) {a : Arrival}
    (ha : emits room.daemon.allowRawMode a = []) :
    ∃ t, room.daemon.handle k.toKernel a = .ok t ∧ Faithful { room with daemon := t } := by
  obtain ⟨t, ht, hsound, -, hsub⟩ := handle_ok k a room.daemon
  refine ⟨t, ht, h.honest, hsound h.sound, ?_⟩
  rw [ha, List.append_nil] at hsub
  exact hsub.trans h.submitted

section Encoding
variable {loMessage : LoMessage} (hlo : OscEncoding loMessage) {k : HealthyKernel}
include hlo

theorem Faithful.step {room : Room} (h : room.Faithful) (e : Event) :
    ∃ room', room.step loMessage k.toKernel e = .ok room' ∧ room'.Faithful := by
  cases e with
  | edit oscpath => exact ⟨_, rfl, h.honest, h.sound, h.submitted⟩
  | pick col => exact ⟨_, rfl, h.honest.send _, h.sound, h.submitted⟩
  | midi data => exact ⟨_, rfl, h.honest.send _, h.sound, h.submitted⟩
  | drop j => exact ⟨_, rfl, h.honest.drop j, h.sound, h.submitted⟩
  | duplicate j => exact ⟨_, rfl, h.honest.duplicate j, h.sound, h.submitted⟩
  | deliver j =>
    obtain ⟨t, ht, hsound⟩ := react_sound k
      (room.net.transit[j]?.toList.map fun m => .osc (some (m.datagram loMessage))) h.sound
    have hsub := ((handle_refines k.toKernel).run ht).2
    rw [outputs_messages hlo, h.submitted] at hsub
    refine ⟨{ room with net := room.net.deliver j, daemon := t }, ?_, h.honest.deliver j, hsound,
      ?_⟩
    · simp only [Room.step, ht, ok_bind]
    · rw [hsub, List.cons_append, ← List.map_append]
      unfold colors Net.deliver
      rw [List.flatMap_append]
  | serial revents data =>
    obtain ⟨t, ht, hf⟩ := h.handle (k := k) (a := .serial revents data) rfl
    exact ⟨_, by simp only [Room.step, ht, ok_bind], hf⟩
  | key c =>
    obtain ⟨t, ht, hf⟩ := h.handle (k := k) (a := .key c) rfl
    exact ⟨_, by simp only [Room.step, ht, ok_bind], hf⟩

theorem Faithful.run (events : List Event) {room : Room} (h : room.Faithful) :
    ∃ room', events.foldlM (fun room e => room.step loMessage k.toKernel e) room =
      .ok room' ∧ room'.Faithful := by
  induction events generalizing room with
  | nil => exact ⟨room, rfl, h⟩
  | cons e events ih =>
    obtain ⟨room₁, h₁, hf₁⟩ := h.step hlo (k := k) e
    obtain ⟨room₂, h₂, hf₂⟩ := ih hf₁
    exact ⟨room₂, by rw [List.foldlM_cons, h₁]; exact h₂, hf₂⟩

end Encoding

theorem faithful_start (k : HealthyKernel) (logMask : BitVec 32) :
    ∃ d, Daemon.start k.toKernel logMask = .ok d ∧ (start d).Faithful := by
  obtain ⟨d, hd, hsound⟩ := start_ok k logMask
  refine ⟨d, hd, Net.honest_empty, hsound, ?_⟩
  rcases start_cases k.toKernel logMask with ⟨e, he, -, hsub⟩ | ⟨_, _, he, -⟩
  · obtain rfl := Except.ok.inj (hd.symm.trans he)
    exact hsub
  · rw [hd] at he
    cases he

/-- Whatever the clients do and the network makes of it, the messages that arrive were sent,
and what the lamp has received is the start of the initialization command and of one colour
command for each message that arrived. -/
theorem room_faithful {loMessage : LoMessage} (hlo : OscEncoding loMessage) (k : HealthyKernel)
    (logMask : BitVec 32) (events : List Event) :
    ∃ room, run loMessage k.toKernel logMask events = .ok room ∧
      (∀ m ∈ room.net.delivered, m ∈ room.net.sent) ∧
      room.daemon.serial.submitted.flatten = ascii "q\n" ++ LampColor.stream room.colors ∧
      room.daemon.serial.accepted <+: ascii "q\n" ++ LampColor.stream room.colors := by
  obtain ⟨d, hd, hstart⟩ := faithful_start k logMask
  obtain ⟨room, hroom, hf⟩ := hstart.run hlo (k := k) events
  have hstream : room.daemon.serial.submitted.flatten =
      ascii "q\n" ++ LampColor.stream room.colors := by
    rw [hf.submitted, List.flatten_cons, LampColor.stream, List.flatMap_def]
  refine ⟨room, ?_, hf.honest.delivered, hstream, ?_⟩
  · unfold run
    rw [hd]
    exact hroom
  · rw [← hstream, ← hf.sound.conserved]
    exact List.prefix_append _ _

/-- A colour that is picked and delivered. -/
def onePick : List Event := [.pick ⟨0xffff, 0x8000, 0⟩, .deliver 0]

theorem room_faithful_onePick :
    ∃ room, run oscMessage blocked.toKernel 0 onePick = .ok room ∧
      (∀ m ∈ room.net.delivered, m ∈ room.net.sent) ∧
      room.daemon.serial.submitted.flatten = ascii "q\n" ++ LampColor.stream room.colors ∧
      room.daemon.serial.accepted <+: ascii "q\n" ++ LampColor.stream room.colors :=
  room_faithful oscEncoding_oscMessage blocked 0 onePick

end Room

namespace Panel

end Panel

end Moodpd
