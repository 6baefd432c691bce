import Moodpd.DaemonRuns

/-!
# Datagrams cannot bring the daemon down

A datagram is handled in a memory that ends behind the received bytes and their terminator,
where any further access is a fault. Handling ends there without one, except that the header
check reads four bytes of a command datagram of one or two.
-/
namespace Moodpd
open Memory HexText Oscpkt Daemon

inductive Port
  | command
  | osc
  deriving DecidableEq, Repr

def Port.arrival (port : Port) (stale : Stale) (d : List UInt8) : Arrival :=
  match port with
  | .command => .command stale (some d)
  | .osc => .osc (some d)

namespace Daemon

/-- A datagram handled in a memory cut behind the terminator. An OSC message is read within
its own copy, and its address with its own terminator, in any case. -/
def confined (k : Kernel) (port : Port) (d : List UInt8) (s : Daemon) : Except Halt Daemon :=
  match port with
  | .command =>
    let received := d.take maxPacketSize
    s.receiveCommand k (received ++ [0]) received.length
  | .osc => s.receiveOsc k (some d)

/-- The bytes behind the terminator do not matter to a message. -/
theorem parseMessage_post (k : Kernel) (type : UInt8) {pre : List UInt8} {message : ℕ}
    (hpre : pre.length = message) {msg : List UInt8} (hfit : msg.length < 2 ^ 31)
    (post post' : List UInt8) (s : Daemon) :
    s.parseMessage k type (pre ++ (msg ++ 0 :: post)) message msg.length =
      s.parseMessage k type (pre ++ (msg ++ 0 :: post')) message msg.length := by
  by_cases hraw : type = rawMsg
  · rw [hraw, parseMessage_raw k hpre, parseMessage_raw k hpre]
  by_cases hcolor : type = color
  · rw [hcolor, parseMessage_color k hpre _ _ hfit, parseMessage_color k hpre _ _ hfit]
  · unfold parseMessage
    rw [if_neg hraw, if_neg hcolor, if_neg hraw, if_neg hcolor]

/-- Nor do they to a datagram, nor does what stood in the terminator's place, where the magic
can be read at all. -/
theorem receiveCommand_post (k : Kernel) {d : List UInt8} (hd : d.length ≤ maxPacketSize)
    (b b' : UInt8) {post post' : List UInt8}
    (hpost : 4 ≤ d.length + 1 + post.length) (hpost' : 4 ≤ d.length + 1 + post'.length)
    (s : Daemon) : s.receiveCommand k (d ++ b :: post) d.length =
      s.receiveCommand k (d ++ b' :: post') d.length := by
  by_cases h : Accepted d
  · have hpre : (d.take 5).length = packetSize := List.length_take_of_le (by have := h.2; omega)
    rw [receiveCommand_of_accepted k h, receiveCommand_of_accepted k h]
    exact parseMessage_post k _ hpre (message_length hd) _ _ s
  · rw [receiveCommand_of_not_accepted k h b hpost, receiveCommand_of_not_accepted k h b' hpost']

/-- Where the magic can be read, the confined memory is as good as the receive buffer. -/
theorem handle_confined (k : Kernel) (port : Port) {d : List UInt8}
    (h : port = .command → d = [] ∨ 3 ≤ d.length) (stale : Stale) (s : Daemon) :
    s.handle k (port.arrival stale d) = s.confined k port d := by
  cases port with
  | osc => rfl
  | command =>
    obtain ⟨b, post, hpost, hh⟩ := handle_command k stale (some d) s
    rw [Option.getD_some] at hh hpost
    refine hh.trans ?_
    rcases h rfl with rfl | hlen
    · rfl
    · have hmin : 3 ≤ (d.take maxPacketSize).length := by
        rw [List.length_take]
        exact le_min (by decide) hlen
      exact receiveCommand_post k (List.length_take_le _ _) b 0 hpost (by rw [List.length_nil]; omega) s

/-- The header check reads past the terminator of a datagram of one or two bytes. -/
theorem confined_short (k : Kernel) {d : List UInt8} (h : d.length = 1 ∨ d.length = 2)
    (s : Daemon) : s.confined k .command d = .error (.fault .outOfBounds) := by
  have htake : d.take maxPacketSize = d := List.take_of_length_le (by unfold maxPacketSize; omega)
  have hw := write_append (rfl : d.length = d.length) 0 0 []
  have hr : readRange (d ++ [0]) 0 4 = .error .outOfBounds := by
    unfold readRange
    rw [if_neg (by rw [List.length_append, List.length_singleton]; omega)]
  unfold confined receiveCommand accept malformed
  simp only [htake, hw, ok_bind, hr, error_bind]
  exact if_neg (by omega)

end Daemon

/-- A datagram is handled to the end inside its memory, and the daemon does the same over
any prior content of its buffer. -/
def Survives (k : Kernel) (port : Port) (d : List UInt8) (s : Daemon) : Prop :=
  ∃ s', s.confined k port d = .ok s' ∧ ∀ stale, s.handle k (port.arrival stale d) = .ok s'

/-- A datagram on either port is handled to the end, with no access outside the received data
and its terminator, no assertion broken and no call of `fail`, exactly when it is not a
command datagram of one or two bytes. -/
theorem survives_iff (k : HealthyKernel) (port : Port) (d : List UInt8) (s : Daemon) :
    Survives k.toKernel port d s ↔ ¬ (port = .command ∧ (d.length = 1 ∨ d.length = 2)) := by
  constructor
  · rintro ⟨s', hs, -⟩ ⟨rfl, hlen⟩
    rw [confined_short k.toKernel hlen s] at hs
    cases hs
  · intro h
    have hlen : port = .command → d = [] ∨ 3 ≤ d.length := by
      intro hport
      by_cases hd : d.length = 0
      · exact .inl (List.length_eq_zero_iff.mp hd)
      · refine .inr (by_contra fun hlt => h ⟨hport, by omega⟩)
    have hsame := handle_confined k.toKernel port hlen
    obtain ⟨s', hs⟩ := handle_total k s (port.arrival (.replicate 1025 0) d)
    refine ⟨s', ?_, fun stale => ?_⟩
    · rw [← hsame (.replicate 1025 0) s, hs]
    · rw [hsame stale s, ← hsame (.replicate 1025 0) s, hs]

/-- Two of the four bytes compared with the magic lie behind the terminator. -/
theorem one_byte_unsafe : ¬ Survives blocked.toKernel .command (ascii "m") idle := by
  rintro ⟨s', hs, -⟩
  rw [confined_short blocked.toKernel (.inl rfl) idle] at hs
  cases hs

end Moodpd
