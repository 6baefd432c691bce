import Moodpd.DaemonRuns
import Moodpd.OscMalformed

/-!
# OSC datagrams are acted on as a whole

A malformed part at any depth keeps the daemon from acting on any message of a datagram,
except that a blob of wrapping size counts as an argument without bytes.
-/
namespace Moodpd
open Memory HexText Oscpkt Daemon

/-- With a malformed part, a received datagram submits nothing. -/
def AllOrNothing (d : List UInt8) : Prop :=
  Malformed (d.take oscBufferSize) → ∀ (k : HealthyKernel) (s : Daemon),
    ∃ s', s.handle k.toKernel (.osc (some d)) = .ok s' ∧ s'.serial.submitted = s.serial.submitted

theorem handle_osc_ok (k : HealthyKernel) (d : List UInt8) (s : Daemon) :
    ∃ s', s.handle k.toKernel (.osc (some d)) = .ok s' ∧
      s'.serial.submitted = s.serial.submitted ++ oscChunks (d.take oscBufferSize) := by
  obtain ⟨s', hs', -, -, hsub⟩ := handle_ok k (.osc (some d)) s
  exact ⟨s', hs', hsub⟩

theorem oscChunks_eq_nil {d : List UInt8} {w : Bool} {cs : List Content} (h : Packet w d cs) :
    oscChunks d = [] ↔ ∀ c ∈ cs, ¬ c.IsRequest := by
  unfold oscChunks
  rw [contents_of_packet h, List.flatMap_eq_nil_iff]
  simp only [← contentChunks_ne_nil, not_not]

/-- A datagram is acted on as a whole or not at all exactly when it is not a request next to
a blob of wrapping size. -/
theorem all_or_nothing_iff (d : List UInt8) : AllOrNothing d ↔
    ¬ ∃ cs, Packet true (d.take oscBufferSize) cs ∧ ∃ c ∈ cs, c.IsRequest := by
  have hlen : (d.take oscBufferSize).length < 2 ^ 32 :=
    lt_of_le_of_lt (List.length_take_le _ _) (by decide)
  constructor
  · rintro h ⟨cs, hp, c, hc, hreq⟩
    have hnil := (exists_ok_same_iff (handle_osc_ok blocked d idle)).mp
      (h (hp.malformed rfl hlen) blocked idle)
    exact (oscChunks_eq_nil hp).mp hnil c hc hreq
  · intro h hmal k s
    have hnil : oscChunks (d.take oscBufferSize) = [] := by
      by_cases hp : ∃ w cs, Packet w (d.take oscBufferSize) cs
      · obtain ⟨w, cs, hp⟩ := hp
        cases w with
        | false => exact absurd hmal (hp.not_malformed rfl)
        | true => exact (oscChunks_eq_nil hp).mpr fun c hc hreq => h ⟨cs, hp, c, hc, hreq⟩
      · unfold oscChunks
        rw [contents_of_no_packet hp]
        rfl
    exact (exists_ok_same_iff (handle_osc_ok k d s)).mpr hnil

/-- A request that switches the first lamp off. -/
def darkRequest : List UInt8 :=
  padded (ascii "/moodpd/lamps/00/rgb") ++ (padded (ascii ",iii") ++ List.replicate 12 0)

/-- A message whose blob declares 2^32-4 bytes. -/
def hugeBlob : List UInt8 := padded (ascii "/x") ++ (padded (44 :: ascii "bi") ++ wrappingSize)

def darkElements : List UInt8 :=
  toBigEndian 4 darkRequest.length ++ (darkRequest ++
    (toBigEndian 4 hugeBlob.length ++ (hugeBlob ++ [])))

/-- A bundle of the two. -/
def darkBundle : List UInt8 := bundleTag ++ (List.replicate 8 0 ++ darkElements)

/-- The request is carried out although the other message is malformed. -/
theorem darkBundle_acted_on : ¬ AllOrNothing darkBundle := by
  intro h
  have htake : darkBundle.take oscBufferSize = darkBundle :=
    List.take_of_length_le (by decide +kernel)
  have hblob : MalformedMessage hugeBlob :=
    .arguments rfl (by decide) (by decide) (.blob (by decide))
  have hmessage : Malformed hugeBlob := .message (by decide) (by decide) hblob
  have helements : MalformedElements darkElements :=
    .tail rfl (by decide) (.head rfl (by decide) hmessage)
  have hnil := (exists_ok_same_iff (handle_osc_ok blocked darkBundle idle)).mp
    (h (by rw [htake]; exact .bundle rfl rfl helements) blocked idle)
  have hchunks : oscChunks darkBundle = [ascii "i00000000\n"] := by decide +kernel
  rw [htake, hchunks] at hnil
  exact List.cons_ne_nil _ _ hnil

end Moodpd
