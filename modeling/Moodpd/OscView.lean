import Moodpd.LampView

/-!
# What the lamp sees of an OSC packet

A packet of the grammar submits the chunks of its messages in order, and any other datagram
nothing. A message submits a chunk when it is one of the two documented requests.
-/
namespace Moodpd
open Memory HexText Oscpkt

/-- The content of a message that was read, the payload starting at the first argument. -/
def Oscpkt.Message.content (msg : Message) : Content where
  address := msg.address
  typeTags := msg.typeTags
  payload := msg.storage.drop ((msg.arguments.head?.map Prod.fst).getD msg.storage.length)

theorem content_of_represents {msg : Message} {c : Content} (h : Represents msg c) :
    msg.content = c := by
  obtain ⟨p, hdrop, hpos⟩ := h.arguments
  have hp : (msg.arguments.head?.map Prod.fst).getD msg.storage.length = p := by
    generalize msg.arguments = args, c.typeTags = tags at hpos
    cases hpos with
    | nil => rfl
    | cons _ _ => rfl
  unfold Message.content
  rw [hp, hdrop, h.address, h.typeTags]

/-- The contents of the messages that a datagram makes the daemon act on. -/
def contents (d : List UInt8) : List Content :=
  match PacketReader.init d with
  | .ok pr => if pr.isOk then pr.messages.map Message.content else []
  | .error _ => []

theorem map_content {ms : List Message} {cs : List Content} (h : List.Forall₂ Represents ms cs) :
    ms.map Message.content = cs := by
  induction h with
  | nil => rfl
  | cons head _ ih => rw [List.map_cons, content_of_represents head, ih]

theorem contents_of_packet {w : Bool} {d : List UInt8} {cs : List Content} (h : Packet w d cs) :
    contents d = cs := by
  obtain ⟨ms, hm, hrep⟩ := init_of_packet h
  unfold contents
  rw [hm]
  exact map_content hrep

theorem contents_of_no_packet {d : List UInt8} (h : ¬ ∃ w cs, Packet w d cs) :
    contents d = [] := by
  rcases init_cases d with ⟨pr, hr, hne, -⟩ | ⟨w, cs, -, hp, -⟩
  · unfold contents
    simp [hr, PacketReader.isOk, hne]
  · exact absurd ⟨w, cs, hp⟩ h

/-- `"/moodpd/lamps/"`. -/
def lampsPrefix : List UInt8 := ascii "/moodpd/lamps/"

/-- `"/rgb"`. -/
def rgbSuffix : List UInt8 := ascii "/rgb"

/-- The text without a slash that stands for the wildcard of the lamp address. -/
def lampSegment (address : List UInt8) : Option (List UInt8) :=
  let seg := (address.drop lampsPrefix.length).take
    (address.length - (lampsPrefix.length + rgbSuffix.length))
  if address = lampsPrefix ++ (seg ++ rgbSuffix) ∧ 47 ∉ seg then some seg else none

theorem lampSegment_eq_some {address seg : List UInt8} :
    lampSegment address = some seg ↔ 47 ∉ seg ∧ address = lampsPrefix ++ (seg ++ rgbSuffix) := by
  constructor
  · intro h
    simp only [lampSegment] at h
    split_ifs at h with hs
    rw [← Option.some.inj h]
    exact ⟨hs.2, hs.1⟩
  · rintro ⟨hs, rfl⟩
    have hseg : ((lampsPrefix ++ (seg ++ rgbSuffix)).drop lampsPrefix.length).take
        ((lampsPrefix ++ (seg ++ rgbSuffix)).length - (lampsPrefix.length + rgbSuffix.length)) =
        seg := by
      rw [List.drop_left]
      apply List.take_left'
      simp only [List.length_append]
      omega
    unfold lampSegment
    simp only [hseg]
    rw [if_pos ⟨trivial, hs⟩]

theorem rgbPattern_match (address : List UInt8) :
    fullPatternMatch Daemon.rgbPattern address = .ok (lampSegment address).isSome := by
  have hp : Daemon.rgbPattern = lampsPrefix ++ 42 :: rgbSuffix := by decide
  obtain ⟨m, hm, hiff⟩ := fullPatternMatch_star
    (show Literal lampsPrefix (42 :: rgbSuffix) by decide) (show Literal rgbSuffix [] by decide) address
  rw [hp, hm]
  congr 1
  apply Bool.eq_iff_iff.mpr
  rw [hiff, Option.isSome_iff_exists]
  simp only [lampSegment_eq_some]

theorem oriPattern_match (address : List UInt8) :
    fullPatternMatch Daemon.oriPattern address = .ok (decide (address = Daemon.oriPattern)) :=
  fullPatternMatch_literal (by decide) address

/-- The lamp number of a segment, with the fallback to lamp 0. -/
def lampNumber (seg : List UInt8) : ℤ :=
  let lampIndex := (sscanf [2] (seg ++ rgbSuffix)).2.headD 0
  if lampIndex < 0 ∨ lampIndex > 255 then 0 else lampIndex

theorem lampNumber_range (seg : List UInt8) : 0 ≤ lampNumber seg ∧ lampNumber seg ≤ 255 := by
  unfold lampNumber
  simp only
  split_ifs with h
  · omega
  · omega

theorem lampIndex_of_segment {address seg : List UInt8} (h : lampSegment address = some seg)
    (h0 : 0 ∉ address) : Daemon.lampIndex address = .ok (lampNumber seg) := by
  obtain ⟨-, haddr⟩ := lampSegment_eq_some.mp h
  have hdrop : (address ++ [0]).drop (ascii "/moodpd/lamps/").length =
      (seg ++ rgbSuffix) ++ 0 :: [] := by
    rw [haddr, List.append_assoc]
    exact List.drop_left
  have hnul : 0 ∉ seg ++ rgbSuffix := fun hm => h0 (by rw [haddr]; exact List.mem_append_right _ hm)
  unfold Daemon.lampIndex
  rw [hdrop, cstring_append hnul]
  rfl

/-- The command of an rgb request. -/
def rgbChunk (r g b lamp : ℤ) : Chunk :=
  format Daemon.lampFormat [Daemon.clamp r, Daemon.clamp g, Daemon.clamp b, lamp]

/-- The command of an orientation request. -/
def oriChunk (r g b : ℤ) : Chunk :=
  format Daemon.colorFormat [Daemon.orientation r, Daemon.orientation g, Daemon.orientation b]

/-- What a message submits. -/
def contentChunks (c : Content) : List Chunk :=
  match c.int32s with
  | none => []
  | some (r, g, b) =>
    match lampSegment c.address with
    | some seg => [rgbChunk r g b (lampNumber seg)]
    | none => if c.address = Daemon.oriPattern then [oriChunk r g b] else []

/-- One of the two documented requests. -/
def Oscpkt.Content.IsRequest (c : Content) : Prop :=
  c.typeTags = [typeTagInt32, typeTagInt32, typeTagInt32] ∧
    ((∃ seg, 47 ∉ seg ∧ c.address = lampsPrefix ++ (seg ++ rgbSuffix)) ∨
      c.address = Daemon.oriPattern)

theorem contentChunks_ne_nil {c : Content} : contentChunks c ≠ [] ↔ c.IsRequest := by
  unfold contentChunks Content.IsRequest Content.int32s
  simp only [← lampSegment_eq_some]
  by_cases htags : c.typeTags = [typeTagInt32, typeTagInt32, typeTagInt32]
  · cases hseg : lampSegment c.address with
    | some seg => simp [htags]
    | none => simp [htags]
  · simp [htags]

/-- What a received OSC datagram submits. -/
def oscChunks (d : List UInt8) : List Chunk := (contents d).flatMap contentChunks

namespace Daemon

theorem handleMessage_view (k : Kernel) {msg : Message} {c : Content} (h : Represents msg c)
    (s : Daemon) : lampView (s.handleMessage k msg) = submits k (contentChunks c) s.lamp := by
  have hrgb := matchInt32s_of_represents h (rgbPattern_match c.address)
  have hori := matchInt32s_of_represents h (oriPattern_match c.address)
  unfold handleMessage contentChunks
  rw [hrgb, hori]
  cases hseg : lampSegment c.address with
  | some seg =>
    cases hargs : c.int32s with
    | some rgb =>
      obtain ⟨r, g, b⟩ := rgb
      have hlamp := lampIndex_of_segment hseg h.nul
      rw [← h.address] at hlamp
      simp only [Option.isSome_some, if_true, checked_ok, ok_bind, hlamp]
      rw [writeCommandF_view k (by simp [lampFormat, format])
        (le_trans (format_length_le _ _) (by simp [lampFormat])), flog_lamp]
      rfl
    | none =>
      simp
  | none =>
    by_cases hdec : c.address = oriPattern
    · cases hargs : c.int32s with
      | some rgb =>
        obtain ⟨r, g, b⟩ := rgb
        simp only [Option.isSome_none, Bool.false_eq_true, if_false, hdec, decide_true, if_true,
          checked_ok, ok_bind]
        rw [writeCommandF_view k (by simp [colorFormat, format])
          (le_trans (format_length_le _ _) (by simp [colorFormat])), flog_lamp]
        rfl
      | none => simp
    · cases hargs : c.int32s <;> simp [hdec]

theorem handleMessages_view (k : Kernel) {ms : List Message} {cs : List Content}
    (h : List.Forall₂ Represents ms cs) (s : Daemon) :
    lampView (ms.foldlM (fun s msg => s.handleMessage k msg) s) =
      submits k (cs.flatMap contentChunks) s.lamp := by
  induction h generalizing s with
  | nil => simp
  | cons head _ ih =>
    rw [List.foldlM_cons, List.flatMap_cons]
    exact lampView_bind (handleMessage_view k head s) fun s' _ => ih s'

theorem receiveOsc_view (k : Kernel) (d : List UInt8) (s : Daemon) :
    lampView (s.receiveOsc k (some d)) = submits k (oscChunks (d.take oscBufferSize)) s.lamp := by
  unfold receiveOsc oscChunks
  rcases init_cases (d.take oscBufferSize) with ⟨pr, hr, hne, hno⟩ | ⟨w, cs, ms, hp, hr, hrep⟩
  · rw [contents_of_no_packet hno]
    simp [hr, PacketReader.isOk, hne]
  · rw [contents_of_packet hp]
    simp only [hr, checked_ok, ok_bind, PacketReader.isOk, decide_true, if_true]
    rw [handleMessages_view k hrep, flog_lamp]

end Daemon

end Moodpd
