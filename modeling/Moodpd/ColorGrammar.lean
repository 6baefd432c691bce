import Moodpd.DaemonRuns

/-!
# The grammar of colour messages

The documented text of a `#` message is six hexadecimal digits. The daemon counts the
conversions of `sscanf` instead, and takes any text that starts with three of its fields.
-/
namespace Moodpd
open Memory HexText Daemon

/-- A text that starts with three fields of `%02x`. -/
def ThreeFields (text : List UInt8) : Prop := ∃ vs, vs.length = 3 ∧ Fields text vs

/-- The datagram of a colour message. -/
def colorDatagram (msg : List UInt8) : List UInt8 := magic ++ color :: msg

/-- The answer to a bad colour string. -/
def BadColor (s s' : Daemon) : Prop :=
  ∃ text, s' = s.flog .error "bad color string %s\n" [.text text]

/-- Whatever a colour message submits, it has the documented text, and with any other text it
is reported as a bad colour string and submits nothing. -/
def OnlyDocumented (msg : List UInt8) : Prop :=
  ∀ (k : HealthyKernel) (stale : Stale) (s : Daemon),
    ∃ s', s.handle k.toKernel (.command stale (some (colorDatagram msg))) = .ok s' ∧
      (s'.serial.submitted ≠ s.serial.submitted → DigitText 6 (messageText msg)) ∧
      (¬ DigitText 6 (messageText msg) →
        s'.serial.submitted = s.serial.submitted ∧ BadColor s s')

theorem take_colorDatagram (msg : List UInt8) :
    (colorDatagram msg).take maxPacketSize = colorDatagram (receivedMessage msg) :=
  take_datagram color msg

/-- Every message that is not empty reaches the colour parser. -/
theorem handle_color (k : Kernel) (stale : Stale) {msg : List UInt8} (hmsg : msg ≠ [])
    (s : Daemon) : s.handle k (.command stale (some (colorDatagram msg))) =
      if (sscanf [2, 2, 2] (messageText (receivedMessage msg))).1 ≠ 3 then
        .ok (s.flog .error "bad color string %s\n" [.text (messageText (receivedMessage msg))])
      else s.writeCommandF k colorFormat (sscanf [2, 2, 2] (messageText (receivedMessage msg))).2 := by
  have hne : receivedMessage msg ≠ [] := by
    obtain ⟨b, t, rfl⟩ := List.exists_cons_of_ne_nil hmsg
    exact List.cons_ne_nil b _
  have hacc : Accepted (colorDatagram (receivedMessage msg)) := accepted_datagram.mpr hne
  obtain ⟨b, post, -, hh⟩ := handle_command k stale (some (colorDatagram msg)) s
  rw [Option.getD_some, take_colorDatagram] at hh
  rw [hh, receiveCommand_of_accepted k hacc]
  exact parseMessage_color k rfl post s (message_length (take_colorDatagram msg ▸
    List.length_take_le _ _)) _

/-- With too few fields a message is reported and submits nothing. -/
theorem handle_color_bad (k : Kernel) (stale : Stale) {msg : List UInt8} (hmsg : msg ≠ [])
    (hno : ¬ ThreeFields (messageText (receivedMessage msg))) (s : Daemon) :
    s.handle k (.command stale (some (colorDatagram msg))) =
      .ok (s.flog .error "bad color string %s\n" [.text (messageText (receivedMessage msg))]) := by
  rw [handle_color k stale hmsg]
  rcases colorScan_cases (messageText (receivedMessage msg)) with ⟨r, g, b, hf, -⟩ | ⟨hne, -⟩
  · exact absurd ⟨[r, g, b], rfl, hf⟩ hno
  · exact if_pos hne

/-- With three fields a message submits a command, whatever follows them. -/
theorem handle_color_fields (k : HealthyKernel) (stale : Stale) {msg : List UInt8}
    (hmsg : msg ≠ []) (h : ThreeFields (messageText (receivedMessage msg))) (s : Daemon) :
    ∃ s' c, s.handle k.toKernel (.command stale (some (colorDatagram msg))) = .ok s' ∧
      s'.serial.submitted = s.serial.submitted ++ [c] := by
  rcases colorScan_cases (messageText (receivedMessage msg)) with ⟨r, g, b, -, hs⟩ | ⟨-, hno⟩
  · obtain ⟨s', hs', -, hw⟩ := writeCommandF_ok k
      (show 0 < (format colorFormat [r, g, b]).length by simp [colorFormat, format])
      (le_trans (format_length_le _ _) (by decide)) s
    have hh := handle_color k.toKernel stale hmsg s
    rw [hs, if_neg (by simp)] at hh
    exact ⟨s', format colorFormat [r, g, b], hh.trans hs', hw.submitted⟩
  · exact absurd h hno

/-- An empty message fails the header check and is reported as a malformed packet. -/
theorem empty_color_malformed (k : Kernel) (stale : Stale) (s : Daemon) :
    s.handle k (.command stale (some (colorDatagram []))) =
      .ok (s.flog .error "received malformed packet from %s.\n" [.system]) := by
  obtain ⟨b, post, hpost, hh⟩ := handle_command k stale (some (colorDatagram [])) s
  rw [Option.getD_some, take_colorDatagram] at hh hpost
  rw [hh, receiveCommand_of_not_accepted k (by decide) b hpost]
  exact congrArg Except.ok (if_neg (by decide))

/-- The colour parser accepts only the documented text exactly for the messages that are not
empty and have this text or fewer than three fields. -/
theorem only_documented_iff (msg : List UInt8) :
    OnlyDocumented msg ↔ msg ≠ [] ∧
      (DigitText 6 (messageText msg) ∨ ¬ ThreeFields (messageText (receivedMessage msg))) := by
  constructor
  · intro h
    obtain ⟨s', hs', hsub, hbad⟩ := h blocked (.replicate 1025 0) idle
    have hmsg : msg ≠ [] := by
      rintro rfl
      rw [empty_color_malformed] at hs'
      obtain ⟨-, text, ht⟩ := hbad (by decide)
      rw [← Except.ok.inj hs'] at ht
      have hfmt : ["received malformed packet from %s.\n"] = ["bad color string %s\n"] :=
        congrArg (fun s => s.console.map LogLine.fmt) ht
      exact absurd hfmt (by decide)
    refine ⟨hmsg, ?_⟩
    by_cases hfields : ThreeFields (messageText (receivedMessage msg))
    · obtain ⟨t, c, ht, hc⟩ := handle_color_fields blocked (.replicate 1025 0) hmsg hfields idle
      rw [← Except.ok.inj (hs'.symm.trans ht)] at hc
      refine .inl (hsub ?_)
      rw [hc]
      exact fun he => List.cons_ne_nil c [] (List.append_right_eq_self.mp he)
    · exact .inr hfields
  · rintro ⟨hmsg, hcond⟩ k stale s
    by_cases hfields : ThreeFields (messageText (receivedMessage msg))
    · obtain ⟨s', c, hs', -⟩ := handle_color_fields k stale hmsg hfields s
      have hsix : DigitText 6 (messageText msg) := by
        rcases hcond with hsix | hno
        · exact hsix
        · exact absurd hfields hno
      exact ⟨s', hs', fun _ => hsix, fun hno => absurd hsix hno⟩
    · have hserial := congrArg Prod.snd (flog_lamp .error "bad color string %s\n"
        [.text (messageText (receivedMessage msg))] s)
      have hsame : (s.flog .error "bad color string %s\n"
          [.text (messageText (receivedMessage msg))]).serial = s.serial := hserial
      exact ⟨_, handle_color_bad k.toKernel stale hmsg hfields s,
        fun hne => absurd (by rw [hsame]) hne, fun _ => ⟨by rw [hsame], _, rfl⟩⟩

/-- Three short fields with white space between them are taken for a colour. -/
theorem spaced_color_accepted : ¬ OnlyDocumented (ascii "1 2 3") := by
  intro h
  obtain ⟨s', hs', hsub, -⟩ := h blocked (.replicate 1025 0) idle
  have hf : ThreeFields (messageText (receivedMessage (ascii "1 2 3"))) :=
    ⟨[1, 2, 3], rfl, (fields_iff rfl).mpr (by decide)⟩
  obtain ⟨t, c, ht, hc⟩ := handle_color_fields blocked (.replicate 1025 0) (by decide) hf idle
  rw [← Except.ok.inj (hs'.symm.trans ht)] at hc
  exact absurd (hsub (by rw [hc]; exact List.cons_ne_nil c [])) (by decide)

end Moodpd
