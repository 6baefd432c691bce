import Moodpd.LogMask

/-!
# Datagrams on the command port

A datagram is judged on its own bytes: what an earlier one left in the receive buffer has no
influence, although the magic is compared before the size is known to cover it.
-/
namespace Moodpd
open Memory HexText Daemon

/-- Whether a datagram is handed to `parseMessage`, over some prior content of the buffer. -/
def admitted (stale : Stale) (datagram : List UInt8) : Checked Bool :=
  let (mem, sz) := recvfrom stale datagram
  if sz = 0 then .ok false else (accept mem sz).map Option.isSome

theorem accepted_take {d : List UInt8} : Accepted (d.take maxPacketSize) ↔ Accepted d := by
  have h4 : (d.take maxPacketSize).take 4 = d.take 4 := by
    rw [List.take_take]
    rfl
  have hlen : 6 ≤ (d.take maxPacketSize).length ↔ 6 ≤ d.length := by
    rw [List.length_take, maxPacketSize]
    omega
  unfold Accepted
  rw [h4, hlen]

theorem admitted_eq (stale : Stale) (d : List UInt8) :
    admitted stale d = .ok (decide (Accepted d)) := by
  obtain ⟨b, post, hbuf, hpost⟩ := recvfrom_eq stale d
  unfold admitted
  rw [hbuf]
  simp only [accept_eq _ b hpost, accepted_take]
  by_cases hd : (d.take maxPacketSize).length = 0
  · have hno : ¬ Accepted d := fun h => by
      have := (accepted_take.mpr h).2
      omega
    simp [hd, hno]
  · rw [if_neg hd]
    by_cases h : Accepted d <;> simp [h, Except.map]

/-- An accepted datagram is handed to `parseMessage`, from the buffer it was received in. -/
theorem handle_accepted (k : Kernel) (stale : Stale) {d : List UInt8} (h : Accepted d)
    (s : Daemon) : ∃ post, s.handle k (.command stale (some d)) =
      s.parseMessage k (d.getD 4 0) (d.take maxPacketSize ++ 0 :: post) packetSize
        ((d.take maxPacketSize).length - packetSize) := by
  have hreceived : Accepted (d.take maxPacketSize) := accepted_take.mpr h
  obtain ⟨b, post, -, hh⟩ := handle_command k stale (some d) s
  rw [Option.getD_some] at hh
  have htype : (d.take maxPacketSize).getD 4 0 = d.getD 4 0 := by
    rw [List.getD_eq_getElem?_getD, List.getD_eq_getElem?_getD,
      List.getElem?_take_of_lt (by decide)]
  rw [receiveCommand_of_accepted k hreceived, ← header_append, htype, List.length_drop] at hh
  exact ⟨post, hh⟩

/-- One that is not accepted is logged. -/
theorem handle_rejected (k : Kernel) (stale : Stale) {d : List UInt8} (h : ¬ Accepted d)
    (s : Daemon) : s.handle k (.command stale (some d)) =
      .ok (if d = [] then s.logerror "recvfrom"
        else s.flog .error "received malformed packet from %s.\n" [.system]) := by
  obtain ⟨b, post, hpost, hh⟩ := handle_command k stale (some d) s
  rw [Option.getD_some] at hh hpost
  have hnil : d.take maxPacketSize = [] ↔ d = [] := by
    rw [List.take_eq_nil_iff]
    exact or_iff_right (by decide)
  rw [receiveCommand_of_not_accepted k (fun ha => h (accepted_take.mp ha)) b hpost] at hh
  simp only [hnil] at hh
  exact hh

/-- Over any two prior contents of the buffer, and in any two states of equal raw mode, a
datagram is accepted or not by its length and magic alone, and submits the same chunks. An
accepted one is handed to `parseMessage` with the message that was received. One that is not
accepted is logged, and leaves the queue, the raw mode and the log mask as they are. -/
theorem judged_alone (k : HealthyKernel) (d : List UInt8) (stale stale' : Stale) (s t : Daemon)
    (h : s.allowRawMode = t.allowRawMode) :
    admitted stale d = admitted stale' d ∧
    (admitted stale d = .ok true ↔ 6 ≤ d.length ∧ d.take 4 = ascii "m00d") ∧
    (admitted stale d = .ok true → ∃ post, s.handle k.toKernel (.command stale (some d)) =
      s.parseMessage k.toKernel (d.getD 4 0) (d.take maxPacketSize ++ 0 :: post) packetSize
        ((d.take maxPacketSize).length - packetSize)) ∧
    (admitted stale d ≠ .ok true → s.handle k.toKernel (.command stale (some d)) =
      .ok (if d = [] then s.logerror "recvfrom"
        else s.flog .error "received malformed packet from %s.\n" [.system])) ∧
    ∃ s' t' chunks, s.handle k.toKernel (.command stale (some d)) = .ok s' ∧
      t.handle k.toKernel (.command stale' (some d)) = .ok t' ∧
      s'.serial.submitted = s.serial.submitted ++ chunks ∧
      t'.serial.submitted = t.serial.submitted ++ chunks ∧
      (admitted stale d ≠ .ok true → s'.serial = s.serial ∧
        s'.allowRawMode = s.allowRawMode ∧ s'.logMask = s.logMask) := by
  have hadmitted : admitted stale d = .ok true ↔ Accepted d := by
    rw [admitted_eq, Except.ok.injEq, decide_eq_true_eq]
  refine ⟨by rw [admitted_eq, admitted_eq], hadmitted.trans and_comm, fun ha => ?_,
    fun ha => ?_, ?_⟩
  · exact handle_accepted k.toKernel stale (hadmitted.mp ha) s
  · exact handle_rejected k.toKernel stale (fun hacc => ha (hadmitted.mpr hacc)) s
  · obtain ⟨s', hs, -, -, hsub⟩ := handle_ok k (.command stale (some d)) s
    obtain ⟨t', ht, -, -, hsub'⟩ := handle_ok k (.command stale' (some d)) t
    refine ⟨s', t', emits s.allowRawMode (.command stale (some d)), hs, ht, hsub, ?_, ?_⟩
    · rw [hsub', ← h]
      rfl
    · intro ha
      have hmask := command_mask k.toKernel stale (some d) s s' hs
      have hlog := handle_rejected k.toKernel stale (fun hacc => ha (hadmitted.mpr hacc)) s
      have hlamp : s'.lamp = s.lamp := by
        rw [Except.ok.inj (hs.symm.trans hlog)]
        split_ifs <;> simp [logerror]
      exact ⟨congrArg Prod.snd hlamp, congrArg Prod.fst hlamp, hmask⟩

/-- Three bytes of the magic are rejected over a buffer of zeros as over one of letters. -/
theorem judged_alone_short :
    admitted (.replicate 1025 0) (ascii "m00") = admitted (.replicate 1025 100) (ascii "m00") ∧
    (admitted (.replicate 1025 0) (ascii "m00") = .ok true ↔
      6 ≤ (ascii "m00").length ∧ (ascii "m00").take 4 = ascii "m00d") ∧
    (admitted (.replicate 1025 0) (ascii "m00") = .ok true → ∃ post,
      idle.handle blocked.toKernel (.command (.replicate 1025 0) (some (ascii "m00"))) =
        idle.parseMessage blocked.toKernel ((ascii "m00").getD 4 0)
          ((ascii "m00").take maxPacketSize ++ 0 :: post) packetSize
          (((ascii "m00").take maxPacketSize).length - packetSize)) ∧
    (admitted (.replicate 1025 0) (ascii "m00") ≠ .ok true →
      idle.handle blocked.toKernel (.command (.replicate 1025 0) (some (ascii "m00"))) =
        .ok (if ascii "m00" = [] then idle.logerror "recvfrom"
          else idle.flog .error "received malformed packet from %s.\n" [.system])) ∧
    ∃ s' t' chunks,
      idle.handle blocked.toKernel (.command (.replicate 1025 0) (some (ascii "m00"))) = .ok s' ∧
      idle.handle blocked.toKernel (.command (.replicate 1025 100) (some (ascii "m00"))) = .ok t' ∧
      s'.serial.submitted = idle.serial.submitted ++ chunks ∧
      t'.serial.submitted = idle.serial.submitted ++ chunks ∧
      (admitted (.replicate 1025 0) (ascii "m00") ≠ .ok true → s'.serial = idle.serial ∧
        s'.allowRawMode = idle.allowRawMode ∧ s'.logMask = idle.logMask) :=
  judged_alone blocked (ascii "m00") _ _ idle idle rfl

end Moodpd
