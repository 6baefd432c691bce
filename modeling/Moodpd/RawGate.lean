import Moodpd.DaemonRuns

/-!
# The gate for raw messages

Raw messages that arrive while raw mode is off leave no trace: what the lamp receives is a
function of the other inputs.
-/
namespace Moodpd
open Memory HexText Daemon

/-- A datagram of type `!`. -/
def isRawDatagram (datagram : Option (List UInt8)) : Prop :=
  (datagram.getD []).getD 4 0 = rawMsg

instance (datagram : Option (List UInt8)) : Decidable (isRawDatagram datagram) :=
  inferInstanceAs (Decidable (_ = _))

/-- An input, without the prior content of the receive buffer. -/
inductive Event
  | command (datagram : Option (List UInt8))
  | key (c : Option UInt8)
  | osc (packet : Option (List UInt8))
  deriving DecidableEq

/-- The inputs that are left when the raw datagrams that arrive after an even number of `r`
keys are dropped, and with them the events of the serial link. -/
def heard (keys : ℕ) : List Arrival → List Event
  | [] => []
  | .command _ datagram :: as =>
    if keys % 2 = 0 ∧ isRawDatagram datagram then heard keys as
    else .command datagram :: heard keys as
  | .serial _ _ :: as => heard keys as
  | .key c :: as => .key c :: heard (if c = some 114 then keys + 1 else keys) as
  | .osc packet :: as => .osc packet :: heard keys as

def rKeys (as : List Arrival) : ℕ := as.count (.key (some 114))

/-- The event of an arrival that is not of the serial link. -/
def eventOf : Arrival → Option Event
  | .command _ datagram => some (.command datagram)
  | .serial _ _ => none
  | .key c => some (.key c)
  | .osc packet => some (.osc packet)

def unheard (raw : Bool) : Arrival → Bool
  | .command _ datagram => !raw && isRawDatagram datagram
  | .serial _ _ => true
  | .key _ => false
  | .osc _ => false

theorem messageChunks_raw_off (msg : List UInt8) : messageChunks false rawMsg msg = [] := by
  simp [messageChunks]

theorem unheard_silent (raw : Bool) (a : Arrival) (h : unheard raw a = true) :
    lampTransducer.next raw a = raw ∧ lampTransducer.out raw a = [] := by
  cases a with
  | command stale datagram =>
    simp only [unheard, Bool.and_eq_true, Bool.not_eq_true', decide_eq_true_eq] at h
    obtain ⟨rfl, hraw⟩ := h
    have htype : ((datagram.getD []).take maxPacketSize).getD 4 0 = rawMsg := by
      rw [← hraw]
      simp [List.getD_eq_getElem?_getD, maxPacketSize]
    refine ⟨gate_command false stale datagram, ?_⟩
    simp only [lampTransducer_out, emits, commandChunks, htype, messageChunks_raw_off, ite_self]
  | serial revents data => exact ⟨gate_serial raw revents data, rfl⟩
  | key c => cases h
  | osc packet => cases h

theorem eventOf_view (raw : Bool) (a b : Arrival) (h : eventOf a = eventOf b) :
    lampTransducer.next raw a = lampTransducer.next raw b ∧
      lampTransducer.out raw a = lampTransducer.out raw b := by
  cases a <;> cases b <;> simp only [eventOf, reduceCtorEq, Option.some.injEq, Event.command.injEq,
    Event.key.injEq, Event.osc.injEq] at h
  · subst h
    simp [emits]
  · simp [emits]
  · subst h
    exact ⟨rfl, rfl⟩
  · subst h
    exact ⟨rfl, rfl⟩

/-- The inputs that are heard are those the abstract daemon does not skip. -/
theorem heard_eq (keys : ℕ) (as : List Arrival) :
    (lampTransducer.audible unheard (decide (keys % 2 = 1)) as).map eventOf =
      (heard keys as).map some := by
  induction as generalizing keys with
  | nil => rfl
  | cons a as ih =>
    rw [Transducer.audible]
    cases a with
    | command stale datagram =>
      rw [heard]
      by_cases h : keys % 2 = 0 ∧ isRawDatagram datagram
      · rw [if_pos h, if_pos (by simp [unheard, h])]
        exact ih keys
      · have hno : ¬ unheard (decide (keys % 2 = 1)) (.command stale datagram) = true := by
          simp only [unheard, Bool.and_eq_true, Bool.not_eq_true', decide_eq_false_iff_not,
            decide_eq_true_eq, Nat.mod_two_ne_one]
          exact h
        rw [if_neg h, if_neg hno, lampTransducer_next, gate_command, List.map_cons, List.map_cons,
          ih keys]
        rfl
    | serial revents data =>
      have hyes : unheard (decide (keys % 2 = 1)) (.serial revents data) = true := rfl
      rw [heard, if_pos hyes]
      exact ih keys
    | key c =>
      have hparity : lampTransducer.next (decide (keys % 2 = 1)) (.key c) =
          decide ((if c = some 114 then keys + 1 else keys) % 2 = 1) := by
        rw [lampTransducer_next, gate_key]
        split_ifs
        · rw [← decide_not]
          apply decide_eq_decide.mpr
          omega
        · rfl
      rw [heard, if_neg (by simp [unheard]), hparity, List.map_cons, List.map_cons, ih]
      rfl
    | osc packet =>
      rw [heard, if_neg (by simp [unheard]), lampTransducer_next, gate_osc, List.map_cons,
        List.map_cons, ih keys]
      rfl

/-- The raw mode is the parity of the `r` keys. -/
theorem final_eq_parity (raw : Bool) (as : List Arrival) :
    lampTransducer.final raw as = (raw ^^ decide (rKeys as % 2 = 1)) := by
  induction as generalizing raw with
  | nil => simp [rKeys]
  | cons a as ih =>
    rw [Transducer.final_cons, ih, lampTransducer_next, rKeys, rKeys, List.count_cons]
    by_cases ha : a = .key (some 114)
    · have hg : gate raw a = !raw := if_pos ha
      have hodd : decide ((as.count (.key (some 114)) + 1) % 2 = 1) =
          !decide (as.count (.key (some 114)) % 2 = 1) := by
        rw [← decide_not]
        apply decide_eq_decide.mpr
        omega
      rw [hg, if_pos (by simpa using ha), hodd, Bool.not_xor, Bool.xor_not]
    · have hg : gate raw a = raw := if_neg ha
      rw [hg, if_neg (by simpa using ha), Nat.add_zero]

/-- A well-formed raw datagram that fits in the receive buffer. -/
structure WellFormedRaw (d : List UInt8) : Prop where
  magic : d.take 4 = magic
  type : d.getD 4 0 = rawMsg
  size : 6 ≤ d.length
  fits : d.length ≤ maxPacketSize

theorem emits_raw {d : List UInt8} (h : WellFormedRaw d) (stale : Stale) :
    emits true (.command stale (some d)) = [d.drop 5] := by
  have htake : d.take maxPacketSize = d := List.take_of_length_le h.fits
  simp only [emits, Option.getD_some, htake, commandChunks, if_pos (show Accepted d from
    ⟨h.magic, h.size⟩), h.type, messageChunks, if_true]

/-- Two runs that hear the same inputs submit the same chunks and end in the same raw mode,
which no datagram changes. A raw datagram after an odd number of `r` keys is submitted as it
is, in one chunk. -/
theorem raw_gate (k k' : HealthyKernel) (m m' : BitVec 32) :
    (∀ as bs, heard 0 as = heard 0 bs →
      ∃ s t, live k.toKernel m as = .ok s ∧ live k'.toKernel m' bs = .ok t ∧
        s.serial.submitted = t.serial.submitted ∧ s.allowRawMode = t.allowRawMode) ∧
    (∀ (s : Daemon) (a : Arrival), (∀ c, a ≠ .key c) →
      ∃ t, s.handle k.toKernel a = .ok t ∧ t.allowRawMode = s.allowRawMode) ∧
    ∀ as stale d, rKeys as % 2 = 1 → WellFormedRaw d →
      ∃ s t, live k.toKernel m as = .ok s ∧
        s.handle k.toKernel (.command stale (some d)) = .ok t ∧
        t.serial.submitted = s.serial.submitted ++ [d.drop 5] := by
  refine ⟨fun as bs h => ?_, fun s a ha => ?_, fun as stale d hodd hd => ?_⟩
  · obtain ⟨s, hs, hraw, hsub⟩ := live_ok k m as
    obtain ⟨t, ht, hraw', hsub'⟩ := live_ok k' m' bs
    have hview := (heard_eq 0 as).trans ((congrArg (List.map some) h).trans (heard_eq 0 bs).symm)
    obtain ⟨ho, hf⟩ := lampTransducer.noninterference unheard_silent eventOf_view hview
    have h0 : decide (0 % 2 = 1) = false := rfl
    rw [h0] at ho hf
    exact ⟨s, t, hs, ht, by rw [hsub, hsub', ho], by rw [hraw, hraw', hf]⟩
  · obtain ⟨t, ht, -, hraw, -⟩ := handle_ok k a s
    exact ⟨t, ht, hraw.trans (if_neg (ha _))⟩
  · obtain ⟨s, hs, hraw, -⟩ := live_ok k m as
    obtain ⟨t, ht, -, -, hsub⟩ := handle_ok k (.command stale (some d)) s
    rw [final_eq_parity, hodd] at hraw
    refine ⟨s, t, hs, ht, ?_⟩
    rw [hsub, hraw]
    exact congrArg _ (emits_raw hd stale)

/-- A raw message before the key `r` is not heard, and after it is submitted. -/
theorem raw_gate_one_key :
    (∃ s t, live blocked.toKernel 2
          [.command (.replicate 1025 0) (some (ascii "m00d!x")), .key (some 114)] = .ok s ∧
        live blocked.toKernel 0 [.key (some 114)] = .ok t ∧
        s.serial.submitted = t.serial.submitted ∧ s.allowRawMode = t.allowRawMode) ∧
    ∃ s t, live blocked.toKernel 2 [.key (some 114)] = .ok s ∧
      s.handle blocked.toKernel (.command (.replicate 1025 0) (some (ascii "m00d!x"))) = .ok t ∧
      t.serial.submitted = s.serial.submitted ++ [(ascii "m00d!x").drop 5] :=
  ⟨(raw_gate blocked blocked 2 0).1 _ _ (by decide),
    (raw_gate blocked blocked 2 0).2.2 _ _ _ (by decide)
      ⟨by decide, by decide, by decide, by decide⟩⟩

end Moodpd
