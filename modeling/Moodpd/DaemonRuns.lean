import Moodpd.OscView
import Moodpd.Transducer

/-!
# Runs of the daemon

The daemon refines a transducer whose state is the raw mode alone and whose outputs are the
chunks submitted. With a kernel whose writes do not fail every run goes on for ever, and the
write queue stays sound in all of them.
-/
namespace Moodpd
open Memory HexText Oscpkt Daemon

/-- The chunks an arrival submits in a raw mode. -/
def emits (raw : Bool) : Arrival → List Chunk
  | .command _ datagram => commandChunks raw ((datagram.getD []).take maxPacketSize)
  | .serial _ _ => []
  | .key _ => []
  | .osc packet => (packet.map fun d => oscChunks (d.take oscBufferSize)).getD []

/-- The raw mode after an arrival: only the key `r` changes it. -/
def gate (raw : Bool) (a : Arrival) : Bool := if a = .key (some 114) then !raw else raw

/-- The daemon as the lamp sees it. -/
def lampTransducer : Transducer Bool Arrival Chunk := ⟨gate, emits⟩

@[simp] theorem lampTransducer_next (raw : Bool) (a : Arrival) :
    lampTransducer.next raw a = gate raw a := rfl

@[simp] theorem lampTransducer_out (raw : Bool) (a : Arrival) :
    lampTransducer.out raw a = emits raw a := rfl

/-- No datagram changes the raw mode. -/
@[simp] theorem gate_command (raw : Bool) (stale : Stale) (datagram : Option (List UInt8)) :
    gate raw (.command stale datagram) = raw := if_neg (by simp)

@[simp] theorem gate_serial (raw : Bool) (revents : BitVec 16) (data : List UInt8) :
    gate raw (.serial revents data) = raw := if_neg (by simp)

@[simp] theorem gate_osc (raw : Bool) (packet : Option (List UInt8)) :
    gate raw (.osc packet) = raw := if_neg (by simp)

theorem gate_key (raw : Bool) (c : Option UInt8) :
    gate raw (.key c) = if c = some 114 then !raw else raw := by
  simp [gate]

namespace Daemon

theorem handleKey_lamp (c : UInt8) (s : Daemon) :
    (s.handleKey c).lamp = (gate s.allowRawMode (.key (some c)), s.serial) := by
  unfold handleKey
  by_cases hr : c = 114
  · subst hr
    rfl
  · have hg : gate s.allowRawMode (.key (some c)) = s.allowRawMode := by simp [gate, hr]
    rw [hg]
    split_ifs <;> rfl

/-- The lamp view of a reaction to anything but the serial link. -/
theorem handle_view (k : Kernel) {a : Arrival} (ha : ∀ revents data, a ≠ .serial revents data)
    (s : Daemon) :
    lampView (s.handle k a) =
      submits k (emits s.allowRawMode a) (gate s.allowRawMode a, s.serial) := by
  cases a with
  | command stale datagram =>
    rw [gate_command]
    obtain ⟨b, post, hpost, hh⟩ := handle_command k stale datagram s
    rw [hh]
    exact receiveCommand_view k (List.length_take_le _ _) b hpost s
  | serial revents data => exact absurd rfl (ha revents data)
  | key c =>
    cases c with
    | none => rfl
    | some c =>
      unfold handle
      rw [lampView_ok, handleKey_lamp]
      rfl
  | osc packet =>
    rw [gate_osc]
    cases packet with
    | none =>
      unfold handle receiveOsc
      rw [lampView_ok, flog_lamp]
      rfl
    | some d => exact receiveOsc_view k d s

/-- What the serial branch does to the lamp view. Only here does the log level count. -/
def relay (k : Kernel) (info : Bool) (revents : BitVec 16) (data : List UInt8) (l : Lamp) :
    Except Halt Lamp :=
  if revents &&& POLLIN ≠ 0 ∧ info ∧ data.take 1023 = [] then .ok l
  else if revents &&& POLLOUT ≠ 0 then (l.2.flush k).map fun r => (l.1, r.2)
  else .ok l

theorem serialWritable_view (k : Kernel) (s : Daemon) :
    lampView (s.serialWritable k) = (s.serial.flush k).map fun r => (s.allowRawMode, r.2) := by
  have hl := flog_lamp .info "serial ready for writing. buffer size: %d\n"
    [.int s.serial.getWritebufferSize] s
  unfold serialWritable
  generalize s.flog .info "serial ready for writing. buffer size: %d\n"
    [.int s.serial.getWritebufferSize] = t at hl
  obtain ⟨hraw, hserial⟩ : t.allowRawMode = s.allowRawMode ∧ t.serial = s.serial := by
    simpa [lamp] using hl
  simp only [hserial]
  cases s.serial.flush k with
  | error e => rfl
  | ok r =>
    rw [ok_bind, lampView_ok, lamp, hraw]
    rfl

theorem handle_serial_view (k : Kernel) (revents : BitVec 16) (data : List UInt8) (s : Daemon) :
    lampView (s.handle k (.serial revents data)) =
      relay k (s.logs .info) revents data s.lamp := by
  unfold handle serialReady relay
  by_cases hskip : revents &&& POLLIN ≠ 0 ∧ s.logs .info = true ∧ data.take 1023 = []
  · simp only [if_pos hskip, lampView_ok]
  · simp only [if_neg hskip]
    by_cases hout : revents &&& POLLOUT ≠ 0
    · simp only [if_pos hout, serialWritable_view]
      split_ifs with hlog
      · have hl : (((s.flog .info "the mood lamp says: '" []).fprintf "%s"
            [.text (data.take 1023)]).fprintf "'\n" []).lamp = s.lamp := by simp
        obtain ⟨hraw, hserial⟩ := Prod.mk.inj hl
        rw [hraw, hserial]
        rfl
      · rfl
    · simp only [if_neg hout, lampView_ok]
      split_ifs <;> simp

/-- The effect of an arrival on the lamp view. -/
def lampStep (k : Kernel) (info : Bool) (a : Arrival) (l : Lamp) : Except Halt Lamp :=
  match a with
  | .serial revents data => relay k info revents data l
  | a => submits k (emits l.1 a) (gate l.1 a, l.2)

theorem handle_lamp (k : Kernel) (a : Arrival) (s : Daemon) :
    lampView (s.handle k a) = lampStep k (s.logs .info) a s.lamp := by
  cases a with
  | serial revents data => exact handle_serial_view k revents data s
  | command stale datagram => exact handle_view k (by simp) s
  | key c => exact handle_view k (by simp) s
  | osc packet => exact handle_view k (by simp) s

theorem of_lampView_ok {r : Except Halt Daemon} {l : Lamp} (h : lampView r = .ok l) :
    ∃ s, r = .ok s ∧ s.lamp = l := by
  cases r with
  | error e => simp [lampView, Except.map] at h
  | ok s => exact ⟨s, rfl, Except.ok.inj h⟩

theorem of_lampView_error {r : Except Halt Daemon} {e : Halt} (h : lampView r = .error e) :
    r = .error e := by
  cases r with
  | error e' => rw [Except.error.inj h]
  | ok s => simp at h

/-- A reaction that submits chunks ends with them submitted. -/
theorem of_submits (k : HealthyKernel) {r : Except Halt Daemon} {chunks : List Chunk} {s : Daemon}
    (h : lampView r = submits k.toKernel chunks s.lamp) :
    ∃ s', r = .ok s' ∧ s'.allowRawMode = s.allowRawMode ∧
      s'.serial.submitted = s.serial.submitted ++ chunks := by
  obtain ⟨w, hw, hsub⟩ := NonblockWriter.writeAll_ok k chunks s.serial
  have hsubmits : submits k.toKernel chunks s.lamp = .ok (s.allowRawMode, w) := by
    unfold submits
    rw [show s.lamp.2 = s.serial from rfl, hw]
    rfl
  obtain ⟨s', hs', hl⟩ := of_lampView_ok (h.trans hsubmits)
  obtain ⟨hraw, hserial⟩ := Prod.mk.inj hl
  exact ⟨s', hs', hraw, by rw [hserial, hsub]⟩

/-- A reaction that submits one chunk puts it at the end of the queue. -/
theorem of_submits_one (k : HealthyKernel) {r : Except Halt Daemon} {c : Chunk} {s : Daemon}
    (h : lampView r = submits k.toKernel [c] s.lamp) :
    ∃ s', r = .ok s' ∧ s'.allowRawMode = s.allowRawMode ∧
      NonblockWriter.Written c s.serial s'.serial := by
  obtain ⟨w, hw, hwritten⟩ := NonblockWriter.write_ok k c s.serial
  have hsubmits : submits k.toKernel [c] s.lamp = .ok (s.allowRawMode, w) := by
    unfold submits NonblockWriter.writeAll
    rw [List.foldlM_cons, show s.lamp.2 = s.serial from rfl, hw]
    rfl
  obtain ⟨s', hs', hl⟩ := of_lampView_ok (h.trans hsubmits)
  obtain ⟨hraw, hserial⟩ := Prod.mk.inj hl
  exact ⟨s', hs', hraw, hserial ▸ hwritten⟩

theorem writeCommandF_ok (k : HealthyKernel) {fmt : List Piece} {args : List ℤ}
    (hpos : 0 < (format fmt args).length) (hn : (format fmt args).length ≤ 1022) (s : Daemon) :
    ∃ s', s.writeCommandF k.toKernel fmt args = .ok s' ∧ s'.allowRawMode = s.allowRawMode ∧
      NonblockWriter.Written (format fmt args) s.serial s'.serial :=
  of_submits_one k (writeCommandF_view k.toKernel hpos hn s)

theorem lampStep_cases (k : Kernel) (info : Bool) (a : Arrival) (l : Lamp) :
    (∃ l', lampStep k info a l = .ok l' ∧ l'.1 = gate l.1 a ∧
      l'.2.submitted = l.2.submitted ++ emits l.1 a) ∨
    ∃ errno w n, lampStep k info a l = .error (.writeFailed errno w) ∧
      w.submitted = l.2.submitted ++ (emits l.1 a).take n := by
  have hsubmits : ∀ chunks (l : Lamp),
      (∃ l', submits k chunks l = .ok l' ∧ l'.1 = l.1 ∧
        l'.2.submitted = l.2.submitted ++ chunks) ∨
      ∃ errno w n, submits k chunks l = .error (.writeFailed errno w) ∧
        w.submitted = l.2.submitted ++ chunks.take n := by
    intro chunks l
    unfold submits
    rcases NonblockWriter.writeAll_submitted k chunks l.2 with ⟨w, hw, hs⟩ | ⟨errno, w, n, hw, hs⟩
    · exact .inl ⟨(l.1, w), by rw [hw]; rfl, rfl, hs⟩
    · exact .inr ⟨errno, w, n, by rw [hw]; rfl, hs⟩
  cases a with
  | serial revents data =>
    simp only [lampStep, relay, gate_serial, emits, List.append_nil, List.take_nil]
    split_ifs with hskip hout
    · exact .inl ⟨l, rfl, rfl, rfl⟩
    · rcases NonblockWriter.flushLoop_submitted k l.2.buffer l.2 with
        ⟨done, w, hw, hs⟩ | ⟨errno, w, hw, hs⟩
      · exact .inl ⟨(l.1, w), by rw [NonblockWriter.flush, hw]; rfl, rfl, hs⟩
      · exact .inr ⟨errno, w, 0, by rw [NonblockWriter.flush, hw]; rfl, hs⟩
    · exact .inl ⟨l, rfl, rfl, rfl⟩
  | command stale datagram => exact hsubmits _ _
  | key c => exact hsubmits _ _
  | osc packet => exact hsubmits _ _

/-- A reaction ends with its chunks submitted, or in a failed call of `::write` with some
of them submitted. -/
theorem handle_cases (k : Kernel) (a : Arrival) (s : Daemon) :
    (∃ s', s.handle k a = .ok s' ∧ s'.allowRawMode = gate s.allowRawMode a ∧
      s'.serial.submitted = s.serial.submitted ++ emits s.allowRawMode a) ∨
    ∃ errno w n, s.handle k a = .error (.writeFailed errno w) ∧
      w.submitted = s.serial.submitted ++ (emits s.allowRawMode a).take n := by
  have hv := handle_lamp k a s
  rcases lampStep_cases k (s.logs .info) a s.lamp with ⟨l, hl, hraw, hs⟩ | ⟨errno, w, n, hl, hs⟩
  · obtain ⟨s', hr, rfl⟩ := of_lampView_ok (hv.trans hl)
    exact .inl ⟨s', hr, hraw, hs⟩
  · exact .inr ⟨errno, w, n, of_lampView_error (hv.trans hl), hs⟩

theorem handle_refines (k : Kernel) : lampTransducer.Refines (fun s a => handle k a s)
    Daemon.allowRawMode (fun s => s.serial.submitted) Halt.submitted where
  next {s a s'} h := by
    rcases handle_cases k a s with ⟨t, ht, hraw, -⟩ | ⟨_, _, _, ht, -⟩
    · rw [Except.ok.inj (h.symm.trans ht)]
      exact hraw
    · rw [h] at ht
      cases ht
  out {s a s'} h := by
    rcases handle_cases k a s with ⟨t, ht, -, hs⟩ | ⟨_, _, _, ht, -⟩
    · rw [Except.ok.inj (h.symm.trans ht)]
      exact hs
    · rw [h] at ht
      cases ht
  fail {s a e} h := by
    rcases handle_cases k a s with ⟨t, ht, -⟩ | ⟨errno, w, n, ht, hs⟩
    · rw [h] at ht
      cases ht
    · rw [Except.error.inj (h.symm.trans ht)]
      exact ⟨n, hs⟩

theorem lampStep_ok (k : HealthyKernel) (info : Bool) (a : Arrival) (l : Lamp) :
    ∃ l', lampStep k.toKernel info a l = .ok l' ∧ (l.2.Sound → l'.2.Sound) := by
  have hsubmits : ∀ chunks (l : Lamp),
      ∃ l', submits k.toKernel chunks l = .ok l' ∧ (l.2.Sound → l'.2.Sound) := by
    intro chunks l
    obtain ⟨w, hw, -⟩ := NonblockWriter.writeAll_ok k chunks l.2
    exact ⟨(l.1, w), by unfold submits; rw [hw]; rfl, fun h => h.writeAll hw⟩
  cases a with
  | serial revents data =>
    obtain ⟨done, w, hw, hf⟩ := NonblockWriter.flush_ok k l.2
    simp only [lampStep, relay]
    split_ifs with hskip hout
    · exact ⟨l, rfl, id⟩
    · exact ⟨(l.1, w), by rw [hw]; rfl, fun h => h.flush rfl hf⟩
    · exact ⟨l, rfl, id⟩
  | command stale datagram => exact hsubmits _ _
  | key c => exact hsubmits _ _
  | osc packet => exact hsubmits _ _

/-- Every reaction ends, keeps the queue sound and submits what the abstract daemon emits. -/
theorem handle_ok (k : HealthyKernel) (a : Arrival) (s : Daemon) :
    ∃ s', s.handle k.toKernel a = .ok s' ∧ (s.serial.Sound → s'.serial.Sound) ∧
      s'.allowRawMode = gate s.allowRawMode a ∧
      s'.serial.submitted = s.serial.submitted ++ emits s.allowRawMode a := by
  obtain ⟨l, hl, hsound⟩ := lampStep_ok k (s.logs .info) a s.lamp
  obtain ⟨s', hr, rfl⟩ := of_lampView_ok ((handle_lamp k.toKernel a s).trans hl)
  exact ⟨s', hr, hsound, (handle_refines k.toKernel).next hr, (handle_refines k.toKernel).out hr⟩

theorem handle_total (k : HealthyKernel) (s : Daemon) (a : Arrival) :
    ∃ s', s.handle k.toKernel a = .ok s' := by
  obtain ⟨s', h, -⟩ := handle_ok k a s
  exact ⟨s', h⟩

/-- A run from any state reaches one, and it has submitted what the abstract daemon emits. -/
theorem react_ok (k : HealthyKernel) (arrivals : List Arrival) (s : Daemon) :
    ∃ s', s.react k.toKernel arrivals = .ok s' ∧
      s'.allowRawMode = lampTransducer.final s.allowRawMode arrivals ∧
      s'.serial.submitted =
        s.serial.submitted ++ lampTransducer.outputs s.allowRawMode arrivals := by
  obtain ⟨s', h⟩ := Transducer.run_total (fun s a => handle_total k s a) arrivals s
  obtain ⟨hraw, hs⟩ := (handle_refines k.toKernel).run h
  exact ⟨s', h, hraw, hs⟩

theorem start_view (k : Kernel) (logMask : BitVec 32) :
    lampView (start k logMask) = submits k [ascii "q\n"] (false, .empty) := by
  unfold start
  rw [lampView_log (fun s' => flog_lamp _ _ _ s'), write_view]
  rfl

/-- The initialization command is submitted, even if the write fails. -/
theorem start_cases (k : Kernel) (logMask : BitVec 32) :
    (∃ s, start k logMask = .ok s ∧ s.allowRawMode = false ∧
      s.serial.submitted = [ascii "q\n"]) ∨
    ∃ errno w, start k logMask = .error (.writeFailed errno w) ∧ w.submitted = [ascii "q\n"] := by
  have hv := start_view k logMask
  have hone : submits k [ascii "q\n"] (false, .empty) =
      (NonblockWriter.empty.write k (ascii "q\n")).map fun w => (false, w) := by
    unfold submits NonblockWriter.writeAll
    rw [List.foldlM_cons]
    cases NonblockWriter.empty.write k (ascii "q\n") <;> rfl
  rw [hone] at hv
  rcases NonblockWriter.write_submitted k (ascii "q\n") .empty with ⟨w, hw, hs⟩ | ⟨e, w, hw, hs⟩
  · rw [hw] at hv
    obtain ⟨s, hr, hl⟩ := of_lampView_ok hv
    obtain ⟨hraw, hserial⟩ := Prod.mk.inj hl
    exact .inl ⟨s, hr, hraw, by rw [hserial, hs]; rfl⟩
  · rw [hw] at hv
    exact .inr ⟨e, w, of_lampView_error hv, hs⟩

theorem start_ok (k : HealthyKernel) (logMask : BitVec 32) :
    ∃ s, start k.toKernel logMask = .ok s ∧ s.serial.Sound := by
  have hv := start_view k.toKernel logMask
  obtain ⟨w, hw, -⟩ := NonblockWriter.writeAll_ok k [ascii "q\n"] .empty
  unfold submits at hv
  rw [hw] at hv
  obtain ⟨s, hr, hl⟩ := of_lampView_ok hv
  obtain ⟨-, hserial⟩ := Prod.mk.inj hl
  exact ⟨s, hr, by rw [hserial]; exact NonblockWriter.sound_empty.writeAll hw⟩

/-- The daemon after its start and some arrivals. -/
def live (k : Kernel) (logMask : BitVec 32) (arrivals : List Arrival) : Except Halt Daemon := do
  let s ← start k logMask
  s.react k arrivals

theorem live_ok (k : HealthyKernel) (logMask : BitVec 32) (arrivals : List Arrival) :
    ∃ s, live k.toKernel logMask arrivals = .ok s ∧
      s.allowRawMode = lampTransducer.final false arrivals ∧
      s.serial.submitted = ascii "q\n" :: lampTransducer.outputs false arrivals := by
  obtain ⟨s, hs, -⟩ := start_ok k logMask
  rcases start_cases k.toKernel logMask with ⟨t, ht, hraw, hsub⟩ | ⟨_, _, ht, -⟩
  · obtain rfl : s = t := Except.ok.inj (hs.symm.trans ht)
    obtain ⟨s', hs', hraw', hsub'⟩ := react_ok k arrivals s
    refine ⟨s', by unfold live; rw [hs]; exact hs', by rw [hraw', hraw], ?_⟩
    rw [hsub', hsub, hraw]
    rfl
  · rw [hs] at ht
    cases ht

/-- What has been submitted when a run ends, in whatever way. -/
def submittedBy : Except Halt Daemon → List Chunk
  | .ok s => s.serial.submitted
  | .error h => h.submitted

/-- Over any kernel a run submits an initial part of what the abstract daemon emits, after
the initialization command. -/
theorem live_submitted (k : Kernel) (logMask : BitVec 32) (arrivals : List Arrival) :
    ∃ cs, cs <+: lampTransducer.outputs false arrivals ∧
      submittedBy (live k logMask arrivals) = ascii "q\n" :: cs := by
  unfold live
  rcases start_cases k logMask with ⟨s, hs, hraw, hsub⟩ | ⟨errno, w, hs, hsub⟩
  · rw [hs, ok_bind]
    cases hr : s.react k arrivals with
    | ok t =>
      have hout := ((handle_refines k).run hr).2
      rw [hraw, hsub] at hout
      exact ⟨_, List.prefix_rfl, hout⟩
    | error e =>
      obtain ⟨n, hout⟩ := (handle_refines k).run_error hr
      rw [hraw, hsub] at hout
      exact ⟨_, List.take_prefix n _, hout⟩
  · rw [hs]
    exact ⟨[], List.nil_prefix, hsub⟩

/-- The serial link after a run, unless it broke off with a fault. -/
def linkOf : Except Halt Daemon → Option NonblockWriter
  | .ok s => some s.serial
  | .error h => h.writer

/-- The descriptors that a round polls. -/
def Round.fds (r : Round) : List Fd :=
  [.sock, .serial] ++ (if r.stdinTty then [.stdin] else []) ++ [.osc]

theorem pollfds_fds (r : Round) (s : Daemon) : (s.pollfds r).map PollFd.fd = r.fds := by
  unfold pollfds Round.fds
  cases r.stdinTty <;> rfl

/-- The daemon goes on or has ended, with a sound queue. -/
def SoundOutcome (r : Except Halt Daemon) : Prop := ∃ w, linkOf r = some w ∧ w.Sound

theorem dispatch_sound (k : HealthyKernel) (r : Round) (fd : Fd) {s : Daemon}
    (h : s.serial.Sound) : SoundOutcome (s.dispatch k.toKernel r fd) := by
  unfold dispatch
  split_ifs
  · exact ⟨s.serial, rfl, h⟩
  · exact ⟨s.serial, rfl, h⟩
  · obtain ⟨s', hr, hsound, -⟩ := handle_ok k (r.arrival fd) s
    exact ⟨s'.serial, by rw [hr]; rfl, hsound h⟩

/-- Steps that keep the queue sound, or end the daemon with a sound queue, do so in a row. -/
theorem foldlM_sound {ι : Type} {step : Daemon → ι → Except Halt Daemon}
    (h : ∀ s i, s.serial.Sound → SoundOutcome (step s i)) (is : List ι) {s : Daemon}
    (hs : s.serial.Sound) : SoundOutcome (is.foldlM step s) := by
  induction is generalizing s with
  | nil => exact ⟨s.serial, rfl, hs⟩
  | cons i is ih =>
    rw [List.foldlM_cons]
    have hstep := h s i hs
    cases hr : step s i with
    | error e =>
      rw [hr] at hstep
      exact hstep
    | ok t =>
      rw [hr] at hstep
      obtain ⟨w, hw, hsound⟩ := hstep
      obtain rfl : t.serial = w := Option.some.inj hw
      exact ih hsound

theorem iteration_sound (k : HealthyKernel) (r : Round) {s : Daemon} (h : s.serial.Sound) :
    SoundOutcome (s.iteration k.toKernel r) := by
  unfold iteration
  split_ifs
  · exact ⟨s.serial, rfl, h⟩
  · exact foldlM_sound (fun _ fd hs => dispatch_sound k r fd hs) _ h

theorem run_sound (k : HealthyKernel) (logMask : BitVec 32) (rounds : List Round) :
    SoundOutcome (run k.toKernel logMask rounds) := by
  obtain ⟨s, hs, hsound⟩ := start_ok k logMask
  unfold run
  rw [hs, ok_bind]
  exact foldlM_sound (fun _ r h => iteration_sound k r h) rounds hsound

end Daemon

end Moodpd
