import Moodpd.DaemonRuns

/-!
# Delivery to the lamp

Every byte submitted to the serial writer reaches the lamp once and in order, and the daemon
waits for `POLLOUT` exactly as long as one is left.
-/
namespace Moodpd
open Memory HexText Daemon

namespace NonblockWriter

inductive Op
  | write (data : Chunk)
  | flush
  deriving DecidableEq, Repr

def Op.apply (k : Kernel) : Op → NonblockWriter → Except Halt NonblockWriter
  | .write data, w => w.write k data
  | .flush, w => (w.flush k).map Prod.snd

def Op.chunks : Op → List Chunk
  | .write data => [data]
  | .flush => []

def runOps (k : Kernel) (ops : List Op) (w : NonblockWriter) : Except Halt NonblockWriter :=
  ops.foldlM (fun w op => op.apply k w) w

theorem Op.apply_ok (k : HealthyKernel) (op : Op) {w : NonblockWriter} (h : w.Sound) :
    ∃ w', op.apply k.toKernel w = .ok w' ∧ w'.Sound ∧ w'.submitted = w.submitted ++ op.chunks := by
  cases op with
  | write data =>
    obtain ⟨w', hw, hwr⟩ := write_ok k data w
    exact ⟨w', hw, h.write hwr, hwr.submitted⟩
  | flush =>
    obtain ⟨done, w', hw, hf⟩ := flush_ok k w
    have ha : Op.flush.apply k.toKernel w = (w.flush k.toKernel).map Prod.snd := rfl
    exact ⟨w', by rw [ha, hw]; rfl, h.flush rfl hf, by simp [hf.submitted, chunks]⟩

theorem runOps_ok (k : HealthyKernel) (ops : List Op) {w : NonblockWriter} (h : w.Sound) :
    ∃ w', runOps k.toKernel ops w = .ok w' ∧ w'.Sound ∧
      w'.submitted = w.submitted ++ ops.flatMap Op.chunks := by
  induction ops generalizing w with
  | nil => exact ⟨w, rfl, h, by simp⟩
  | cons op ops ih =>
    obtain ⟨w₁, h₁, hs₁, hc₁⟩ := op.apply_ok k h
    obtain ⟨w₂, h₂, hs₂, hc₂⟩ := ih hs₁
    refine ⟨w₂, ?_, hs₂, by rw [hc₂, hc₁, List.flatMap_cons, List.append_assoc]⟩
    unfold runOps
    rw [List.foldlM_cons, h₁]
    exact h₂

theorem writeBufferEmpty_iff {w : NonblockWriter} (h : w.Sound) :
    w.writeBufferEmpty = true ↔ w.getWritebufferSize = 0 := by
  rw [getWritebufferSize_eq, List.length_eq_zero_iff, h.pending_eq_nil]
  exact List.isEmpty_iff

/-- Some byte is pending exactly when not all submitted bytes have been accepted. -/
theorem Sound.pending_iff {w : NonblockWriter} (h : w.Sound) :
    w.pending = [] ↔ w.accepted = w.submitted.flatten := by
  rw [← h.conserved]
  simp

end NonblockWriter

open NonblockWriter

/-- The arrivals of some turns, up to a descriptor that has gone bad. -/
def turns (r : Round) (fds : List Fd) : List Arrival :=
  ((fds.takeWhile fun fd => !wentBad (r.revents fd)).filter fun fd =>
    fd = .serial ∨ r.revents fd ≠ 0).map r.arrival

/-- The arrivals that a round hands to the daemon. -/
def Daemon.Round.arrivals (r : Round) : List Arrival :=
  if r.pollResult < 0 then [] else turns r r.fds

/-- The daemon does not go on after a round. -/
def Daemon.Round.breaks (r : Round) : Bool :=
  r.pollResult < 0 || r.fds.any fun fd => wentBad (r.revents fd)

/-- The arrivals that some rounds hand to the daemon. -/
def arrivalsOf : List Round → List Arrival
  | [] => []
  | r :: rounds => r.arrivals ++ if r.breaks then [] else arrivalsOf rounds

/-- From a state the daemon submits what it emits for some arrivals, and then goes on or not. -/
structure Submits (s : Daemon) (as : List Arrival) (breaks : Bool) (r : Except Halt Daemon) :
    Prop where
  submitted : ∃ w, linkOf r = some w ∧
    w.submitted = s.serial.submitted ++ lampTransducer.outputs s.allowRawMode as
  goesOn : breaks = false →
    ∃ t, r = .ok t ∧ t.allowRawMode = lampTransducer.final s.allowRawMode as
  breaksOff : breaks = true → ∃ h, r = .error h

theorem submits_none (s : Daemon) : Submits s [] false (.ok s) :=
  ⟨⟨s.serial, rfl, (List.append_nil _).symm⟩, fun _ => ⟨s, rfl, rfl⟩, fun h => by cases h⟩

theorem submits_broken {s : Daemon} {h : Halt} (hw : h.writer = some s.serial) :
    Submits s [] true (.error h) :=
  ⟨⟨s.serial, hw, (List.append_nil _).symm⟩, fun hgoes => absurd hgoes (by simp), fun _ => ⟨h, rfl⟩⟩

/-- Steps in sequence, of which only the last may break off. -/
theorem Submits.bind {s : Daemon} {as bs : List Arrival} {breaks : Bool} {r : Except Halt Daemon}
    {f : Daemon → Except Halt Daemon} (hr : Submits s as false r)
    (hf : ∀ t, Submits t bs breaks (f t)) : Submits s (as ++ bs) breaks (r >>= f) := by
  obtain ⟨t, rfl, hraw⟩ := hr.goesOn rfl
  obtain ⟨w, hw, hsub⟩ := hr.submitted
  obtain rfl : t.serial = w := Option.some.inj hw
  obtain ⟨⟨w, hw, hsub'⟩, hgoes, hbreaks⟩ := hf t
  refine ⟨⟨w, hw, ?_⟩, fun h => ?_, hbreaks⟩
  · rw [hsub', hsub, hraw, Transducer.outputs_append, List.append_assoc]
  · obtain ⟨u, hu, hraw'⟩ := hgoes h
    exact ⟨u, hu, by rw [hraw', hraw, Transducer.final_append]⟩

/-- A step that breaks off is not followed by others. -/
theorem Submits.stop {s : Daemon} {as : List Arrival} {r : Except Halt Daemon}
    {f : Daemon → Except Halt Daemon} (hr : Submits s as true r) :
    Submits s as true (r >>= f) := by
  obtain ⟨h, rfl⟩ := hr.breaksOff rfl
  exact hr

theorem handle_submits (k : HealthyKernel) (a : Arrival) (s : Daemon) :
    Submits s [a] false (s.handle k.toKernel a) := by
  obtain ⟨t, ht, -, hraw, hsub⟩ := handle_ok k a s
  rw [ht]
  refine ⟨⟨t.serial, rfl, ?_⟩, fun _ => ⟨t, rfl, hraw⟩, fun h => by cases h⟩
  rw [hsub]
  simp

theorem turns_submit (k : HealthyKernel) (r : Round) (fds : List Fd) (s : Daemon) :
    Submits s (turns r fds) (fds.any fun fd => wentBad (r.revents fd))
      (fds.foldlM (fun s fd => s.dispatch k.toKernel r fd) s) := by
  induction fds generalizing s with
  | nil => exact submits_none s
  | cons fd fds ih =>
    rw [List.foldlM_cons, List.any_cons]
    by_cases hbad : wentBad (r.revents fd) = true
    · have hnone : turns r (fd :: fds) = [] := by
        unfold turns
        rw [List.takeWhile_cons_of_neg (by simp [hbad])]
        rfl
      have hd : s.dispatch k.toKernel r fd = .error (.badFd s.serial) := if_pos hbad
      rw [hnone, hbad, hd]
      exact submits_broken rfl
    rw [Bool.not_eq_true] at hbad
    rw [hbad, Bool.false_or]
    have hcons : turns r (fd :: fds) =
        (if fd = .serial ∨ r.revents fd ≠ 0 then [r.arrival fd] else []) ++ turns r fds := by
      unfold turns
      rw [List.takeWhile_cons_of_pos (by simp [hbad]), List.filter_cons]
      by_cases hready : fd = .serial ∨ r.revents fd ≠ 0
      · rw [if_pos (decide_eq_true hready), if_pos hready]
        rfl
      · rw [if_neg (by simpa using hready), if_neg hready]
        rfl
    rw [hcons]
    refine Submits.bind ?_ ih
    unfold dispatch
    rw [if_neg (show ¬ wentBad (r.revents fd) = true by simp [hbad])]
    by_cases hready : fd = .serial ∨ r.revents fd ≠ 0
    · rw [if_pos hready, if_neg (by tauto)]
      exact handle_submits k _ s
    · rw [if_neg hready, if_pos (by tauto)]
      exact submits_none s

theorem iteration_submits (k : HealthyKernel) (r : Round) (s : Daemon) :
    Submits s r.arrivals r.breaks (s.iteration k.toKernel r) := by
  unfold iteration Round.arrivals Round.breaks
  by_cases hpoll : r.pollResult < 0
  · rw [if_pos hpoll, if_pos hpoll, decide_eq_true hpoll]
    exact submits_broken rfl
  · rw [if_neg hpoll, if_neg hpoll, decide_eq_false hpoll, Bool.false_or, pollfds_fds]
    exact turns_submit k r r.fds s

theorem rounds_submit (k : HealthyKernel) (rounds : List Round) (s : Daemon) :
    Submits s (arrivalsOf rounds) (rounds.any Round.breaks)
      (rounds.foldlM (fun s r => s.iteration k.toKernel r) s) := by
  induction rounds generalizing s with
  | nil => exact submits_none s
  | cons r rounds ih =>
    have hr := iteration_submits k r s
    rw [List.foldlM_cons, List.any_cons]
    unfold arrivalsOf
    cases hbreaks : r.breaks with
    | true =>
      rw [hbreaks] at hr
      rw [if_pos rfl, List.append_nil]
      exact hr.stop
    | false =>
      rw [hbreaks] at hr
      rw [if_neg Bool.false_ne_true]
      exact hr.bind ih

/-- A run submits the initialization command and what its arrivals emit. -/
theorem run_submitted (k : HealthyKernel) (logMask : BitVec 32) (rounds : List Round) :
    ∃ w, linkOf (run k.toKernel logMask rounds) = some w ∧
      w.submitted = ascii "q\n" :: lampTransducer.outputs false (arrivalsOf rounds) := by
  obtain ⟨s, hs, -⟩ := start_ok k logMask
  rcases start_cases k.toKernel logMask with ⟨t, ht, hraw, hsub⟩ | ⟨_, _, ht, -⟩
  · obtain rfl : s = t := Except.ok.inj (hs.symm.trans ht)
    obtain ⟨w, hw, hw'⟩ := (rounds_submit k rounds s).submitted
    refine ⟨w, by unfold run; rw [hs]; exact hw, ?_⟩
    rw [hw', hsub, hraw]
    rfl
  · rw [hs] at ht
    cases ht

/-- Over any writes and flushes, and over any run of the daemon, the bytes accepted so far
and then the bytes still queued are the bytes submitted so far, in order. What a run submits is
the initialization command and then what its arrivals emit, one after another. -/
theorem fifo_delivery (k : HealthyKernel) :
    (∀ ops, ∃ w, runOps k.toKernel ops empty = .ok w ∧
      w.accepted ++ w.pending = (ops.flatMap Op.chunks).flatten) ∧
    ∀ logMask rounds, ∃ w, linkOf (run k.toKernel logMask rounds) = some w ∧
      w.submitted = ascii "q\n" :: lampTransducer.outputs false (arrivalsOf rounds) ∧
      w.accepted ++ w.pending = w.submitted.flatten := by
  constructor
  · intro ops
    obtain ⟨w, hw, hs, hc⟩ := runOps_ok k ops sound_empty
    refine ⟨w, hw, ?_⟩
    rw [hs.conserved, hc]
    rfl
  · intro logMask rounds
    obtain ⟨w, hw, hs⟩ := run_sound k logMask rounds
    obtain ⟨w', hw', hsub⟩ := run_submitted k logMask rounds
    obtain rfl : w = w' := Option.some.inj (hw.symm.trans hw')
    exact ⟨w, hw, hsub, hs.conserved⟩

/-- The poll set has one entry for the serial link. -/
theorem pollfds_serial (r : Round) {s : Daemon} (h : s.serial.Sound) :
    ∃ p ∈ s.pollfds r, p.fd = .serial ∧ (∀ q ∈ s.pollfds r, q.fd = .serial → q = p) ∧
      (p.events &&& POLLOUT ≠ 0 ↔ s.serial.accepted ≠ s.serial.submitted.flatten) := by
  have hout : ((if r.serialTty then POLLIN else 0) |||
      (if s.serial.writeBufferEmpty then 0 else POLLOUT)) &&& POLLOUT ≠ 0 ↔
      s.serial.writeBufferEmpty = false := by
    cases r.serialTty <;> cases s.serial.writeBufferEmpty <;> decide
  refine ⟨⟨.serial, (if r.serialTty then POLLIN else 0) |||
    (if s.serial.writeBufferEmpty then 0 else POLLOUT)⟩, by simp [pollfds], rfl, ?_, ?_⟩
  · intro q hq hfd
    simp only [pollfds, List.mem_append, List.mem_cons, List.not_mem_nil, or_false,
      List.mem_ite_nil_right] at hq
    rcases hq with ((rfl | rfl) | ⟨-, rfl⟩) | rfl
    · simp at hfd
    · rfl
    · simp at hfd
    · simp at hfd
  · rw [hout, Ne, ← h.pending_iff, h.pending_eq_nil, writeBufferEmpty, List.isEmpty_eq_false_iff]

/-- Pending output is never forgotten. After any writes and flushes the queue is empty or its
first chunk is not, and each time the daemon asks `poll` for `POLLOUT` on the serial link exactly
when some submitted byte has not been accepted. -/
theorem no_lost_wakeup (k : HealthyKernel) :
    (∀ ops, ∃ w, runOps k.toKernel ops empty = .ok w ∧ w.FrontNonempty ∧
      (w.writeBufferEmpty = true ↔ w.getWritebufferSize = 0) ∧
      ∃ done w', w.flush k.toKernel = .ok (done, w') ∧ w'.FrontNonempty ∧
        (done = true ↔ w'.pending = [])) ∧
    ∀ logMask rounds s, run k.toKernel logMask rounds = .ok s → ∀ r,
      ∃ p ∈ s.pollfds r, p.fd = .serial ∧ (∀ q ∈ s.pollfds r, q.fd = .serial → q = p) ∧
        (p.events &&& POLLOUT ≠ 0 ↔ s.serial.accepted ≠ s.serial.submitted.flatten) := by
  constructor
  · intro ops
    obtain ⟨w, hw, hs, -⟩ := runOps_ok k ops sound_empty
    obtain ⟨done, w', hf, hflushed⟩ := flush_ok k w
    refine ⟨w, hw, hs.front, writeBufferEmpty_iff hs, done, w', hf, hflushed.front, ?_⟩
    rw [hflushed.done_iff, (hs.flush rfl hflushed).pending_eq_nil]
  · intro logMask rounds s hr r
    obtain ⟨w, hw, hs⟩ := run_sound k logMask rounds
    rw [hr] at hw
    obtain rfl : s.serial = w := Option.some.inj hw
    exact pollfds_serial r hs

/-- With a blocked device the initialization command stays pending, and `poll` is asked for
`POLLOUT`. -/
theorem no_lost_wakeup_blocked : ∃ s, run blocked.toKernel 2 [] = .ok s ∧
    s.serial.accepted ≠ s.serial.submitted.flatten ∧
    ∀ r, ∃ p ∈ s.pollfds r, p.fd = .serial ∧ (∀ q ∈ s.pollfds r, q.fd = .serial → q = p) ∧
      (p.events &&& POLLOUT ≠ 0 ↔ s.serial.accepted ≠ s.serial.submitted.flatten) :=
  ⟨_, rfl, by decide, (no_lost_wakeup blocked).2 2 [] _ rfl⟩

end Moodpd
