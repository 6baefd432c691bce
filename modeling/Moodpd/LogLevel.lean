import Moodpd.LogMask

/-!
# The log level and the lamp

One iteration of the dispatch over the descriptors does the same to the lamp under any two
log masks, except where `LOG_INFO` turns an empty read from the lamp into a `continue` that
skips the flush.
-/
namespace Moodpd
open Memory HexText Daemon

/-- One descriptor's turn in the lamp view. -/
def lampDispatch (k : Kernel) (info : Bool) (r : Round) (fd : Fd) (l : Lamp) :
    Except Halt Lamp :=
  if wentBad (r.revents fd) then .error (.badFd l.2)
  else if fd ≠ .serial ∧ r.revents fd = 0 then .ok l
  else lampStep k info (r.arrival fd) l

theorem dispatch_lamp (k : Kernel) (r : Round) (fd : Fd) (s : Daemon) :
    lampView (s.dispatch k r fd) = lampDispatch k (s.logs .info) r fd s.lamp := by
  unfold dispatch lampDispatch
  split_ifs
  · rfl
  · rfl
  · exact handle_lamp k (r.arrival fd) s

/-- The log level counts in no turn but that of the serial link. -/
theorem lampDispatch_info (k : Kernel) (info info' : Bool) (r : Round) {fd : Fd}
    (h : fd ≠ .serial) (l : Lamp) : lampDispatch k info r fd l = lampDispatch k info' r fd l := by
  unfold lampDispatch
  cases fd with
  | serial => exact absurd rfl h
  | sock => rfl
  | stdin => rfl
  | osc => rfl

/-- The branch of the serial link skips a flush that has something to do. -/
def SkipsFlush (r : Round) (w : NonblockWriter) : Prop :=
  wentBad (r.revents .serial) = false ∧ r.revents .serial &&& POLLIN ≠ 0 ∧
    r.revents .serial &&& POLLOUT ≠ 0 ∧ r.serialData = [] ∧ w.buffer ≠ []

theorem flush_empty (k : Kernel) {w : NonblockWriter} (h : w.buffer = []) :
    w.flush k = .ok (true, w) := by
  obtain ⟨buffer, calls, submitted⟩ := w
  obtain rfl : buffer = [] := h
  rfl

theorem lampDispatch_serial (k : Kernel) (info info' : Bool) (r : Round) {l : Lamp}
    (h : ¬ SkipsFlush r l.2) :
    lampDispatch k info r .serial l = lampDispatch k info' r .serial l := by
  have hquiet : ∀ info, lampDispatch k info r .serial l = lampDispatch k false r .serial l := by
    intro info
    unfold lampDispatch
    simp only [Round.arrival, lampStep, relay, Bool.false_eq_true, false_and, and_false, if_false]
    by_cases hbad : wentBad (r.revents .serial) = true
    · rw [if_pos hbad, if_pos hbad]
    rw [if_neg hbad, if_neg hbad]
    by_cases hskip : r.revents .serial &&& POLLIN ≠ 0 ∧ info = true ∧ r.serialData.take 1023 = []
    · rw [if_pos hskip]
      split_ifs with hfd hout
      · rfl
      · have hdata : r.serialData = [] := by simpa using hskip.2.2
        have hempty : l.2.buffer = [] := by
          by_contra hne
          exact h ⟨by simpa using hbad, hskip.1, hout, hdata, hne⟩
        rw [flush_empty k hempty]
        rfl
      · rfl
    · rw [if_neg hskip]
  rw [hquiet info, hquiet info']

/-- A flush with something to do makes at least one call of `::write`. -/
theorem flushLoop_calls (k : Kernel) (queue : List Chunk) (w : NonblockWriter) {done : Bool}
    {w' : NonblockWriter} (h : NonblockWriter.flushLoop k queue w = .ok (done, w')) :
    w.calls.length ≤ w'.calls.length ∧ (queue ≠ [] → w.calls.length < w'.calls.length) := by
  induction queue generalizing w with
  | nil =>
    simp only [NonblockWriter.flushLoop, Except.ok.injEq, Prod.mk.injEq] at h
    rw [← h.2]
    simp
  | cons front rest ih =>
    unfold NonblockWriter.flushLoop at h
    cases hw : NonblockWriter.writeToFile k { w with buffer := front :: rest } front with
    | error e => simp [hw] at h
    | ok p =>
      have hcalls : p.2.calls.length = w.calls.length + 1 := by
        unfold NonblockWriter.writeToFile at hw
        simp only at hw
        split at hw
        · rw [← Except.ok.inj hw]
          simp
        · rw [← Except.ok.inj hw]
          simp
        · cases hw
      simp only [hw, ok_bind] at h
      split_ifs at h
      · have := (ih p.2 h).1
        constructor <;> intros <;> omega
      · simp only [Except.ok.injEq, Prod.mk.injEq] at h
        rw [← h.2]
        constructor <;> intros <;> simp only <;> omega

/-- The lamp receives the same under any two log masks, and where `poll` reports `POLLOUT` the
turn of the serial link flushes the queue it finds. -/
def LogInvisible (k : Kernel) (r : Round) (s : Daemon) : Prop :=
  (∀ m m' : BitVec 32, lampView ({ s with logMask := m }.iteration k r) =
    lampView ({ s with logMask := m' }.iteration k r)) ∧
  (0 ≤ r.pollResult → ∀ (m : BitVec 32) (t : Daemon),
    { s with logMask := m }.dispatch k r .sock = .ok t → wentBad (r.revents .serial) = false →
    r.revents .serial &&& POLLOUT ≠ 0 →
    lampView (t.dispatch k r .serial) =
      (t.serial.flush k).map fun p => (t.allowRawMode, p.2))

/-- Turns of the same descriptors from states of the same lamp view, the serial link not
among them. -/
theorem dispatches_view (k : Kernel) (r : Round) {fds : List Fd} (hfds : Fd.serial ∉ fds)
    {s t : Daemon} (h : s.lamp = t.lamp) :
    lampView (fds.foldlM (fun s fd => s.dispatch k r fd) s) =
      lampView (fds.foldlM (fun s fd => s.dispatch k r fd) t) := by
  induction fds generalizing s t with
  | nil => exact congrArg Except.ok h
  | cons fd fds ih =>
    have hfd : fd ≠ .serial := fun he => hfds (by simp [he])
    have hview : lampView (s.dispatch k r fd) = lampView (t.dispatch k r fd) := by
      rw [dispatch_lamp, dispatch_lamp, h]
      exact lampDispatch_info k _ _ r hfd _
    rw [List.foldlM_cons, List.foldlM_cons]
    cases hs : s.dispatch k r fd with
    | error e =>
      rw [hs] at hview
      rw [of_lampView_error hview.symm]
    | ok s' =>
      rw [hs] at hview
      obtain ⟨t', ht, hl⟩ := of_lampView_ok hview.symm
      rw [ht]
      exact ih (fun hm => hfds (by simp [hm])) hl.symm

/-- The descriptors behind the serial link. -/
def restFds (r : Round) : List Fd := (if r.stdinTty then [.stdin] else []) ++ [.osc]

theorem iteration_eq (k : Kernel) {r : Round} (hpoll : 0 ≤ r.pollResult) (s : Daemon) :
    s.iteration k r = (do
      let s ← s.dispatch k r .sock
      let s ← s.dispatch k r .serial
      (restFds r).foldlM (fun s fd => s.dispatch k r fd) s) := by
  unfold iteration
  rw [if_neg (by omega), pollfds_fds]
  rfl

theorem iteration_view (k : Kernel) (r : Round) {s t : Daemon} (h : s.lamp = t.lamp)
    (hskip : 0 ≤ r.pollResult → ∀ u, s.dispatch k r .sock = .ok u → ¬ SkipsFlush r u.serial) :
    lampView (s.iteration k r) = lampView (t.iteration k r) := by
  by_cases hpoll : r.pollResult < 0
  · have hserial : s.serial = t.serial := congrArg Prod.snd h
    unfold iteration fail
    rw [if_pos hpoll, if_pos hpoll, hserial]
  have hpoll : 0 ≤ r.pollResult := by omega
  have hsock : lampView (s.dispatch k r .sock) = lampView (t.dispatch k r .sock) := by
    rw [dispatch_lamp, dispatch_lamp, h]
    exact lampDispatch_info k _ _ r (by simp) _
  rw [iteration_eq k hpoll, iteration_eq k hpoll]
  cases hs : s.dispatch k r .sock with
  | error e =>
    rw [hs] at hsock
    rw [of_lampView_error hsock.symm]
  | ok s₁ =>
    rw [hs] at hsock
    obtain ⟨t₁, ht, hl⟩ := of_lampView_ok hsock.symm
    have hserial : lampView (s₁.dispatch k r .serial) = lampView (t₁.dispatch k r .serial) := by
      rw [dispatch_lamp, dispatch_lamp, hl]
      exact lampDispatch_serial k _ _ r (hskip hpoll s₁ hs)
    rw [ht, ok_bind, ok_bind]
    cases hs₂ : s₁.dispatch k r .serial with
    | error e =>
      rw [hs₂] at hserial
      rw [of_lampView_error hserial.symm]
    | ok s₂ =>
      rw [hs₂] at hserial
      obtain ⟨t₂, ht₂, hl₂⟩ := of_lampView_ok hserial.symm
      rw [ht₂]
      exact dispatches_view k r (by unfold restFds; cases r.stdinTty <;> simp) hl₂.symm

theorem sock_mask (k : Kernel) (r : Round) (s : Daemon) : KeepsMask s (s.dispatch k r .sock) := by
  unfold dispatch
  split_ifs
  · intro t ht
    cases ht
  · exact keepsMask_ok rfl
  · exact command_mask k r.stale r.datagram s

/-- The turn of the command socket leads to the same lamp view under any log mask. -/
theorem sock_view (k : Kernel) (r : Round) {s t u : Daemon} (h : s.lamp = t.lamp)
    (hs : s.dispatch k r .sock = .ok u) : ∃ v, t.dispatch k r .sock = .ok v ∧ v.lamp = u.lamp := by
  apply of_lampView_ok
  have hview := dispatch_lamp k r .sock s
  rw [hs] at hview
  rw [dispatch_lamp, ← h, lampDispatch_info k _ (s.logs .info) r (by simp)]
  exact hview.symm

/-- The log level is invisible to the lamp in one iteration exactly when it does not happen
that the lamp's descriptor is reported both readable and writable, the read returns no data
and the queue it finds is not empty. -/
theorem log_level_invisible_iff (k : Kernel) (r : Round) (s : Daemon) :
    LogInvisible k r s ↔
      ¬ (0 ≤ r.pollResult ∧ ∃ t, s.dispatch k r .sock = .ok t ∧ SkipsFlush r t.serial) := by
  constructor
  · rintro ⟨-, hflush⟩ ⟨hpoll, t, ht, hbad, hin, hout, hdata, hne⟩
    -- under a mask with `LOG_INFO` the turn changes nothing, but a flush calls `::write`
    obtain ⟨u, hu, hl⟩ := sock_view k r (show s.lamp = { s with logMask := 1 }.lamp from rfl) ht
    have hmask : u.logMask = 1 := sock_mask k r _ u hu
    obtain ⟨-, hserial⟩ := Prod.mk.inj hl
    have hinfo : u.logs .info = true := by
      unfold logs
      rw [hmask]
      rfl
    have hskip : u.dispatch k r .serial = .ok u := by
      unfold dispatch handle serialReady
      rw [if_neg (by simp [hbad]), if_neg (by simp)]
      exact if_pos ⟨hin, hinfo, by simp [hdata]⟩
    have hview := hflush hpoll 1 u hu hbad hout
    rw [hskip, lampView_ok] at hview
    cases hf : u.serial.flush k with
    | error e => simp [hf, Except.map] at hview
    | ok p =>
      have hsame : u.serial = p.2 := by
        rw [hf] at hview
        exact congrArg Prod.snd (Except.ok.inj hview)
      have hcalls := (flushLoop_calls k u.serial.buffer u.serial hf).2 (by rw [hserial]; exact hne)
      rw [← hsame] at hcalls
      exact absurd hcalls (Nat.lt_irrefl _)
  · intro h
    have hskip : ∀ m : BitVec 32, 0 ≤ r.pollResult → ∀ u : Daemon,
        { s with logMask := m }.dispatch k r .sock = .ok u → ¬ SkipsFlush r u.serial := by
      intro m hpoll u hu hs
      obtain ⟨t, ht, hl⟩ := sock_view k r (show { s with logMask := m }.lamp = s.lamp from rfl) hu
      obtain ⟨-, hserial⟩ := Prod.mk.inj hl
      exact h ⟨hpoll, t, ht, by rw [hserial]; exact hs⟩
    refine ⟨fun m m' => iteration_view k r rfl (hskip m), fun hpoll m t ht hbad hout => ?_⟩
    rw [dispatch_lamp, lampDispatch_serial k _ false r (hskip m hpoll t ht)]
    unfold lampDispatch
    simp only [hbad, Round.arrival, lampStep, relay, Bool.false_eq_true, false_and, and_false, if_false,
      ne_eq, not_true_eq_false, if_pos hout]
    rfl

/-- The lamp reports an empty read together with room for writing. -/
def emptyRead : Round where
  serialTty := true
  stdinTty := false
  pollResult := 1
  revents fd := if fd = .serial then POLLIN ||| POLLOUT else 0
  stale := .replicate 1025 0
  datagram := none
  serialData := []
  key := none
  packet := none

/-- The command that is queued since the start is not flushed with `LOG_INFO`. -/
theorem emptyRead_visible : ¬ LogInvisible blocked.toKernel emptyRead
    { idle with serial := ⟨[ascii "q\n"], [⟨ascii "q\n", .again⟩], [ascii "q\n"]⟩ } := by
  rintro ⟨h, -⟩
  exact absurd (h 3 2) (by decide)

end Moodpd
