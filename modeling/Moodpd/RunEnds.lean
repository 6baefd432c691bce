import Moodpd.ServedDelivery

/-!
# How runs of the daemon end

A run goes on as long as `poll` succeeds, no descriptor goes bad and no write to the lamp fails.
Neither an input nor anything the daemon does with it ends a run.
-/
namespace Moodpd
open Memory HexText Daemon

/-- The last call of `::write` has failed with this errno. -/
def LastCallFailed (errno : ℕ) (w : NonblockWriter) : Prop :=
  ∃ c, w.calls.getLast? = some c ∧ c.result = .failed errno

/-- No call of `::write` has failed. -/
def NoCallFailed (w : NonblockWriter) : Prop := ∀ c ∈ w.calls, ∀ errno, c.result ≠ .failed errno

/-- The possible ends of some steps, in which `poll` may fail or a descriptor have gone bad. -/
inductive Ends (unpolled bad : Prop) : Except Halt Daemon → Prop
  | goesOn (s : Daemon) (hpoll : ¬ unpolled) (hgood : ¬ bad) (hcalls : NoCallFailed s.serial) :
    Ends unpolled bad (.ok s)
  | pollFailed (w : NonblockWriter) (h : unpolled) : Ends unpolled bad (.error (.fail "poll" w))
  | wentBad (w : NonblockWriter) (h : bad) : Ends unpolled bad (.error (.badFd w))
  | writeFailed {errno : ℕ} {w : NonblockWriter} (h : LastCallFailed errno w) :
    Ends unpolled bad (.error (.writeFailed errno w))

/-- Only a failed call of `::write` breaks off. -/
def BreaksOff (h : Halt) : Prop := ∃ errno w, h = .writeFailed errno w ∧ LastCallFailed errno w

namespace NonblockWriter

theorem writeToFile_error {k : Kernel} {w : NonblockWriter} {data : Chunk} {h : Halt}
    (hw : writeToFile k w data = .error h) : BreaksOff h := by
  unfold writeToFile at hw
  simp only at hw
  split at hw
  · cases hw
  · cases hw
  · rename_i errno hanswer
    obtain rfl := Except.error.inj hw
    exact ⟨errno, _, rfl, ⟨data, k.answer w.calls.length data.length⟩, by simp, hanswer⟩

theorem writeToFile_calls {k : Kernel} {w w' : NonblockWriter} {data : Chunk} {n : ℕ}
    (h : writeToFile k w data = .ok (n, w')) (hw : NoCallFailed w) : NoCallFailed w' := by
  have hcall := writeToFile_call h
  unfold writeToFile at h
  simp only at h
  rw [hcall]
  intro c hc errno
  rcases List.mem_append.mp hc with hc | hc
  · exact hw c hc errno
  · obtain rfl := List.mem_singleton.mp hc
    intro hfailed
    simp only at hfailed
    rw [hfailed] at h
    cases h

theorem flushLoop_noCallFailed {k : Kernel} {queue : List Chunk} {w w' : NonblockWriter}
    {done : Bool}
    (h : flushLoop k queue w = .ok (done, w')) (hw : NoCallFailed w) : NoCallFailed w' := by
  induction queue generalizing w with
  | nil =>
    obtain ⟨-, rfl⟩ := Prod.mk.inj (Except.ok.inj h)
    exact hw
  | cons front rest ih =>
    obtain ⟨⟨sz, w₁⟩, hfile, hrest⟩ := bind_eq_ok.mp h
    have hw₁ : NoCallFailed w₁ := writeToFile_calls hfile hw
    simp only at hrest
    split_ifs at hrest
    · exact ih hrest hw₁
    · obtain ⟨-, rfl⟩ := Prod.mk.inj (Except.ok.inj hrest)
      exact hw₁

theorem writeAll_noCallFailed {k : Kernel} {chunks : List Chunk} {w w' : NonblockWriter}
    (h : writeAll k chunks w = .ok w') (hw : NoCallFailed w) : NoCallFailed w' := by
  induction chunks generalizing w with
  | nil =>
    obtain rfl := Except.ok.inj h
    exact hw
  | cons data chunks ih =>
    unfold writeAll at h
    rw [List.foldlM_cons] at h
    obtain ⟨w₁, hdata, hrest⟩ := bind_eq_ok.mp h
    obtain ⟨⟨done, w₂⟩, hflush, hsame⟩ := bind_eq_ok.mp hdata
    obtain rfl := Except.ok.inj hsame
    exact ih hrest (flushLoop_noCallFailed hflush hw)

theorem flushLoop_error {k : Kernel} {queue : List Chunk} {w : NonblockWriter} {h : Halt}
    (hw : flushLoop k queue w = .error h) : BreaksOff h := by
  induction queue generalizing w with
  | nil => cases hw
  | cons front rest ih =>
    unfold flushLoop at hw
    cases hfile : writeToFile k { w with buffer := front :: rest } front with
    | error e =>
      rw [hfile, error_bind] at hw
      obtain rfl := Except.error.inj hw
      exact writeToFile_error hfile
    | ok p =>
      simp only [hfile, ok_bind] at hw
      split_ifs at hw
      exact ih hw

theorem write_error {k : Kernel} {data : Chunk} {w : NonblockWriter} {h : Halt}
    (hw : write k data w = .error h) : BreaksOff h := by
  unfold write flush at hw
  simp only at hw
  cases hflush : flushLoop k (w.buffer ++ [data])
      ⟨w.buffer ++ [data], w.calls, w.submitted ++ [data]⟩ with
  | error e =>
    rw [hflush, error_bind] at hw
    obtain rfl := Except.error.inj hw
    exact flushLoop_error hflush
  | ok p =>
    rw [hflush, ok_bind] at hw
    cases hw

theorem writeAll_error {k : Kernel} {chunks : List Chunk} {w : NonblockWriter} {h : Halt}
    (hw : writeAll k chunks w = .error h) : BreaksOff h := by
  induction chunks generalizing w with
  | nil => cases hw
  | cons data chunks ih =>
    unfold writeAll at hw
    rw [List.foldlM_cons] at hw
    cases hdata : write k data w with
    | error e =>
      rw [hdata, error_bind] at hw
      obtain rfl := Except.error.inj hw
      exact write_error hdata
    | ok w₁ =>
      rw [hdata, ok_bind] at hw
      exact ih hw

end NonblockWriter

theorem map_eq_error {ε α β : Type} {r : Except ε α} {f : α → β} {e : ε}
    (h : r.map f = .error e) : r = .error e := by
  cases r with
  | error e' => rw [Except.error.inj h]
  | ok a => cases h

namespace Daemon

theorem lampStep_error {k : Kernel} {info : Bool} {a : Arrival} {l : Lamp} {h : Halt}
    (hl : lampStep k info a l = .error h) : BreaksOff h := by
  cases a with
  | serial revents data =>
    unfold lampStep relay at hl
    simp only at hl
    split_ifs at hl
    exact NonblockWriter.flushLoop_error (map_eq_error hl)
  | command stale datagram => exact NonblockWriter.writeAll_error (map_eq_error hl)
  | key c => cases hl
  | osc packet => exact NonblockWriter.writeAll_error (map_eq_error hl)

theorem lampStep_noCallFailed {k : Kernel} {info : Bool} {a : Arrival} {l l' : Lamp}
    (h : lampStep k info a l = .ok l') (hl : NoCallFailed l.2) : NoCallFailed l'.2 := by
  have hsubmits : ∀ {chunks : List Chunk} {raw : Bool},
      submits k chunks (raw, l.2) = .ok l' → NoCallFailed l'.2 := by
    intro chunks raw h
    obtain ⟨w, hw, rfl⟩ := map_eq_ok.mp h
    exact NonblockWriter.writeAll_noCallFailed hw hl
  cases a with
  | serial revents data =>
    unfold lampStep relay at h
    simp only at h
    split_ifs at h
    · obtain rfl := Except.ok.inj h
      exact hl
    · obtain ⟨⟨done, w⟩, hp, rfl⟩ := map_eq_ok.mp h
      exact NonblockWriter.flushLoop_noCallFailed hp hl
    · obtain rfl := Except.ok.inj h
      exact hl
  | command stale datagram => exact hsubmits h
  | key c => exact hsubmits h
  | osc packet => exact hsubmits h

/-- A turn ends the run when its descriptor has gone bad, or in a failed write. -/
theorem dispatch_ends (k : Kernel) (r : Round) (fd : Fd) {s : Daemon} (hs : NoCallFailed s.serial) :
    Ends False (wentBad (r.revents fd) = true) (s.dispatch k r fd) := by
  unfold dispatch
  split_ifs with hbad hnone
  · exact .wentBad s.serial hbad
  · exact .goesOn s id hbad hs
  · have hview := handle_lamp k (r.arrival fd) s
    cases hr : s.handle k (r.arrival fd) with
    | ok t =>
      rw [hr] at hview
      exact .goesOn t id hbad (lampStep_noCallFailed hview.symm hs)
    | error h =>
      rw [hr] at hview
      obtain ⟨errno, w, rfl, hlast⟩ := lampStep_error hview.symm
      exact .writeFailed hlast

theorem foldlM_ends {ι : Type} {unpolled bad : ι → Prop} {step : Daemon → ι → Except Halt Daemon}
    (hstep : ∀ (s : Daemon) i, NoCallFailed s.serial → Ends (unpolled i) (bad i) (step s i))
    (is : List ι) {s : Daemon} (hs : NoCallFailed s.serial) :
    Ends (∃ i ∈ is, unpolled i) (∃ i ∈ is, bad i) (is.foldlM step s) := by
  induction is generalizing s with
  | nil => exact .goesOn s (by simp) (by simp) hs
  | cons i is ih =>
    rw [List.foldlM_cons]
    have hi := hstep s i hs
    revert hi
    generalize step s i = r
    intro hi
    cases hi with
    | goesOn t hpoll hgood hcalls =>
      have hrest := ih hcalls
      rw [ok_bind]
      revert hrest
      generalize is.foldlM step t = r
      intro hrest
      cases hrest with
      | goesOn u hpolls hgoods hcalls' =>
        exact .goesOn u (by simpa [hpoll] using hpolls) (by simpa [hgood] using hgoods) hcalls'
      | pollFailed w hfailed =>
        obtain ⟨j, hj, hfailed⟩ := hfailed
        exact .pollFailed w ⟨j, List.mem_cons_of_mem i hj, hfailed⟩
      | wentBad w hbad =>
        obtain ⟨j, hj, hbad⟩ := hbad
        exact .wentBad w ⟨j, List.mem_cons_of_mem i hj, hbad⟩
      | writeFailed hlast => exact .writeFailed hlast
    | pollFailed w hfailed => exact .pollFailed w ⟨i, List.mem_cons_self, hfailed⟩
    | wentBad w hbad => exact .wentBad w ⟨i, List.mem_cons_self, hbad⟩
    | writeFailed hlast => exact .writeFailed hlast

/-- A descriptor that the daemon polls in a round has gone bad. -/
def Round.HasBadFd (r : Round) : Prop := ∃ fd ∈ r.fds, wentBad (r.revents fd) = true

theorem iteration_ends (k : Kernel) (r : Round) {s : Daemon} (hs : NoCallFailed s.serial) :
    Ends (r.pollResult < 0) r.HasBadFd (s.iteration k r) := by
  unfold iteration
  split_ifs with hpoll
  · exact .pollFailed s.serial hpoll
  · have hturns := foldlM_ends (fun s fd hs => dispatch_ends k r fd hs) r.fds hs
    rw [pollfds_fds]
    revert hturns
    generalize r.fds.foldlM (fun s fd => s.dispatch k r fd) s = result
    intro hturns
    cases hturns with
    | goesOn t _ hgood hcalls => exact .goesOn t hpoll hgood hcalls
    | pollFailed w hfailed => exact absurd hfailed (by simp)
    | wentBad w hbad => exact .wentBad w hbad
    | writeFailed hlast => exact .writeFailed hlast

theorem start_ends (k : Kernel) (logMask : BitVec 32) : Ends False False (start k logMask) := by
  unfold start Daemon.write
  cases hw : NonblockWriter.write k (ascii "q\n") idle.serial with
  | ok w =>
    obtain ⟨⟨done, w₁⟩, hflush, hsame⟩ := bind_eq_ok.mp hw
    have hnone : NoCallFailed ⟨[ascii "q\n"], [], [ascii "q\n"]⟩ := by simp [NoCallFailed]
    have hcalls : NoCallFailed w₁ := NonblockWriter.flushLoop_noCallFailed hflush hnone
    obtain rfl := Except.ok.inj hsame
    refine .goesOn _ id id ?_
    have hlamp := flog_lamp .info "entering main loop.\n" []
      { idle with logMask := logMask, serial := w₁ }
    obtain ⟨-, hserial⟩ := Prod.mk.inj hlamp
    rw [hserial]
    exact hcalls
  | error h =>
    obtain ⟨errno, w, rfl, hlast⟩ := NonblockWriter.write_error hw
    exact .writeFailed hlast

/-- Over any kernel and any rounds, a run goes on exactly as long as each `poll` succeeds, no
polled descriptor has gone bad and no call of `::write` fails, and it ends in the way of what
goes wrong. -/
theorem run_ends (k : Kernel) (logMask : BitVec 32) (rounds : List Round) :
    Ends (∃ r ∈ rounds, r.pollResult < 0) (∃ r ∈ rounds, r.HasBadFd) (run k logMask rounds) := by
  have hstart := start_ends k logMask
  unfold run
  revert hstart
  generalize start k logMask = r
  intro hstart
  cases hstart with
  | goesOn s _ _ hcalls => exact foldlM_ends (fun s r hs => iteration_ends k r hs) rounds hcalls
  | pollFailed w hfalse => exact hfalse.elim
  | wentBad w hfalse => exact hfalse.elim
  | writeFailed hlast => exact .writeFailed hlast

end Daemon

end Moodpd
