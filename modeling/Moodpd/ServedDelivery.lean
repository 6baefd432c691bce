import Moodpd.LogLevel

/-!
# Delivery within bounded waiting

When `poll` reports `POLLOUT` and the report is true, a round takes at least one byte from the
queue, whatever else arrives in it. So what is submitted is delivered after as many such
rounds as bytes are pending.
-/
namespace Moodpd
open Memory HexText Daemon

theorem map_eq_ok {ε α β : Type} {r : Except ε α} {f : α → β} {b : β} :
    r.map f = .ok b ↔ ∃ a, r = .ok a ∧ f a = b := by
  cases r with
  | error e => simp [Except.map]
  | ok a => simp [Except.map]

/-- The next call of `::write` takes a byte of whatever it is offered. -/
def Kernel.Takes (k : Kernel) (w : NonblockWriter) : Prop :=
  ∀ size, 0 < size → ∃ n, 0 < n ∧ k.answer w.calls.length size = .wrote n

namespace NonblockWriter

/-- What an operation on the queue does to the calls made. It makes none and changes nothing,
or its first call offers the front of the queue. -/
structure Moves (k : Kernel) (w w' : NonblockWriter) : Prop where
  calls : w.calls <+: w'.calls
  submitted : w.submitted <+: w'.submitted
  taken : k.Takes w → w.FrontNonempty → w.buffer ≠ [] →
    w' = w ∨ w.accepted.length < w'.accepted.length

theorem accepted_of_calls {w w' : NonblockWriter} (h : w.calls <+: w'.calls) :
    w.accepted <+: w'.accepted := by
  obtain ⟨calls, h⟩ := h
  exact ⟨calls.flatMap Call.accepted, by rw [accepted, accepted, ← h, List.flatMap_append]⟩

theorem Moves.refl (k : Kernel) (w : NonblockWriter) : Moves k w w :=
  ⟨List.prefix_rfl, List.prefix_rfl, fun _ _ _ => .inl rfl⟩

theorem Moves.trans {k : Kernel} {w₁ w₂ w₃ : NonblockWriter} (h : Moves k w₁ w₂)
    (h' : Moves k w₂ w₃) : Moves k w₁ w₃ where
  calls := h.calls.trans h'.calls
  submitted := h.submitted.trans h'.submitted
  taken ht hf hb := by
    rcases h.taken ht hf hb with rfl | hlt
    · exact h'.taken ht hf hb
    · exact .inr (hlt.trans_le (accepted_of_calls h'.calls).length_le)

theorem writeToFile_call {k : Kernel} {w w' : NonblockWriter} {data : Chunk} {n : ℕ}
    (h : writeToFile k w data = .ok (n, w')) :
    w' = { w with calls := w.calls ++ [⟨data, k.answer w.calls.length data.length⟩] } := by
  unfold writeToFile at h
  simp only at h
  split at h
  · exact (Prod.mk.inj (Except.ok.inj h)).2.symm
  · exact (Prod.mk.inj (Except.ok.inj h)).2.symm
  · cases h

theorem flushLoop_moves {k : Kernel} {queue : List Chunk} {w w' : NonblockWriter} {done : Bool}
    (h : flushLoop k queue w = .ok (done, w')) :
    w.calls <+: w'.calls ∧ w'.submitted = w.submitted ∧
      (k.Takes w → (∀ front ∈ queue.head?, front ≠ []) → queue ≠ [] →
        w.accepted.length < w'.accepted.length) := by
  induction queue generalizing w with
  | nil =>
    obtain ⟨-, rfl⟩ := Prod.mk.inj (Except.ok.inj h)
    exact ⟨List.prefix_rfl, rfl, fun _ _ hq => absurd rfl hq⟩
  | cons front rest ih =>
    obtain ⟨⟨sz, w₁⟩, hw, hrest⟩ := bind_eq_ok.mp h
    have hcall := writeToFile_call hw
    simp only at hcall hrest
    have hcalls : w.calls <+: w₁.calls := by
      rw [hcall]
      exact List.prefix_append _ _
    have hsubmitted : w₁.submitted = w.submitted := by rw [hcall]
    have hmore : w₁.calls <+: w'.calls ∧ w'.submitted = w₁.submitted := by
      split_ifs at hrest
      · obtain ⟨hc, hs, -⟩ := ih hrest
        exact ⟨hc, hs⟩
      · obtain ⟨-, rfl⟩ := Prod.mk.inj (Except.ok.inj hrest)
        exact ⟨List.prefix_rfl, rfl⟩
    refine ⟨hcalls.trans hmore.1, hmore.2.trans hsubmitted, fun ht hf _ => ?_⟩
    have hne : front ≠ [] := hf front (by simp)
    obtain ⟨n, hn, ha⟩ := ht front.length (List.length_pos_iff.mpr hne)
    have hlt : w.accepted.length < w₁.accepted.length := by
      rw [hcall, accepted, accepted, List.flatMap_append, List.length_append, List.flatMap_singleton]
      simp only [Call.accepted, ha, List.length_take]
      have := List.length_pos_iff.mpr hne
      omega
    exact hlt.trans_le (accepted_of_calls hmore.1).length_le

theorem flush_moves {k : Kernel} {w w' : NonblockWriter} {done : Bool}
    (h : flush k w = .ok (done, w')) : Moves k w w' where
  calls := (flushLoop_moves h).1
  submitted := by rw [(flushLoop_moves h).2.1]
  taken ht hf hb := .inr ((flushLoop_moves h).2.2 ht hf hb)

theorem write_moves {k : Kernel} {w w' : NonblockWriter} {data : Chunk}
    (h : write k data w = .ok w') : Moves k w w' := by
  obtain ⟨⟨done, w₁⟩, hf, hw⟩ := bind_eq_ok.mp h
  obtain rfl := Except.ok.inj hw
  obtain ⟨hcalls, hsubmitted, htaken⟩ := flushLoop_moves hf
  refine ⟨hcalls, ?_, fun ht hfront hb => .inr ?_⟩
  · rw [hsubmitted]
    exact List.prefix_append _ _
  · refine htaken ht ?_ (by simp)
    intro front hmem
    rw [List.head?_append_of_ne_nil _ hb] at hmem
    exact hfront front hmem

theorem writeAll_moves {k : Kernel} {chunks : List Chunk} {w w' : NonblockWriter}
    (h : writeAll k chunks w = .ok w') : Moves k w w' := by
  induction chunks generalizing w with
  | nil =>
    obtain rfl := Except.ok.inj h
    exact .refl k w
  | cons data chunks ih =>
    unfold writeAll at h
    rw [List.foldlM_cons] at h
    obtain ⟨w₁, hw, hrest⟩ := bind_eq_ok.mp h
    exact (write_moves hw).trans (ih hrest)

end NonblockWriter

open NonblockWriter

theorem lampStep_moves {k : Kernel} {info : Bool} {a : Arrival} {l l' : Lamp}
    (h : lampStep k info a l = .ok l') : Moves k l.2 l'.2 := by
  have hsubmits : ∀ {chunks : List Chunk} {raw : Bool},
      submits k chunks (raw, l.2) = .ok l' → Moves k l.2 l'.2 := by
    intro chunks raw h
    obtain ⟨w, hw, rfl⟩ := map_eq_ok.mp h
    exact writeAll_moves hw
  cases a with
  | serial revents data =>
    unfold lampStep relay at h
    simp only at h
    split_ifs at h
    · obtain rfl := Except.ok.inj h
      exact .refl k _
    · obtain ⟨p, hp, rfl⟩ := map_eq_ok.mp h
      exact flush_moves hp
    · obtain rfl := Except.ok.inj h
      exact .refl k _
  | command stale datagram => exact hsubmits h
  | key c => exact hsubmits h
  | osc packet => exact hsubmits h

theorem dispatch_moves {k : Kernel} {r : Round} {fd : Fd} {s t : Daemon}
    (h : s.dispatch k r fd = .ok t) : Moves k s.serial t.serial := by
  have hview := dispatch_lamp k r fd s
  rw [h, lampView_ok] at hview
  unfold lampDispatch at hview
  split_ifs at hview
  · rw [show t.serial = s.serial from congrArg Prod.snd (Except.ok.inj hview)]
    exact .refl k _
  · exact lampStep_moves hview.symm

theorem dispatches_move {k : Kernel} {r : Round} {fds : List Fd} {s t : Daemon}
    (h : fds.foldlM (fun s fd => s.dispatch k r fd) s = .ok t) : Moves k s.serial t.serial := by
  induction fds generalizing s with
  | nil =>
    obtain rfl := Except.ok.inj h
    exact .refl k _
  | cons fd fds ih =>
    rw [List.foldlM_cons] at h
    obtain ⟨u, hu, hrest⟩ := bind_eq_ok.mp h
    exact (dispatch_moves hu).trans (ih hrest)

/-- `poll` truly reports in a round that the lamp takes data, and the read from the lamp does
not cut its turn short. -/
structure Writable (k : Kernel) (s : Daemon) (r : Round) : Prop where
  reported : r.revents .serial &&& POLLOUT ≠ 0
  takes : k.Takes s.serial
  relayed : ¬ (r.revents .serial &&& POLLIN ≠ 0 ∧ s.logs .info ∧ r.serialData = [])

/-- The turn of the serial link then flushes the queue. -/
theorem dispatch_flush {k : Kernel} {r : Round} {s t : Daemon}
    (hout : r.revents .serial &&& POLLOUT ≠ 0)
    (hrelay : ¬ (r.revents .serial &&& POLLIN ≠ 0 ∧ s.logs .info ∧ r.serialData = []))
    (h : s.dispatch k r .serial = .ok t) : ∃ done, s.serial.flush k = .ok (done, t.serial) := by
  have hview := dispatch_lamp k r .serial s
  rw [h, lampView_ok] at hview
  unfold lampDispatch at hview
  split_ifs at hview with hbad hnone
  · exact absurd rfl hnone.1
  · unfold lampStep Round.arrival relay at hview
    simp only [if_pos hout] at hview
    rw [if_neg (by simpa using hrelay)] at hview
    obtain ⟨⟨done, w⟩, hw, hl⟩ := map_eq_ok.mp hview.symm
    obtain rfl : w = t.serial := congrArg Prod.snd hl
    exact ⟨done, hw⟩

/-- An iteration that goes on has polled. -/
theorem poll_of_iteration {k : Kernel} {r : Round} {s t : Daemon} (h : s.iteration k r = .ok t) :
    0 ≤ r.pollResult := by
  by_contra hpoll
  unfold iteration at h
  rw [if_pos (by omega)] at h
  cases h

/-- A writable round takes a byte from a queue that is not empty. -/
theorem iteration_takes {k : Kernel} {r : Round} {s t : Daemon} (hw : Writable k s r)
    (hfront : s.serial.FrontNonempty) (hb : s.serial.buffer ≠ [])
    (h : s.iteration k r = .ok t) : s.serial.accepted.length < t.serial.accepted.length := by
  rw [iteration_eq k (poll_of_iteration h)] at h
  obtain ⟨s₁, h₁, h⟩ := bind_eq_ok.mp h
  obtain ⟨s₂, h₂, h₃⟩ := bind_eq_ok.mp h
  have hrest := accepted_of_calls (dispatches_move h₃).calls
  have hmask : s₁.logs .info = s.logs .info := by
    rw [logs, logs, sock_mask k r s s₁ h₁]
  have hrelay := hw.relayed
  rw [← hmask] at hrelay
  obtain ⟨done, hflush⟩ := dispatch_flush hw.reported hrelay h₂
  rcases (dispatch_moves h₁).taken hw.takes hfront hb with hsame | hlt
  · -- the command socket has not used up the call that takes a byte
    rw [hsame] at hflush
    have hlt := (flushLoop_moves hflush).2.2 hw.takes hfront hb
    exact hlt.trans_le hrest.length_le
  · have hserial := accepted_of_calls (dispatch_moves h₂).calls
    exact hlt.trans_le (hserial.trans hrest).length_le

theorem iteration_moves {k : Kernel} {r : Round} {s t : Daemon} (h : s.iteration k r = .ok t) :
    Moves k s.serial t.serial := by
  have hpoll := poll_of_iteration h
  unfold iteration at h
  rw [if_neg (by omega)] at h
  exact dispatches_move h

/-- Rounds lead from one state to another, and so many of them are writable. -/
inductive Served (k : Kernel) : Daemon → ℕ → Daemon → Prop
  | here (s : Daemon) : Served k s 0 s
  | round {s t u : Daemon} {n : ℕ} (r : Round) (h : s.iteration k r = .ok t)
    (more : Served k t n u) : Served k s n u
  | writable {s t u : Daemon} {n : ℕ} (r : Round) (hr : Writable k s r)
    (h : s.iteration k r = .ok t) (more : Served k t n u) : Served k s (n + 1) u

theorem sound_of_iteration {k : HealthyKernel} {r : Round} {s t : Daemon} (hs : s.serial.Sound)
    (h : s.iteration k.toKernel r = .ok t) : t.serial.Sound := by
  obtain ⟨w, hw, hsound⟩ := iteration_sound k r hs
  rw [h] at hw
  obtain rfl : t.serial = w := Option.some.inj hw
  exact hsound

/-- What starts the submitted bytes is accepted once no more of it is left than writable
rounds follow. -/
theorem Served.accepted {k : HealthyKernel} {s u : Daemon} {n : ℕ}
    (h : Served k.toKernel s n u) (hs : s.serial.Sound) {bytes : Chunk}
    (hbytes : bytes <+: s.serial.submitted.flatten)
    (hn : bytes.length ≤ s.serial.accepted.length + n) : bytes <+: u.serial.accepted := by
  induction h with
  | here s =>
    have haccepted : s.serial.accepted <+: s.serial.submitted.flatten := by
      rw [← hs.conserved]
      exact List.prefix_append _ _
    exact List.prefix_of_prefix_length_le hbytes haccepted hn
  | round r h more ih =>
    have hmoves := iteration_moves h
    have hlen := (accepted_of_calls hmoves.calls).length_le
    exact ih (sound_of_iteration hs h) (hbytes.trans hmoves.submitted.flatten) (by omega)
  | @writable s t u n r hr h more ih =>
    have hmoves := iteration_moves h
    refine ih (sound_of_iteration hs h) (hbytes.trans hmoves.submitted.flatten) ?_
    by_cases hb : s.serial.buffer = []
    · -- everything is accepted already
      have hpending : s.serial.pending = [] := hs.pending_eq_nil.mpr hb
      have hlen := (accepted_of_calls hmoves.calls).length_le
      have hall := hbytes.length_le
      rw [← hs.conserved, hpending, List.append_nil] at hall
      omega
    · have := iteration_takes hr hs.front hb h
      omega

/-- Whatever arrives meanwhile, the bytes submitted up to a reachable state are delivered
after as many writable rounds as bytes were pending in it. -/
theorem served_delivery (k : HealthyKernel) {logMask : BitVec 32} {rounds : List Round}
    {s u : Daemon} {n : ℕ} (h : run k.toKernel logMask rounds = .ok s)
    (hserved : Served k.toKernel s n u) (hn : s.serial.pending.length ≤ n) :
    s.serial.submitted.flatten <+: u.serial.accepted := by
  obtain ⟨w, hw, hs⟩ := run_sound k logMask rounds
  rw [h] at hw
  obtain rfl : s.serial = w := Option.some.inj hw
  refine hserved.accepted hs List.prefix_rfl ?_
  rw [← hs.conserved, List.length_append]
  omega

/-- A device that takes one byte in each call. -/
def trickle : HealthyKernel where
  answer _ size := .wrote (min size 1)
  wrote_le h := by
    obtain rfl := WriteResult.wrote.inj h
    exact Nat.min_le_left _ _
  healthy _ _ _ h := by cases h

/-- Only the lamp's descriptor is ready, and for writing. -/
def writableRound : Round where
  serialTty := true
  stdinTty := false
  pollResult := 1
  revents fd := if fd = .serial then POLLOUT else 0
  stale := .replicate 1025 0
  datagram := none
  serialData := []
  key := none
  packet := none

/-- The second byte of the initialization command is delivered in the first round. -/
theorem served_delivery_trickle : ∃ s u, run trickle.toKernel 2 [] = .ok s ∧
    s.iteration trickle.toKernel writableRound = .ok u ∧ ascii "q\n" <+: u.serial.accepted := by
  have htakes : ∀ w, trickle.toKernel.Takes w := fun w size hsize =>
    ⟨1, Nat.one_pos, congrArg WriteResult.wrote (Nat.min_eq_right hsize)⟩
  obtain ⟨s, hs⟩ : ∃ s, run trickle.toKernel 2 [] = .ok s := ⟨_, rfl⟩
  obtain ⟨u, hu⟩ : ∃ u, s.iteration trickle.toKernel writableRound = .ok u := by
    obtain rfl := Except.ok.inj hs
    exact ⟨_, rfl⟩
  have hwritable : Writable trickle.toKernel s writableRound :=
    ⟨by decide, htakes _, by simp [writableRound, POLLOUT, POLLIN]⟩
  have hserved : Served trickle.toKernel s 1 u := .writable writableRound hwritable hu (.here u)
  have hpending : s.serial.pending.length ≤ 1 := by
    obtain rfl := Except.ok.inj hs
    decide
  have hdelivered := served_delivery trickle hs hserved hpending
  refine ⟨s, u, hs, hu, ?_⟩
  obtain rfl := Except.ok.inj hs
  exact hdelivered

end Moodpd
