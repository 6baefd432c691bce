import Moodpd.Memory

/-!
# Buffered writes to a non-blocking descriptor

The write queue of `NonblockWriter`. The answers of `::write` come from a `Kernel`, an
arbitrary function of the number of the call and of the size offered. The writer's state
also records the calls made and the chunks submitted, which the code does not keep.
-/
namespace Moodpd
open Memory

abbrev Chunk := List UInt8

/-- What `::write` returns: a count, or -1 with `EAGAIN`/`EWOULDBLOCK` or another errno. -/
inductive WriteResult
  | wrote (n : ℕ)
  | again
  | failed (errno : ℕ)
  deriving DecidableEq, Repr

/-- The answer to each call of `::write`, which never accepts more than it is offered. -/
structure Kernel where
  answer : ℕ → ℕ → WriteResult
  wrote_le : ∀ {i size n}, answer i size = .wrote n → n ≤ size

/-- A kernel whose `::write` fails with `EAGAIN` or `EWOULDBLOCK` only. -/
structure HealthyKernel extends Kernel where
  healthy : ∀ i size e, answer i size ≠ .failed e

/-- A device that never takes a byte. -/
def blocked : HealthyKernel where
  answer _ _ := .again
  wrote_le h := by cases h
  healthy _ _ _ h := by cases h

structure Call where
  data : Chunk
  result : WriteResult
  deriving DecidableEq, Repr

def Call.accepted (c : Call) : Chunk :=
  match c.result with
  | .wrote n => c.data.take n
  | _ => []

structure NonblockWriter where
  buffer : List Chunk
  calls : List Call
  submitted : List Chunk
  deriving DecidableEq, Repr

/-- Why a run of the daemon ends: a broken check of the model, or `exit(1)` with the
serial link as it then is. -/
inductive Halt
  | fault (f : Fault)
  | writeFailed (errno : ℕ) (w : NonblockWriter)
  | fail (msg : String) (w : NonblockWriter)
  | badFd (w : NonblockWriter)
  deriving DecidableEq, Repr

/-- The serial link as the end of the daemon leaves it. -/
def Halt.writer : Halt → Option NonblockWriter
  | .fault _ => none
  | .writeFailed _ w => some w
  | .fail _ w => some w
  | .badFd w => some w

def Halt.submitted (h : Halt) : List Chunk := (h.writer.map NonblockWriter.submitted).getD []

namespace NonblockWriter

def empty : NonblockWriter := ⟨[], [], []⟩

/-- Write a piece of data without buffering, and return the number of bytes written. -/
def writeToFile (k : Kernel) (w : NonblockWriter) (data : Chunk) :
    Except Halt (ℕ × NonblockWriter) :=
  let result := k.answer w.calls.length data.length
  let w := { w with calls := w.calls ++ [⟨data, result⟩] }
  match result with
  | .wrote n => .ok (n, w)
  | .again => .ok (0, w)
  | .failed errno => .error (.writeFailed errno w)

/-- The loop of `flush` over a queue: a chunk written whole is popped, any other loses the
bytes written and ends the loop. -/
def flushLoop (k : Kernel) : List Chunk → NonblockWriter → Except Halt (Bool × NonblockWriter)
  | [], w => .ok (true, { w with buffer := [] })
  | front :: rest, w => do
    let (sz, w) ← writeToFile k { w with buffer := front :: rest } front
    if sz = front.length then flushLoop k rest w
    else .ok (false, { w with buffer := front.drop sz :: rest })

def flush (k : Kernel) (w : NonblockWriter) : Except Halt (Bool × NonblockWriter) :=
  flushLoop k w.buffer w

def writeBufferEmpty (w : NonblockWriter) : Bool := w.buffer.isEmpty

def write (k : Kernel) (data : Chunk) (w : NonblockWriter) : Except Halt NonblockWriter := do
  let w := { w with buffer := w.buffer ++ [data], submitted := w.submitted ++ [data] }
  let (_, w) ← flush k w
  .ok w

def getWritebufferSize (w : NonblockWriter) : ℕ :=
  w.buffer.foldl (fun ret chunk => ret + chunk.length) 0

def writeAll (k : Kernel) (chunks : List Chunk) (w : NonblockWriter) :
    Except Halt NonblockWriter :=
  chunks.foldlM (fun w data => write k data w) w

def accepted (w : NonblockWriter) : Chunk := w.calls.flatMap Call.accepted

def pending (w : NonblockWriter) : Chunk := w.buffer.flatten

theorem writeToFile_ok (k : HealthyKernel) (w : NonblockWriter) (data : Chunk) :
    ∃ n ≤ data.length, ∃ call : Call, call.accepted = data.take n ∧
      writeToFile k.toKernel w data = .ok (n, { w with calls := w.calls ++ [call] }) := by
  cases h : k.answer w.calls.length data.length with
  | wrote n =>
    exact ⟨n, k.wrote_le h, ⟨data, .wrote n⟩, rfl, by simp [writeToFile, h]⟩
  | again => exact ⟨0, Nat.zero_le _, ⟨data, .again⟩, by simp [Call.accepted], by simp [writeToFile, h]⟩
  | failed e => exact absurd h (k.healthy _ _ e)

def FrontNonempty (w : NonblockWriter) : Prop := ∀ front ∈ w.buffer.head?, front ≠ []

/-- What a completed flush of a queue has done: nothing is lost, the front chunk is not
empty, and the result tells whether the queue is. -/
structure Flushed (queue : List Chunk) (w : NonblockWriter) (done : Bool) (w' : NonblockWriter) :
    Prop where
  conserved : w'.accepted ++ w'.pending = w.accepted ++ queue.flatten
  submitted : w'.submitted = w.submitted
  front : w'.FrontNonempty
  done_iff : done = true ↔ w'.buffer = []

theorem flushLoop_ok (k : HealthyKernel) (queue : List Chunk) (w : NonblockWriter) :
    ∃ done w', flushLoop k.toKernel queue w = .ok (done, w') ∧ Flushed queue w done w' := by
  induction queue generalizing w with
  | nil =>
    exact ⟨true, _, rfl, by simp [accepted, pending], rfl, by simp [FrontNonempty], by simp⟩
  | cons front rest ih =>
    obtain ⟨n, hn, call, hc, hw⟩ := writeToFile_ok k { w with buffer := front :: rest } front
    by_cases he : n = front.length
    · obtain ⟨done, w', hl, hf⟩ :=
        ih { w with buffer := front :: rest, calls := w.calls ++ [call] }
      refine ⟨done, w', by simp [flushLoop, hw, he, hl], ?_, hf.submitted, hf.front, hf.done_iff⟩
      rw [hf.conserved]
      simp [accepted, hc, he]
    · refine ⟨false, { w with buffer := front.drop n :: rest, calls := w.calls ++ [call] },
        by simp [flushLoop, hw, he], ?_, rfl, ?_, by simp⟩
      · simp only [accepted, pending, List.flatMap_append, List.flatMap_singleton, hc,
          List.flatten_cons, List.append_assoc]
        rw [← List.append_assoc (front.take n), List.take_append_drop]
      · simp only [FrontNonempty, List.head?_cons, Option.mem_some_iff, forall_eq', ne_eq,
          List.drop_eq_nil_iff]
        omega

theorem flush_ok (k : HealthyKernel) (w : NonblockWriter) :
    ∃ done w', flush k.toKernel w = .ok (done, w') ∧ Flushed w.buffer w done w' :=
  flushLoop_ok k w.buffer w

structure Written (data : Chunk) (w w' : NonblockWriter) : Prop where
  conserved : w'.accepted ++ w'.pending = w.accepted ++ w.pending ++ data
  submitted : w'.submitted = w.submitted ++ [data]
  front : w'.FrontNonempty

theorem write_ok (k : HealthyKernel) (data : Chunk) (w : NonblockWriter) :
    ∃ w', write k.toKernel data w = .ok w' ∧ Written data w w' := by
  obtain ⟨done, w', hl, hf⟩ :=
    flush_ok k { w with buffer := w.buffer ++ [data], submitted := w.submitted ++ [data] }
  refine ⟨w', by simp [write, hl], ?_, hf.submitted, hf.front⟩
  rw [hf.conserved]
  simp [accepted, pending]

theorem writeAll_ok (k : HealthyKernel) (chunks : List Chunk) (w : NonblockWriter) :
    ∃ w', writeAll k.toKernel chunks w = .ok w' ∧ w'.submitted = w.submitted ++ chunks := by
  induction chunks generalizing w with
  | nil => exact ⟨w, rfl, by simp⟩
  | cons data chunks ih =>
    obtain ⟨w₁, h₁, hw⟩ := write_ok k data w
    obtain ⟨w₂, h₂, hs⟩ := ih w₁
    refine ⟨w₂, ?_, by simp [hs, hw.submitted]⟩
    simpa [writeAll, List.foldlM_cons, h₁] using h₂

theorem writeToFile_submitted (k : Kernel) (w : NonblockWriter) (data : Chunk) :
    (∃ n w', writeToFile k w data = .ok (n, w') ∧ w'.submitted = w.submitted) ∨
    ∃ errno w', writeToFile k w data = .error (.writeFailed errno w') ∧
      w'.submitted = w.submitted := by
  unfold writeToFile
  cases k.answer w.calls.length data.length with
  | wrote n => exact .inl ⟨n, _, rfl, rfl⟩
  | again => exact .inl ⟨0, _, rfl, rfl⟩
  | failed errno => exact .inr ⟨errno, _, rfl, rfl⟩

theorem flushLoop_submitted (k : Kernel) (queue : List Chunk) (w : NonblockWriter) :
    (∃ done w', flushLoop k queue w = .ok (done, w') ∧ w'.submitted = w.submitted) ∨
    ∃ errno w', flushLoop k queue w = .error (.writeFailed errno w') ∧
      w'.submitted = w.submitted := by
  induction queue generalizing w with
  | nil => exact .inl ⟨true, _, rfl, rfl⟩
  | cons front rest ih =>
    unfold flushLoop
    rcases writeToFile_submitted k { w with buffer := front :: rest } front with
      ⟨n, w₁, hw, hs⟩ | ⟨errno, w₁, hw, hs⟩
    · simp only [hw, ok_bind]
      by_cases he : n = front.length
      · rw [if_pos he]
        have hi := ih w₁
        rw [hs] at hi
        exact hi
      · rw [if_neg he]
        exact .inl ⟨false, _, rfl, hs⟩
    · exact .inr ⟨errno, w₁, by simp [hw], hs⟩

/-- A chunk is submitted before the call of `::write` that may fail. -/
theorem write_submitted (k : Kernel) (data : Chunk) (w : NonblockWriter) :
    (∃ w', write k data w = .ok w' ∧ w'.submitted = w.submitted ++ [data]) ∨
    ∃ errno w', write k data w = .error (.writeFailed errno w') ∧
      w'.submitted = w.submitted ++ [data] := by
  unfold write flush
  rcases flushLoop_submitted k (w.buffer ++ [data])
    ⟨w.buffer ++ [data], w.calls, w.submitted ++ [data]⟩ with ⟨done, w', hf, hs⟩ | ⟨e, w', hf, hs⟩
  · exact .inl ⟨w', by simp [hf], hs⟩
  · exact .inr ⟨e, w', by simp [hf], hs⟩

/-- A sequence of writes submits its chunks, or those up to a call of `::write` that failed. -/
theorem writeAll_submitted (k : Kernel) (chunks : List Chunk) (w : NonblockWriter) :
    (∃ w', writeAll k chunks w = .ok w' ∧ w'.submitted = w.submitted ++ chunks) ∨
    ∃ errno w' n, writeAll k chunks w = .error (.writeFailed errno w') ∧
      w'.submitted = w.submitted ++ chunks.take n := by
  induction chunks generalizing w with
  | nil => exact .inl ⟨w, rfl, by simp⟩
  | cons data chunks ih =>
    have hstep : writeAll k (data :: chunks) w = (do
        let w ← write k data w
        writeAll k chunks w) := rfl
    rw [hstep]
    rcases write_submitted k data w with ⟨w₁, hw₁, hs⟩ | ⟨e, w₁, hw₁, hs⟩
    · rw [hw₁, ok_bind]
      rcases ih w₁ with ⟨w', hw, hs'⟩ | ⟨e, w', n, hw, hs'⟩
      · exact .inl ⟨w', hw, by simp [hs', hs]⟩
      · exact .inr ⟨e, w', n + 1, hw, by simp [hs', hs]⟩
    · exact .inr ⟨e, w₁, 1, by simp [hw₁], by simp [hs]⟩

/-- Every byte submitted is accepted or still queued, in order, and the queue is empty or
starts with a byte to write. -/
structure Sound (w : NonblockWriter) : Prop where
  conserved : w.accepted ++ w.pending = w.submitted.flatten
  front : w.FrontNonempty

theorem sound_empty : empty.Sound :=
  ⟨by simp [empty, accepted, pending], by simp [empty, FrontNonempty]⟩

theorem Sound.flush {queue : List Chunk} {w w' : NonblockWriter} {done : Bool} (h : w.Sound)
    (hq : queue = w.buffer) (hf : Flushed queue w done w') : w'.Sound :=
  ⟨by rw [hf.conserved, hq, hf.submitted]; exact h.conserved, hf.front⟩

theorem Sound.write {data : Chunk} {w w' : NonblockWriter} (h : w.Sound)
    (hw : Written data w w') : w'.Sound :=
  ⟨by rw [hw.conserved, hw.submitted, h.conserved]; simp, hw.front⟩

theorem Sound.writeAll {k : HealthyKernel} {chunks : List Chunk} {w w' : NonblockWriter}
    (h : w.Sound) (hw : writeAll k.toKernel chunks w = .ok w') : w'.Sound := by
  induction chunks generalizing w with
  | nil =>
    obtain rfl : w = w' := by simpa [NonblockWriter.writeAll] using hw
    exact h
  | cons data chunks ih =>
    obtain ⟨w₁, h₁, hs⟩ := write_ok k data w
    refine ih (h.write hs) ?_
    simpa [NonblockWriter.writeAll, List.foldlM_cons, h₁] using hw

theorem Sound.pending_eq_nil {w : NonblockWriter} (h : w.Sound) :
    w.pending = [] ↔ w.buffer = [] := by
  constructor
  · intro hp
    cases hb : w.buffer with
    | nil => rfl
    | cons front rest =>
      have hf := h.front front (by simp [hb])
      simp [pending, hb, hf] at hp
  · intro hb
    simp [pending, hb]

theorem getWritebufferSize_eq (w : NonblockWriter) :
    w.getWritebufferSize = w.pending.length := by
  have general : ∀ (chunks : List Chunk) (n : ℕ),
      chunks.foldl (fun ret chunk => ret + chunk.length) n = n + chunks.flatten.length := by
    intro chunks
    induction chunks with
    | nil => simp
    | cons c chunks ih => intro n; simp [ih, Nat.add_assoc]
  simp [getWritebufferSize, general, pending]

end NonblockWriter

end Moodpd
