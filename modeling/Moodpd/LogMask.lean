import Moodpd.DaemonRuns

/-!
# The log mask

A datagram on the command port leaves the log mask as it is.
-/
namespace Moodpd
open Memory HexText Daemon

/-- A reaction that goes on leaves the log mask as it is. -/
def KeepsMask (s : Daemon) (r : Except Halt Daemon) : Prop :=
  ∀ t, r = .ok t → t.logMask = s.logMask

theorem keepsMask_ok {s t : Daemon} (h : t.logMask = s.logMask) : KeepsMask s (.ok t) := by
  intro u hu
  rw [← Except.ok.inj hu, h]

theorem keepsMask_bind {s : Daemon} {r : Except Halt Daemon} {f : Daemon → Except Halt Daemon}
    (hr : KeepsMask s r) (hf : ∀ t, KeepsMask t (f t)) : KeepsMask s (r >>= f) := by
  intro u hu
  obtain ⟨t, ht, htu⟩ := bind_eq_ok.mp hu
  rw [hf t u htu, hr t ht]

/-- What fails or goes on in the same state first keeps the mask if the rest does. -/
theorem keepsMask_checked {α : Type} {s : Daemon} {c : Checked α} {f : α → Except Halt Daemon}
    (hf : ∀ a, KeepsMask s (f a)) : KeepsMask s (checked c >>= f) := by
  cases c with
  | error e =>
    intro u hu
    simp [checked] at hu
  | ok a => exact hf a

namespace Daemon

theorem flog_mask (level : Loglevel) (fmt : String) (args : List LogArg) (s : Daemon) :
    (s.flog level fmt args).logMask = s.logMask := by
  unfold flog
  split_ifs <;> rfl

theorem foldl_fprintf_mask (f : UInt8 → String × List LogArg) (data : Chunk) (s : Daemon) :
    (data.foldl (fun s b => s.fprintf (f b).1 (f b).2) s).logMask = s.logMask := by
  induction data generalizing s with
  | nil => rfl
  | cons b data ih => exact ih _

theorem logCommand_mask (data : Chunk) (s : Daemon) :
    (s.logCommand data).logMask = s.logMask :=
  (foldl_fprintf_mask (fun b => (if isprint b then "%c" else "\\x%02X", [.int (promote b)]))
    data _).trans (flog_mask _ _ _ s)

theorem logRaw_mask (data : Chunk) (s : Daemon) : (s.logRaw data).logMask = s.logMask :=
  (foldl_fprintf_mask (fun b => ("%02X ", [.int b.toNat])) data _).trans (flog_mask _ _ _ s)

theorem write_mask (k : Kernel) (data : Chunk) (s : Daemon) : KeepsMask s (s.write k data) := by
  intro t ht
  obtain ⟨w, -, hw⟩ := bind_eq_ok.mp ht
  rw [← Except.ok.inj hw]

theorem writeCommandF_mask (k : Kernel) (fmt : List Piece) (args : List ℤ) (s : Daemon) :
    KeepsMask s (s.writeCommandF k fmt args) := by
  unfold writeCommandF writeCommand
  simp only
  split_ifs
  · intro t ht
    cases ht
  · apply keepsMask_checked
    intro data
    apply keepsMask_bind (write_mask k data s)
    intro t
    split_ifs
    · exact keepsMask_ok (logCommand_mask _ _)
    · exact keepsMask_ok rfl
  · intro t ht
    cases ht

theorem parseMessage_mask (k : Kernel) (type : UInt8) (mem : List UInt8) (message msgsize : ℕ)
    (s : Daemon) : KeepsMask s (s.parseMessage k type mem message msgsize) := by
  unfold parseMessage
  split_ifs
  · exact keepsMask_ok (flog_mask _ _ _ _)
  · apply keepsMask_checked
    intro data
    apply keepsMask_bind (write_mask k data s)
    intro t
    split_ifs
    · exact keepsMask_ok (logRaw_mask _ _)
    · exact keepsMask_ok rfl
  · apply keepsMask_checked
    intro mem
    apply keepsMask_checked
    intro text
    simp only
    split_ifs
    · exact keepsMask_ok (flog_mask _ _ _ _)
    · exact writeCommandF_mask _ _ _ _
  · exact keepsMask_ok (flog_mask _ _ _ _)

/-- The command port never changes the log mask. -/
theorem command_mask (k : Kernel) (stale : Stale) (datagram : Option (List UInt8)) (s : Daemon) :
    KeepsMask s (s.handle k (.command stale datagram)) := by
  unfold handle receiveCommand logerror
  simp only
  split_ifs
  · exact keepsMask_ok (flog_mask _ _ _ _)
  · apply keepsMask_checked
    intro accepted
    cases accepted with
    | none => exact keepsMask_ok (flog_mask _ _ _ _)
    | some mem =>
      apply keepsMask_checked
      intro type
      exact parseMessage_mask k type mem _ _ s

end Daemon

end Moodpd
