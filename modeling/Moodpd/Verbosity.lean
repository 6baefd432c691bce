import Moodpd.CommandLine
import Moodpd.LogMask
import Moodpd.RawGate

/-!
# The keys and the modes

The log mask and the raw mode of a running daemon are a matter of the command line and of the
number of `v` and `r` keys. Nothing that arrives on a port or from the lamp changes them.
-/
namespace Moodpd
open Memory HexText Oscpkt Daemon Getopt CommandLine

/-- The log levels that are switched on. -/
inductive Verbosity
  | quiet
  | errors
  | errorsAndInfo
  deriving DecidableEq, Repr

namespace Verbosity

def mask : Verbosity → BitVec 32
  | quiet => 0
  | errors => bit .error
  | errorsAndInfo => bit .error ||| bit .info

/-- The key `v`. -/
def next : Verbosity → Verbosity
  | quiet => errors
  | errors => errorsAndInfo
  | errorsAndInfo => quiet

theorem next_cycle : next^[3] = id := by
  funext v
  cases v <;> rfl

end Verbosity

namespace Daemon

theorem handleMessage_mask (k : Kernel) (msg : Message) (s : Daemon) :
    KeepsMask s (s.handleMessage k msg) := by
  unfold handleMessage
  apply keepsMask_checked
  intro rgb
  cases rgb with
  | some rgb =>
    apply keepsMask_checked
    intro lamp t ht
    rw [writeCommandF_mask k _ _ _ t ht, flog_mask]
  | none =>
    apply keepsMask_checked
    intro ori
    cases ori with
    | some ori =>
      intro t ht
      rw [writeCommandF_mask k _ _ _ t ht, flog_mask]
    | none => exact keepsMask_ok rfl

theorem handleMessages_mask (k : Kernel) (msgs : List Message) (s : Daemon) :
    KeepsMask s (msgs.foldlM (fun s msg => s.handleMessage k msg) s) := by
  induction msgs generalizing s with
  | nil => exact keepsMask_ok rfl
  | cons msg msgs ih =>
    rw [List.foldlM_cons]
    exact keepsMask_bind (handleMessage_mask k msg s) ih

theorem receiveOsc_mask (k : Kernel) (packet : Option (List UInt8)) (s : Daemon) :
    KeepsMask s (s.receiveOsc k packet) := by
  have hflog := flog_mask .info "OSC packet\n" [] s
  unfold receiveOsc
  cases packet with
  | none => exact keepsMask_ok hflog
  | some datagram =>
    intro t ht
    rw [← hflog]
    revert t
    apply keepsMask_checked
    intro pr
    split_ifs
    · exact handleMessages_mask k pr.messages _
    · exact keepsMask_ok rfl

theorem serialReady_mask (k : Kernel) (revents : BitVec 16) (data : List UInt8) (s : Daemon) :
    KeepsMask s (s.serialReady k revents data) := by
  have hwritable : ∀ s : Daemon, KeepsMask s (s.serialWritable k) := by
    intro s t ht
    obtain ⟨p, -, hp⟩ := bind_eq_ok.mp ht
    rw [← Except.ok.inj hp]
    exact flog_mask _ _ _ s
  unfold serialReady
  simp only
  split_ifs
  · exact keepsMask_ok rfl
  · intro t ht
    rw [hwritable _ t ht]
    exact flog_mask _ _ _ s
  · exact hwritable s
  · exact keepsMask_ok (flog_mask _ _ _ s)
  · exact keepsMask_ok rfl

/-- Only the key `v` changes the log mask. -/
theorem handle_mask (k : Kernel) {a : Arrival} (ha : a ≠ .key (some 118)) (s : Daemon) :
    KeepsMask s (s.handle k a) := by
  cases a with
  | command stale datagram => exact command_mask k stale datagram s
  | serial revents data => exact serialReady_mask k revents data s
  | osc packet => exact receiveOsc_mask k packet s
  | key c =>
    cases c with
    | none => exact keepsMask_ok rfl
    | some c =>
      have hc : c ≠ 118 := fun h => ha (by rw [h])
      apply keepsMask_ok
      unfold handleKey
      rw [if_neg hc]
      split_ifs <;> rfl

theorem handleKey_verbosity {v : Verbosity} {s : Daemon} (h : s.logMask = v.mask) :
    (s.handleKey 118).logMask = v.next.mask := by
  have hinfo : s.logs .info = v.mask.getLsbD 0 := by rw [logs, h]; rfl
  have herror : s.logs .error = v.mask.getLsbD 1 := by rw [logs, h]; rfl
  unfold handleKey
  rw [if_neg (by decide), if_pos rfl, hinfo, herror, h]
  cases v <;> rfl

end Daemon

/-- The number of `v` keys among some arrivals. -/
def vKeys (as : List Arrival) : ℕ := as.count (.key (some 118))

theorem handle_verbosity {k : Kernel} {a : Arrival} {v : Verbosity} {s t : Daemon}
    (h : s.logMask = v.mask) (ht : s.handle k a = .ok t) :
    t.logMask = (if a = .key (some 118) then v.next else v).mask := by
  by_cases ha : a = .key (some 118)
  · subst ha
    rw [if_pos rfl, ← Except.ok.inj ht]
    exact handleKey_verbosity h
  · rw [if_neg ha, handle_mask k ha s t ht, h]

/-- Every `v` key takes one step around the cycle. -/
theorem react_verbosity {k : Kernel} {as : List Arrival} {v : Verbosity} {s t : Daemon}
    (h : s.logMask = v.mask) (ht : s.react k as = .ok t) :
    t.logMask = (Verbosity.next^[vKeys as] v).mask := by
  induction as generalizing s v with
  | nil =>
    obtain rfl := Except.ok.inj ht
    exact h
  | cons a as ih =>
    unfold react at ht
    rw [List.foldlM_cons] at ht
    obtain ⟨u, hu, hrest⟩ := bind_eq_ok.mp ht
    rw [ih (handle_verbosity h hu) hrest, vKeys, vKeys, List.count_cons]
    by_cases ha : a = .key (some 118)
    · rw [if_pos ha, if_pos (by simpa using ha), Function.iterate_succ_apply]
    · rw [if_neg ha, if_neg (by simpa using ha), Nat.add_zero]

namespace CommandLine

theorem logFlag_verbosity {comm : Word} {s t : Settings} {c : UInt8} {v : Verbosity}
    (hs : s.logMask = v.mask) (h : logFlag comm s c = .ok t) : ∃ v : Verbosity, t.logMask = v.mask := by
  unfold logFlag exit at h
  rw [hs] at h
  split_ifs at h
  · obtain rfl := Except.ok.inj h
    exact ⟨.errorsAndInfo, by cases v <;> rfl⟩
  · obtain rfl := Except.ok.inj h
    cases v with
    | quiet => exact ⟨.errors, rfl⟩
    | errors => exact ⟨.errors, rfl⟩
    | errorsAndInfo => exact ⟨.errorsAndInfo, rfl⟩
  · obtain rfl := Except.ok.inj h
    exact ⟨.quiet, rfl⟩

theorem logFlags_verbosity {comm : Word} {flags : List UInt8} {s t : Settings}
    (hs : ∃ v : Verbosity, s.logMask = v.mask) (h : flags.foldlM (logFlag comm) s = .ok t) :
    ∃ v : Verbosity, t.logMask = v.mask := by
  induction flags generalizing s with
  | nil =>
    obtain rfl := Except.ok.inj h
    exact hs
  | cons c flags ih =>
    obtain ⟨u, hc, hflags⟩ := bind_eq_ok.mp h
    obtain ⟨v, hv⟩ := hs
    exact ih (logFlag_verbosity hv hc) hflags

theorem handleOption_verbosity {fork : ℕ → ℤ} {comm : Word} {opt : UInt8} {optarg : Option Word}
    {s t : Settings} (hs : ∃ v : Verbosity, s.logMask = v.mask)
    (h : handleOption fork comm opt optarg s = .ok t) : ∃ v : Verbosity, t.logMask = v.mask := by
  unfold handleOption exit at h
  split_ifs at h
  · cases optarg with
    | none => cases h
    | some flags => exact logFlags_verbosity hs h
  · simp only [daemonize, exit] at h
    split_ifs at h
    obtain rfl := Except.ok.inj h
    exact hs
  · cases optarg with
    | none => cases h
    | some tty =>
      obtain rfl := Except.ok.inj h
      exact hs
  · obtain rfl := Except.ok.inj h
    exact hs

/-- Any flags in any order leave the daemon quiet, or with errors, or with errors and
information. -/
theorem parseOptions_verbosity {fork : ℕ → ℤ} {comm : Word} {args : List Word} {s : Settings}
    (h : parseOptions fork comm args = .ok s) : ∃ v : Verbosity, s.logMask = v.mask :=
  Getopt.run_invariant (P := fun s => ∃ v : Verbosity, s.logMask = v.mask)
    (fun _ _ _ _ hs ht => handleOption_verbosity hs ht) _ ⟨.errors, rfl⟩ h

/-- The daemon with the settings of a command line after some arrivals. -/
def Settings.live (k : Kernel) (s : Settings) (arrivals : List Arrival) : Except Halt Daemon := do
  let d ← s.start k
  d.react k arrivals

end CommandLine

/-- After any command line and any arrivals, the number of `v` keys modulo 3 gives the log mask
and the number of `r` keys modulo 2 the raw mode. -/
theorem modes_of_keys {fork : ℕ → ℤ} {comm : Word} {args : List Word} {settings : Settings}
    (h : parseOptions fork comm args = .ok settings) (k : Kernel) {arrivals : List Arrival}
    {s : Daemon} (hs : settings.live k arrivals = .ok s) :
    ∃ v : Verbosity, settings.logMask = v.mask ∧
      s.logMask = (Verbosity.next^[vKeys arrivals % 3] v).mask ∧
      s.allowRawMode = decide (rKeys arrivals % 2 = 1) := by
  obtain ⟨v, hv⟩ := parseOptions_verbosity h
  unfold Settings.live at hs
  rw [start_of_parseOptions k h] at hs
  obtain ⟨d, hd, hrun⟩ := bind_eq_ok.mp hs
  have hmask : d.logMask = v.mask := by
    unfold Daemon.start at hd
    obtain ⟨e, he, hlog⟩ := bind_eq_ok.mp hd
    rw [← Except.ok.inj hlog, flog_mask, write_mask k _ _ e he]
    exact hv
  have hraw : d.allowRawMode = false := by
    rcases start_cases k settings.logMask with ⟨e, he, hoff, -⟩ | ⟨_, _, he, -⟩
    · rw [Except.ok.inj (hd.symm.trans he)]
      exact hoff
    · rw [hd] at he
      cases he
  refine ⟨v, hv, ?_, ?_⟩
  · have hmod : Verbosity.next^[vKeys arrivals % 3] v = Verbosity.next^[vKeys arrivals] v := by
      conv_rhs => rw [← Nat.mod_add_div (vKeys arrivals) 3, Function.iterate_add,
        Function.iterate_mul, Verbosity.next_cycle, Function.iterate_id]
      rfl
    rw [hmod]
    exact react_verbosity hmask hrun
  · rw [((handle_refines k).run hrun).1, hraw, final_eq_parity, Bool.false_xor]

/-- Without options, after the keys `v` and `r`. -/
theorem modes_of_keys_two : ∃ s, initial.live blocked.toKernel
      [.key (some 118), .key (some 114)] = .ok s ∧
    ∃ v : Verbosity, initial.logMask = v.mask ∧
      s.logMask = (Verbosity.next^[vKeys [.key (some 118), .key (some 114)] % 3] v).mask ∧
      s.allowRawMode = decide (rKeys [.key (some 118), .key (some 114)] % 2 = 1) :=
  have hparsed : parseOptions (fun _ => 0) (ascii "moodpd") [] = .ok initial := run_end initial
  ⟨_, rfl, modes_of_keys hparsed blocked.toKernel rfl⟩

end Moodpd
