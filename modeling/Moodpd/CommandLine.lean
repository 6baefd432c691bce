import Moodpd.Daemon
import Moodpd.Getopt

/-!
# The command line

The option loop at the start of the daemon, and what the help text promises of it. The option
string lacks the documented `-r`.
-/
namespace Moodpd.CommandLine
open Memory HexText Getopt

/-- What the option loop works on. Standard output and the calls of `fork` are recorded. -/
structure Settings where
  allowRawMode : Bool
  logMask : BitVec 32
  lamptty : Word
  stdout : List UInt8
  forks : ℕ
  deriving DecidableEq, Repr

/-- The program ends before the loop does, or faults. -/
inductive Stop
  | exit (status : ℕ) (stdout : List UInt8)
  | fault (f : Fault)
  deriving DecidableEq, Repr

def exit (status : ℕ) (s : Settings) : Except Stop Settings := .error (.exit status s.stdout)

def bit (level : Loglevel) : BitVec 32 := 1 <<< level.toNat

def initial : Settings := ⟨false, bit .error, ascii "/dev/ttyUSB0", [], 0⟩

def usage (comm : Word) : List UInt8 :=
  ascii "use: " ++ comm ++ ascii " [options]\n" ++
    ascii "options:\n    -h              print this text.\n" ++
    ascii "    -r              allow raw mode (default off)\n" ++
    ascii "    -l FLAGS        set logging flags\n" ++
    ascii "                        e: log error messages (default)\n" ++
    ascii "                        i: log error and informational messages\n" ++
    ascii "                        q: quiet mode, don't log anything\n" ++
    ascii "                    flags can be combined.\n" ++
    ascii "    -d              daemonize\n" ++
    ascii "    -t TTYNAME      set moodlamp tty [/dev/ttyUSB0]\n\n"

def Settings.printf (s : Settings) (text : List UInt8) : Settings :=
  { s with stdout := s.stdout ++ text }

def printHelp (comm : Word) (s : Settings) : Settings := s.printf (usage comm)

/-- One character of the argument of `-l`. The case `i` falls through to `e`. -/
def logFlag (comm : Word) (s : Settings) (c : UInt8) : Except Stop Settings :=
  if c = 105 then .ok { s with logMask := s.logMask ||| bit .info ||| bit .error }
  else if c = 101 then .ok { s with logMask := s.logMask ||| bit .error }
  else if c = 113 then .ok { s with logMask := 0 }
  else
    exit 1 (printHelp comm (s.printf (ascii "unknown logging flag -- '" ++ [c] ++ ascii "'\n")))

/-- `fork` answers its calls by their number. -/
def daemonize (fork : ℕ → ℤ) (s : Settings) : Except Stop Settings :=
  let i := fork s.forks
  let s := { s with forks := s.forks + 1 }
  if i < 0 then exit 1 s else if i > 0 then exit 0 s else .ok s

/-- The cases of the option loop. -/
def handleOption (fork : ℕ → ℤ) (comm : Word) (opt : UInt8) (optarg : Option Word)
    (s : Settings) : Except Stop Settings :=
  if opt = 63 then exit 1 (printHelp comm s)
  else if opt = 104 then exit 0 (printHelp comm s)
  else if opt = 108 then
    match optarg with
    | none => .error (.fault .outOfBounds)
    | some flags => flags.foldlM (logFlag comm) s
  else if opt = 100 then daemonize fork s
  else if opt = 116 then
    match optarg with
    | none => exit 1 (printHelp comm s)
    | some tty => .ok { s with lamptty := tty }
  else .ok s

def optstring : List UInt8 := ascii "hl:dt:"

/-- The loop over the words behind the name of the program. -/
def parseOptions (fork : ℕ → ℤ) (comm : Word) (args : List Word) : Except Stop Settings :=
  run optstring (handleOption fork comm) ⟨[], args⟩ initial

inductive LogFlag
  | e
  | i
  | q
  deriving DecidableEq, Repr

namespace LogFlag

def char : LogFlag → UInt8
  | e => 101
  | i => 105
  | q => 113

/-- Add errors, add errors and info, log nothing. -/
def apply (mask : BitVec 32) : LogFlag → BitVec 32
  | e => mask ||| 2
  | i => mask ||| 3
  | q => 0

end LogFlag

/-- The options without an argument. -/
inductive Plain
  | raw
  | daemon
  deriving DecidableEq, Repr

def Plain.char : Plain → UInt8
  | raw => 114
  | daemon => 100

/-- The options with an argument. -/
inductive Valued
  | log (flag : LogFlag) (flags : List LogFlag)
  | tty (name : Word)
  deriving DecidableEq, Repr

namespace Valued

def char : Valued → UInt8
  | log _ _ => 108
  | tty _ => 116

def arg : Valued → Word
  | log flag flags => (flag :: flags).map LogFlag.char
  | tty name => name

end Valued

/-- One option, its argument included. -/
inductive Documented
  | plain (p : Plain)
  | valued (v : Valued)
  deriving DecidableEq, Repr

/-- Options as they are written: any number in one word, of which only the last has an argument,
in the same word or in the next. -/
inductive Group
  | plain (p : Plain) (ps : List Plain)
  | attached (ps : List Plain) (v : Valued) (hv : v.arg ≠ [])
  | detached (ps : List Plain) (v : Valued)

namespace Group

def words : Group → List Word
  | plain p ps => [dash :: (p :: ps).map Plain.char]
  | attached ps v _ => [dash :: (ps.map Plain.char ++ v.char :: v.arg)]
  | detached ps v => [dash :: (ps.map Plain.char ++ [v.char]), v.arg]

def options : Group → List Documented
  | plain p ps => (p :: ps).map .plain
  | attached ps v _ => ps.map .plain ++ [.valued v]
  | detached ps v => ps.map .plain ++ [.valued v]

end Group

def Documented.flags : Documented → List LogFlag
  | valued (.log flag flags) => flag :: flags
  | _ => []

def Documented.ttyName : Documented → Option Word
  | valued (.tty name) => some name
  | _ => none

/-- The loop ends, nothing is printed, and the settings are those that the options ask for. -/
def ParsedAsDocumented (fork : ℕ → ℤ) (comm : Word) (line : List Group) : Prop :=
  ∃ s, parseOptions fork comm (line.flatMap Group.words) = .ok s ∧ s.stdout = [] ∧
    (s.allowRawMode = true ↔ .plain .raw ∈ line.flatMap Group.options) ∧
    s.lamptty = ((line.flatMap Group.options).filterMap Documented.ttyName).getLast?.getD
      (ascii "/dev/ttyUSB0") ∧
    s.logMask = ((line.flatMap Group.options).flatMap Documented.flags).foldl LogFlag.apply 2

/-- What the loop does on one option. -/
def step (fork : ℕ → ℤ) (comm : Word) (s : Settings) : Documented → Except Stop Settings
  | .plain p => handleOption fork comm (report optstring p.char) none s
  | .valued v => handleOption fork comm v.char (some v.arg) s

theorem Plain.kind_ne (p : Plain) : kind optstring p.char ≠ some .argument := by
  cases p <;> decide

theorem Valued.kind_eq (v : Valued) : kind optstring v.char = some .argument := by
  cases v <;> rfl

theorem Plain.char_ne (p : Plain) : p.char ≠ dash := by
  cases p <;> decide

theorem Valued.char_ne (v : Valued) : v.char ≠ dash := by
  cases v <;> simp [char, dash]

variable {fork : ℕ → ℤ} {comm : Word}

theorem run_plain (ps : List Plain) (group : Word) (words : List Word) (s : Settings) :
    run optstring (handleOption fork comm) ⟨ps.map Plain.char ++ group, words⟩ s =
      (ps.map Documented.plain).foldlM (step fork comm) s >>=
        run optstring (handleOption fork comm) ⟨group, words⟩ := by
  have hps : ∀ c ∈ ps.map Plain.char, kind optstring c ≠ some .argument := by
    intro c hc
    obtain ⟨p, _, rfl⟩ := List.mem_map.mp hc
    exact p.kind_ne
  rw [run_letters hps, List.foldlM_map, List.foldlM_map]
  rfl

/-- A word that begins with options without an argument is opened. -/
theorem run_open (ps : List Plain) {c : UInt8} (hc : c ≠ dash) (group : Word)
    (words : List Word) (s : Settings) :
    run optstring (handleOption fork comm)
        ⟨[], (dash :: (ps.map Plain.char ++ c :: group)) :: words⟩ s =
      run optstring (handleOption fork comm) ⟨ps.map Plain.char ++ c :: group, words⟩ s := by
  cases ps with
  | nil => exact run_word hc _ _ _
  | cons p ps => exact run_word p.char_ne _ _ _

theorem run_group (g : Group) (words : List Word) (s : Settings) :
    run optstring (handleOption fork comm) ⟨[], g.words ++ words⟩ s =
      g.options.foldlM (step fork comm) s >>=
        run optstring (handleOption fork comm) ⟨[], words⟩ := by
  cases g with
  | plain p ps =>
    have hword : (p :: ps).map Plain.char = (p :: ps).map Plain.char ++ [] :=
      (List.append_nil _).symm
    refine (run_word p.char_ne _ _ _).trans ?_
    rw [← List.map_cons, hword]
    exact run_plain (p :: ps) [] words s
  | attached ps v hv =>
    simp only [Group.words, Group.options, List.cons_append, List.nil_append]
    rw [run_open ps v.char_ne, run_plain, List.foldlM_append, bind_assoc]
    refine congrArg _ (funext fun t => ?_)
    rw [run_attached v.kind_eq hv, List.foldlM_cons, bind_assoc]
    rfl
  | detached ps v =>
    simp only [Group.words, Group.options, List.cons_append, List.nil_append]
    rw [run_open ps v.char_ne, run_plain, List.foldlM_append, bind_assoc]
    refine congrArg _ (funext fun t => ?_)
    rw [run_detached v.kind_eq, List.foldlM_cons, bind_assoc]
    rfl

/-- The loop handles the options of the line in order. -/
theorem parseOptions_line (line : List Group) :
    parseOptions fork comm (line.flatMap Group.words) =
      (line.flatMap Group.options).foldlM (step fork comm) initial := by
  have hrun : ∀ s, run optstring (handleOption fork comm) ⟨[], line.flatMap Group.words⟩ s =
      (line.flatMap Group.options).foldlM (step fork comm) s := by
    induction line with
    | nil => exact fun s => run_end s
    | cons g line ih =>
      intro s
      rw [List.flatMap_cons, List.flatMap_cons, run_group, List.foldlM_append]
      exact congrArg _ (funext ih)
  exact hrun initial

/-- From `s` to `t` the settings change as the options ask, and nothing is printed. -/
structure Follows (os : List Documented) (s t : Settings) : Prop where
  stdout : t.stdout = s.stdout
  allowRawMode : t.allowRawMode = s.allowRawMode
  lamptty : t.lamptty = (os.filterMap Documented.ttyName).getLast?.getD s.lamptty
  logMask : t.logMask = (os.flatMap Documented.flags).foldl LogFlag.apply s.logMask

theorem Follows.refl (s : Settings) : Follows [] s s := ⟨rfl, rfl, rfl, rfl⟩

theorem Follows.cons {o : Documented} {os : List Documented} {s t u : Settings}
    (h : Follows [o] s t) (h' : Follows os t u) : Follows (o :: os) s u := by
  refine ⟨h'.stdout.trans h.stdout, h'.allowRawMode.trans h.allowRawMode, ?_, ?_⟩
  · rw [h'.lamptty, h.lamptty]
    cases ho : o.ttyName with
    | none => simp [ho]
    | some name => simp [ho, List.getLast?_cons]
  · rw [h'.logMask, h.logMask, ← List.foldl_append, List.flatMap_singleton, List.flatMap_cons]

theorem logFlag_char (f : LogFlag) (s : Settings) :
    logFlag comm s f.char = .ok { s with logMask := f.apply s.logMask } := by
  cases f with
  | e => rfl
  | i =>
    have hbits : s.logMask ||| bit .info ||| bit .error = s.logMask ||| 3 :=
      BitVec.or_assoc _ _ _
    exact congrArg (fun mask => Except.ok { s with logMask := mask }) hbits
  | q => rfl

/-- The inner loop is the left-to-right result over the flags. -/
theorem logFlags_chars (fs : List LogFlag) (s : Settings) :
    (fs.map LogFlag.char).foldlM (logFlag comm) s =
      .ok { s with logMask := fs.foldl LogFlag.apply s.logMask } := by
  induction fs generalizing s with
  | nil => rfl
  | cons f fs ih =>
    rw [List.map_cons, List.foldlM_cons, logFlag_char]
    exact ih _

theorem step_raw (s : Settings) :
    step fork comm s (.plain .raw) = .error (.exit 1 (s.stdout ++ usage comm)) := rfl

/-- Every other option is followed, `-d` in the child. -/
theorem step_follows (hfork : ∀ n, fork n = 0) {o : Documented} (ho : o ≠ .plain .raw)
    (s : Settings) : ∃ t, step fork comm s o = .ok t ∧ Follows [o] s t := by
  cases o with
  | plain p =>
    cases p with
    | raw => exact absurd rfl ho
    | daemon =>
      have hchild : daemonize fork s = .ok { s with forks := s.forks + 1 } := by
        simp [daemonize, hfork]
      exact ⟨_, hchild, rfl, rfl, rfl, rfl⟩
  | valued v =>
    cases v with
    | log flag flags =>
      refine ⟨_, logFlags_chars (flag :: flags) s, rfl, rfl, rfl, ?_⟩
      simp [Documented.flags]
    | tty name => exact ⟨_, rfl, rfl, rfl, rfl, rfl⟩

theorem steps_follow (comm : Word) (hfork : ∀ n, fork n = 0) {os : List Documented}
    (hos : .plain .raw ∉ os) (s : Settings) :
    ∃ t, os.foldlM (step fork comm) s = .ok t ∧ Follows os s t := by
  induction os generalizing s with
  | nil => exact ⟨s, rfl, .refl s⟩
  | cons o os ih =>
    obtain ⟨ho, hos⟩ := not_or.mp (List.mem_cons.not.mp hos)
    obtain ⟨t, ht, hst⟩ := step_follows hfork (Ne.symm ho) s
    obtain ⟨u, hu, htu⟩ := ih hos t
    refine ⟨u, ?_, hst.cons htu⟩
    rw [List.foldlM_cons, ht]
    exact hu

/-- The first `-r` prints the usage text and ends the program. -/
theorem parseOptions_raw (hfork : ∀ n, fork n = 0) {line : List Group}
    (hraw : .plain .raw ∈ line.flatMap Group.options) :
    parseOptions fork comm (line.flatMap Group.words) = .error (.exit 1 (usage comm)) := by
  obtain ⟨before, after, hline, hbefore⟩ := List.eq_append_cons_of_mem hraw
  obtain ⟨t, ht, hfollows⟩ := steps_follow comm hfork hbefore initial
  rw [parseOptions_line, hline, List.foldlM_append, ht, ok_bind, List.foldlM_cons, step_raw,
    error_bind, hfollows.stdout]
  rfl

theorem logFlag_allowRawMode {s t : Settings} {c : UInt8} (h : logFlag comm s c = .ok t) :
    t.allowRawMode = s.allowRawMode := by
  unfold logFlag exit at h
  split_ifs at h <;> cases h <;> rfl

theorem logFlags_allowRawMode {flags : List UInt8} {s t : Settings}
    (h : flags.foldlM (logFlag comm) s = .ok t) : t.allowRawMode = s.allowRawMode := by
  induction flags generalizing s with
  | nil => cases h; rfl
  | cons c flags ih =>
    obtain ⟨u, hc, hflags⟩ := bind_eq_ok.mp h
    exact (ih hflags).trans (logFlag_allowRawMode hc)

theorem handleOption_allowRawMode {opt : UInt8} {optarg : Option Word} {s t : Settings}
    (h : handleOption fork comm opt optarg s = .ok t) : t.allowRawMode = s.allowRawMode := by
  unfold handleOption exit at h
  split_ifs at h
  · cases optarg with
    | none => cases h
    | some flags => exact logFlags_allowRawMode h
  · simp only [daemonize, exit] at h
    split_ifs at h
    cases h
    rfl
  · cases optarg with
    | none => cases h
    | some tty => cases h; rfl
  · cases h
    rfl

/-- No command line turns raw mode on. -/
theorem parseOptions_allowRawMode {args : List Word} {s : Settings}
    (h : parseOptions fork comm args = .ok s) : s.allowRawMode = false := by
  refine run_invariant (P := fun s => s.allowRawMode = false) ?_ _ rfl h
  intro opt optarg s t hs ht
  rw [handleOption_allowRawMode ht, hs]

/-- The daemon in front of its main loop, with the settings of the command line. -/
def Settings.start (k : Kernel) (s : Settings) : Except Halt Daemon := do
  let d ← { Daemon.idle with allowRawMode := s.allowRawMode, logMask := s.logMask }.write k
    (ascii "q\n")
  .ok (d.flog .info "entering main loop.\n" [])

/-- Of the settings only the log mask makes a difference to the daemon. -/
theorem start_of_parseOptions (k : Kernel) {args : List Word} {s : Settings}
    (h : parseOptions fork comm args = .ok s) : s.start k = Daemon.start k s.logMask := by
  unfold Settings.start Daemon.start
  rw [parseOptions_allowRawMode h]
  rfl

/-- A documented command line is parsed as the help text says exactly when `-r` is not on it. -/
theorem parsedAsDocumented_iff (fork : ℕ → ℤ) (hfork : ∀ n, fork n = 0) (comm : Word)
    (line : List Group) :
    ParsedAsDocumented fork comm line ↔ .plain .raw ∉ line.flatMap Group.options := by
  constructor
  · rintro ⟨s, hs, _, hraw, _⟩ hmem
    exact absurd (hraw.mpr hmem) (by simp [parseOptions_allowRawMode hs])
  · intro hmem
    obtain ⟨s, hs, hfollows⟩ := steps_follow comm hfork hmem initial
    refine ⟨s, (parseOptions_line line).trans hs, hfollows.stdout, ?_, hfollows.lamptty,
      hfollows.logMask⟩
    rw [hfollows.allowRawMode]
    exact iff_of_false Bool.false_ne_true hmem

/-- The line `-dlei -t /dev/ttyS1 -lq`. -/
theorem parsedAsDocumented_mixed :
    ParsedAsDocumented (fun _ => 0) (ascii "moodpd")
        [.attached [.daemon] (.log .e [.i]) (by decide), .detached [] (.tty (ascii "/dev/ttyS1")),
          .attached [] (.log .q []) (by decide)] ↔
      .plain .raw ∉ List.flatMap Group.options
        [.attached [.daemon] (.log .e [.i]) (by decide), .detached [] (.tty (ascii "/dev/ttyS1")),
          .attached [] (.log .q []) (by decide)] :=
  parsedAsDocumented_iff (fun _ => 0) (fun _ => rfl) (ascii "moodpd")
    [.attached [.daemon] (.log .e [.i]) (by decide), .detached [] (.tty (ascii "/dev/ttyS1")),
      .attached [] (.log .q []) (by decide)]

/-- `moodpd -r` prints the usage text and exits. -/
theorem raw_rejected : ¬ ParsedAsDocumented (fun _ => 0) (ascii "moodpd") [.plain .raw []] := by
  rintro ⟨s, hs, _⟩
  rw [parseOptions_raw (fun _ => rfl) (by simp [Group.options])] at hs
  cases hs

end Moodpd.CommandLine
