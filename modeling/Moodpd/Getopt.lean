import Mathlib

/-!
# Command lines read by `getopt`

POSIX `getopt` as a step on what is left of the argument words, for option strings that do not
begin with a colon, and the loop that handles one option after another until there is none. A
step that reports an option carries the proof that it used up part of the words, so the loop
ends on every command line. What `getopt` writes to standard error is left out.
-/
namespace Moodpd.Getopt

abbrev Word := List UInt8

def dash : UInt8 := 45

def colon : UInt8 := 58

def questionMark : UInt8 := 63

inductive Kind
  | flag
  | argument
  deriving DecidableEq, Repr

/-- An option followed by a colon in the option string takes an argument. -/
def kind (optstring : List UInt8) (c : UInt8) : Option Kind :=
  if c = colon then none
  else
    match optstring.dropWhile (fun o => o ≠ c) with
    | [] => none
    | _ :: next => some (if next.head? = some colon then .argument else .flag)

/-- The letters left of the word being read, and the words behind it. -/
structure Cursor where
  group : Word
  words : List Word
  deriving DecidableEq, Repr

def Cursor.size (cur : Cursor) : ℕ :=
  cur.group.length + (cur.words.map fun w => w.length + 1).sum

/-- An option that was found with `n` bytes to read. -/
structure Reply (n : ℕ) where
  opt : UInt8
  optarg : Option Word
  next : Cursor
  smaller : next.size < n

/-- The option `c`, the first letter of a group. -/
def letter (optstring : List UInt8) (c : UInt8) (group : Word) (words : List Word) :
    Reply (Cursor.size ⟨c :: group, words⟩) :=
  match kind optstring c with
  | none => ⟨questionMark, none, ⟨group, words⟩, by simp [Cursor.size]⟩
  | some .flag => ⟨c, none, ⟨group, words⟩, by simp [Cursor.size]⟩
  | some .argument =>
    match group, words with
    | a :: as, words => ⟨c, some (a :: as), ⟨[], words⟩, by simp [Cursor.size]⟩
    | [], w :: words => ⟨c, some w, ⟨[], words⟩, by simp [Cursor.size]; omega⟩
    | [], [] => ⟨questionMark, none, ⟨[], []⟩, by simp [Cursor.size]⟩

/-- The next option, or nothing at the first word that is none, at `--` and at the end. -/
def getopt (optstring : List UInt8) : (cur : Cursor) → Option (Reply cur.size)
  | ⟨c :: group, words⟩ => some (letter optstring c group words)
  | ⟨[], (d :: c :: group) :: words⟩ =>
    if d = dash ∧ ¬(c = dash ∧ group = []) then
      let r := letter optstring c group words
      some ⟨r.opt, r.optarg, r.next, r.smaller.trans (by simp [Cursor.size])⟩
    else none
  | ⟨[], _⟩ => none

/-- A word that begins with a dash is opened. -/
theorem getopt_word (optstring : List UInt8) {c : UInt8} (hc : c ≠ dash) (group : Word)
    (words : List Word) :
    ∃ h, getopt optstring ⟨[], (dash :: c :: group) :: words⟩ =
      some ⟨(letter optstring c group words).opt, (letter optstring c group words).optarg,
        (letter optstring c group words).next, h⟩ :=
  ⟨_, if_pos ⟨rfl, fun h => hc h.1⟩⟩

/-- What a letter without an argument is reported as. -/
def report (optstring : List UInt8) (c : UInt8) : UInt8 :=
  if kind optstring c = none then questionMark else c

/-- Handle the options in turn. -/
def run {σ ε : Type} (optstring : List UInt8) (handle : UInt8 → Option Word → σ → Except ε σ)
    (cur : Cursor) (s : σ) : Except ε σ :=
  match getopt optstring cur with
  | none => .ok s
  | some r => handle r.opt r.optarg s >>= run optstring handle r.next
termination_by cur.size
decreasing_by exact r.smaller

section Rules
variable {σ ε : Type} {optstring : List UInt8} {handle : UInt8 → Option Word → σ → Except ε σ}

theorem run_end (s : σ) : run optstring handle ⟨[], []⟩ s = .ok s := by
  rw [run]
  rfl

/-- A word of options is read letter by letter. -/
theorem run_word {c : UInt8} (hc : c ≠ dash) (group : Word) (words : List Word) (s : σ) :
    run optstring handle ⟨[], (dash :: c :: group) :: words⟩ s =
      run optstring handle ⟨c :: group, words⟩ s := by
  obtain ⟨_, hopen⟩ := getopt_word optstring hc group words
  rw [run, run, hopen]
  rfl

theorem run_letter {c : UInt8} (hc : kind optstring c ≠ some .argument) (group : Word)
    (words : List Word) (s : σ) :
    run optstring handle ⟨c :: group, words⟩ s =
      handle (report optstring c) none s >>= run optstring handle ⟨group, words⟩ := by
  rw [run]
  unfold getopt letter report
  cases h : kind optstring c with
  | none => simp [h]
  | some k =>
    cases k with
    | flag => simp [h]
    | argument => exact absurd h hc

/-- A run of letters without arguments. -/
theorem run_letters {cs : List UInt8} (hcs : ∀ c ∈ cs, kind optstring c ≠ some .argument)
    (group : Word) (words : List Word) (s : σ) :
    run optstring handle ⟨cs ++ group, words⟩ s =
      cs.foldlM (fun s c => handle (report optstring c) none s) s >>=
        run optstring handle ⟨group, words⟩ := by
  induction cs generalizing s with
  | nil => rfl
  | cons c cs ih =>
    have hc := hcs c (by simp)
    have htail := ih fun b hb => hcs b (by simp [hb])
    rw [List.cons_append, run_letter hc, List.foldlM_cons, bind_assoc]
    exact congrArg _ (funext htail)

/-- An argument in the same word. -/
theorem run_attached {c : UInt8} (hc : kind optstring c = some .argument) {arg : Word}
    (harg : arg ≠ []) (words : List Word) (s : σ) :
    run optstring handle ⟨c :: arg, words⟩ s =
      handle c (some arg) s >>= run optstring handle ⟨[], words⟩ := by
  obtain ⟨a, as, rfl⟩ := List.exists_cons_of_ne_nil harg
  rw [run]
  simp [getopt, letter, hc]

/-- An argument in a word of its own. -/
theorem run_detached {c : UInt8} (hc : kind optstring c = some .argument) (arg : Word)
    (words : List Word) (s : σ) :
    run optstring handle ⟨[c], arg :: words⟩ s =
      handle c (some arg) s >>= run optstring handle ⟨[], words⟩ := by
  rw [run]
  simp [getopt, letter, hc]

/-- What handling any option preserves, the loop preserves on every command line. -/
theorem run_invariant {P : σ → Prop}
    (hstep : ∀ opt optarg s t, P s → handle opt optarg s = .ok t → P t) (cur : Cursor) {s t : σ}
    (hs : P s) (ht : run optstring handle cur s = .ok t) : P t := by
  induction cur, s using run.induct optstring with
  | case1 cur s hnone =>
    rw [run, hnone] at ht
    exact Except.ok.inj ht ▸ hs
  | case2 cur s r hr ih =>
    rw [run, hr] at ht
    simp only at ht
    cases hu : handle r.opt r.optarg s with
    | error e => rw [hu] at ht; cases ht
    | ok u =>
      rw [hu] at ht
      exact ih u (hstep _ _ _ _ hs hu) ht

end Rules

end Moodpd.Getopt
