import Moodpd.OscArgReader
import Moodpd.OscPatternLanguage

/-!
# Matching the start of an address

`partialPatternMatch` holds as soon as the matcher does not return the null pointer. The tests
of oscpkt ask it for the part of a matched address up to a slash.
-/
namespace Moodpd.Oscpkt
open Memory Glob

def partialPatternMatch (pattern test : List UInt8) : Checked Bool := do
  let q ← internalPatternMatch (2 * (pattern.length + test.length) + 2) pattern test
  .ok (q ≠ none)

/-- The address of the message is the pattern here. -/
def Message.partialMatch (msg : Message) (test : List UInt8) : Checked ArgReader := do
  let m ← partialPatternMatch msg.address test
  .ok ⟨msg, msg.err.set (if m then .okNoError else .patternMismatch), 0⟩

/-- A path is empty or ends with a slash. -/
def AtSlash (path : List UInt8) : Prop := ∀ b ∈ path.getLast?, b = 47

instance (path : List UInt8) : Decidable (AtSlash path) :=
  match h : path.getLast? with
  | none => .isTrue (by simp [AtSlash, h])
  | some b => decidable_of_iff (b = 47) (by simp [AtSlash, h])

theorem AtSlash.of_suffix {s t : List UInt8} (h : AtSlash t) (hs : s <:+ t) : AtSlash s := by
  obtain ⟨u, rfl⟩ := hs
  intro b hb
  refine h b ?_
  rw [List.getLast?_append, hb]
  rfl

/-- The remaining path starts some path that the remaining pattern matches. -/
structure Open (ts : List (Token UInt8)) (path : List UInt8) : Prop where
  plain : Plain ts
  atSlash : AtSlash path
  starts : Starts ts path

theorem Open.atEnd {t : Token UInt8} {ts : List (Token UInt8)} {path : List UInt8}
    (h : Open (t :: ts) path) : Open ts [] where
  plain := fun items hmem => h.plain items (List.mem_cons_of_mem t hmem)
  atSlash := nofun
  starts := h.starts.nil_of_cons

theorem Open.one {q : UInt8 → Bool} {ts : List (Token UInt8)} {b : UInt8} {path : List UInt8}
    (h : Open (.one q :: ts) (b :: path)) : q b = true ∧ Open ts path := by
  obtain ⟨hb, hs⟩ := starts_one_cons.mp h.starts
  exact ⟨hb, h.atEnd.plain, h.atSlash.of_suffix (List.suffix_cons b path), hs⟩

theorem Open.many {q : UInt8 → Bool} {ts : List (Token UInt8)} {b : UInt8} {path : List UInt8}
    (h : Open (.many q :: ts) (b :: path)) :
    Open ts (b :: path) ∨ q b = true ∧ Open (.many q :: ts) path := by
  rcases starts_many_cons.mp h.starts with hs | ⟨hb, hs⟩
  · exact .inl ⟨h.atEnd.plain, h.atSlash, hs⟩
  · exact .inr ⟨hb, h.plain, h.atSlash.of_suffix (List.suffix_cons b path), hs⟩

theorem Open.choice {items : List (List UInt8)} {ts : List (Token UInt8)} {s path : List UInt8}
    (h : Open (.choice items :: ts) (s ++ path)) (hfit : firstFit items (s ++ path) = some s) :
    Open ts path where
  plain := h.atEnd.plain
  atSlash := h.atSlash.of_suffix (List.suffix_append s path)
  starts := h.starts.of_firstFit (h.plain items List.mem_cons_self) hfit

/-- Without a slash behind the first byte, a path up to a slash has no byte but a slash. -/
theorem AtSlash.eq_of_no_slash {path : List UInt8} (h : AtSlash path)
    (hno : path.tail.dropWhile (· ≠ 47) = []) : path = [] ∨ path = [47] := by
  cases path with
  | nil => exact .inl rfl
  | cons b path =>
    refine .inr ?_
    rw [List.tail_cons, List.dropWhile_eq_nil_iff] at hno
    cases hlast : path.getLast? with
    | none =>
      obtain rfl := List.getLast?_eq_none_iff.mp hlast
      rw [h b rfl]
    | some e =>
      have he : e ≠ 47 := by simpa using hno e (List.mem_of_getLast? hlast)
      exact absurd (h.of_suffix (List.suffix_cons b path) e hlast) he

/-- Text up to a slash that starts a match goes on here or at a slash behind. -/
theorem Open.upTo {ts : List (Token UInt8)} {path : List UInt8}
    (h : Open (.many (fun _ => true) :: .one (· = 47) :: ts) path) :
    Open (.one (· = 47) :: ts) path ∨ path.tail.dropWhile (· ≠ 47) ≠ [] ∧
      Open (.many (fun _ => true) :: .one (· = 47) :: ts) (path.tail.dropWhile (· ≠ 47)) := by
  by_cases hno : path.tail.dropWhile (· ≠ 47) = []
  · left
    rcases h.atSlash.eq_of_no_slash hno with rfl | rfl
    · exact h.atEnd
    · exact ⟨h.atEnd.plain, h.atSlash, starts_one_cons.mpr ⟨rfl, h.atEnd.atEnd.starts⟩⟩
  · obtain ⟨rest, hm⟩ := h.starts
    have hne : path ≠ [] := by
      rintro rfl
      exact hno rfl
    have hdrop : (path ++ rest).tail.dropWhile (· ≠ 47) =
        path.tail.dropWhile (· ≠ 47) ++ rest := by
      rw [List.tail_append_of_ne_nil hne, List.dropWhile_append, if_neg (by simpa using hno)]
    rw [matches_upTo_tail, hdrop] at hm
    rcases hm with hm | hm
    · exact .inl ⟨h.atEnd.plain, h.atSlash, rest, hm⟩
    · have hsuffix := (List.dropWhile_suffix (· ≠ 47) (l := path.tail)).trans
        (List.tail_suffix path)
      exact .inr ⟨hno, h.plain, h.atSlash.of_suffix hsuffix, rest, hm⟩

/-- The matcher ends, and finds a place in the pattern when something holds. -/
def Finds (r : Checked (Option (List UInt8))) (P : Prop) : Prop :=
  ∃ q, r = .ok q ∧ (P → q ≠ none)

theorem Finds.weaken {r : Checked (Option (List UInt8))} {P Q : Prop} (h : Finds r P)
    (hqp : Q → P) : Finds r Q := by
  obtain ⟨q, hr, hq⟩ := h
  exact ⟨q, hr, hq ∘ hqp⟩

theorem finds_some (q : List UInt8) (P : Prop) : Finds (.ok (some q)) P := ⟨some q, rfl, nofun⟩

theorem later_ne_none {best ret : Option (List UInt8)} :
    later best ret ≠ none ↔ best ≠ none ∨ ret ≠ none := by
  rcases best with _ | b <;> rcases ret with _ | r <;> simp [later]
  split_ifs <;> simp

def MatchFinds (fuel : ℕ) : Prop :=
  ∀ p path : List UInt8, 2 * p.length + path.length + 1 ≤ fuel →
    Finds (internalPatternMatch fuel p path) (Open (tokens p) path)

def StarFinds (fuel : ℕ) : Prop :=
  ∀ (p path : List UInt8) (best : Option (List UInt8)), 2 * p.length + path.length + 2 ≤ fuel →
    Finds (starLoop fuel p path best) (best ≠ none ∨ Open (.many (· ≠ 47) :: tokens p) path)

def SuperFinds (fuel : ℕ) : Prop :=
  ∀ (p path : List UInt8) (best : Option (List UInt8)), p.head? ≠ some 47 →
    2 * (p.length + 1) + path.length + 2 ≤ fuel →
    Finds (superLoop fuel (47 :: p) path best)
      (best ≠ none ∨ Open (.many (fun _ => true) :: .one (· = 47) :: tokens p) path)

section Step
variable {fuel : ℕ} (ihMatch : MatchFinds fuel) (ihStar : StarFinds fuel)
  (ihSuper : SuperFinds fuel)

include ihMatch ihStar in
theorem starLoop_finds : StarFinds (fuel + 1) := by
  intro p path best hf
  obtain ⟨ret, hret, hm⟩ := ihMatch p path (by omega)
  cases path with
  | nil =>
    refine ⟨later best ret, by rw [starLoop, hret]; rfl, ?_⟩
    rw [later_ne_none]
    exact Or.imp_right fun h => hm h.atEnd
  | cons d path =>
    rw [starLoop, hret, ok_bind]
    by_cases hd : d = 47
    · refine ⟨later best ret, if_pos hd, ?_⟩
      rw [later_ne_none]
      refine Or.imp_right fun h => ?_
      rcases h.many with hend | ⟨hne, -⟩
      · exact hm hend
      · exact absurd hd (of_decide_eq_true hne)
    · rw [List.length_cons] at hf
      obtain ⟨q, hq, hqm⟩ := ihStar p path (later best ret) (by omega)
      refine ⟨q, by simp only [if_neg hd, hq], ?_⟩
      rw [later_ne_none] at hqm
      rintro (hbest | h)
      · exact hqm (.inl (.inl hbest))
      · rcases h.many with hend | ⟨-, hmore⟩
        · exact hqm (.inl (.inr (hm hend)))
        · exact hqm (.inr hmore)

include ihMatch ihSuper in
theorem superLoop_finds : SuperFinds (fuel + 1) := by
  intro p path best hp hf
  obtain ⟨ret, hret, hm⟩ := ihMatch (47 :: p) path (by rw [List.length_cons]; omega)
  rw [tokens_slash hp] at hm
  rw [superLoop, hret, ok_bind]
  cases hrest : path.tail.dropWhile (· ≠ 47) with
  | nil =>
    refine ⟨later best ret, rfl, ?_⟩
    rw [later_ne_none]
    refine Or.imp_right fun h => ?_
    rcases h.upTo with hend | ⟨hne, -⟩
    · exact hm hend
    · exact absurd hrest hne
  | cons d rest =>
    have hlen : (d :: rest).length + 1 ≤ path.length := by
      have := dropWhile_length_le (· ≠ 47) path.tail
      rw [hrest, List.length_tail] at this
      rw [List.length_cons] at this ⊢
      omega
    obtain ⟨q, hq, hqm⟩ := ihSuper p (d :: rest) (later best ret) hp (by omega)
    refine ⟨q, hq, ?_⟩
    rw [later_ne_none, ← hrest] at hqm
    rintro (hbest | h)
    · exact hqm (.inl (.inl hbest))
    · rcases h.upTo with hend | ⟨-, hmore⟩
      · exact hqm (.inl (.inr (hm hend)))
      · exact hqm (.inr hmore)

include ihMatch ihStar ihSuper in
theorem match_finds : MatchFinds (fuel + 1) := by
  intro p path hf
  cases p with
  | nil =>
    refine ⟨if path = [] then some [] else none, by rw [internalPatternMatch], ?_⟩
    intro h
    obtain ⟨rest, hm⟩ := h.starts
    rw [tokens, Matches, List.append_eq_nil_iff] at hm
    simp [hm.1]
  | cons c p =>
    rw [List.length_cons] at hf
    have ht := turn_match fuel c p path
    revert ht
    generalize tokens (c :: p) = ts
    generalize internalPatternMatch (fuel + 1) (c :: p) path = r
    intro ht
    cases ht with
    | atEnd q rest => exact finds_some (c :: p) _
    | taken hq hlen =>
      rw [List.length_cons] at hf hlen
      exact (ihMatch _ _ (by omega)).weaken fun h => h.one.2
    | refused hq hr =>
      refine ⟨_, rfl, fun h => ?_⟩
      rw [h.one.1] at hq
      cases hq
    | star hlen =>
      rw [List.length_cons] at hlen
      exact (ihStar _ path none (by omega)).weaken .inr
    | slashes hlen hhead =>
      rw [List.length_cons] at hlen
      exact (ihSuper _ path none hhead (by omega)).weaken .inr
    | chosen hlen hfit =>
      rw [List.length_append] at hf
      rw [List.length_cons] at hlen
      exact (ihMatch _ _ (by omega)).weaken fun h => h.choice hfit
    | unfit hfit => exact finds_some (c :: p) _
    | fail hr =>
      refine ⟨_, rfl, fun h => ?_⟩
      obtain ⟨rest, hm⟩ := h.starts
      exact hm.elim

end Step

theorem loops_find (fuel : ℕ) : MatchFinds fuel ∧ StarFinds fuel ∧ SuperFinds fuel := by
  induction fuel with
  | zero =>
    refine ⟨?_, ?_, ?_⟩
    · intro p path hf
      omega
    · intro p path best hf
      omega
    · intro p path best hp hf
      omega
  | succ fuel ih =>
    obtain ⟨ihMatch, ihStar, ihSuper⟩ := ih
    exact ⟨match_finds ihMatch ihStar ihSuper, starLoop_finds ihMatch ihStar,
      superLoop_finds ihMatch ihSuper⟩

/-- A pattern that matches an address partially matches the address up to any slash. -/
theorem partialPatternMatch_of_full {pattern path rest : List UInt8}
    (hp : Plain (tokens pattern)) (hpath : AtSlash path)
    (h : fullPatternMatch pattern (path ++ rest) = .ok true) :
    partialPatternMatch pattern path = .ok true := by
  obtain ⟨b, hb, hm⟩ := fullPatternMatch_decides pattern (path ++ rest)
  obtain rfl := Except.ok.inj (h.symm.trans hb)
  have hopen : Open (tokens pattern) path := ⟨hp, hpath, rest, hm.mp rfl⟩
  have hf : 2 * pattern.length + path.length + 1 ≤ 2 * (pattern.length + path.length) + 2 := by
    omega
  obtain ⟨q, hq, hne⟩ := (loops_find _).1 pattern path hf
  rw [partialPatternMatch, hq, ok_bind]
  exact congrArg Except.ok (decide_eq_true (hne hopen))

/-- A message whose address pattern matches a path is read with its arguments where the path
up to any slash is asked for. -/
theorem partialMatch_of_full {msg : Message} {test rest : List UInt8}
    (hp : Plain (tokens msg.address)) (htest : AtSlash test)
    (h : fullPatternMatch msg.address (test ++ rest) = .ok true) :
    msg.partialMatch test = .ok ⟨msg, msg.err, 0⟩ := by
  rw [Message.partialMatch, partialPatternMatch_of_full hp htest h, ok_bind, if_pos rfl,
    ErrorCode.set]
  by_cases herr : msg.err = .okNoError
  · rw [if_pos herr, herr]
  · rw [if_neg herr]

/-- A message to `//{a,b}*`. -/
def slashes : Message := { Message.clear with address := [47, 47, 123, 97, 44, 98, 125, 42] }

/-- The pattern matches `/x/bc`. -/
theorem partialMatch_of_full_slashes :
    slashes.partialMatch [47, 120, 47] = .ok ⟨slashes, .okNoError, 0⟩ := by
  have htokens : tokens slashes.address =
      [.many (fun _ => true), .one (· = 47), .choice [[97], [98]], .many (· ≠ 47)] := by
    simp [slashes, tokens]
    decide
  have hplain : Plain (tokens slashes.address) := by
    rw [htokens]
    intro items hmem
    simp only [List.mem_cons, reduceCtorEq, Token.choice.injEq, List.not_mem_nil, or_false,
      false_or] at hmem
    rw [hmem]
    simp [Apart]
  have hfull : fullPatternMatch slashes.address ([47, 120, 47] ++ [98, 99]) = .ok true := by
    decide +kernel
  exact partialMatch_of_full hplain (by decide) hfull

end Moodpd.Oscpkt
