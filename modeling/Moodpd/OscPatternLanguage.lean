import Moodpd.Glob
import Moodpd.OscPattern

/-!
# The language of address patterns

What any pattern means to `fullPatternMatch`: it is cut into tokens, and the matcher decides
whether the path is matched by them. The matcher never backtracks into a braced list.
-/
namespace Moodpd.Oscpkt
open Memory Glob

/-- The ranges of a bracketed list and what follows them. A bracket right behind a hyphen is
the end of a range. -/
def bracketRanges : List UInt8 → List (UInt8 × UInt8) × List UInt8
  | [] => ([], [])
  | [c0] => if c0 = 93 then ([], [c0]) else ([(c0, c0)], [])
  | [c0, d] =>
    if c0 = 93 then ([], [c0, d]) else (bracketRanges [d]).map ((c0, c0) :: ·) id
  | c0 :: d :: c1 :: p =>
    if c0 = 93 then ([], c0 :: d :: c1 :: p)
    else if d = 45 then (bracketRanges p).map ((c0, c1) :: ·) id
    else (bracketRanges (d :: c1 :: p)).map ((c0, c0) :: ·) id

def inRanges (ranges : List (UInt8 × UInt8)) (b : UInt8) : Bool :=
  ranges.any fun r => charLe r.1 b && charLe b r.2

theorem bracketRanges_length (p : List UInt8) : (bracketRanges p).2.length ≤ p.length := by
  fun_induction bracketRanges p <;> simp only [Prod.map_snd, id_eq, List.length_cons] at * <;> omega

/-- The loop looks at one range after the other. -/
theorem inRanges_cons (reverse m : Bool) (r : UInt8 × UInt8) (rs : List (UInt8 × UInt8))
    (b : UInt8) : (if inRanges (r :: rs) b then !reverse else m) =
      if inRanges rs b then !reverse
      else if charLe r.1 b && charLe b r.2 then !reverse else m := by
  rw [inRanges, List.any_cons, ← inRanges]
  cases charLe r.1 b && charLe b r.2 <;> cases inRanges rs b <;> rfl

theorem bracketLoop_eq (reverse : Bool) (b : UInt8) (p : List UInt8) (m : Bool) :
    bracketLoop reverse b m p =
      (if inRanges (bracketRanges p).1 b then !reverse else m, (bracketRanges p).2) := by
  fun_induction bracketRanges p generalizing m with
  | case1 => rfl
  | case2 => simp [bracketLoop, inRanges]
  | case3 c0 h =>
    rw [bracketLoop, if_neg h, inRanges_cons]
    simp only [inRanges, List.any_nil, Bool.false_eq_true, if_false]
  | case4 => simp [bracketLoop, inRanges]
  | case5 c0 d h ih =>
    rw [bracketLoop, if_neg h, ih, Prod.map_fst, inRanges_cons]
    rfl
  | case6 => simp [bracketLoop, inRanges]
  | case7 c0 c1 p h ih =>
    rw [bracketLoop, if_neg h, if_pos rfl, ih, Prod.map_fst, inRanges_cons]
    rfl
  | case8 c0 d c1 p h hd ih =>
    rw [bracketLoop, if_neg h, if_neg hd, ih, Prod.map_fst, inRanges_cons]
    rfl

theorem dropWhile_length_le (q : UInt8 → Bool) (p : List UInt8) :
    (p.dropWhile q).length ≤ p.length := (List.dropWhile_sublist q).length_le

def tokens : List UInt8 → List (Token UInt8)
  | [] => []
  | c :: p =>
    if c = 63 then .one (fun _ => true) :: tokens p
    else if c = 91 then
      let reverse : Bool := p.head? = some 33
      let range := bracketRanges (if reverse then p.tail else p)
      if range.2.head? = some 93 then
        .one (fun b => inRanges range.1 b != reverse) :: tokens range.2.tail
      else [.fail]
    else if c = 42 then .many (· ≠ 47) :: tokens (p.dropWhile (· = 42))
    else if c = 47 ∧ p.head? = some 47 then
      .many (fun _ => true) :: .one (· = 47) :: tokens (p.dropWhile (· = 47))
    else if c = 123 then
      if 125 ∈ p then
        .choice ((p.takeWhile (· ≠ 125)).splitOn 44) :: tokens (p.dropWhile (· ≠ 125)).tail
      else [.fail]
    else .one (· = c) :: tokens p
termination_by p => p.length
decreasing_by
  all_goals rw [List.length_cons]
  · omega
  · split
    · have := bracketRanges_length p.tail
      rw [List.length_tail] at *
      omega
    · have := bracketRanges_length p
      rw [List.length_tail]
      omega
  · have := dropWhile_length_le (· = 42) p
    omega
  · have := dropWhile_length_le (· = 47) p
    omega
  · have := dropWhile_length_le (· ≠ 125) p
    rw [List.length_tail]
    omega
  · omega

/-- What the matcher does at a pattern that is not empty, for the tokens of the pattern. -/
inductive Turn (fuel : ℕ) (p : List UInt8) :
    List UInt8 → Checked (Option (List UInt8)) → List (Token UInt8) → Prop
  | atEnd (q : UInt8 → Bool) (rest : List UInt8) :
    Turn fuel p [] (.ok (some p)) (.one q :: tokens rest)
  | taken {q : UInt8 → Bool} {rest : List UInt8} {b : UInt8} {path : List UInt8} (hq : q b = true)
    (hlen : rest.length < p.length) :
    Turn fuel p (b :: path) (internalPatternMatch fuel rest path) (.one q :: tokens rest)
  | refused {q : UInt8 → Bool} {rest : List UInt8} {b : UInt8} {path : List UInt8}
    {r : Option (List UInt8)} (hq : q b = false) (hr : r ≠ some []) :
    Turn fuel p (b :: path) (.ok r) (.one q :: tokens rest)
  | star {rest path : List UInt8} (hlen : rest.length < p.length) :
    Turn fuel p path (starLoop fuel rest path none) (.many (· ≠ 47) :: tokens rest)
  | slashes {rest path : List UInt8} (hlen : rest.length + 1 < p.length)
    (hhead : rest.head? ≠ some 47) :
    Turn fuel p path (superLoop fuel (47 :: rest) path none)
      (.many (fun _ => true) :: .one (· = 47) :: tokens rest)
  | chosen {items : List (List UInt8)} {rest s path : List UInt8} (hlen : rest.length < p.length)
    (hfit : firstFit items (s ++ path) = some s) :
    Turn fuel p (s ++ path) (internalPatternMatch fuel rest path) (.choice items :: tokens rest)
  | unfit {items : List (List UInt8)} {rest path : List UInt8} (hfit : firstFit items path = none) :
    Turn fuel p path (.ok (some p)) (.choice items :: tokens rest)
  | fail {path : List UInt8} {r : Option (List UInt8)} (hr : r ≠ some []) :
    Turn fuel p path (.ok r) [.fail]

theorem braceLoop_eq (items : List (List UInt8)) (path : List UInt8) :
    braceLoop path items = (firstFit items path).map fun item => path.drop item.length := by
  induction items with
  | nil => rfl
  | cons item items ih =>
    rw [braceLoop, firstFit]
    by_cases h : item.isPrefixOf path = true
    · rw [if_pos h, if_pos h, Option.map_some]
    · rw [if_neg h, if_neg h, ih]

theorem head?_dropWhile_ne (a : UInt8) (p : List UInt8) :
    (p.dropWhile (· = a)).head? ≠ some a := by
  intro h
  have := List.head?_dropWhile_not (fun b => decide (b = a)) p
  rw [h] at this
  simp at this

theorem turn_bracket (fuel : ℕ) (p path : List UInt8) :
    Turn fuel (91 :: p) path (internalPatternMatch (fuel + 1) (91 :: p) path) (tokens (91 :: p)) := by
  have hcons : (some (91 :: p) : Option (List UInt8)) ≠ some [] := by simp
  rw [internalPatternMatch, tokens, if_neg (show (91 : UInt8) ≠ 63 by decide), if_pos rfl]
  dsimp only
  generalize decide (p.head? = some 33) = reverse
  generalize hlist : (if reverse = true then p.tail else p) = list
  have hlen : (bracketRanges list).2.length ≤ p.length := by
    refine (bracketRanges_length list).trans ?_
    rw [← hlist]
    split
    · exact (List.tail_sublist p).length_le
    · exact le_rfl
  cases path with
  | nil =>
    rw [if_neg (fun h => h.2 rfl), if_neg (fun h => h.2 rfl), if_neg (by decide),
      if_neg (fun h => absurd h.1 (by decide)), if_neg (by decide), if_neg (by simp), if_pos rfl]
    split
    · exact .atEnd _ _
    · exact .fail hcons
  | cons b path =>
    rw [if_neg (fun h => absurd h.1 (by decide)), if_pos ⟨rfl, List.cons_ne_nil b path⟩,
      List.headD_cons, List.tail_cons, bracketLoop_eq]
    dsimp only
    by_cases hclose : (bracketRanges list).2.head? = some 93
    · rw [if_pos hclose]
      have hmatch : (if inRanges (bracketRanges list).1 b = true then !reverse else reverse) =
          (inRanges (bracketRanges list).1 b != reverse) := by
        cases inRanges (bracketRanges list).1 b <;> cases reverse <;> rfl
      rw [hmatch]
      by_cases hm : (inRanges (bracketRanges list).1 b != reverse) = true
      · rw [if_neg (by simp [hm, hclose])]
        refine .taken hm ?_
        rw [List.length_tail, List.length_cons]
        omega
      · rw [if_pos (.inl (by simp [hm]))]
        exact .refused (by simpa using hm) hcons
    · rw [if_pos (.inr hclose), if_neg hclose]
      exact .fail hcons

theorem turn_match (fuel : ℕ) (c : UInt8) (p path : List UInt8) :
    Turn fuel (c :: p) path (internalPatternMatch (fuel + 1) (c :: p) path) (tokens (c :: p)) := by
  by_cases hbracket : c = 91
  · subst hbracket
    exact turn_bracket fuel p path
  rw [internalPatternMatch, tokens]
  by_cases hany : c = 63
  · -- a question mark
    subst hany
    rw [if_pos rfl]
    cases path with
    | nil => exact .atEnd _ p
    | cons b path =>
      rw [if_pos ⟨rfl, List.cons_ne_nil b path⟩, List.tail_cons]
      exact .taken rfl (Nat.lt_succ_self _)
  rw [if_neg (fun h => hany h.1), if_neg hany, if_neg (fun h => hbracket h.1), if_neg hbracket]
  by_cases hstar : c = 42
  · rw [if_pos hstar, if_pos hstar]
    exact .star (Nat.lt_succ_of_le (dropWhile_length_le (· = 42) p))
  rw [if_neg hstar, if_neg hstar]
  by_cases hslash : c = 47 ∧ p.head? = some 47
  · rw [if_pos hslash, if_pos hslash]
    refine .slashes ?_ (head?_dropWhile_ne 47 p)
    cases p with
    | nil => cases hslash.2
    | cons d p =>
      obtain rfl := Option.some.inj hslash.2
      rw [List.dropWhile_cons_of_pos (by rfl), List.length_cons, List.length_cons]
      have := dropWhile_length_le (· = 47) p
      omega
  rw [if_neg hslash, if_neg hslash]
  by_cases hbrace : c = 123
  · -- a braced list
    rw [if_pos hbrace, if_pos hbrace]
    by_cases hclose : 125 ∈ p
    · rw [if_pos hclose, if_pos hclose, braceLoop_eq]
      cases hfit : firstFit ((p.takeWhile (· ≠ 125)).splitOn 44) path with
      | none => exact .unfit hfit
      | some item =>
        obtain ⟨t, rfl⟩ := (firstFit_mem hfit).2
        rw [Option.map_some, List.drop_left]
        refine .chosen ?_ hfit
        have := dropWhile_length_le (· ≠ 125) p
        rw [List.length_tail, List.length_cons]
        omega
    · rw [if_neg hclose, if_neg hclose]
      exact .fail (by simp)
  -- any other byte
  rw [if_neg hbrace, if_neg hbrace]
  cases path with
  | nil => exact .atEnd _ p
  | cons b path =>
    by_cases hb : b = c
    · rw [hb, if_pos List.head?_cons, List.tail_cons]
      exact .taken (decide_eq_true rfl) (Nat.lt_succ_self _)
    · rw [if_neg (by simpa using hb), if_neg (List.cons_ne_nil b path)]
      exact .refused (decide_eq_false hb) (by simp)

/-- The matcher ends, and reaches the end of the pattern exactly when something holds. -/
def Reaches (r : Checked (Option (List UInt8))) (P : Prop) : Prop :=
  ∃ q, r = .ok q ∧ (q = some [] ↔ P)

theorem Reaches.congr {r : Checked (Option (List UInt8))} {P Q : Prop} (h : Reaches r P)
    (hpq : P ↔ Q) : Reaches r Q := by
  obtain ⟨q, hr, hq⟩ := h
  exact ⟨q, hr, hq.trans hpq⟩

theorem reaches_not {q : Option (List UInt8)} {P : Prop} (hq : q ≠ some []) (hP : ¬ P) :
    Reaches (.ok q) P := ⟨q, rfl, iff_of_false hq hP⟩

/-- Text up to a slash goes on to the next slash. -/
theorem matches_upTo (ts : List (Token UInt8)) (w : List UInt8) :
    Matches (.many (fun _ => true) :: .one (· = 47) :: ts) w ↔
      Matches (.many (fun _ => true) :: .one (· = 47) :: ts) (w.dropWhile (· ≠ 47)) := by
  induction w with
  | nil => rfl
  | cons b w ih =>
    by_cases hb : b = 47
    · rw [List.dropWhile_cons_of_neg (by simpa using hb)]
    · rw [List.dropWhile_cons_of_pos (by simpa using hb), ← ih, matches_many_cons]
      simp [matches_one_cons, hb]

def MatchDecides (fuel : ℕ) : Prop :=
  ∀ p path : List UInt8, 2 * p.length + path.length + 1 ≤ fuel →
    Reaches (internalPatternMatch fuel p path) (Matches (tokens p) path)

def StarDecides (fuel : ℕ) : Prop :=
  ∀ (p path : List UInt8) (best : Option (List UInt8)), 2 * p.length + path.length + 2 ≤ fuel →
    Reaches (starLoop fuel p path best)
      (best = some [] ∨ Matches (.many (· ≠ 47) :: tokens p) path)

def SuperDecides (fuel : ℕ) : Prop :=
  ∀ (p path : List UInt8) (best : Option (List UInt8)), p.head? ≠ some 47 →
    2 * (p.length + 1) + path.length + 2 ≤ fuel →
    Reaches (superLoop fuel (47 :: p) path best)
      (best = some [] ∨ Matches (.many (fun _ => true) :: .one (· = 47) :: tokens p) path)

section Step
variable {fuel : ℕ} (ihMatch : MatchDecides fuel) (ihStar : StarDecides fuel)
  (ihSuper : SuperDecides fuel)

include ihMatch ihStar in
theorem starLoop_decides : StarDecides (fuel + 1) := by
  intro p path best hf
  obtain ⟨ret, hret, hm⟩ := ihMatch p path (by omega)
  cases path with
  | nil =>
    refine ⟨later best ret, by rw [starLoop, hret]; rfl, ?_⟩
    rw [later_eq_some_nil, hm, matches_many_nil]
  | cons d path =>
    rw [starLoop, hret, ok_bind]
    by_cases hd : d = 47
    · refine ⟨later best ret, if_pos hd, ?_⟩
      rw [later_eq_some_nil, hm, matches_many_cons]
      simp [hd]
    · rw [List.length_cons] at hf
      obtain ⟨q, hq, hqm⟩ := ihStar p path (later best ret) (by omega)
      refine ⟨q, by simp only [if_neg hd, hq], ?_⟩
      rw [hqm, later_eq_some_nil, hm, matches_many_cons]
      simp [hd, or_assoc]

theorem tokens_slash {p : List UInt8} (hp : p.head? ≠ some 47) :
    tokens (47 :: p) = .one (· = 47) :: tokens p := by
  rw [tokens, if_neg (by decide), if_neg (by decide), if_neg (by decide),
    if_neg (fun h => hp h.2), if_neg (by decide)]

/-- A wildcard for text up to a slash finds it here or behind the next letter. -/
theorem matches_upTo_tail (ts : List (Token UInt8)) (path : List UInt8) :
    Matches (.many (fun _ => true) :: .one (· = 47) :: ts) path ↔
      Matches (.one (· = 47) :: ts) path ∨
        Matches (.many (fun _ => true) :: .one (· = 47) :: ts) (path.tail.dropWhile (· ≠ 47)) := by
  cases path with
  | nil =>
    rw [List.tail_nil, List.dropWhile_nil, matches_many_nil]
    simp [not_matches_one_nil]
  | cons b w =>
    rw [List.tail_cons, ← matches_upTo, matches_many_cons]
    simp

include ihMatch ihSuper in
theorem superLoop_decides : SuperDecides (fuel + 1) := by
  intro p path best hp hf
  obtain ⟨ret, hret, hm⟩ := ihMatch (47 :: p) path (by rw [List.length_cons]; omega)
  rw [tokens_slash hp] at hm
  rw [superLoop, hret, ok_bind]
  cases hrest : path.tail.dropWhile (· ≠ 47) with
  | nil =>
    refine ⟨later best ret, rfl, ?_⟩
    rw [later_eq_some_nil, hm, matches_upTo_tail, hrest, matches_many_nil]
    simp [not_matches_one_nil]
  | cons d rest =>
    have hlen : (d :: rest).length + 1 ≤ path.length := by
      have := dropWhile_length_le (· ≠ 47) path.tail
      rw [hrest, List.length_tail] at this
      rw [List.length_cons] at this ⊢
      omega
    obtain ⟨q, hq, hqm⟩ := ihSuper p (d :: rest) (later best ret) hp (by omega)
    refine ⟨q, hq, ?_⟩
    rw [hqm, later_eq_some_nil, hm, matches_upTo_tail _ path, hrest, or_assoc]

include ihMatch ihStar ihSuper in
theorem match_decides : MatchDecides (fuel + 1) := by
  intro p path hf
  cases p with
  | nil =>
    refine ⟨if path = [] then some [] else none, by rw [internalPatternMatch], ?_⟩
    rw [tokens, Matches]
    by_cases h : path = [] <;> simp [h]
  | cons c p =>
    rw [List.length_cons] at hf
    have ht := turn_match fuel c p path
    revert ht
    generalize tokens (c :: p) = ts
    generalize internalPatternMatch (fuel + 1) (c :: p) path = r
    intro ht
    cases ht with
    | atEnd q rest => exact reaches_not (List.cons_ne_nil c p ∘ Option.some.inj) not_matches_one_nil
    | taken hq hlen =>
      rw [List.length_cons] at hf hlen
      exact (ihMatch _ _ (by omega)).congr (by simp [matches_one_cons, hq])
    | refused hq hr => exact reaches_not hr (by simp [matches_one_cons, hq])
    | star hlen =>
      rw [List.length_cons] at hlen
      exact (ihStar _ path none (by omega)).congr (by simp)
    | slashes hlen hhead =>
      rw [List.length_cons] at hlen
      exact (ihSuper _ path none hhead (by omega)).congr (by simp)
    | chosen hlen hfit =>
      rw [List.length_append] at hf
      rw [List.length_cons] at hlen
      refine (ihMatch _ _ (by omega)).congr ⟨fun h => ⟨_, _, rfl, hfit, h⟩, ?_⟩
      rintro ⟨s, u, hw, hs, h⟩
      obtain rfl := Option.some.inj (hfit.symm.trans hs)
      rwa [List.append_cancel_left hw]
    | unfit hfit =>
      refine reaches_not (List.cons_ne_nil c p ∘ Option.some.inj) ?_
      rintro ⟨s, u, -, hs, -⟩
      rw [hfit] at hs
      cases hs
    | fail hr => exact reaches_not hr id

end Step

theorem loops_decide (fuel : ℕ) : MatchDecides fuel ∧ StarDecides fuel ∧ SuperDecides fuel := by
  induction fuel with
  | zero =>
    refine ⟨?_, ?_, ?_⟩
    · intro p path hf
      omega
    · intro p path best hf
      omega
    · intro p path best hp hf
      omega
  | succ fuel ih =>
    obtain ⟨ihMatch, ihStar, ihSuper⟩ := ih
    exact ⟨match_decides ihMatch ihStar ihSuper, starLoop_decides ihMatch ihStar,
      superLoop_decides ihMatch ihSuper⟩

theorem fullPatternMatch_decides (pattern path : List UInt8) :
    ∃ b, fullPatternMatch pattern path = .ok b ∧ (b = true ↔ Matches (tokens pattern) path) := by
  have hf : 2 * pattern.length + path.length + 1 ≤ 2 * (pattern.length + path.length) + 2 := by
    omega
  obtain ⟨q, hq, hm⟩ := (loops_decide _).1 pattern path hf
  rw [fullPatternMatch, hq]
  exact ⟨decide (q = some []), rfl, by rw [decide_eq_true_eq, hm]⟩

/-- The matcher does not go back on the first alternative that fits. -/
example : fullPatternMatch "/{a,ab}c".toUTF8.toList "/abc".toUTF8.toList = .ok false ∧
    fullPatternMatch "/{ab,a}c".toUTF8.toList "/abc".toUTF8.toList = .ok true := by
  decide +kernel

end Moodpd.Oscpkt
