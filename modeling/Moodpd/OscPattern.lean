import Moodpd.Memory

/-!
# Matching an address against a pattern

`internalPatternMatch` of oscpkt. A pointer into a NUL-terminated string is the list of the
bytes from it up to the terminator, so the null pointer is `none` and a larger pointer into
the pattern a shorter list. The fuel bounds the nested loops.
-/
namespace Moodpd.Oscpkt
open Memory

/-- Comparison of two `char`, which are signed. -/
def charLe (a b : UInt8) : Bool := Int.bmod a.toNat 256 ≤ Int.bmod b.toNat 256

/-- The loop over a bracketed range, from behind the bracket. It returns `match` and the
pattern from where the loop stops. -/
def bracketLoop (reverse : Bool) (b : UInt8) : Bool → List UInt8 → Bool × List UInt8
  | m, [] => (m, [])
  | m, [c0] =>
    if c0 = 93 then (m, [c0])
    else (if charLe c0 b && charLe b c0 then !reverse else m, [])
  | m, [c0, d] =>
    if c0 = 93 then (m, [c0, d])
    else bracketLoop reverse b (if charLe c0 b && charLe b c0 then !reverse else m) [d]
  | m, c0 :: d :: c1 :: p =>
    if c0 = 93 then (m, c0 :: d :: c1 :: p)
    else if d = 45 then
      bracketLoop reverse b (if charLe c0 b && charLe b c1 then !reverse else m) p
    else
      bracketLoop reverse b (if charLe c0 b && charLe b c0 then !reverse else m) (d :: c1 :: p)

/-- The loop over the alternatives of a braced list, with the path behind the first one that
matches. -/
def braceLoop (path : List UInt8) : List (List UInt8) → Option (List UInt8)
  | [] => none
  | item :: items => if item.isPrefixOf path then some (path.drop item.length) else braceLoop path items

/-- `if (ret && ret > best) best = ret`. -/
def later (best ret : Option (List UInt8)) : Option (List UInt8) :=
  match ret, best with
  | none, best => best
  | some r, none => some r
  | some r, some b => if r.length < b.length then some r else some b

mutual
def internalPatternMatch : ℕ → List UInt8 → List UInt8 → Checked (Option (List UInt8))
  | 0, _, _ => .error .outOfFuel
  | _ + 1, [], path => .ok (if path = [] then some [] else none)
  | fuel + 1, c :: p, path =>
    if c = 63 ∧ path ≠ [] then internalPatternMatch fuel p path.tail
    else if c = 91 ∧ path ≠ [] then
      let reverse : Bool := p.head? = some 33
      let range := bracketLoop reverse (path.headD 0) reverse (if reverse then p.tail else p)
      if !range.1 ∨ range.2.head? ≠ some 93 then .ok (some (c :: p))
      else internalPatternMatch fuel range.2.tail path.tail
    else if c = 42 then starLoop fuel (p.dropWhile (· = 42)) path none
    else if c = 47 ∧ p.head? = some 47 then superLoop fuel (47 :: p.dropWhile (· = 47)) path none
    else if c = 123 then
      if 125 ∈ p then
        match braceLoop path ((p.takeWhile (· ≠ 125)).splitOn 44) with
        | none => .ok (some (c :: p))
        | some path => internalPatternMatch fuel (p.dropWhile (· ≠ 125)).tail path
      else .ok none
    else if path.head? = some c then internalPatternMatch fuel p path.tail
    else .ok (if path = [] then some (c :: p) else none)

/-- The loop of the wildcard `*`, over the path up to a slash. -/
def starLoop : ℕ → List UInt8 → List UInt8 → Option (List UInt8) → Checked (Option (List UInt8))
  | 0, _, _, _ => .error .outOfFuel
  | fuel + 1, p, path, best => do
    let ret ← internalPatternMatch fuel p path
    match path with
    | [] => .ok (later best ret)
    | d :: path => if d = 47 then .ok (later best ret) else starLoop fuel p path (later best ret)

/-- The loop of the super-wildcard `//`, over the slashes of the path. -/
def superLoop : ℕ → List UInt8 → List UInt8 → Option (List UInt8) → Checked (Option (List UInt8))
  | 0, _, _, _ => .error .outOfFuel
  | fuel + 1, p, path, best => do
    let ret ← internalPatternMatch fuel p path
    match path.tail.dropWhile (· ≠ 47) with
    | [] => .ok (later best ret)
    | d :: path => superLoop fuel p (d :: path) (later best ret)
end

def fullPatternMatch (pattern path : List UInt8) : Checked Bool := do
  let q ← internalPatternMatch (2 * (pattern.length + path.length) + 2) pattern path
  .ok (q = some [])

/-- A pattern starts with this text, in which no byte is special. -/
def Literal : List UInt8 → List UInt8 → Prop
  | [], _ => True
  | c :: lit, rest => (c ≠ 63 ∧ c ≠ 91 ∧ c ≠ 42 ∧ c ≠ 123 ∧
      ¬ (c = 47 ∧ (lit ++ rest).head? = some 47)) ∧ Literal lit rest

instance : ∀ lit rest, Decidable (Literal lit rest)
  | [], _ => .isTrue trivial
  | _ :: lit, rest => @instDecidableAnd _ _ _ (instDecidableLiteral lit rest)

/-- Literal text is matched byte by byte. -/
theorem match_literal {lit rest : List UInt8} (hl : Literal lit rest) (fuel : ℕ)
    (path : List UInt8) :
    internalPatternMatch (fuel + lit.length + 1) (lit ++ rest) (lit ++ path) =
      internalPatternMatch (fuel + 1) rest path := by
  induction lit with
  | nil => rfl
  | cons c lit ih =>
    obtain ⟨⟨h1, h2, h3, h4, h5⟩, hl⟩ := hl
    rw [← ih hl, List.length_cons, ← Nat.add_assoc, List.cons_append, List.cons_append,
      internalPatternMatch]
    simp only [h1, h2, h3, h4, h5, false_and, if_false, if_true, List.head?_cons, List.tail_cons]

/-- Where the path leaves the literal text, no match reaches the end of the pattern. -/
theorem match_literal_fails {lit rest path : List UInt8} (hl : Literal lit rest) {fuel : ℕ}
    (hf : lit.length ≤ fuel) (hp : ¬ lit <+: path) :
    ∃ q, internalPatternMatch fuel (lit ++ rest) path = .ok q ∧ q ≠ some [] := by
  induction lit generalizing fuel path with
  | nil => exact absurd List.nil_prefix hp
  | cons c lit ih =>
    obtain ⟨⟨h1, h2, h3, h4, h5⟩, hl⟩ := hl
    cases fuel with
    | zero => simp at hf
    | succ fuel =>
      rw [List.cons_append, internalPatternMatch]
      simp only [h1, h2, h3, h4, h5, false_and, if_false]
      cases path with
      | nil => exact ⟨_, rfl, by simp⟩
      | cons d path =>
        by_cases hd : c = d
        · subst hd
          have hp' : ¬ lit <+: path := fun h => hp ((List.prefix_cons_inj c).mpr h)
          obtain ⟨q, hq, hne⟩ := ih hl (by simpa using hf) hp'
          exact ⟨q, by simpa using hq, hne⟩
        · exact ⟨none, by simp [Ne.symm hd], by simp⟩

/-- A pattern without special bytes matches itself only. -/
theorem match_literal_only {lit : List UInt8} (hl : Literal lit []) {fuel : ℕ}
    (hf : lit.length < fuel) (path : List UInt8) :
    ∃ q, internalPatternMatch fuel lit path = .ok q ∧ (q = some [] ↔ path = lit) := by
  obtain ⟨fuel, rfl⟩ : ∃ n, fuel = n + lit.length + 1 := ⟨fuel - lit.length - 1, by omega⟩
  by_cases hp : lit <+: path
  · obtain ⟨rest, rfl⟩ := hp
    have hm := match_literal hl fuel rest
    rw [List.append_nil] at hm
    refine ⟨_, hm.trans rfl, ?_⟩
    by_cases hr : rest = [] <;> simp [hr]
  · obtain ⟨q, hq, hne⟩ := match_literal_fails hl (show lit.length ≤ fuel + lit.length + 1 by omega) hp
    rw [List.append_nil] at hq
    exact ⟨q, hq, iff_of_false hne fun h => hp (h ▸ List.prefix_rfl)⟩

theorem later_eq_some_nil {best ret : Option (List UInt8)} :
    later best ret = some [] ↔ best = some [] ∨ ret = some [] := by
  rcases best with _ | b <;> rcases ret with _ | r <;> simp only [later, reduceCtorEq, or_false,
    false_or]
  rcases b with _ | ⟨x, b⟩ <;> rcases r with _ | ⟨y, r⟩ <;> simp
  split_ifs <;> simp

theorem slashFree_nil {tail : List UInt8} : (∃ s, 47 ∉ s ∧ [] = s ++ tail) ↔ [] = tail := by
  constructor
  · rintro ⟨s, -, h⟩
    exact (List.append_eq_nil_iff.mp h.symm).2.symm
  · intro h
    exact ⟨[], by simp, h⟩

theorem slashFree_slash {tail path : List UInt8} :
    (∃ s, 47 ∉ s ∧ 47 :: path = s ++ tail) ↔ 47 :: path = tail := by
  constructor
  · rintro ⟨s, hs, h⟩
    cases s with
    | nil => exact h
    | cons e s =>
      rw [List.cons_append, List.cons.injEq] at h
      simp [← h.1] at hs
  · intro h
    exact ⟨[], by simp, h⟩

theorem slashFree_cons {tail path : List UInt8} {d : UInt8} (hd : d ≠ 47) :
    (∃ s, 47 ∉ s ∧ d :: path = s ++ tail) ↔ d :: path = tail ∨ ∃ s, 47 ∉ s ∧ path = s ++ tail := by
  constructor
  · rintro ⟨s, hs, h⟩
    cases s with
    | nil => exact .inl h
    | cons e s =>
      rw [List.cons_append, List.cons.injEq] at h
      exact .inr ⟨s, fun hm => hs (List.mem_cons_of_mem _ hm), h.2⟩
  · rintro (h | ⟨s, hs, h⟩)
    · exact ⟨[], by simp, h⟩
    · exact ⟨d :: s, by simp [hs, Ne.symm hd], by rw [h, List.cons_append]⟩

/-- The wildcard loop reaches the end of the pattern when literal text follows it and is
what remains of the path somewhere up to the next slash. -/
theorem starLoop_literal {tail : List UInt8} (hl : Literal tail []) {fuel : ℕ}
    (path : List UInt8) (hf : tail.length + path.length + 1 < fuel) (best : Option (List UInt8)) :
    ∃ q, starLoop fuel tail path best = .ok q ∧
      (q = some [] ↔ best = some [] ∨ ∃ s, 47 ∉ s ∧ path = s ++ tail) := by
  induction path generalizing fuel best with
  | nil =>
    cases fuel with
    | zero => simp at hf
    | succ fuel =>
      obtain ⟨ret, hr, hm⟩ := match_literal_only hl (show tail.length < fuel by simpa using hf) []
      refine ⟨later best ret, by simp [starLoop, hr], ?_⟩
      rw [later_eq_some_nil, hm, slashFree_nil]
  | cons d path ih =>
    cases fuel with
    | zero => simp at hf
    | succ fuel =>
      simp only [List.length_cons] at hf
      obtain ⟨ret, hr, hm⟩ := match_literal_only hl (show tail.length < fuel by omega) (d :: path)
      by_cases hd : d = 47
      · subst hd
        refine ⟨later best ret, by rw [starLoop, hr]; simp, ?_⟩
        rw [later_eq_some_nil, hm, slashFree_slash]
      · obtain ⟨q, hq, hqm⟩ := ih (show tail.length + path.length + 1 < fuel by omega) (later best ret)
        refine ⟨q, by simp [starLoop, hr, hd, hq], ?_⟩
        rw [hqm, later_eq_some_nil, hm, slashFree_cons hd, or_assoc]

theorem fullPatternMatch_literal {lit : List UInt8} (hl : Literal lit []) (path : List UInt8) :
    fullPatternMatch lit path = .ok (decide (path = lit)) := by
  obtain ⟨q, hq, hm⟩ := match_literal_only hl
    (show lit.length < 2 * (lit.length + path.length) + 2 by omega) path
  unfold fullPatternMatch
  rw [hq, ok_bind]
  exact congrArg Except.ok (decide_eq_decide.mpr hm)

/-- A wildcard between literal texts matches any text without a slash. -/
theorem fullPatternMatch_star {lit tail : List UInt8} (hl : Literal lit (42 :: tail))
    (ht : Literal tail []) (path : List UInt8) : ∃ m,
    fullPatternMatch (lit ++ 42 :: tail) path = .ok m ∧
      (m = true ↔ ∃ s, 47 ∉ s ∧ path = lit ++ (s ++ tail)) := by
  unfold fullPatternMatch
  by_cases hp : lit <+: path
  · obtain ⟨rest, rfl⟩ := hp
    have hfuel : 2 * ((lit ++ 42 :: tail).length + (lit ++ rest).length) + 2 =
        (3 * lit.length + 2 * tail.length + 2 * rest.length + 3) + lit.length + 1 := by
      simp only [List.length_append, List.length_cons]
      omega
    have hstar : tail.dropWhile (· = 42) = tail := by
      cases tail with
      | nil => rfl
      | cons c tail => exact List.dropWhile_cons_of_neg (by simpa using ht.1.2.2.1)
    rw [hfuel, match_literal hl, internalPatternMatch]
    simp only [hstar, if_true, show ((42 : UInt8) = 63) = False by decide,
      show ((42 : UInt8) = 91) = False by decide, false_and, if_false]
    obtain ⟨q, hq, hm⟩ := starLoop_literal ht rest
      (show tail.length + rest.length + 1 < 3 * lit.length + 2 * tail.length + 2 * rest.length + 3 by
        omega) none
    refine ⟨_, by rw [hq, ok_bind], ?_⟩
    simp only [decide_eq_true_eq, hm, reduceCtorEq, false_or, List.append_cancel_left_eq]
  · obtain ⟨q, hq, hne⟩ := match_literal_fails hl
      (show lit.length ≤ 2 * ((lit ++ 42 :: tail).length + path.length) + 2 by
        simp only [List.length_append]
        omega) hp
    refine ⟨_, by rw [hq, ok_bind], ?_⟩
    simp only [hne, decide_false, Bool.false_eq_true, false_iff]
    rintro ⟨s, -, rfl⟩
    exact hp (List.prefix_append _ _)

end Moodpd.Oscpkt
