import Mathlib

/-!
# Texts between delimiters

Splitting a list at the first occurrence of a delimiter that does not overlap itself. The part
before it is then any list that does not contain the delimiter.
-/
namespace Moodpd.Delimiter
variable {α : Type*}

/-- No proper end of the delimiter is its beginning. -/
def Unbordered (pat : List α) : Prop :=
  pat ≠ [] ∧ ∀ k < pat.length, 0 < k → ¬ pat.drop k <+: pat

theorem unbordered_singleton (a : α) : Unbordered [a] :=
  ⟨List.cons_ne_nil _ _, fun k hk hpos => by
    rw [List.length_singleton] at hk
    omega⟩

instance [DecidableEq α] (pat : List α) : Decidable (Unbordered pat) :=
  inferInstanceAs (Decidable (_ ∧ _))

/-- The first occurrence of a delimiter is the one whose front does not contain it. -/
theorem Unbordered.length_le {pat p s p' s' : List α} (h : Unbordered pat)
    (he : p ++ (pat ++ s) = p' ++ (pat ++ s')) (hp : ¬ pat <:+: p) : p.length ≤ p'.length := by
  by_contra hlt
  rcases List.append_eq_append_iff.mp he with ⟨t, rfl, -⟩ | ⟨t, rfl, ht⟩
  · rw [List.length_append] at hlt
    omega
  · -- the other occurrence begins before the end of the front
    have hpos : 0 < t.length := by
      rw [List.length_append] at hlt
      omega
    rcases List.append_eq_append_iff.mp ht with ⟨u, rfl, -⟩ | ⟨u, hpat, hu⟩
    · exact hp ⟨p', u, List.append_assoc ..⟩
    · have hlen : pat.length = t.length + u.length := by
        rw [hpat, List.length_append]
      have hdrop : pat.drop t.length = u := by
        rw [hpat]
        exact List.drop_left
      have hprefix : u <+: pat := by
        have hleft : u <+: u ++ s' := ⟨s', rfl⟩
        exact List.prefix_of_prefix_length_le hleft ⟨s, hu⟩ (by omega)
      by_cases hu0 : u = []
      · rw [hu0, List.append_nil] at hpat
        exact hp ⟨p', [], by rw [List.append_nil, hpat]⟩
      · have hupos := List.length_pos_iff.mpr hu0
        exact h.2 t.length (by omega) hpos (hdrop ▸ hprefix)

/-- A list in which the delimiter cannot begin is passed over. -/
theorem infix_append_iff {a l pat : List α} {c : α} (hc : c ∉ a) :
    c :: pat <:+: a ++ l ↔ c :: pat <:+: l := by
  induction a with
  | nil => rfl
  | cons b a ih =>
    rw [List.mem_cons, not_or] at hc
    rw [List.cons_append, List.infix_cons_iff, ih hc.2]
    refine or_iff_right ?_
    rintro ⟨t, ht⟩
    exact hc.1 (List.cons.inj ht).1

variable [DecidableEq α]

theorem dropInfix_iff {pat l p s : List α} (h : Unbordered pat) :
    l.dropInfix? pat = some (p, s) ↔ l = p ++ (pat ++ s) ∧ ¬ pat <:+: p := by
  rw [List.dropInfix?_eq_some_iff]
  constructor
  · rintro ⟨⟨i, hl, hi⟩, hmin⟩
    obtain rfl := eq_of_beq hi
    refine ⟨by rw [hl, List.append_assoc], ?_⟩
    rintro ⟨a, b, rfl⟩
    have hle := hmin a i (b ++ (i ++ s)) (by rw [hl]; simp) (beq_self_eq_true i)
    have hpos := List.length_pos_iff.mpr h.1
    simp only [List.length_append] at hle
    omega
  · rintro ⟨rfl, hp⟩
    refine ⟨⟨pat, by rw [List.append_assoc], beq_self_eq_true pat⟩, fun p' i' s' hl hi => ?_⟩
    obtain rfl := eq_of_beq hi
    rw [List.append_assoc] at hl
    exact h.length_le hl hp

theorem dropInfix_eq_none {pat l : List α} : l.dropInfix? pat = none ↔ ¬ pat <:+: l := by
  classical
  constructor
  · rintro hnone ⟨p, s, hps⟩
    -- of all occurrences take the one with the shortest front
    have hex : ∃ n p s, n = p.length ∧ p ++ pat ++ s = l := ⟨_, p, s, rfl, hps⟩
    obtain ⟨p, s, hlen, hl⟩ := Nat.find_spec hex
    have hsome : l.dropInfix? pat = some (p, s) := by
      refine List.dropInfix?_eq_some_iff.mpr
        ⟨⟨pat, hl.symm, beq_self_eq_true pat⟩, fun p' i' s' hl' hi => ?_⟩
      obtain rfl := eq_of_beq hi
      rw [← hlen]
      exact Nat.find_min' hex ⟨p', s', rfl, hl'.symm⟩
    rw [hsome] at hnone
    exact Option.some_ne_none _ hnone
  · intro hno
    cases hd : l.dropInfix? pat with
    | none => rfl
    | some r =>
      obtain ⟨⟨i, hl, hi⟩, -⟩ := List.dropInfix?_eq_some_iff.mp hd
      obtain rfl := eq_of_beq hi
      exact absurd ⟨r.1, r.2, hl.symm⟩ hno

end Moodpd.Delimiter
