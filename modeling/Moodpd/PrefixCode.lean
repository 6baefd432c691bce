import Mathlib

/-!
# Streams of code words

An encoding of which no word is a prefix of another. A stream of its words is decoded in one
way only, and a stream that is a prefix of another ends between two of its words.
-/
namespace Moodpd.PrefixCode

variable {ι α : Type}

structure PrefixFree (word : ι → List α) : Prop where
  ne_nil : ∀ a, word a ≠ []
  eq_of_prefix : ∀ a b, word a <+: word b → a = b

/-- Words at the start of the same text are the same. -/
theorem PrefixFree.eq_of_prefixes {word : ι → List α} (h : PrefixFree word) {a b : ι}
    {text : List α} (ha : word a <+: text) (hb : word b <+: text) : a = b := by
  rcases List.prefix_or_prefix_of_prefix ha hb with hab | hba
  · exact h.eq_of_prefix a b hab
  · exact (h.eq_of_prefix b a hba).symm

theorem PrefixFree.flatMap_prefix_iff {word : ι → List α} (h : PrefixFree word)
    {xs ys : List ι} : xs.flatMap word <+: ys.flatMap word ↔ xs <+: ys := by
  constructor
  · intro hp
    induction xs generalizing ys with
    | nil => exact List.nil_prefix
    | cons x xs ih =>
      rw [List.flatMap_cons] at hp
      have hx : word x <+: ys.flatMap word := (List.prefix_append _ _).trans hp
      cases ys with
      | nil => exact absurd (List.prefix_nil.mp hx) (h.ne_nil x)
      | cons y ys =>
        rw [List.flatMap_cons] at hx hp
        obtain rfl := h.eq_of_prefixes hx (List.prefix_append _ _)
        rw [List.prefix_append_right_inj] at hp
        exact List.cons_prefix_cons.mpr ⟨rfl, ih hp⟩
  · rintro ⟨zs, rfl⟩
    rw [List.flatMap_append]
    exact List.prefix_append _ _

theorem PrefixFree.flatMap_injective {word : ι → List α} (h : PrefixFree word) :
    Function.Injective fun xs : List ι => xs.flatMap word := by
  intro xs ys he
  have hxy : xs <+: ys := h.flatMap_prefix_iff.mp ⟨[], by rw [List.append_nil]; exact he⟩
  have hyx : ys <+: xs := h.flatMap_prefix_iff.mp ⟨[], by rw [List.append_nil]; exact he.symm⟩
  exact hxy.eq_of_length (le_antisymm hxy.length_le hyx.length_le)

/-- Texts in which a terminator does not occur make a code when it is put behind them. -/
theorem prefixFree_terminated {body : ι → List α} {term : α} (hinj : Function.Injective body)
    (hterm : ∀ a, term ∉ body a) : PrefixFree fun a => body a ++ [term] where
  ne_nil a := by simp
  eq_of_prefix a b := by
    rintro ⟨rest, he⟩
    rw [List.append_assoc, List.singleton_append] at he
    exact (hinj ((List.append_cons_inj_of_notMem (hterm b) List.not_mem_nil).mp he.symm).1).symm

/-- Words between the same two texts make a code, whether the texts occur in them or not. -/
theorem PrefixFree.framed {word : ι → List α} (h : PrefixFree word) (start stop : List α) :
    PrefixFree fun a => start ++ (word a ++ stop) where
  ne_nil a := by simp [h.ne_nil a]
  eq_of_prefix a b hp := by
    rw [List.prefix_append_right_inj] at hp
    have ha : word a <+: word b ++ stop := (List.prefix_append _ _).trans hp
    exact h.eq_of_prefixes ha (List.prefix_append _ _)

end Moodpd.PrefixCode
