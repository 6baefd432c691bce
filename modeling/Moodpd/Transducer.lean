import Mathlib

/-!
# Deterministic transducers

A transducer reads inputs one at a time and answers each with a list of outputs. This
module has their runs, invariants of what they emit, inputs that leave no trace, and the
refinement of a transducer by a step function that may fail.
-/
namespace Moodpd

structure Transducer (σ ι ο : Type*) where
  next : σ → ι → σ
  out : σ → ι → List ο

namespace Transducer
variable {σ ι ο κ : Type*} (T : Transducer σ ι ο)

def final (s : σ) (is : List ι) : σ := is.foldl T.next s

/-- Everything a run emits, in order. -/
def outputs : σ → List ι → List ο
  | _, [] => []
  | s, i :: is => T.out s i ++ outputs (T.next s i) is

@[simp] theorem final_nil (s : σ) : T.final s [] = s := rfl

@[simp] theorem final_cons (s : σ) (i : ι) (is : List ι) :
    T.final s (i :: is) = T.final (T.next s i) is := rfl

@[simp] theorem outputs_nil (s : σ) : T.outputs s [] = [] := rfl

@[simp] theorem outputs_cons (s : σ) (i : ι) (is : List ι) :
    T.outputs s (i :: is) = T.out s i ++ T.outputs (T.next s i) is := rfl

theorem final_append (s : σ) (is js : List ι) :
    T.final s (is ++ js) = T.final (T.final s is) js := List.foldl_append

theorem outputs_append (s : σ) (is js : List ι) :
    T.outputs s (is ++ js) = T.outputs s is ++ T.outputs (T.final s is) js := by
  induction is generalizing s with
  | nil => rfl
  | cons i is ih => rw [List.cons_append, outputs_cons, outputs_cons, final_cons, ih, List.append_assoc]

/-- What every step emits from a state of an invariant, every run emits. -/
theorem outputs_forall {I : σ → Prop} {A : ι → Prop} {P : ο → Prop}
    (hn : ∀ s i, I s → A i → I (T.next s i)) (ho : ∀ s i, I s → A i → ∀ o ∈ T.out s i, P o)
    {s : σ} (hs : I s) {is : List ι} (hi : ∀ i ∈ is, A i) : ∀ o ∈ T.outputs s is, P o := by
  induction is generalizing s with
  | nil => simp
  | cons i is ih =>
    have ha : A i := hi i (by simp)
    intro o h
    rcases List.mem_append.mp h with h | h
    · exact ho s i hs ha o h
    · exact ih (hn s i hs ha) (fun j hj => hi j (by simp [hj])) o h

/-- Drop the inputs that are silent in the state in which they arrive. -/
def audible (silent : σ → ι → Bool) : σ → List ι → List ι
  | _, [] => []
  | s, i :: is =>
    if silent s i then audible silent s is else i :: audible silent (T.next s i) is

variable {silent : σ → ι → Bool}
  (hsilent : ∀ s i, silent s i = true → T.next s i = s ∧ T.out s i = [])

include hsilent in
/-- Silent inputs change neither the outputs of a run nor its last state. -/
theorem run_audible (s : σ) (is : List ι) :
    T.outputs s (T.audible silent s is) = T.outputs s is ∧
      T.final s (T.audible silent s is) = T.final s is := by
  induction is generalizing s with
  | nil => exact ⟨rfl, rfl⟩
  | cons i is ih =>
    cases h : silent s i with
    | true =>
      obtain ⟨hn, ho⟩ := hsilent s i h
      simp [audible, h, hn, ho, ih s]
    | false =>
      obtain ⟨ih₁, ih₂⟩ := ih (T.next s i)
      simp [audible, h, ih₁, ih₂]

/-- Runs whose steps depend on a view of the inputs are equal on inputs of equal view. -/
theorem run_view {view : ι → κ}
    (hview : ∀ s i j, view i = view j → T.next s i = T.next s j ∧ T.out s i = T.out s j)
    (s : σ) {is js : List ι} (h : is.map view = js.map view) :
    T.outputs s is = T.outputs s js ∧ T.final s is = T.final s js := by
  induction is generalizing s js with
  | nil =>
    obtain rfl : js = [] := by simpa using h.symm
    exact ⟨rfl, rfl⟩
  | cons i is ih =>
    obtain ⟨j, js, rfl⟩ : ∃ j js', js = j :: js' := by
      cases js with
      | nil => simp at h
      | cons j js => exact ⟨j, js, rfl⟩
    simp only [List.map_cons, List.cons.injEq] at h
    obtain ⟨hn, ho⟩ := hview s i j h.1
    obtain ⟨ih₁, ih₂⟩ := ih (T.next s i) h.2
    simp [← hn, ho, ih₁, ih₂]

include hsilent in
/-- Noninterference: two runs are equal when their inputs, the silent ones left out, look
equal. -/
theorem noninterference {view : ι → κ}
    (hview : ∀ s i j, view i = view j → T.next s i = T.next s j ∧ T.out s i = T.out s j)
    {s : σ} {is js : List ι}
    (h : (T.audible silent s is).map view = (T.audible silent s js).map view) :
    T.outputs s is = T.outputs s js ∧ T.final s is = T.final s js := by
  obtain ⟨hi₁, hi₂⟩ := T.run_audible hsilent s is
  obtain ⟨hj₁, hj₂⟩ := T.run_audible hsilent s js
  obtain ⟨ho, hf⟩ := T.run_view hview s h
  exact ⟨by rw [← hi₁, ho, hj₁], by rw [← hi₂, hf, hj₂]⟩

section Refinement
variable {S ε : Type} {I O : Type} {Q : Type} (U : Transducer Q I O)

/-- A step function refines a transducer through an abstraction of its states and a record
of what it has emitted so far. A step that fails has emitted some initial part of what it
should, by the record left in its error. -/
structure Refines (step : S → I → Except ε S) (abs : S → Q) (emitted : S → List O)
    (left : ε → List O) : Prop where
  next : ∀ {s i s'}, step s i = .ok s' → abs s' = U.next (abs s) i
  out : ∀ {s i s'}, step s i = .ok s' → emitted s' = emitted s ++ U.out (abs s) i
  fail : ∀ {s i e}, step s i = .error e →
    ∃ n, left e = emitted s ++ (U.out (abs s) i).take n

variable {U} {step : S → I → Except ε S} {abs : S → Q} {emitted : S → List O}
  {left : ε → List O}

theorem Refines.run (R : U.Refines step abs emitted left) {is : List I} {s s' : S}
    (h : is.foldlM step s = .ok s') :
    abs s' = U.final (abs s) is ∧ emitted s' = emitted s ++ U.outputs (abs s) is := by
  induction is generalizing s with
  | nil =>
    obtain rfl : s = s' := by simpa [pure, Except.pure] using h
    simp
  | cons i is ih =>
    rw [List.foldlM_cons] at h
    cases hs : step s i with
    | error e => simp [hs, bind, Except.bind] at h
    | ok t =>
      have ht : is.foldlM step t = .ok s' := by simpa [hs, bind, Except.bind] using h
      obtain ⟨ha, he⟩ := ih ht
      rw [R.next hs] at ha he
      exact ⟨ha, by rw [he, R.out hs, outputs_cons, List.append_assoc]⟩

/-- A run that fails has emitted an initial part of the outputs. -/
theorem Refines.run_error (R : U.Refines step abs emitted left) {is : List I} {s : S} {e : ε}
    (h : is.foldlM step s = .error e) :
    ∃ n, left e = emitted s ++ (U.outputs (abs s) is).take n := by
  induction is generalizing s with
  | nil => simp [pure, Except.pure] at h
  | cons i is ih =>
    rw [List.foldlM_cons] at h
    cases hs : step s i with
    | error e' =>
      obtain rfl : e' = e := by simpa [hs, bind, Except.bind] using h
      obtain ⟨n, hn⟩ := R.fail hs
      refine ⟨min n (U.out (abs s) i).length, ?_⟩
      rw [hn, outputs_cons, List.take_append_of_le_length (Nat.min_le_right _ _),
        List.take_eq_take_min]
    | ok t =>
      have ht : is.foldlM step t = .error e := by simpa [hs, bind, Except.bind] using h
      obtain ⟨n, hn⟩ := ih ht
      refine ⟨(U.out (abs s) i).length + n, ?_⟩
      rw [hn, R.next hs, R.out hs, outputs_cons, List.take_length_add_append, List.append_assoc]

/-- A step function that never fails has a run over every list of inputs. -/
theorem run_total (h : ∀ s i, ∃ s', step s i = .ok s') (is : List I) (s : S) :
    ∃ s', is.foldlM step s = .ok s' := by
  induction is generalizing s with
  | nil => exact ⟨s, rfl⟩
  | cons i is ih =>
    obtain ⟨t, ht⟩ := h s i
    obtain ⟨s', hs'⟩ := ih t
    exact ⟨s', by rw [List.foldlM_cons, ht]; exact hs'⟩

end Refinement

end Transducer

end Moodpd
