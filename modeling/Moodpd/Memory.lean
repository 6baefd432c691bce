import Mathlib

/-!
# Checked access to byte memory

A memory region is the list of its bytes, and a pointer into it is an offset. An access
through the functions of this module faults when it leaves the region, so that a run of
them which returns has made no access outside it. C strings and big-endian numbers are
read through the same functions.
-/
namespace Moodpd.Memory

inductive Fault
  | outOfBounds
  | assertFailed
  | outOfFuel
  deriving DecidableEq, Repr

abbrev Checked := Except Fault

section Bind
variable {ε α β : Type}

@[simp] theorem ok_bind (a : α) (f : α → Except ε β) : (Except.ok a >>= f) = f a := rfl

@[simp] theorem error_bind (e : ε) (f : α → Except ε β) :
    ((Except.error e : Except ε α) >>= f) = .error e := rfl

@[simp] theorem pure_eq_ok (a : α) : (pure a : Except ε α) = .ok a := rfl

theorem bind_eq_ok {r : Except ε α} {f : α → Except ε β} {b : β} :
    (r >>= f) = .ok b ↔ ∃ a, r = .ok a ∧ f a = .ok b := by
  cases r with
  | error e => simp
  | ok a => simp

/-- What a step that returns leaves satisfies a property. -/
theorem exists_ok_iff {r : Except ε α} {a : α} (h : r = .ok a) {P : α → Prop} :
    (∃ b, r = .ok b ∧ P b) ↔ P a := by
  subst h
  simp

/-- A step that appends to a list appends nothing else. -/
theorem exists_ok_append_iff {γ : Type} {r : Except ε α} {f : α → List γ} {old new : List γ}
    (h : ∃ a, r = .ok a ∧ f a = old ++ new) {cs : List γ} :
    (∃ a, r = .ok a ∧ f a = old ++ cs) ↔ new = cs := by
  obtain ⟨a, ha, hnew⟩ := h
  rw [exists_ok_iff ha, hnew, List.append_right_inj]

/-- Nor is the list unchanged unless nothing is appended. -/
theorem exists_ok_same_iff {γ : Type} {r : Except ε α} {f : α → List γ} {old new : List γ}
    (h : ∃ a, r = .ok a ∧ f a = old ++ new) : (∃ a, r = .ok a ∧ f a = old) ↔ new = [] := by
  rw [← exists_ok_append_iff h, List.append_nil]

end Bind

def assert (p : Prop) [Decidable p] : Checked Unit :=
  if p then .ok () else .error .assertFailed

@[simp] theorem assert_of {p : Prop} [Decidable p] (h : p) : assert p = .ok () := if_pos h

def read (m : List UInt8) (i : ℕ) : Checked UInt8 :=
  match m[i]? with
  | some b => .ok b
  | none => .error .outOfBounds

def readRange (m : List UInt8) (i n : ℕ) : Checked (List UInt8) :=
  if i + n ≤ m.length then .ok ((m.drop i).take n) else .error .outOfBounds

def write (m : List UInt8) (i : ℕ) (b : UInt8) : Checked (List UInt8) :=
  if i < m.length then .ok (m.set i b) else .error .outOfBounds

/-- The bytes from an offset on are replaced by others. -/
def writeRange (m : List UInt8) (i : ℕ) (bs : List UInt8) : Checked (List UInt8) :=
  if i + bs.length ≤ m.length then .ok (m.take i ++ (bs ++ m.drop (i + bs.length)))
  else .error .outOfBounds

theorem read_append {pre : List UInt8} {i : ℕ} (h : pre.length = i) (b : UInt8)
    (post : List UInt8) : read (pre ++ b :: post) i = .ok b := by
  subst h
  simp [read]

theorem read_of_lt {m : List UInt8} {i : ℕ} (h : i < m.length) : read m i = .ok m[i] := by
  simp [read, List.getElem?_eq_getElem h]

theorem readRange_append {pre d : List UInt8} {i n : ℕ} (hi : pre.length = i)
    (hn : d.length = n) (post : List UInt8) :
    readRange (pre ++ (d ++ post)) i n = .ok d := by
  subst hi hn
  simp [readRange]

theorem readRange_of_le {m : List UInt8} {i n : ℕ} (h : i + n ≤ m.length) :
    readRange m i n = .ok ((m.drop i).take n) := if_pos h

theorem readRange_zero {m : List UInt8} {n : ℕ} (h : n ≤ m.length) :
    readRange m 0 n = .ok (m.take n) := by
  rw [readRange_of_le (by omega), List.drop_zero]

theorem write_append {pre : List UInt8} {i : ℕ} (h : pre.length = i) (b c : UInt8)
    (post : List UInt8) : write (pre ++ b :: post) i c = .ok (pre ++ c :: post) := by
  subst h
  simp [write]

theorem writeRange_append {pre old bs : List UInt8} {i : ℕ} (hi : pre.length = i)
    (hl : old.length = bs.length) (post : List UInt8) :
    writeRange (pre ++ (old ++ post)) i bs = .ok (pre ++ (bs ++ post)) := by
  subst hi
  have hdrop : (pre ++ (old ++ post)).drop (pre.length + bs.length) = post := by
    rw [← List.append_assoc, ← hl, ← List.length_append, List.drop_left]
  unfold writeRange
  rw [if_pos (by simp only [List.length_append, hl]; omega), hdrop, List.take_left]

/-- `memchr(p, c, n)`: the bytes are read one by one up to the first match. -/
def memchr (m : List UInt8) (c : UInt8) (p : ℕ) : ℕ → Checked (Option ℕ)
  | 0 => .ok none
  | n + 1 => do
    let b ← read m p
    if b = c then .ok (some p) else memchr m c (p + 1) n

theorem memchr_found (pre s post : List UInt8) {c : UInt8} {p n : ℕ} (hp : pre.length = p)
    (hs : c ∉ s) (hn : s.length < n) :
    memchr (pre ++ (s ++ c :: post)) c p n = .ok (some (p + s.length)) := by
  induction s generalizing pre p n with
  | nil =>
    obtain ⟨n, rfl⟩ := Nat.exists_eq_succ_of_ne_zero (Nat.ne_of_gt hn)
    simp [memchr, read_append hp]
  | cons b s ih =>
    obtain ⟨n, rfl⟩ := Nat.exists_eq_succ_of_ne_zero (Nat.ne_of_gt (Nat.zero_lt_of_lt hn))
    have hb : b ≠ c := fun h => hs (by simp [h])
    have hp' : (pre ++ [b]).length = p + 1 := by simp [hp]
    have hi := ih (pre ++ [b]) hp' (fun h => hs (by simp [h]))
      (show s.length < n by simp at hn; omega)
    simp only [List.append_assoc, List.singleton_append] at hi
    simp only [List.cons_append, memchr, read_append hp, ok_bind, if_neg hb, hi,
      List.length_cons]
    congr 2
    omega

theorem memchr_absent (pre s post : List UInt8) {c : UInt8} {p : ℕ} (hp : pre.length = p)
    (hs : c ∉ s) : memchr (pre ++ (s ++ post)) c p s.length = .ok none := by
  induction s generalizing pre p with
  | nil => rfl
  | cons b s ih =>
    have hb : b ≠ c := fun h => hs (by simp [h])
    have hp' : (pre ++ [b]).length = p + 1 := by simp [hp]
    have hi := ih (pre ++ [b]) hp' (fun h => hs (by simp [h]))
    simp only [List.append_assoc, List.singleton_append] at hi
    simp only [List.cons_append, List.length_cons, memchr, read_append hp, ok_bind,
      if_neg hb, hi]

/-- The string at the start of a region, without its terminator. Reading it stops at
the first NUL, and faults where the region has none. -/
def cstring : List UInt8 → Checked (List UInt8)
  | [] => .error .outOfBounds
  | b :: bs =>
    if b = 0 then .ok []
    else do
      let s ← cstring bs
      .ok (b :: s)

theorem cstring_append {s : List UInt8} (hs : 0 ∉ s) (post : List UInt8) :
    cstring (s ++ 0 :: post) = .ok s := by
  induction s with
  | nil => rfl
  | cons b s ih =>
    have hb : b ≠ 0 := fun h => hs (by simp [h])
    simp [cstring, hb, ih fun h => hs (by simp [h])]

theorem takeWhile_nul {s : List UInt8} (hs : 0 ∉ s) (post : List UInt8) :
    (s ++ 0 :: post).takeWhile (· ≠ 0) = s := by
  have hall : ∀ b ∈ s, decide (b ≠ 0) = true := by
    intro b hb
    rw [decide_eq_true_eq]
    rintro rfl
    exact hs hb
  rw [List.takeWhile_append_of_pos hall, List.takeWhile_cons_of_neg (by simp), List.append_nil]

def bigEndian (bs : List UInt8) : ℕ := bs.foldl (fun n b => n * 256 + b.toNat) 0

/-- The `width` low bytes of `n`, most significant first. -/
def toBigEndian : ℕ → ℕ → List UInt8
  | 0, _ => []
  | width + 1, n => toBigEndian width (n / 256) ++ [UInt8.ofNat n]

def readBigEndian (m : List UInt8) (width p : ℕ) : Checked ℕ := do
  let bs ← readRange m p width
  .ok (bigEndian bs)

@[simp] theorem toBigEndian_length (width n : ℕ) : (toBigEndian width n).length = width := by
  induction width generalizing n with
  | zero => rfl
  | succ width ih => simp [toBigEndian, ih]

theorem bigEndian_append_singleton (bs : List UInt8) (b : UInt8) :
    bigEndian (bs ++ [b]) = bigEndian bs * 256 + b.toNat := by
  simp [bigEndian]

theorem bigEndian_lt (bs : List UInt8) : bigEndian bs < 256 ^ bs.length := by
  induction bs using List.reverseRecOn with
  | nil => simp [bigEndian]
  | append_singleton bs b ih =>
    have hb := b.toNat_lt
    rw [bigEndian_append_singleton, List.length_append, List.length_singleton, pow_succ]
    omega

theorem bigEndian_toBigEndian {width n : ℕ} (h : n < 256 ^ width) :
    bigEndian (toBigEndian width n) = n := by
  induction width generalizing n with
  | zero =>
    have hn : n = 0 := by simpa using h
    simp [toBigEndian, bigEndian, hn]
  | succ width ih =>
    have hd : n / 256 < 256 ^ width := by rw [pow_succ] at h; omega
    rw [toBigEndian, bigEndian_append_singleton, ih hd, UInt8.toNat_ofNat']
    omega

theorem toBigEndian_bigEndian (bs : List UInt8) :
    toBigEndian bs.length (bigEndian bs) = bs := by
  induction bs using List.reverseRecOn with
  | nil => rfl
  | append_singleton bs b ih =>
    have hb := b.toNat_lt
    have hd : (bigEndian bs * 256 + b.toNat) / 256 = bigEndian bs := by omega
    have hm : UInt8.ofNat (bigEndian bs * 256 + b.toNat) = b := by
      apply UInt8.toNat_inj.mp
      rw [UInt8.toNat_ofNat']
      omega
    rw [bigEndian_append_singleton, List.length_append, List.length_singleton, toBigEndian, hd,
      ih, hm]

theorem readBigEndian_append {pre d : List UInt8} {width p : ℕ} (hp : pre.length = p)
    (hd : d.length = width) (post : List UInt8) :
    readBigEndian (pre ++ (d ++ post)) width p = .ok (bigEndian d) := by
  simp [readBigEndian, readRange_append hp hd]

end Moodpd.Memory
