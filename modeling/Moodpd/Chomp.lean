import Moodpd.Memory

/-!
# Removing the line ending of a C string
-/
namespace Moodpd
open Memory

/-- `strchr("\r\n", c)`, which also finds the terminator of its first argument. -/
def strchrEol (c : UInt8) : Bool := c = 13 ∨ c = 10 ∨ c = 0

/-- `int n= strlen(line)`. -/
def strlenInt (s : List UInt8) : ℤ := (BitVec.ofNat 32 s.length).toInt

/-- An index in front of the memory is in no region. -/
def index (i : ℤ) : Checked ℕ := if i < 0 then .error .outOfBounds else .ok i.toNat

/-- The loop of `chomp` on the string at an offset. -/
def chompLoop : ℕ → List UInt8 → ℕ → Checked (List UInt8)
  | 0, _, _ => .error .outOfFuel
  | fuel + 1, mem, line => do
    let s ← cstring (mem.drop line)
    let n := strlenInt s
    if n = 0 then .ok mem
    else
      let p ← index (line + n - 1)
      let c ← Memory.read mem p
      if strchrEol c then
        let mem ← write mem p 0
        chompLoop fuel mem line
      else .ok mem

def chomp (mem : List UInt8) (line : ℕ) : Checked (List UInt8) :=
  chompLoop (mem.length + 1) mem line

/-- A text without its trailing CR and LF characters. -/
def stripEol (s : List UInt8) : List UInt8 := s.rdropWhile fun c => c = 13 ∨ c = 10

theorem stripEol_isPrefix (s : List UInt8) : stripEol s <+: s := List.rdropWhile_prefix _ _

theorem stripEol_no_nul {s : List UInt8} (h : 0 ∉ s) : 0 ∉ stripEol s :=
  fun h0 => h ((stripEol_isPrefix s).subset h0)

theorem stripEol_concat (s : List UInt8) (c : UInt8) :
    stripEol (s ++ [c]) = if c = 13 ∨ c = 10 then stripEol s else s ++ [c] := by
  unfold stripEol
  split_ifs with h
  · exact List.rdropWhile_concat_pos _ _ _ (by simpa using h)
  · exact List.rdropWhile_concat_neg _ _ _ (by simpa using h)

/-- A line end of any length is stripped. -/
theorem stripEol_append (text : List UInt8) {eol : List UInt8} (he : ∀ b ∈ eol, b = 13 ∨ b = 10) :
    stripEol (text ++ eol) = stripEol text := by
  induction eol using List.reverseRecOn with
  | nil => rw [List.append_nil]
  | append_singleton eol c ih =>
    rw [← List.append_assoc, stripEol_concat, if_pos (he c (by simp))]
    exact ih fun b hb => he b (by simp [hb])

theorem stripEol_idempotent (s : List UInt8) : stripEol (stripEol s) = stripEol s :=
  List.rdropWhile_idempotent _ _

/-- A text is what is left of it and a line end. -/
theorem stripEol_split (s : List UInt8) :
    ∃ eol, s = stripEol s ++ eol ∧ ∀ b ∈ eol, b = 13 ∨ b = 10 :=
  ⟨s.rtakeWhile _, List.rdropWhile_append_rtakeWhile.symm,
    fun _ hb => by simpa using List.mem_rtakeWhile_imp hb⟩

def EndsInEol (s : List UInt8) : Prop := ∃ c ∈ s.getLast?, c = 13 ∨ c = 10

/-- The longest prefix of a text that does not end in CR or LF. -/
structure Chomped (s kept : List UInt8) : Prop where
  isPrefix : kept <+: s
  not_eol : ¬ EndsInEol kept
  longest : ∀ p, p <+: s → ¬ EndsInEol p → p <+: kept

theorem endsInEol_concat {s : List UInt8} {c : UInt8} :
    EndsInEol (s ++ [c]) ↔ c = 13 ∨ c = 10 := by
  simp [EndsInEol]

theorem chomped_stripEol (s : List UInt8) : Chomped s (stripEol s) := by
  induction s using List.reverseRecOn with
  | nil => exact ⟨List.prefix_rfl, by simp [EndsInEol, stripEol], fun p hp _ => hp⟩
  | append_singleton s c ih =>
    rw [stripEol_concat]
    split_ifs with heol
    · refine ⟨ih.isPrefix.trans (List.prefix_append s [c]), ih.not_eol, fun p hp hne => ?_⟩
      rcases List.prefix_concat_iff.mp hp with rfl | hp
      · exact absurd (endsInEol_concat.mpr heol) hne
      · exact ih.longest p hp hne
    · exact ⟨List.prefix_rfl, fun h => heol (endsInEol_concat.mp h), fun p hp _ => hp⟩

/-- What is left of a string is terminated, by the terminator if nothing was overwritten. -/
theorem zeros_cons (n : ℕ) (post : List UInt8) :
    ∃ post', List.replicate n 0 ++ 0 :: post = 0 :: post' := by
  cases n with
  | zero => exact ⟨post, rfl⟩
  | succ n => exact ⟨_, rfl⟩

/-- The loop of `chomp` with the index into the string of each byte it tests. -/
def chompTrace : ℕ → List UInt8 → ℕ → Checked (List ℤ × List UInt8)
  | 0, _, _ => .error .outOfFuel
  | fuel + 1, mem, line => do
    let s ← cstring (mem.drop line)
    let n := strlenInt s
    if n = 0 then .ok ([], mem)
    else
      let p ← index (line + n - 1)
      let c ← Memory.read mem p
      if strchrEol c then
        let mem ← write mem p 0
        let (touched, mem) ← chompTrace fuel mem line
        .ok ((n - 1) :: touched, mem)
      else .ok ([n - 1], mem)

/-- The trace is that of the loop. -/
theorem chompTrace_loop (fuel : ℕ) (mem : List UInt8) (line : ℕ) :
    (chompTrace fuel mem line).map Prod.snd = chompLoop fuel mem line := by
  induction fuel generalizing mem with
  | zero => rfl
  | succ fuel ih =>
    rw [chompTrace, chompLoop]
    cases cstring (mem.drop line) with
    | error e => rfl
    | ok s =>
      simp only [ok_bind]
      by_cases hn : strlenInt s = 0
      · rw [if_pos hn, if_pos hn]
        rfl
      rw [if_neg hn, if_neg hn]
      cases index (line + strlenInt s - 1) with
      | error e => rfl
      | ok p =>
        simp only [ok_bind]
        cases Memory.read mem p with
        | error e => rfl
        | ok c =>
          simp only [ok_bind]
          split_ifs
          · cases write mem p 0 with
            | error e => rfl
            | ok mem' =>
              simp only [ok_bind]
              rw [← ih mem']
              cases chompTrace fuel mem' line <;> rfl
          · rfl

theorem chompLoop_of_trace {fuel : ℕ} {mem mem' : List UInt8} {line : ℕ} {touched : List ℤ}
    (h : chompTrace fuel mem line = .ok (touched, mem')) : chompLoop fuel mem line = .ok mem' := by
  rw [← chompTrace_loop, h]
  rfl

theorem strlenInt_of_lt {s : List UInt8} (h : s.length < 2 ^ 31) : strlenInt s = s.length := by
  unfold strlenInt
  rw [BitVec.toInt_eq_toNat_cond, BitVec.toNat_ofNat, Nat.mod_eq_of_lt (by omega)]
  exact if_pos (by omega)

theorem strlenInt_lt (s : List UInt8) : strlenInt s < 2 ^ 31 := BitVec.toInt_lt

theorem strlenInt_le (s : List UInt8) : strlenInt s ≤ s.length := by
  have hmod := Nat.mod_le s.length (2 ^ 32)
  unfold strlenInt
  rw [BitVec.toInt_eq_toNat_cond, BitVec.toNat_ofNat]
  split_ifs <;> omega

section Turn
variable (pre t u post : List UInt8) {c : UInt8} (hs : 0 ∉ t ++ c :: u)
  (hn : strlenInt (t ++ c :: u) = t.length + 1)

include hs hn in
/-- One turn of the loop looks at the last character within the length and overwrites it or
stops. -/
theorem chompTrace_turn (fuel : ℕ) :
    chompTrace (fuel + 1) (pre ++ ((t ++ c :: u) ++ 0 :: post)) pre.length =
      if c = 13 ∨ c = 10 then
        (chompTrace fuel (pre ++ (t ++ 0 :: (u ++ 0 :: post))) pre.length).map
          fun r => ((t.length : ℤ) :: r.1, r.2)
      else .ok ([(t.length : ℤ)], pre ++ ((t ++ c :: u) ++ 0 :: post)) := by
  have hc : c ≠ 0 := fun h => hs (by simp [h])
  have hcstring : cstring ((pre ++ ((t ++ c :: u) ++ 0 :: post)).drop pre.length) =
      .ok (t ++ c :: u) := by
    rw [List.drop_left]
    exact cstring_append hs post
  have hindex : index (pre.length + (t.length + 1) - 1) = .ok (pre.length + t.length) := by
    unfold index
    rw [if_neg (by omega)]
    congr 1
    omega
  have hsplit : pre ++ ((t ++ c :: u) ++ 0 :: post) = (pre ++ t) ++ c :: (u ++ 0 :: post) := by
    simp
  have hread : Memory.read (pre ++ ((t ++ c :: u) ++ 0 :: post)) (pre.length + t.length) = .ok c := by
    rw [hsplit]
    exact read_append (by simp) _ _
  have hwrite : write (pre ++ ((t ++ c :: u) ++ 0 :: post)) (pre.length + t.length) 0 =
      .ok (pre ++ (t ++ 0 :: (u ++ 0 :: post))) := by
    rw [hsplit, write_append (by simp)]
    simp
  have heol : strchrEol c = decide (c = 13 ∨ c = 10) := by
    simp [strchrEol, hc]
  have hlast : (t.length : ℤ) + 1 - 1 = t.length := by omega
  rw [chompTrace, hcstring]
  simp only [ok_bind, hn, hindex, hread, hwrite, heol, decide_eq_true_eq, hlast]
  rw [if_neg (by omega)]
  split_ifs
  · cases chompTrace fuel (pre ++ (t ++ 0 :: (u ++ 0 :: post))) pre.length <;> rfl
  · rfl

end Turn

/-- A string whose length fits is stripped from its end. -/
theorem chompTrace_short (pre s post : List UInt8) (hs : 0 ∉ s) (hfit : s.length < 2 ^ 31)
    {fuel : ℕ} (hf : s.length < fuel) : ∃ touched,
    chompTrace fuel (pre ++ (s ++ 0 :: post)) pre.length =
      .ok (touched, pre ++ (stripEol s ++
        (List.replicate (s.length - (stripEol s).length) 0 ++ 0 :: post))) ∧
    ∀ i ∈ touched, 0 ≤ i ∧ i < s.length := by
  induction s using List.reverseRecOn generalizing fuel post with
  | nil =>
    obtain ⟨fuel, rfl⟩ := Nat.exists_eq_succ_of_ne_zero (Nat.ne_of_gt hf)
    refine ⟨[], ?_, by simp⟩
    rw [chompTrace, List.drop_left]
    rfl
  | append_singleton t c ih =>
    obtain ⟨fuel, rfl⟩ := Nat.exists_eq_succ_of_ne_zero (Nat.ne_of_gt (Nat.zero_lt_of_lt hf))
    have hn : strlenInt (t ++ [c]) = t.length + 1 := by
      rw [strlenInt_of_lt hfit]
      simp
    rw [List.length_append, List.length_singleton] at hf hfit
    rw [chompTrace_turn pre t [] post hs hn, stripEol_concat, List.nil_append]
    by_cases heol : c = 13 ∨ c = 10
    · have hle := (stripEol_isPrefix t).length_le
      have hzeros : (t ++ [c]).length - (stripEol t).length = (t.length - (stripEol t).length) + 1 := by
        rw [List.length_append, List.length_singleton]
        omega
      obtain ⟨touched, ht, hall⟩ :=
        ih (0 :: post) (fun h => hs (by simp [h])) (by omega) (show t.length < fuel by omega)
      refine ⟨(t.length : ℤ) :: touched, ?_, ?_⟩
      · rw [if_pos heol, if_pos heol, ht, hzeros, List.replicate_succ', List.append_assoc]
        rfl
      · intro i hi
        rw [List.length_append, List.length_singleton]
        rcases List.mem_cons.mp hi with rfl | hi
        · omega
        · have := hall i hi
          omega
    · refine ⟨[(t.length : ℤ)], ?_, by simp⟩
      rw [if_neg heol, if_neg heol, Nat.sub_self]
      rfl

/-- `chomp` overwrites the trailing CR and LF characters of a string with NUL, and nothing
else. -/
theorem chomp_append (pre s post : List UInt8) (hs : 0 ∉ s) (hfit : s.length < 2 ^ 31) :
    chomp (pre ++ (s ++ 0 :: post)) pre.length =
      .ok (pre ++ (stripEol s ++
        (List.replicate (s.length - (stripEol s).length) 0 ++ 0 :: post))) := by
  obtain ⟨touched, ht, -⟩ := chompTrace_short pre s post hs hfit
    (show s.length < (pre ++ (s ++ 0 :: post)).length + 1 by simp only [List.length_append]; omega)
  exact chompLoop_of_trace ht

/-- The string that is left is the one without its line ending. -/
theorem cstring_chomp (pre s post : List UInt8) (hs : 0 ∉ s) (hfit : s.length < 2 ^ 31) :
    ∃ mem, chomp (pre ++ (s ++ 0 :: post)) pre.length = .ok mem ∧
      cstring (mem.drop pre.length) = .ok (stripEol s) := by
  refine ⟨_, chomp_append pre s post hs hfit, ?_⟩
  obtain ⟨post', hpost⟩ := zeros_cons (s.length - (stripEol s).length) post
  rw [List.drop_left, hpost]
  exact cstring_append (stripEol_no_nul hs) post'

/-- The loop of `chomp` ends on the string `s`, tests bytes of the string only, and leaves the
longest prefix that does not end in CR or LF, that prefix and what surrounds the string as they
were. A second `chomp` finds nothing to do. -/
def Strips (pre s post : List UInt8) : Prop :=
  ∃ touched mem kept gap,
    chompTrace ((pre ++ (s ++ 0 :: post)).length + 1) (pre ++ (s ++ 0 :: post)) pre.length =
      .ok (touched, mem) ∧ (∀ i ∈ touched, 0 ≤ i ∧ i < s.length) ∧
    chomp (pre ++ (s ++ 0 :: post)) pre.length = .ok mem ∧ Chomped s kept ∧
    mem = pre ++ (kept ++ (gap ++ 0 :: post)) ∧ kept.length + gap.length = s.length ∧
    cstring (mem.drop pre.length) = .ok kept ∧ chomp mem pre.length = .ok mem

/-- The length as an `int` is not negative, and it is the length for all that the line ending
shows: the characters within it and the string both end in none, or those within it do and those
behind it are CR or LF. -/
def LengthFits (s : List UInt8) : Prop :=
  0 ≤ strlenInt s ∧
    (¬ EndsInEol (s.take (strlenInt s).toNat) ∧ ¬ EndsInEol s ∨
      EndsInEol (s.take (strlenInt s).toNat) ∧
        ∀ b ∈ s.drop (strlenInt s).toNat, b = 13 ∨ b = 10)

theorem lengthFits_of_lt {s : List UInt8} (h : s.length < 2 ^ 31) : LengthFits s := by
  have hlen := strlenInt_of_lt h
  refine ⟨by omega, ?_⟩
  rw [hlen, Int.toNat_natCast, List.take_length, List.drop_length]
  by_cases heol : EndsInEol s
  · exact .inr ⟨heol, by simp⟩
  · exact .inl ⟨heol, heol⟩

/-- Of a longest prefix there is one. -/
theorem Chomped.unique {s p q : List UInt8} (hp : Chomped s p) (hq : Chomped s q) : p = q :=
  (hq.longest p hp.isPrefix hp.not_eol).eq_of_length
    (le_antisymm (hq.longest p hp.isPrefix hp.not_eol).length_le
      (hp.longest q hq.isPrefix hq.not_eol).length_le)

/-- With a negative length the loop tests a byte in front of the string, if it ends. -/
theorem chompTrace_negative {pre s post : List UInt8} (hs : 0 ∉ s) (hneg : strlenInt s < 0)
    {fuel : ℕ} {touched : List ℤ} {mem : List UInt8}
    (h : chompTrace fuel (pre ++ (s ++ 0 :: post)) pre.length = .ok (touched, mem)) :
    ∃ i ∈ touched, i < 0 := by
  cases fuel with
  | zero => cases h
  | succ fuel =>
    have hcstring : cstring ((pre ++ (s ++ 0 :: post)).drop pre.length) = .ok s := by
      rw [List.drop_left]
      exact cstring_append hs post
    rw [chompTrace, hcstring] at h
    simp only [ok_bind] at h
    rw [if_neg (by omega)] at h
    obtain ⟨p, -, h⟩ := bind_eq_ok.mp h
    obtain ⟨c, -, h⟩ := bind_eq_ok.mp h
    split_ifs at h
    · obtain ⟨mem', -, h⟩ := bind_eq_ok.mp h
      obtain ⟨r, -, h⟩ := bind_eq_ok.mp h
      obtain ⟨rfl, -⟩ := Prod.mk.inj (Except.ok.inj h)
      exact ⟨strlenInt s - 1, by simp, by omega⟩
    · obtain ⟨rfl, -⟩ := Prod.mk.inj (Except.ok.inj h)
      exact ⟨strlenInt s - 1, by simp, by omega⟩

/-- Of a length that is positive, the characters within it. -/
theorem split_strlenInt {s : List UInt8} (hpos : 0 < strlenInt s) :
    ∃ t c u, s = t ++ c :: u ∧ strlenInt (t ++ c :: u) = t.length + 1 ∧
      s.take (strlenInt s).toNat = t ++ [c] ∧ s.drop (strlenInt s).toNat = u := by
  have hle := strlenInt_le s
  have hlen : (s.take (strlenInt s).toNat).length = (strlenInt s).toNat :=
    List.length_take_of_le (by omega)
  have hne : s.take (strlenInt s).toNat ≠ [] := by
    intro he
    rw [he, List.length_nil] at hlen
    omega
  obtain ⟨t, c, htc⟩ := List.eq_nil_or_concat' _ |>.resolve_left hne
  have hsplit : s = t ++ c :: s.drop (strlenInt s).toNat := by
    conv_lhs => rw [← List.take_append_drop (strlenInt s).toNat s, htc]
    simp
  refine ⟨t, c, s.drop (strlenInt s).toNat, hsplit, ?_, htc, rfl⟩
  rw [htc, List.length_append, List.length_singleton] at hlen
  rw [← hsplit]
  omega

theorem pos_of_endsInEol {s : List UInt8} (h0 : 0 ≤ strlenInt s)
    (h : EndsInEol (s.take (strlenInt s).toNat)) : 0 < strlenInt s := by
  rcases h0.eq_or_lt with hzero | hpos
  · rw [← hzero] at h
    simp [EndsInEol] at h
  · exact hpos

/-- A string whose last character within the length is no line end is left as it is. -/
theorem chompTrace_stop (pre : List UInt8) {s : List UInt8} (post : List UInt8) (hs : 0 ∉ s)
    (h0 : 0 ≤ strlenInt s) (h : ¬ EndsInEol (s.take (strlenInt s).toNat)) (fuel : ℕ) : ∃ touched,
    chompTrace (fuel + 1) (pre ++ (s ++ 0 :: post)) pre.length =
      .ok (touched, pre ++ (s ++ 0 :: post)) ∧ ∀ i ∈ touched, 0 ≤ i ∧ i < s.length := by
  rcases h0.eq_or_lt with hzero | hpos
  · refine ⟨[], ?_, by simp⟩
    rw [chompTrace, List.drop_left, cstring_append hs, ok_bind, if_pos hzero.symm]
  · obtain ⟨t, c, u, rfl, hn, htake, -⟩ := split_strlenInt hpos
    rw [htake, endsInEol_concat] at h
    refine ⟨[(t.length : ℤ)], ?_, by simp⟩
    rw [chompTrace_turn pre t u post hs hn, if_neg h]

/-- One whose last character within the length is a line end is cut there, and stripped. -/
theorem chompTrace_cut (pre t u post : List UInt8) {c : UInt8} (hs : 0 ∉ t ++ c :: u)
    (hn : strlenInt (t ++ c :: u) = t.length + 1) (hc : c = 13 ∨ c = 10) {fuel : ℕ}
    (hf : t.length < fuel) : ∃ touched,
    chompTrace (fuel + 1) (pre ++ ((t ++ c :: u) ++ 0 :: post)) pre.length =
      .ok (touched, pre ++ (stripEol t ++
        (List.replicate (t.length - (stripEol t).length) 0 ++ 0 :: (u ++ 0 :: post)))) ∧
    ∀ i ∈ touched, 0 ≤ i ∧ i < (t ++ c :: u).length := by
  have hfit : t.length < 2 ^ 31 := by
    have := strlenInt_lt (t ++ c :: u)
    omega
  obtain ⟨touched, ht, hall⟩ :=
    chompTrace_short pre t (u ++ 0 :: post) (fun h => hs (by simp [h])) hfit hf
  refine ⟨(t.length : ℤ) :: touched, ?_, ?_⟩
  · rw [chompTrace_turn pre t u post hs hn, if_pos hc, ht]
    rfl
  · intro i hi
    rw [List.length_append, List.length_cons]
    rcases List.mem_cons.mp hi with rfl | hi
    · omega
    · have := hall i hi
      omega

/-- `chomp` does what it is for exactly on the strings whose length fits. -/
theorem chomp_strips_iff (pre s post : List UInt8) (hs : 0 ∉ s) :
    Strips pre s post ↔ LengthFits s := by
  constructor
  · rintro ⟨touched, mem, kept, gap, htrace, hall, hchomp, hkept, hmem, hlen, hstring, -⟩
    have h0 : 0 ≤ strlenInt s := by
      by_contra hneg
      obtain ⟨i, hi, hlt⟩ := chompTrace_negative hs (by omega) htrace
      have := (hall i hi).1
      omega
    refine ⟨h0, ?_⟩
    by_cases heol : EndsInEol (s.take (strlenInt s).toNat)
    · obtain ⟨t, c, u, rfl, hn, htake, hdrop⟩ := split_strlenInt (pos_of_endsInEol h0 heol)
      refine .inr ⟨heol, ?_⟩
      rw [hdrop]
      rw [htake, endsInEol_concat] at heol
      obtain ⟨touched', ht, -⟩ := chompTrace_cut pre t u post hs hn heol
        (show t.length < (pre ++ ((t ++ c :: u) ++ 0 :: post)).length by
          simp only [List.length_append, List.length_cons]; omega)
      obtain ⟨-, rfl⟩ := Prod.mk.inj (Except.ok.inj (htrace.symm.trans ht))
      obtain ⟨post', hpost⟩ := zeros_cons (t.length - (stripEol t).length) (u ++ 0 :: post)
      have hnul : 0 ∉ stripEol t := stripEol_no_nul fun h => hs (by simp [h])
      rw [List.drop_left, hpost, cstring_append hnul] at hstring
      obtain rfl := Except.ok.inj hstring
      -- what is left of the whole string is not longer than what is left of the part
      obtain ⟨eol, hsplit, hall⟩ := stripEol_split (t ++ c :: u)
      rw [(chomped_stripEol (t ++ c :: u)).unique hkept] at hsplit
      have hle := (stripEol_isPrefix t).length_le
      intro b hb
      refine hall b (List.mem_of_mem_drop (i := t.length + 1 - (stripEol t).length) ?_)
      have hu : u = (t ++ c :: u).drop (t.length + 1) := by simp
      rw [hu, hsplit, List.drop_append, List.drop_eq_nil_of_le (by omega), List.nil_append] at hb
      exact hb
    · obtain ⟨touched', ht, -⟩ := chompTrace_stop pre post hs h0 heol (pre ++ (s ++ 0 :: post)).length
      obtain ⟨-, rfl⟩ := Prod.mk.inj (Except.ok.inj (htrace.symm.trans ht))
      rw [List.drop_left, cstring_append hs] at hstring
      obtain rfl := Except.ok.inj hstring
      exact .inl ⟨heol, hkept.not_eol⟩
  · rintro ⟨h0, ⟨hwithin, hend⟩ | ⟨hwithin, hbehind⟩⟩
    · obtain ⟨touched, ht, hall⟩ :=
        chompTrace_stop pre post hs h0 hwithin (pre ++ (s ++ 0 :: post)).length
      have hchomp := chompLoop_of_trace ht
      refine ⟨touched, _, s, [], ht, hall, hchomp, ?_, rfl, rfl, ?_, hchomp⟩
      · exact ⟨List.prefix_rfl, hend, fun p hp _ => hp⟩
      · rw [List.drop_left]
        exact cstring_append hs post
    · obtain ⟨t, c, u, rfl, hn, htake, hdrop⟩ := split_strlenInt (pos_of_endsInEol h0 hwithin)
      rw [htake, endsInEol_concat] at hwithin
      rw [hdrop] at hbehind
      obtain ⟨touched, ht, hall⟩ := chompTrace_cut pre t u post hs hn hwithin
        (show t.length < (pre ++ ((t ++ c :: u) ++ 0 :: post)).length by
          simp only [List.length_append, List.length_cons]; omega)
      have hle := (stripEol_isPrefix t).length_le
      have hlt := strlenInt_lt (t ++ c :: u)
      have hnul : 0 ∉ stripEol t := stripEol_no_nul fun h => hs (by simp [h])
      have hkept : stripEol (t ++ c :: u) = stripEol t :=
        stripEol_append t (List.forall_mem_cons.mpr ⟨hwithin, hbehind⟩)
      obtain ⟨post', hpost⟩ := zeros_cons (t.length - (stripEol t).length) (u ++ 0 :: post)
      refine ⟨touched, _, stripEol t, List.replicate (t.length - (stripEol t).length) 0 ++ 0 :: u, ht,
        hall, chompLoop_of_trace ht, hkept ▸ chomped_stripEol (t ++ c :: u), by simp, ?_, ?_, ?_⟩
      · simp only [List.length_append, List.length_replicate, List.length_cons]
        omega
      · rw [List.drop_left, hpost]
        exact cstring_append hnul post'
      · rw [hpost, chomp_append pre _ post' hnul (by omega), stripEol_idempotent, Nat.sub_self]
        rfl

/-- A string of line ends only, between two other bytes. -/
theorem chomp_strips_lineEnds : Strips [7] [13, 10, 10] [9] ↔ LengthFits [13, 10, 10] :=
  chomp_strips_iff [7] [13, 10, 10] [9] (by decide)

/-- With a length that is no `int`, the byte tested is not one of the string. -/
theorem chomp_strips_fails : ¬ Strips [] (List.replicate (2 ^ 31) 97) [] := by
  rintro ⟨touched, mem, -, -, htrace, hall, -⟩
  have hneg : strlenInt (List.replicate (2 ^ 31) 97) < 0 := by
    unfold strlenInt
    rw [List.length_replicate]
    decide
  have hs : (0 : UInt8) ∉ List.replicate (2 ^ 31) 97 := fun h => by
    exact absurd (List.eq_of_mem_replicate h) (by decide)
  obtain ⟨i, hi, hlt⟩ := chompTrace_negative hs hneg htrace
  have := (hall i hi).1
  omega

end Moodpd
