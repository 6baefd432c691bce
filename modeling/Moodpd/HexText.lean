import Mathlib

/-!
# Hexadecimal text in C

The `%0nx` and `%c` conversions of `printf` and the `%nx` conversion of `scanf` on a
32-bit `int`, with their C-standard meaning, over strings given as their bytes without
the terminator.
-/
namespace Moodpd.HexText

/-- The bytes of an ASCII literal. -/
def ascii (s : String) : List UInt8 := s.toList.map Char.toUInt8

def digitChar (n : ℕ) : UInt8 := UInt8.ofNat (if n < 10 then 48 + n else 87 + n)

def hexValue (b : UInt8) : Option ℕ :=
  if 48 ≤ b ∧ b ≤ 57 then some (b.toNat - 48)
  else if 97 ≤ b ∧ b ≤ 102 then some (b.toNat - 87)
  else if 65 ≤ b ∧ b ≤ 70 then some (b.toNat - 55)
  else none

def isHexDigit (b : UInt8) : Bool := (hexValue b).isSome

def IsLowerHex (b : UInt8) : Prop := (48 ≤ b ∧ b ≤ 57) ∨ (97 ≤ b ∧ b ≤ 102)

instance : DecidablePred IsLowerHex := fun b =>
  inferInstanceAs (Decidable ((48 ≤ b ∧ b ≤ 57) ∨ (97 ≤ b ∧ b ≤ 102)))

theorem digitChar_lower : ∀ n < 16, IsLowerHex (digitChar n) := by decide

theorem digitChar_injective : ∀ m < 16, ∀ n < 16, digitChar m = digitChar n → m = n := by decide

theorem hexValue_lt {b : UInt8} {v : ℕ} (h : hexValue b = some v) : v < 16 := by
  simp only [hexValue, UInt8.le_iff_toNat_le] at h
  simp only [UInt8.toNat_ofNat] at h
  split_ifs at h <;> simp only [Option.some.injEq] at h <;> omega

theorem isHexDigit_iff {b : UInt8} : isHexDigit b = true ↔ ∃ v, hexValue b = some v := by
  simp [isHexDigit, Option.isSome_iff_exists]

/-- The eight hexadecimal digits of a 32-bit value, most significant first. -/
def nibbles (n : ℕ) : List ℕ := [7, 6, 5, 4, 3, 2, 1, 0].map fun i => n / 16 ^ i % 16

/-- `%0<width>x` of an `int`: its 32 bits as an unsigned value, without leading zeros
beyond the `width`. The width only bounds the number of digits from below. -/
def hexDigits (width : ℕ) (v : ℤ) : List UInt8 :=
  let ns := nibbles (v % 2 ^ 32).toNat
  ((ns.take (8 - width)).dropWhile (· = 0) ++ ns.drop (8 - width)).map digitChar

inductive Piece
  | lit (b : UInt8)
  | hex (width : ℕ)
  | char
  deriving DecidableEq, Repr

def format : List Piece → List ℤ → List UInt8
  | [], _ => []
  | .lit b :: ps, args => b :: format ps args
  | .hex width :: ps, a :: args => hexDigits width a ++ format ps args
  | .char :: ps, a :: args => UInt8.ofNat (a % 256).toNat :: format ps args
  | _ :: _, [] => []

theorem nibbles_lt {n d : ℕ} (h : d ∈ nibbles n) : d < 16 := by
  obtain ⟨i, -, rfl⟩ := List.mem_map.mp h
  exact Nat.mod_lt _ (by decide)

theorem hexDigits_lower {width : ℕ} {v : ℤ} {b : UInt8} (h : b ∈ hexDigits width v) :
    IsLowerHex b := by
  obtain ⟨d, hd, rfl⟩ := List.mem_map.mp h
  apply digitChar_lower
  apply nibbles_lt (n := (v % 2 ^ 32).toNat)
  rcases List.mem_append.mp hd with hd | hd
  · exact List.mem_of_mem_take (List.dropWhile_subset _ hd)
  · exact List.mem_of_mem_drop hd

theorem hexDigits_length_le (width : ℕ) (v : ℤ) : (hexDigits width v).length ≤ 8 := by
  have hl : (nibbles (v % 2 ^ 32).toNat).length = 8 := by simp [nibbles]
  simp only [hexDigits, List.length_map, List.length_append, List.length_drop, hl]
  have hd := List.length_dropWhile_le (· = 0) ((nibbles (v % 2 ^ 32).toNat).take (8 - width))
  rw [List.length_take, hl] at hd
  omega

theorem format_length_le (fmt : List Piece) (args : List ℤ) :
    (format fmt args).length ≤ 8 * fmt.length := by
  induction fmt generalizing args with
  | nil => simp [format]
  | cons p fmt ih =>
    rw [List.length_cons]
    cases p with
    | lit b =>
      have := ih args
      rw [format, List.length_cons]
      omega
    | hex width =>
      cases args with
      | nil => simp [format]
      | cons a args =>
        have := ih args
        have := hexDigits_length_le width a
        rw [format, List.length_append]
        omega
    | char =>
      cases args with
      | nil => simp [format]
      | cons a args =>
        have := ih args
        rw [format, List.length_cons]
        omega

theorem hexDigits_byte {v : ℤ} (h0 : 0 ≤ v) (h1 : v ≤ 255) :
    hexDigits 2 v = [digitChar (v.toNat / 16), digitChar (v.toNat % 16)] := by
  have hv : v % 4294967296 = v := by omega
  have hn : nibbles v.toNat = [0, 0, 0, 0, 0, 0, v.toNat / 16, v.toNat % 16] := by
    simp only [nibbles, List.map_cons, List.map_nil, List.cons.injEq, and_true]
    norm_num
    omega
  simp [hexDigits, hv, hn]

theorem hexDigits_byte_length {v : ℤ} (h0 : 0 ≤ v) (h1 : v ≤ 255) :
    (hexDigits 2 v).length = 2 := by
  simp [hexDigits_byte h0 h1]

def isSpace (b : UInt8) : Bool := b == 32 || (9 ≤ b && b ≤ 13)

/-- An input failure is the end of the text before the conversion's first character, a
matching failure text that is no number. -/
inductive Scan
  | inputFailure
  | matchingFailure
  | converted (value : ℤ) (rest : List UInt8)
  deriving DecidableEq, Repr

def scanSign (width : ℕ) : List UInt8 → Bool × ℕ × List UInt8
  | b :: s =>
    if b = 45 then (true, width - 1, s)
    else if b = 43 then (false, width - 1, s)
    else (false, width, b :: s)
  | [] => (false, width, [])

/-- Consume an optional `0x`, when it fits in the width. A lone `0x` is then no number. -/
def scanPrefix (width : ℕ) : List UInt8 → ℕ × List UInt8
  | a :: b :: s =>
    if 2 ≤ width ∧ a = 48 ∧ (b = 120 ∨ b = 88) then (width - 2, s) else (width, a :: b :: s)
  | s => (width, s)

def hexNumber (ds : List UInt8) : ℕ := ds.foldl (fun n b => n * 16 + (hexValue b).getD 0) 0

/-- The number at the start of a text. Its value is taken modulo 2^32 and stored as the 32
bits of an `int`. -/
def scanNumber (width : ℕ) (s : List UInt8) : Scan :=
  let signed := scanSign width s
  let start := scanPrefix signed.2.1 signed.2.2
  let digits := (start.2.take start.1).takeWhile isHexDigit
  if digits = [] then .matchingFailure
  else
    let n : ℤ := hexNumber digits
    .converted (Int.bmod (if signed.1 then -n else n) (2 ^ 32)) (start.2.drop digits.length)

def scanHex (width : ℕ) (s : List UInt8) : Scan :=
  let t := s.dropWhile isSpace
  if t = [] then .inputFailure else scanNumber width t

/-- The values a sequence of conversions assigns before one of them fails. -/
def scanFields : List ℕ → List UInt8 → List ℤ
  | [], _ => []
  | width :: widths, s =>
    match scanHex width s with
    | .converted v rest => v :: scanFields widths rest
    | _ => []

/-- `sscanf` with `%<width>x` conversions: the number of assigned values, or `EOF` when
the text ends before the first, and the values. -/
def sscanf (widths : List ℕ) (s : List UInt8) : ℤ × List ℤ :=
  let vs := scanFields widths s
  (if vs = [] ∧ s.dropWhile isSpace = [] then -1 else vs.length, vs)

/-- The texts a `%2x` conversion consumes after white space, with the value it assigns and
the text it leaves: two digits, a sign and a digit, or one digit that the following text
does not continue. -/
inductive Field : List UInt8 → ℤ → List UInt8 → Prop
  | two {a b : UInt8} {x y : ℕ} {rest : List UInt8} (ha : hexValue a = some x)
      (hb : hexValue b = some y) : Field [a, b] (x * 16 + y : ℕ) rest
  | one {a : UInt8} {x : ℕ} {rest : List UInt8} (ha : hexValue a = some x)
      (stop : ∀ c ∈ rest.head?, isHexDigit c = false ∧ ¬ (a = 48 ∧ (c = 120 ∨ c = 88))) :
      Field [a] x rest
  | plus {a : UInt8} {x : ℕ} {rest : List UInt8} (ha : hexValue a = some x) :
      Field [43, a] x rest
  | minus {a : UInt8} {x : ℕ} {rest : List UInt8} (ha : hexValue a = some x) :
      Field [45, a] (-x) rest

theorem Field.range {f rest : List UInt8} {v : ℤ} (h : Field f v rest) : -15 ≤ v ∧ v ≤ 255 := by
  cases h with
  | two ha hb =>
    have := hexValue_lt ha
    have := hexValue_lt hb
    omega
  | one ha _ => have := hexValue_lt ha; omega
  | plus ha => have := hexValue_lt ha; omega
  | minus ha => have := hexValue_lt ha; omega

theorem bmod_of_small {n : ℤ} (h0 : -15 ≤ n) (h1 : n ≤ 255) : Int.bmod n 4294967296 = n :=
  Int.bmod_eq_of_le (by norm_num; omega) (by norm_num; omega)

theorem hexDigit_not_sign {a : UInt8} {x : ℕ} (ha : hexValue a = some x) :
    a ≠ 45 ∧ a ≠ 43 ∧ a ≠ 120 ∧ a ≠ 88 := by
  refine ⟨?_, ?_, ?_, ?_⟩ <;> (rintro rfl; simp [hexValue] at ha)

theorem hexDigit_not_space {a : UInt8} {x : ℕ} (ha : hexValue a = some x) :
    isSpace a = false := by
  cases hs : isSpace a with
  | false => rfl
  | true =>
    simp only [isSpace, Bool.or_eq_true, beq_iff_eq, Bool.and_eq_true, decide_eq_true_eq,
      UInt8.le_iff_toNat_le, ← UInt8.toNat_inj] at hs
    simp only [hexValue, UInt8.le_iff_toNat_le] at ha
    simp only [UInt8.toNat_ofNat] at ha hs
    split_ifs at ha <;> omega

theorem scanSign_digit {width : ℕ} {a : UInt8} {x : ℕ} (ha : hexValue a = some x)
    (t : List UInt8) : scanSign width (a :: t) = (false, width, a :: t) := by
  obtain ⟨h1, h2, -⟩ := hexDigit_not_sign ha
  simp [scanSign, h1, h2]

theorem scanSign_plus {t : List UInt8} : scanSign 2 (43 :: t) = (false, 1, t) := rfl

theorem scanSign_minus {t : List UInt8} : scanSign 2 (45 :: t) = (true, 1, t) := rfl

theorem scanPrefix_one (t : List UInt8) : scanPrefix 1 t = (1, t) := by
  rcases t with _ | ⟨a, _ | ⟨b, t⟩⟩ <;> simp [scanPrefix]

theorem scanPrefix_none {width : ℕ} {a : UInt8} {t : List UInt8}
    (h : ∀ c ∈ t.head?, ¬ (a = 48 ∧ (c = 120 ∨ c = 88))) :
    scanPrefix width (a :: t) = (width, a :: t) := by
  cases t with
  | nil => rfl
  | cons b t => exact if_neg fun hp => h b rfl hp.2

theorem scanNumber_digits {width n m : ℕ} {s t u : List UInt8} {neg : Bool}
    (ds : List UInt8) (hs : scanSign width s = (neg, n, t)) (hp : scanPrefix n t = (m, u))
    (hd : (u.take m).takeWhile isHexDigit = ds) :
    scanNumber width s = if ds = [] then .matchingFailure
      else .converted (Int.bmod (if neg then -(hexNumber ds : ℤ) else hexNumber ds) (2 ^ 32))
        (u.drop ds.length) := by
  simp only [scanNumber, hs, hp, hd]

theorem scanNumber_field {f rest : List UInt8} {v : ℤ} (h : Field f v rest) :
    scanNumber 2 (f ++ rest) = .converted v rest := by
  have hb := bmod_of_small h.range.1 h.range.2
  cases h with
  | @two a b x y _ ha hy =>
    obtain ⟨-, -, h3, h4⟩ := hexDigit_not_sign hy
    have hp : scanPrefix 2 (a :: b :: rest) = (2, a :: b :: rest) :=
      scanPrefix_none (by simp [h3, h4])
    rw [List.cons_append, List.cons_append, List.nil_append,
      scanNumber_digits [a, b] (scanSign_digit ha _) hp]
    · simpa [hexNumber, ha, hy] using hb
    · simp [isHexDigit, ha, hy]
  | @one a x _ ha stop =>
    have hp : scanPrefix 2 (a :: rest) = (2, a :: rest) :=
      scanPrefix_none fun c hc => (stop c hc).2
    rw [List.cons_append, List.nil_append,
      scanNumber_digits [a] (scanSign_digit ha _) hp]
    · simpa [hexNumber, ha] using hb
    · cases rest with
      | nil => simp [isHexDigit, ha]
      | cons c rest =>
        have hc := (stop c rfl).1
        simp only [List.take_succ_cons, List.take_zero, List.takeWhile_cons, hc]
        simp [isHexDigit, ha]
  | @plus a x _ ha =>
    rw [List.cons_append, List.cons_append, List.nil_append,
      scanNumber_digits [a] scanSign_plus (scanPrefix_one (a :: rest))]
    · simpa [hexNumber, ha] using hb
    · simp [isHexDigit, ha]
  | @minus a x _ ha =>
    rw [List.cons_append, List.cons_append, List.nil_append,
      scanNumber_digits [a] scanSign_minus (scanPrefix_one (a :: rest))]
    · simpa [hexNumber, ha] using hb
    · simp [isHexDigit, ha]

/-- After a sign there is room for one digit only. -/
theorem scanNumber_signed {s : List UInt8} {t : List UInt8} {neg : Bool} {v : ℤ}
    {rest : List UInt8} (hs : scanSign 2 s = (neg, 1, t))
    (h : scanNumber 2 s = .converted v rest) :
    ∃ a x, t = a :: rest ∧ hexValue a = some x ∧ v = if neg then -(x : ℤ) else x := by
  rw [scanNumber_digits _ hs (scanPrefix_one t) rfl] at h
  cases t with
  | nil => simp at h
  | cons a t =>
    cases ha : hexValue a with
    | none => simp [isHexDigit, ha] at h
    | some x =>
      have hx := hexValue_lt ha
      simp [isHexDigit, ha, hexNumber] at h
      rw [bmod_of_small (by split_ifs <;> omega) (by split_ifs <;> omega)] at h
      exact ⟨a, x, by rw [h.2], ha, h.1.symm⟩

theorem field_of_scanNumber {t rest : List UInt8} {v : ℤ}
    (h : scanNumber 2 t = .converted v rest) : ∃ f, t = f ++ rest ∧ Field f v rest := by
  cases t with
  | nil => simp [scanNumber, scanSign, scanPrefix] at h
  | cons b t =>
    by_cases hm : b = 45
    · subst hm
      obtain ⟨a, x, rfl, ha, rfl⟩ := scanNumber_signed scanSign_minus h
      exact ⟨[45, a], rfl, .minus ha⟩
    by_cases hp : b = 43
    · subst hp
      obtain ⟨a, x, rfl, ha, rfl⟩ := scanNumber_signed scanSign_plus h
      exact ⟨[43, a], rfl, .plus ha⟩
    have hs : scanSign 2 (b :: t) = (false, 2, b :: t) := by simp [scanSign, hm, hp]
    by_cases hx : ∃ c ∈ t.head?, b = 48 ∧ (c = 120 ∨ c = 88)
    · obtain ⟨c, hc, h0⟩ := hx
      obtain ⟨t, rfl⟩ := List.head?_eq_some_iff.mp hc
      have hq : scanPrefix 2 (b :: c :: t) = (0, t) := by simp [scanPrefix, h0]
      rw [scanNumber_digits _ hs hq rfl] at h
      simp at h
    · have hx' : ∀ c ∈ t.head?, ¬ (b = 48 ∧ (c = 120 ∨ c = 88)) := fun c hc h0 => hx ⟨c, hc, h0⟩
      rw [scanNumber_digits _ hs (scanPrefix_none hx') rfl] at h
      cases hb : hexValue b with
      | none => simp [isHexDigit, hb] at h
      | some x =>
        have hlt := hexValue_lt hb
        rcases t with _ | ⟨c, t⟩
        · simp [isHexDigit, hb, hexNumber] at h
          rw [bmod_of_small (by omega) (by omega)] at h
          obtain ⟨rfl, rfl⟩ := h
          exact ⟨[b], rfl, .one hb (by simp)⟩
        · cases hc : hexValue c with
          | none =>
            simp [isHexDigit, hb, hc, hexNumber] at h
            rw [bmod_of_small (by omega) (by omega)] at h
            obtain ⟨rfl, rfl⟩ := h
            refine ⟨[b], rfl, .one hb fun d hd => ⟨?_, hx' d hd⟩⟩
            obtain rfl : c = d := by simpa using hd
            simp [isHexDigit, hc]
          | some y =>
            have hlt' := hexValue_lt hc
            simp [isHexDigit, hb, hc, hexNumber] at h
            rw [bmod_of_small (by omega) (by omega)] at h
            obtain ⟨rfl, rfl⟩ := h
            exact ⟨[b, c], rfl, .two hb hc⟩

theorem Field.head_not_space {f rest : List UInt8} {v : ℤ} (h : Field f v rest) :
    ∃ b t, f = b :: t ∧ isSpace b = false := by
  cases h with
  | two ha _ => exact ⟨_, _, rfl, hexDigit_not_space ha⟩
  | one ha _ => exact ⟨_, _, rfl, hexDigit_not_space ha⟩
  | plus _ => exact ⟨_, _, rfl, by decide⟩
  | minus _ => exact ⟨_, _, rfl, by decide⟩

theorem scanHex_two_iff {s rest : List UInt8} {v : ℤ} :
    scanHex 2 s = .converted v rest ↔
      ∃ ws f, s = ws ++ (f ++ rest) ∧ (∀ b ∈ ws, isSpace b = true) ∧ Field f v rest := by
  constructor
  · intro h
    simp only [scanHex] at h
    split_ifs at h
    obtain ⟨f, hf, hv⟩ := field_of_scanNumber h
    refine ⟨s.takeWhile isSpace, f, ?_, fun b hb => List.mem_takeWhile_imp hb, hv⟩
    rw [← hf, List.takeWhile_append_dropWhile]
  · rintro ⟨ws, f, rfl, hws, hv⟩
    obtain ⟨b, t, rfl, hb⟩ := hv.head_not_space
    have hd : (ws ++ ((b :: t) ++ rest)).dropWhile isSpace = (b :: t) ++ rest := by
      rw [List.dropWhile_append_of_pos hws, List.cons_append, List.dropWhile_cons_of_neg (by simp [hb])]
    have hn : (b :: t) ++ rest ≠ [] := by simp
    simp only [scanHex, hd, if_neg hn]
    exact scanNumber_field hv

/-- A text that starts with these fields, each after any white space. What follows the
last field is not looked at. -/
inductive Fields : List UInt8 → List ℤ → Prop
  | nil (s : List UInt8) : Fields s []
  | cons {ws f rest : List UInt8} {v : ℤ} {vs : List ℤ} (space : ∀ b ∈ ws, isSpace b = true)
      (field : Field f v rest) (more : Fields rest vs) : Fields (ws ++ (f ++ rest)) (v :: vs)

theorem fields_iff {n : ℕ} {s : List UInt8} {vs : List ℤ} (hn : vs.length = n) :
    Fields s vs ↔ scanFields (List.replicate n 2) s = vs := by
  induction vs generalizing n s with
  | nil =>
    subst hn
    exact ⟨fun _ => rfl, fun _ => .nil s⟩
  | cons v vs ih =>
    subst hn
    rw [List.length_cons, List.replicate_succ]
    constructor
    · rintro (_ | ⟨space, field, more⟩)
      have hs := scanHex_two_iff.mpr ⟨_, _, rfl, space, field⟩
      simp only [scanFields, hs, (ih rfl).mp more]
    · intro h
      simp only [scanFields] at h
      split at h
      · rename_i w rest hw
        obtain ⟨rfl, hv⟩ := List.cons.inj h
        obtain ⟨ws, f, rfl, space, field⟩ := scanHex_two_iff.mp hw
        exact .cons space field ((ih rfl).mpr hv)
      · simp at h

/-- `sscanf` reports all of its conversions exactly when the text starts with that many
fields, and it then assigns their values. -/
theorem sscanf_all_iff {n : ℕ} {s : List UInt8} {vs : List ℤ} (hn : vs.length = n)
    (hpos : 0 < n) : sscanf (List.replicate n 2) s = ((n : ℤ), vs) ↔ Fields s vs := by
  rw [fields_iff hn]
  constructor
  · intro h
    exact (Prod.mk.inj h).2
  · intro h
    have hne : vs ≠ [] := by rintro rfl; simp at hn; omega
    simp [sscanf, h, hn, hne]

/-- All of the conversions succeed on the fields of the text, or the text has too few and
the count tells. -/
theorem sscanf_cases {n : ℕ} (hpos : 0 < n) (s : List UInt8) :
    (∃ vs, vs.length = n ∧ Fields s vs ∧ sscanf (List.replicate n 2) s = ((n : ℤ), vs)) ∨
    ((sscanf (List.replicate n 2) s).1 ≠ n ∧ ¬ ∃ vs, vs.length = n ∧ Fields s vs) := by
  by_cases h : (scanFields (List.replicate n 2) s).length = n
  · have hf : Fields s (scanFields (List.replicate n 2) s) := (fields_iff h).mpr rfl
    exact .inl ⟨_, h, hf, (sscanf_all_iff h hpos).mpr hf⟩
  · refine .inr ⟨?_, fun ⟨vs, hn, hf⟩ => h ?_⟩
    · simp only [sscanf]
      split_ifs <;> omega
    · rw [(fields_iff hn).mp hf, hn]

theorem Fields.range {s : List UInt8} {vs : List ℤ} (h : Fields s vs) :
    ∀ v ∈ vs, -15 ≤ v ∧ v ≤ 255 := by
  induction h with
  | nil => simp
  | cons _ field _ ih =>
    intro v hv
    rcases List.mem_cons.mp hv with rfl | hv
    · exact field.range
    · exact ih v hv

theorem hexNumber_concat (ds : List UInt8) (b : UInt8) :
    hexNumber (ds ++ [b]) = hexNumber ds * 16 + (hexValue b).getD 0 := by
  simp [hexNumber]

theorem hexNumber_append (ds es : List UInt8) :
    hexNumber (ds ++ es) = hexNumber ds * 16 ^ es.length + hexNumber es := by
  induction es using List.reverseRecOn with
  | nil => simp [hexNumber]
  | append_singleton es b ih =>
    rw [← List.append_assoc, hexNumber_concat, ih, hexNumber_concat, List.length_append,
      List.length_singleton, pow_succ]
    ring

theorem hexNumber_lt (ds : List UInt8) : hexNumber ds < 16 ^ ds.length := by
  induction ds using List.reverseRecOn with
  | nil => simp [hexNumber]
  | append_singleton ds b ih =>
    have hb : (hexValue b).getD 0 < 16 := by
      cases hv : hexValue b with
      | none => decide
      | some v => exact hexValue_lt hv
    rw [hexNumber_concat, List.length_append, List.length_singleton, pow_succ]
    omega

theorem hexNumber_pair {a b : UInt8} {x y : ℕ} (ha : hexValue a = some x)
    (hb : hexValue b = some y) : hexNumber [a, b] = x * 16 + y := by
  simp [hexNumber, ha, hb]

/-- Digits that fill the width of a conversion, and fit in an `int`. -/
structure Filling (width : ℕ) (ds : List UInt8) : Prop where
  length : ds.length = width
  pos : 0 < width
  small : width ≤ 7
  hex : ∀ b ∈ ds, isHexDigit b = true

theorem scanNumber_filling {width : ℕ} {ds : List UInt8} (h : Filling width ds)
    (rest : List UInt8) : scanNumber width (ds ++ rest) = .converted (hexNumber ds) rest := by
  obtain ⟨rfl, hpos, hsmall, hex⟩ := h
  obtain ⟨a, t, rfl⟩ := List.exists_cons_of_length_pos hpos
  obtain ⟨x, ha⟩ := isHexDigit_iff.mp (hex a (by simp))
  have hp : scanPrefix (a :: t).length (a :: (t ++ rest)) = ((a :: t).length, a :: (t ++ rest)) := by
    cases t with
    | nil => exact scanPrefix_one _
    | cons b t =>
      obtain ⟨y, hb⟩ := isHexDigit_iff.mp (hex b (by simp))
      obtain ⟨-, -, h3, h4⟩ := hexDigit_not_sign hb
      exact scanPrefix_none (by simp [h3, h4])
  have hd : ((a :: (t ++ rest)).take (a :: t).length).takeWhile isHexDigit = a :: t := by
    rw [← List.cons_append, List.take_left, List.takeWhile_eq_self_iff]
    exact hex
  have hlt : hexNumber (a :: t) < 16 ^ 7 :=
    lt_of_lt_of_le (hexNumber_lt _) (Nat.pow_le_pow_right (by decide) hsmall)
  have hb : Int.bmod (hexNumber (a :: t)) (2 ^ 32) = hexNumber (a :: t) :=
    Int.bmod_eq_of_le (by omega) (by norm_num at hlt ⊢; omega)
  rw [List.cons_append, scanNumber_digits (a :: t) (scanSign_digit ha _) hp hd,
    if_neg (List.cons_ne_nil a t), if_neg (by decide), hb, ← List.cons_append, List.drop_left]

theorem scanHex_filling {width : ℕ} {ds : List UInt8} (h : Filling width ds)
    (rest : List UInt8) : scanHex width (ds ++ rest) = .converted (hexNumber ds) rest := by
  obtain ⟨a, t, rfl⟩ := List.exists_cons_of_length_pos (h.length ▸ h.pos)
  obtain ⟨x, ha⟩ := isHexDigit_iff.mp (h.hex a (by simp))
  have hd : ((a :: t) ++ rest).dropWhile isSpace = (a :: t) ++ rest :=
    List.dropWhile_cons_of_neg (by simp [hexDigit_not_space ha])
  simp only [scanHex, hd, if_neg (show (a :: t) ++ rest ≠ [] by simp)]
  exact scanNumber_filling h rest

/-- Groups of digits that fill their conversions are all converted, to the numbers they
denote. -/
theorem scanFields_filling {widths : List ℕ} {groups : List (List UInt8)}
    (h : List.Forall₂ Filling widths groups) :
    scanFields widths groups.flatten = groups.map fun ds => (hexNumber ds : ℤ) := by
  induction h with
  | nil => rfl
  | cons head _ ih =>
    rw [List.flatten_cons, scanFields, scanHex_filling head]
    simp only [ih, List.map_cons]

theorem sscanf_filling {widths : List ℕ} {groups : List (List UInt8)} (hne : groups ≠ [])
    (h : List.Forall₂ Filling widths groups) :
    sscanf widths groups.flatten = ((groups.length : ℤ), groups.map fun ds => (hexNumber ds : ℤ)) := by
  unfold sscanf
  rw [scanFields_filling h]
  simp [hne]

/-- `tolower` on ASCII. -/
def toLower (b : UInt8) : UInt8 := if 65 ≤ b ∧ b ≤ 90 then b + 32 else b

theorem digitChar_hexValue {b : UInt8} {v : ℕ} (h : hexValue b = some v) :
    digitChar v = toLower b := by
  apply UInt8.toNat_inj.mp
  simp only [hexValue, UInt8.le_iff_toNat_le] at h
  simp only [digitChar, toLower, UInt8.le_iff_toNat_le]
  simp only [UInt8.toNat_ofNat] at h ⊢
  split_ifs at h <;> simp only [Option.some.injEq] at h <;> subst h
  · rw [if_pos (by omega), if_neg (by omega), UInt8.toNat_ofNat']
    omega
  · rw [if_neg (by omega), if_neg (by omega), UInt8.toNat_ofNat']
    omega
  · rw [if_neg (by omega), if_pos (by omega), UInt8.toNat_ofNat', UInt8.toNat_add]
    simp only [UInt8.toNat_ofNat]
    omega

/-- A number that was scanned from two digits prints as the two in lower case. -/
theorem hexDigits_hexNumber {a b : UInt8} (ha : isHexDigit a = true) (hb : isHexDigit b = true) :
    hexDigits 2 (hexNumber [a, b]) = [toLower a, toLower b] := by
  obtain ⟨x, hx⟩ := isHexDigit_iff.mp ha
  obtain ⟨y, hy⟩ := isHexDigit_iff.mp hb
  have hx16 := hexValue_lt hx
  have hy16 := hexValue_lt hy
  rw [hexNumber_pair hx hy, hexDigits_byte (by omega) (by omega), Int.toNat_natCast,
    show (x * 16 + y) / 16 = x by omega, show (x * 16 + y) % 16 = y by omega,
    digitChar_hexValue hx, digitChar_hexValue hy]

end Moodpd.HexText
