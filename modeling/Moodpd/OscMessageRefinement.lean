import Moodpd.OscGrammar

/-!
# The message reader accepts the grammar

On data whose size is a multiple of 4, `buildFromRawData` makes no access outside the
data, and it leaves the message without an error exactly for the messages of the grammar.
-/
namespace Moodpd.Oscpkt
open Memory

theorem le_ceil4 (p : ℕ) : p ≤ ceil4 p := by unfold ceil4; omega

theorem ceil4_le {p n : ℕ} (h : p ≤ n) (hn : n % 4 = 0) : ceil4 p ≤ n := by
  unfold ceil4
  omega

theorem ceil4_of_mod {p : ℕ} (h : p % 4 = 0) : ceil4 p = p := by
  unfold ceil4
  omega

theorem ceil4_add {a : ℕ} (h : a % 4 = 0) (b : ℕ) : ceil4 (a + b) = a + ceil4 b := by
  unfold ceil4
  omega

theorem ceil4_mod (p : ℕ) : ceil4 p % 4 = 0 := by unfold ceil4; omega

@[simp] theorem padded_length (s : List UInt8) : (padded s).length = ceil4 (s.length + 1) := by
  have h := le_ceil4 (s.length + 1)
  simp only [padded, List.length_append, List.length_cons, List.length_replicate]
  omega

@[simp] theorem blob_length (payload : List UInt8) :
    (blob payload).length = 4 + ceil4 payload.length := by
  have h := le_ceil4 payload.length
  simp only [blob, List.length_append, toBigEndian_length, List.length_replicate]
  omega

theorem zerosFrom_append (pre x post : List UInt8) :
    zerosFrom (pre ++ (x ++ post)) pre.length x.length = .ok (x.all (· = 0)) := by
  induction x generalizing pre with
  | nil => rfl
  | cons b x ih =>
    have hi := ih (pre ++ [b])
    simp only [List.append_assoc, List.singleton_append, List.length_append,
      List.length_singleton] at hi
    simp only [List.cons_append, List.length_cons, zerosFrom, read_append, ok_bind]
    by_cases hb : b = 0
    · simp [hb] at hi ⊢
      exact hi
    · simp [hb]

theorem isZeroPaddingCorrect_append {pre x post : List UInt8} {p : ℕ} (hp : pre.length = p)
    (hx : ceil4 p - p = x.length) :
    isZeroPaddingCorrect (pre ++ (x ++ post)) p = .ok (x.all (· = 0)) := by
  subst hp
  rw [isZeroPaddingCorrect, hx, zerosFrom_append]

theorem isZeroPaddingCorrect_aligned {p : ℕ} (h : p % 4 = 0) (m : List UInt8) :
    isZeroPaddingCorrect m p = .ok true := by
  simp [isZeroPaddingCorrect, ceil4_of_mod h, zerosFrom]

theorem eq_replicate_of_all {x : List UInt8} (h : x.all (· = 0) = true) :
    x = List.replicate x.length 0 := by
  apply List.eq_replicate_of_mem
  simpa using h

theorem memchrToEnd_padded (pre s post : List UInt8) (hs : 0 ∉ s) :
    memchrToEnd (pre ++ (padded s ++ post)) 0 pre.length = .ok (some (pre.length + s.length)) := by
  have hl : (pre ++ (padded s ++ post)).length - pre.length = (padded s ++ post).length := by simp
  rw [memchrToEnd, if_pos (by simp), hl, padded, List.append_assoc, List.cons_append]
  exact memchr_found pre s _ rfl hs (by simp)

theorem isZeroPaddingCorrect_padded (pre s post : List UInt8) (h : pre.length % 4 = 0) :
    isZeroPaddingCorrect (pre ++ (padded s ++ post)) (pre.length + s.length + 1) = .ok true := by
  have he : pre ++ (padded s ++ post) = (pre ++ (s ++ [0])) ++
      (List.replicate (ceil4 (s.length + 1) - (s.length + 1)) 0 ++ post) := by
    simp [padded]
  have hp : ceil4 (pre.length + s.length + 1) - (pre.length + s.length + 1) =
      (List.replicate (ceil4 (s.length + 1) - (s.length + 1)) (0 : UInt8)).length := by
    rw [Nat.add_assoc, ceil4_add h, List.length_replicate]
    omega
  rw [he, isZeroPaddingCorrect_append (by simp [Nat.add_assoc]) hp]
  simp

/-- A string at an aligned offset is unterminated, wrongly padded or padded. -/
theorem string_cases (pre bs : List UInt8) (hp : pre.length % 4 = 0) (hb : bs.length % 4 = 0) :
    (0 ∉ bs ∧ memchrToEnd (pre ++ bs) 0 pre.length = .ok none) ∨
    ∃ s t, bs = s ++ 0 :: t ∧ 0 ∉ s ∧
      memchrToEnd (pre ++ bs) 0 pre.length = .ok (some (pre.length + s.length)) ∧
      (isZeroPaddingCorrect (pre ++ bs) (pre.length + s.length + 1) = .ok false ∨
        ∃ post, bs = padded s ++ post) := by
  by_cases h0 : (0 : UInt8) ∈ bs
  · obtain ⟨s, t, rfl, hs⟩ := List.eq_append_cons_of_mem h0
    refine .inr ⟨s, t, rfl, hs, ?_, ?_⟩
    · rw [memchrToEnd, if_pos (by simp)]
      exact memchr_found pre s t rfl hs (by simp)
    · let n := ceil4 (s.length + 1) - (s.length + 1)
      have hn : n ≤ t.length := by
        have := ceil4_le (p := s.length + 1) (n := (s ++ 0 :: t).length) (by simp) hb
        simp only [List.length_append, List.length_cons] at this
        omega
      have he : pre ++ (s ++ 0 :: t) = (pre ++ (s ++ [0])) ++ (t.take n ++ t.drop n) := by simp
      have hz : isZeroPaddingCorrect (pre ++ (s ++ 0 :: t)) (pre.length + s.length + 1) =
          .ok ((t.take n).all (· = 0)) := by
        rw [he]
        apply isZeroPaddingCorrect_append (by simp [Nat.add_assoc])
        rw [Nat.add_assoc, ceil4_add hp, List.length_take]
        omega
      rw [hz]
      cases ha : (t.take n).all (· = 0) with
      | false => exact .inl rfl
      | true =>
        have hr := eq_replicate_of_all ha
        rw [List.length_take, Nat.min_eq_left hn] at hr
        refine .inr ⟨t.drop n, ?_⟩
        rw [padded, List.append_assoc, List.cons_append, ← hr, List.take_append_drop]
  · refine .inl ⟨h0, ?_⟩
    have hl : (pre ++ bs).length - pre.length = bs.length := by simp
    rw [memchrToEnd, if_pos (by simp), hl]
    simpa using memchr_absent pre bs [] rfl h0

theorem fixedSize_cases {tag : UInt8} {n : ℕ} (h : fixedSize tag = some n) :
    ((tag = typeTagTrue ∨ tag = typeTagFalse) ∧ n = 0) ∨
    ((tag = typeTagInt32 ∨ tag = typeTagFloat) ∧ n = 4) ∨
    ((tag = typeTagInt64 ∨ tag = typeTagDouble) ∧ n = 8) := by
  simp only [fixedSize] at h
  split_ifs at h with h₁ h₂ h₃ <;> simp only [Option.some.injEq] at h
  · exact .inl ⟨h₁, h.symm⟩
  · exact .inr (.inl ⟨h₂, h.symm⟩)
  · exact .inr (.inr ⟨h₃, h.symm⟩)

theorem fixedSize_mod {tag : UInt8} {n : ℕ} (h : fixedSize tag = some n) : n % 4 = 0 := by
  rcases fixedSize_cases h with ⟨-, rfl⟩ | ⟨-, rfl⟩ | ⟨-, rfl⟩ <;> rfl

theorem switchArgSize_fixed {msg : Message} {tag : UInt8} {n : ℕ} (h : fixedSize tag = some n)
    (p : ℕ) : msg.switchArgSize tag p = .ok (msg, some n) := by
  unfold Message.switchArgSize
  rcases fixedSize_cases h with ⟨rfl | rfl, rfl⟩ | ⟨rfl | rfl, rfl⟩ | ⟨rfl | rfl, rfl⟩ <;> rfl

/-- The `switch` on a string finds its terminator. -/
theorem switchArgSize_string {msg : Message} {p n : ℕ}
    (hm : memchrToEnd msg.storage 0 p = .ok (some (p + n))) :
    msg.switchArgSize typeTagString p = .ok (msg, some (n + 1)) := by
  unfold Message.switchArgSize
  rw [if_neg (by decide), if_neg (by decide), if_neg (by decide), if_pos rfl, hm]
  simp

/-- The `switch` on a blob reads its size and adds 4 to it modulo 2^32. -/
theorem switchArgSize_blob {msg : Message} {pre size bs : List UInt8}
    (hs : msg.storage = pre ++ (size ++ bs)) (hsize : size.length = 4) :
    msg.switchArgSize typeTagBlob pre.length =
      .ok (msg, some ((4 + bigEndian size) % 2 ^ 32)) := by
  have hne : pre.length ≠ msg.storage.length := by simp [hs, hsize]
  have hr := readBigEndian_append (rfl : pre.length = pre.length) hsize bs
  unfold Message.switchArgSize
  rw [if_neg (by decide), if_neg (by decide), if_neg (by decide), if_neg (by decide), if_pos rfl,
    if_neg hne, hs, hr]
  rfl

/-- The checks of `getArgSize` after its `switch`, on a size that fits. -/
theorem getArgSize_of_switch {msg : Message} {tag : UInt8} {p sz : ℕ} {ok : Bool}
    (herr : msg.err = .okNoError) (hs : msg.switchArgSize tag p = .ok (msg, some sz))
    (hle : p + sz ≤ msg.storage.length)
    (hz : isZeroPaddingCorrect msg.storage (p + sz) = .ok ok) :
    msg.getArgSize tag p =
      .ok (if ok then (msg, sz) else (msg.setErr .malformedArguments, 0)) := by
  have hp : p ≤ msg.storage.length := by omega
  unfold Message.getArgSize
  rw [if_neg (by simp [herr])]
  simp only [assert_of hp, ok_bind, hs, if_neg (show ¬ p + sz > msg.storage.length by omega), hz]
  cases ok <;> rfl

theorem getArgSize_past_end {msg : Message} {tag : UInt8} {p sz : ℕ}
    (herr : msg.err = .okNoError) (hp : p ≤ msg.storage.length)
    (hs : msg.switchArgSize tag p = .ok (msg, some sz)) (hgt : p + sz > msg.storage.length) :
    msg.getArgSize tag p = .ok (msg.setErr .malformedArguments, 0) := by
  unfold Message.getArgSize
  rw [if_neg (by simp [herr])]
  simp only [assert_of hp, ok_bind, hs, if_pos hgt]

section Reading
variable {msg : Message} {pre : List UInt8} (hpre : pre.length % 4 = 0)
  (herr : msg.err = .okNoError)
include hpre herr

theorem getArgSize_fixed {tag : UInt8} {v bs : List UInt8} (hs : msg.storage = pre ++ (v ++ bs))
    (h : fixedSize tag = some v.length) : msg.getArgSize tag pre.length = .ok (msg, v.length) := by
  have hm := fixedSize_mod h
  have hle : pre.length + v.length ≤ msg.storage.length := by simp [hs]
  exact getArgSize_of_switch herr (switchArgSize_fixed h _) hle
    (isZeroPaddingCorrect_aligned (by omega) _)

theorem getArgSize_string {s bs : List UInt8} (hs : msg.storage = pre ++ (padded s ++ bs))
    (h : 0 ∉ s) : msg.getArgSize typeTagString pre.length = .ok (msg, s.length + 1) := by
  have hm := memchrToEnd_padded pre s bs h
  rw [← hs] at hm
  have hle : pre.length + (s.length + 1) ≤ msg.storage.length := by
    have := le_ceil4 (s.length + 1)
    simp only [hs, List.length_append, padded_length]
    omega
  have hz : isZeroPaddingCorrect msg.storage (pre.length + (s.length + 1)) = .ok true := by
    rw [hs, ← Nat.add_assoc]
    exact isZeroPaddingCorrect_padded pre s bs hpre
  exact getArgSize_of_switch herr (switchArgSize_string hm) hle hz

theorem getArgSize_blob {payload bs : List UInt8} (hs : msg.storage = pre ++ (blob payload ++ bs))
    (h : payload.length + 4 < 2 ^ 32) :
    msg.getArgSize typeTagBlob pre.length = .ok (msg, 4 + payload.length) := by
  have hn : bigEndian (toBigEndian 4 payload.length) = payload.length :=
    bigEndian_toBigEndian (by omega)
  have hsize : msg.storage = pre ++ (toBigEndian 4 payload.length ++ (payload ++
      (List.replicate (ceil4 payload.length - payload.length) 0 ++ bs))) := by
    rw [hs]
    simp [blob]
  have hsw := switchArgSize_blob hsize (toBigEndian_length 4 payload.length)
  rw [hn, Nat.mod_eq_of_lt (by omega)] at hsw
  have hle : pre.length + (4 + payload.length) ≤ msg.storage.length := by
    have := le_ceil4 payload.length
    simp only [hs, List.length_append, blob_length]
    omega
  have he : msg.storage = (pre ++ (toBigEndian 4 payload.length ++ payload)) ++
      (List.replicate (ceil4 payload.length - payload.length) 0 ++ bs) := by
    rw [hs]
    simp [blob]
  have hz : isZeroPaddingCorrect msg.storage (pre.length + (4 + payload.length)) = .ok true := by
    rw [he, isZeroPaddingCorrect_append (by simp)]
    · simp
    · rw [ceil4_add hpre, ceil4_add (by rfl), List.length_replicate]
      omega
  exact getArgSize_of_switch herr hsw hle hz

theorem getArgSize_wrapping {bs : List UInt8} (hs : msg.storage = pre ++ (wrappingSize ++ bs)) :
    msg.getArgSize typeTagBlob pre.length = .ok (msg, 0) := by
  have hle : pre.length + 0 ≤ msg.storage.length := by simp [hs]
  exact getArgSize_of_switch herr (switchArgSize_blob hs rfl) hle
    (isZeroPaddingCorrect_aligned hpre _)

end Reading

/-- An argument that was read moves the loop past its bytes. -/
theorem readArgs_step {msg : Message} {tag : UInt8} {tags pre v bs : List UInt8} {len : ℕ}
    (herr : msg.err = .okNoError) (hs : msg.storage = pre ++ (v ++ bs))
    (hget : msg.getArgSize tag pre.length = .ok (msg, len)) (hlen : ceil4 len = v.length) :
    Message.readArgs (tag :: tags) msg pre.length =
      Message.readArgs tags (msg.pushArgument pre.length len) (pre ++ v).length := by
  have hok : msg.isOk = true := by simp [Message.isOk, herr]
  have hle : pre.length ≤ msg.storage.length := by simp [hs]
  rw [Message.readArgs, if_pos hok]
  simp only [assert_of hle, ok_bind, hget, if_pos hok, hlen, List.length_append]

/-- Where the arguments of some type tags stand between an offset and the end of a message. -/
inductive Positions (last : ℕ) : ℕ → List UInt8 → List (ℕ × ℕ) → Prop
  | nil : Positions last last [] []
  | cons {p len : ℕ} {tag : UInt8} {tags : List UInt8} {args : List (ℕ × ℕ)}
      (size : tag = typeTagInt32 → len = 4) (more : Positions last (p + ceil4 len) tags args) :
      Positions last p (tag :: tags) ((p, len) :: args)

theorem Positions.le {last p : ℕ} {tags : List UInt8} {args : List (ℕ × ℕ)}
    (h : Positions last p tags args) : p ≤ last := by
  induction h with
  | nil => exact le_rfl
  | cons _ _ ih => omega

theorem Positions.length_eq {last p : ℕ} {tags : List UInt8} {args : List (ℕ × ℕ)}
    (h : Positions last p tags args) : args.length = tags.length := by
  induction h with
  | nil => rfl
  | cons _ _ ih => simp [ih]

/-- The argument loop reads the arguments of all the type tags and stops at the end. -/
def ReadsAll (tags : List UInt8) (msg : Message) (p : ℕ) : Prop :=
  ∃ args, Message.readArgs tags msg p =
      .ok ({ msg with arguments := msg.arguments ++ args }, msg.storage.length, []) ∧
    Positions msg.storage.length p tags args

theorem ReadsAll.cons {msg : Message} {tag : UInt8} {tags pre v bs : List UInt8} {len : ℕ}
    (herr : msg.err = .okNoError) (hs : msg.storage = pre ++ (v ++ bs))
    (hget : msg.getArgSize tag pre.length = .ok (msg, len)) (hlen : ceil4 len = v.length)
    (hsize : tag = typeTagInt32 → len = 4)
    (h : ReadsAll tags (msg.pushArgument pre.length len) (pre ++ v).length) :
    ReadsAll (tag :: tags) msg pre.length := by
  obtain ⟨args, hr, hp⟩ := h
  refine ⟨(pre.length, len) :: args, ?_, .cons hsize ?_⟩
  · rw [readArgs_step herr hs hget hlen, hr]
    simp [Message.pushArgument]
  · simpa [hlen] using hp

/-- The argument loop reads all the arguments of the grammar. -/
theorem readArgs_of_args {w : Bool} {tags bs : List UInt8} (h : Args w tags bs) (msg : Message)
    (pre : List UInt8) (hpre : pre.length % 4 = 0) (herr : msg.err = .okNoError)
    (hs : msg.storage = pre ++ bs) : ReadsAll tags msg pre.length := by
  induction h generalizing msg pre with
  | nil =>
    have hl : pre.length = msg.storage.length := by simp [hs]
    exact ⟨[], by simp [Message.readArgs, hl], hl ▸ .nil⟩
  | @fixed w tag tags v bs size more ih =>
    have hm : v.length % 4 = 0 := fixedSize_mod size
    have hsize : tag = typeTagInt32 → v.length = 4 := by
      rintro rfl
      simpa [fixedSize, typeTagInt32, typeTagTrue, typeTagFalse, eq_comm] using size
    apply ReadsAll.cons herr hs (getArgSize_fixed hpre herr hs size) (ceil4_of_mod hm) hsize
    have hal : (pre ++ v).length % 4 = 0 := by
      rw [List.length_append]
      omega
    exact ih _ (pre ++ v) hal herr (by simp [hs])
  | @string w tags s bs nul more ih =>
    apply ReadsAll.cons herr hs (getArgSize_string hpre herr hs nul) (padded_length s).symm
      (fun h => absurd h (by decide))
    have hal : (pre ++ padded s).length % 4 = 0 := by
      have := ceil4_mod (s.length + 1)
      rw [List.length_append, padded_length]
      omega
    exact ih _ (pre ++ padded s) hal herr (by simp [hs])
  | @blob w tags payload bs size more ih =>
    have hc : ceil4 (4 + payload.length) = (blob payload).length := by
      rw [blob_length, ceil4_add (by rfl)]
    apply ReadsAll.cons herr hs (getArgSize_blob hpre herr hs size) hc
      (fun h => absurd h (by decide))
    have hal : (pre ++ blob payload).length % 4 = 0 := by
      have := ceil4_mod payload.length
      rw [List.length_append, blob_length]
      omega
    exact ih _ (pre ++ blob payload) hal herr (by simp [hs])
  | @wrapping w tags bs more ih =>
    have hs' : msg.storage = pre ++ ([] ++ (wrappingSize ++ bs)) := by simp [hs]
    apply ReadsAll.cons herr hs' (getArgSize_wrapping hpre herr hs) rfl
      (fun h => absurd h (by decide))
    rw [List.append_nil]
    exact ih _ pre hpre herr hs

theorem payload_aligned {w : Bool} {tags bs : List UInt8} (h : Args w tags bs) :
    bs.length % 4 = 0 := by
  induction h with
  | nil => rfl
  | fixed size _ ih =>
    have := fixedSize_mod size
    rw [List.length_append]
    omega
  | @string _ _ s _ _ _ ih =>
    have := ceil4_mod (s.length + 1)
    rw [List.length_append, padded_length]
    omega
  | @blob _ _ payload _ _ _ ih =>
    have := ceil4_mod payload.length
    rw [List.length_append, blob_length]
    omega
  | wrapping _ ih => exact ih

/-- A padded address is read, and the reader goes on behind it. -/
theorem buildFromRawData_padded {d address rest : List UInt8} (hd : d = padded address ++ rest)
    (hslash : address.head? = some 47) (h0 : 0 ∉ address) :
    Message.buildFromRawData d = Message.readTypeTags
      { Message.clear with storage := d, address := address } (padded address).length := by
  have hm := memchrToEnd_padded [] address rest h0
  have hz := isZeroPaddingCorrect_padded [] address rest rfl
  have hfirst : Memory.read d 0 = .ok 47 := by
    obtain ⟨t, ht⟩ := List.head?_eq_some_iff.mp hslash
    simp [hd, padded, ht, Memory.read]
  have hrange : readRange d 0 address.length = .ok address := by
    simp [hd, padded, readRange]
  rw [List.nil_append, ← hd] at hm hz
  simp only [List.length_nil, Nat.zero_add] at hm hz
  unfold Message.buildFromRawData
  simp [hm, hz, hfirst, hrange, Message.clear]

/-- Padded type tags are read, and the argument loop starts behind them. -/
theorem readTypeTags_padded {msg : Message} {pre tags bs : List UInt8}
    (hpre : pre.length % 4 = 0) (hs : msg.storage = pre ++ (padded (44 :: tags) ++ bs))
    (h0 : 0 ∉ tags) : msg.readTypeTags pre.length = (do
      let (msg, arg, left) ← Message.readArgs tags { msg with typeTags := tags }
        (pre ++ padded (44 :: tags)).length
      if left ≠ [] ∨ arg ≠ msg.storage.length then .ok (msg.setErr .malformedArguments)
      else .ok msg) := by
  have hm := memchrToEnd_padded pre (44 :: tags) bs (by simp [h0])
  have hz := isZeroPaddingCorrect_padded pre (44 :: tags) bs hpre
  have hcomma : Memory.read msg.storage pre.length = .ok 44 := by
    rw [hs, padded, List.cons_append, List.cons_append]
    exact read_append rfl _ _
  have htags : readRange msg.storage (pre.length + 1) tags.length = .ok tags := by
    have he : msg.storage = (pre ++ [44]) ++ (tags ++ (0 :: List.replicate
        (ceil4 ((44 :: tags).length + 1) - ((44 :: tags).length + 1)) 0 ++ bs)) := by
      rw [hs]
      simp [padded]
    rw [he]
    exact readRange_append (by simp) rfl _
  have hlen : ceil4 (pre.length + (44 :: tags).length + 1) =
      (pre ++ padded (44 :: tags)).length := by
    rw [Nat.add_assoc, ceil4_add hpre, List.length_append, padded_length]
  have hle : (pre ++ padded (44 :: tags)).length ≤ msg.storage.length := by simp [hs]
  have hsub : pre.length + (44 :: tags).length - (pre.length + 1) = tags.length := by
    rw [List.length_cons]
    omega
  rw [← hs] at hm hz
  unfold Message.readTypeTags
  simp only [hm, ok_bind, hz, hcomma, hsub, htags, hlen, assert_of hle, Bool.not_true,
    Bool.false_eq_true, if_false, ne_eq, not_true_eq_false]

/-- A message of the grammar is read without an error. -/
theorem buildFromRawData_of_message {w : Bool} {d : List UInt8} {c : Content}
    (h : IsMessage w d c) :
    ∃ args p, Message.buildFromRawData d = .ok ⟨1, c.address, c.typeTags, args, d, .okNoError⟩ ∧
      d.drop p = c.payload ∧ Positions d.length p c.typeTags args := by
  have hd := h.bytes
  have hal : (padded c.address).length % 4 = 0 := by
    rw [padded_length]
    exact ceil4_mod _
  have hpre : (padded c.address ++ padded (44 :: c.typeTags)).length % 4 = 0 := by
    have := ceil4_mod ((44 :: c.typeTags).length + 1)
    rw [List.length_append, padded_length (44 :: c.typeTags)]
    omega
  obtain ⟨args, hr, hp⟩ := readArgs_of_args h.args ⟨1, c.address, c.typeTags, [], d, .okNoError⟩ _
    hpre rfl (by simp [hd])
  refine ⟨args, _, ?_, ?_, hp⟩
  · rw [buildFromRawData_padded hd h.slash h.address_nul, readTypeTags_padded hal hd h.tags_nul]
    simp only [Message.clear, hr, ok_bind]
    simp
  · rw [hd, ← List.append_assoc]
    exact List.drop_left

theorem getArgSize_error {msg msg' : Message} {tag : UInt8} {p : ℕ} {r : Option ℕ}
    (herr : msg.err = .okNoError) (hp : p ≤ msg.storage.length)
    (hs : msg.switchArgSize tag p = .ok (msg', r)) (hr : r = none) :
    msg.getArgSize tag p = .ok (msg', 0) := by
  subst hr
  unfold Message.getArgSize
  rw [if_neg (by simp [herr])]
  simp only [assert_of hp, ok_bind, hs]

theorem setErr_err {msg : Message} {e : ErrorCode} (h : e ≠ .okNoError) :
    (msg.setErr e).err ≠ .okNoError := by
  unfold Message.setErr ErrorCode.set
  by_cases hm : msg.err = .okNoError <;> simp [hm, h]

@[simp] theorem setErr_storage (msg : Message) (e : ErrorCode) :
    (msg.setErr e).storage = msg.storage := rfl

/-- A size that leaves the data or is not padded is an error, any other is the argument's. -/
theorem getArgSize_of_size {msg : Message} {tag : UInt8} {pre bs : List UInt8} {sz : ℕ}
    (hpre : pre.length % 4 = 0) (hb : bs.length % 4 = 0) (herr : msg.err = .okNoError)
    (hs : msg.storage = pre ++ bs) (hsw : msg.switchArgSize tag pre.length = .ok (msg, some sz)) :
    msg.getArgSize tag pre.length = .ok (msg.setErr .malformedArguments, 0) ∨
    msg.getArgSize tag pre.length = .ok (msg, sz) ∧
      ∃ v z rest, bs = v ++ (z ++ rest) ∧ v.length = sz ∧ z = List.replicate (ceil4 sz - sz) 0 := by
  have hp : pre.length ≤ msg.storage.length := by simp [hs]
  by_cases hle : sz ≤ bs.length
  · have hc := ceil4_le hle hb
    have hz : isZeroPaddingCorrect msg.storage (pre.length + sz) =
        .ok (((bs.drop sz).take (ceil4 sz - sz)).all (· = 0)) := by
      have he : msg.storage = (pre ++ bs.take sz) ++
          ((bs.drop sz).take (ceil4 sz - sz) ++ (bs.drop sz).drop (ceil4 sz - sz)) := by
        rw [hs, List.take_append_drop, List.append_assoc, List.take_append_drop]
      rw [he]
      apply isZeroPaddingCorrect_append
      · simp [hle]
      · rw [ceil4_add hpre, List.length_take, List.length_drop]
        omega
    have hg := getArgSize_of_switch herr hsw (by simp [hs, hle]) hz
    cases ha : ((bs.drop sz).take (ceil4 sz - sz)).all (· = 0) with
    | false =>
      rw [ha] at hg
      exact .inl hg
    | true =>
      rw [ha] at hg
      refine .inr ⟨hg, bs.take sz, _, (bs.drop sz).drop (ceil4 sz - sz), ?_, by simp [hle],
        (eq_replicate_of_all ha).trans ?_⟩
      · rw [List.take_append_drop, List.take_append_drop]
      · congr 1
        rw [List.length_take, List.length_drop]
        omega
  · exact .inl (getArgSize_past_end herr hp hsw (by simp [hs]; omega))

theorem getArgSize_unterminated {msg : Message} {pre bs : List UInt8}
    (hpre : pre.length % 4 = 0) (herr : msg.err = .okNoError) (hs : msg.storage = pre ++ bs)
    (hm : memchrToEnd (pre ++ bs) 0 pre.length = .ok none) :
    msg.getArgSize typeTagString pre.length = .ok (msg.setErr .malformedArguments, 0) := by
  have hp : pre.length ≤ msg.storage.length := by simp [hs]
  have hsw : msg.switchArgSize typeTagString pre.length =
      .ok (msg.setErr .malformedArguments, some 0) := by
    unfold Message.switchArgSize
    rw [if_neg (by decide), if_neg (by decide), if_neg (by decide), if_pos rfl, hs, hm]
    rfl
  have hz := isZeroPaddingCorrect_aligned hpre msg.storage
  unfold Message.getArgSize
  rw [if_neg (by simp [herr])]
  simp [assert_of hp, hsw, hz, Nat.not_lt.mpr hp]

/-- A blob that is read is one of the grammar, or its size wraps to no bytes at all. The
other sizes that wrap, to 1, 2 or 3, end in a byte that is not the padding they need. -/
theorem blob_cases {size v z rest tail : List UInt8} {sz : ℕ} (hsize : size.length = 4)
    (hsz : (4 + bigEndian size) % 2 ^ 32 = sz) (hb : size ++ tail = v ++ (z ++ rest))
    (hv : v.length = sz) (hz : z = List.replicate (ceil4 sz - sz) 0) :
    (v ++ z = [] ∧ size = wrappingSize) ∨
    ∃ payload, payload.length + 4 < 2 ^ 32 ∧ v ++ z = blob payload := by
  have hn := bigEndian_lt size
  have hround := toBigEndian_bigEndian size
  rw [hsize] at hn hround
  have hpow : (256 : ℕ) ^ 4 = 2 ^ 32 := by norm_num
  by_cases hfit : bigEndian size + 4 < 2 ^ 32
  · -- the size is the declared one, and the payload follows it
    rw [Nat.add_comm, Nat.mod_eq_of_lt hfit] at hsz
    obtain ⟨payload, rfl⟩ : ∃ payload, v = size ++ payload := by
      refine ⟨v.drop 4, ?_⟩
      have ht := congrArg (List.take 4) hb
      rw [List.take_left' hsize, List.take_append_of_le_length (by omega)] at ht
      rw [ht, List.take_append_drop]
    have hl : payload.length = bigEndian size := by simp [hsize] at hv; omega
    refine .inr ⟨payload, by omega, ?_⟩
    have hc : ceil4 sz - sz = ceil4 payload.length - payload.length := by
      unfold ceil4
      omega
    rw [hz, blob, hl, hround, ← hl, hc]
  · have hlow : sz = bigEndian size + 4 - 2 ^ 32 := by omega
    by_cases h0 : sz = 0
    · subst h0
      have hmax : bigEndian size = 2 ^ 32 - 4 := by omega
      rw [hmax] at hround
      refine .inl ⟨?_, hround.symm.trans (by decide)⟩
      rw [hz, List.length_eq_zero_iff.mp hv]
      rfl
    · -- the last byte of the size would be the last zero of the padding
      exfalso
      have hlen : ceil4 sz - sz = (3 - sz) + 1 := by
        unfold ceil4
        omega
      have ht := congrArg (List.take 4) hb
      rw [List.take_left' hsize, ← List.append_assoc,
        List.take_left' (by simp [hv, hz, hlen]; omega), hz, hlen, List.replicate_succ',
        ← List.append_assoc] at ht
      have hlast := bigEndian_append_singleton (v ++ List.replicate (3 - sz) 0) 0
      rw [← ht] at hlast
      have h256 : bigEndian size % 256 = 0 := by rw [hlast]; simp
      omega

/-- A call of `getArgSize` raises an error or takes an argument of the grammar. -/
def TakesArg (msg : Message) (tag : UInt8) (p : ℕ) (bs : List UInt8) : Prop :=
  (∃ msg', msg.getArgSize tag p = .ok (msg', 0) ∧ msg'.err ≠ .okNoError) ∨
  ∃ len v rest, msg.getArgSize tag p = .ok (msg, len) ∧ bs = v ++ rest ∧
    ceil4 len = v.length ∧ ∀ w tags, Args w tags rest → ∃ w', Args w' (tag :: tags) bs

section TakesArg
variable {msg : Message} {pre bs : List UInt8} (hpre : pre.length % 4 = 0)
  (hb : bs.length % 4 = 0) (herr : msg.err = .okNoError) (hs : msg.storage = pre ++ bs)
include hpre hb herr hs

theorem takesArg_fixed {tag : UInt8} {n : ℕ} (hf : fixedSize tag = some n) :
    TakesArg msg tag pre.length bs := by
  rcases getArgSize_of_size hpre hb herr hs (switchArgSize_fixed hf _) with
    hg | ⟨hg, v, z, rest, rfl, rfl, rfl⟩
  · exact .inl ⟨_, hg, setErr_err (by decide)⟩
  · have hm := ceil4_of_mod (fixedSize_mod hf)
    refine .inr ⟨_, v, rest, hg, by simp [hm], hm, fun w tags ha => ⟨w, ?_⟩⟩
    simpa [hm] using Args.fixed hf ha

theorem takesArg_string : TakesArg msg typeTagString pre.length bs := by
  have hmal : (msg.setErr .malformedArguments).err ≠ .okNoError := setErr_err (by decide)
  rcases string_cases pre bs hpre hb with ⟨-, hm⟩ | ⟨s, t, -, h0, hm, hz⟩
  · exact .inl ⟨_, getArgSize_unterminated hpre herr hs hm, hmal⟩
  · rw [← hs] at hm hz
    have hsw := switchArgSize_string hm
    rcases hz with hz | ⟨rest, rfl⟩
    · by_cases hle : pre.length + (s.length + 1) ≤ msg.storage.length
      · rw [Nat.add_assoc] at hz
        exact .inl ⟨_, getArgSize_of_switch herr hsw hle hz, hmal⟩
      · have hp : pre.length ≤ msg.storage.length := by simp [hs]
        exact .inl ⟨_, getArgSize_past_end herr hp hsw (by omega), hmal⟩
    · exact .inr ⟨_, _, rest, getArgSize_string hpre herr hs h0, rfl, (padded_length s).symm,
        fun w tags ha => ⟨w, .string h0 ha⟩⟩

theorem takesArg_blob : TakesArg msg typeTagBlob pre.length bs := by
  by_cases hend : bs = []
  · have hp : pre.length ≤ msg.storage.length := by simp [hs]
    have hsw : msg.switchArgSize typeTagBlob pre.length =
        .ok (msg.setErr .malformedArguments, none) := by
      unfold Message.switchArgSize
      rw [if_neg (by decide), if_neg (by decide), if_neg (by decide), if_neg (by decide),
        if_pos rfl, if_pos (by simp [hs, hend])]
    exact .inl ⟨_, getArgSize_error herr hp hsw rfl, setErr_err (by decide)⟩
  · have hlen : 4 ≤ bs.length := by
      have := List.length_pos_of_ne_nil hend
      omega
    have hsize : (bs.take 4).length = 4 := by simp [hlen]
    have hbs : bs = bs.take 4 ++ bs.drop 4 := (List.take_append_drop 4 bs).symm
    have hsw := switchArgSize_blob (hs.trans (congrArg (pre ++ ·) hbs)) hsize
    rcases getArgSize_of_size hpre hb herr hs hsw with hg | ⟨hg, v, z, rest, hv, hl, hz⟩
    · exact .inl ⟨_, hg, setErr_err (by decide)⟩
    · have hc : ceil4 ((4 + bigEndian (bs.take 4)) % 2 ^ 32) = (v ++ z).length := by
        have := le_ceil4 ((4 + bigEndian (bs.take 4)) % 2 ^ 32)
        rw [List.length_append, hl, hz, List.length_replicate]
        omega
      refine .inr ⟨_, v ++ z, rest, hg, by simp [hv], hc, fun w tags ha => ?_⟩
      rcases blob_cases hsize rfl (hbs.symm.trans hv) hl hz with ⟨hnil, hw⟩ | ⟨payload, hp, he⟩
      · have hrest : bs = rest := by rw [hv, ← List.append_assoc, hnil, List.nil_append]
        rw [hw] at hbs
        refine ⟨true, ?_⟩
        rw [hbs]
        rw [← hrest, hbs] at ha
        exact .wrapping ha
      · refine ⟨w, ?_⟩
        rw [hv, ← List.append_assoc, he]
        exact .blob hp ha

theorem takesArg (tag : UInt8) : TakesArg msg tag pre.length bs := by
  cases hf : fixedSize tag with
  | some n => exact takesArg_fixed hpre hb herr hs hf
  | none =>
    by_cases hstr : tag = typeTagString
    · subst hstr
      exact takesArg_string hpre hb herr hs
    by_cases hblob : tag = typeTagBlob
    · subst hblob
      exact takesArg_blob hpre hb herr hs
    have hp : pre.length ≤ msg.storage.length := by simp [hs]
    have hsw : msg.switchArgSize tag pre.length = .ok (msg.setErr .unhandledTypeTags, none) := by
      simp only [fixedSize] at hf
      split_ifs at hf with h₁ h₂ h₃
      unfold Message.switchArgSize
      rw [if_neg h₁, if_neg h₂, if_neg h₃, if_neg hstr, if_neg hblob]
    exact .inl ⟨_, getArgSize_error herr hp hsw rfl, setErr_err (by decide)⟩

end TakesArg

/-- Once an error is set, the argument loop stops and the error stays. -/
theorem readArgs_of_err {msg : Message} (herr : msg.err ≠ .okNoError) (tags : List UInt8)
    (arg : ℕ) : Message.readArgs tags msg arg = .ok (msg, arg, tags) := by
  cases tags with
  | nil => rfl
  | cons tag tags =>
    rw [Message.readArgs, if_neg (by simp [Message.isOk, herr])]

/-- The argument loop never leaves the data. It stops with an error, with bytes left over,
or behind the arguments of the grammar. -/
theorem readArgs_total (tags : List UInt8) (msg : Message) (pre bs : List UInt8)
    (hpre : pre.length % 4 = 0) (hb : bs.length % 4 = 0) (herr : msg.err = .okNoError)
    (hs : msg.storage = pre ++ bs) :
    ∃ msg' arg left, Message.readArgs tags msg pre.length = .ok (msg', arg, left) ∧
      (msg'.err = .okNoError → msg'.storage = msg.storage ∧
        (arg = msg.storage.length → ∃ w, Args w tags bs)) := by
  induction tags generalizing msg pre bs with
  | nil =>
    refine ⟨msg, pre.length, [], rfl, fun _ => ⟨rfl, fun hend => ⟨false, ?_⟩⟩⟩
    have : bs = [] := by simpa [hs] using hend
    exact this ▸ .nil
  | cons tag tags ih =>
    rcases takesArg hpre hb herr hs tag with ⟨msg', hg, he⟩ | h
    · refine ⟨msg', pre.length, tags, ?_, fun hok => absurd hok he⟩
      have hle : pre.length ≤ msg.storage.length := by simp [hs]
      rw [Message.readArgs, if_pos (by simp [Message.isOk, herr])]
      simp only [assert_of hle, ok_bind, hg, if_neg (show ¬ msg'.isOk = true by
        simp [Message.isOk, he])]
      exact readArgs_of_err he tags _
    · obtain ⟨len, v, rest, hg, rfl, hc, hext⟩ := h
      have hv : v.length % 4 = 0 := hc ▸ ceil4_mod len
      rw [List.length_append] at hb
      obtain ⟨msg', arg, left, hr, hsound⟩ :=
        ih (msg.pushArgument pre.length len) (pre ++ v) rest (by rw [List.length_append]; omega)
          (by omega) herr
          (by simp [hs])
      refine ⟨msg', arg, left, by rw [readArgs_step herr hs hg hc, hr], fun hok => ?_⟩
      obtain ⟨hst, hargs⟩ := hsound hok
      refine ⟨hst, fun hend => ?_⟩
      obtain ⟨w, ha⟩ := hargs hend
      exact hext w tags ha

theorem readTypeTags_total (msg : Message) {pre bs : List UInt8} (hpre : pre.length % 4 = 0)
    (hb : bs.length % 4 = 0) (herr : msg.err = .okNoError) (hs : msg.storage = pre ++ bs) :
    ∃ msg', msg.readTypeTags pre.length = .ok msg' ∧ (msg'.err = .okNoError →
      ∃ w tags payload, 0 ∉ tags ∧ bs = padded (44 :: tags) ++ payload ∧ Args w tags payload) := by
  have hmal : (msg.setErr .malformedTypeTags).err ≠ .okNoError := setErr_err (by decide)
  rcases string_cases pre bs hpre hb with ⟨-, hm⟩ | ⟨s, t, hst, h0, hm, hz⟩
  · refine ⟨msg.setErr .malformedTypeTags, ?_, fun h => absurd h hmal⟩
    unfold Message.readTypeTags
    simp [hs, hm]
  rcases hz with hz | ⟨payload, rfl⟩
  · refine ⟨msg.setErr .malformedTypeTags, ?_, fun h => absurd h hmal⟩
    unfold Message.readTypeTags
    simp [hs, hm, hz]
  have hz := isZeroPaddingCorrect_padded pre s payload hpre
  by_cases hcomma : s.head? = some 44
  · obtain ⟨tags, rfl⟩ := List.head?_eq_some_iff.mp hcomma
    have htags : 0 ∉ tags := fun h => h0 (List.mem_cons_of_mem _ h)
    have hal : (pre ++ padded (44 :: tags)).length % 4 = 0 := by
      have := ceil4_mod ((44 :: tags).length + 1)
      rw [List.length_append, padded_length]
      omega
    have hpay : payload.length % 4 = 0 := by
      have := ceil4_mod ((44 :: tags).length + 1)
      rw [List.length_append, padded_length] at hb
      omega
    obtain ⟨msg', arg, left, hr, hsound⟩ := readArgs_total tags { msg with typeTags := tags } _ payload
      hal hpay herr (by simp [hs])
    rw [readTypeTags_padded hpre hs htags, hr]
    by_cases hend : left ≠ [] ∨ arg ≠ msg'.storage.length
    · exact ⟨msg'.setErr .malformedArguments, by simp [hend],
        fun h => absurd h (setErr_err (by decide))⟩
    · refine ⟨msg', by simp [hend], fun hok => ?_⟩
      obtain ⟨hst', hargs⟩ := hsound hok
      obtain ⟨w, ha⟩ := hargs (by rw [← hst']; simp at hend; exact hend.2)
      exact ⟨w, tags, payload, htags, rfl, ha⟩
  · refine ⟨msg.setErr .malformedTypeTags, ?_, fun h => absurd h hmal⟩
    have hfirst : ∃ b, Memory.read (pre ++ (padded s ++ payload)) pre.length = .ok b ∧ b ≠ 44 := by
      cases s with
      | nil => exact ⟨0, read_append rfl _ _, by decide⟩
      | cons b s => exact ⟨b, read_append rfl _ _, by simpa using hcomma⟩
    obtain ⟨b, hread, hne⟩ := hfirst
    unfold Message.readTypeTags
    simp [hs, hm, hz, hread, hne]

/-- Aligned data is read without leaving it, and what is read without an error is a
message of the grammar. -/
theorem buildFromRawData_total {d : List UInt8} (hd : d.length % 4 = 0) :
    ∃ msg, Message.buildFromRawData d = .ok msg ∧
      (msg.err = .okNoError → ∃ w c, IsMessage w d c) := by
  let start : Message := { Message.clear with storage := d }
  have hmal : (start.setErr .malformedAddressPattern).err ≠ .okNoError := setErr_err (by decide)
  rcases string_cases [] d rfl hd with ⟨-, hm⟩ | ⟨s, t, -, h0, hm, hz⟩
  · refine ⟨start.setErr .malformedAddressPattern, ?_, fun h => absurd h hmal⟩
    rw [List.nil_append] at hm
    unfold Message.buildFromRawData
    simp only [List.length_nil] at hm
    simp only [hm, ok_bind, start]
  simp only [List.nil_append, List.length_nil, Nat.zero_add] at hm hz
  rcases hz with hz | ⟨rest, hrest⟩
  · refine ⟨start.setErr .malformedAddressPattern, ?_, fun h => absurd h hmal⟩
    unfold Message.buildFromRawData
    simp [hm, hz, start]
  by_cases hslash : s.head? = some 47
  · have hal : (padded s).length % 4 = 0 := by
      rw [padded_length]
      exact ceil4_mod _
    have hb : rest.length % 4 = 0 := by
      rw [hrest, List.length_append] at hd
      omega
    obtain ⟨msg', hr, hsound⟩ := readTypeTags_total { Message.clear with storage := d, address := s }
      hal hb rfl hrest
    refine ⟨msg', by rw [buildFromRawData_padded hrest hslash h0, hr], fun hok => ?_⟩
    obtain ⟨w, tags, payload, htags, rfl, ha⟩ := hsound hok
    exact ⟨w, ⟨s, tags, payload⟩, hslash, h0, htags, ha, hrest⟩
  · refine ⟨start.setErr .malformedAddressPattern, ?_, fun h => absurd h hmal⟩
    have hz := isZeroPaddingCorrect_padded [] s rest rfl
    simp only [List.nil_append, List.length_nil, Nat.zero_add, ← hrest] at hz
    have hfirst : ∃ b, Memory.read d 0 = .ok b ∧ b ≠ 47 := by
      rw [hrest]
      cases s with
      | nil => exact ⟨0, rfl, by decide⟩
      | cons b s => exact ⟨b, rfl, by simpa using hslash⟩
    obtain ⟨b, hread, hne⟩ := hfirst
    unfold Message.buildFromRawData
    simp [hm, hz, hread, hne, start]

end Moodpd.Oscpkt
