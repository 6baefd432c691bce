import Moodpd.OscPattern
import Moodpd.OscPacketRefinement

/-!
# Popping the arguments of a message

`Message::ArgReader` of oscpkt, as far as the daemon uses it: a match of the address
followed by int32 arguments.
-/
namespace Moodpd.Oscpkt
open Memory

structure ArgReader where
  msg : Message
  err : ErrorCode
  argIdx : ℕ
  deriving DecidableEq, Repr

/-- The value of 32 bits as an `int32_t`. -/
def int32 (n : ℕ) : ℤ := Int.bmod n (2 ^ 32)

namespace ArgReader

def setErr (a : ArgReader) (errcode : ErrorCode) : ArgReader :=
  { a with err := a.err.set errcode }

/-- `size() - arg_idx` in `size_t`, which wraps behind the end. -/
def nbArgRemaining (a : ArgReader) : ℕ :=
  if a.argIdx ≤ a.msg.arguments.length then a.msg.arguments.length - a.argIdx
  else 2 ^ 64 - (a.argIdx - a.msg.arguments.length)

def isOkNoMoreArgs (a : ArgReader) : Bool := a.err = .okNoError ∧ a.nbArgRemaining = 0

/-- `argBeg`, with `none` for the null pointer. -/
def argBeg (a : ArgReader) (idx : ℕ) : Option ℕ :=
  if a.err ≠ .okNoError then none else (a.msg.arguments[idx]?).map Prod.fst

/-- `currentTypeTag`, with `none` for -1. -/
def currentTypeTag (a : ArgReader) : ArgReader × Option UInt8 :=
  if a.err = .okNoError ∧ a.argIdx < a.msg.typeTags.length then (a, a.msg.typeTags[a.argIdx]?)
  else (a.setErr .notEnoughArg, none)

def precheck (a : ArgReader) (tag : UInt8) : ArgReader × Bool :=
  let a :=
    if a.msg.arguments.length ≤ a.argIdx then a.setErr .notEnoughArg
    else if a.err = .okNoError then
      let (a, current) := a.currentTypeTag
      if current ≠ some tag then a.setErr .typeMismatch else a
    else a
  (a, a.err = .okNoError)

def popInt32 (a : ArgReader) : Checked (ArgReader × ℤ) :=
  match a.precheck typeTagInt32 with
  | (a, true) => do
    match a.argBeg a.argIdx with
    | none => .error .outOfBounds
    | some p =>
      let n ← readBigEndian a.msg.storage 4 p
      .ok ({ a with argIdx := a.argIdx + 1 }, int32 n)
  | (a, false) => .ok (a, 0)

end ArgReader

def Message.match (msg : Message) (test : List UInt8) : Checked ArgReader := do
  let m ← fullPatternMatch test msg.address
  .ok ⟨msg, msg.err.set (if m then .okNoError else .patternMismatch), 0⟩

/-- `msg->match(test).popInt32(r).popInt32(g).popInt32(b).isOkNoMoreArgs()`, with the values
where it holds. -/
def Message.matchInt32s (msg : Message) (test : List UInt8) : Checked (Option (ℤ × ℤ × ℤ)) := do
  let a ← msg.match test
  let (a, r) ← a.popInt32
  let (a, g) ← a.popInt32
  let (a, b) ← a.popInt32
  .ok (if a.isOkNoMoreArgs then some (r, g, b) else none)

theorem popInt32_of_err {a : ArgReader} (h : a.err ≠ .okNoError) : a.popInt32 = .ok (a, 0) := by
  have hset : ∀ e, a.setErr e = a := by
    intro e
    unfold ArgReader.setErr ErrorCode.set
    rw [if_neg h]
  have hp : a.precheck typeTagInt32 = (a, false) := by
    unfold ArgReader.precheck
    simp [hset, h]
  unfold ArgReader.popInt32
  rw [hp]

/-- A reader without an error in front of an offset, with what remains to be popped. -/
structure ArgReader.At (a : ArgReader) (p : ℕ) (tags : List UInt8) (args : List (ℕ × ℕ)) :
    Prop where
  err : a.err = .okNoError
  le : a.argIdx ≤ a.msg.arguments.length
  typeTags : a.msg.typeTags.drop a.argIdx = tags
  arguments : a.msg.arguments.drop a.argIdx = args
  positions : Positions a.msg.storage.length p tags args

theorem ArgReader.At.nil {a : ArgReader} {p : ℕ} {args : List (ℕ × ℕ)} (h : a.At p [] args) :
    ∃ a', a.popInt32 = .ok (a', 0) ∧ a'.err ≠ .okNoError := by
  have hlen := h.positions.length_eq
  have hargs : a.msg.arguments.length ≤ a.argIdx := by
    rw [← h.arguments, List.length_drop, List.length_nil] at hlen
    omega
  have hp : a.precheck typeTagInt32 = (a.setErr .notEnoughArg, false) := by
    unfold ArgReader.precheck ArgReader.setErr ErrorCode.set
    simp [hargs, h.err]
  refine ⟨a.setErr .notEnoughArg, ?_, ?_⟩
  · unfold ArgReader.popInt32
    rw [hp]
  · simp [ArgReader.setErr, ErrorCode.set, h.err]

section Cons
variable {a : ArgReader} {p : ℕ} {tag : UInt8} {tags : List UInt8} {args : List (ℕ × ℕ)}
  (h : a.At p (tag :: tags) args)
include h

theorem ArgReader.At.currentTypeTag : a.currentTypeTag = (a, some tag) := by
  have hlt : a.argIdx < a.msg.typeTags.length := by
    have := congrArg List.length h.typeTags
    simp only [List.length_drop, List.length_cons] at this
    omega
  have hget : a.msg.typeTags[a.argIdx]? = some tag := by
    rw [← Nat.add_zero a.argIdx, ← List.getElem?_drop, h.typeTags]
    rfl
  unfold ArgReader.currentTypeTag
  rw [if_pos ⟨h.err, hlt⟩, hget]

theorem ArgReader.At.argIdx_lt : a.argIdx < a.msg.arguments.length := by
  have hlen := h.positions.length_eq
  rw [← h.arguments, List.length_drop, List.length_cons] at hlen
  omega

theorem ArgReader.At.mismatch (htag : tag ≠ typeTagInt32) :
    ∃ a', a.popInt32 = .ok (a', 0) ∧ a'.err ≠ .okNoError := by
  have hp : a.precheck typeTagInt32 = (a.setErr .typeMismatch, false) := by
    unfold ArgReader.precheck
    rw [h.currentTypeTag, if_neg (Nat.not_le.mpr h.argIdx_lt)]
    simp [h.err, htag, ArgReader.setErr, ErrorCode.set]
  refine ⟨a.setErr .typeMismatch, ?_, ?_⟩
  · unfold ArgReader.popInt32
    rw [hp]
  · simp [ArgReader.setErr, ErrorCode.set, h.err]

/-- An int32 argument is popped from inside the message. -/
theorem ArgReader.At.pop (htag : tag = typeTagInt32) : ∃ args',
    a.popInt32 = .ok ({ a with argIdx := a.argIdx + 1 },
      int32 (bigEndian ((a.msg.storage.drop p).take 4))) ∧
    ArgReader.At { a with argIdx := a.argIdx + 1 } (p + 4) tags args' := by
  subst htag
  have hp : a.precheck typeTagInt32 = (a, true) := by
    unfold ArgReader.precheck
    rw [h.currentTypeTag, if_neg (Nat.not_le.mpr h.argIdx_lt)]
    simp [h.err]
  have hlt := h.argIdx_lt
  obtain ⟨herr, -, htags, hargs, hpos⟩ := h
  cases hpos with
  | @cons _ len _ _ args' size more =>
    obtain rfl := size rfl
    have hle := more.le
    have hc : ceil4 4 = 4 := rfl
    rw [hc] at more hle
    have hbeg : a.argBeg a.argIdx = some p := by
      unfold ArgReader.argBeg
      rw [if_neg (by simp [herr]), ← Nat.add_zero a.argIdx, ← List.getElem?_drop, hargs]
      rfl
    refine ⟨args', ?_, herr, hlt, ?_, ?_, more⟩
    · unfold ArgReader.popInt32 readBigEndian
      simp only [hp, hbeg, readRange_of_le hle, ok_bind]
    · rw [← List.drop_drop, htags]
      rfl
    · rw [← List.drop_drop, hargs]
      rfl

end Cons

theorem ArgReader.At.isOkNoMoreArgs {a : ArgReader} {p : ℕ} {tags : List UInt8}
    {args : List (ℕ × ℕ)} (h : a.At p tags args) : a.isOkNoMoreArgs = true ↔ tags = [] := by
  have hlen := h.positions.length_eq
  rw [← h.arguments, List.length_drop] at hlen
  unfold ArgReader.isOkNoMoreArgs ArgReader.nbArgRemaining
  rw [if_pos h.le, hlen]
  simp [h.err]

/-- A reader with an error pops nothing and never reports that all is well. -/
theorem isOkNoMoreArgs_of_err {a : ArgReader} (h : a.err ≠ .okNoError) :
    a.isOkNoMoreArgs = false := by
  simp [ArgReader.isOkNoMoreArgs, h]

/-- The arguments of a message whose type tags are `iii`. -/
def Content.int32s (c : Content) : Option (ℤ × ℤ × ℤ) :=
  if c.typeTags = [typeTagInt32, typeTagInt32, typeTagInt32] then
    some (int32 (bigEndian (c.payload.take 4)),
      int32 (bigEndian ((c.payload.drop 4).take 4)),
      int32 (bigEndian ((c.payload.drop 8).take 4)))
  else none

theorem at_of_represents {msg : Message} {c : Content} (h : Represents msg c) :
    ∃ p args, msg.storage.drop p = c.payload ∧
      ArgReader.At ⟨msg, .okNoError, 0⟩ p c.typeTags args := by
  obtain ⟨p, hdrop, hpos⟩ := h.arguments
  exact ⟨p, msg.arguments, hdrop, rfl, Nat.zero_le _, h.typeTags, rfl, hpos⟩

/-- A pop fails when the next type tag is not an int32, and otherwise moves on. -/
theorem ArgReader.At.pop_cases {a : ArgReader} {p : ℕ} {tags : List UInt8}
    {args : List (ℕ × ℕ)} (h : a.At p tags args) :
    (tags.head? ≠ some typeTagInt32 ∧ ∃ a', a.popInt32 = .ok (a', 0) ∧ a'.err ≠ .okNoError) ∨
    ∃ tags' args', tags = typeTagInt32 :: tags' ∧
      a.popInt32 = .ok ({ a with argIdx := a.argIdx + 1 },
        int32 (bigEndian ((a.msg.storage.drop p).take 4))) ∧
      ArgReader.At { a with argIdx := a.argIdx + 1 } (p + 4) tags' args' := by
  cases tags with
  | nil => exact .inl ⟨by simp, h.nil⟩
  | cons tag tags =>
    by_cases htag : tag = typeTagInt32
    · obtain ⟨args', hp, hat⟩ := h.pop htag
      exact .inr ⟨tags, args', by rw [htag], hp, hat⟩
    · exact .inl ⟨by simpa using htag, h.mismatch htag⟩

theorem Content.int32s_of_ne {c : Content}
    (h : c.typeTags ≠ [typeTagInt32, typeTagInt32, typeTagInt32]) : c.int32s = none := if_neg h

/-- The daemon's chain of calls ends inside the message. It holds exactly when the address
matches and the type tags are `iii`, and it then yields the three arguments in order. -/
theorem matchInt32s_of_represents {msg : Message} {c : Content} (h : Represents msg c)
    {test : List UInt8} {m : Bool} (hm : fullPatternMatch test c.address = .ok m) :
    msg.matchInt32s test = .ok (if m then c.int32s else none) := by
  have hmatch : msg.match test =
      .ok ⟨msg, if m then .okNoError else .patternMismatch, 0⟩ := by
    unfold Message.match
    simp [h.address, hm, h.err, ErrorCode.set]
  cases m with
  | false =>
    have herr : (⟨msg, .patternMismatch, 0⟩ : ArgReader).err ≠ .okNoError := by simp
    unfold Message.matchInt32s
    rw [hmatch]
    simp [popInt32_of_err herr, isOkNoMoreArgs_of_err herr]
  | true =>
    obtain ⟨p, args, hdrop, hat⟩ := at_of_represents h
    unfold Message.matchInt32s
    rw [hmatch]
    simp only [if_true, ok_bind]
    rcases hat.pop_cases with ⟨hne, a, hp, herr⟩ | ⟨tags₁, args₁, ht₁, hp₁, hat₁⟩
    · rw [Content.int32s_of_ne fun he => hne (by rw [he]; rfl)]
      simp [hp, popInt32_of_err herr, isOkNoMoreArgs_of_err herr]
    rcases hat₁.pop_cases with ⟨hne, a, hp, herr⟩ | ⟨tags₂, args₂, ht₂, hp₂, hat₂⟩
    · rw [Content.int32s_of_ne fun he => hne ?_]
      · simp [hp₁, hp, popInt32_of_err herr, isOkNoMoreArgs_of_err herr]
      · rw [(List.cons.inj (ht₁.symm.trans he)).2]
        rfl
    subst ht₂
    rcases hat₂.pop_cases with ⟨hne, a, hp, herr⟩ | ⟨tags₃, args₃, ht₃, hp₃, hat₃⟩
    · rw [Content.int32s_of_ne fun he => hne ?_]
      · simp [hp₁, hp₂, hp, isOkNoMoreArgs_of_err herr]
      · rw [ht₁] at he
        simp only [List.cons.injEq, true_and] at he
        rw [he]
        rfl
    subst ht₃
    simp only [hp₁, hp₂, hp₃, ok_bind]
    by_cases hend : tags₃ = []
    · rw [if_pos (hat₃.isOkNoMoreArgs.mpr hend), Content.int32s,
        if_pos (by rw [ht₁, hend]), ← hdrop]
      simp only [List.drop_drop]
    · rw [if_neg fun hok => hend (hat₃.isOkNoMoreArgs.mp hok),
        Content.int32s_of_ne fun he => hend (by simpa [ht₁] using he)]

/-- Three big-endian integers. -/
def int32Payload (r g b : BitVec 32) : List UInt8 :=
  toBigEndian 4 r.toNat ++ (toBigEndian 4 g.toNat ++ toBigEndian 4 b.toNat)

theorem int32_toNat (v : BitVec 32) : int32 v.toNat = v.toInt := by
  rw [BitVec.toInt_eq_toNat_bmod]
  rfl

theorem int32_bits (v : BitVec 32) : int32 (bigEndian (toBigEndian 4 v.toNat)) = v.toInt := by
  have hv : v.toNat < 256 ^ 4 := v.isLt
  rw [bigEndian_toBigEndian hv, int32_toNat]

theorem int32s_payload (address : List UInt8) (r g b : BitVec 32) :
    Content.int32s ⟨address, [typeTagInt32, typeTagInt32, typeTagInt32], int32Payload r g b⟩ =
      some (r.toInt, g.toInt, b.toInt) := by
  have hlen := toBigEndian_length 4
  have hr : (int32Payload r g b).take 4 = toBigEndian 4 r.toNat := List.take_left' (hlen _)
  have hg : ((int32Payload r g b).drop 4).take 4 = toBigEndian 4 g.toNat := by
    unfold int32Payload
    rw [List.drop_left' (hlen _), List.take_left' (hlen _)]
  have hb : ((int32Payload r g b).drop 8).take 4 = toBigEndian 4 b.toNat := by
    unfold int32Payload
    rw [← List.append_assoc, List.drop_left' (by rw [List.length_append, hlen, hlen]),
      List.take_of_length_le (by rw [hlen])]
  unfold Content.int32s
  simp only [if_true, hr, hg, hb, int32_bits]

/-- The message with an address and three integers. -/
theorem isMessage_int32s {address : List UInt8} (slash : address.head? = some 47)
    (nul : 0 ∉ address) (r g b : BitVec 32) :
    IsMessage false
      (padded address ++ (padded [44, typeTagInt32, typeTagInt32, typeTagInt32] ++
        int32Payload r g b))
      ⟨address, [typeTagInt32, typeTagInt32, typeTagInt32], int32Payload r g b⟩ where
  slash := slash
  address_nul := nul
  tags_nul := by
    simp only
    decide
  args := by
    have hint : ∀ n : ℕ, fixedSize typeTagInt32 = some (toBigEndian 4 n).length :=
      fun n => by rw [toBigEndian_length]; rfl
    have hargs : Args false [typeTagInt32, typeTagInt32, typeTagInt32] _ :=
      .fixed (hint r.toNat) (.fixed (hint g.toNat) (.fixed (hint b.toNat) .nil))
    rw [List.append_nil] at hargs
    exact hargs
  bytes := rfl

theorem args_nil {w : Bool} {bs : List UInt8} (h : Args w [] bs) : bs = [] := by
  cases h with
  | nil => rfl

/-- The argument of an int32 tag is four bytes. -/
theorem args_int32 {w : Bool} {tags bs : List UInt8} (h : Args w (typeTagInt32 :: tags) bs) :
    ∃ (v : BitVec 32) (rest : List UInt8), bs = toBigEndian 4 v.toNat ++ rest ∧ Args w tags rest := by
  generalize hts : typeTagInt32 :: tags = ts at h
  cases h with
  | nil => cases hts
  | @fixed _ tag _ v rest size more =>
    obtain ⟨rfl, rfl⟩ := List.cons.inj hts
    have hlen : v.length = 4 := (Option.some.inj size).symm
    have hlt : bigEndian v < 2 ^ 32 := by
      have := bigEndian_lt v
      rw [hlen] at this
      exact this
    refine ⟨BitVec.ofNat 32 (bigEndian v), rest, ?_, more⟩
    rw [BitVec.toNat_ofNat, Nat.mod_eq_of_lt hlt, ← hlen, toBigEndian_bigEndian]
  | string => exact absurd (List.cons.inj hts).1 (by decide)
  | blob => exact absurd (List.cons.inj hts).1 (by decide)
  | wrapping => exact absurd (List.cons.inj hts).1 (by decide)

/-- The type tags `iii` come with three integers, which are the ones that are popped. -/
theorem int32s_iff {w : Bool} {d : List UInt8} {c : Content} (h : IsMessage w d c) {x y z : ℤ} :
    c.int32s = some (x, y, z) ↔ c.typeTags = [typeTagInt32, typeTagInt32, typeTagInt32] ∧
      ∃ r g b : BitVec 32, c.payload = int32Payload r g b ∧
        x = r.toInt ∧ y = g.toInt ∧ z = b.toInt := by
  obtain ⟨address, tags, payload⟩ := c
  have hargs : Args w tags payload := h.args
  clear h
  constructor
  · intro hs
    have htags : tags = [typeTagInt32, typeTagInt32, typeTagInt32] := by
      by_contra hne
      rw [Content.int32s_of_ne hne] at hs
      cases hs
    subst htags
    obtain ⟨r, rest₁, rfl, h₁⟩ := args_int32 hargs
    obtain ⟨g, rest₂, rfl, h₂⟩ := args_int32 h₁
    obtain ⟨b, rest₃, rfl, h₃⟩ := args_int32 h₂
    obtain rfl := args_nil h₃
    rw [List.append_nil] at hs
    have hxyz := (int32s_payload address r g b).symm.trans hs
    simp only [Option.some.injEq, Prod.mk.injEq] at hxyz
    obtain ⟨hx, hy, hz⟩ := hxyz
    exact ⟨rfl, r, g, b, by rw [List.append_nil]; rfl, hx.symm, hy.symm, hz.symm⟩
  · rintro ⟨htags, r, g, b, hpayload, rfl, rfl, rfl⟩
    simp only at htags hpayload
    subst htags hpayload
    exact int32s_payload address r g b

end Moodpd.Oscpkt
