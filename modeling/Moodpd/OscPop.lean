import Moodpd.OscArgReader
import Moodpd.OscValues

/-!
# Popping arguments of every type

The pop functions of `Message::ArgReader`, chains of them, and the loop with which a message
is printed. A chain pops or skips the arguments that were stored as long as its types are those
of the message, and keeps the first error. Only a blob of wrapping size makes it leave the message.
-/
namespace Moodpd.Oscpkt
open Memory

namespace ArgReader

/-- `argEnd`, with `none` for the null pointer. -/
def argEnd (a : ArgReader) (idx : ℕ) : Option ℕ :=
  if a.err ≠ .okNoError then none else (a.msg.arguments[idx]?).map fun arg => arg.1 + arg.2

/-- `popPod` of a type with this many bytes, with the bits of the value. -/
def popPod (a : ArgReader) (tag : UInt8) (width : ℕ) : Checked (ArgReader × ℕ) :=
  match a.precheck tag with
  | (a, true) => do
    match a.argBeg a.argIdx with
    | none => .error .outOfBounds
    | some p =>
      let n ← readBigEndian a.msg.storage width p
      .ok ({ a with argIdx := a.argIdx + 1 }, n)
  | (a, false) => .ok (a, 0)

def popInt64 (a : ArgReader) : Checked (ArgReader × ℤ) := do
  let (a, n) ← a.popPod typeTagInt64 8
  .ok (a, Int.bmod n (2 ^ 64))

/-- A floating-point number is its bits. -/
def popFloat (a : ArgReader) : Checked (ArgReader × BitVec 32) := do
  let (a, n) ← a.popPod typeTagFloat 4
  .ok (a, BitVec.ofNat 32 n)

def popDouble (a : ArgReader) : Checked (ArgReader × BitVec 64) := do
  let (a, n) ← a.popPod typeTagDouble 8
  .ok (a, BitVec.ofNat 64 n)

/-- `popStr(s)`: the string keeps its value when there is none to pop. -/
def popStr (a : ArgReader) (s : List UInt8) : Checked (ArgReader × List UInt8) :=
  match a.precheck typeTagString with
  | (a, true) => do
    match a.argBeg a.argIdx with
    | none => .error .outOfBounds
    | some p =>
      let s ← cstring (a.msg.storage.drop p)
      .ok ({ a with argIdx := a.argIdx + 1 }, s)
  | (a, false) => .ok (a, s)

/-- `popBlob(b)`: an end before the start is no range. -/
def popBlob (a : ArgReader) (b : List UInt8) : Checked (ArgReader × List UInt8) :=
  match a.precheck typeTagBlob with
  | (a, true) => do
    match a.argBeg a.argIdx, a.argEnd a.argIdx with
    | some p, some q =>
      if p + 4 ≤ q then do
        let b ← readRange a.msg.storage (p + 4) (q - (p + 4))
        .ok ({ a with argIdx := a.argIdx + 1 }, b)
      else .error .outOfBounds
    | _, _ => .error .outOfBounds
  | (a, false) => .ok (a, b)

/-- `popBool(b)`: the reader moves on whether or not there was a boolean. -/
def popBool (a : ArgReader) : ArgReader × Bool :=
  let (a, b) :=
    if a.msg.arguments.length ≤ a.argIdx then (a.setErr .notEnoughArg, false)
    else
      let (a, current) := a.currentTypeTag
      if current = some typeTagTrue then (a, true)
      else
        let (a, current) := a.currentTypeTag
        if current = some typeTagFalse then (a, false) else (a.setErr .typeMismatch, false)
  ({ a with argIdx := a.argIdx + 1 }, b)

/-- `pop()`, which skips what comes next. -/
def pop (a : ArgReader) : ArgReader :=
  if a.msg.arguments.length ≤ a.argIdx then a.setErr .notEnoughArg
  else { a with argIdx := a.argIdx + 1 }

/-- `isInt32` and its siblings: the type tag is compared, and an error is set at the end. -/
def isTag (a : ArgReader) (tag : UInt8) : ArgReader × Bool :=
  let (a, current) := a.currentTypeTag
  (a, current = some tag)

def isBool (a : ArgReader) : ArgReader × Bool :=
  match a.isTag typeTagTrue with
  | (a, true) => (a, true)
  | (a, false) => a.isTag typeTagFalse

end ArgReader

/-- `msg.arg()`. -/
def Message.arg (msg : Message) : ArgReader := ⟨msg, msg.err, 0⟩

/-- The pop functions by the type they pop, and the one that skips an argument. -/
inductive Pop
  | skip
  | bool
  | int32
  | int64
  | float
  | double
  | str
  | blob
  deriving DecidableEq, Repr

/-- What a pop function stores. -/
inductive Datum
  | nothing
  | bool (b : Bool)
  | int32 (i : ℤ)
  | int64 (h : ℤ)
  | float (f : BitVec 32)
  | double (d : BitVec 64)
  | str (s : List UInt8)
  | blob (b : List UInt8)
  deriving DecidableEq, Repr

namespace ArgReader

/-- A pop into a fresh variable. -/
def popAs (a : ArgReader) : Pop → Checked (ArgReader × Datum)
  | .skip => .ok (a.pop, .nothing)
  | .bool => .ok (a.popBool.1, .bool a.popBool.2)
  | .int32 => do
    let (a, i) ← a.popInt32
    .ok (a, .int32 i)
  | .int64 => do
    let (a, h) ← a.popInt64
    .ok (a, .int64 h)
  | .float => do
    let (a, f) ← a.popFloat
    .ok (a, .float f)
  | .double => do
    let (a, d) ← a.popDouble
    .ok (a, .double d)
  | .str => do
    let (a, s) ← a.popStr []
    .ok (a, .str s)
  | .blob => do
    let (a, b) ← a.popBlob []
    .ok (a, .blob b)

/-- A chain of pops. -/
def pops (a : ArgReader) : List Pop → Checked (ArgReader × List Datum)
  | [] => .ok (a, [])
  | k :: ks => do
    let (a, d) ← a.popAs k
    let (a, ds) ← a.pops ks
    .ok (a, d :: ds)

/-- The type that the printing loop finds, in the order of its tests. -/
def nextPop (a : ArgReader) : ArgReader × Option Pop :=
  match a.isBool with
  | (a, true) => (a, some .bool)
  | (a, false) => match a.isTag typeTagInt32 with
    | (a, true) => (a, some .int32)
    | (a, false) => match a.isTag typeTagInt64 with
      | (a, true) => (a, some .int64)
      | (a, false) => match a.isTag typeTagFloat with
        | (a, true) => (a, some .float)
        | (a, false) => match a.isTag typeTagDouble with
          | (a, true) => (a, some .double)
          | (a, false) => match a.isTag typeTagString with
            | (a, true) => (a, some .str)
            | (a, false) => match a.isTag typeTagBlob with
              | (a, true) => (a, some .blob)
              | (a, false) => (a, none)

/-- The loop of `operator<<`: the arguments that are printed. The fuel bounds its turns. -/
def printArgs : ℕ → ArgReader → Checked (ArgReader × List Datum)
  | 0, _ => .error .outOfFuel
  | fuel + 1, a =>
    if a.nbArgRemaining ≠ 0 ∧ a.err = .okNoError then
      match a.nextPop with
      | (_, none) => .error .assertFailed
      | (a, some k) => do
        let (a, d) ← a.popAs k
        let (a, ds) ← a.printArgs fuel
        .ok (a, d :: ds)
    else .ok (a, [])

end ArgReader

def Message.print (msg : Message) : Checked (ArgReader × List Datum) :=
  ArgReader.printArgs (msg.arguments.length + 1) msg.arg

/-- An argument that was read: a value, or with `none` a blob of wrapping size. -/
abbrev Cell := Option Value

def Cell.tag : Cell → UInt8
  | some v => v.tag
  | none => typeTagBlob

inductive StoredCell (storage : List UInt8) : Cell → ℕ × ℕ → Prop
  | value {v : Value} {arg : ℕ × ℕ} (h : StoredAt storage v arg) : StoredCell storage (some v) arg
  | wrapping {pre bs : List UInt8} (h : storage = pre ++ (wrappingSize ++ bs)) :
      StoredCell storage none (pre.length, 0)

def Value.pop : Value → Pop
  | .bool _ => .bool
  | .int32 _ => .int32
  | .int64 _ => .int64
  | .float _ => .float
  | .double _ => .double
  | .str _ => .str
  | .blob _ => .blob

def Cell.pop : Cell → Pop
  | some v => v.pop
  | none => .blob

def Value.datum : Value → Datum
  | .bool b => .bool b
  | .int32 i => .int32 i.toInt
  | .int64 h => .int64 h.toInt
  | .float f => .float f
  | .double d => .double d
  | .str s => .str s.bytes
  | .blob b => .blob b.bytes

/-- A reader without an error and the arguments it has not popped. -/
structure ArgReader.Remains (a : ArgReader) (cs : List Cell) : Prop where
  err : a.err = .okNoError
  le : a.argIdx ≤ a.msg.arguments.length
  typeTags : a.msg.typeTags.drop a.argIdx = cs.map Cell.tag
  arguments : List.Forall₂ (StoredCell a.msg.storage) cs (a.msg.arguments.drop a.argIdx)

section Remains
variable {a : ArgReader}

theorem ArgReader.Remains.length {cs : List Cell} (h : a.Remains cs) :
    a.msg.arguments.length - a.argIdx = cs.length := by
  rw [← List.length_drop, ← h.arguments.length_eq]

theorem ArgReader.Remains.nbArgRemaining {cs : List Cell} (h : a.Remains cs) :
    a.nbArgRemaining = cs.length := by
  unfold ArgReader.nbArgRemaining
  rw [if_pos h.le, h.length]

variable {c : Cell} {cs : List Cell} (h : a.Remains (c :: cs))
include h

theorem ArgReader.Remains.currentTypeTag : a.currentTypeTag = (a, some c.tag) := by
  have hlen := congrArg List.length h.typeTags
  simp only [List.length_drop, List.map_cons, List.length_cons] at hlen
  have hget : a.msg.typeTags[a.argIdx]? = some c.tag := by
    rw [← Nat.add_zero a.argIdx, ← List.getElem?_drop, h.typeTags]
    rfl
  unfold ArgReader.currentTypeTag
  rw [if_pos ⟨h.err, by omega⟩, hget]

theorem ArgReader.Remains.argIdx_lt : a.argIdx < a.msg.arguments.length := by
  have hlen := h.length
  rw [List.length_cons] at hlen
  omega

theorem ArgReader.Remains.argument : ∃ arg, a.msg.arguments[a.argIdx]? = some arg ∧
    StoredCell a.msg.storage c arg ∧ Remains { a with argIdx := a.argIdx + 1 } cs := by
  have hargs := h.arguments
  have hlt := h.argIdx_lt
  generalize hdrop : a.msg.arguments.drop a.argIdx = args at hargs
  cases hargs with
  | @cons _ arg _ args hc hcs =>
    have hnext : a.msg.arguments.drop (a.argIdx + 1) = args := by
      rw [← List.drop_drop, hdrop]
      rfl
    refine ⟨arg, ?_, hc, h.err, hlt, ?_, by rw [hnext]; exact hcs⟩
    · rw [← Nat.add_zero a.argIdx, ← List.getElem?_drop, hdrop]
      rfl
    · rw [← List.drop_drop, h.typeTags]
      rfl

theorem ArgReader.Remains.precheck : a.precheck c.tag = (a, true) := by
  have hlen := h.length
  rw [List.length_cons] at hlen
  unfold ArgReader.precheck
  rw [h.currentTypeTag, if_neg (by omega)]
  simp [h.err]

theorem ArgReader.Remains.precheck_mismatch {tag : UInt8} (hne : c.tag ≠ tag) :
    a.precheck tag = (a.setErr .typeMismatch, false) := by
  have hlen := h.length
  rw [List.length_cons] at hlen
  unfold ArgReader.precheck
  rw [h.currentTypeTag, if_neg (by omega)]
  simp [h.err, hne, ArgReader.setErr, ErrorCode.set]

end Remains

/-- The bytes of a value that is not a boolean are at its position. -/
theorem StoredAt.bytes_of_ne {storage : List UInt8} {v : Value} {arg : ℕ × ℕ}
    (h : StoredAt storage v arg) (hv : v.pop ≠ .bool) : ∃ pre post,
      storage = pre ++ (v.encode ++ post) ∧ arg = (pre.length, v.size) := by
  cases h with
  | bool b => exact absurd rfl hv
  | bytes h => exact ⟨_, _, h, rfl⟩

section Pop
variable {a : ArgReader} {cs : List Cell}

/-- The position of the next argument and its bytes. -/
theorem ArgReader.Remains.stored {v : Value} (h : a.Remains (some v :: cs)) (hv : v.pop ≠ .bool) :
    ∃ pre post, a.msg.storage = pre ++ (v.encode ++ post) ∧ a.argBeg a.argIdx = some pre.length ∧
      a.argEnd a.argIdx = some (pre.length + v.size) := by
  obtain ⟨arg, hget, hc, -⟩ := h.argument
  cases hc with
  | value hstored =>
    obtain ⟨pre, post, hs, rfl⟩ := hstored.bytes_of_ne hv
    refine ⟨pre, post, hs, ?_, ?_⟩
    · unfold ArgReader.argBeg
      rw [if_neg (not_not.mpr h.err), hget]
      rfl
    · unfold ArgReader.argEnd
      rw [if_neg (not_not.mpr h.err), hget]
      rfl

theorem ArgReader.Remains.popPod {v : Value} (h : a.Remains (some v :: cs)) {tag : UInt8}
    {width n : ℕ} (htag : v.tag = tag) (hv : v.pop ≠ .bool) (he : v.encode = toBigEndian width n)
    (hn : n < 256 ^ width) :
    a.popPod tag width = .ok ({ a with argIdx := a.argIdx + 1 }, n) := by
  obtain ⟨pre, post, hs, hbeg, -⟩ := h.stored hv
  have hpre : a.precheck tag = (a, true) := htag ▸ h.precheck
  have hread : readBigEndian a.msg.storage width pre.length = .ok n := by
    rw [hs, he, readBigEndian_append rfl (toBigEndian_length width n), bigEndian_toBigEndian hn]
  unfold ArgReader.popPod
  simp only [hpre, hbeg, hread, ok_bind]

/-- `popInt32` is `popPod` of an `int32_t`. -/
theorem popInt32_eq_popPod (a : ArgReader) : a.popInt32 = (do
    let (a, n) ← a.popPod typeTagInt32 4
    .ok (a, int32 n)) := by
  unfold ArgReader.popInt32 ArgReader.popPod
  obtain ⟨a, ok⟩ := a.precheck typeTagInt32
  cases ok with
  | false => rfl
  | true =>
    simp only
    cases a.argBeg a.argIdx with
    | none => rfl
    | some p =>
      simp only
      cases readBigEndian a.msg.storage 4 p <;> rfl

theorem ArgReader.Remains.popStr {s : Text} (h : a.Remains (some (.str s) :: cs)) :
    a.popStr [] = .ok ({ a with argIdx := a.argIdx + 1 }, s.bytes) := by
  obtain ⟨pre, post, hs, hbeg, -⟩ := h.stored nofun
  have hpre : a.precheck typeTagString = (a, true) := h.precheck
  have hread : cstring (a.msg.storage.drop pre.length) = .ok s.bytes := by
    rw [hs, List.drop_left, Value.encode, padded, List.append_assoc, List.cons_append]
    exact cstring_append s.nul _
  unfold ArgReader.popStr
  simp only [hpre, hbeg, hread, ok_bind]

theorem ArgReader.Remains.popBlob {b : BlobData} (h : a.Remains (some (.blob b) :: cs)) :
    a.popBlob [] = .ok ({ a with argIdx := a.argIdx + 1 }, b.bytes) := by
  obtain ⟨pre, post, hs, hbeg, hend⟩ := h.stored nofun
  have hpre : a.precheck typeTagBlob = (a, true) := h.precheck
  have hle : pre.length + 4 ≤ pre.length + (Value.blob b).size := by
    rw [Value.size]
    omega
  have hread : readRange a.msg.storage (pre.length + 4)
      (pre.length + (Value.blob b).size - (pre.length + 4)) = .ok b.bytes := by
    have hsplit : a.msg.storage = (pre ++ toBigEndian 4 b.bytes.length) ++ (b.bytes ++
        (List.replicate (ceil4 b.bytes.length - b.bytes.length) 0 ++ post)) := by
      rw [hs, Value.encode, blob]
      simp only [List.append_assoc]
    rw [hsplit]
    refine readRange_append (by rw [List.length_append, toBigEndian_length]) ?_ _
    rw [Value.size]
    omega
  unfold ArgReader.popBlob
  simp only [hpre, hbeg, hend, if_pos hle, hread, ok_bind]

theorem ArgReader.Remains.popBool {b : Bool} (h : a.Remains (some (.bool b) :: cs)) :
    a.popBool = ({ a with argIdx := a.argIdx + 1 }, b) := by
  have hlen := h.length
  rw [List.length_cons] at hlen
  unfold ArgReader.popBool
  rw [h.currentTypeTag, if_neg (by omega)]
  cases b with
  | true => rfl
  | false =>
    have htag : Cell.tag (some (.bool false)) = typeTagFalse := rfl
    simp only [htag, h.currentTypeTag]
    rfl

/-- A value is popped by the function of its type. -/
theorem ArgReader.Remains.popAs {v : Value} (h : a.Remains (some v :: cs)) :
    a.popAs v.pop = .ok ({ a with argIdx := a.argIdx + 1 }, v.datum) := by
  cases v with
  | bool b =>
    rw [Value.pop, ArgReader.popAs, h.popBool]
    rfl
  | int32 i =>
    have hp : a.popPod typeTagInt32 4 = .ok ({ a with argIdx := a.argIdx + 1 }, i.toNat) :=
      h.popPod rfl nofun rfl i.isLt
    rw [Value.pop, ArgReader.popAs, popInt32_eq_popPod, hp]
    simp only [ok_bind, int32_toNat, Value.datum]
  | int64 i =>
    have hp : a.popPod typeTagInt64 8 = .ok ({ a with argIdx := a.argIdx + 1 }, i.toNat) :=
      h.popPod rfl nofun rfl i.isLt
    rw [Value.pop, ArgReader.popAs, ArgReader.popInt64, hp]
    simp only [ok_bind, ← BitVec.toInt_eq_toNat_bmod, Value.datum]
  | float f =>
    have hp : a.popPod typeTagFloat 4 = .ok ({ a with argIdx := a.argIdx + 1 }, f.toNat) :=
      h.popPod rfl nofun rfl f.isLt
    rw [Value.pop, ArgReader.popAs, ArgReader.popFloat, hp]
    simp only [ok_bind, BitVec.ofNat_toNat, BitVec.setWidth_eq, Value.datum]
  | double d =>
    have hp : a.popPod typeTagDouble 8 = .ok ({ a with argIdx := a.argIdx + 1 }, d.toNat) :=
      h.popPod rfl nofun rfl d.isLt
    rw [Value.pop, ArgReader.popAs, ArgReader.popDouble, hp]
    simp only [ok_bind, BitVec.ofNat_toNat, BitVec.setWidth_eq, Value.datum]
  | str s =>
    rw [Value.pop, ArgReader.popAs, h.popStr]
    rfl
  | blob b =>
    rw [Value.pop, ArgReader.popAs, h.popBlob]
    rfl

/-- Whatever comes next is skipped. -/
theorem ArgReader.Remains.skip {c : Cell} (h : a.Remains (c :: cs)) :
    a.popAs .skip = .ok ({ a with argIdx := a.argIdx + 1 }, .nothing) := by
  rw [ArgReader.popAs, ArgReader.pop, if_neg (Nat.not_le.mpr h.argIdx_lt)]

/-- The end of a blob of wrapping size is before its data. -/
theorem ArgReader.Remains.popAs_wrapping (h : a.Remains (none :: cs)) :
    a.popAs .blob = .error .outOfBounds := by
  obtain ⟨arg, hget, hc, -⟩ := h.argument
  cases hc with
  | @wrapping pre bs _ =>
    have hpre : a.precheck typeTagBlob = (a, true) := h.precheck
    have hbeg : a.argBeg a.argIdx = some pre.length := by
      unfold ArgReader.argBeg
      rw [if_neg (not_not.mpr h.err), hget]
      rfl
    have hend : a.argEnd a.argIdx = some (pre.length + 0) := by
      unfold ArgReader.argEnd
      rw [if_neg (not_not.mpr h.err), hget]
      rfl
    have hlt : ¬ pre.length + 4 ≤ pre.length + 0 := by omega
    unfold ArgReader.popAs ArgReader.popBlob
    simp only [hpre, hbeg, hend, if_neg hlt, error_bind]

end Pop

/-- The type tag that a pop function checks, if it checks one. -/
def Pop.tag : Pop → UInt8
  | .skip => 0
  | .bool => 0
  | .int32 => typeTagInt32
  | .int64 => typeTagInt64
  | .float => typeTagFloat
  | .double => typeTagDouble
  | .str => typeTagString
  | .blob => typeTagBlob

/-- What a pop that fails stores, or leaves in a fresh variable. -/
def Pop.zero : Pop → Datum
  | .skip => .nothing
  | .bool => .bool false
  | .int32 => .int32 0
  | .int64 => .int64 0
  | .float => .float 0
  | .double => .double 0
  | .str => .str []
  | .blob => .blob []

theorem pop_of_tag {c : Cell} {k : Pop} (h : c.tag = k.tag) : c.pop = k := by
  cases c with
  | none => cases k <;> first | rfl | exact absurd h (by decide)
  | some v =>
    cases v with
    | bool b => cases b <;> cases k <;> exact absurd h (by decide)
    | _ =>
      cases k <;> first
        | rfl
        | (simp only [Cell.tag, Value.tag, Pop.tag] at h; exact absurd h (by decide))

theorem Value.tag_eq_pop_tag {v : Value} (h : v.pop ≠ .bool) : v.tag = v.pop.tag := by
  cases v with
  | bool b => exact absurd rfl h
  | _ => rfl

theorem Value.pop_eq_of_tag {v w : Value} (h : v.tag = w.tag) : v.pop = w.pop := by
  by_cases hw : w.pop = .bool
  · by_cases hv : v.pop = .bool
    · rw [hv, hw]
    · have hpop : Cell.pop (some w) = v.pop := pop_of_tag (h.symm.trans (Value.tag_eq_pop_tag hv))
      exact hpop.symm
  · have hpop : Cell.pop (some v) = w.pop := pop_of_tag (h.trans (Value.tag_eq_pop_tag hw))
    exact hpop

theorem map_pop_of_map_tag {vs ws : List Value} (h : vs.map Value.tag = ws.map Value.tag) :
    vs.map Value.pop = ws.map Value.pop := by
  induction vs generalizing ws with
  | nil =>
    obtain rfl := List.map_eq_nil_iff.mp h.symm
    rfl
  | cons v vs ih =>
    cases ws with
    | nil => cases h
    | cons w ws =>
      obtain ⟨hv, hvs⟩ := List.cons.inj h
      rw [List.map_cons, List.map_cons, Value.pop_eq_of_tag hv, ih hvs]

theorem datum_injective : Function.Injective Value.datum := by
  intro v w h
  cases v <;> cases w <;> simp only [Value.datum, Datum.bool.injEq, Datum.int32.injEq,
    Datum.int64.injEq, Datum.float.injEq, Datum.double.injEq, Datum.str.injEq, Datum.blob.injEq,
    BitVec.toInt_inj, reduceCtorEq] at h
  case str.str => exact congrArg Value.str (Text.ext h)
  case blob.blob => exact congrArg Value.blob (BlobData.ext h)
  all_goals exact congrArg _ h

section Fails
variable {a : ArgReader} {k : Pop}

theorem popPod_of_precheck {a' : ArgReader} {tag : UInt8} {width : ℕ}
    (h : a.precheck tag = (a', false)) : a.popPod tag width = .ok (a', 0) := by
  unfold ArgReader.popPod
  rw [h]

theorem popAs_of_precheck {a' : ArgReader} (hk : k ≠ .bool) (hs : k ≠ .skip)
    (h : a.precheck k.tag = (a', false)) : a.popAs k = .ok (a', k.zero) := by
  cases k with
  | skip => exact absurd rfl hs
  | bool => exact absurd rfl hk
  | int32 =>
    have hp : a.popPod typeTagInt32 4 = .ok (a', 0) := popPod_of_precheck h
    rw [ArgReader.popAs, popInt32_eq_popPod, hp]
    rfl
  | int64 =>
    have hp : a.popPod typeTagInt64 8 = .ok (a', 0) := popPod_of_precheck h
    rw [ArgReader.popAs, ArgReader.popInt64, hp]
    rfl
  | float =>
    have hp : a.popPod typeTagFloat 4 = .ok (a', 0) := popPod_of_precheck h
    rw [ArgReader.popAs, ArgReader.popFloat, hp]
    rfl
  | double =>
    have hp : a.popPod typeTagDouble 8 = .ok (a', 0) := popPod_of_precheck h
    rw [ArgReader.popAs, ArgReader.popDouble, hp]
    rfl
  | str =>
    have h' : a.precheck typeTagString = (a', false) := h
    unfold ArgReader.popAs ArgReader.popStr
    rw [h']
    rfl
  | blob =>
    have h' : a.precheck typeTagBlob = (a', false) := h
    unfold ArgReader.popAs ArgReader.popBlob
    rw [h']
    rfl

theorem popAs_of_popBool {a' : ArgReader} (h : a.popBool = (a', false)) :
    a.popAs .bool = .ok (a', Pop.zero .bool) := by
  rw [ArgReader.popAs, h]
  rfl

theorem setErr_of_err {e : ErrorCode} (h : a.err ≠ .okNoError) : a.setErr e = a := by
  unfold ArgReader.setErr ErrorCode.set
  rw [if_neg h]

theorem err_setErr {e : ErrorCode} (h : a.err = .okNoError) : (a.setErr e).err = e := by
  unfold ArgReader.setErr ErrorCode.set
  exact if_pos h

theorem currentTypeTag_of_err (h : a.err ≠ .okNoError) : a.currentTypeTag = (a, none) := by
  unfold ArgReader.currentTypeTag
  rw [if_neg (fun hok => h hok.1), setErr_of_err h]

/-- An error stays, and nothing is popped any more. -/
theorem popAs_of_err (h : a.err ≠ .okNoError) (k : Pop) :
    ∃ a', a.popAs k = .ok (a', k.zero) ∧ a'.err = a.err := by
  by_cases hk : k = .bool
  · subst hk
    have hb : a.popBool = ({ a with argIdx := a.argIdx + 1 }, false) := by
      unfold ArgReader.popBool
      simp [currentTypeTag_of_err h, setErr_of_err h]
    exact ⟨_, popAs_of_popBool hb, rfl⟩
  by_cases hs : k = .skip
  · subst hs
    refine ⟨a.pop, rfl, ?_⟩
    unfold ArgReader.pop
    split_ifs
    · rw [setErr_of_err h]
    · rfl
  · refine ⟨a, popAs_of_precheck hk hs ?_, rfl⟩
    unfold ArgReader.precheck
    simp [setErr_of_err h, h]

theorem ArgReader.Remains.popAs_nil (h : a.Remains []) (k : Pop) :
    ∃ a', a.popAs k = .ok (a', k.zero) ∧ a'.err = .notEnoughArg := by
  have hle : a.msg.arguments.length ≤ a.argIdx := by
    have := h.length
    rw [List.length_nil] at this
    omega
  by_cases hk : k = .bool
  · subst hk
    have hb : a.popBool = ({ a.setErr .notEnoughArg with argIdx := a.argIdx + 1 }, false) := by
      unfold ArgReader.popBool
      rw [if_pos hle]
      rfl
    exact ⟨_, popAs_of_popBool hb, err_setErr h.err⟩
  by_cases hs : k = .skip
  · subst hs
    have hp : a.pop = a.setErr .notEnoughArg := if_pos hle
    exact ⟨a.pop, rfl, by rw [hp, err_setErr h.err]⟩
  · refine ⟨a.setErr .notEnoughArg, popAs_of_precheck hk hs ?_, err_setErr h.err⟩
    unfold ArgReader.precheck
    rw [if_pos hle]
    simp [err_setErr h.err]

theorem ArgReader.Remains.popAs_mismatch {c : Cell} {cs : List Cell} (h : a.Remains (c :: cs))
    (hs : k ≠ .skip) (hk : k ≠ c.pop) :
    ∃ a', a.popAs k = .ok (a', k.zero) ∧ a'.err = .typeMismatch := by
  by_cases hb : k = .bool
  · subst hb
    have hlen := h.length
    rw [List.length_cons] at hlen
    have htags : c.tag ≠ typeTagTrue ∧ c.tag ≠ typeTagFalse := by
      cases c with
      | none => exact ⟨by decide, by decide⟩
      | some v =>
        cases v with
        | bool b => exact absurd rfl hk
        | _ => exact ⟨nofun, nofun⟩
    have hpop : a.popBool = ({ a.setErr .typeMismatch with argIdx := a.argIdx + 1 }, false) := by
      unfold ArgReader.popBool
      rw [h.currentTypeTag, if_neg (by omega)]
      simp [h.currentTypeTag, htags, ArgReader.setErr]
    exact ⟨_, popAs_of_popBool hpop, err_setErr h.err⟩
  · have htag : c.tag ≠ k.tag := fun he => hk (pop_of_tag he).symm
    exact ⟨_, popAs_of_precheck hb hs (h.precheck_mismatch htag), err_setErr h.err⟩

end Fails

/-- The error at the end of a chain and what its pops store, or `none` where it leaves the
message. -/
def popsResult : List Cell → List Pop → Option (ErrorCode × List Datum)
  | _, [] => some (.okNoError, [])
  | [], k :: ks => some (.notEnoughArg, (k :: ks).map Pop.zero)
  | c :: cs, k :: ks =>
    if k = .skip then (popsResult cs ks).map fun r => (r.1, .nothing :: r.2)
    else if k = c.pop then c.bind fun v => (popsResult cs ks).map fun r => (r.1, v.datum :: r.2)
    else some (.typeMismatch, (k :: ks).map Pop.zero)

theorem pops_of_err (ks : List Pop) {a : ArgReader} (h : a.err ≠ .okNoError) :
    ∃ a', a.pops ks = .ok (a', ks.map Pop.zero) ∧ a'.err = a.err := by
  induction ks generalizing a with
  | nil => exact ⟨a, rfl, rfl⟩
  | cons k ks ih =>
    obtain ⟨a₁, h₁, herr₁⟩ := popAs_of_err h k
    obtain ⟨a₂, h₂, herr₂⟩ := ih (herr₁ ▸ h)
    refine ⟨a₂, ?_, herr₂.trans herr₁⟩
    simp only [ArgReader.pops, h₁, h₂, ok_bind, List.map_cons]

/-- A pop that fails gives the chain its error. -/
theorem pops_of_popAs_err {a a₁ : ArgReader} {k : Pop} {e : ErrorCode}
    (h : a.popAs k = .ok (a₁, k.zero)) (herr : a₁.err = e) (he : e ≠ .okNoError) (ks : List Pop) :
    ∃ a', a.pops (k :: ks) = .ok (a', (k :: ks).map Pop.zero) ∧ a'.err = e := by
  obtain ⟨a₂, h₂, herr₂⟩ := pops_of_err ks (herr.symm ▸ he)
  refine ⟨a₂, ?_, herr₂.trans herr⟩
  simp only [ArgReader.pops, h, h₂, ok_bind, List.map_cons]

/-- What a chain does on these arguments. -/
def Pops (a : ArgReader) (cs : List Cell) (ks : List Pop) : Prop :=
  match popsResult cs ks with
  | none => a.pops ks = .error .outOfBounds
  | some (e, ds) => ∃ a', a.pops ks = .ok (a', ds) ∧ a'.err = e ∧
      (e = .okNoError → a'.Remains (cs.drop ks.length))

/-- A pop that succeeds is followed by the rest of the chain. -/
theorem Pops.cons {a a₁ : ArgReader} {c : Cell} {cs : List Cell} {k : Pop} {ks : List Pop}
    {d : Datum} (hp : a.popAs k = .ok (a₁, d))
    (hr : popsResult (c :: cs) (k :: ks) = (popsResult cs ks).map fun r => (r.1, d :: r.2))
    (h : Pops a₁ cs ks) : Pops a (c :: cs) (k :: ks) := by
  unfold Pops at h ⊢
  rw [hr]
  cases hrest : popsResult cs ks with
  | none =>
    rw [hrest] at h
    simp only [Option.map_none, ArgReader.pops, hp, h, ok_bind, error_bind]
  | some r =>
    rw [hrest] at h
    obtain ⟨a', hpops, herr, hrem⟩ := h
    simp only [Option.map_some, ArgReader.pops, hp, hpops, ok_bind]
    exact ⟨a', rfl, herr, hrem⟩

/-- A chain pops the arguments in order up to the first that is not of the type it asks for. -/
theorem ArgReader.Remains.pops (ks : List Pop) {a : ArgReader} {cs : List Cell} (h : a.Remains cs) :
    Pops a cs ks := by
  induction ks generalizing a cs with
  | nil =>
    unfold Pops
    rw [popsResult]
    exact ⟨a, rfl, h.err, fun _ => h⟩
  | cons k ks ih =>
    cases cs with
    | nil =>
      obtain ⟨a₁, h₁, herr₁⟩ := h.popAs_nil k
      obtain ⟨a₂, h₂, herr₂⟩ := pops_of_popAs_err h₁ herr₁ (by decide) ks
      exact ⟨a₂, h₂, herr₂, fun hok => absurd hok (by decide)⟩
    | cons c cs =>
      obtain ⟨arg, -, -, hnext⟩ := h.argument
      by_cases hs : k = .skip
      · subst hs
        exact .cons h.skip (by rw [popsResult, if_pos rfl]) (ih hnext)
      by_cases hk : k = c.pop
      · subst hk
        cases c with
        | none =>
          have hp : a.popAs (Cell.pop none) = .error .outOfBounds := h.popAs_wrapping
          unfold Pops
          rw [popsResult, if_neg hs, if_pos rfl]
          simp only [Option.bind_none, ArgReader.pops, hp, error_bind]
        | some v =>
          refine .cons h.popAs ?_ (ih hnext)
          rw [popsResult, if_neg hs, if_pos rfl]
          rfl
      · obtain ⟨a₁, h₁, herr₁⟩ := h.popAs_mismatch hs hk
        obtain ⟨a₂, h₂, herr₂⟩ := pops_of_popAs_err h₁ herr₁ (by decide) ks
        unfold Pops
        rw [popsResult, if_neg hs, if_neg hk]
        exact ⟨a₂, h₂, herr₂, fun hok => absurd hok (by decide)⟩

/-- A chain that takes these arguments, each by its type or by skipping it, with what it
stores. -/
inductive TakesAll : List Cell → List Pop → List Datum → Prop
  | nil : TakesAll [] [] []
  | value {cs : List Cell} {ks : List Pop} {ds : List Datum} (v : Value) (h : TakesAll cs ks ds) :
      TakesAll (some v :: cs) (v.pop :: ks) (v.datum :: ds)
  | skip {cs : List Cell} {ks : List Pop} {ds : List Datum} (c : Cell) (h : TakesAll cs ks ds) :
      TakesAll (c :: cs) (.skip :: ks) (.nothing :: ds)

theorem Value.pop_ne_skip (v : Value) : v.pop ≠ .skip := by
  cases v <;> nofun

theorem takesAll_values (vs : List Value) :
    TakesAll (vs.map some) (vs.map Value.pop) (vs.map Value.datum) := by
  induction vs with
  | nil => exact .nil
  | cons v vs ih => exact .value v ih

/-- Without skipping, all the arguments are values of the types asked for. -/
theorem TakesAll.values {cs : List Cell} {ks : List Pop} {ds : List Datum} (h : TakesAll cs ks ds)
    (hks : Pop.skip ∉ ks) : ∃ vs : List Value, cs = vs.map some ∧ ks = vs.map Value.pop ∧
      ds = vs.map Value.datum := by
  induction h with
  | nil => exact ⟨[], rfl, rfl, rfl⟩
  | value v h ih =>
    obtain ⟨vs, rfl, rfl, rfl⟩ := ih fun hmem => hks (List.mem_cons_of_mem _ hmem)
    exact ⟨v :: vs, rfl, rfl, rfl⟩
  | skip c h ih => exact absurd List.mem_cons_self hks

theorem TakesAll.length_eq {cs : List Cell} {ks : List Pop} {ds : List Datum}
    (h : TakesAll cs ks ds) : cs.length = ks.length := by
  induction h with
  | nil => rfl
  | value v h ih => rw [List.length_cons, List.length_cons, ih]
  | skip c h ih => rw [List.length_cons, List.length_cons, ih]

theorem TakesAll.popsResult {cs : List Cell} {ks : List Pop} {ds : List Datum}
    (h : TakesAll cs ks ds) : popsResult cs ks = some (.okNoError, ds) := by
  induction h with
  | nil => rfl
  | value v h ih =>
    have hk : v.pop = Cell.pop (some v) := rfl
    rw [Oscpkt.popsResult, if_neg v.pop_ne_skip, if_pos hk, ih]
    rfl
  | skip c h ih =>
    rw [Oscpkt.popsResult, if_pos rfl, ih]
    rfl

/-- A chain without an error has taken the arguments in front of those that are left. -/
theorem takesAll_of_popsResult {cs : List Cell} {ks : List Pop} {ds : List Datum}
    (h : popsResult cs ks = some (.okNoError, ds)) :
    ∃ taken, cs = taken ++ cs.drop ks.length ∧ TakesAll taken ks ds := by
  induction ks generalizing cs ds with
  | nil =>
    rw [popsResult] at h
    obtain rfl := (Prod.mk.inj (Option.some.inj h)).2
    exact ⟨[], rfl, .nil⟩
  | cons k ks ih =>
    cases cs with
    | nil =>
      rw [popsResult] at h
      cases h
    | cons c cs =>
      rw [popsResult] at h
      by_cases hs : k = .skip
      · subst hs
        rw [if_pos rfl, Option.map_eq_some_iff] at h
        obtain ⟨⟨e, ds'⟩, hr, hds⟩ := h
        obtain ⟨rfl, rfl⟩ := Prod.mk.inj hds
        obtain ⟨taken, hcs, htaken⟩ := ih hr
        refine ⟨c :: taken, ?_, .skip c htaken⟩
        rw [List.length_cons, List.drop_succ_cons, List.cons_append, ← hcs]
      rw [if_neg hs] at h
      by_cases hk : k = c.pop
      · rw [if_pos hk] at h
        cases c with
        | none => cases h
        | some v =>
          simp only [Option.bind_some, Option.map_eq_some_iff] at h
          obtain ⟨⟨e, ds'⟩, hr, hds⟩ := h
          obtain ⟨rfl, rfl⟩ := Prod.mk.inj hds
          obtain ⟨taken, hcs, htaken⟩ := ih hr
          subst hk
          refine ⟨some v :: taken, ?_, .value v htaken⟩
          rw [List.length_cons, List.drop_succ_cons, List.cons_append, ← hcs]
      · rw [if_neg hk] at h
        cases h

theorem ArgReader.Remains.isOkNoMoreArgs {a : ArgReader} {cs : List Cell} (h : a.Remains cs) :
    a.isOkNoMoreArgs = true ↔ cs = [] := by
  unfold ArgReader.isOkNoMoreArgs
  rw [h.nbArgRemaining]
  simp [h.err]

/-- The check at the end of a chain holds exactly when the chain has taken all the arguments,
and their values are then what it stored. -/
theorem ArgReader.Remains.isOkNoMoreArgs_iff {a a' : ArgReader} {cs : List Cell} (h : a.Remains cs)
    {ks : List Pop} {ds : List Datum} (hp : a.pops ks = .ok (a', ds)) :
    a'.isOkNoMoreArgs = true ↔ TakesAll cs ks ds := by
  have hks := h.pops ks
  unfold Pops at hks
  cases hr : popsResult cs ks with
  | none =>
    rw [hr] at hks
    exact absurd (hks.symm.trans hp) (by simp)
  | some r =>
    obtain ⟨e, ds'⟩ := r
    rw [hr] at hks
    obtain ⟨a₁, hp₁, herr, hrem⟩ := hks
    obtain ⟨rfl, rfl⟩ := Prod.mk.inj (Except.ok.inj (hp₁.symm.trans hp))
    constructor
    · intro hok
      by_cases he : e = .okNoError
      · subst he
        have hdrop := (hrem rfl).isOkNoMoreArgs.mp hok
        obtain ⟨taken, hcs, htaken⟩ := takesAll_of_popsResult hr
        rw [hdrop, List.append_nil] at hcs
        exact hcs ▸ htaken
      · rw [isOkNoMoreArgs_of_err (herr.symm ▸ he)] at hok
        cases hok
    · intro htakes
      rw [htakes.popsResult] at hr
      obtain ⟨rfl, -⟩ := Prod.mk.inj (Option.some.inj hr)
      rw [(hrem rfl).isOkNoMoreArgs]
      exact List.drop_eq_nil_of_le (Nat.le_of_eq htakes.length_eq)

/-- What the tests of the printing loop find. -/
theorem ArgReader.Remains.isTag {a : ArgReader} {c : Cell} {cs : List Cell}
    (h : a.Remains (c :: cs)) (tag : UInt8) : a.isTag tag = (a, decide (c.tag = tag)) := by
  unfold ArgReader.isTag
  rw [h.currentTypeTag]
  simp

theorem ArgReader.Remains.nextPop {a : ArgReader} {c : Cell} {cs : List Cell}
    (h : a.Remains (c :: cs)) : a.nextPop = (a, some c.pop) := by
  have htag := h.isTag
  unfold ArgReader.nextPop ArgReader.isBool
  cases c with
  | none => simp +decide [htag, Cell.pop]
  | some v =>
    cases v with
    | bool b => cases b <;> simp +decide [htag, Cell.pop, Value.pop]
    | _ => simp +decide [htag, Cell.tag, Value.tag, Cell.pop, Value.pop]

/-- The printing loop pops every argument, up to a blob of wrapping size. -/
theorem ArgReader.Remains.printArgs {a : ArgReader} {cs : List Cell} (h : a.Remains cs) :
    (∃ (vs : List Value) (a' : ArgReader), cs = vs.map some ∧
      ArgReader.printArgs (cs.length + 1) a = .ok (a', vs.map Value.datum) ∧
      a'.isOkNoMoreArgs = true) ∨
    (none ∈ cs ∧ ArgReader.printArgs (cs.length + 1) a = .error .outOfBounds) := by
  induction cs generalizing a with
  | nil =>
    refine .inl ⟨[], a, rfl, ?_, h.isOkNoMoreArgs.mpr rfl⟩
    rw [ArgReader.printArgs, if_neg (by simp [h.nbArgRemaining])]
    rfl
  | cons c cs ih =>
    have hmore : a.nbArgRemaining ≠ 0 ∧ a.err = .okNoError := by
      rw [h.nbArgRemaining]
      exact ⟨by simp, h.err⟩
    rw [List.length_cons, ArgReader.printArgs, if_pos hmore, h.nextPop]
    cases c with
    | none =>
      have hp : a.popAs (Cell.pop none) = .error .outOfBounds := h.popAs_wrapping
      exact .inr ⟨List.mem_cons_self, by simp only [hp, error_bind]⟩
    | some v =>
      have hp : a.popAs (Cell.pop (some v)) = _ := h.popAs
      obtain ⟨arg, -, -, hnext⟩ := h.argument
      simp only [hp, ok_bind]
      rcases ih hnext with ⟨vs, a', rfl, hprint, hok⟩ | ⟨hmem, hprint⟩
      · exact .inl ⟨v :: vs, a', rfl, by rw [hprint]; rfl, hok⟩
      · exact .inr ⟨List.mem_cons_of_mem _ hmem, by rw [hprint]; rfl⟩

/-- A message without an error with these arguments. -/
structure Message.HasCells (msg : Message) (cs : List Cell) : Prop where
  err : msg.err = .okNoError
  typeTags : msg.typeTags = cs.map Cell.tag
  arguments : List.Forall₂ (StoredCell msg.storage) cs msg.arguments

theorem Message.HasCells.remains {msg : Message} {cs : List Cell} (h : msg.HasCells cs) :
    msg.arg.Remains cs := ⟨h.err, Nat.zero_le _, h.typeTags, h.arguments⟩

theorem Message.Holds.hasCells {msg : Message} {vs : List Value} (h : msg.Holds vs) :
    msg.HasCells (vs.map some) where
  err := h.err
  typeTags := by
    rw [h.typeTags, List.map_map]
    rfl
  arguments := by
    rw [List.forall₂_map_left_iff]
    exact h.arguments.imp fun _ _ hv => .value hv

/-- The argument loop reads these type tags as arguments that it stores. The flag says
whether one of them is a blob of wrapping size. -/
def ReadsCells (w : Bool) (tags : List UInt8) (msg : Message) (p : ℕ) : Prop :=
  ∃ cs args, Message.readArgs tags msg p =
      .ok ({ msg with arguments := msg.arguments ++ args }, msg.storage.length, []) ∧
    tags = cs.map Cell.tag ∧ List.Forall₂ (StoredCell msg.storage) cs args ∧
    (w = true ↔ none ∈ cs)

theorem ReadsCells.value {w : Bool} {tags bs : List UInt8} {msg : Message} {pre : List UInt8}
    (hpre : pre.length % 4 = 0) (herr : msg.err = .okNoError) (x : Value)
    (hs : msg.storage = pre ++ (x.encode ++ bs))
    (h : ReadsCells w tags (msg.pushArgument pre.length x.size) (pre ++ x.encode).length) :
    ReadsCells w (x.tag :: tags) msg pre.length := by
  obtain ⟨cs, args, hr, rfl, hstored, hw⟩ := h
  have hget := getArgSize_value hpre herr x hs
  refine ⟨some x :: cs, (pre.length, x.size) :: args, ?_, rfl, .cons (.value (.bytes hs)) hstored,
    by simpa using hw⟩
  rw [readArgs_step herr hs hget x.encode_length.symm, hr]
  simp [Message.pushArgument]

theorem readArgs_cells {w : Bool} {tags bs : List UInt8} (h : Args w tags bs) (msg : Message)
    (pre : List UInt8) (hpre : pre.length % 4 = 0) (herr : msg.err = .okNoError)
    (hs : msg.storage = pre ++ bs) : ReadsCells w tags msg pre.length := by
  have hvalue : ∀ (x : Value) {w : Bool} {tags bs : List UInt8},
      (∀ (msg : Message) (pre : List UInt8), pre.length % 4 = 0 → msg.err = .okNoError →
        msg.storage = pre ++ bs → ReadsCells w tags msg pre.length) →
      ∀ (msg : Message) (pre : List UInt8), pre.length % 4 = 0 → msg.err = .okNoError →
        msg.storage = pre ++ (x.encode ++ bs) → ReadsCells w (x.tag :: tags) msg pre.length := by
    intro x w tags bs ih msg pre hpre herr hs
    have hal := x.encode_aligned
    exact .value hpre herr x hs (ih _ (pre ++ x.encode) (by rw [List.length_append]; omega) herr
      (by simp [hs]))
  induction h generalizing msg pre with
  | nil =>
    have hl : pre.length = msg.storage.length := by simp [hs]
    exact ⟨[], [], by simp [Message.readArgs, hl], rfl, .nil, by simp⟩
  | fixed size _ ih =>
    obtain ⟨x, rfl, rfl⟩ := value_of_fixed size
    exact hvalue x ih msg pre hpre herr hs
  | string nul _ ih => exact hvalue (.str ⟨_, nul⟩) ih msg pre hpre herr hs
  | blob size _ ih => exact hvalue (.blob ⟨_, size⟩) ih msg pre hpre herr hs
  | @wrapping w tags bs more ih =>
    have hs' : msg.storage = pre ++ ([] ++ (wrappingSize ++ bs)) := by simp [hs]
    obtain ⟨cs, args, hr, rfl, hstored, -⟩ := ih (msg.pushArgument pre.length 0) pre hpre herr hs
    refine ⟨none :: cs, (pre.length, 0) :: args, ?_, rfl, .cons (.wrapping hs) hstored, by simp⟩
    rw [readArgs_step herr hs' (getArgSize_wrapping hpre herr hs) rfl, List.append_nil, hr]
    simp [Message.pushArgument]

/-- A message of the grammar is read with its arguments. -/
theorem ofRawData_cells {w : Bool} {d : List UInt8} {c : Content} (h : IsMessage w d c)
    (timeTag : ℕ) : ∃ msg cs, Message.ofRawData d timeTag = .ok msg ∧ msg.HasCells cs ∧
      (w = true ↔ none ∈ cs) := by
  have hd := h.bytes
  have hal : (padded c.address).length % 4 = 0 := by
    rw [padded_length]
    exact ceil4_mod _
  have hpre : (padded c.address ++ padded (44 :: c.typeTags)).length % 4 = 0 := by
    have := ceil4_mod ((44 :: c.typeTags).length + 1)
    rw [List.length_append, padded_length (44 :: c.typeTags)]
    omega
  obtain ⟨cs, args, hr, htags, hstored, hw⟩ := readArgs_cells h.args
    ⟨1, c.address, c.typeTags, [], d, .okNoError⟩ _ hpre rfl (by simp [hd])
  refine ⟨⟨timeTag, c.address, c.typeTags, args, d, .okNoError⟩, cs, ?_, ⟨rfl, htags, hstored⟩, hw⟩
  unfold Message.ofRawData
  rw [buildFromRawData_padded hd h.slash h.address_nul, readTypeTags_padded hal hd h.tags_nul]
  simp only [Message.clear, hr, ok_bind]
  simp

/-- Every message of a reader was built from a part of the packet. -/
def PacketReader.Built (pr : PacketReader) : Prop :=
  ∀ msg ∈ pr.messages, ∃ d timeTag, d.length % 4 = 0 ∧ Message.ofRawData d timeTag = .ok msg

theorem PacketReader.Built.add {pr : PacketReader} (h : pr.Built) {d : List UInt8} {timeTag : ℕ}
    {msg : Message} (hd : d.length % 4 = 0) (hm : Message.ofRawData d timeTag = .ok msg) :
    PacketReader.Built { pr with messages := pr.messages ++ [msg] } := by
  intro m hmem
  rcases List.mem_append.mp hmem with hmem | hmem
  · exact h m hmem
  · obtain rfl := List.mem_singleton.mp hmem
    exact ⟨d, timeTag, hd, hm⟩

theorem assert_eq_ok {p : Prop} [Decidable p] (h : assert p = .ok ()) : p := by
  unfold assert at h
  split at h
  · assumption
  · cases h

mutual
theorem parse_built : ∀ (fuel : ℕ) (range : List UInt8) (timeTag : ℕ) (pr pr' : PacketReader),
    PacketReader.parse fuel range timeTag pr = .ok pr' → pr.Built → pr'.Built
  | 0, _, _, _, _, h, _ => by
    rw [PacketReader.parse] at h
    cases h
  | fuel + 1, range, timeTag, pr, pr', h, hpr => by
    rw [PacketReader.parse] at h
    obtain ⟨-, -, h⟩ := bind_eq_ok.mp h
    obtain ⟨⟨⟩, hal, h⟩ := bind_eq_ok.mp h
    split at h
    · obtain rfl := Except.ok.inj h
      exact hpr
    obtain ⟨first, -, h⟩ := bind_eq_ok.mp h
    split at h
    · split at h
      · obtain ⟨timeTag', -, h⟩ := bind_eq_ok.mp h
        exact bundleLoop_built fuel _ _ pr pr' h hpr
      · obtain rfl := Except.ok.inj h
        exact hpr
    · obtain ⟨msg, hmsg, h⟩ := bind_eq_ok.mp h
      obtain rfl := Except.ok.inj h
      have hadd := hpr.add (assert_eq_ok hal) hmsg
      split
      · exact hadd
      · exact hadd

theorem bundleLoop_built : ∀ (fuel : ℕ) (rest : List UInt8) (timeTag : ℕ) (pr pr' : PacketReader),
    PacketReader.bundleLoop fuel rest timeTag pr = .ok pr' → pr.Built → pr'.Built
  | 0, _, _, _, _, h, _ => by
    rw [PacketReader.bundleLoop] at h
    cases h
  | fuel + 1, rest, timeTag, pr, pr', h, hpr => by
    rw [PacketReader.bundleLoop] at h
    obtain ⟨sz, -, h⟩ := bind_eq_ok.mp h
    simp only at h
    split at h
    · obtain rfl := Except.ok.inj h
      exact hpr
    obtain ⟨pr₁, h₁, h⟩ := bind_eq_ok.mp h
    have hpr₁ := parse_built fuel _ timeTag pr pr₁ h₁ hpr
    split at h
    · exact bundleLoop_built fuel _ timeTag pr₁ pr' h hpr₁
    · obtain rfl := Except.ok.inj h
      exact hpr₁
end

/-- The arguments of an accepted message. -/
theorem init_hasCells {d : List UInt8} {pr : PacketReader} (h : PacketReader.init d = .ok pr)
    (hok : pr.isOk = true) {msg : Message} (hm : msg ∈ pr.messages) : ∃ cs, msg.HasCells cs := by
  have hbuilt : pr.Built := by
    unfold PacketReader.init at h
    split at h
    · exact parse_built _ d 1 .empty pr h fun m hmem => absurd hmem List.not_mem_nil
    · obtain rfl := Except.ok.inj h
      exact fun m hmem => absurd hmem List.not_mem_nil
  obtain ⟨e, timeTag, he, hraw⟩ := hbuilt msg hm
  obtain ⟨v, e', c', -, hrep⟩ := init_message h hok hm
  obtain ⟨msg', hraw', hsound⟩ := ofRawData_total he timeTag
  obtain rfl := Except.ok.inj (hraw'.symm.trans hraw)
  obtain ⟨w, c, hmsg⟩ := hsound hrep.err
  obtain ⟨msg'', cs, hraw'', hcells, -⟩ := ofRawData_cells hmsg timeTag
  obtain rfl := Except.ok.inj (hraw''.symm.trans hraw)
  exact ⟨cs, hcells⟩

/-- For the messages of an accepted packet, whatever chain of pops is called: it pops or skips
the arguments in order, sets the error of the first pop that does not fit, and leaves the message
only at a blob of wrapping size. Its final check holds exactly when it took all the arguments,
each by its type or by skipping it. -/
theorem accepted_pops {d : List UInt8} {pr : PacketReader} (h : PacketReader.init d = .ok pr)
    (hok : pr.isOk = true) {msg : Message} (hm : msg ∈ pr.messages) :
    ∃ cs : List Cell, msg.HasCells cs ∧ ∀ ks, match popsResult cs ks with
      | none => msg.arg.pops ks = .error .outOfBounds
      | some (e, ds) => ∃ a, msg.arg.pops ks = .ok (a, ds) ∧ a.err = e ∧
          (a.isOkNoMoreArgs = true ↔ TakesAll cs ks ds) := by
  obtain ⟨cs, hcs⟩ := init_hasCells h hok hm
  refine ⟨cs, hcs, fun ks => ?_⟩
  have hks := hcs.remains.pops ks
  unfold Pops at hks
  split at hks
  · exact hks
  · obtain ⟨a, hp, herr, -⟩ := hks
    exact ⟨a, hp, herr, hcs.remains.isOkNoMoreArgs_iff hp⟩

/-- `/a` with the integer 5 and the string `hi`, as it is read. -/
def greeting : Message :=
  ⟨1, [47, 97], [105, 115], [(8, 4), (12, 3)],
    [47, 97, 0, 0, 44, 105, 115, 0, 0, 0, 0, 5, 104, 105, 0, 0], .okNoError⟩

theorem accepted_pops_greeting : ∃ cs : List Cell, greeting.HasCells cs ∧
    ∀ ks, match popsResult cs ks with
      | none => greeting.arg.pops ks = .error .outOfBounds
      | some (e, ds) => ∃ a, greeting.arg.pops ks = .ok (a, ds) ∧ a.err = e ∧
          (a.isOkNoMoreArgs = true ↔ TakesAll cs ks ds) :=
  have hinit : PacketReader.init greeting.storage = .ok ⟨[greeting], .okNoError⟩ := by rfl
  accepted_pops hinit rfl (List.mem_singleton.mpr rfl)

/-- A message of an accepted packet is printed with all its arguments, or has a blob of
wrapping size, at which the printing leaves the message. -/
theorem accepted_print {d : List UInt8} {pr : PacketReader} (h : PacketReader.init d = .ok pr)
    (hok : pr.isOk = true) {msg : Message} (hm : msg ∈ pr.messages) :
    ∃ cs : List Cell, msg.HasCells cs ∧
      ((∃ (vs : List Value) (a : ArgReader), cs = vs.map some ∧
        msg.print = .ok (a, vs.map Value.datum) ∧ a.isOkNoMoreArgs = true) ∨
      (none ∈ cs ∧ msg.print = .error .outOfBounds)) := by
  obtain ⟨cs, hcs⟩ := init_hasCells h hok hm
  refine ⟨cs, hcs, ?_⟩
  have hprint := hcs.remains.printArgs
  rw [hcs.arguments.length_eq] at hprint
  exact hprint

/-- `/a` with a blob whose size is 2^32-4 and an integer at the same place, as it is read. -/
def wrapped : Message :=
  ⟨1, [47, 97], [98, 105], [(8, 0), (8, 4)],
    [47, 97, 0, 0, 44, 98, 105, 0, 255, 255, 255, 252], .okNoError⟩

theorem accepted_print_wrapped : ∃ cs : List Cell, wrapped.HasCells cs ∧
    ((∃ (vs : List Value) (a : ArgReader), cs = vs.map some ∧
      wrapped.print = .ok (a, vs.map Value.datum) ∧ a.isOkNoMoreArgs = true) ∨
    (none ∈ cs ∧ wrapped.print = .error .outOfBounds)) :=
  have hinit : PacketReader.init wrapped.storage = .ok ⟨[wrapped], .okNoError⟩ := by rfl
  accepted_print hinit rfl (List.mem_singleton.mpr rfl)

end Moodpd.Oscpkt
