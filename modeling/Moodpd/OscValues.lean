import Moodpd.OscPacketRefinement

/-!
# Argument values

The values that the arguments of a message stand for, the bytes that encode them, and what
it means that a message holds them. Numbers are their bits.
-/
namespace Moodpd.Oscpkt
open Memory

/-- The bytes of a string argument. -/
@[ext] structure Text where
  bytes : List UInt8
  nul : 0 ∉ bytes
  deriving DecidableEq, Repr

/-- The bytes of a blob whose size and size field together are a 32-bit number. -/
@[ext] structure BlobData where
  bytes : List UInt8
  size : bytes.length + 4 < 2 ^ 32
  deriving DecidableEq, Repr

inductive Value
  | bool (b : Bool)
  | int32 (i : BitVec 32)
  | int64 (h : BitVec 64)
  | float (f : BitVec 32)
  | double (d : BitVec 64)
  | str (s : Text)
  | blob (b : BlobData)
  deriving DecidableEq, Repr

namespace Value

def tag : Value → UInt8
  | bool b => if b then typeTagTrue else typeTagFalse
  | int32 _ => typeTagInt32
  | int64 _ => typeTagInt64
  | float _ => typeTagFloat
  | double _ => typeTagDouble
  | str _ => typeTagString
  | blob _ => typeTagBlob

/-- The bytes of the argument, without the zeros that pad it. -/
def size : Value → ℕ
  | bool _ => 0
  | int32 _ => 4
  | int64 _ => 8
  | float _ => 4
  | double _ => 8
  | str s => s.bytes.length + 1
  | blob b => b.bytes.length + 4

def encode : Value → List UInt8
  | bool _ => []
  | int32 i => toBigEndian 4 i.toNat
  | int64 h => toBigEndian 8 h.toNat
  | float f => toBigEndian 4 f.toNat
  | double d => toBigEndian 8 d.toNat
  | str s => padded s.bytes
  | blob b => Oscpkt.blob b.bytes

@[simp] theorem encode_length (v : Value) : v.encode.length = ceil4 v.size := by
  cases v with
  | blob b =>
    have h := ceil4_add (rfl : 4 % 4 = 0) b.bytes.length
    rw [encode, blob_length, size, Nat.add_comm b.bytes.length, h]
  | _ => simp [encode, size, ceil4]

theorem encode_aligned (v : Value) : v.encode.length % 4 = 0 := by
  rw [encode_length]
  exact ceil4_mod _

theorem tag_ne_nul (v : Value) : v.tag ≠ 0 := by
  cases v with
  | bool b => cases b <;> decide
  | _ =>
    simp only [tag]
    decide

end Value

def encodeValues (vs : List Value) : List UInt8 := vs.flatMap Value.encode

@[simp] theorem encodeValues_nil : encodeValues [] = [] := rfl

@[simp] theorem encodeValues_cons (v : Value) (vs : List Value) :
    encodeValues (v :: vs) = v.encode ++ encodeValues vs := rfl

theorem encodeValues_append (vs ws : List Value) :
    encodeValues (vs ++ ws) = encodeValues vs ++ encodeValues ws := List.flatMap_append

theorem encodeValues_aligned (vs : List Value) : (encodeValues vs).length % 4 = 0 := by
  induction vs with
  | nil => rfl
  | cons v vs ih =>
    have := v.encode_aligned
    rw [encodeValues_cons, List.length_append]
    omega

theorem bits_of_bytes {width : ℕ} {v : List UInt8} (h : v.length = width) :
    ∃ bits : BitVec (8 * width), v = toBigEndian width bits.toNat := by
  have hlt : bigEndian v < 2 ^ (8 * width) := by
    have := bigEndian_lt v
    rw [h, show (256 : ℕ) = 2 ^ 8 from rfl, ← pow_mul] at this
    exact this
  refine ⟨BitVec.ofNat _ (bigEndian v), ?_⟩
  rw [BitVec.toNat_ofNat, Nat.mod_eq_of_lt hlt, ← h, toBigEndian_bigEndian]

/-- The bytes of a fixed-size argument are those of a value. -/
theorem value_of_fixed {tag : UInt8} {v : List UInt8} (h : fixedSize tag = some v.length) :
    ∃ x : Value, x.tag = tag ∧ x.encode = v := by
  rcases fixedSize_cases h with ⟨ht, hv⟩ | ⟨ht, hv⟩ | ⟨ht, hv⟩
  · obtain rfl := List.length_eq_zero_iff.mp hv
    rcases ht with rfl | rfl
    · exact ⟨.bool true, rfl, rfl⟩
    · exact ⟨.bool false, rfl, rfl⟩
  · obtain ⟨bits, rfl⟩ := bits_of_bytes hv
    rcases ht with rfl | rfl
    · exact ⟨.int32 bits, rfl, rfl⟩
    · exact ⟨.float bits, rfl, rfl⟩
  · obtain ⟨bits, rfl⟩ := bits_of_bytes hv
    rcases ht with rfl | rfl
    · exact ⟨.int64 bits, rfl, rfl⟩
    · exact ⟨.double bits, rfl, rfl⟩

/-- The arguments of OSC 1.0 are the encodings of values. -/
theorem values_of_args {w : Bool} {tags bs : List UInt8} (h : Args w tags bs) (hw : w = false) :
    ∃ vs : List Value, tags = vs.map Value.tag ∧ bs = encodeValues vs := by
  induction h with
  | nil => exact ⟨[], rfl, rfl⟩
  | fixed size _ ih =>
    obtain ⟨vs, rfl, rfl⟩ := ih hw
    obtain ⟨x, rfl, rfl⟩ := value_of_fixed size
    exact ⟨x :: vs, rfl, rfl⟩
  | string nul _ ih =>
    obtain ⟨vs, rfl, rfl⟩ := ih hw
    exact ⟨.str ⟨_, nul⟩ :: vs, rfl, rfl⟩
  | blob size _ ih =>
    obtain ⟨vs, rfl, rfl⟩ := ih hw
    exact ⟨.blob ⟨_, size⟩ :: vs, rfl, rfl⟩
  | wrapping => cases hw

/-- What an argument's position in the storage says of its value. The position of a boolean
is never read. -/
inductive StoredAt (storage : List UInt8) : Value → ℕ × ℕ → Prop
  | bool (b : Bool) (arg : ℕ × ℕ) : StoredAt storage (.bool b) arg
  | bytes {v : Value} {pre post : List UInt8} (h : storage = pre ++ (v.encode ++ post)) :
      StoredAt storage v (pre.length, v.size)

theorem StoredAt.append {storage : List UInt8} {v : Value} {arg : ℕ × ℕ}
    (h : StoredAt storage v arg) (more : List UInt8) : StoredAt (storage ++ more) v arg := by
  cases h with
  | bool b arg => exact .bool b arg
  | bytes h => exact .bytes (by rw [h, List.append_assoc, List.append_assoc])

/-- A message without an error whose arguments are these values, in order. -/
structure Message.Holds (msg : Message) (vs : List Value) : Prop where
  err : msg.err = .okNoError
  typeTags : msg.typeTags = vs.map Value.tag
  arguments : List.Forall₂ (StoredAt msg.storage) vs msg.arguments

section Reading
variable {msg : Message} {pre : List UInt8} (hpre : pre.length % 4 = 0)
  (herr : msg.err = .okNoError)
include hpre herr

theorem getArgSize_value (v : Value) {bs : List UInt8} (hs : msg.storage = pre ++ (v.encode ++ bs)) :
    msg.getArgSize v.tag pre.length = .ok (msg, v.size) := by
  have hfixed : ∀ width n : ℕ, v.encode = toBigEndian width n → v.size = width →
      fixedSize v.tag = some width → msg.getArgSize v.tag pre.length = .ok (msg, v.size) := by
    intro width n he hsize htag
    have := getArgSize_fixed hpre herr hs (by rw [htag, he, toBigEndian_length])
    rw [this, he, toBigEndian_length, hsize]
  cases v with
  | bool b => cases b <;> exact hfixed 0 0 rfl rfl rfl
  | int32 i => exact hfixed 4 _ rfl rfl rfl
  | int64 h => exact hfixed 8 _ rfl rfl rfl
  | float f => exact hfixed 4 _ rfl rfl rfl
  | double d => exact hfixed 8 _ rfl rfl rfl
  | str s => exact getArgSize_string hpre herr hs s.nul
  | blob b =>
    have hget := getArgSize_blob hpre herr hs b.size
    rw [Nat.add_comm] at hget
    exact hget

end Reading

/-- The argument loop stores the values behind the part already read. -/
theorem readArgs_values (vs : List Value) (msg : Message) (pre more : List UInt8)
    (hpre : pre.length % 4 = 0) (herr : msg.err = .okNoError)
    (hs : msg.storage = pre ++ (encodeValues vs ++ more)) :
    ∃ args, Message.readArgs (vs.map Value.tag) msg pre.length =
        .ok ({ msg with arguments := msg.arguments ++ args }, (pre ++ encodeValues vs).length, []) ∧
      List.Forall₂ (StoredAt msg.storage) vs args := by
  induction vs generalizing msg pre with
  | nil => exact ⟨[], by simp [Message.readArgs], .nil⟩
  | cons v vs ih =>
    rw [encodeValues_cons, List.append_assoc] at hs
    have hv := v.encode_aligned
    have hget := getArgSize_value hpre herr v hs
    obtain ⟨args, hr, hstored⟩ := ih (msg.pushArgument pre.length v.size) (pre ++ v.encode)
      (by rw [List.length_append]; omega) herr (by simp [hs])
    refine ⟨(pre.length, v.size) :: args, ?_, .cons (.bytes hs) hstored⟩
    rw [List.map_cons, readArgs_step herr hs hget v.encode_length.symm, hr]
    simp [Message.pushArgument]

end Moodpd.Oscpkt
