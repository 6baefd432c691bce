import Moodpd.OscValues

/-!
# Writing one OSC message

`Storage::getBytes` and the functions of `oscpkt::Message` that build a message and pack it
into the storage of a packet. Every byte is written through a checked access.
-/
namespace Moodpd.Oscpkt
open Memory

/-- `Storage::getBytes`, with the storage after it. The storage grows by zeros, and the
first of the new bytes has to exist. -/
def getBytes (data : List UInt8) (sz : ℕ) : Checked (ℕ × List UInt8) := do
  assert (data.length % 4 = 0)
  let sz4 := ceil4 sz
  let pos := data.length
  let data := data ++ List.replicate sz4 0
  if pos < data.length then .ok (pos, data) else .error .outOfBounds

/-- `strcpy(p, s.c_str())`. -/
def strcpy (data : List UInt8) (p : ℕ) (s : List UInt8) : Checked (List UInt8) := do
  let s ← cstring (s ++ [0])
  writeRange data p (s ++ [0])

/-- `pod2bytes(value, p)` of a type with this many bytes. -/
def pod2bytes (width value : ℕ) (data : List UInt8) (p : ℕ) : Checked (List UInt8) :=
  writeRange data p (toBigEndian width value)

/-- `memcpy(s.getBytes(n), ptr, n)`, done where there are bytes to copy. -/
def copyBytes (data bytes : List UInt8) : Checked (List UInt8) :=
  if bytes.length ≠ 0 then do
    let (p, data) ← getBytes data bytes.length
    writeRange data p bytes
  else .ok data

theorem getBytes_of_aligned {data : List UInt8} {sz : ℕ} (h : data.length % 4 = 0)
    (hsz : 0 < sz) : getBytes data sz = .ok (data.length, data ++ List.replicate (ceil4 sz) 0) := by
  have hpos : data.length < (data ++ List.replicate (ceil4 sz) 0).length := by
    have := le_ceil4 sz
    rw [List.length_append, List.length_replicate]
    omega
  unfold getBytes
  rw [assert_of h, ok_bind, if_pos hpos]

/-- Bytes written over new zeros leave those behind them. -/
theorem writeRange_fresh (data : List UInt8) {bs : List UInt8} {n : ℕ} (h : bs.length ≤ n) :
    writeRange (data ++ List.replicate n 0) data.length bs =
      .ok (data ++ (bs ++ List.replicate (n - bs.length) 0)) := by
  have hn : List.replicate n (0 : UInt8) =
      List.replicate bs.length 0 ++ List.replicate (n - bs.length) 0 := by
    rw [List.replicate_append_replicate, Nat.add_sub_cancel' h]
  rw [hn]
  exact writeRange_append rfl (List.length_replicate ..) _

/-- What `strcpy` leaves in the bytes taken for a string: the string up to its first NUL,
and zeros. -/
def slot (s : List UInt8) : List UInt8 :=
  s.takeWhile (· ≠ 0) ++ 0 ::
    List.replicate (ceil4 (s.length + 1) - ((s.takeWhile (· ≠ 0)).length + 1)) 0

theorem takeWhile_length_le (s : List UInt8) : (s.takeWhile (· ≠ 0)).length ≤ s.length :=
  (List.takeWhile_prefix _).length_le

@[simp] theorem slot_length (s : List UInt8) : (slot s).length = ceil4 (s.length + 1) := by
  have h₁ := takeWhile_length_le s
  have h₂ := le_ceil4 (s.length + 1)
  simp only [slot, List.length_append, List.length_cons, List.length_replicate]
  omega

theorem slot_of_nul {s : List UInt8} (h : 0 ∉ s) : slot s = padded s := by
  have hs : s.takeWhile (· ≠ 0) = s := by
    rw [List.takeWhile_eq_self_iff]
    intro b hb
    exact decide_eq_true fun h0 => h (h0 ▸ hb)
  rw [slot, hs, padded]

theorem cstring_nul (s : List UInt8) : cstring (s ++ [0]) = .ok (s.takeWhile (· ≠ 0)) := by
  induction s with
  | nil => rfl
  | cons b s ih =>
    by_cases hb : b = 0
    · simp [cstring, hb]
    · simp [cstring, hb, ih]

/-- A string is stored in its own slot. -/
theorem strcpy_fresh (data s : List UInt8) :
    strcpy (data ++ List.replicate (ceil4 (s.length + 1)) 0) data.length s =
      .ok (data ++ slot s) := by
  have hle : (s.takeWhile (· ≠ 0) ++ [0]).length ≤ ceil4 (s.length + 1) := by
    have := takeWhile_length_le s
    have := le_ceil4 (s.length + 1)
    rw [List.length_append, List.length_singleton]
    omega
  unfold strcpy
  rw [cstring_nul, ok_bind, writeRange_fresh data hle]
  simp [slot]

theorem copyBytes_of_aligned {data : List UInt8} (h : data.length % 4 = 0) (bytes : List UInt8) :
    copyBytes data bytes =
      .ok (data ++ (bytes ++ List.replicate (ceil4 bytes.length - bytes.length) 0)) := by
  unfold copyBytes
  by_cases h0 : bytes.length = 0
  · obtain rfl := List.length_eq_zero_iff.mp h0
    simp [ceil4]
  · simp only [if_pos h0, getBytes_of_aligned h (Nat.pos_of_ne_zero h0), ok_bind,
      writeRange_fresh _ (le_ceil4 _)]

theorem pod2bytes_fresh (data : List UInt8) {width : ℕ} (value : ℕ) (h : width % 4 = 0) :
    pod2bytes width value (data ++ List.replicate (ceil4 width) 0) data.length =
      .ok (data ++ toBigEndian width value) := by
  have hlen := toBigEndian_length width value
  unfold pod2bytes
  rw [ceil4_of_mod h, writeRange_fresh data hlen.le, hlen, Nat.sub_self]
  simp

namespace Message

/-- `Message(s, tt)`: the address is not looked at. -/
def ofAddress (s : List UInt8) (timeTag : ℕ) : Message := ⟨timeTag, s, [], [], [], .okNoError⟩

def init (addr : List UInt8) (timeTag : ℕ) : Message :=
  let msg := { clear with address := addr, timeTag := timeTag }
  if addr = [] ∨ addr.head? ≠ some 47 then msg.setErr .malformedAddressPattern else msg

/-- A type tag and the position of its argument. -/
def pushTag (msg : Message) (tag : UInt8) (len : ℕ) : Message :=
  { msg with typeTags := msg.typeTags ++ [tag] }.pushArgument msg.storage.length len

def pushBool (msg : Message) (b : Bool) : Message :=
  msg.pushTag (if b then typeTagTrue else typeTagFalse) msg.storage.length

def pushPod (msg : Message) (tag : UInt8) (width v : ℕ) : Checked Message := do
  let (p, storage) ← getBytes msg.storage width
  let storage ← pod2bytes width v storage p
  .ok { msg.pushTag tag width with storage := storage }

def pushInt32 (msg : Message) (i : BitVec 32) : Checked Message :=
  msg.pushPod typeTagInt32 4 i.toNat

def pushInt64 (msg : Message) (h : BitVec 64) : Checked Message :=
  msg.pushPod typeTagInt64 8 h.toNat

def pushFloat (msg : Message) (f : BitVec 32) : Checked Message :=
  msg.pushPod typeTagFloat 4 f.toNat

def pushDouble (msg : Message) (d : BitVec 64) : Checked Message :=
  msg.pushPod typeTagDouble 8 d.toNat

def pushStr (msg : Message) (s : List UInt8) : Checked Message := do
  assert (s.length < 2147483647)
  let (p, storage) ← getBytes msg.storage (s.length + 1)
  let storage ← strcpy storage p s
  .ok { msg.pushTag typeTagString (s.length + 1) with storage := storage }

def pushBlob (msg : Message) (bytes : List UInt8) : Checked Message := do
  assert (bytes.length < 2147483647)
  let (p, storage) ← getBytes msg.storage 4
  let storage ← pod2bytes 4 bytes.length storage p
  let storage ← copyBytes storage bytes
  .ok { msg.pushTag typeTagBlob (bytes.length + 4) with storage := storage }

/-- The size that `packMessage` writes in front of a message within a bundle. -/
def packSize (msg : Message) (s : List UInt8) : Checked (List UInt8) := do
  let lAddr := msg.address.length + 1
  let lType := msg.typeTags.length + 2
  let (p, s) ← getBytes s 4
  pod2bytes 4 (ceil4 lAddr + ceil4 lType + ceil4 msg.storage.length) s p

/-- `packMessage`, with the storage of the packet after it. -/
def packMessage (msg : Message) (s : List UInt8) (writeSize : Bool) : Checked (List UInt8) :=
  if !msg.isOk then .ok s
  else do
    let lAddr := msg.address.length + 1
    let lType := msg.typeTags.length + 2
    let s ← (if writeSize then msg.packSize s else .ok s)
    let (p, s) ← getBytes s lAddr
    let s ← strcpy s p msg.address
    let (p, s) ← getBytes s lType
    let s ← strcpy s p (44 :: msg.typeTags)
    copyBytes s msg.storage

/-- The push function of the value's type. -/
def pushValue (msg : Message) : Value → Checked Message
  | .bool b => .ok (msg.pushBool b)
  | .int32 i => msg.pushInt32 i
  | .int64 h => msg.pushInt64 h
  | .float f => msg.pushFloat f
  | .double d => msg.pushDouble d
  | .str s => msg.pushStr s.bytes
  | .blob b => msg.pushBlob b.bytes

/-- A chain of push functions. -/
def pushValues (msg : Message) : List Value → Checked Message
  | [] => .ok msg
  | v :: vs => do
    let msg ← msg.pushValue v
    msg.pushValues vs

end Message

/-- The assertions of `pushStr` and `pushBlob` on the size of their argument. -/
def Value.Sane : Value → Prop
  | .str s => s.bytes.length < 2147483647
  | .blob b => b.bytes.length < 2147483647
  | _ => True

/-- A message with these values, and with nothing else in its storage. -/
structure Message.Built (msg : Message) (address : List UInt8) (timeTag : ℕ) (vs : List Value) :
    Prop extends msg.Holds vs where
  address : msg.address = address
  timeTag : msg.timeTag = timeTag
  storage : msg.storage = encodeValues vs

section Push
variable {msg : Message} {address : List UInt8} {timeTag : ℕ} {vs : List Value}
  (h : msg.Built address timeTag vs)
include h

theorem Message.Built.aligned : msg.storage.length % 4 = 0 := by
  rw [h.storage]
  exact encodeValues_aligned vs

/-- A type tag, a position and the bytes of a value add it to the message. -/
theorem Message.Built.push (v : Value) {len : ℕ} (hlen : len = v.size ∨ ∃ b, v = .bool b) :
    Built { msg.pushTag v.tag len with storage := msg.storage ++ v.encode } address timeTag
      (vs ++ [v]) where
  err := h.err
  typeTags := by
    rw [List.map_append, ← h.typeTags]
    rfl
  arguments := by
    have hold := h.arguments.imp fun _ _ hv => hv.append v.encode
    refine List.rel_append hold (.cons ?_ .nil)
    rcases hlen with rfl | ⟨b, rfl⟩
    · have hend : msg.storage ++ v.encode = msg.storage ++ (v.encode ++ []) := by
        rw [List.append_nil]
      exact .bytes hend
    · exact .bool b _
  address := h.address
  timeTag := h.timeTag
  storage := by
    rw [encodeValues_append, ← h.storage, encodeValues_cons, encodeValues_nil, List.append_nil]

theorem pushPod_built {v : Value} {tag : UInt8} {width n : ℕ} (htag : v.tag = tag)
    (hsize : v.size = width) (he : v.encode = toBigEndian width n) (hw : width % 4 = 0)
    (hpos : 0 < width) :
    ∃ msg', msg.pushPod tag width n = .ok msg' ∧ msg'.Built address timeTag (vs ++ [v]) := by
  refine ⟨_, ?_, h.push v (.inl rfl)⟩
  unfold Message.pushPod
  simp only [getBytes_of_aligned h.aligned hpos, ok_bind, pod2bytes_fresh _ n hw, htag, hsize, he]

theorem pushStr_built (s : Text) (hs : s.bytes.length < 2147483647) : ∃ msg',
    msg.pushStr s.bytes = .ok msg' ∧ msg'.Built address timeTag (vs ++ [.str s]) := by
  refine ⟨_, ?_, h.push (.str s) (.inl rfl)⟩
  have hpos : 0 < s.bytes.length + 1 := Nat.succ_pos _
  unfold Message.pushStr
  simp only [assert_of hs, getBytes_of_aligned h.aligned hpos, ok_bind, strcpy_fresh,
    slot_of_nul s.nul]
  rfl

theorem pushBlob_built (b : BlobData) (hb : b.bytes.length < 2147483647) : ∃ msg',
    msg.pushBlob b.bytes = .ok msg' ∧ msg'.Built address timeTag (vs ++ [.blob b]) := by
  have hlen : (msg.storage ++ toBigEndian 4 b.bytes.length).length % 4 = 0 := by
    have := h.aligned
    rw [List.length_append, toBigEndian_length]
    omega
  refine ⟨_, ?_, h.push (.blob b) (.inl rfl)⟩
  unfold Message.pushBlob
  simp only [assert_of hb, ok_bind, getBytes_of_aligned h.aligned (show 0 < 4 by decide),
    pod2bytes_fresh _ _ (show 4 % 4 = 0 from rfl), copyBytes_of_aligned hlen, Value.encode,
    blob, List.append_assoc]
  rfl

theorem pushValue_built {v : Value} (hv : v.Sane) :
    ∃ msg', msg.pushValue v = .ok msg' ∧ msg'.Built address timeTag (vs ++ [v]) := by
  cases v with
  | bool b =>
    have hb := h.push (.bool b) (.inr ⟨b, rfl⟩ : msg.storage.length = _ ∨ _)
    rw [Value.encode, List.append_nil] at hb
    exact ⟨_, rfl, hb⟩
  | int32 i => exact pushPod_built h rfl rfl rfl rfl (by decide)
  | int64 i => exact pushPod_built h rfl rfl rfl rfl (by decide)
  | float f => exact pushPod_built h rfl rfl rfl rfl (by decide)
  | double d => exact pushPod_built h rfl rfl rfl rfl (by decide)
  | str s => exact pushStr_built h s hv
  | blob b => exact pushBlob_built h b hv

end Push

theorem pushValues_built {ws : List Value} (hws : ∀ v ∈ ws, v.Sane) {msg : Message}
    {address : List UInt8} {timeTag : ℕ} {vs : List Value} (h : msg.Built address timeTag vs) :
    ∃ msg', msg.pushValues ws = .ok msg' ∧ msg'.Built address timeTag (vs ++ ws) := by
  induction ws generalizing msg vs with
  | nil => exact ⟨msg, rfl, by rwa [List.append_nil]⟩
  | cons w ws ih =>
    obtain ⟨msg₁, h₁, hb₁⟩ := pushValue_built h (hws w List.mem_cons_self)
    obtain ⟨msg₂, h₂, hb₂⟩ := ih (fun v hv => hws v (List.mem_cons_of_mem _ hv)) hb₁
    rw [List.append_assoc] at hb₂
    exact ⟨msg₂, by rw [Message.pushValues, h₁, ok_bind, h₂], hb₂⟩

theorem init_built {address : List UInt8} (hslash : address.head? = some 47) (timeTag : ℕ) :
    (Message.init address timeTag).Built address timeTag [] := by
  have hinit : Message.init address timeTag =
      { Message.clear with address := address, timeTag := timeTag } := by
    obtain ⟨s, rfl⟩ := List.head?_eq_some_iff.mp hslash
    simp [Message.init]
  rw [hinit]
  exact ⟨⟨rfl, rfl, .nil⟩, rfl, rfl, rfl⟩

/-- The bytes `packMessage` adds for a message without an error, after their size. -/
def Message.packed (msg : Message) : List UInt8 :=
  slot msg.address ++ (slot (44 :: msg.typeTags) ++ (msg.storage ++
    List.replicate (ceil4 msg.storage.length - msg.storage.length) 0))

theorem Message.packed_length (msg : Message) : msg.packed.length =
    ceil4 (msg.address.length + 1) + ceil4 (msg.typeTags.length + 2) +
      ceil4 msg.storage.length := by
  have hle := le_ceil4 msg.storage.length
  have htwo : msg.typeTags.length + 1 + 1 = msg.typeTags.length + 2 := rfl
  simp only [packed, List.length_append, slot_length, List.length_cons, List.length_replicate, htwo]
  omega

theorem Message.packed_aligned (msg : Message) : msg.packed.length % 4 = 0 := by
  have h₁ := ceil4_mod (msg.address.length + 1)
  have h₂ := ceil4_mod (msg.typeTags.length + 2)
  have h₃ := ceil4_mod msg.storage.length
  rw [packed_length]
  omega

theorem packSize_of_aligned (msg : Message) {s : List UInt8} (hs : s.length % 4 = 0) :
    msg.packSize s = .ok (s ++ toBigEndian 4 msg.packed.length) := by
  unfold Message.packSize
  rw [Message.packed_length]
  simp only [getBytes_of_aligned hs (show 0 < 4 by decide), ok_bind,
    pod2bytes_fresh _ _ (show 4 % 4 = 0 from rfl)]

/-- The size and the bytes of a message are appended to the storage. -/
theorem packMessage_of_ok {msg : Message} (hok : msg.isOk = true) {s : List UInt8}
    (hs : s.length % 4 = 0) (writeSize : Bool) : msg.packMessage s writeSize =
      .ok (s ++ ((if writeSize then toBigEndian 4 msg.packed.length else []) ++ msg.packed)) := by
  have haddr : 0 < msg.address.length + 1 := Nat.succ_pos _
  have htype : 0 < msg.typeTags.length + 2 := Nat.succ_pos _
  have hpack : ∀ s : List UInt8, s.length % 4 = 0 → (do
      let (p, s) ← getBytes s (msg.address.length + 1)
      let s ← strcpy s p msg.address
      let (p, s) ← getBytes s (msg.typeTags.length + 2)
      let s ← strcpy s p (44 :: msg.typeTags)
      copyBytes s msg.storage) = .ok (s ++ msg.packed) := by
    intro s hs
    have h₁ : (s ++ slot msg.address).length % 4 = 0 := by
      have := ceil4_mod (msg.address.length + 1)
      rw [List.length_append, slot_length]
      omega
    have h₂ : (s ++ slot msg.address ++ slot (44 :: msg.typeTags)).length % 4 = 0 := by
      have := ceil4_mod ((44 :: msg.typeTags).length + 1)
      rw [List.length_append, slot_length]
      omega
    have htags := strcpy_fresh (s ++ slot msg.address) (44 :: msg.typeTags)
    rw [List.length_cons] at htags
    simp only [getBytes_of_aligned hs haddr, getBytes_of_aligned h₁ htype, ok_bind, strcpy_fresh,
      htags, copyBytes_of_aligned h₂]
    simp [Message.packed]
  unfold Message.packMessage
  cases writeSize with
  | false => simpa [hok] using hpack s hs
  | true =>
    have h₁ : (s ++ toBigEndian 4 msg.packed.length).length % 4 = 0 := by
      rw [List.length_append, toBigEndian_length]
      omega
    simp only [hok, if_true, packSize_of_aligned msg hs, ok_bind, hpack _ h₁]
    simp

theorem packMessage_of_err {msg : Message} (hok : msg.isOk = false) (s : List UInt8)
    (writeSize : Bool) : msg.packMessage s writeSize = .ok s := by
  simp [Message.packMessage, hok]

end Moodpd.Oscpkt
