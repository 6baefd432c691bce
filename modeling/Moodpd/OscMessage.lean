import Moodpd.Memory

/-!
# Reading one OSC message

`Message::buildFromRawData` and `Message::getArgSize` of oscpkt. A pointer into the
message's copy of the data is an offset; the copy is allocated at a multiple of 4, so
that rounding the pointer and rounding the offset are the same. Pointers have 64 bits,
and sizes read from the data 32.
-/
namespace Moodpd.Oscpkt
open Memory

inductive ErrorCode
  | okNoError
  | malformedAddressPattern
  | malformedTypeTags
  | malformedArguments
  | unhandledTypeTags
  | typeMismatch
  | notEnoughArg
  | patternMismatch
  | invalidBundle
  | invalidPacketSize
  deriving DecidableEq, Repr

/-- `OSCPKT_SET_ERR`: the first error stays. -/
def ErrorCode.set (err errcode : ErrorCode) : ErrorCode :=
  if err = .okNoError then errcode else err

def typeTagTrue : UInt8 := 84
def typeTagFalse : UInt8 := 70
def typeTagInt32 : UInt8 := 105
def typeTagInt64 : UInt8 := 104
def typeTagFloat : UInt8 := 102
def typeTagDouble : UInt8 := 100
def typeTagString : UInt8 := 115
def typeTagBlob : UInt8 := 98

def ceil4 (p : ℕ) : ℕ := (p + 3) / 4 * 4

def zerosFrom (m : List UInt8) (p : ℕ) : ℕ → Checked Bool
  | 0 => .ok true
  | n + 1 => do
    let b ← read m p
    if b ≠ 0 then .ok false else zerosFrom m (p + 1) n

/-- The bytes up to the next multiple of 4 are zero. -/
def isZeroPaddingCorrect (m : List UInt8) (p : ℕ) : Checked Bool := zerosFrom m p (ceil4 p - p)

/-- `memchr` over the rest of a region. A start past its end gives a negative count, which
`memchr` takes for a huge one. -/
def memchrToEnd (m : List UInt8) (c : UInt8) (p : ℕ) : Checked (Option ℕ) :=
  if p ≤ m.length then memchr m c p (m.length - p) else .error .outOfBounds

structure Message where
  timeTag : ℕ
  address : List UInt8
  typeTags : List UInt8
  arguments : List (ℕ × ℕ)
  storage : List UInt8
  err : ErrorCode
  deriving DecidableEq, Repr

namespace Message

/-- The message after `clear()`. -/
def clear : Message := ⟨1, [], [], [], [], .okNoError⟩

def isOk (msg : Message) : Bool := msg.err = .okNoError

def setErr (msg : Message) (errcode : ErrorCode) : Message :=
  { msg with err := msg.err.set errcode }

def pushArgument (msg : Message) (pos len : ℕ) : Message :=
  { msg with arguments := msg.arguments ++ [(pos, len)] }

@[simp] theorem pushArgument_storage (msg : Message) (pos len : ℕ) :
    (msg.pushArgument pos len).storage = msg.storage := rfl

/-- The `switch` of `getArgSize`, with `none` where it returns. The size of a blob is
computed in 32 bits. -/
def switchArgSize (msg : Message) (type : UInt8) (p : ℕ) : Checked (Message × Option ℕ) :=
  if type = typeTagTrue ∨ type = typeTagFalse then .ok (msg, some 0)
  else if type = typeTagInt32 ∨ type = typeTagFloat then .ok (msg, some 4)
  else if type = typeTagInt64 ∨ type = typeTagDouble then .ok (msg, some 8)
  else if type = typeTagString then do
    match ← memchrToEnd msg.storage 0 p with
    | none => .ok (msg.setErr .malformedArguments, some 0)
    | some q => .ok (msg, some (q - p + 1))
  else if type = typeTagBlob then
    if p = msg.storage.length then .ok (msg.setErr .malformedArguments, none)
    else do
      let n ← readBigEndian msg.storage 4 p
      .ok (msg, some ((4 + n) % 2 ^ 32))
  else .ok (msg.setErr .unhandledTypeTags, none)

/-- The number of bytes occupied by the argument. -/
def getArgSize (msg : Message) (type : UInt8) (p : ℕ) : Checked (Message × ℕ) :=
  if msg.err ≠ .okNoError then .ok (msg, 0)
  else do
    assert (p ≤ msg.storage.length)
    match ← msg.switchArgSize type p with
    | (msg, none) => .ok (msg, 0)
    | (msg, some sz) =>
      -- the test p+sz < p is never true of 64-bit pointers and a 32-bit size
      if p + sz > msg.storage.length then .ok (msg.setErr .malformedArguments, 0)
      else do
        let padded ← isZeroPaddingCorrect msg.storage (p + sz)
        if padded then .ok (msg, sz) else .ok (msg.setErr .malformedArguments, 0)

/-- The argument loop over the tags that remain. It returns the message, the offset
reached and the tags left when it stops. -/
def readArgs : List UInt8 → Message → ℕ → Checked (Message × ℕ × List UInt8)
  | [], msg, arg => .ok (msg, arg, [])
  | tag :: tags, msg, arg =>
    if msg.isOk then do
      assert (arg ≤ msg.storage.length)
      let (msg, len) ← msg.getArgSize tag arg
      readArgs tags (if msg.isOk then msg.pushArgument arg len else msg) (arg + ceil4 len)
    else .ok (msg, arg, tag :: tags)

/-- From the type tags on, after the address has been read. -/
def readTypeTags (msg : Message) (typeTagsBeg : ℕ) : Checked Message := do
  match ← memchrToEnd msg.storage 0 typeTagsBeg with
  | none => .ok (msg.setErr .malformedTypeTags)
  | some typeTagsEnd =>
    let padded ← isZeroPaddingCorrect msg.storage (typeTagsEnd + 1)
    if !padded then .ok (msg.setErr .malformedTypeTags)
    else
      let first ← read msg.storage typeTagsBeg
      if first ≠ 44 then .ok (msg.setErr .malformedTypeTags)
      else
        let typeTags ← readRange msg.storage (typeTagsBeg + 1) (typeTagsEnd - (typeTagsBeg + 1))
        let msg := { msg with typeTags := typeTags }
        let arg := ceil4 (typeTagsEnd + 1)
        assert (arg ≤ msg.storage.length)
        let (msg, arg, left) ← readArgs typeTags msg arg
        if left ≠ [] ∨ arg ≠ msg.storage.length then .ok (msg.setErr .malformedArguments)
        else .ok msg

def buildFromRawData (data : List UInt8) : Checked Message := do
  let msg := { clear with storage := data }
  match ← memchrToEnd data 0 0 with
  | none => .ok (msg.setErr .malformedAddressPattern)
  | some addressEnd =>
    let padded ← isZeroPaddingCorrect data (addressEnd + 1)
    if !padded then .ok (msg.setErr .malformedAddressPattern)
    else
      let first ← read data 0
      if first ≠ 47 then .ok (msg.setErr .malformedAddressPattern)
      else
        let address ← readRange data 0 addressEnd
        readTypeTags { msg with address := address } (ceil4 (addressEnd + 1))

/-- `Message(ptr, sz, tt)`. -/
def ofRawData (data : List UInt8) (timeTag : ℕ) : Checked Message := do
  let msg ← buildFromRawData data
  .ok { msg with timeTag := timeTag }

end Message

end Moodpd.Oscpkt
