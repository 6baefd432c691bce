import Moodpd.OscMessageWriter

/-!
# Writing an OSC packet

`PacketWriter` of oscpkt. Its calls may come in any order. None of them leaves the storage,
and the error that is set is the one of the first call that the writer does not allow.
-/
namespace Moodpd.Oscpkt
open Memory

/-- The codes of `ErrorCode`, with the one that only the writer sets. -/
inductive WriterErrorCode
  | code (err : ErrorCode)
  | bundleRequiredForMultiMessages
  deriving DecidableEq, Repr

def WriterErrorCode.set (err errcode : WriterErrorCode) : WriterErrorCode :=
  if err = .code .okNoError then errcode else err

@[simp] theorem WriterErrorCode.set_ok (err : WriterErrorCode) :
    err.set (.code .okNoError) = err := by
  unfold set
  split
  · simp_all
  · rfl

theorem WriterErrorCode.set_assoc (e₁ e₂ e₃ : WriterErrorCode) :
    (e₁.set e₂).set e₃ = e₁.set (e₂.set e₃) := by
  unfold set
  by_cases h : e₁ = .code .okNoError <;> simp [h]

/-- The open bundles are listed from the innermost one outwards. -/
structure PacketWriter where
  bundles : List ℕ
  storage : List UInt8
  err : WriterErrorCode
  deriving DecidableEq, Repr

/-- `"#bundle"`. -/
def bundleName : List UInt8 := [35, 98, 117, 110, 100, 108, 101]

namespace PacketWriter

def init : PacketWriter := ⟨[], [], .code .okNoError⟩

def isOk (pw : PacketWriter) : Bool := pw.err = .code .okNoError

def setErr (pw : PacketWriter) (errcode : WriterErrorCode) : PacketWriter :=
  { pw with err := pw.err.set errcode }

/-- The bytes that will hold the size of a bundle, unless it is the outermost one. -/
def holdSize (pw : PacketWriter) : Checked (List UInt8) :=
  if pw.bundles ≠ [] then do
    let (_, storage) ← getBytes pw.storage 4
    .ok storage
  else .ok pw.storage

def startBundle (pw : PacketWriter) (ts : BitVec 64) : Checked PacketWriter := do
  let storage ← pw.holdSize
  let (p, storage) ← getBytes storage 8
  let storage ← strcpy storage p bundleName
  let (q, storage) ← getBytes storage 8
  let storage ← pod2bytes 8 ts.toNat storage q
  .ok { pw with bundles := p :: pw.bundles, storage := storage }

/-- The zero that stands for the elements of an empty bundle. -/
def fillEmpty (storage : List UInt8) (back : ℕ) : Checked (List UInt8) :=
  if storage.length - back = 16 then do
    let (p, storage) ← getBytes storage 4
    pod2bytes 4 0 storage p
  else .ok storage

/-- The size of a bundle, written in front of it. -/
def storeSize (storage : List UInt8) (back : ℕ) : Checked (List UInt8) :=
  if back < 4 then .error .outOfBounds
  else pod2bytes 4 (storage.length - back) storage (back - 4)

def endBundle (pw : PacketWriter) : Checked PacketWriter :=
  match pw.bundles with
  | [] => .ok (pw.setErr (.code .invalidBundle))
  | back :: bundles => do
    let storage ← fillEmpty pw.storage back
    -- no size is stored for the outermost bundle
    let storage ← (if bundles ≠ [] then storeSize storage back else .ok storage)
    .ok { pw with bundles := bundles, storage := storage }

def addMessage (pw : PacketWriter) (msg : Message) : Checked PacketWriter := do
  let pw ← (if pw.storage.length ≠ 0 ∧ pw.bundles = [] then
      .ok (pw.setErr .bundleRequiredForMultiMessages)
    else do
      let storage ← msg.packMessage pw.storage (pw.bundles ≠ [])
      .ok { pw with storage := storage })
  .ok (if msg.isOk then pw else pw.setErr (.code msg.err))

def packetSize (pw : PacketWriter) : ℕ := if pw.isOk then pw.storage.length % 2 ^ 32 else 0

/-- `packetData`, with `none` for the null pointer of a packet that has failed. -/
def packetData (pw : PacketWriter) : Option (List UInt8) := if pw.isOk then some pw.storage else none

end PacketWriter

/-- A call of a writing function. -/
inductive WriterCall
  | startBundle (ts : BitVec 64)
  | endBundle
  | addMessage (msg : Message)

def PacketWriter.call (pw : PacketWriter) : WriterCall → Checked PacketWriter
  | .startBundle ts => pw.startBundle ts
  | .endBundle => pw.endBundle
  | .addMessage msg => pw.addMessage msg

def PacketWriter.calls (pw : PacketWriter) : List WriterCall → Checked PacketWriter
  | [] => .ok pw
  | c :: cs => do
    let pw ← pw.call c
    pw.calls cs

/-- The header of a bundle. -/
def bundleHeader (ts : BitVec 64) : List UInt8 := bundleTag ++ toBigEndian 8 ts.toNat

@[simp] theorem bundleHeader_length (ts : BitVec 64) : (bundleHeader ts).length = 16 := by
  simp [bundleHeader, bundleTag]

section Calls
variable {pw : PacketWriter} (hal : pw.storage.length % 4 = 0)
include hal

/-- The storage when the header of a new bundle is about to be written. -/
theorem holdSize_of_aligned : pw.holdSize =
    .ok (pw.storage ++ if pw.bundles = [] then [] else List.replicate 4 0) := by
  unfold PacketWriter.holdSize
  by_cases h : pw.bundles = []
  · simp [h]
  · simp only [if_pos h, if_neg h, getBytes_of_aligned hal (show 0 < 4 by decide), ok_bind]
    rfl

theorem startBundle_of_aligned (ts : BitVec 64) :
    ∃ slot, slot = (if pw.bundles = [] then [] else List.replicate 4 0) ∧
      pw.startBundle ts = .ok { pw with
        bundles := (pw.storage ++ slot).length :: pw.bundles
        storage := pw.storage ++ slot ++ bundleHeader ts } := by
  refine ⟨_, rfl, ?_⟩
  generalize hslot : (if pw.bundles = [] then [] else List.replicate 4 (0 : UInt8)) = slot
  have h₁ : (pw.storage ++ slot).length % 4 = 0 := by
    rw [← hslot, List.length_append]
    split <;> simp [hal]
  have h₂ : (pw.storage ++ slot ++ bundleTag).length % 4 = 0 := by
    rw [List.length_append, bundleTag]
    simp only [List.length_cons, List.length_nil]
    omega
  have hname : strcpy (pw.storage ++ slot ++ List.replicate (ceil4 8) 0) (pw.storage ++ slot).length
      bundleName = .ok (pw.storage ++ slot ++ bundleTag) := strcpy_fresh _ bundleName
  unfold PacketWriter.startBundle
  rw [holdSize_of_aligned hal, hslot]
  simp only [ok_bind, getBytes_of_aligned h₁ (show 0 < 8 by decide), hname,
    getBytes_of_aligned h₂ (show 0 < 8 by decide), pod2bytes_fresh _ _ (show 8 % 4 = 0 from rfl)]
  simp [bundleHeader]

theorem fillEmpty_of_aligned (back : ℕ) : PacketWriter.fillEmpty pw.storage back =
    .ok (pw.storage ++ if pw.storage.length - back = 16 then toBigEndian 4 0 else []) := by
  unfold PacketWriter.fillEmpty
  by_cases h : pw.storage.length - back = 16
  · simp only [if_pos h, getBytes_of_aligned hal (show 0 < 4 by decide), ok_bind,
      pod2bytes_fresh _ _ (show 4 % 4 = 0 from rfl)]
  · simp [h]

end Calls

/-- The size goes into the four bytes before the bundle. -/
theorem storeSize_append {pre slot body : List UInt8} {back : ℕ} (hslot : slot.length = 4)
    (hback : (pre ++ slot).length = back) :
    PacketWriter.storeSize (pre ++ (slot ++ body)) back =
      .ok (pre ++ (toBigEndian 4 body.length ++ body)) := by
  rw [List.length_append, hslot] at hback
  have hlen : (pre ++ (slot ++ body)).length - back = body.length := by
    simp only [List.length_append, hslot]
    omega
  unfold PacketWriter.storeSize pod2bytes
  rw [if_neg (by omega), hlen]
  exact writeRange_append (by omega) (by rw [hslot, toBigEndian_length]) body

end Moodpd.Oscpkt
