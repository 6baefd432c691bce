import Moodpd.OscMessage

/-!
# Reading an OSC packet

`PacketReader` of oscpkt. A pair of pointers `[beg, end)` is the list of the bytes between
them, so that an element is read within its own bounds. The fuel bounds the steps of the
recursion through bundles; the size of the packet is always enough.
-/
namespace Moodpd.Oscpkt
open Memory

structure PacketReader where
  messages : List Message
  err : ErrorCode
  deriving DecidableEq, Repr

/-- `"#bundle\0"`. -/
def bundleTag : List UInt8 := [35, 98, 117, 110, 100, 108, 101, 0]

namespace PacketReader

def empty : PacketReader := ⟨[], .okNoError⟩

def isOk (pr : PacketReader) : Bool := pr.err = .okNoError

def setErr (pr : PacketReader) (errcode : ErrorCode) : PacketReader :=
  { pr with err := pr.err.set errcode }

mutual
def parse : ℕ → List UInt8 → ℕ → PacketReader → Checked PacketReader
  | 0, _, _, _ => .error .outOfFuel
  | fuel + 1, range, timeTag, pr => do
    assert (pr.err = .okNoError)
    assert (range.length % 4 = 0)
    if range = [] then .ok pr
    else
      let first ← Memory.read range 0
      if first = 35 then
        if 20 ≤ range.length ∧ range.take 8 = bundleTag then
          let timeTag2 ← readBigEndian range 8 8
          bundleLoop fuel (range.drop 16) timeTag2 pr
        else .ok (pr.setErr .invalidBundle)
      else
        let msg ← Message.ofRawData range timeTag
        let pr := { pr with messages := pr.messages ++ [msg] }
        .ok (if msg.isOk then pr else pr.setErr msg.err)

/-- The `do` loop over the elements of a bundle. -/
def bundleLoop : ℕ → List UInt8 → ℕ → PacketReader → Checked PacketReader
  | 0, _, _, _ => .error .outOfFuel
  | fuel + 1, rest, timeTag, pr => do
    let sz ← readBigEndian rest 4 0
    let rest := rest.drop 4
    -- the test pos+sz < pos is never true of 64-bit pointers and a 32-bit size
    if sz % 4 ≠ 0 ∨ sz > rest.length then .ok (pr.setErr .invalidBundle)
    else
      let pr ← parse fuel (rest.take sz) timeTag pr
      if pr.isOk ∧ rest.drop sz ≠ [] then bundleLoop fuel (rest.drop sz) timeTag pr
      else .ok pr
end

def init (data : List UInt8) : Checked PacketReader :=
  if data.length % 4 = 0 then parse (data.length + 1) data 1 empty
  else .ok (empty.setErr .invalidPacketSize)

end PacketReader

end Moodpd.Oscpkt
