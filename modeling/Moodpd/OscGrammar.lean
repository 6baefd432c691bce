import Moodpd.OscPacket

/-!
# The grammar of OSC packets

What an OSC packet is, as a relation between its bytes and the messages in it, and what a
malformed one is. The relations carry a flag. Without it they are the grammar of OSC 1.0.
With it, a blob whose declared size is 2^32-4 counts as an argument that takes no bytes.
-/
namespace Moodpd.Oscpkt
open Memory

/-- A NUL-terminated string with zeros up to a multiple of 4. -/
def padded (s : List UInt8) : List UInt8 :=
  s ++ 0 :: List.replicate (ceil4 (s.length + 1) - (s.length + 1)) 0

/-- A sized blob with zeros up to a multiple of 4. -/
def blob (payload : List UInt8) : List UInt8 :=
  toBigEndian 4 payload.length ++ payload ++
    List.replicate (ceil4 payload.length - payload.length) 0

/-- The number of bytes of an argument of fixed size. -/
def fixedSize (tag : UInt8) : Option ℕ :=
  if tag = typeTagTrue ∨ tag = typeTagFalse then some 0
  else if tag = typeTagInt32 ∨ tag = typeTagFloat then some 4
  else if tag = typeTagInt64 ∨ tag = typeTagDouble then some 8
  else none

def Supported (tag : UInt8) : Prop :=
  (fixedSize tag).isSome = true ∨ tag = typeTagString ∨ tag = typeTagBlob

def wrappingSize : List UInt8 := [0xff, 0xff, 0xff, 0xfc]

inductive Args : Bool → List UInt8 → List UInt8 → Prop
  | nil : Args false [] []
  | fixed {w : Bool} {tag : UInt8} {tags v bs : List UInt8} (size : fixedSize tag = some v.length)
      (more : Args w tags bs) : Args w (tag :: tags) (v ++ bs)
  | string {w : Bool} {tags s bs : List UInt8} (nul : 0 ∉ s) (more : Args w tags bs) :
      Args w (typeTagString :: tags) (padded s ++ bs)
  | blob {w : Bool} {tags payload bs : List UInt8} (size : payload.length + 4 < 2 ^ 32)
      (more : Args w tags bs) : Args w (typeTagBlob :: tags) (Oscpkt.blob payload ++ bs)
  | wrapping {w : Bool} {tags bs : List UInt8} (more : Args w tags (wrappingSize ++ bs)) :
      Args true (typeTagBlob :: tags) (wrappingSize ++ bs)

structure Content where
  address : List UInt8
  typeTags : List UInt8
  payload : List UInt8
  deriving DecidableEq, Repr

structure IsMessage (w : Bool) (d : List UInt8) (c : Content) : Prop where
  slash : c.address.head? = some 47
  address_nul : 0 ∉ c.address
  tags_nul : 0 ∉ c.typeTags
  args : Args w c.typeTags c.payload
  bytes : d = padded c.address ++ (padded (44 :: c.typeTags) ++ c.payload)

mutual
/-- The content of a packet or of a bundle's element. -/
inductive Packet : Bool → List UInt8 → List Content → Prop
  | empty : Packet false [] []
  | message {w : Bool} {d : List UInt8} {c : Content} (h : IsMessage w d c) : Packet w d [c]
  | bundle {w : Bool} {time es : List UInt8} {cs : List Content} (htime : time.length = 8)
      (nonempty : es ≠ []) (elements : Elements w es cs) : Packet w (bundleTag ++ (time ++ es)) cs

/-- A sequence of elements, each behind its size. -/
inductive Elements : Bool → List UInt8 → List Content → Prop
  | nil : Elements false [] []
  | cons {w v : Bool} {body es : List UInt8} {cs ds : List Content}
      (size : body.length < 2 ^ 32) (head : Packet w body cs) (more : Elements v es ds) :
      Elements (w || v) (toBigEndian 4 body.length ++ (body ++ es)) (cs ++ ds)
end

end Moodpd.Oscpkt
