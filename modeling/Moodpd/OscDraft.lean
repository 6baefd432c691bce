import Moodpd.OscPacketWriter

/-!
# The packet that is being written

What the calls of a `PacketWriter` describe: the elements that are complete and the bundles
that are still open. The storage of the writer is at all times the encoding of this draft,
with gaps where the sizes of the open bundles will go.
-/
namespace Moodpd.Oscpkt
open Memory

/-- A message, or a bundle of elements. -/
inductive Item
  | message (msg : Message)
  | bundle (ts : BitVec 64) (items : List Item)

/-- An empty bundle has one element of size 0. -/
def emptyBody : List Item → List UInt8
  | [] => toBigEndian 4 0
  | _ :: _ => []

mutual
def Item.encode : Item → List UInt8
  | .message msg => msg.packed
  | .bundle ts items => bundleHeader ts ++ (encodeItems items ++ emptyBody items)

/-- The elements of a bundle, each behind its size. -/
def encodeItems : List Item → List UInt8
  | [] => []
  | item :: items => toBigEndian 4 item.encode.length ++ (item.encode ++ encodeItems items)
end

theorem encodeItems_append (is js : List Item) :
    encodeItems (is ++ js) = encodeItems is ++ encodeItems js := by
  induction is with
  | nil => simp [encodeItems]
  | cons i is ih => simp [encodeItems, ih]

/-- A bundle that is open: its time tag and the elements it has so far. -/
structure Frame where
  ts : BitVec 64
  items : List Item

def Frame.encode (f : Frame) : List UInt8 := bundleHeader f.ts ++ encodeItems f.items

/-- The complete elements outside of all open bundles, and the open bundles from the
innermost one outwards. -/
structure Draft where
  done : List Item
  opened : List Frame

namespace Draft

def init : Draft := ⟨[], []⟩

/-- Nothing has been written yet. -/
def isEmpty (d : Draft) : Bool := d.done.isEmpty && d.opened.isEmpty

/-- An element is added to the innermost open bundle. -/
def add (d : Draft) (item : Item) : Draft :=
  match d.opened with
  | [] => { d with done := d.done ++ [item] }
  | f :: fs => { d with opened := { f with items := f.items ++ [item] } :: fs }

/-- The error of a call in a draft. -/
def errorOf (d : Draft) : WriterCall → WriterErrorCode
  | .startBundle _ => .code .okNoError
  | .endBundle => if d.opened = [] then .code .invalidBundle else .code .okNoError
  | .addMessage msg =>
    if ¬ d.isEmpty ∧ d.opened = [] then .bundleRequiredForMultiMessages else .code msg.err

/-- The draft after a call. One that is not allowed changes nothing. -/
def step (d : Draft) : WriterCall → Draft
  | .startBundle ts => { d with opened := ⟨ts, []⟩ :: d.opened }
  | .endBundle =>
    match d.opened with
    | [] => d
    | f :: fs => { d with opened := fs }.add (.bundle f.ts f.items)
  | .addMessage msg =>
    if d.errorOf (.addMessage msg) = .code .okNoError then d.add (.message msg) else d

def run (d : Draft) : List WriterCall → Draft
  | [] => d
  | c :: cs => (d.step c).run cs

/-- The error of the first call that is not allowed. -/
def firstError (d : Draft) : List WriterCall → WriterErrorCode
  | [] => .code .okNoError
  | c :: cs => (d.errorOf c).set ((d.step c).firstError cs)

end Draft

/-- The place for the size of a bundle that is open inside others. -/
def gap (outer : List Frame) : List UInt8 := if outer = [] then [] else List.replicate 4 0

/-- The open bundles behind the bytes outside of them. -/
def renderFrames (base : List UInt8) : List Frame → List UInt8
  | [] => base
  | f :: fs => renderFrames base fs ++ (gap fs ++ f.encode)

/-- Where the open bundles start. -/
def positions (base : List UInt8) : List Frame → List ℕ
  | [] => []
  | _ :: fs => (renderFrames base fs ++ gap fs).length :: positions base fs

def Draft.base (d : Draft) : List UInt8 := d.done.flatMap Item.encode

def Draft.render (d : Draft) : List UInt8 := renderFrames d.base d.opened

/-- The writer stores the draft. -/
structure PacketWriter.Renders (pw : PacketWriter) (d : Draft) : Prop where
  storage : pw.storage = d.render
  bundles : pw.bundles = positions d.base d.opened

mutual
theorem Item.encode_aligned : ∀ item : Item, item.encode.length % 4 = 0
  | .message msg => msg.packed_aligned
  | .bundle ts items => by
    have hitems := encodeItems_aligned items
    have hempty : (emptyBody items).length % 4 = 0 := by cases items <;> rfl
    simp only [Item.encode, List.length_append, bundleHeader_length]
    omega

theorem encodeItems_aligned : ∀ items : List Item, (encodeItems items).length % 4 = 0
  | [] => rfl
  | item :: items => by
    have hitem := item.encode_aligned
    have hitems := encodeItems_aligned items
    simp only [encodeItems, List.length_append, toBigEndian_length]
    omega
end

theorem gap_length (fs : List Frame) : (gap fs).length = if fs = [] then 0 else 4 := by
  unfold gap
  split <;> rfl

theorem gap_aligned (fs : List Frame) : (gap fs).length % 4 = 0 := by
  rw [gap_length]
  split <;> rfl

theorem base_aligned (items : List Item) : (items.flatMap Item.encode).length % 4 = 0 := by
  induction items with
  | nil => rfl
  | cons item items ih =>
    have := item.encode_aligned
    rw [List.flatMap_cons, List.length_append]
    omega

theorem renderFrames_aligned {base : List UInt8} (h : base.length % 4 = 0) (fs : List Frame) :
    (renderFrames base fs).length % 4 = 0 := by
  induction fs with
  | nil => exact h
  | cons f fs ih =>
    have hgap := gap_aligned fs
    have hitems := encodeItems_aligned f.items
    simp only [renderFrames, Frame.encode, List.length_append, bundleHeader_length]
    omega

theorem Draft.render_aligned (d : Draft) : d.render.length % 4 = 0 :=
  renderFrames_aligned (base_aligned d.done) d.opened

theorem encodeItems_eq_nil {items : List Item} : (encodeItems items).length = 0 ↔ items = [] := by
  cases items with
  | nil => simp [encodeItems]
  | cons item items => simp [encodeItems]

theorem positions_eq_nil {base : List UInt8} {fs : List Frame} :
    positions base fs = [] ↔ fs = [] := by
  cases fs <;> simp [positions]

theorem Item.encode_ne_nil (item : Item) : item.encode ≠ [] := by
  intro hnil
  have hlen := congrArg List.length hnil
  cases item with
  | message msg =>
    have := le_ceil4 (msg.address.length + 1)
    rw [Item.encode, Message.packed_length, List.length_nil] at hlen
    omega
  | bundle ts items =>
    simp only [Item.encode, List.length_append, bundleHeader_length, List.length_nil] at hlen
    omega

/-- Only the empty draft has no bytes. -/
theorem Draft.render_eq_nil (d : Draft) : d.render.length = 0 ↔ d.isEmpty = true := by
  obtain ⟨done, opened⟩ := d
  cases opened with
  | cons f fs =>
    simp [render, isEmpty, renderFrames, Frame.encode, bundleHeader, bundleTag]
  | nil =>
    cases done with
    | nil => simp [render, isEmpty, renderFrames, base]
    | cons item items => simp [render, isEmpty, renderFrames, base, item.encode_ne_nil]

/-- The bytes that an added element takes. -/
theorem Draft.render_add (d : Draft) (item : Item) : (d.add item).render =
    d.render ++ ((if d.opened = [] then [] else toBigEndian 4 item.encode.length) ++
      item.encode) := by
  obtain ⟨done, opened⟩ := d
  cases opened with
  | nil => simp [add, render, base, renderFrames]
  | cons f fs =>
    simp [add, render, base, renderFrames, Frame.encode, encodeItems_append, encodeItems]

theorem Draft.positions_add (d : Draft) (item : Item) :
    positions (d.add item).base (d.add item).opened = positions d.base d.opened := by
  obtain ⟨done, opened⟩ := d
  cases opened with
  | nil => rfl
  | cons f fs => rfl

section Refinement
variable {pw : PacketWriter} {d : Draft} (h : pw.Renders d)
include h

theorem PacketWriter.Renders.aligned : pw.storage.length % 4 = 0 := by
  rw [h.storage]
  exact d.render_aligned

theorem PacketWriter.Renders.bundles_eq_nil : pw.bundles = [] ↔ d.opened = [] := by
  rw [h.bundles, positions_eq_nil]

theorem PacketWriter.Renders.startBundle (ts : BitVec 64) : ∃ pw', pw.startBundle ts = .ok pw' ∧
    pw'.Renders (d.step (.startBundle ts)) ∧ pw'.err = pw.err := by
  obtain ⟨slot, hslot, hstart⟩ := startBundle_of_aligned h.aligned ts
  have hgap : slot = gap d.opened := by
    rw [hslot, gap]
    simp only [h.bundles_eq_nil]
  refine ⟨_, hstart, ⟨?_, ?_⟩, rfl⟩
  · rw [hgap, h.storage]
    simp [Draft.step, Draft.render, Draft.base, renderFrames, Frame.encode, encodeItems]
  · rw [hgap, h.storage, h.bundles]
    rfl

/-- The end of the innermost bundle completes its bytes. -/
theorem PacketWriter.Renders.fillEmpty {f : Frame} {fs : List Frame} (hd : d.opened = f :: fs) :
    PacketWriter.fillEmpty pw.storage (renderFrames d.base fs ++ gap fs).length =
      .ok (renderFrames d.base fs ++ (gap fs ++ (Item.bundle f.ts f.items).encode)) := by
  have hst : pw.storage = renderFrames d.base fs ++ (gap fs ++ f.encode) := by
    rw [h.storage, Draft.render, hd, renderFrames]
  have hlen : pw.storage.length - (renderFrames d.base fs ++ gap fs).length =
      16 + (encodeItems f.items).length := by
    simp only [hst, List.length_append, Frame.encode, bundleHeader_length]
    omega
  have hempty : (if 16 + (encodeItems f.items).length = 16 then toBigEndian 4 0 else []) =
      emptyBody f.items := by
    cases hitems : f.items with
    | nil => rfl
    | cons item items =>
      have hne := encodeItems_eq_nil.not.mpr (List.cons_ne_nil item items)
      rw [if_neg (by omega), emptyBody]
  rw [fillEmpty_of_aligned h.aligned, hlen, hempty, hst]
  simp [Item.encode, Frame.encode]

theorem PacketWriter.Renders.endBundle : ∃ pw', pw.endBundle = .ok pw' ∧
    pw'.Renders (d.step .endBundle) ∧ pw'.err = pw.err.set (d.errorOf .endBundle) := by
  cases hd : d.opened with
  | nil =>
    have hb := h.bundles_eq_nil.mpr hd
    refine ⟨pw.setErr (.code .invalidBundle), ?_, ?_, ?_⟩
    · unfold PacketWriter.endBundle
      rw [hb]
    · rw [Draft.step, hd]
      exact ⟨h.storage, h.bundles⟩
    · rw [Draft.errorOf, if_pos hd]
      rfl
  | cons f fs =>
    have hb : pw.bundles = (renderFrames d.base fs ++ gap fs).length :: positions d.base fs := by
      rw [h.bundles, hd, positions]
    let item : Item := .bundle f.ts f.items
    let outer : Draft := { d with opened := fs }
    have hstore : (if positions d.base fs ≠ [] then
        PacketWriter.storeSize (renderFrames d.base fs ++ (gap fs ++ item.encode))
          (renderFrames d.base fs ++ gap fs).length
        else .ok (renderFrames d.base fs ++ (gap fs ++ item.encode))) =
        .ok (outer.add item).render := by
      by_cases hfs : fs = []
      · rw [if_neg (not_not.mpr (positions_eq_nil.mpr hfs)), Draft.render_add]
        simp [outer, hfs, gap, Draft.render, renderFrames, Draft.base]
      · have hslot : (gap fs).length = 4 := by rw [gap_length, if_neg hfs]
        rw [if_pos (positions_eq_nil.not.mpr hfs), storeSize_append hslot rfl, Draft.render_add,
          if_neg hfs]
        rfl
    refine ⟨{ pw with bundles := positions d.base fs, storage := (outer.add item).render },
      ?_, ?_, ?_⟩
    · unfold PacketWriter.endBundle
      rw [hb]
      simp only [h.fillEmpty hd, ok_bind, item, hstore]
    · have hstep : d.step .endBundle = outer.add item := by
        rw [Draft.step, hd]
      rw [hstep]
      exact ⟨rfl, (outer.positions_add item).symm⟩
    · have hne : d.opened ≠ [] := by
        rw [hd]
        exact List.cons_ne_nil f fs
      rw [Draft.errorOf, if_neg hne, WriterErrorCode.set_ok]

theorem PacketWriter.Renders.addMessage (msg : Message) : ∃ pw', pw.addMessage msg = .ok pw' ∧
    pw'.Renders (d.step (.addMessage msg)) ∧
    pw'.err = pw.err.set (d.errorOf (.addMessage msg)) := by
  have hempty : pw.storage.length ≠ 0 ∧ pw.bundles = [] ↔ ¬ d.isEmpty ∧ d.opened = [] := by
    rw [h.storage, Ne, d.render_eq_nil, h.bundles_eq_nil]
  unfold PacketWriter.addMessage
  by_cases hmulti : ¬ d.isEmpty ∧ d.opened = []
  · -- a second message outside of all bundles: the error of the message itself comes too late
    have herr : d.errorOf (.addMessage msg) = .bundleRequiredForMultiMessages := by
      rw [Draft.errorOf, if_pos hmulti]
    have hstep : d.step (.addMessage msg) = d := by
      rw [Draft.step, herr, if_neg (by decide)]
    rw [if_pos (hempty.mpr hmulti), ok_bind, hstep, herr]
    refine ⟨_, rfl, ?_, ?_⟩
    · split <;> exact ⟨h.storage, h.bundles⟩
    · split
      · rfl
      · exact WriterErrorCode.set_assoc _ _ _
  · have herr : d.errorOf (.addMessage msg) = .code msg.err := by
      rw [Draft.errorOf, if_neg hmulti]
    rw [if_neg (hempty.not.mpr hmulti), Draft.step, herr]
    cases hok : msg.isOk with
    | true =>
      have hmsg : msg.err = .okNoError := of_decide_eq_true hok
      rw [packMessage_of_ok hok h.aligned, hmsg, if_pos rfl, WriterErrorCode.set_ok]
      refine ⟨_, rfl, ⟨?_, ?_⟩, rfl⟩
      · rw [Draft.render_add, ← h.storage]
        by_cases hd : d.opened = []
        · simp [hd, h.bundles_eq_nil.mpr hd, Item.encode]
        · simp [hd, h.bundles_eq_nil.not.mpr hd, Item.encode]
      · rw [Draft.positions_add]
        exact h.bundles
    | false =>
      have hmsg : msg.err ≠ .okNoError := of_decide_eq_false hok
      rw [packMessage_of_err hok, if_neg (by simpa using hmsg)]
      exact ⟨_, rfl, ⟨h.storage, h.bundles⟩, rfl⟩

/-- Every call refines a step of the draft, and sets the error of that step. -/
theorem PacketWriter.Renders.call (c : WriterCall) : ∃ pw', pw.call c = .ok pw' ∧
    pw'.Renders (d.step c) ∧ pw'.err = pw.err.set (d.errorOf c) := by
  cases c with
  | startBundle ts =>
    obtain ⟨pw', hr, hd, herr⟩ := h.startBundle ts
    exact ⟨pw', hr, hd, by rw [herr, Draft.errorOf, WriterErrorCode.set_ok]⟩
  | endBundle => exact h.endBundle
  | addMessage msg => exact h.addMessage msg

end Refinement

theorem PacketWriter.Renders.calls (cs : List WriterCall) {pw : PacketWriter} {d : Draft}
    (h : pw.Renders d) : ∃ pw', pw.calls cs = .ok pw' ∧ pw'.Renders (d.run cs) ∧
      pw'.err = pw.err.set (d.firstError cs) := by
  induction cs generalizing pw d with
  | nil => exact ⟨pw, rfl, h, (WriterErrorCode.set_ok _).symm⟩
  | cons c cs ih =>
    obtain ⟨pw₁, h₁, hd₁, herr₁⟩ := h.call c
    obtain ⟨pw₂, h₂, hd₂, herr₂⟩ := ih hd₁
    refine ⟨pw₂, by rw [PacketWriter.calls, h₁, ok_bind, h₂], hd₂, ?_⟩
    rw [herr₂, herr₁, WriterErrorCode.set_assoc]
    rfl

theorem renders_init : PacketWriter.init.Renders .init := ⟨rfl, rfl⟩

end Moodpd.Oscpkt
