import Moodpd.OscDraft
import Moodpd.OscPop

/-!
# From the writer to the reader

What `PacketReader` makes of the bytes that a `PacketWriter` has stored. A single complete
element is read back with its values and with the time tag of the innermost bundle around
each message. Everything else that the writer lets pass is rejected, apart from an outermost
bundle that has elements and was never closed.
-/
namespace Moodpd.Oscpkt
open Memory

/-- A message that OSC can carry: its address is a path without a NUL, and its storage is
that of its values. -/
structure Message.Sendable (msg : Message) : Prop where
  slash : msg.address.head? = some 47
  nul : 0 ∉ msg.address
  values : ∃ vs, msg.Holds vs ∧ msg.storage = encodeValues vs

theorem Message.Built.sendable {msg : Message} {address : List UInt8} {timeTag : ℕ}
    {vs : List Value} (h : msg.Built address timeTag vs) (hslash : address.head? = some 47)
    (hnul : 0 ∉ address) : msg.Sendable :=
  ⟨by rw [h.address, hslash], by rwa [h.address], vs, h.toHolds, h.storage⟩

/-- A message that was received for one that was sent. -/
structure Received (timeTag : ℕ) (msg r : Message) : Prop where
  timeTag : r.timeTag = timeTag
  address : r.address = msg.address
  values : ∃ vs, msg.Holds vs ∧ r.Holds vs

/-- The bytes of an address and of values are read back as a message that holds the values,
with an error if other bytes follow them. -/
theorem ofRawData_values {address : List UInt8} (slash : address.head? = some 47)
    (nul : 0 ∉ address) {vs : List Value} {d more : List UInt8}
    (hd : d = padded address ++ (padded (44 :: vs.map Value.tag) ++ (encodeValues vs ++ more)))
    (timeTag : ℕ) : ∃ r, Message.ofRawData d timeTag = .ok r ∧ r.address = address ∧
      r.timeTag = timeTag ∧ (more = [] → r.Holds vs) ∧
      (more ≠ [] → r.err = .malformedArguments) := by
  have htags : 0 ∉ vs.map Value.tag := by
    rw [List.mem_map]
    rintro ⟨v, -, hv⟩
    exact v.tag_ne_nul hv
  have hal : (padded address).length % 4 = 0 := by
    rw [padded_length]
    exact ceil4_mod _
  have hpre : (padded address ++ padded (44 :: vs.map Value.tag)).length % 4 = 0 := by
    have := ceil4_mod ((44 :: vs.map Value.tag).length + 1)
    rw [List.length_append, padded_length (44 :: vs.map Value.tag)]
    omega
  obtain ⟨args, hr, hstored⟩ := readArgs_values vs
    ⟨1, address, vs.map Value.tag, [], d, .okNoError⟩ _ more hpre rfl
    (by rw [hd, List.append_assoc])
  have hlen : ((padded address ++ padded (44 :: vs.map Value.tag)) ++ encodeValues vs).length ≠
      d.length ↔ more ≠ [] := by
    have hnil : more ≠ [] ↔ more.length ≠ 0 := List.length_eq_zero_iff.not.symm
    rw [hd, hnil]
    simp only [List.length_append]
    omega
  let r : Message := ⟨1, address, vs.map Value.tag, args, d, .okNoError⟩
  have hbuild : Message.buildFromRawData d =
      .ok (if more ≠ [] then r.setErr .malformedArguments else r) := by
    rw [buildFromRawData_padded hd slash nul, readTypeTags_padded hal hd htags]
    simp only [Message.clear, hr, ok_bind, hlen, List.nil_append, r]
    by_cases hmore : more = [] <;> simp [hmore]
  refine ⟨{ (if more ≠ [] then r.setErr .malformedArguments else r) with timeTag := timeTag },
    by rw [Message.ofRawData, hbuild, ok_bind], ?_, rfl, fun hmore => ?_, fun hmore => ?_⟩
  · by_cases hmore : more = [] <;> simp [hmore, r, Message.setErr]
  · rw [if_neg (not_not.mpr hmore)]
    exact ⟨rfl, rfl, hstored⟩
  · rw [if_pos hmore]
    rfl

section Sendable
variable {msg : Message} (h : msg.Sendable)
include h

theorem Message.Sendable.isOk : msg.isOk = true := by
  obtain ⟨vs, hvs, -⟩ := h.values
  exact decide_eq_true hvs.err

theorem Message.Sendable.tags_nul : 0 ∉ msg.typeTags := by
  obtain ⟨vs, hvs, -⟩ := h.values
  rw [hvs.typeTags, List.mem_map]
  rintro ⟨v, -, hv⟩
  exact v.tag_ne_nul hv

theorem Message.Sendable.packed_eq : msg.packed =
    padded msg.address ++ (padded (44 :: msg.typeTags) ++ msg.storage) := by
  have hal : msg.storage.length % 4 = 0 := by
    obtain ⟨vs, -, hst⟩ := h.values
    rw [hst]
    exact encodeValues_aligned vs
  have htags : 0 ∉ 44 :: msg.typeTags := by
    rw [List.mem_cons, not_or]
    exact ⟨by decide, h.tags_nul⟩
  rw [Message.packed, slot_of_nul h.nul, slot_of_nul htags, ceil4_of_mod hal, Nat.sub_self,
    List.replicate_zero, List.append_nil]

theorem Message.Sendable.packed_head (more : List UInt8) : (msg.packed ++ more).head? = some 47 := by
  obtain ⟨s, hs⟩ := List.head?_eq_some_iff.mp h.slash
  simp [h.packed_eq, padded, hs]

/-- A packed message is read back, with an error if other bytes follow it. -/
theorem ofRawData_packed (more : List UInt8) (timeTag : ℕ) :
    ∃ r, Message.ofRawData (msg.packed ++ more) timeTag = .ok r ∧
      (more = [] → Received timeTag msg r) ∧ (more ≠ [] → r.err = .malformedArguments) := by
  obtain ⟨vs, hvs, hst⟩ := h.values
  have hd : msg.packed ++ more = padded msg.address ++
      (padded (44 :: vs.map Value.tag) ++ (encodeValues vs ++ more)) := by
    rw [h.packed_eq, hvs.typeTags, hst]
    simp
  obtain ⟨r, hr, haddress, htime, hholds, herr⟩ := ofRawData_values h.slash h.nul hd timeTag
  exact ⟨r, hr, fun hmore => ⟨htime, haddress, vs, hvs, hholds hmore⟩, herr⟩

end Sendable

mutual
/-- The messages of an element, each with the time tag of the innermost bundle around it. -/
def Item.messages (ts : ℕ) : Item → List (ℕ × Message)
  | .message msg => [(ts, msg)]
  | .bundle ts' items => itemMessages ts'.toNat items

def itemMessages (ts : ℕ) : List Item → List (ℕ × Message)
  | [] => []
  | item :: items => item.messages ts ++ itemMessages ts items
end

mutual
def Item.Sendable : Item → Prop
  | .message msg => msg.Sendable
  | .bundle _ items => SendableItems items

def SendableItems : List Item → Prop
  | [] => True
  | item :: items => item.Sendable ∧ SendableItems items
end

def ReceivedAll (sent : List (ℕ × Message)) (received : List Message) : Prop :=
  List.Forall₂ (fun x r => Received x.1 x.2 r) sent received

/-- One turn of the loop over an element whose messages are read. -/
theorem bundleLoop_element {body es : List UInt8} {fuel timeTag : ℕ} {pr : PacketReader}
    {ms : List Message} (hsize : body.length < 2 ^ 32) (hbody : body.length % 4 = 0)
    (hp : PacketReader.parse fuel body timeTag pr = .ok ⟨pr.messages ++ ms, .okNoError⟩) :
    PacketReader.bundleLoop (fuel + 1) (toBigEndian 4 body.length ++ (body ++ es)) timeTag pr =
      if es = [] then .ok ⟨pr.messages ++ ms, .okNoError⟩
      else PacketReader.bundleLoop fuel es timeTag ⟨pr.messages ++ ms, .okNoError⟩ := by
  rw [bundleLoop_cons hsize hbody, hp, ok_bind]
  by_cases hes : es = [] <;> simp [hes, PacketReader.isOk]

/-- The zero in an empty bundle is read as an element without a message. -/
theorem bundleLoop_empty (fuel timeTag : ℕ) {pr : PacketReader} (hpr : pr.err = .okNoError) :
    PacketReader.bundleLoop (fuel + 2) (toBigEndian 4 0) timeTag pr = .ok pr := by
  have hp : PacketReader.parse (fuel + 1) [] timeTag pr = .ok ⟨pr.messages ++ [], .okNoError⟩ := by
    rw [parse_nil hpr, List.append_nil, ← hpr]
  have hloop := @bundleLoop_element [] [] (fuel + 1) timeTag pr [] (by decide) rfl hp
  rw [if_pos rfl, List.append_nil, List.append_nil, ← hpr, List.append_nil] at hloop
  exact hloop

mutual
theorem parse_item : ∀ (item : Item), item.Sendable → item.encode.length < 2 ^ 32 →
    ∀ {fuel : ℕ} (timeTag : ℕ) {pr : PacketReader}, item.encode.length < fuel →
      pr.err = .okNoError → ∃ ms, ReceivedAll (item.messages timeTag) ms ∧
        PacketReader.parse fuel item.encode timeTag pr = .ok ⟨pr.messages ++ ms, .okNoError⟩
  | .message msg, h, _, fuel + 1, timeTag, pr, _, hpr => by
    obtain ⟨r, hr, hrec, -⟩ := ofRawData_packed h [] timeTag
    have hhead := h.packed_head []
    rw [List.append_nil] at hr hhead
    obtain ⟨vs, -, hvs⟩ := (hrec rfl).values
    refine ⟨[r], .cons (hrec rfl) .nil, ?_⟩
    rw [Item.encode, parse_message hpr msg.packed_aligned hhead (by decide), hr]
    simp [Message.isOk, hvs.err, hpr]
  | .bundle ts [], _, _, fuel + 1, timeTag, pr, hf, hpr => by
    obtain ⟨fuel, rfl⟩ : ∃ n, fuel = n + 2 := ⟨fuel - 2, by
      simp only [Item.encode, List.length_append, bundleHeader_length] at hf
      omega⟩
    refine ⟨[], .nil, ?_⟩
    rw [Item.encode, bundleHeader, List.append_assoc, encodeItems, List.nil_append, emptyBody,
      parse_bundle hpr (toBigEndian_length 8 _) rfl (by simp [toBigEndian]),
      bundleLoop_empty _ _ hpr, List.append_nil, ← hpr]
  | .bundle ts (item :: items), h, hsize, fuel + 1, timeTag, pr, hf, hpr => by
    have hts : bigEndian (toBigEndian 8 ts.toNat) = ts.toNat := bigEndian_toBigEndian ts.isLt
    simp only [Item.encode, emptyBody, List.append_nil, List.length_append,
      bundleHeader_length] at hsize hf
    obtain ⟨ms, fuel', -, hrec, hloop⟩ := bundleLoop_items (item :: items) h (by omega)
      (List.cons_ne_nil _ _) [] ts.toNat (show (encodeItems (item :: items) ++ []).length < fuel by
        rw [List.append_nil]; omega) hpr
    rw [List.append_nil, if_pos rfl] at hloop
    refine ⟨ms, hrec, ?_⟩
    rw [Item.encode, bundleHeader, emptyBody, List.append_nil, List.append_assoc,
      parse_bundle hpr (toBigEndian_length 8 _) (encodeItems_aligned _)
        (by simp [encodeItems, item.encode_ne_nil]), hts]
    exact hloop

/-- The loop reads the elements it is given and goes on behind them. -/
theorem bundleLoop_items : ∀ (items : List Item), SendableItems items →
    (encodeItems items).length < 2 ^ 32 → items ≠ [] → ∀ (more : List UInt8) {fuel : ℕ}
      (timeTag : ℕ) {pr : PacketReader}, (encodeItems items ++ more).length < fuel →
      pr.err = .okNoError → ∃ ms fuel', more.length < fuel' ∧
        ReceivedAll (itemMessages timeTag items) ms ∧
        PacketReader.bundleLoop fuel (encodeItems items ++ more) timeTag pr =
          if more = [] then .ok ⟨pr.messages ++ ms, .okNoError⟩
          else PacketReader.bundleLoop fuel' more timeTag ⟨pr.messages ++ ms, .okNoError⟩
  | [], _, _, hne, _, _, _, _, _, _ => absurd rfl hne
  | item :: items, h, hsize, _, more, fuel + 1, timeTag, pr, hf, hpr => by
    simp only [encodeItems, List.append_assoc, List.length_append, toBigEndian_length] at hsize hf ⊢
    obtain ⟨ms, hrec, hp⟩ := parse_item item h.1 (by omega) timeTag
      (show item.encode.length < fuel by omega) hpr
    rw [bundleLoop_element (by omega) item.encode_aligned hp]
    cases hitems : items with
    | nil =>
      refine ⟨ms, fuel, by omega, by simpa [itemMessages] using hrec, ?_⟩
      by_cases hmore : more = [] <;> simp [hmore, encodeItems]
    | cons item' items' =>
      obtain ⟨ns, fuel', hlt, hrec', hloop⟩ := bundleLoop_items items h.2 (by omega)
        (by simp [hitems]) more timeTag (show (encodeItems items ++ more).length < fuel by
          rw [List.length_append]; omega)
        (show (⟨pr.messages ++ ms, .okNoError⟩ : PacketReader).err = .okNoError from rfl)
      refine ⟨ms ++ ns, fuel', hlt, ?_, ?_⟩
      · rw [← hitems]
        exact List.rel_append hrec hrec'
      · have hne : encodeItems items ++ more ≠ [] := by simp [hitems, encodeItems, item'.encode_ne_nil]
        rw [← hitems, if_neg hne, hloop, List.append_assoc]
end

/-- The loop does not take the name of a bundle for a size. -/
theorem bundleLoop_bundleTag (u : List UInt8) (fuel timeTag : ℕ) (pr : PacketReader) :
    PacketReader.bundleLoop (fuel + 1) (bundleTag ++ u) timeTag pr =
      .ok (pr.setErr .invalidBundle) := by
  have hr : readBigEndian (bundleTag ++ u) 4 0 = .ok (bigEndian [35, 98, 117, 110]) :=
    @readBigEndian_append [] [35, 98, 117, 110] 4 0 rfl rfl ([100, 108, 101, 0] ++ u)
  exact bundleLoop_bad_size hr (.inl (by decide))

/-- Nor behind the gap for the size of a bundle that is not closed. -/
theorem bundleLoop_gap (u : List UInt8) (fuel timeTag : ℕ) {pr : PacketReader}
    (hpr : pr.err = .okNoError) :
    PacketReader.bundleLoop (fuel + 2) (toBigEndian 4 0 ++ (bundleTag ++ u)) timeTag pr =
      .ok (pr.setErr .invalidBundle) := by
  have hp : PacketReader.parse (fuel + 1) [] timeTag pr = .ok ⟨pr.messages ++ [], .okNoError⟩ := by
    rw [parse_nil hpr, List.append_nil, ← hpr]
  have hloop := @bundleLoop_element [] (bundleTag ++ u) (fuel + 1) timeTag pr [] (by decide) rfl hp
  rw [List.nil_append, if_neg (by simp [bundleTag]), List.append_nil, ← hpr,
    bundleLoop_bundleTag] at hloop
  exact hloop

/-- Bytes that the loop does not take for an element, or not for more than an empty one. -/
inductive Blocks : List UInt8 → Prop
  | bundle (u : List UInt8) : Blocks (bundleTag ++ u)
  | gap (u : List UInt8) : Blocks (toBigEndian 4 0 ++ (bundleTag ++ u))

theorem Blocks.ne_nil {more : List UInt8} (h : Blocks more) : more ≠ [] := by
  cases h <;> simp [bundleTag, toBigEndian]

theorem Blocks.bundleLoop {more : List UInt8} (h : Blocks more) (fuel timeTag : ℕ)
    {pr : PacketReader} (hpr : pr.err = .okNoError) :
    PacketReader.bundleLoop (fuel + 2) more timeTag pr = .ok (pr.setErr .invalidBundle) := by
  cases h with
  | bundle u => exact bundleLoop_bundleTag u _ timeTag pr
  | gap u => exact bundleLoop_gap u fuel timeTag hpr

/-- An element that blocks the loop makes the packet invalid. -/
theorem bundleLoop_blocked {items : List Item} (h : SendableItems items)
    (hsize : (encodeItems items).length < 2 ^ 32) {more : List UInt8} (hmore : Blocks more)
    {fuel : ℕ} (timeTag : ℕ) {pr : PacketReader} (hf : (encodeItems items ++ more).length < fuel)
    (hpr : pr.err = .okNoError) : ∃ pr', pr'.err ≠ .okNoError ∧
      PacketReader.bundleLoop fuel (encodeItems items ++ more) timeTag pr = .ok pr' := by
  have hlen : 8 ≤ more.length := by
    cases hmore <;> simp only [bundleTag, List.length_append, List.length_cons] <;> omega
  have hstep : ∀ n, 2 ≤ n → ∃ m, n = m + 2 := fun n hn => ⟨n - 2, by omega⟩
  rw [List.length_append] at hf
  cases hitems : items with
  | nil =>
    obtain ⟨n, rfl⟩ := hstep fuel (by omega)
    exact ⟨_, setErr_ne (by decide), hmore.bundleLoop n timeTag hpr⟩
  | cons item items' =>
    obtain ⟨ms, fuel', hlt, -, hloop⟩ := bundleLoop_items items h hsize (by simp [hitems]) more
      timeTag (show (encodeItems items ++ more).length < fuel by rw [List.length_append]; exact hf)
      hpr
    obtain ⟨n, rfl⟩ := hstep fuel' (by omega)
    rw [if_neg hmore.ne_nil, hmore.bundleLoop n timeTag rfl] at hloop
    exact ⟨_, setErr_ne (by decide), hitems ▸ hloop⟩

/-- The messages that a reader finds in the bytes of a draft, if it accepts them. -/
def Draft.delivers (d : Draft) : Option (List (ℕ × Message)) :=
  match d.done, d.opened with
  | [], [] => some []
  | [item], [] => some (item.messages 1)
  | [], [f] => if f.items.isEmpty then none else some (itemMessages f.ts.toNat f.items)
  | _, _ => none

/-- A reading that finds these messages, or ends with an error. -/
def Reads (data : List UInt8) (sent : Option (List (ℕ × Message))) : Prop :=
  ∃ pr, PacketReader.init data = .ok pr ∧
    match sent with
    | some sent => pr.err = .okNoError ∧ ReceivedAll sent pr.messages
    | none => pr.err ≠ .okNoError

theorem reads_of_parse {data : List UInt8} (hal : data.length % 4 = 0) {pr : PacketReader}
    (hp : PacketReader.parse (data.length + 1) data 1 .empty = .ok pr)
    {sent : Option (List (ℕ × Message))}
    (h : match sent with
      | some sent => pr.err = .okNoError ∧ ReceivedAll sent pr.messages
      | none => pr.err ≠ .okNoError) : Reads data sent := by
  refine ⟨pr, ?_, h⟩
  unfold PacketReader.init
  rw [if_pos hal, hp]

theorem reads_item {item : Item} (h : item.Sendable) (hsize : item.encode.length < 2 ^ 32) :
    Reads item.encode (some (item.messages 1)) := by
  obtain ⟨ms, hrec, hp⟩ := parse_item item h hsize 1 (Nat.lt_succ_self _)
    (show PacketReader.empty.err = .okNoError from rfl)
  exact reads_of_parse item.encode_aligned hp ⟨rfl, hrec⟩

/-- A bundle's bytes are read by the loop. -/
theorem parse_header {ts : BitVec 64} {es : List UInt8} (hal : es.length % 4 = 0) (hne : es ≠ [])
    (fuel : ℕ) : PacketReader.parse (fuel + 1) (bundleHeader ts ++ es) 1 .empty =
      PacketReader.bundleLoop fuel es ts.toNat .empty := by
  have hts : bigEndian (toBigEndian 8 ts.toNat) = ts.toNat := bigEndian_toBigEndian ts.isLt
  rw [bundleHeader, List.append_assoc, parse_bundle rfl (toBigEndian_length 8 _) hal hne, hts]

theorem reads_blocked {ts : BitVec 64} {items : List Item} (h : SendableItems items)
    (hsize : (encodeItems items).length < 2 ^ 32) {more : List UInt8} (hmore : Blocks more)
    (hal : more.length % 4 = 0) : Reads (bundleHeader ts ++ (encodeItems items ++ more)) none := by
  have halign : (encodeItems items ++ more).length % 4 = 0 := by
    have := encodeItems_aligned items
    rw [List.length_append]
    omega
  have hne : encodeItems items ++ more ≠ [] := by simp [hmore.ne_nil]
  obtain ⟨pr, herr, hloop⟩ := bundleLoop_blocked h hsize hmore ts.toNat
    (show (encodeItems items ++ more).length < (bundleHeader ts ++ (encodeItems items ++ more)).length
      by simp only [List.length_append, bundleHeader_length]; omega)
    (show PacketReader.empty.err = .okNoError from rfl)
  rw [← parse_header halign hne] at hloop
  refine reads_of_parse ?_ hloop herr
  rw [List.length_append, bundleHeader_length]
  omega

/-- A bundle without so much as an empty element is none. -/
theorem reads_header_only (ts : BitVec 64) : Reads (bundleHeader ts ++ encodeItems []) none := by
  have hal : (bundleHeader ts ++ encodeItems []).length % 4 = 0 := by
    simp [encodeItems]
  have hbad : ¬ (20 ≤ (bundleHeader ts ++ encodeItems []).length ∧
      (bundleHeader ts ++ encodeItems []).take 8 = bundleTag) := by
    simp [encodeItems]
  exact reads_of_parse hal (parse_bad_header rfl hal rfl hbad) (setErr_ne (by decide))

/-- An outermost bundle needs no end. -/
theorem reads_unclosed {ts : BitVec 64} {items : List Item} (h : SendableItems items)
    (hsize : (encodeItems items).length < 2 ^ 32) (hne : items ≠ []) :
    Reads (bundleHeader ts ++ encodeItems items) (some (itemMessages ts.toNat items)) := by
  have hal := encodeItems_aligned items
  have hbytes : encodeItems items ≠ [] := fun hnil =>
    hne (encodeItems_eq_nil.mp (List.length_eq_zero_iff.mpr hnil))
  obtain ⟨ms, fuel', -, hrec, hloop⟩ := bundleLoop_items items h hsize hne [] ts.toNat
    (show (encodeItems items ++ []).length < (bundleHeader ts ++ encodeItems items).length by
      simp only [List.length_append, bundleHeader_length, List.length_nil]; omega)
    (show PacketReader.empty.err = .okNoError from rfl)
  rw [List.append_nil, if_pos rfl, ← parse_header hal hbytes] at hloop
  refine reads_of_parse ?_ hloop ⟨rfl, hrec⟩
  rw [List.length_append, bundleHeader_length]
  omega

/-- A message is the last thing of a packet that it starts. -/
theorem reads_message_more {msg : Message} (h : msg.Sendable) {more : List UInt8} (hne : more ≠ [])
    (hal : more.length % 4 = 0) : Reads (msg.packed ++ more) none := by
  obtain ⟨r, hr, -, herr⟩ := ofRawData_packed h more 1
  have halign : (msg.packed ++ more).length % 4 = 0 := by
    have := msg.packed_aligned
    rw [List.length_append]
    omega
  have hp := @parse_message _ (msg.packed ++ more).length 1 .empty _ rfl halign (h.packed_head more)
    (by decide)
  have hbad : r.isOk = false := by simp [Message.isOk, herr hne]
  simp only [hr, ok_bind, hbad, Bool.false_eq_true, if_false] at hp
  exact reads_of_parse halign hp (setErr_ne (by rw [herr hne]; decide))

/-- What the calls keep: after the first complete element there are only bundles, and all
messages can be sent. -/
structure Draft.Orderly (d : Draft) : Prop where
  bundles : ∀ item ∈ d.done.tail, ∃ ts items, item = .bundle ts items
  done : SendableItems d.done
  opened : ∀ f ∈ d.opened, SendableItems f.items

theorem sendableItems_append {is js : List Item} (hi : SendableItems is) (hj : SendableItems js) :
    SendableItems (is ++ js) := by
  induction is with
  | nil => exact hj
  | cons i is ih => exact ⟨hi.1, ih hi.2⟩

theorem tail_append_bundle {done : List Item} {item : Item}
    (h : ∀ i ∈ done.tail, ∃ ts items, i = .bundle ts items)
    (hitem : done = [] ∨ ∃ ts items, item = .bundle ts items) :
    ∀ i ∈ (done ++ [item]).tail, ∃ ts items, i = .bundle ts items := by
  cases done with
  | nil => simp
  | cons i₀ is =>
    intro i hi
    rw [List.cons_append, List.tail_cons, List.mem_append, List.mem_singleton] at hi
    rcases hi with hi | rfl
    · exact h i hi
    · exact hitem.resolve_left (List.cons_ne_nil i₀ is)

theorem Draft.Orderly.add {d : Draft} (h : d.Orderly) {item : Item} (hs : item.Sendable)
    (hfirst : d.opened = [] → d.done = [] ∨ ∃ ts items, item = .bundle ts items) :
    (d.add item).Orderly := by
  obtain ⟨done, opened⟩ := d
  have hone : SendableItems [item] := ⟨hs, trivial⟩
  cases opened with
  | nil =>
    exact ⟨tail_append_bundle h.bundles (hfirst rfl), sendableItems_append h.done hone, h.opened⟩
  | cons f fs =>
    refine ⟨h.bundles, h.done, fun g hg => ?_⟩
    rcases List.mem_cons.mp hg with rfl | hg
    · exact sendableItems_append (h.opened f List.mem_cons_self) hone
    · exact h.opened g (List.mem_cons_of_mem f hg)

theorem Draft.Orderly.step {d : Draft} (h : d.Orderly) (c : WriterCall)
    (hc : ∀ msg, c = .addMessage msg → msg.Sendable) : (d.step c).Orderly := by
  cases c with
  | startBundle ts =>
    refine ⟨h.bundles, h.done, fun g hg => ?_⟩
    rcases List.mem_cons.mp hg with rfl | hg
    · trivial
    · exact h.opened g hg
  | endBundle =>
    cases hd : d.opened with
    | nil =>
      rw [Draft.step, hd]
      exact h
    | cons f fs =>
      have hf := h.opened f (by rw [hd]; exact List.mem_cons_self)
      have houter : Draft.Orderly { d with opened := fs } :=
        ⟨h.bundles, h.done, fun g hg => h.opened g (by rw [hd]; exact List.mem_cons_of_mem f hg)⟩
      rw [Draft.step, hd]
      exact houter.add hf fun _ => .inr ⟨_, _, rfl⟩
  | addMessage msg =>
    rw [Draft.step]
    by_cases herr : d.errorOf (.addMessage msg) = .code .okNoError
    · rw [if_pos herr]
      refine h.add (hc msg rfl) fun hd => .inl ?_
      have hempty : ¬ (¬ d.isEmpty = true ∧ d.opened = []) := by
        intro hmulti
        rw [Draft.errorOf, if_pos hmulti] at herr
        cases herr
      simpa [Draft.isEmpty, hd] using hempty
    · rw [if_neg herr]
      exact h

theorem Draft.Orderly.run {cs : List WriterCall}
    (hcs : ∀ msg, WriterCall.addMessage msg ∈ cs → msg.Sendable) {d : Draft} (h : d.Orderly) :
    (d.run cs).Orderly := by
  induction cs generalizing d with
  | nil => exact h
  | cons c cs ih =>
    have hstep := h.step c fun msg hc => hcs msg (by rw [hc]; exact List.mem_cons_self)
    exact ih (fun msg hm => hcs msg (List.mem_cons_of_mem c hm)) hstep

theorem draft_init_orderly : Draft.init.Orderly :=
  ⟨fun _ h => absurd h List.not_mem_nil, trivial, fun _ h => absurd h List.not_mem_nil⟩

/-- The outermost open bundle comes first, and the next one blocks the loop over its
elements. -/
theorem renderFrames_outermost (base : List UInt8) (inner : List Frame) (f : Frame) :
    ∃ more, renderFrames base (inner ++ [f]) = base ++ (f.encode ++ more) ∧
      (inner = [] → more = []) ∧ (inner ≠ [] → Blocks more) := by
  induction inner with
  | nil => exact ⟨[], by simp [renderFrames, gap], fun _ => rfl, fun h => absurd rfl h⟩
  | cons g gs ih =>
    obtain ⟨more, hr, hnil, hblocks⟩ := ih
    refine ⟨more ++ (toBigEndian 4 0 ++ g.encode), ?_, fun h => absurd h (List.cons_ne_nil g gs),
      fun _ => ?_⟩
    · have hgap : gap (gs ++ [f]) = toBigEndian 4 0 := by
        rw [gap, if_neg (by simp)]
        rfl
      rw [List.cons_append, renderFrames, hr, hgap]
      simp
    · by_cases hgs : gs = []
      · rw [hnil hgs, List.nil_append, Frame.encode, bundleHeader, List.append_assoc]
        exact .gap _
      · cases hblocks hgs with
        | bundle u =>
          rw [List.append_assoc]
          exact .bundle _
        | gap u =>
          rw [List.append_assoc, List.append_assoc]
          exact .gap _

/-- What comes behind the first complete element starts like a bundle. -/
theorem render_cons {d : Draft} (h : d.Orderly) {item : Item} {items : List Item}
    (hd : d.done = item :: items) : ∃ more, d.render = item.encode ++ more ∧
      (more = [] ↔ items = [] ∧ d.opened = []) ∧ (more ≠ [] → ∃ u, more = bundleTag ++ u) := by
  have hrest : ∃ t, renderFrames (items.flatMap Item.encode) d.opened =
      items.flatMap Item.encode ++ t ∧ (t = [] ↔ d.opened = []) ∧
        (t ≠ [] → ∃ u, t = bundleTag ++ u) := by
    rcases List.eq_nil_or_concat d.opened with hop | ⟨inner, f, hop⟩
    · exact ⟨[], by rw [hop, List.append_nil, renderFrames], by simp [hop], fun h => absurd rfl h⟩
    · obtain ⟨more, hr, -, -⟩ := renderFrames_outermost (items.flatMap Item.encode) inner f
      rw [← List.concat_eq_append, ← hop] at hr
      refine ⟨_, hr, ?_, fun _ => ⟨_, by rw [Frame.encode, bundleHeader, List.append_assoc,
        List.append_assoc]⟩⟩
      simp [hop, Frame.encode, bundleHeader, bundleTag]
  have hframes : ∀ fs base pre, renderFrames (pre ++ base) fs = pre ++ renderFrames base fs := by
    intro fs base pre
    induction fs with
    | nil => rfl
    | cons f fs ih => simp [renderFrames, ih]
  obtain ⟨t, ht, htnil, htag⟩ := hrest
  refine ⟨items.flatMap Item.encode ++ t, ?_, ?_, ?_⟩
  · rw [Draft.render, Draft.base, hd, List.flatMap_cons, hframes, ht]
  · rw [List.append_eq_nil_iff, htnil]
    cases items with
    | nil => simp
    | cons i is => simp [i.encode_ne_nil]
  · intro hne
    cases items with
    | nil => exact htag hne
    | cons i is =>
      obtain ⟨ts, js, rfl⟩ := h.bundles i (by rw [hd]; exact List.mem_cons_self)
      exact ⟨_, by rw [List.flatMap_cons, Item.encode, bundleHeader, List.append_assoc,
        List.append_assoc, List.append_assoc]⟩

/-- The bytes of a draft are accepted when they are a single element, or one bundle with
elements that was not closed, and rejected otherwise. -/
theorem reads_draft {d : Draft} (h : d.Orderly) (hsize : d.render.length < 2 ^ 32) :
    Reads d.render d.delivers := by
  have hal := d.render_aligned
  obtain ⟨done, opened⟩ := d
  cases hdone : done with
  | cons item items =>
    obtain ⟨more, hr, hnil, htag⟩ := render_cons h hdone
    rw [hr] at hal hsize
    subst hdone
    rw [hr]
    by_cases hmore : more = []
    · obtain ⟨rfl, hop⟩ := hnil.mp hmore
      have hop' : opened = [] := hop
      subst hmore hop'
      rw [List.append_nil] at hsize ⊢
      exact reads_item h.done.1 hsize
    · have hnone : Draft.delivers ⟨item :: items, opened⟩ = none := by
        cases items with
        | cons i is => rfl
        | nil =>
          cases opened with
          | cons f fs => rfl
          | nil => exact absurd (hnil.mpr ⟨rfl, rfl⟩) hmore
      have hitem := item.encode_aligned
      rw [List.length_append] at hal hsize
      rw [hnone]
      cases item with
      | message msg => exact reads_message_more h.done.1 hmore (by omega)
      | bundle ts js =>
        obtain ⟨u, rfl⟩ := htag hmore
        have hblocks : Blocks (emptyBody js ++ (bundleTag ++ u)) := by
          cases js with
          | nil => exact .gap u
          | cons j js => exact .bundle u
        simp only [Item.encode, List.length_append, bundleHeader_length] at hsize hal hitem
        rw [Item.encode, List.append_assoc, List.append_assoc]
        refine reads_blocked h.done.1 (by omega) hblocks ?_
        have := encodeItems_aligned js
        simp only [List.length_append]
        omega
  | nil =>
    subst hdone
    rcases List.eq_nil_or_concat opened with hop | ⟨inner, f, hop⟩
    · subst hop
      exact reads_of_parse rfl (parse_nil rfl) ⟨rfl, .nil⟩
    · rw [List.concat_eq_append] at hop
      subst hop
      have hf := h.opened f (by simp)
      obtain ⟨more, hr, hnil, hblocks⟩ := renderFrames_outermost [] inner f
      have hrender : Draft.render ⟨[], inner ++ [f]⟩ =
          bundleHeader f.ts ++ (encodeItems f.items ++ more) := by
        rw [Draft.render, Draft.base, List.flatMap_nil, hr, Frame.encode, List.nil_append,
          List.append_assoc]
      rw [hrender] at hal hsize ⊢
      simp only [List.length_append, bundleHeader_length] at hal hsize
      have hitems := encodeItems_aligned f.items
      by_cases hinner : inner = []
      · obtain rfl := hnil hinner
        subst hinner
        rw [List.append_nil]
        by_cases hempty : f.items = []
        · have hnone : Draft.delivers ⟨[], [] ++ [f]⟩ = none := by
            simp [Draft.delivers, hempty]
          rw [hnone, hempty]
          exact reads_header_only f.ts
        · have hsome : Draft.delivers ⟨[], [] ++ [f]⟩ =
              some (itemMessages f.ts.toNat f.items) := by
            simp [Draft.delivers, hempty]
          rw [hsome]
          exact reads_unclosed hf (by omega) hempty
      · have hnone : Draft.delivers ⟨[], inner ++ [f]⟩ = none := by
          cases inner with
          | nil => exact absurd rfl hinner
          | cons g gs =>
            cases gs <;> rfl
        rw [hnone]
        exact reads_blocked hf (by omega) (hblocks hinner) (by omega)

mutual
/-- The calls that write an element. -/
def Item.calls : Item → List WriterCall
  | .message msg => [.addMessage msg]
  | .bundle ts items => .startBundle ts :: (itemCalls items ++ [.endBundle])

def itemCalls : List Item → List WriterCall
  | [] => []
  | item :: items => item.calls ++ itemCalls items
end

theorem Draft.run_append (d : Draft) (cs cs' : List WriterCall) :
    d.run (cs ++ cs') = (d.run cs).run cs' := by
  induction cs generalizing d with
  | nil => rfl
  | cons c cs ih => exact ih (d.step c)

theorem Draft.firstError_append (d : Draft) (cs cs' : List WriterCall) :
    d.firstError (cs ++ cs') = (d.firstError cs).set ((d.run cs).firstError cs') := by
  induction cs generalizing d with
  | nil => rfl
  | cons c cs ih =>
    simp only [List.cons_append, Draft.firstError, Draft.run, ih, WriterErrorCode.set_assoc]

/-- The calls are allowed and lead to another draft. -/
def Draft.Adds (d : Draft) (cs : List WriterCall) (d' : Draft) : Prop :=
  d.run cs = d' ∧ d.firstError cs = .code .okNoError

theorem Draft.Adds.append {d d' d'' : Draft} {cs cs' : List WriterCall} (h : d.Adds cs d')
    (h' : d'.Adds cs' d'') : d.Adds (cs ++ cs') d'' := by
  refine ⟨by rw [Draft.run_append, h.1, h'.1], ?_⟩
  rw [Draft.firstError_append, h.1, h.2, h'.2]
  rfl

mutual
/-- The calls of an element are allowed in an open bundle and at the start, and add it. -/
theorem adds_item : ∀ (item : Item), item.Sendable → ∀ d : Draft,
    (d.opened ≠ [] ∨ d.isEmpty = true) → d.Adds item.calls (d.add item)
  | .message msg, h, d, hd => by
    have hmulti : ¬ (¬ d.isEmpty = true ∧ d.opened = []) := by
      rintro ⟨hempty, hopened⟩
      exact hd.elim (fun hne => hne hopened) hempty
    have herr : d.errorOf (.addMessage msg) = .code .okNoError := by
      rw [Draft.errorOf, if_neg hmulti, of_decide_eq_true h.isOk]
    refine ⟨?_, ?_⟩
    · rw [Item.calls, Draft.run, Draft.run, Draft.step, if_pos herr]
    · rw [Item.calls, Draft.firstError, herr]
      rfl
  | .bundle ts items, h, d, _ => by
    obtain ⟨hrun, herr⟩ := adds_items items h { d with opened := ⟨ts, []⟩ :: d.opened } ⟨ts, []⟩
      d.opened rfl
    have hstart : Draft.Adds d [.startBundle ts] { d with opened := ⟨ts, []⟩ :: d.opened } :=
      ⟨rfl, rfl⟩
    have hend : Draft.Adds { d with opened := ⟨ts, [] ++ items⟩ :: d.opened } [.endBundle]
        (d.add (.bundle ts items)) := ⟨rfl, rfl⟩
    exact hstart.append (Draft.Adds.append ⟨hrun, herr⟩ hend)

theorem adds_items : ∀ (items : List Item), SendableItems items → ∀ (d : Draft) (f : Frame)
    (fs : List Frame), d.opened = f :: fs →
      d.Adds (itemCalls items) { d with opened := { f with items := f.items ++ items } :: fs }
  | [], _, d, f, fs, hd => by
    refine ⟨?_, rfl⟩
    rw [itemCalls, Draft.run, List.append_nil, ← hd]
  | item :: items, h, d, f, fs, hd => by
    have hitem := adds_item item h.1 d (.inl (by rw [hd]; exact List.cons_ne_nil f fs))
    have hadd : (d.add item).opened = { f with items := f.items ++ [item] } :: fs := by
      rw [Draft.add, hd]
    have hitems := adds_items items h.2 (d.add item) _ fs hadd
    have hdone : (d.add item).done = d.done := by
      rw [Draft.add, hd]
    rw [hdone, List.append_assoc, List.singleton_append] at hitems
    exact hitem.append hitems
end

/-- Whatever the order of the calls, the writer stays within its storage, holds the bytes of
the draft, and reports the first call that is not allowed. -/
theorem packetWriter_calls (cs : List WriterCall) : ∃ pw, PacketWriter.init.calls cs = .ok pw ∧
    pw.storage = (Draft.init.run cs).render ∧
    pw.bundles = positions (Draft.init.run cs).base (Draft.init.run cs).opened ∧
    pw.err = Draft.init.firstError cs := by
  obtain ⟨pw, hr, hd, herr⟩ := renders_init.calls cs
  exact ⟨pw, hr, hd.storage, hd.bundles, herr⟩

theorem packetData_eq_some {pw : PacketWriter} {data : List UInt8}
    (h : pw.packetData = some data) : data = pw.storage ∧ pw.isOk = true := by
  unfold PacketWriter.packetData at h
  split at h
  · exact ⟨(Option.some.inj h).symm, ‹_›⟩
  · cases h

/-- A packet that the writer hands out is read as the draft says: with all its messages, or
with an error if the writer has let through what is not one element. -/
theorem packetWriter_reads (cs : List WriterCall)
    (hcs : ∀ msg, WriterCall.addMessage msg ∈ cs → msg.Sendable) :
    ∃ pw, PacketWriter.init.calls cs = .ok pw ∧ ∀ data, pw.packetData = some data →
      data.length < 2 ^ 32 → pw.packetSize = data.length ∧
        Reads data (Draft.init.run cs).delivers := by
  obtain ⟨pw, hr, hd, -⟩ := renders_init.calls cs
  refine ⟨pw, hr, fun data hdata hsize => ?_⟩
  obtain ⟨rfl, hok⟩ := packetData_eq_some hdata
  refine ⟨?_, ?_⟩
  · rw [PacketWriter.packetSize, if_pos hok, Nat.mod_eq_of_lt hsize]
  · rw [hd.storage] at hsize ⊢
    exact reads_draft (draft_init_orderly.run hcs) hsize

/-- Two bundles of which neither is closed. -/
def unclosed : List WriterCall :=
  [.startBundle 5, .startBundle 6, .addMessage (Message.init [47, 97] 1)]

/-- The packet of these calls, with a gap for the size of the inner bundle. -/
def unclosedPacket : List UInt8 :=
  bundleHeader 5 ++ (toBigEndian 4 0 ++ (bundleHeader 6 ++ (toBigEndian 4 8 ++
    [47, 97, 0, 0, 44, 0, 0, 0])))

theorem packetWriter_reads_unclosed : ∃ pw, PacketWriter.init.calls unclosed = .ok pw ∧
    pw.packetData = some unclosedPacket ∧ pw.packetSize = unclosedPacket.length ∧
      Reads unclosedPacket none := by
  have hsendable : ∀ msg, WriterCall.addMessage msg ∈ unclosed → msg.Sendable := by
    intro msg hm
    simp only [unclosed, List.mem_cons, reduceCtorEq, WriterCall.addMessage.injEq, List.not_mem_nil,
      or_false, false_or] at hm
    subst hm
    exact (init_built (by decide) 1).sendable (by decide) (by decide)
  obtain ⟨pw, hcalls, hreads⟩ := packetWriter_reads unclosed hsendable
  have hdata : (PacketWriter.init.calls unclosed).map PacketWriter.packetData =
      .ok (some unclosedPacket) := by decide +kernel
  rw [hcalls] at hdata
  have hpacket := Except.ok.inj hdata
  obtain ⟨hsize, hread⟩ := hreads unclosedPacket hpacket (by decide)
  exact ⟨pw, hcalls, hpacket, hsize, hread⟩

/-- A message, or a tree of bundles, is written as its encoding. -/
theorem packetWriter_item (item : Item) (h : item.Sendable) :
    ∃ pw, PacketWriter.init.calls item.calls = .ok pw ∧ pw.packetData = some item.encode := by
  obtain ⟨hrun, herr⟩ := adds_item item h .init (.inr rfl)
  obtain ⟨pw, hr, hd, hpw⟩ := renders_init.calls item.calls
  have hrender : (Draft.init.add item).render = item.encode := by
    rw [Draft.render_add]
    rfl
  have hisOk : pw.isOk = true := decide_eq_true (hpw.trans herr)
  exact ⟨pw, hr, by rw [PacketWriter.packetData, if_pos hisOk, hd.storage, hrun, hrender]⟩

mutual
theorem sendable_of_messages (ts : ℕ) : ∀ item : Item,
    (∀ x ∈ item.messages ts, x.2.Sendable) → item.Sendable
  | .message msg, h => h (ts, msg) (List.mem_singleton.mpr rfl)
  | .bundle ts' items, h => sendableItems_of_messages ts'.toNat items h

theorem sendableItems_of_messages (ts : ℕ) : ∀ items : List Item,
    (∀ x ∈ itemMessages ts items, x.2.Sendable) → SendableItems items
  | [], _ => trivial
  | item :: items, h =>
    ⟨sendable_of_messages ts item fun x hx => h x (List.mem_append_left _ hx),
      sendableItems_of_messages ts items fun x hx => h x (List.mem_append_right _ hx)⟩
end

/-- A message that `init` and a chain of push functions have built. -/
structure Pushed (msg : Message) (vs : List Value) : Prop where
  slash : msg.address.head? = some 47
  nul : 0 ∉ msg.address
  sane : ∀ v ∈ vs, v.Sane
  built : ∃ timeTag, (Message.init msg.address timeTag).pushValues vs = .ok msg

theorem Pushed.holds {msg : Message} {vs : List Value} (h : Pushed msg vs) :
    msg.Holds vs ∧ msg.storage = encodeValues vs := by
  obtain ⟨timeTag, hpush⟩ := h.built
  obtain ⟨msg', hpush', hbuilt⟩ := pushValues_built h.sane (init_built h.slash timeTag)
  obtain rfl := Except.ok.inj (hpush'.symm.trans hpush)
  exact ⟨hbuilt.toHolds, hbuilt.storage⟩

theorem Pushed.sendable {msg : Message} {vs : List Value} (h : Pushed msg vs) : msg.Sendable :=
  ⟨h.slash, h.nul, vs, h.holds⟩

/-- The chain of pops for the values of a message yields them all. -/
theorem Message.HasCells.pops {msg : Message} {vs : List Value} (h : msg.HasCells (vs.map some)) :
    ∃ a, msg.arg.pops (vs.map Value.pop) = .ok (a, vs.map Value.datum) ∧
      a.isOkNoMoreArgs = true := by
  have hpops := h.remains.pops (vs.map Value.pop)
  unfold Pops at hpops
  rw [(takesAll_values vs).popsResult] at hpops
  obtain ⟨a, hp, -, -⟩ := hpops
  exact ⟨a, hp, (h.remains.isOkNoMoreArgs_iff hp).mpr (takesAll_values vs)⟩

/-- Two lists of values are the same when a message holds both. -/
theorem Message.HasCells.unique {msg : Message} {vs ws : List Value}
    (hv : msg.HasCells (vs.map some)) (hw : msg.HasCells (ws.map some)) : vs = ws := by
  have htags := hv.typeTags.symm.trans hw.typeTags
  rw [List.map_map, List.map_map] at htags
  have hkinds := map_pop_of_map_tag htags
  obtain ⟨a, ha, -⟩ := hv.pops
  obtain ⟨b, hb, -⟩ := hw.pops
  rw [hkinds, hb] at ha
  have hdata := (Prod.mk.inj (Except.ok.inj ha)).2
  exact ((List.map_injective_iff.mpr datum_injective) hdata).symm

/-- A tree of messages is written as its encoding, and the reader gets the messages back in
order, each with the time tag of the innermost bundle around it. What was pushed into them is
popped on the other side. -/
theorem pushed_roundTrip (item : Item) (h : ∀ x ∈ item.messages 1, ∃ vs, Pushed x.2 vs)
    (hsize : item.encode.length < 2 ^ 32) :
    ∃ pw, PacketWriter.init.calls item.calls = .ok pw ∧ pw.packetData = some item.encode ∧
      ∃ pr, PacketReader.init item.encode = .ok pr ∧ pr.err = .okNoError ∧
        List.Forall₂ (fun x r => r.timeTag = x.1 ∧ r.address = x.2.address ∧
          ∀ vs, Pushed x.2 vs → ∃ a, r.arg.pops (vs.map Value.pop) = .ok (a, vs.map Value.datum) ∧
            a.isOkNoMoreArgs = true) (item.messages 1) pr.messages := by
  have hsend : item.Sendable := sendable_of_messages 1 item fun x hx => by
    obtain ⟨vs, hvs⟩ := h x hx
    exact hvs.sendable
  obtain ⟨pw, hr, hdata⟩ := packetWriter_item item hsend
  obtain ⟨pr, hread, hok, hrec⟩ := reads_item hsend hsize
  refine ⟨pw, hr, hdata, pr, hread, hok, hrec.imp fun x r hx => ⟨hx.timeTag, hx.address, ?_⟩⟩
  intro vs hvs
  obtain ⟨ws, hsent, hheld⟩ := hx.values
  rw [hvs.holds.1.hasCells.unique hsent.hasCells]
  exact hheld.hasCells.pops

/-- `/a` with the integer 5 and the string `hi`, as it is built. -/
def pushedGreeting : Message :=
  ⟨1, [47, 97], [105, 115], [(0, 4), (4, 3)], [0, 0, 0, 5, 104, 105, 0, 0], .okNoError⟩

theorem pushed_greeting : Pushed pushedGreeting [.int32 5, .str ⟨[104, 105], by decide⟩] where
  slash := rfl
  nul := by decide
  sane := by simp [Value.Sane]
  built := ⟨1, rfl⟩

theorem pushed_roundTrip_greeting :
    ∃ pw, PacketWriter.init.calls (Item.bundle 7 [.message pushedGreeting]).calls = .ok pw ∧
      pw.packetData = some (Item.bundle 7 [.message pushedGreeting]).encode ∧
      ∃ pr, PacketReader.init (Item.bundle 7 [.message pushedGreeting]).encode = .ok pr ∧
        pr.err = .okNoError ∧ List.Forall₂ (fun x r => r.timeTag = x.1 ∧ r.address = x.2.address ∧
          ∀ vs, Pushed x.2 vs → ∃ a, r.arg.pops (vs.map Value.pop) = .ok (a, vs.map Value.datum) ∧
            a.isOkNoMoreArgs = true)
          ((Item.bundle 7 [.message pushedGreeting]).messages 1) pr.messages :=
  pushed_roundTrip _
    (fun x hx => by
      obtain rfl := List.mem_singleton.mp hx
      exact ⟨_, pushed_greeting⟩)
    (by decide +kernel)

theorem isOk_of_pops {msg : Message} {ks : List Pop} {a : ArgReader} {ds : List Datum}
    (hp : msg.arg.pops ks = .ok (a, ds)) (hok : a.isOkNoMoreArgs = true) :
    msg.err = .okNoError := by
  by_contra herr
  obtain ⟨a', hp', herr'⟩ := pops_of_err ks (show msg.arg.err ≠ .okNoError from herr)
  obtain ⟨rfl, -⟩ := Prod.mk.inj (Except.ok.inj (hp'.symm.trans hp))
  rw [isOkNoMoreArgs_of_err (herr' ▸ herr)] at hok
  cases hok

/-- A message whose arguments were all popped, none of them skipped, is written byte for byte as
it came, when its values are pushed again. -/
theorem raw_rewritten {d : List UInt8} (hal : d.length % 4 = 0) {timeTag : ℕ} {r : Message}
    (hraw : Message.ofRawData d timeTag = .ok r) {ks : List Pop} {a : ArgReader} {ds : List Datum}
    (hks : Pop.skip ∉ ks) (hp : r.arg.pops ks = .ok (a, ds)) (hok : a.isOkNoMoreArgs = true) :
    ∃ vs : List Value, ks = vs.map Value.pop ∧ ds = vs.map Value.datum ∧
      ((∀ v ∈ vs, v.Sane) → ∃ msg pw, (Message.init r.address timeTag).pushValues vs = .ok msg ∧
        PacketWriter.init.calls [.addMessage msg] = .ok pw ∧ pw.packetData = some d) := by
  obtain ⟨r', hraw', hsound⟩ := ofRawData_total hal timeTag
  obtain rfl := Except.ok.inj (hraw'.symm.trans hraw)
  obtain ⟨w, c, hmsg⟩ := hsound (isOk_of_pops hp hok)
  obtain ⟨r'', cs, hraw'', hcells, hw⟩ := ofRawData_cells hmsg timeTag
  obtain rfl := Except.ok.inj (hraw''.symm.trans hraw)
  obtain ⟨vs, rfl, hpops, hds⟩ := ((hcells.remains.isOkNoMoreArgs_iff hp).mp hok).values hks
  refine ⟨vs, hpops, hds, fun hsane => ?_⟩
  have hplain : w = false := by
    cases w with
    | false => rfl
    | true => simp at hw
  obtain ⟨ws, htags, hpayload⟩ := values_of_args hmsg.args hplain
  have hd : d = padded c.address ++ (padded (44 :: ws.map Value.tag) ++ (encodeValues ws ++ [])) := by
    rw [hmsg.bytes, htags, hpayload, List.append_nil]
  obtain ⟨r, hr, haddress, -, hholds, -⟩ := ofRawData_values hmsg.slash hmsg.address_nul hd timeTag
  obtain rfl := Except.ok.inj (hr.symm.trans hraw)
  obtain rfl : vs = ws := hcells.unique (hholds rfl).hasCells
  rw [haddress]
  obtain ⟨msg, hpush, hbuilt⟩ := pushValues_built hsane (init_built hmsg.slash timeTag)
  have hsend : msg.Sendable := hbuilt.sendable hmsg.slash hmsg.address_nul
  have hpacked : msg.packed = d := by
    rw [hsend.packed_eq, hd, hbuilt.address, hbuilt.typeTags, hbuilt.storage, List.append_nil]
    rfl
  obtain ⟨pw, hr, hdata⟩ := packetWriter_item (.message msg) hsend
  rw [Item.encode, hpacked] at hdata
  exact ⟨msg, pw, hpush, hr, hdata⟩

theorem raw_rewritten_greeting : ∃ vs : List Value, [Pop.int32, .str] = vs.map Value.pop ∧
    [Datum.int32 5, .str [104, 105]] = vs.map Value.datum ∧
      ((∀ v ∈ vs, v.Sane) → ∃ msg pw,
        (Message.init greeting.address 1).pushValues vs = .ok msg ∧
        PacketWriter.init.calls [.addMessage msg] = .ok pw ∧
        pw.packetData = some greeting.storage) :=
  have hraw : Message.ofRawData greeting.storage 1 = .ok greeting := by rfl
  have hpops : greeting.arg.pops [.int32, .str] =
      .ok (⟨greeting, .okNoError, 2⟩, [.int32 5, .str [104, 105]]) := by decide +kernel
  raw_rewritten (by decide) hraw (by decide) hpops rfl

end Moodpd.Oscpkt
