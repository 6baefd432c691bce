import Moodpd.OscMessageRefinement

/-!
# The packet reader accepts the grammar

`PacketReader::init` never leaves the packet, and it ends without an error exactly for the
packets of the grammar, with their messages in the order of the document.
-/
namespace Moodpd.Oscpkt
open Memory

/-- The fields of a message that was read without an error are those of its content. -/
structure Represents (msg : Message) (c : Content) : Prop where
  err : msg.err = .okNoError
  address : msg.address = c.address
  typeTags : msg.typeTags = c.typeTags
  slash : c.address.head? = some 47
  nul : 0 ∉ c.address
  arguments : ∃ p, msg.storage.drop p = c.payload ∧
    Positions msg.storage.length p c.typeTags msg.arguments

theorem ofRawData_of_message {w : Bool} {d : List UInt8} {c : Content} (h : IsMessage w d c)
    (timeTag : ℕ) : ∃ msg, Message.ofRawData d timeTag = .ok msg ∧ Represents msg c := by
  obtain ⟨args, p, hb, hdrop, hp⟩ := buildFromRawData_of_message h
  refine ⟨⟨timeTag, c.address, c.typeTags, args, d, .okNoError⟩, ?_, ?_⟩
  · simp [Message.ofRawData, hb]
  · exact ⟨rfl, rfl, rfl, h.slash, h.address_nul, p, hdrop, hp⟩

theorem ofRawData_total {d : List UInt8} (hd : d.length % 4 = 0) (timeTag : ℕ) :
    ∃ msg, Message.ofRawData d timeTag = .ok msg ∧
      (msg.err = .okNoError → ∃ w c, IsMessage w d c) := by
  obtain ⟨msg, hb, hsound⟩ := buildFromRawData_total hd
  exact ⟨{ msg with timeTag := timeTag }, by simp [Message.ofRawData, hb], hsound⟩

theorem isMessage_aligned {w : Bool} {d : List UInt8} {c : Content} (h : IsMessage w d c) :
    d.length % 4 = 0 := by
  have h₁ := ceil4_mod (c.address.length + 1)
  have h₂ := ceil4_mod ((44 :: c.typeTags).length + 1)
  have h₃ := payload_aligned h.args
  rw [h.bytes, List.length_append, List.length_append, padded_length, padded_length]
  omega

/-- A message does not start like a bundle, and is not empty. -/
theorem isMessage_head {w : Bool} {d : List UInt8} {c : Content} (h : IsMessage w d c) :
    d.head? = some 47 := by
  obtain ⟨s, hs⟩ := List.head?_eq_some_iff.mp h.slash
  simp [h.bytes, padded, hs]

mutual
theorem packet_aligned {w : Bool} {d : List UInt8} {cs : List Content} :
    Packet w d cs → d.length % 4 = 0
  | .empty => rfl
  | .message h => isMessage_aligned h
  | .bundle htime _ elements => by
    have := elements_aligned elements
    simp only [List.length_append, htime, bundleTag, List.length_cons, List.length_nil]
    omega

theorem elements_aligned {w : Bool} {es : List UInt8} {cs : List Content} :
    Elements w es cs → es.length % 4 = 0
  | .nil => rfl
  | .cons _ head more => by
    have := packet_aligned head
    have := elements_aligned more
    simp only [List.length_append, toBigEndian_length]
    omega
end

/-- A reading that ends without an error and has appended messages with these contents. -/
def Appends (pr : PacketReader) (cs : List Content) (r : Checked PacketReader) : Prop :=
  ∃ ms, r = .ok ⟨pr.messages ++ ms, .okNoError⟩ ∧ List.Forall₂ Represents ms cs

theorem parse_nil {fuel timeTag : ℕ} {pr : PacketReader} (hpr : pr.err = .okNoError) :
    PacketReader.parse (fuel + 1) [] timeTag pr = .ok pr := by
  have hal : ([] : List UInt8).length % 4 = 0 := rfl
  rw [PacketReader.parse, assert_of hpr, assert_of hal]
  rfl

theorem parse_message {d : List UInt8} {fuel timeTag : ℕ} {pr : PacketReader} {b : UInt8}
    (hpr : pr.err = .okNoError) (hd : d.length % 4 = 0) (hb : d.head? = some b) (hne : b ≠ 35) :
    PacketReader.parse (fuel + 1) d timeTag pr = (do
      let msg ← Message.ofRawData d timeTag
      let pr := { pr with messages := pr.messages ++ [msg] }
      .ok (if msg.isOk then pr else pr.setErr msg.err)) := by
  obtain ⟨t, rfl⟩ := List.head?_eq_some_iff.mp hb
  have hr : Memory.read (b :: t) 0 = .ok b := rfl
  rw [PacketReader.parse]
  simp only [assert_of hpr, assert_of hd, ok_bind, hr, if_neg hne, reduceCtorEq, if_false]

theorem parse_bundle {time es : List UInt8} {fuel timeTag : ℕ} {pr : PacketReader}
    (hpr : pr.err = .okNoError) (htime : time.length = 8) (hes : es.length % 4 = 0)
    (hne : es ≠ []) :
    PacketReader.parse (fuel + 1) (bundleTag ++ (time ++ es)) timeTag pr =
      PacketReader.bundleLoop fuel es (bigEndian time) pr := by
  have hpos := List.length_pos_of_ne_nil hne
  have hlen : (bundleTag ++ (time ++ es)).length = 16 + es.length := by
    simp [bundleTag, htime]
    omega
  have hr : Memory.read (bundleTag ++ (time ++ es)) 0 = .ok 35 := rfl
  have htag : 20 ≤ (bundleTag ++ (time ++ es)).length ∧
      (bundleTag ++ (time ++ es)).take 8 = bundleTag := ⟨by omega, List.take_left' rfl⟩
  have htt : readBigEndian (bundleTag ++ (time ++ es)) 8 8 = .ok (bigEndian time) :=
    readBigEndian_append rfl htime es
  have hdrop : (bundleTag ++ (time ++ es)).drop 16 = es := by
    rw [← List.append_assoc]
    exact List.drop_left' (by simp [bundleTag, htime])
  rw [PacketReader.parse]
  simp only [assert_of hpr, assert_of (show (bundleTag ++ (time ++ es)).length % 4 = 0 by omega),
    ok_bind, hr, htt, hdrop, if_pos htag,
    if_neg (show bundleTag ++ (time ++ es) ≠ [] by simp [bundleTag]), if_true]

/-- One turn of the loop over an element that fits. -/
theorem bundleLoop_cons {body es : List UInt8} {fuel timeTag : ℕ} {pr : PacketReader}
    (hsize : body.length < 2 ^ 32) (hbody : body.length % 4 = 0) :
    PacketReader.bundleLoop (fuel + 1) (toBigEndian 4 body.length ++ (body ++ es)) timeTag pr = (do
      let pr ← PacketReader.parse fuel body timeTag pr
      if pr.isOk ∧ es ≠ [] then PacketReader.bundleLoop fuel es timeTag pr else .ok pr) := by
  have hr := readBigEndian_append (rfl : ([] : List UInt8).length = 0)
    (toBigEndian_length 4 body.length) (body ++ es)
  rw [List.nil_append, bigEndian_toBigEndian (by omega), List.length_nil] at hr
  have hdrop : (toBigEndian 4 body.length ++ (body ++ es)).drop 4 = body ++ es :=
    List.drop_left' (toBigEndian_length 4 _)
  have hfit : ¬ (body.length % 4 ≠ 0 ∨ body.length > (body ++ es).length) := by
    simp [hbody]
  rw [PacketReader.bundleLoop]
  simp only [hr, ok_bind, hdrop, if_neg hfit, List.take_left, List.drop_left]

mutual
theorem parse_of_packet {w : Bool} {d : List UInt8} {cs : List Content} :
    Packet w d cs → ∀ {fuel : ℕ} (timeTag : ℕ) {pr : PacketReader}, d.length < fuel →
      pr.err = .okNoError → Appends pr cs (PacketReader.parse fuel d timeTag pr)
  | .empty, fuel + 1, timeTag, pr, _, hpr =>
    ⟨[], by rw [parse_nil hpr, List.append_nil, ← hpr], .nil⟩
  | .message h, fuel + 1, timeTag, pr, _, hpr => by
    obtain ⟨msg, hm, hrep⟩ := ofRawData_of_message h timeTag
    refine ⟨[msg], ?_, .cons hrep .nil⟩
    rw [parse_message hpr (isMessage_aligned h) (isMessage_head h) (by decide), hm]
    simp [Message.isOk, hrep.err, hpr]
  | @Packet.bundle _ _ es _ htime nonempty elements, fuel + 1, timeTag, pr, hf, hpr => by
    rw [parse_bundle hpr htime (elements_aligned elements) nonempty]
    have hlt : es.length < fuel := by
      simp only [List.length_append] at hf
      have : bundleTag.length = 8 := rfl
      omega
    exact bundleLoop_of_elements elements nonempty _ hlt hpr

theorem bundleLoop_of_elements {w : Bool} {es : List UInt8} {cs : List Content} :
    Elements w es cs → es ≠ [] → ∀ {fuel : ℕ} (timeTag : ℕ) {pr : PacketReader}, es.length < fuel →
      pr.err = .okNoError → Appends pr cs (PacketReader.bundleLoop fuel es timeTag pr)
  | .nil, hne, _, _, _, _, _ => absurd rfl hne
  | @Elements.cons _ _ body es _ _ size head more, _, fuel + 1, timeTag, pr, hf, hpr => by
    simp only [List.length_append, toBigEndian_length] at hf
    obtain ⟨ms, hm, hrep⟩ := parse_of_packet head timeTag (show body.length < fuel by omega) hpr
    rw [bundleLoop_cons size (packet_aligned head), hm, ok_bind]
    by_cases hes : es = []
    · subst hes
      cases more
      exact ⟨ms, by simp [PacketReader.isOk], by simpa using hrep⟩
    · obtain ⟨ns, hn, hrep'⟩ := bundleLoop_of_elements more hes timeTag
        (show es.length < fuel by omega) (show (⟨pr.messages ++ ms, .okNoError⟩ : PacketReader).err =
          .okNoError from rfl)
      refine ⟨ms ++ ns, ?_, List.rel_append hrep hrep'⟩
      simp [PacketReader.isOk, hes, hn]
end

theorem setErr_ne {pr : PacketReader} {e : ErrorCode} (h : e ≠ .okNoError) :
    (pr.setErr e).err ≠ .okNoError := by
  unfold PacketReader.setErr ErrorCode.set
  by_cases hm : pr.err = .okNoError <;> simp [hm, h]

/-- A reading that ends, without an error only on what the grammar accepts. -/
def Decides (accepts : Bool → List Content → Prop) (r : Checked PacketReader) : Prop :=
  ∃ pr, r = .ok pr ∧ (pr.err = .okNoError → ∃ w cs, accepts w cs)

theorem parse_bad_header {d : List UInt8} {fuel timeTag : ℕ} {pr : PacketReader}
    (hpr : pr.err = .okNoError) (hd : d.length % 4 = 0) (hb : d.head? = some 35)
    (hno : ¬ (20 ≤ d.length ∧ d.take 8 = bundleTag)) :
    PacketReader.parse (fuel + 1) d timeTag pr = .ok (pr.setErr .invalidBundle) := by
  obtain ⟨t, rfl⟩ := List.head?_eq_some_iff.mp hb
  have hr : Memory.read (35 :: t) 0 = .ok 35 := rfl
  rw [PacketReader.parse]
  simp only [assert_of hpr, assert_of hd, ok_bind, hr, reduceCtorEq, if_false, if_true, if_neg hno]

/-- A bundle splits into its header and its elements. -/
theorem bundle_split {d : List UInt8} (hlen : 20 ≤ d.length) (htag : d.take 8 = bundleTag) :
    ∃ time es, d = bundleTag ++ (time ++ es) ∧ time.length = 8 ∧ es ≠ [] := by
  refine ⟨(d.drop 8).take 8, (d.drop 8).drop 8, ?_, ?_, ?_⟩
  · rw [List.take_append_drop, ← htag, List.take_append_drop]
  · rw [List.length_take, List.length_drop]
    omega
  · intro h
    have hnil := congrArg List.length h
    simp only [List.length_drop, List.length_nil] at hnil
    omega

theorem bundleLoop_bad_size {es : List UInt8} {sz fuel timeTag : ℕ} {pr : PacketReader}
    (hr : readBigEndian es 4 0 = .ok sz) (hbad : sz % 4 ≠ 0 ∨ sz > (es.drop 4).length) :
    PacketReader.bundleLoop (fuel + 1) es timeTag pr = .ok (pr.setErr .invalidBundle) := by
  rw [PacketReader.bundleLoop]
  simp only [hr, ok_bind, if_pos hbad]

/-- The first element has a bad size or splits off. -/
theorem element_cases {es : List UInt8} (h4 : 4 ≤ es.length) :
    (∃ sz, readBigEndian es 4 0 = .ok sz ∧ (sz % 4 ≠ 0 ∨ sz > (es.drop 4).length)) ∨
    ∃ body rest, body.length < 2 ^ 32 ∧ body.length % 4 = 0 ∧
      es = toBigEndian 4 body.length ++ (body ++ rest) := by
  have hfour : (es.take 4).length = 4 := List.length_take_of_le h4
  have hr : readBigEndian es 4 0 = .ok (bigEndian (es.take 4)) := by
    unfold readBigEndian
    rw [readRange_of_le (by omega)]
    rfl
  have hround := toBigEndian_bigEndian (es.take 4)
  have hsize := bigEndian_lt (es.take 4)
  rw [hfour] at hround hsize
  by_cases hbad : bigEndian (es.take 4) % 4 ≠ 0 ∨ bigEndian (es.take 4) > (es.drop 4).length
  · exact .inl ⟨_, hr, hbad⟩
  · rw [not_or, not_not, not_lt] at hbad
    have hbody : ((es.drop 4).take (bigEndian (es.take 4))).length = bigEndian (es.take 4) :=
      List.length_take_of_le hbad.2
    refine .inr ⟨_, (es.drop 4).drop (bigEndian (es.take 4)), by rw [hbody]; exact hsize,
      by rw [hbody]; exact hbad.1, ?_⟩
    rw [hbody, hround, List.take_append_drop, List.take_append_drop]

def ParseDecides (fuel : ℕ) : Prop :=
  ∀ d timeTag (pr : PacketReader), d.length < fuel → d.length % 4 = 0 → pr.err = .okNoError →
    Decides (Packet · d ·) (PacketReader.parse fuel d timeTag pr)

def LoopDecides (fuel : ℕ) : Prop :=
  ∀ es timeTag (pr : PacketReader), es.length < fuel → es.length % 4 = 0 → es ≠ [] →
    pr.err = .okNoError → Decides (Elements · es ·) (PacketReader.bundleLoop fuel es timeTag pr)

section Step
variable {fuel : ℕ} (ihParse : ParseDecides fuel) (ihLoop : LoopDecides fuel)

include ihLoop in
theorem parse_decides : ParseDecides (fuel + 1) := by
  intro d timeTag pr hf hd hpr
  cases hhead : d.head? with
  | none =>
    obtain rfl := List.head?_eq_none_iff.mp hhead
    exact ⟨pr, parse_nil hpr, fun _ => ⟨false, [], .empty⟩⟩
  | some b =>
    by_cases hb : b = 35
    · subst hb
      by_cases htag : 20 ≤ d.length ∧ d.take 8 = bundleTag
      · obtain ⟨time, es, rfl, htime, hne⟩ := bundle_split htag.1 htag.2
        have hlen : (bundleTag ++ (time ++ es)).length = 8 + (8 + es.length) := by
          rw [List.length_append, List.length_append, htime]
          rfl
        rw [hlen] at hf hd
        obtain ⟨pr', hr, hsound⟩ :=
          ihLoop es (bigEndian time) pr (by omega) (by omega) hne hpr
        refine ⟨pr', by rw [parse_bundle hpr htime (by omega) hne, hr], fun hok => ?_⟩
        obtain ⟨w, cs, h⟩ := hsound hok
        exact ⟨w, cs, .bundle htime hne h⟩
      · rw [parse_bad_header hpr hd hhead htag]
        exact ⟨_, rfl, fun h => absurd h (setErr_ne (by decide))⟩
    · rw [parse_message hpr hd hhead hb]
      obtain ⟨msg, hm, hsound⟩ := ofRawData_total hd timeTag
      rw [hm, ok_bind]
      by_cases hok : msg.err = .okNoError
      · obtain ⟨w, c, h⟩ := hsound hok
        exact ⟨_, rfl, fun _ => ⟨w, [c], .message h⟩⟩
      · refine ⟨_, rfl, fun h => absurd h ?_⟩
        simp [Message.isOk, hok, setErr_ne]

include ihParse ihLoop in
theorem bundleLoop_decides : LoopDecides (fuel + 1) := by
  intro es timeTag pr hf hes hne hpr
  have hpos := List.length_pos_of_ne_nil hne
  rcases element_cases (show 4 ≤ es.length by omega) with ⟨sz, hr, hbad⟩ | ⟨body, rest, hsize, hbody, rfl⟩
  · rw [bundleLoop_bad_size hr hbad]
    exact ⟨_, rfl, fun h => absurd h (setErr_ne (by decide))⟩
  · simp only [List.length_append, toBigEndian_length] at hf hes
    obtain ⟨pr', hp, hsound⟩ := ihParse body timeTag pr (by omega) hbody hpr
    rw [bundleLoop_cons hsize hbody, hp, ok_bind]
    by_cases hok : pr'.err = .okNoError
    · obtain ⟨w, cs, hhead⟩ := hsound hok
      by_cases hend : rest = []
      · subst hend
        exact ⟨pr', by simp, fun _ => ⟨w || false, cs ++ [], .cons hsize hhead .nil⟩⟩
      · rw [if_pos ⟨by simp [PacketReader.isOk, hok], hend⟩]
        obtain ⟨pr'', hl, hsound'⟩ := ihLoop rest timeTag pr' (by omega) (by omega) hend hok
        refine ⟨pr'', hl, fun hok' => ?_⟩
        obtain ⟨v, ds, hmore⟩ := hsound' hok'
        exact ⟨w || v, cs ++ ds, .cons hsize hhead hmore⟩
    · rw [if_neg (by simp [PacketReader.isOk, hok])]
      exact ⟨pr', rfl, fun h => absurd h hok⟩

end Step

/-- The recursion through bundles never leaves the packet or runs out of fuel. -/
theorem parse_bundleLoop_decides (fuel : ℕ) : ParseDecides fuel ∧ LoopDecides fuel := by
  induction fuel with
  | zero =>
    constructor
    · intro d timeTag pr hf
      exact absurd hf (Nat.not_lt_zero _)
    · intro es timeTag pr hf
      exact absurd hf (Nat.not_lt_zero _)
  | succ fuel ih => exact ⟨parse_decides ih.2, bundleLoop_decides ih.1 ih.2⟩

theorem init_of_packet {w : Bool} {d : List UInt8} {cs : List Content} (h : Packet w d cs) :
    Appends .empty cs (PacketReader.init d) := by
  unfold PacketReader.init
  rw [if_pos (packet_aligned h)]
  exact parse_of_packet h 1 (Nat.lt_succ_self _) rfl

theorem init_decides (d : List UInt8) : Decides (Packet · d ·) (PacketReader.init d) := by
  unfold PacketReader.init
  by_cases hd : d.length % 4 = 0
  · rw [if_pos hd]
    exact (parse_bundleLoop_decides _).1 d 1 .empty (Nat.lt_succ_self _) hd rfl
  · rw [if_neg hd]
    exact ⟨_, rfl, fun h => absurd h (setErr_ne (by decide))⟩

/-- `init` ends on every datagram. It has an error exactly when the datagram is no packet of
the grammar, and otherwise its messages are those of the packet. -/
theorem init_cases (d : List UInt8) :
    (∃ pr, PacketReader.init d = .ok pr ∧ pr.err ≠ .okNoError ∧ ¬ ∃ w cs, Packet w d cs) ∨
    ∃ w cs ms, Packet w d cs ∧ PacketReader.init d = .ok ⟨ms, .okNoError⟩ ∧
      List.Forall₂ Represents ms cs := by
  obtain ⟨pr, hr, hsound⟩ := init_decides d
  by_cases hok : pr.err = .okNoError
  · obtain ⟨w, cs, h⟩ := hsound hok
    obtain ⟨ms, hm, hrep⟩ := init_of_packet h
    exact .inr ⟨w, cs, ms, h, hm, hrep⟩
  · refine .inl ⟨pr, hr, hok, fun ⟨w, cs, h⟩ => ?_⟩
    obtain ⟨ms, hm, -⟩ := init_of_packet h
    rw [hr] at hm
    exact hok (by rw [Except.ok.inj hm])

mutual
/-- Every content of a packet is that of a message in it. -/
theorem packet_contents {w : Bool} {d : List UInt8} {cs : List Content} :
    Packet w d cs → ∀ c ∈ cs, ∃ v e, IsMessage v e c
  | .empty, c, hc => absurd hc List.not_mem_nil
  | .message h, c, hc => by
    obtain rfl := List.mem_singleton.mp hc
    exact ⟨_, _, h⟩
  | .bundle _ _ elements, c, hc => elements_contents elements c hc

theorem elements_contents {w : Bool} {es : List UInt8} {cs : List Content} :
    Elements w es cs → ∀ c ∈ cs, ∃ v e, IsMessage v e c
  | .nil, c, hc => absurd hc List.not_mem_nil
  | .cons _ head more, c, hc => by
    rcases List.mem_append.mp hc with hc | hc
    · exact packet_contents head c hc
    · exact elements_contents more c hc
end

theorem represents_of_mem {ms : List Message} {cs : List Content}
    (h : List.Forall₂ Represents ms cs) {msg : Message} (hm : msg ∈ ms) :
    ∃ c ∈ cs, Represents msg c := by
  induction h with
  | nil => exact absurd hm List.not_mem_nil
  | cons head _ ih =>
    rcases List.mem_cons.mp hm with rfl | hm
    · exact ⟨_, List.mem_cons_self, head⟩
    · obtain ⟨c, hc, hrep⟩ := ih hm
      exact ⟨c, List.mem_cons_of_mem _ hc, hrep⟩

/-- A message that was read without an error represents a message of the grammar. -/
theorem init_message {d : List UInt8} {pr : PacketReader} (h : PacketReader.init d = .ok pr)
    (hok : pr.isOk = true) {msg : Message} (hm : msg ∈ pr.messages) :
    ∃ v e c, IsMessage v e c ∧ Represents msg c := by
  rcases init_cases d with ⟨pr', hr, hne, -⟩ | ⟨w, cs, ms, hp, hr, hrep⟩
  · rw [Except.ok.inj (h.symm.trans hr)] at hok
    exact absurd (of_decide_eq_true hok) hne
  · rw [Except.ok.inj (h.symm.trans hr)] at hm
    obtain ⟨c, hc, hmsg⟩ := represents_of_mem hrep hm
    obtain ⟨v, e, hv⟩ := packet_contents hp c hc
    exact ⟨v, e, c, hv, hmsg⟩

end Moodpd.Oscpkt
