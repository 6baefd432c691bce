import Moodpd.OscPacketRefinement

/-!
# Malformed OSC packets

The ways in which a part of a packet can be malformed, at any depth of its bundles, and that
they exclude the grammar. A packet read with a blob of wrapping size is malformed too, since
the declared extent of the blob runs past the end.
-/
namespace Moodpd.Oscpkt
open Memory

/-- The bytes that follow `n` others do not start with the zeros up to a multiple of 4. -/
def BadPadding (n : ℕ) (t : List UInt8) : Prop := ¬ List.replicate (ceil4 n - n) 0 <+: t

inductive BadString (bs : List UInt8) : Prop
  | unterminated (h : 0 ∉ bs)
  | padding {s t : List UInt8} (bytes : bs = s ++ 0 :: t) (nul : 0 ∉ s)
      (h : BadPadding (s.length + 1) t)

/-- A well-formed argument. -/
inductive Arg : UInt8 → List UInt8 → Prop
  | fixed {tag : UInt8} {v : List UInt8} (size : fixedSize tag = some v.length) : Arg tag v
  | string {tag : UInt8} {s : List UInt8} (htag : tag = typeTagString) (nul : 0 ∉ s) :
      Arg tag (padded s)
  | blob {tag : UInt8} {payload : List UInt8} (htag : tag = typeTagBlob)
      (size : payload.length + 4 < 2 ^ 32) : Arg tag (Oscpkt.blob payload)

/-- Type tags and argument bytes of which some are malformed. -/
inductive MalformedArgs : List UInt8 → List UInt8 → Prop
  | leftover {bs : List UInt8} (h : bs ≠ []) : MalformedArgs [] bs
  | unsupported {tag : UInt8} {tags bs : List UInt8} (mem : tag ∈ tags) (h : ¬ Supported tag) :
      MalformedArgs tags bs
  | fixed {tag : UInt8} {n : ℕ} {tags bs : List UInt8} (size : fixedSize tag = some n)
      (h : bs.length < n) : MalformedArgs (tag :: tags) bs
  | string {tags bs : List UInt8} (h : BadString bs) : MalformedArgs (typeTagString :: tags) bs
  | blob {tags bs : List UInt8} (h : bs.length < 4 + bigEndian (bs.take 4)) :
      MalformedArgs (typeTagBlob :: tags) bs
  | blobPadding {tags payload t : List UInt8} (size : payload.length < 2 ^ 32)
      (h : BadPadding payload.length t) :
      MalformedArgs (typeTagBlob :: tags) (toBigEndian 4 payload.length ++ (payload ++ t))
  | later {tag : UInt8} {tags v bs : List UInt8} (arg : Arg tag v) (more : MalformedArgs tags bs) :
      MalformedArgs (tag :: tags) (v ++ bs)

inductive MalformedMessage (d : List UInt8) : Prop
  | address (h : BadString d)
  | slash (h : d.head? ≠ some 47)
  | typeTags {a rest : List UInt8} (bytes : d = padded a ++ rest) (nul : 0 ∉ a)
      (h : BadString rest)
  | comma {a rest : List UInt8} (bytes : d = padded a ++ rest) (nul : 0 ∉ a)
      (h : rest.head? ≠ some 44)
  | arguments {a tags payload : List UInt8}
      (bytes : d = padded a ++ (padded (44 :: tags) ++ payload)) (nul : 0 ∉ a)
      (tags_nul : 0 ∉ tags) (h : MalformedArgs tags payload)

mutual
/-- A packet, or an element of a bundle, of which some part is malformed. -/
inductive Malformed : List UInt8 → Prop
  | size {d : List UInt8} (h : d.length % 4 ≠ 0) : Malformed d
  | message {d : List UInt8} (nonempty : d ≠ []) (head : d.head? ≠ some 35)
      (h : MalformedMessage d) : Malformed d
  | header {d : List UInt8} (head : d.head? = some 35)
      (h : ¬ (20 ≤ d.length ∧ d.take 8 = bundleTag)) : Malformed d
  | bundle {d time es : List UInt8} (bytes : d = bundleTag ++ (time ++ es))
      (htime : time.length = 8) (h : MalformedElements es) : Malformed d

inductive MalformedElements : List UInt8 → Prop
  | pastEnd {es : List UInt8} (nonempty : es ≠ []) (h : es.length < 4 + bigEndian (es.take 4)) :
      MalformedElements es
  | head {es body rest : List UInt8} (bytes : es = toBigEndian 4 body.length ++ (body ++ rest))
      (size : body.length < 2 ^ 32) (h : Malformed body) : MalformedElements es
  | tail {es body rest : List UInt8} (bytes : es = toBigEndian 4 body.length ++ (body ++ rest))
      (size : body.length < 2 ^ 32) (h : MalformedElements rest) : MalformedElements es
end

theorem padded_append (s t : List UInt8) : padded s ++ t =
    s ++ 0 :: (List.replicate (ceil4 (s.length + 1) - (s.length + 1)) 0 ++ t) := by
  simp only [padded, List.append_assoc, List.cons_append]

theorem padded_inj {s s' t t' : List UInt8} (nul : 0 ∉ s) (nul' : 0 ∉ s')
    (h : padded s ++ t = padded s' ++ t') : s = s' ∧ t = t' := by
  have hs : s = s' := by
    rw [padded_append, padded_append] at h
    rw [← takeWhile_nul nul, h, takeWhile_nul nul']
  subst hs
  exact ⟨rfl, List.append_cancel_left h⟩

theorem sized_inj {p p' t t' : List UInt8} (size : p.length < 2 ^ 32) (size' : p'.length < 2 ^ 32)
    (h : toBigEndian 4 p.length ++ (p ++ t) = toBigEndian 4 p'.length ++ (p' ++ t')) :
    p = p' ∧ t = t' := by
  obtain ⟨hn, hrest⟩ := List.append_inj h (by rw [toBigEndian_length, toBigEndian_length])
  have hlen : p.length = p'.length := by
    rw [← bigEndian_toBigEndian (show p.length < 256 ^ 4 from size), hn,
      bigEndian_toBigEndian (show p'.length < 256 ^ 4 from size')]
  exact List.append_inj hrest hlen

theorem blob_append (payload bs : List UInt8) : blob payload ++ bs =
    toBigEndian 4 payload.length ++ (payload ++
      (List.replicate (ceil4 payload.length - payload.length) 0 ++ bs)) := by
  simp only [blob, List.append_assoc]

theorem not_badPadding (n : ℕ) (t : List UInt8) :
    ¬ BadPadding n (List.replicate (ceil4 n - n) 0 ++ t) := by
  intro h
  exact h (List.prefix_append _ _)

theorem not_badString {s : List UInt8} (nul : 0 ∉ s) (t : List UInt8) :
    ¬ BadString (padded s ++ t) := by
  rw [padded_append]
  intro h
  cases h with
  | unterminated h => exact h (by simp)
  | @padding s' t' hbytes hnul hpad =>
    obtain rfl : s = s' := by rw [← takeWhile_nul nul, hbytes, takeWhile_nul hnul]
    obtain ⟨-, rfl⟩ := List.cons.inj (List.append_cancel_left hbytes)
    exact not_badPadding _ _ hpad

theorem Arg.supported {tag : UInt8} {v : List UInt8} (h : Arg tag v) : Supported tag := by
  cases h with
  | fixed size => exact .inl (by rw [size]; rfl)
  | string htag _ => exact .inr (.inl htag)
  | blob htag _ => exact .inr (.inr htag)

theorem Arg.of_fixed {tag : UInt8} {v : List UInt8} {n : ℕ} (h : Arg tag v)
    (hn : fixedSize tag = some n) : v.length = n := by
  cases h with
  | fixed size => exact Option.some.inj (size.symm.trans hn)
  | string htag _ =>
    subst htag
    cases hn
  | blob htag _ =>
    subst htag
    cases hn

theorem Arg.of_string {v : List UInt8} (h : Arg typeTagString v) : ∃ s, 0 ∉ s ∧ v = padded s := by
  cases h with
  | fixed size => cases size
  | string _ nul => exact ⟨_, nul, rfl⟩
  | blob htag _ => exact absurd htag (by decide)

theorem Arg.of_blob {v : List UInt8} (h : Arg typeTagBlob v) :
    ∃ payload : List UInt8, payload.length + 4 < 2 ^ 32 ∧ v = Oscpkt.blob payload := by
  cases h with
  | fixed size => cases size
  | string htag _ => exact absurd htag (by decide)
  | blob _ size => exact ⟨_, size, rfl⟩

theorem Arg.inj {tag : UInt8} {v v' bs bs' : List UInt8} (h : Arg tag v) (h' : Arg tag v')
    (he : v ++ bs = v' ++ bs') : v = v' ∧ bs = bs' := by
  cases h with
  | fixed size => exact List.append_inj he (h'.of_fixed size).symm
  | string htag nul =>
    subst htag
    obtain ⟨s', nul', rfl⟩ := h'.of_string
    obtain ⟨rfl, ht⟩ := padded_inj nul nul' he
    exact ⟨rfl, ht⟩
  | blob htag size =>
    subst htag
    obtain ⟨payload', size', rfl⟩ := h'.of_blob
    rw [blob_append, blob_append] at he
    obtain ⟨rfl, ht⟩ := sized_inj (by omega) (by omega) he
    exact ⟨rfl, List.append_cancel_left ht⟩

theorem args_cons {tag : UInt8} {tags bs : List UInt8} (h : Args false (tag :: tags) bs) :
    ∃ v rest, Arg tag v ∧ bs = v ++ rest ∧ Args false tags rest := by
  generalize hts : tag :: tags = ts, hw : false = w at h
  cases h with
  | nil => cases hts
  | fixed size more =>
    obtain ⟨rfl, rfl⟩ := List.cons.inj hts
    subst hw
    exact ⟨_, _, .fixed size, rfl, more⟩
  | string nul more =>
    obtain ⟨rfl, rfl⟩ := List.cons.inj hts
    subst hw
    exact ⟨_, _, .string rfl nul, rfl, more⟩
  | blob size more =>
    obtain ⟨rfl, rfl⟩ := List.cons.inj hts
    subst hw
    exact ⟨_, _, .blob rfl size, rfl, more⟩
  | wrapping more => cases hw

theorem args_supported {tags bs : List UInt8} (h : Args false tags bs) :
    ∀ tag ∈ tags, Supported tag := by
  induction tags generalizing bs with
  | nil => simp
  | cons tag tags ih =>
    obtain ⟨v, rest, arg, -, more⟩ := args_cons h
    intro t ht
    rcases List.mem_cons.mp ht with rfl | ht
    · exact arg.supported
    · exact ih more t ht

/-- Malformed arguments are not in the grammar. -/
theorem MalformedArgs.not_args {tags bs : List UInt8} (h : MalformedArgs tags bs) :
    ¬ Args false tags bs := by
  induction h with
  | leftover hne =>
    intro ha
    cases ha
    exact hne rfl
  | unsupported mem hno => exact fun ha => hno (args_supported ha _ mem)
  | fixed size hlt =>
    intro ha
    obtain ⟨v, rest, arg, rfl, -⟩ := args_cons ha
    rw [List.length_append, arg.of_fixed size] at hlt
    omega
  | string hbad =>
    intro ha
    obtain ⟨v, rest, arg, rfl, -⟩ := args_cons ha
    obtain ⟨s, nul, rfl⟩ := arg.of_string
    exact not_badString nul rest hbad
  | blob hlt =>
    intro ha
    obtain ⟨v, rest, arg, rfl, -⟩ := args_cons ha
    obtain ⟨payload, size, rfl⟩ := arg.of_blob
    rw [blob_append, List.take_left' (toBigEndian_length _ _),
      bigEndian_toBigEndian (show payload.length < 256 ^ 4 by norm_num; omega)] at hlt
    simp only [List.length_append, toBigEndian_length] at hlt
    omega
  | blobPadding size hpad =>
    intro ha
    obtain ⟨v, rest, arg, hv, -⟩ := args_cons ha
    obtain ⟨payload, size', rfl⟩ := arg.of_blob
    rw [blob_append] at hv
    obtain ⟨rfl, rfl⟩ := sized_inj size (by omega) hv
    exact not_badPadding _ _ hpad
  | later arg _ ih =>
    intro ha
    obtain ⟨v, rest, arg', hv, more⟩ := args_cons ha
    obtain ⟨rfl, rfl⟩ := arg.inj arg' hv
    exact ih more

/-- A blob of wrapping size declares more bytes than a message of less than 2^32 has. -/
theorem malformedArgs_of_wrapping {w : Bool} {tags bs : List UInt8} (h : Args w tags bs) :
    w = true → bs.length < 2 ^ 32 → MalformedArgs tags bs := by
  induction h with
  | nil =>
    intro hw
    cases hw
  | fixed size _ ih =>
    intro hw hlt
    rw [List.length_append] at hlt
    exact .later (.fixed size) (ih hw (by omega))
  | string nul _ ih =>
    intro hw hlt
    rw [List.length_append] at hlt
    exact .later (.string rfl nul) (ih hw (by omega))
  | blob size _ ih =>
    intro hw hlt
    rw [List.length_append] at hlt
    exact .later (.blob rfl size) (ih hw (by omega))
  | wrapping _ _ =>
    intro _ hlt
    have hsize : 4 + bigEndian wrappingSize = 2 ^ 32 := by decide
    refine .blob ?_
    rw [List.take_left' (show wrappingSize.length = 4 from rfl), hsize]
    exact hlt

theorem MalformedMessage.not_isMessage {d : List UInt8} (h : MalformedMessage d) (c : Content) :
    ¬ IsMessage false d c := by
  intro hm
  have hcomma : (0 : UInt8) ∉ 44 :: c.typeTags := by
    rw [List.mem_cons, not_or]
    exact ⟨by decide, hm.tags_nul⟩
  cases h with
  | address hbad =>
    rw [hm.bytes] at hbad
    exact not_badString hm.address_nul _ hbad
  | slash hne => exact hne (isMessage_head hm)
  | typeTags bytes nul hbad =>
    rw [hm.bytes] at bytes
    obtain ⟨-, rfl⟩ := padded_inj hm.address_nul nul bytes
    exact not_badString hcomma _ hbad
  | comma bytes nul hne =>
    rw [hm.bytes] at bytes
    obtain ⟨-, rfl⟩ := padded_inj hm.address_nul nul bytes
    exact hne rfl
  | @arguments a tags payload bytes nul tags_nul hargs =>
    rw [hm.bytes] at bytes
    obtain ⟨-, htags⟩ := padded_inj hm.address_nul nul bytes
    have hcomma' : (0 : UInt8) ∉ 44 :: tags := by
      rw [List.mem_cons, not_or]
      exact ⟨by decide, tags_nul⟩
    obtain ⟨hcons, rfl⟩ := padded_inj hcomma hcomma' htags
    obtain ⟨-, rfl⟩ := List.cons.inj hcons
    exact hargs.not_args hm.args

theorem malformedMessage_of_wrapping {d : List UInt8} {c : Content} (h : IsMessage true d c)
    (hlt : d.length < 2 ^ 32) : MalformedMessage d := by
  refine .arguments h.bytes h.address_nul h.tags_nul (malformedArgs_of_wrapping h.args rfl ?_)
  rw [h.bytes, List.length_append, List.length_append] at hlt
  omega

mutual
/-- A packet of the grammar has no malformed part. -/
theorem Packet.not_malformed {w : Bool} {d : List UInt8} {cs : List Content} :
    Packet w d cs → w = false → ¬ Malformed d
  | .empty, _, h => by
    cases h with
    | size h => exact h rfl
    | message nonempty _ _ => exact nonempty rfl
    | header head _ => cases head
    | bundle bytes _ _ => exact absurd bytes (List.cons_ne_nil _ _).symm
  | .message hm, hw, h => by
    subst hw
    have hhead := isMessage_head hm
    cases h with
    | size h => exact h (isMessage_aligned hm)
    | message _ _ h => exact h.not_isMessage _ hm
    | header head _ =>
      rw [hhead] at head
      cases head
    | bundle bytes _ _ =>
      rw [bytes] at hhead
      cases hhead
  | @Packet.bundle _ time es _ htime nonempty elements, hw, h => by
    have haligned := elements_aligned elements
    have hpos := List.length_pos_of_ne_nil nonempty
    have hlen : (bundleTag ++ (time ++ es)).length = 16 + es.length := by
      simp only [List.length_append, htime, bundleTag, List.length_cons, List.length_nil]
      omega
    cases h with
    | size h => exact h (by rw [hlen]; omega)
    | message _ head _ => exact head rfl
    | header _ h => exact h ⟨by rw [hlen]; omega, List.take_left' rfl⟩
    | bundle bytes htime' h =>
      have hrest := List.append_cancel_left bytes
      obtain ⟨-, rfl⟩ := List.append_inj hrest (by rw [htime, htime'])
      exact elements.not_malformed hw h

theorem Elements.not_malformed {w : Bool} {es : List UInt8} {cs : List Content} :
    Elements w es cs → w = false → ¬ MalformedElements es
  | .nil, _, h => by
    cases h with
    | pastEnd nonempty _ => exact nonempty rfl
    | head bytes _ _ => exact absurd bytes (List.cons_ne_nil _ _).symm
    | tail bytes _ _ => exact absurd bytes (List.cons_ne_nil _ _).symm
  | @Elements.cons _ _ body _ _ _ size head more, hw, h => by
    obtain ⟨hw, hv⟩ := Bool.or_eq_false_iff.mp hw
    cases h with
    | pastEnd _ h =>
      rw [List.take_left' (toBigEndian_length _ _),
        bigEndian_toBigEndian (show body.length < 256 ^ 4 from size)] at h
      simp only [List.length_append, toBigEndian_length] at h
      omega
    | head bytes size' h =>
      obtain ⟨rfl, -⟩ := sized_inj size size' bytes
      exact head.not_malformed hw h
    | tail bytes size' h =>
      obtain ⟨-, rfl⟩ := sized_inj size size' bytes
      exact more.not_malformed hv h
end

mutual
/-- A packet that is read with a blob of wrapping size is malformed. -/
theorem Packet.malformed {w : Bool} {d : List UInt8} {cs : List Content} :
    Packet w d cs → w = true → d.length < 2 ^ 32 → Malformed d
  | .empty, hw, _ => by cases hw
  | .message hm, hw, hlt => by
    subst hw
    have hhead := isMessage_head hm
    refine .message ?_ ?_ (malformedMessage_of_wrapping hm hlt)
    · rintro rfl
      cases hhead
    · rw [hhead]
      decide
  | .bundle htime _ elements, hw, hlt => by
    simp only [List.length_append] at hlt
    exact .bundle rfl htime (elements.malformed hw (by omega))

theorem Elements.malformed {w : Bool} {es : List UInt8} {cs : List Content} :
    Elements w es cs → w = true → es.length < 2 ^ 32 → MalformedElements es
  | .nil, hw, _ => by cases hw
  | .cons size head more, hw, hlt => by
    simp only [List.length_append] at hlt
    rcases Bool.or_eq_true_iff.mp hw with hw | hv
    · exact .head rfl size (head.malformed hw size)
    · exact .tail rfl size (more.malformed hv (by omega))
end

end Moodpd.Oscpkt
