import Moodpd.Delimiter
import Moodpd.UdpSocket

/-!
# OSC urls

`Url::init` takes `osc.udp://foobar:9999/foo/plop/` apart with `strstr`. The texts it accepts are
those of `Front` followed by those of `Back`, and they can be read in one way only.
-/
namespace Moodpd.Oscpkt
open HexText Delimiter

/-- The text before the first occurrence of `pat`, and the text from there on. -/
def strstr (s pat : List UInt8) : Option (List UInt8 × List UInt8) :=
  (s.dropInfix? pat).map fun r => (r.1, pat ++ r.2)

theorem strstr_iff {s pat front back : List UInt8} (h : Unbordered pat) :
    strstr s pat = some (front, back) ↔
      ∃ after, back = pat ++ after ∧ s = front ++ (pat ++ after) ∧ ¬ pat <:+: front := by
  unfold strstr
  rw [Option.map_eq_some_iff]
  constructor
  · rintro ⟨⟨p, after⟩, hd, he⟩
    obtain ⟨rfl, rfl⟩ := Prod.mk.inj he
    obtain ⟨hs, hp⟩ := (dropInfix_iff h).mp hd
    exact ⟨after, rfl, hs, hp⟩
  · rintro ⟨after, rfl, hs, hp⟩
    exact ⟨(front, after), (dropInfix_iff h).mpr ⟨hs, hp⟩, rfl⟩

theorem strstr_eq_none {s pat : List UInt8} : strstr s pat = none ↔ ¬ pat <:+: s := by
  unfold strstr
  rw [Option.map_eq_none_iff, dropInfix_eq_none]

structure Url where
  protocol : List UInt8
  hostname : List UInt8
  port : List UInt8
  path : List UInt8
  err : ℤ
  deriving DecidableEq, Repr

namespace Url

def isOk (url : Url) : Bool := url.err = 0

/-- The part of `init` behind the protocol. -/
def initHost (s : List UInt8) (url : Url) : Url × Bool :=
  match strstr s (ascii ":") with
  | none => ({ url with err := 2 }, false)
  | some (hostname, po) =>
    let s := po.drop 1
    match strstr s (ascii "/") with
    | none => ({ url with hostname := hostname, port := s, path := ascii "/" }, true)
    | some (port, pa) => ({ url with hostname := hostname, port := port, path := pa }, true)

/-- `Url::init` on an object that may have been used before. Where it fails, the fields that
it has not reached keep what they held. -/
def init (text : List UInt8) (url : Url) : Url × Bool :=
  let url := { url with err := 0 }
  let s := UdpSocket.cstr text
  match strstr s (ascii "osc.") with
  | none => initHost s { url with protocol := ascii "udp" }
  | some (_, prot) =>
    match strstr prot (ascii "://") with
    | none => ({ url with err := 1 }, false)
    | some (front, p2) => initHost (p2.drop 3) { url with protocol := front.drop 4 }

/-- A text is a protocol and the rest. Without `osc.` all of it is the rest. -/
inductive Front : List UInt8 → List UInt8 → List UInt8 → Prop
  | plain {rest : List UInt8} (h : ¬ ascii "osc." <:+: rest) : Front rest (ascii "udp") rest
  | osc {pre protocol rest : List UInt8} (hpre : ¬ ascii "osc." <:+: pre)
      (hprot : ¬ ascii "://" <:+: protocol) :
      Front (pre ++ (ascii "osc." ++ (protocol ++ (ascii "://" ++ rest)))) protocol rest

/-- The rest is a host, a port and a path. -/
inductive Back : List UInt8 → List UInt8 → List UInt8 → List UInt8 → Prop
  | bare {hostname port : List UInt8} (hhost : ¬ ascii ":" <:+: hostname)
      (hport : ¬ ascii "/" <:+: port) :
      Back (hostname ++ (ascii ":" ++ port)) hostname port (ascii "/")
  | full {hostname port path : List UInt8} (hhost : ¬ ascii ":" <:+: hostname)
      (hport : ¬ ascii "/" <:+: port) :
      Back (hostname ++ (ascii ":" ++ (port ++ (ascii "/" ++ path)))) hostname port
        (ascii "/" ++ path)

/-- `osc.` without the end of a protocol behind it. -/
def Unclosed (s : List UInt8) : Prop :=
  ∃ pre after, s = pre ++ (ascii "osc." ++ after) ∧ ¬ ascii "osc." <:+: pre ∧
    ¬ ascii "://" <:+: after

theorem unbordered_colon : Unbordered (ascii ":") := unbordered_singleton _

theorem unbordered_slash : Unbordered (ascii "/") := unbordered_singleton _

theorem unbordered_osc : Unbordered (ascii "osc.") := by decide

theorem unbordered_separator : Unbordered (ascii "://") := by decide

theorem initHost_fails {s : List UInt8} (url : Url) (h : ¬ ascii ":" <:+: s) :
    initHost s url = ({ url with err := 2 }, false) := by
  unfold initHost
  rw [strstr_eq_none.mpr h]

theorem initHost_back {s hostname port path : List UInt8} (url : Url)
    (h : Back s hostname port path) :
    initHost s url =
      ({ url with hostname := hostname, port := port, path := path }, true) := by
  unfold initHost
  cases h with
  | bare hhost hport =>
    have hcolon := (strstr_iff unbordered_colon).mpr ⟨port, rfl, rfl, hhost⟩
    have hdrop : (ascii ":" ++ port).drop 1 = port := rfl
    simp only [hcolon, hdrop, strstr_eq_none.mpr hport]
  | @full _ _ tail hhost hport =>
    have hcolon := (strstr_iff unbordered_colon).mpr
      ⟨port ++ (ascii "/" ++ tail), rfl, rfl, hhost⟩
    have hdrop : (ascii ":" ++ (port ++ (ascii "/" ++ tail))).drop 1 =
      port ++ (ascii "/" ++ tail) := rfl
    have hslash := (strstr_iff unbordered_slash).mpr ⟨tail, rfl, rfl, hport⟩
    simp only [hcolon, hdrop, hslash]

theorem back_or (s : List UInt8) :
    ¬ ascii ":" <:+: s ∨ ∃ hostname port path, Back s hostname port path := by
  cases hs : strstr s (ascii ":") with
  | none => exact .inl (strstr_eq_none.mp hs)
  | some r =>
    obtain ⟨hostname, po⟩ := r
    obtain ⟨after, -, rfl, hhost⟩ := (strstr_iff unbordered_colon).mp hs
    cases ha : strstr after (ascii "/") with
    | none => exact .inr ⟨hostname, after, _, .bare hhost (strstr_eq_none.mp ha)⟩
    | some q =>
      obtain ⟨port, pa⟩ := q
      obtain ⟨path, -, rfl, hport⟩ := (strstr_iff unbordered_slash).mp ha
      exact .inr ⟨hostname, port, _, .full hhost hport⟩

theorem Back.colon {s hostname port path : List UInt8} (h : Back s hostname port path) :
    ascii ":" <:+: s := by
  cases h with
  | bare => exact ⟨_, _, List.append_assoc ..⟩
  | full => exact ⟨_, _, List.append_assoc ..⟩

/-- `://` is not begun by the dot, so that it makes no difference whether it is looked for
behind `osc.` or from there. -/
theorem separator_mem (s : List UInt8) :
    ascii "://" <:+: ascii "osc." ++ s ↔ ascii "://" <:+: s :=
  infix_append_iff (by decide)

theorem init_front {text protocol rest : List UInt8} (url : Url)
    (h : Front (UdpSocket.cstr text) protocol rest) :
    init text url = initHost rest { url with protocol := protocol, err := 0 } := by
  unfold init
  generalize UdpSocket.cstr text = s at h
  cases h with
  | plain hno => simp only [strstr_eq_none.mpr hno]
  | @osc pre _ _ hpre hprot =>
    have hosc := (strstr_iff unbordered_osc).mpr
      ⟨protocol ++ (ascii "://" ++ rest), rfl, rfl, hpre⟩
    have hsep := (strstr_iff unbordered_separator).mpr
      ⟨rest, rfl, (List.append_assoc (ascii "osc.") protocol _).symm,
        fun hin => hprot ((separator_mem protocol).mp hin)⟩
    have hfront : (ascii "osc." ++ protocol).drop 4 = protocol := rfl
    have hrest : (ascii "://" ++ rest).drop 3 = rest := rfl
    simp only [hosc, hsep, hfront, hrest]

theorem init_unclosed {text : List UInt8} (url : Url) (h : Unclosed (UdpSocket.cstr text)) :
    init text url = ({ url with err := 1 }, false) := by
  obtain ⟨pre, after, hs, hpre, hafter⟩ := h
  unfold init
  have hosc := (strstr_iff unbordered_osc).mpr ⟨after, rfl, rfl, hpre⟩
  have hsep := strstr_eq_none.mpr fun hin => hafter ((separator_mem after).mp hin)
  simp only [hs, hosc, hsep]

theorem front_or (s : List UInt8) : Unclosed s ∨ ∃ protocol rest, Front s protocol rest := by
  cases hs : strstr s (ascii "osc.") with
  | none => exact .inr ⟨_, s, .plain (strstr_eq_none.mp hs)⟩
  | some r =>
    obtain ⟨pre, prot⟩ := r
    obtain ⟨after, -, rfl, hpre⟩ := (strstr_iff unbordered_osc).mp hs
    cases ha : strstr after (ascii "://") with
    | none => exact .inl ⟨pre, after, rfl, hpre, strstr_eq_none.mp ha⟩
    | some q =>
      obtain ⟨protocol, p2⟩ := q
      obtain ⟨rest, -, rfl, hprot⟩ := (strstr_iff unbordered_separator).mp ha
      exact .inr ⟨protocol, rest, .osc hpre hprot⟩

/-- `init` accepts a text exactly where it is a protocol, a host, a port and a path, and then
these are the only ones that it has. It fails with 1 for `osc.` without `://`, and with 2 for a
rest without a colon, of which only the protocol is kept. -/
theorem init_grammar (text : List UInt8) (url url' : Url) :
    (init text url = (url', true) ↔
      ∃ rest, Front (UdpSocket.cstr text) url'.protocol rest ∧
        Back rest url'.hostname url'.port url'.path ∧ url'.err = 0) ∧
    (init text url = (url', false) ↔
      Unclosed (UdpSocket.cstr text) ∧ url' = { url with err := 1 } ∨
      ∃ protocol rest, Front (UdpSocket.cstr text) protocol rest ∧ ¬ ascii ":" <:+: rest ∧
        url' = { url with protocol := protocol, err := 2 }) := by
  refine ⟨⟨fun hi => ?_, ?_⟩, ⟨fun hi => ?_, ?_⟩⟩
  · rcases front_or (UdpSocket.cstr text) with hun | ⟨protocol, rest, hfront⟩
    · rw [init_unclosed url hun] at hi
      exact absurd (congrArg Prod.snd hi) Bool.false_ne_true
    · rw [init_front url hfront] at hi
      rcases back_or rest with hno | ⟨hostname, port, path, hback⟩
      · rw [initHost_fails _ hno] at hi
        exact absurd (congrArg Prod.snd hi) Bool.false_ne_true
      · rw [initHost_back _ hback] at hi
        obtain rfl := congrArg Prod.fst hi
        exact ⟨rest, hfront, hback, rfl⟩
  · rintro ⟨rest, hfront, hback, herr⟩
    rw [init_front url hfront, initHost_back _ hback]
    cases url'
    cases herr
    rfl
  · rcases front_or (UdpSocket.cstr text) with hun | ⟨protocol, rest, hfront⟩
    · rw [init_unclosed url hun] at hi
      exact .inl ⟨hun, (congrArg Prod.fst hi).symm⟩
    · rw [init_front url hfront] at hi
      rcases back_or rest with hno | ⟨hostname, port, path, hback⟩
      · rw [initHost_fails _ hno] at hi
        exact .inr ⟨protocol, rest, hfront, hno, (congrArg Prod.fst hi).symm⟩
      · rw [initHost_back _ hback] at hi
        exact absurd (congrArg Prod.snd hi).symm Bool.false_ne_true
  · rintro (⟨hun, rfl⟩ | ⟨protocol, rest, hfront, hno, rfl⟩)
    · exact init_unclosed url hun
    · rw [init_front url hfront, initHost_fails _ hno]

end Url
end Moodpd.Oscpkt
