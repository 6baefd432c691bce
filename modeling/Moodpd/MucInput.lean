import Moodpd.ColorCommands
import Moodpd.MucProtocol

/-!
# What a muccc-style datagram determines

The brightness and fade messages check the length of their text and not what `sscanf` makes
of it. With other characters than digits, uninitialised variables go out.
-/
namespace Moodpd.Muc
open Memory HexText Daemon

def datagram (type : UInt8) (msg : List UInt8) : List UInt8 := magic ++ type :: msg

/-- What is submitted is determined by the datagram and the raw mode, and a brightness or fade
message that is not the required number of digits submits nothing. -/
structure Determined (type : UInt8) (msg : List UInt8) : Prop where
  same : ∀ (k : HealthyKernel) (stale stale' : Stale) (loc loc' : Locals) (s t : Daemon),
    s.allowRawMode = t.allowRawMode → ∃ s' t' chunks,
      handle k.toKernel stale (datagram type msg) loc s = .ok s' ∧
      handle k.toKernel stale' (datagram type msg) loc' t = .ok t' ∧
      s'.serial.submitted = s.serial.submitted ++ chunks ∧
      t'.serial.submitted = t.serial.submitted ++ chunks
  rejected : (type = setBrightness ∧ ¬ DigitText 2 (messageText msg)) ∨
      (type = fadeMs ∧ ¬ DigitText 10 (messageText msg)) →
    ∀ (k : HealthyKernel) (stale : Stale) (loc : Locals) (s : Daemon), ∃ s',
      handle k.toKernel stale (datagram type msg) loc s = .ok s' ∧
      s'.serial.submitted = s.serial.submitted

/-- A text of the required length consists of digits. -/
def WellScanned (n : ℕ) (msg : List UInt8) : Prop :=
  (messageText (receivedMessage msg)).length = n → DigitText n (messageText msg)

theorem commandChunks_datagram (raw : Bool) (loc : Locals) (type : UInt8) (msg : List UInt8) :
    commandChunks raw loc ((datagram type msg).take maxPacketSize) =
      if receivedMessage msg = [] then [] else messageChunks raw loc type (receivedMessage msg) := by
  unfold datagram
  rw [take_datagram]
  unfold commandChunks
  by_cases h : receivedMessage msg = []
  · rw [if_pos h, if_neg fun ha => accepted_datagram.mp ha h]
  · rw [if_neg h, if_pos (accepted_datagram.mpr h)]
    rfl

theorem Filling.of_digits {n : ℕ} {text : List UInt8} (h : DigitText n text) (hpos : 0 < n)
    (hsmall : n ≤ 7) : Filling n text := ⟨h.1, hpos, hsmall, h.2⟩

/-- Two digits leave no variable as it was. -/
theorem scan_brightness {text : List UInt8} (h : DigitText 2 text) :
    (sscanf [2] text).2 = [(hexNumber text : ℤ)] := by
  have hscan := sscanf_filling (show [text] ≠ [] by simp)
    (.cons (Filling.of_digits h (by decide) (by decide)) .nil)
  rw [List.flatten_singleton] at hscan
  rw [hscan]
  rfl

/-- Nor do ten digits. -/
theorem scan_fade {text : List UInt8} (h : DigitText 10 text) :
    ∃ r g b time, text = r ++ (g ++ (b ++ time)) ∧
      DigitText 2 r ∧ DigitText 2 g ∧ DigitText 2 b ∧ DigitText 4 time ∧
      (sscanf [2, 2, 2, 4] text).2 =
        [(hexNumber r : ℤ), (hexNumber g : ℤ), (hexNumber b : ℤ), (hexNumber time : ℤ)] := by
  obtain ⟨hlen, hhex⟩ := h
  obtain ⟨r₁, r₂, g₁, g₂, b₁, b₂, t₁, t₂, t₃, t₄, rfl⟩ : ∃ r₁ r₂ g₁ g₂ b₁ b₂ t₁ t₂ t₃ t₄,
      text = [r₁, r₂, g₁, g₂, b₁, b₂, t₁, t₂, t₃, t₄] := by
    match text, hlen with
    | [r₁, r₂, g₁, g₂, b₁, b₂, t₁, t₂, t₃, t₄], _ =>
      exact ⟨r₁, r₂, g₁, g₂, b₁, b₂, t₁, t₂, t₃, t₄, rfl⟩
  simp only [List.forall_mem_cons] at hhex
  obtain ⟨hr₁, hr₂, hg₁, hg₂, hb₁, hb₂, ht₁, ht₂, ht₃, ht₄, -⟩ := hhex
  have hr : DigitText 2 [r₁, r₂] := ⟨rfl, by simp [hr₁, hr₂]⟩
  have hg : DigitText 2 [g₁, g₂] := ⟨rfl, by simp [hg₁, hg₂]⟩
  have hb : DigitText 2 [b₁, b₂] := ⟨rfl, by simp [hb₁, hb₂]⟩
  have ht : DigitText 4 [t₁, t₂, t₃, t₄] := ⟨rfl, by simp [ht₁, ht₂, ht₃, ht₄]⟩
  have hscan := sscanf_filling (show [[r₁, r₂], [g₁, g₂], [b₁, b₂], [t₁, t₂, t₃, t₄]] ≠ [] by simp)
    (.cons (Filling.of_digits hr (by decide) (by decide))
      (.cons (Filling.of_digits hg (by decide) (by decide))
        (.cons (Filling.of_digits hb (by decide) (by decide))
          (.cons (Filling.of_digits ht (by decide) (by decide)) .nil))))
  exact ⟨[r₁, r₂], [g₁, g₂], [b₁, b₂], [t₁, t₂, t₃, t₄], rfl, hr, hg, hb, ht,
    congrArg Prod.snd hscan⟩

/-- A text of digits is received whole. -/
theorem digitText_received {n : ℕ} {msg : List UInt8} (h : DigitText n (messageText msg))
    (hn : n ≤ maxPacketSize - packetSize) : messageText (receivedMessage msg) = messageText msg :=
  messageText_take (by rw [h.1]; exact hn)

/-- The brightness does not depend on the variables. -/
theorem brightnessChunks_locals {msg : List UInt8} (h : WellScanned 2 msg) (loc loc' : Locals) :
    brightnessChunks loc (messageText (receivedMessage msg)) =
      brightnessChunks loc' (messageText (receivedMessage msg)) := by
  unfold brightnessChunks
  by_cases hlen : (messageText (receivedMessage msg)).length ≠ 2
  · rw [if_pos hlen, if_pos hlen]
  · have hdigits := h (not_not.mp hlen)
    rw [digitText_received hdigits (by decide), scan_brightness hdigits]
    simp only [scanned, List.getD_cons_zero]

theorem fadeChunks_locals {msg : List UInt8} (h : WellScanned 10 msg) (loc loc' : Locals) :
    fadeChunks loc (messageText (receivedMessage msg)) =
      fadeChunks loc' (messageText (receivedMessage msg)) := by
  unfold fadeChunks
  by_cases hlen : (messageText (receivedMessage msg)).length ≠ 10
  · simp only [if_pos hlen]
  · have hdigits := h (not_not.mp hlen)
    obtain ⟨r, g, b, time, -, -, -, -, -, hscan⟩ := scan_fade hdigits
    rw [digitText_received hdigits (by decide), hscan]
    simp only [scanned, List.getD_cons_zero, List.getD_cons_succ]

theorem messageChunks_locals {type : UInt8} {msg : List UInt8}
    (hbright : type = setBrightness → WellScanned 2 msg)
    (hfade : type = fadeMs → WellScanned 10 msg) (raw : Bool) (loc loc' : Locals) :
    messageChunks raw loc type (receivedMessage msg) =
      messageChunks raw loc' type (receivedMessage msg) := by
  unfold messageChunks
  by_cases h₁ : type = setBrightness
  · rw [brightnessChunks_locals (hbright h₁) loc loc']
    simp [h₁]
  by_cases h₂ : type = fadeMs
  · rw [fadeChunks_locals (hfade h₂) loc loc']
    simp only [if_neg h₁]
  · simp only [if_neg h₁, if_neg h₂]

/-- A message whose text has the required length is not rejected. -/
theorem messageChunks_ne_nil {type : UInt8} {msg : List UInt8} {n : ℕ}
    (h : (type = setBrightness ∧ n = 2) ∨ (type = fadeMs ∧ n = 10))
    (hlen : (messageText msg).length = n) (raw : Bool) (loc : Locals) :
    messageChunks raw loc type msg ≠ [] := by
  unfold messageChunks
  rcases h with ⟨rfl, rfl⟩ | ⟨rfl, rfl⟩
  · rw [if_neg (by decide), if_neg (by decide), if_pos rfl, brightnessChunks,
      if_neg (not_not.mpr hlen)]
    exact List.cons_ne_nil _ _
  · rw [if_neg (by decide), if_neg (by decide), if_neg (by decide), if_pos rfl, fadeChunks,
      if_neg (not_not.mpr hlen)]
    exact List.cons_ne_nil _ _

theorem messageChunks_rejected {type : UInt8} {msg : List UInt8} {n : ℕ}
    (h : (type = setBrightness ∧ n = 2) ∨ (type = fadeMs ∧ n = 10))
    (hlen : (messageText msg).length ≠ n) (raw : Bool) (loc : Locals) :
    messageChunks raw loc type msg = [] := by
  unfold messageChunks
  rcases h with ⟨rfl, rfl⟩ | ⟨rfl, rfl⟩
  · rw [if_neg (by decide), if_neg (by decide), if_pos rfl, brightnessChunks, if_pos hlen]
  · rw [if_neg (by decide), if_neg (by decide), if_neg (by decide), if_pos rfl, fadeChunks,
      if_pos hlen]

/-- A message that is rejected when it is not so many digits is well scanned. -/
theorem wellScanned_of_rejected {type : UInt8} {msg : List UInt8} {n : ℕ}
    (hn : (type = setBrightness ∧ n = 2) ∨ (type = fadeMs ∧ n = 10))
    (h : ¬ DigitText n (messageText msg) → ∃ s', handle blocked.toKernel (.replicate 1025 0)
      (datagram type msg) ⟨0, 0, 0, 0, 0⟩ idle = .ok s' ∧
      s'.serial.submitted = idle.serial.submitted) : WellScanned n msg := by
  intro hlen
  by_contra hdigits
  have hchunks := (exists_ok_same_iff (handle_ok blocked (.replicate 1025 0) (datagram type msg)
    ⟨0, 0, 0, 0, 0⟩ idle)).mp (h hdigits)
  have hne : receivedMessage msg ≠ [] := by
    intro he
    rw [he] at hlen
    rcases hn with ⟨-, rfl⟩ | ⟨-, rfl⟩ <;> exact absurd hlen (by decide)
  rw [commandChunks_datagram, if_neg hne] at hchunks
  exact messageChunks_ne_nil hn hlen _ _ hchunks

/-- The datagram determines what is sent exactly when it is no brightness or fade message with
a text that has the required length and is not made of digits. -/
theorem determined_iff (type : UInt8) (msg : List UInt8) : Determined type msg ↔
    (type = setBrightness → WellScanned 2 msg) ∧ (type = fadeMs → WellScanned 10 msg) := by
  constructor
  · intro h
    refine ⟨fun hbright => ?_, fun hfade => ?_⟩
    · exact wellScanned_of_rejected (.inl ⟨hbright, rfl⟩)
        fun hno => h.rejected (.inl ⟨hbright, hno⟩) _ _ _ _
    · exact wellScanned_of_rejected (.inr ⟨hfade, rfl⟩)
        fun hno => h.rejected (.inr ⟨hfade, hno⟩) _ _ _ _
  · rintro ⟨hbright, hfade⟩
    constructor
    · intro k stale stale' loc loc' s t hraw
      obtain ⟨s', hs', hsub⟩ := handle_ok k stale (datagram type msg) loc s
      obtain ⟨t', ht', hsub'⟩ := handle_ok k stale' (datagram type msg) loc' t
      refine ⟨s', t', _, hs', ht', hsub, ?_⟩
      rw [hsub', ← hraw, commandChunks_datagram, commandChunks_datagram,
        messageChunks_locals hbright hfade s.allowRawMode loc' loc]
    · intro hno k stale loc s
      have hchunks : messageChunks s.allowRawMode loc type (receivedMessage msg) = [] := by
        rcases hno with ⟨htype, hdigits⟩ | ⟨htype, hdigits⟩
        · exact messageChunks_rejected (.inl ⟨htype, rfl⟩) (fun hlen => hdigits (hbright htype hlen))
            _ _
        · exact messageChunks_rejected (.inr ⟨htype, rfl⟩) (fun hlen => hdigits (hfade htype hlen))
            _ _
      refine (exists_ok_same_iff (handle_ok k stale (datagram type msg) loc s)).mpr ?_
      rw [commandChunks_datagram, hchunks, ite_self]

/-- A brightness that is no number sends what a variable happens to hold. -/
theorem brightness_leaks : ¬ Determined setBrightness (ascii "zz") := by
  intro h
  obtain ⟨s', t', chunks, hs', ht', hsub, hsub'⟩ := h.same blocked (.replicate 1025 0)
    (.replicate 1025 0) ⟨1, 0, 0, 0, 0⟩ ⟨2, 0, 0, 0, 0⟩ idle idle rfl
  obtain ⟨u, hu, hone⟩ := handle_ok blocked (.replicate 1025 0) (datagram setBrightness (ascii "zz"))
    ⟨1, 0, 0, 0, 0⟩ idle
  obtain ⟨v, hv, htwo⟩ := handle_ok blocked (.replicate 1025 0) (datagram setBrightness (ascii "zz"))
    ⟨2, 0, 0, 0, 0⟩ idle
  rw [← Except.ok.inj (hs'.symm.trans hu), hsub] at hone
  rw [← Except.ok.inj (ht'.symm.trans hv), hsub'] at htwo
  have hsame := (List.append_cancel_left hone).symm.trans (List.append_cancel_left htwo)
  exact absurd hsame (by decide +kernel)

end Moodpd.Muc
