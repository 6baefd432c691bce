import Moodpd.PrefixCode
import Moodpd.WireGrammar

/-!
# The stream of lamp commands

The commands are the words of a code with the newline as its terminator, so that the lamp can
tell them apart from the stream alone.
-/
namespace Moodpd
open Memory HexText Oscpkt Daemon PrefixCode

/-- A colour for all lamps or for one. -/
inductive LampColor
  | broadcast (r g b : UInt8)
  | addressed (r g b lamp : UInt8)
  deriving DecidableEq, Repr

namespace LampColor

/-- A component as the argument of a conversion. -/
def int (v : UInt8) : ℤ := v.toNat

/-- The bytes that the two formats make of a command. -/
def bytes : LampColor → Chunk
  | broadcast r g b => format colorFormat [int r, int g, int b]
  | addressed r g b lamp => format lampFormat [int r, int g, int b, int lamp]

def components : LampColor → List UInt8
  | broadcast r g b => [r, g, b]
  | addressed r g b lamp => [r, g, b, lamp]

/-- A command without its newline. -/
def body (c : LampColor) : List UInt8 := 105 :: c.components.flatMap fun v => hexDigits 2 (int v)

theorem bytes_eq (c : LampColor) : c.bytes = c.body ++ [10] := by
  cases c <;> simp [bytes, body, components, format, colorFormat, lampFormat]

theorem hexDigits_int (v : UInt8) :
    hexDigits 2 (int v) = [digitChar (v.toNat / 16), digitChar (v.toNat % 16)] := by
  have hv := v.toNat_lt
  unfold int
  rw [hexDigits_byte (by omega) (by omega), Int.toNat_natCast]

/-- Two digits name one byte, so that the bytes make a code themselves. -/
theorem prefixFree_hexDigits : PrefixFree fun v : UInt8 => hexDigits 2 (int v) where
  ne_nil v := by simp [hexDigits_int]
  eq_of_prefix v w := by
    rintro ⟨rest, he⟩
    simp only [hexDigits_int, List.cons_append, List.nil_append, List.cons.injEq] at he
    have hv := v.toNat_lt
    have hw := w.toNat_lt
    have hhigh := digitChar_injective _ (by omega) _ (by omega) he.1
    have hlow := digitChar_injective _ (by omega) _ (by omega) he.2.1
    exact UInt8.toNat_inj.mp (by omega)

theorem components_injective : Function.Injective components := by
  intro c d h
  cases c <;> cases d <;> simp_all [components]

theorem body_injective : Function.Injective body := by
  intro c d h
  exact components_injective (prefixFree_hexDigits.flatMap_injective (List.cons.inj h).2)

theorem newline_notMem_body (c : LampColor) : 10 ∉ c.body := by
  unfold body
  simp only [List.mem_cons, List.mem_flatMap, not_or, not_exists, not_and]
  refine ⟨by decide, fun v _ hmem => ?_⟩
  exact absurd (hexDigits_lower hmem) (by decide)

theorem prefixFree_bytes : PrefixFree bytes := by
  have hbytes : bytes = fun c => c.body ++ [10] := funext bytes_eq
  rw [hbytes]
  exact prefixFree_terminated body_injective newline_notMem_body

theorem isCommand_bytes (c : LampColor) : IsCommand c.bytes := by
  refine ⟨c.components.flatMap fun v => hexDigits 2 (int v), c.bytes_eq, ?_, ?_⟩
  · intro b hb
    obtain ⟨v, -, hv⟩ := List.mem_flatMap.mp hb
    exact hexDigits_lower hv
  · cases c with
    | broadcast => exact .inl (by simp [components, hexDigits_int])
    | addressed => exact .inr (by simp [components, hexDigits_int])

theorem exists_digit {b : UInt8} (h : IsLowerHex b) : ∃ n < 16, digitChar n = b := by
  simp only [IsLowerHex, UInt8.le_iff_toNat_le] at h
  simp only [UInt8.toNat_ofNat] at h
  rcases h with h | h
  · refine ⟨b.toNat - 48, by omega, UInt8.toNat_inj.mp ?_⟩
    rw [digitChar, if_pos (by omega), UInt8.toNat_ofNat']
    omega
  · refine ⟨b.toNat - 87, by omega, UInt8.toNat_inj.mp ?_⟩
    rw [digitChar, if_neg (by omega), UInt8.toNat_ofNat']
    omega

/-- Lowercase digits in pairs spell bytes. -/
theorem exists_components {n : ℕ} {ds : List UInt8} (hlen : ds.length = 2 * n)
    (hlower : ∀ b ∈ ds, IsLowerHex b) :
    ∃ vs : List UInt8, vs.length = n ∧ ds = vs.flatMap fun v => hexDigits 2 (int v) := by
  induction n generalizing ds with
  | zero => exact ⟨[], rfl, List.eq_nil_of_length_eq_zero hlen⟩
  | succ n ih =>
    match ds, hlen with
    | a :: b :: ds, hlen =>
      simp only [List.forall_mem_cons] at hlower
      obtain ⟨ha, hb, hds⟩ := hlower
      obtain ⟨x, hx, rfl⟩ := exists_digit ha
      obtain ⟨y, hy, rfl⟩ := exists_digit hb
      obtain ⟨vs, hvs, rfl⟩ := ih (by simp at hlen; omega) hds
      have hv : (UInt8.ofNat (x * 16 + y)).toNat = x * 16 + y := by
        rw [UInt8.toNat_ofNat']
        omega
      refine ⟨UInt8.ofNat (x * 16 + y) :: vs, by rw [List.length_cons, hvs], ?_⟩
      rw [List.flatMap_cons, hexDigits_int, hv, show (x * 16 + y) / 16 = x by omega,
        show (x * 16 + y) % 16 = y by omega]
      rfl

/-- The words of the code are the commands of the grammar. -/
theorem isCommand_iff_bytes {chunk : Chunk} : IsCommand chunk ↔ ∃ c : LampColor, c.bytes = chunk := by
  constructor
  · rintro ⟨ds, rfl, hlower, hlen | hlen⟩
    · obtain ⟨vs, hvs, rfl⟩ := exists_components (n := 3) hlen hlower
      obtain ⟨r, g, b, rfl⟩ := List.length_eq_three.mp hvs
      exact ⟨broadcast r g b, bytes_eq _⟩
    · obtain ⟨vs, hvs, rfl⟩ := exists_components (n := 4) hlen hlower
      match vs, hvs with
      | [r, g, b, lamp], _ => exact ⟨addressed r g b lamp, bytes_eq _⟩
  · rintro ⟨c, rfl⟩
    exact isCommand_bytes c

/-- The stream of a list of commands. -/
def stream (cs : List LampColor) : Chunk := cs.flatMap bytes

/-- The stream tells the commands, and each initial part of it that is a stream itself tells
the first of them. -/
theorem stream_unambiguous (cs ds : List LampColor) :
    (stream cs = stream ds ↔ cs = ds) ∧ (stream cs <+: stream ds ↔ cs <+: ds) :=
  ⟨prefixFree_bytes.flatMap_injective.eq_iff, prefixFree_bytes.flatMap_prefix_iff⟩

end LampColor

end Moodpd
