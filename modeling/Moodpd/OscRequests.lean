import Moodpd.DaemonRuns

/-!
# Colour requests over OSC

A packet that is any tree of colour requests makes the daemon submit one command for each
request, in the order of the document.
-/
namespace Moodpd
open Memory HexText Oscpkt Daemon

/-- A colour request for the lamp with two given hexadecimal digits. -/
structure LampRequest where
  high : UInt8
  low : UInt8
  high_hex : isHexDigit high = true
  low_hex : isHexDigit low = true
  r : BitVec 32
  g : BitVec 32
  b : BitVec 32

mutual
/-- A lone request, or a bundle with a time tag. -/
inductive OscTree
  | message (req : LampRequest)
  | bundle (time : Vector UInt8 8) (elements : OscForest)

/-- The elements of a bundle, at least one. -/
inductive OscForest
  | last (t : OscTree)
  | cons (t : OscTree) (ts : OscForest)
end

mutual
/-- The requests of a tree in document order. -/
def OscTree.requests : OscTree → List LampRequest
  | .message req => [req]
  | .bundle _ elements => elements.requests

def OscForest.requests : OscForest → List LampRequest
  | .last t => t.requests
  | .cons t ts => t.requests ++ ts.requests
end

namespace LampRequest

/-- `"/moodpd/lamps/HH/rgb"`. -/
def address (req : LampRequest) : List UInt8 := lampsPrefix ++ ([req.high, req.low] ++ rgbSuffix)

def payload (req : LampRequest) : List UInt8 :=
  toBigEndian 4 req.r.toNat ++ (toBigEndian 4 req.g.toNat ++ toBigEndian 4 req.b.toNat)

def encode (req : LampRequest) : List UInt8 :=
  padded req.address ++ (padded (ascii ",iii") ++ req.payload)

def lamp (req : LampRequest) : ℕ :=
  (hexValue req.high).getD 0 * 16 + (hexValue req.low).getD 0

end LampRequest

mutual
def OscTree.encode : OscTree → List UInt8
  | .message req => req.encode
  | .bundle time elements => bundleTag ++ (time.toList ++ elements.encode)

def OscForest.encode : OscForest → List UInt8
  | .last t => toBigEndian 4 t.encode.length ++ t.encode
  | .cons t ts => toBigEndian 4 t.encode.length ++ (t.encode ++ ts.encode)
end

/-- A number below 256 as two lowercase hexadecimal digits. -/
def hexByte (n : ℕ) : List UInt8 := [digitChar (n / 16), digitChar (n % 16)]

def clampByte (v : BitVec 32) : ℕ := min v.toInt.toNat 255

/-- The command for a request. -/
def lampCommand (req : LampRequest) : Chunk :=
  105 :: (hexByte (clampByte req.r) ++ (hexByte (clampByte req.g) ++
    (hexByte (clampByte req.b) ++ (hexByte req.lamp ++ [10]))))

namespace LampRequest
variable (req : LampRequest)

/-- The content of the message that encodes a request. -/
def content : Content := ⟨req.address, [typeTagInt32, typeTagInt32, typeTagInt32], req.payload⟩

theorem digits : ∃ x y, hexValue req.high = some x ∧ hexValue req.low = some y := by
  obtain ⟨x, hx⟩ := isHexDigit_iff.mp req.high_hex
  obtain ⟨y, hy⟩ := isHexDigit_iff.mp req.low_hex
  exact ⟨x, y, hx, hy⟩

/-- No digit is a NUL or a slash. -/
theorem segment_plain {c : UInt8} (hc : hexValue c = none) : c ∉ [req.high, req.low] := by
  obtain ⟨x, y, hx, hy⟩ := req.digits
  simp only [List.mem_cons, List.not_mem_nil, or_false, not_or]
  constructor
  · rintro rfl
    rw [hc] at hx
    cases hx
  · rintro rfl
    rw [hc] at hy
    cases hy

theorem isMessage : IsMessage false req.encode req.content := by
  have hnul : 0 ∉ req.address := by
    have hseg := req.segment_plain (c := 0) (by decide)
    simp only [address, List.mem_append, not_or]
    exact ⟨by decide, hseg, by decide⟩
  exact isMessage_int32s rfl hnul req.r req.g req.b

end LampRequest

theorem OscForest.encode_ne_nil (ts : OscForest) : ts.encode ≠ [] := by
  cases ts <;> exact List.cons_ne_nil _ _

mutual
theorem packet_encode : ∀ t : OscTree, t.encode.length < 2 ^ 32 →
    Packet false t.encode (t.requests.map LampRequest.content)
  | .message req, _ => .message req.isMessage
  | .bundle time elements, h => by
    unfold OscTree.encode at h
    have hlt : elements.encode.length < 2 ^ 32 := by
      simp only [List.length_append] at h
      omega
    exact .bundle (by simp) elements.encode_ne_nil (elements_encode elements hlt)

theorem elements_encode : ∀ ts : OscForest, ts.encode.length < 2 ^ 32 →
    Elements false ts.encode (ts.requests.map LampRequest.content)
  | .last t, h => by
    unfold OscForest.encode at h
    have hlt : t.encode.length < 2 ^ 32 := by
      simp only [List.length_append] at h
      omega
    have he := Elements.cons hlt (packet_encode t hlt) .nil
    rw [List.append_nil, List.append_nil] at he
    exact he
  | .cons t ts, h => by
    unfold OscForest.encode at h
    simp only [List.length_append] at h
    have hlt : t.encode.length < 2 ^ 32 := by omega
    have he := Elements.cons hlt (packet_encode t hlt) (elements_encode ts (by omega))
    rw [← List.map_append] at he
    exact he
end

theorem hexDigits_eq_hexByte {v : ℤ} {n : ℕ} (hv : v = n) (hn : n ≤ 255) :
    hexDigits 2 v = hexByte n := by
  subst hv
  rw [hexDigits_byte (by omega) (by omega)]
  rfl

theorem clamp_eq_clampByte (v : BitVec 32) : clamp v.toInt = clampByte v := by
  unfold clamp clampByte
  omega

namespace LampRequest
variable (req : LampRequest)

theorem lamp_le : req.lamp ≤ 255 := by
  obtain ⟨x, y, hx, hy⟩ := req.digits
  have := hexValue_lt hx
  have := hexValue_lt hy
  unfold lamp
  rw [hx, hy]
  simp only [Option.getD_some]
  omega

/-- The number scanned from the address is the one its digits denote. -/
theorem lampNumber_segment : lampNumber [req.high, req.low] = req.lamp := by
  obtain ⟨x, y, hx, hy⟩ := req.digits
  have hvalue : req.lamp = x * 16 + y := by
    unfold lamp
    rw [hx, hy]
    rfl
  have hf : Fields ([] ++ ([req.high, req.low] ++ rgbSuffix)) [((x * 16 + y : ℕ) : ℤ)] :=
    .cons (by simp) (.two hx hy) (.nil rgbSuffix)
  have hs : sscanf [2] ([req.high, req.low] ++ rgbSuffix) = (1, [((x * 16 + y : ℕ) : ℤ)]) :=
    (sscanf_all_iff (n := 1) rfl Nat.one_pos).mpr hf
  have hle := req.lamp_le
  unfold lampNumber
  rw [hs, hvalue]
  simp only [List.headD_cons]
  exact if_neg (by omega)

theorem int32s_content : req.content.int32s = some (req.r.toInt, req.g.toInt, req.b.toInt) :=
  int32s_payload req.address req.r req.g req.b

theorem contentChunks_content : contentChunks req.content = [lampCommand req] := by
  have hseg : lampSegment req.content.address = some [req.high, req.low] :=
    lampSegment_eq_some.mpr ⟨req.segment_plain (by decide), rfl⟩
  have hclamp : ∀ v : BitVec 32, hexDigits 2 (clamp v.toInt) = hexByte (clampByte v) :=
    fun v => hexDigits_eq_hexByte (clamp_eq_clampByte v) (Nat.min_le_right _ _)
  unfold contentChunks
  rw [int32s_content]
  simp only [hseg, rgbChunk, lampNumber_segment, lampFormat, format, hclamp,
    hexDigits_eq_hexByte rfl req.lamp_le]
  rfl

end LampRequest

/-- The encoding of a tree of colour requests, received as one datagram, submits the command
of each request in document order and nothing else. -/
theorem osc_requests (k : HealthyKernel) (t : OscTree) (h : t.encode.length ≤ oscBufferSize)
    (s : Daemon) : ∃ s', s.handle k.toKernel (.osc (some t.encode)) = .ok s' ∧
      s'.serial.submitted = s.serial.submitted ++ t.requests.map lampCommand := by
  obtain ⟨s', hs', -, -, hsub⟩ := handle_ok k (.osc (some t.encode)) s
  have hlt : t.encode.length < 2 ^ 32 := lt_of_le_of_lt h (by decide)
  have hcontents : contents (t.encode.take oscBufferSize) =
      t.requests.map LampRequest.content := by
    rw [List.take_of_length_le h]
    exact contents_of_packet (packet_encode t hlt)
  have hemits : emits s.allowRawMode (.osc (some t.encode)) = t.requests.map lampCommand := by
    simp only [emits, Option.map_some, Option.getD_some, oscChunks, hcontents, List.flatMap_map,
      LampRequest.contentChunks_content]
    exact List.flatMap_pure_eq_map lampCommand t.requests
  exact ⟨s', hs', by rw [hsub, hemits]⟩

/-- A bundle of a request and of a bundle with another. -/
def twoLamps : OscTree :=
  .bundle (.replicate 8 0) (.cons (.message ⟨48, 70, by decide, by decide, 300, -5, 128⟩)
    (.last (.bundle (.replicate 8 255) (.last (.message ⟨97, 48, by decide, by decide, 1, 2, 3⟩)))))

theorem osc_requests_twoLamps : ∃ s',
    idle.handle blocked.toKernel (.osc (some twoLamps.encode)) = .ok s' ∧
    s'.serial.submitted = idle.serial.submitted ++ [ascii "iff00800f\n", ascii "i010203a0\n"] :=
  osc_requests blocked twoLamps (by decide +kernel) idle

end Moodpd
