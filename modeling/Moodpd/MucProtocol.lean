import Moodpd.DaemonRuns

/-!
# The build with MUCPROTOCOL

The command port of the daemon that speaks the muccc-style commands. A command goes out in
three writes, between two fixed pieces. What the uninitialised variables of `parseMessage`
hold is an input.
-/
namespace Moodpd.Muc
open Memory HexText Daemon

/-- `"acP\2"`. -/
def frameStart : Chunk := [97, 99, 80, 2]

/-- `"ab"`. -/
def frameEnd : Chunk := [97, 98]

def writeCommand (k : Kernel) (commandBytes : List UInt8) (length : ℤ) (s : Daemon) :
    Except Halt Daemon :=
  if length ≤ 0 then s.fail "writeCommand"
  else do
    let s ← s.write k frameStart
    let data ← checked (readRange commandBytes 0 length.toNat)
    let s ← s.write k data
    let s ← s.write k frameEnd
    .ok (if s.logs .info then s.logCommand data else s)

def writeCommandF (k : Kernel) (fmt : List Piece) (args : List ℤ) (s : Daemon) :
    Except Halt Daemon :=
  let (ch, nbytes) := vsnprintf 1023 (format fmt args)
  if nbytes > 0 then writeCommand k ch nbytes s else s.fail "vsnprintf"

/-- `MOODPD_SETBRIGHTNESS`. -/
def setBrightness : UInt8 := 66

/-- `MOODPD_FADEMS`. -/
def fadeMs : UInt8 := 70

/-- `MOODPD_PAUSE`. -/
def pause : UInt8 := 80

/-- `MOODPD_POWER`. -/
def power : UInt8 := 88

/-- `CMD_SET_BRIGHTNESS`. -/
def cmdSetBrightness : ℤ := 68

/-- `CMD_FADEMS`. -/
def cmdFadeMs : ℤ := 77

/-- `CMD_PAUSE`. -/
def cmdPause : ℤ := 0x17

/-- `CMD_POWER`. -/
def cmdPower : ℤ := 0x10

/-- The uninitialised variables of `parseMessage`: `b` where the brightness is set, and `r`,
`g`, `b` and `time` where a fade is. -/
structure Locals where
  brightness : BitVec 32
  r : BitVec 32
  g : BitVec 32
  b : BitVec 32
  time : BitVec 32
  deriving DecidableEq, Repr

/-- A variable after `sscanf`, which assigns some values from the first conversion on. -/
def scanned (vs : List ℤ) (i : ℕ) (var : BitVec 32) : ℤ := vs.getD i var.toInt

/-- `"C%c%c%c"`. -/
def colorFormat : List Piece := [.lit 67, .char, .char, .char]

/-- Raw messages are not affected by the option. -/
def parseMessage (k : Kernel) (type : UInt8) (mem : List UInt8) (message msgsize : ℕ)
    (loc : Locals) (s : Daemon) : Except Halt Daemon :=
  if type = rawMsg then s.parseMessage k rawMsg mem message msgsize
  else if type = color then do
    let mem ← checked (chomp mem message)
    let text ← checked (cstring (mem.drop message))
    let (nmatches, rgb) := sscanf [2, 2, 2] text
    if nmatches ≠ 3 then .ok (s.flog .error "bad color string %s\n" [.text text])
    else writeCommandF k colorFormat rgb s
  else if type = setBrightness then do
    let mem ← checked (chomp mem message)
    let text ← checked (cstring (mem.drop message))
    if text.length ≠ 2 then .ok (s.flog .error "bad brightness string %s\n" [.text text])
    else
      let (_, vs) := sscanf [2] text
      writeCommandF k [.char, .char] [cmdSetBrightness, scanned vs 0 loc.brightness] s
  else if type = fadeMs then do
    let mem ← checked (chomp mem message)
    let text ← checked (cstring (mem.drop message))
    if text.length ≠ 10 then .ok (s.flog .error "bad fade parameters %s\n" [.text text])
    else
      let (_, vs) := sscanf [2, 2, 2, 4] text
      let time := scanned vs 3 loc.time
      writeCommandF k [.char, .char, .char, .char, .char, .char]
        [cmdFadeMs, scanned vs 0 loc.r, scanned vs 1 loc.g, scanned vs 2 loc.b,
          time / 256 % 256, time % 256] s
  else if type = pause then writeCommandF k [.char] [cmdPause] s
  else if type = power then writeCommandF k [.char] [cmdPower] s
  else .ok (s.flog .error "unknown packet type 0x%02X.\n" [.int (promote type)])

def receiveCommand (k : Kernel) (mem : List UInt8) (sz : ℕ) (loc : Locals) (s : Daemon) :
    Except Halt Daemon :=
  if sz = 0 then .ok (s.logerror "recvfrom")
  else do
    match ← checked (accept mem sz) with
    | none => .ok (s.flog .error "received malformed packet from %s.\n" [.system])
    | some mem =>
      let type ← checked (Memory.read mem 4)
      parseMessage k type mem packetSize (sz - packetSize) loc s

/-- A datagram on the command port. -/
def handle (k : Kernel) (stale : Stale) (datagram : List UInt8) (loc : Locals) (s : Daemon) :
    Except Halt Daemon :=
  let (mem, sz) := recvfrom stale datagram
  receiveCommand k mem sz loc s

/-- The three writes of a command. -/
def frame (data : Chunk) : List Chunk := [frameStart, data, frameEnd]

theorem writeCommand_view (k : Kernel) {commandBytes : List UInt8} {n : ℕ} (hpos : 0 < n)
    (hn : n ≤ commandBytes.length) (s : Daemon) :
    lampView (writeCommand k commandBytes n s) = submits k (frame (commandBytes.take n)) s.lamp := by
  unfold writeCommand
  rw [if_neg (by omega), Int.toNat_natCast, readRange_zero hn]
  rw [show frame (commandBytes.take n) = [frameStart] ++ ([commandBytes.take n] ++ [frameEnd]) from rfl]
  refine lampView_bind (write_view k frameStart s) fun s₁ _ => ?_
  rw [checked_ok, ok_bind]
  refine lampView_bind (write_view k _ s₁) fun s₂ _ => ?_
  rw [lampView_log fun s₃ : Daemon => ?_, write_view]
  split_ifs <;> simp

theorem writeCommandF_view (k : Kernel) {fmt : List Piece} {args : List ℤ}
    (hpos : 0 < (format fmt args).length) (hn : (format fmt args).length ≤ 1022) (s : Daemon) :
    lampView (writeCommandF k fmt args s) = submits k (frame (format fmt args)) s.lamp := by
  unfold writeCommandF
  rw [vsnprintf_of_le hn]
  simp only
  rw [if_pos (by omega), writeCommand_view k hpos (by simp), List.take_left]

def colorChunks (text : List UInt8) : List Chunk :=
  if (sscanf [2, 2, 2] text).1 ≠ 3 then []
  else frame (format colorFormat (sscanf [2, 2, 2] text).2)

def brightnessChunks (loc : Locals) (text : List UInt8) : List Chunk :=
  if text.length ≠ 2 then []
  else frame (format [.char, .char] [cmdSetBrightness, scanned (sscanf [2] text).2 0 loc.brightness])

def fadeChunks (loc : Locals) (text : List UInt8) : List Chunk :=
  let vs := (sscanf [2, 2, 2, 4] text).2
  let time := scanned vs 3 loc.time
  if text.length ≠ 10 then []
  else frame (format [.char, .char, .char, .char, .char, .char]
    [cmdFadeMs, scanned vs 0 loc.r, scanned vs 1 loc.g, scanned vs 2 loc.b,
      time / 256 % 256, time % 256])

/-- What a message of some type submits in a raw mode. -/
def messageChunks (raw : Bool) (loc : Locals) (type : UInt8) (msg : List UInt8) : List Chunk :=
  if type = rawMsg then (if raw then [msg] else [])
  else if type = color then colorChunks (messageText msg)
  else if type = setBrightness then brightnessChunks loc (messageText msg)
  else if type = fadeMs then fadeChunks loc (messageText msg)
  else if type = pause then frame (format [.char] [cmdPause])
  else if type = power then frame (format [.char] [cmdPower])
  else []

/-- A message with a bad text is logged, any other submits its command. -/
theorem judged_view (k : Kernel) (bad : Prop) [Decidable bad] {s t : Daemon} (ht : t.lamp = s.lamp)
    {fmt : List Piece} {args : List ℤ} (hpos : 0 < (format fmt args).length)
    (hn : 8 * fmt.length ≤ 1022) :
    lampView (if bad then .ok t else writeCommandF k fmt args s) =
      submits k (if bad then [] else frame (format fmt args)) s.lamp := by
  by_cases hbad : bad
  · rw [if_pos hbad, if_pos hbad, lampView_ok, ht, submits_nil]
  · rw [if_neg hbad, if_neg hbad]
    exact writeCommandF_view k hpos (le_trans (format_length_le _ _) hn) s

theorem parseMessage_view (k : Kernel) {pre : List UInt8} {message : ℕ}
    (hpre : pre.length = message) {msg : List UInt8} (hfit : msg.length < 2 ^ 31)
    (post : List UInt8) (type : UInt8) (loc : Locals) (s : Daemon) :
    lampView (parseMessage k type (pre ++ (msg ++ 0 :: post)) message msg.length loc s) =
      submits k (messageChunks s.allowRawMode loc type msg) s.lamp := by
  obtain ⟨mem, hchomp, hc⟩ := chomp_message hpre post hfit
  unfold parseMessage messageChunks
  rw [hchomp]
  simp only [checked_ok, ok_bind, hc]
  by_cases hraw : type = rawMsg
  · rw [if_pos hraw, if_pos hraw, Daemon.parseMessage_view k hpre post s hfit rawMsg]
    unfold Moodpd.messageChunks
    rw [if_pos rfl]
  rw [if_neg hraw, if_neg hraw]
  by_cases hcolor : type = color
  · rw [if_pos hcolor, if_pos hcolor]
    exact judged_view k _ (by simp) (by simp [colorFormat, format]) (by decide)
  rw [if_neg hcolor, if_neg hcolor]
  by_cases hbright : type = setBrightness
  · rw [if_pos hbright, if_pos hbright]
    exact judged_view k _ (by simp) (by simp [format]) (by decide)
  rw [if_neg hbright, if_neg hbright]
  by_cases hfade : type = fadeMs
  · rw [if_pos hfade, if_pos hfade]
    exact judged_view k _ (by simp) (by simp [format]) (by decide)
  rw [if_neg hfade, if_neg hfade]
  by_cases hpause : type = pause
  · rw [if_pos hpause, if_pos hpause]
    exact writeCommandF_view k (by simp [format]) (le_trans (format_length_le _ _) (by decide)) s
  rw [if_neg hpause, if_neg hpause]
  by_cases hpower : type = power
  · rw [if_pos hpower, if_pos hpower]
    exact writeCommandF_view k (by simp [format]) (le_trans (format_length_le _ _) (by decide)) s
  · rw [if_neg hpower, if_neg hpower]
    simp

/-- What the received bytes of a datagram submit. -/
def commandChunks (raw : Bool) (loc : Locals) (d : List UInt8) : List Chunk :=
  if Accepted d then messageChunks raw loc (d.getD 4 0) (d.drop 5) else []

theorem handle_view (k : Kernel) (stale : Stale) (datagram : List UInt8) (loc : Locals)
    (s : Daemon) : lampView (handle k stale datagram loc s) =
      submits k (commandChunks s.allowRawMode loc (datagram.take maxPacketSize)) s.lamp := by
  obtain ⟨b, post, hbuf, hpost⟩ := recvfrom_eq stale datagram
  unfold handle receiveCommand commandChunks
  have hd : (datagram.take maxPacketSize).length ≤ maxPacketSize := List.length_take_le _ _
  generalize datagram.take maxPacketSize = d at hbuf hpost hd ⊢
  simp only [hbuf, accept_eq d b hpost, checked_ok, ok_bind]
  by_cases hzero : d.length = 0
  · have hno : ¬ Accepted d := fun h => absurd h.2 (by omega)
    rw [if_pos hzero, if_neg hno]
    simp [logerror]
  rw [if_neg hzero]
  by_cases h : Accepted d
  · have hview := parseMessage_view k (header_length h) (message_length hd) post
      (d.getD 4 0) loc s
    rw [← header_append, List.length_drop] at hview
    rw [if_pos h, if_pos h]
    simp only [read_type h, checked_ok, ok_bind]
    exact hview
  · rw [if_neg h, if_neg h]
    simp

/-- A datagram is handled to the end, and its chunks are submitted. -/
theorem handle_ok (k : HealthyKernel) (stale : Stale) (datagram : List UInt8) (loc : Locals)
    (s : Daemon) : ∃ s', handle k.toKernel stale datagram loc s = .ok s' ∧
      s'.serial.submitted = s.serial.submitted ++
        commandChunks s.allowRawMode loc (datagram.take maxPacketSize) := by
  obtain ⟨s', hs', -, hsub⟩ := of_submits k (handle_view k.toKernel stale datagram loc s)
  exact ⟨s', hs', hsub⟩

end Moodpd.Muc
