import Moodpd.Chomp
import Moodpd.HexText
import Moodpd.NonblockWriter
import Moodpd.OscArgReader

/-!
# The daemon

The state of `moodpd` and its reaction to what `poll` reports, in the default build. A
datagram, a key or bytes from the lamp are inputs of a reaction; the answers of `::write`
come from the kernel. What is printed is recorded by its format and arguments, without the
time stamps.
-/
namespace Moodpd
open Memory HexText Oscpkt

inductive Loglevel
  | info
  | error
  | crit
  deriving DecidableEq, Repr

def Loglevel.toNat : Loglevel → ℕ
  | .info => 0
  | .error => 1
  | .crit => 2

/-- An argument of a printed line. A `system` text comes from `strerror` or `inet_ntoa`. -/
inductive LogArg
  | int (v : ℤ)
  | text (s : List UInt8)
  | system
  deriving DecidableEq, Repr

structure LogLine where
  fmt : String
  args : List LogArg
  deriving DecidableEq, Repr

structure Daemon where
  allowRawMode : Bool
  logMask : BitVec 32
  serial : NonblockWriter
  console : List LogLine
  deriving DecidableEq, Repr

/-- A step that breaks off with a fault. -/
def checked {α : Type} : Checked α → Except Halt α
  | .ok a => .ok a
  | .error f => .error (.fault f)

@[simp] theorem checked_ok {α : Type} (a : α) : checked (.ok a) = .ok a := rfl

namespace Daemon

/-- `logMask & (1<<level)`. -/
def logs (s : Daemon) (level : Loglevel) : Bool := s.logMask.getLsbD level.toNat

def fprintf (fmt : String) (args : List LogArg) (s : Daemon) : Daemon :=
  { s with console := s.console ++ [⟨fmt, args⟩] }

/-- `LOG_CRIT` is always printed. -/
def flog (level : Loglevel) (fmt : String) (args : List LogArg) (s : Daemon) : Daemon :=
  if ¬ s.logs level ∧ level ≠ .crit then s else s.fprintf fmt args

def logerror (str : String) (s : Daemon) : Daemon :=
  s.flog .error "%s: %s\n" [.text (ascii str), .system]

def fail {α : Type} (msg : String) (s : Daemon) : Except Halt α := .error (.fail msg s.serial)

def isprint (b : UInt8) : Bool := 32 ≤ b ∧ b ≤ 126

/-- A `char` promoted to `int`. -/
def promote (b : UInt8) : ℤ := Int.bmod b.toNat 256

/-- `serial.write`. -/
def write (k : Kernel) (data : Chunk) (s : Daemon) : Except Halt Daemon := do
  let serial ← s.serial.write k data
  .ok { s with serial := serial }

def logCommand (data : Chunk) (s : Daemon) : Daemon :=
  let s := s.flog .info "writeCommand: '" []
  let s := data.foldl (fun s b =>
    s.fprintf (if isprint b then "%c" else "\\x%02X") [.int (promote b)]) s
  s.fprintf "' (buffer size: %zu)\n" [.int s.serial.getWritebufferSize]

def writeCommand (k : Kernel) (commandBytes : List UInt8) (length : ℤ) (s : Daemon) :
    Except Halt Daemon :=
  if length ≤ 0 then s.fail "writeCommand"
  else do
    let data ← checked (readRange commandBytes 0 length.toNat)
    let s ← s.write k data
    .ok (if s.logs .info then s.logCommand data else s)

/-- `vsnprintf`: what it stores, and the length of the whole text. -/
def vsnprintf (size : ℕ) (text : List UInt8) : List UInt8 × ℤ :=
  (text.take (size - 1) ++ [0], text.length)

/-- A text that fits is stored whole. -/
theorem vsnprintf_of_le {size : ℕ} {text : List UInt8} (h : text.length ≤ size - 1) :
    vsnprintf size text = (text ++ [0], (text.length : ℤ)) := by
  unfold vsnprintf
  rw [List.take_of_length_le h]

def writeCommandF (k : Kernel) (fmt : List Piece) (args : List ℤ) (s : Daemon) :
    Except Halt Daemon :=
  let (ch, nbytes) := vsnprintf 1023 (format fmt args)
  if nbytes > 0 then s.writeCommand k ch nbytes else s.fail "vsnprintf"

/-- `"i%02x%02x%02x\n"`. -/
def colorFormat : List Piece := [.lit 105, .hex 2, .hex 2, .hex 2, .lit 10]

/-- `"i%02x%02x%02x%02x\n"`. -/
def lampFormat : List Piece := [.lit 105, .hex 2, .hex 2, .hex 2, .hex 2, .lit 10]

/-- `MOODPD_RAWMSG`. -/
def rawMsg : UInt8 := 33

/-- `MOODPD_COLOR`. -/
def color : UInt8 := 35

def logRaw (data : Chunk) (s : Daemon) : Daemon :=
  let s := s.flog .info "raw message: " []
  let s := data.foldl (fun s b => s.fprintf "%02X " [.int b.toNat]) s
  s.fprintf "\n" []

/-- The message starts at an offset of the receive buffer. -/
def parseMessage (k : Kernel) (type : UInt8) (mem : List UInt8) (message msgsize : ℕ)
    (s : Daemon) : Except Halt Daemon :=
  if type = rawMsg then
    if !s.allowRawMode then .ok (s.flog .info "raw message rejected.\n" [])
    else do
      let data ← checked (readRange mem message msgsize)
      let s ← s.write k data
      .ok (if s.logs .info then s.logRaw data else s)
  else if type = color then do
    let mem ← checked (chomp mem message)
    let text ← checked (cstring (mem.drop message))
    let (nmatches, rgb) := sscanf [2, 2, 2] text
    if nmatches ≠ 3 then .ok (s.flog .error "bad color string %s\n" [.text text])
    else s.writeCommandF k colorFormat rgb
  else .ok (s.flog .error "unknown packet type 0x%02X.\n" [.int (promote type)])

/-- `MOODPD_MAGIC`. -/
def magic : List UInt8 := ascii "m00d"

/-- `sizeof(moodpd_packet)`, which is also the offset of the message. -/
def packetSize : ℕ := 5

/-- The magic is read before the size is known to cover it. -/
def malformed (mem : List UInt8) (sz : ℕ) : Checked Bool := do
  let found ← readRange mem 0 4
  .ok (found ≠ magic ∨ sz ≤ packetSize)

/-- The terminator is written behind the received bytes and the header is checked. An
accepted datagram comes back as the memory at `buf`. -/
def accept (mem : List UInt8) (sz : ℕ) : Checked (Option (List UInt8)) := do
  let mem ← Memory.write mem sz 0
  let bad ← malformed mem sz
  .ok (if bad then none else some mem)

/-- What follows `recvfrom` on the command port, with the memory at `buf` and the size it
returned, zero standing for an error too. -/
def receiveCommand (k : Kernel) (mem : List UInt8) (sz : ℕ) (s : Daemon) :
    Except Halt Daemon :=
  if sz = 0 then .ok (s.logerror "recvfrom")
  else do
    match ← checked (accept mem sz) with
    | none => .ok (s.flog .error "received malformed packet from %s.\n" [.system])
    | some mem =>
      let type ← checked (Memory.read mem 4)
      s.parseMessage k type mem packetSize (sz - packetSize)

/-- `MOODPD_MAXPACKETSIZE`. -/
def maxPacketSize : ℕ := 1024

/-- The receive buffer before the datagram arrives. -/
abbrev Stale := Vector UInt8 1025

/-- The receive buffer and the size after `recvfrom`, which cuts the datagram. -/
def recvfrom (stale : Stale) (datagram : List UInt8) : List UInt8 × ℕ :=
  let received := datagram.take maxPacketSize
  (received ++ stale.toList.drop received.length, received.length)

/-- `(x+180)%360*255/360` on 32-bit integers. -/
def orientation (x : ℤ) : ℤ := ((Int.bmod (x + 180) (2 ^ 32)).tmod 360 * 255).tdiv 360

def clamp (x : ℤ) : ℤ := min 255 (max x 0)

/-- `"/moodpd/lamps/*/rgb"`. -/
def rgbPattern : List UInt8 := ascii "/moodpd/lamps/*/rgb"

/-- `"/ori"`. -/
def oriPattern : List UInt8 := ascii "/ori"

/-- The lamp index scanned behind `"/moodpd/lamps/"`. -/
def lampIndex (address : List UInt8) : Checked ℤ := do
  let text ← cstring ((address ++ [0]).drop (ascii "/moodpd/lamps/").length)
  let lampIndex := (sscanf [2] text).2.headD 0
  .ok (if lampIndex < 0 ∨ lampIndex > 255 then 0 else lampIndex)

def handleMessage (k : Kernel) (msg : Message) (s : Daemon) : Except Halt Daemon := do
  match ← checked (msg.matchInt32s rgbPattern) with
  | some (r, g, b) =>
    let r := clamp r
    let g := clamp g
    let b := clamp b
    let lamp ← checked (lampIndex msg.address)
    let s := s.flog .info "osc: lamp %d -> red %d, green %d, blue %d\n"
      [.int lamp, .int r, .int g, .int b]
    s.writeCommandF k lampFormat [r, g, b, lamp]
  | none =>
    match ← checked (msg.matchInt32s oriPattern) with
    | some (r, g, b) =>
      let s := s.flog .info "andOSC orientation: %d, %d, %d\n" [.int r, .int g, .int b]
      s.writeCommandF k colorFormat [orientation r, orientation g, orientation b]
    | none => .ok s

/-- The size of the buffer of `UdpSocket`. -/
def oscBufferSize : ℕ := 1024 * 128

/-- The branch of the OSC socket. There is no packet when `receiveNextPacket` fails. -/
def receiveOsc (k : Kernel) (packet : Option (List UInt8)) (s : Daemon) : Except Halt Daemon :=
  let s := s.flog .info "OSC packet\n" []
  match packet with
  | none => .ok s
  | some datagram => do
    let pr ← checked (PacketReader.init (datagram.take oscBufferSize))
    if pr.isOk then pr.messages.foldlM (fun s msg => s.handleMessage k msg) s else .ok s

def handleKey (c : UInt8) (s : Daemon) : Daemon :=
  if c = 63 then
    s.fprintf "KEYS:\n\t?\tshow this text\n\tv\tset verbosity\n\tr\tallow raw mode on/off\n" []
  else if c = 118 then
    if s.logMask = 0 then
      { s with logMask := s.logMask ||| 2 }.fprintf "verbosity: errors only\n" []
    else if s.logs .info then { s with logMask := 0 }.fprintf "verbosity: quiet\n" []
    else if s.logs .error then
      { s with logMask := s.logMask ||| 1 }.fprintf "verbosity: errors+info\n" []
    else s
  else if c = 114 then
    let s := { s with allowRawMode := !s.allowRawMode }
    s.fprintf (if s.allowRawMode then "allow raw mode ON\n" else "allow raw mode OFF\n") []
  else s

def POLLIN : BitVec 16 := 0x1
def POLLOUT : BitVec 16 := 0x4
def POLLERR : BitVec 16 := 0x8
def POLLHUP : BitVec 16 := 0x10
def POLLNVAL : BitVec 16 := 0x20
def POLLRDHUP : BitVec 16 := 0x2000

/-- The part of the serial branch for `POLLOUT`. -/
def serialWritable (k : Kernel) (s : Daemon) : Except Halt Daemon := do
  let s := s.flog .info "serial ready for writing. buffer size: %d\n"
    [.int s.serial.getWritebufferSize]
  let (_, serial) ← s.serial.flush k
  .ok { s with serial := serial }

/-- The branch of the serial link, with the bytes `read` returned, none at the end or after
an error. With `LOG_INFO` such a read goes on with the next descriptor. -/
def serialReady (k : Kernel) (revents : BitVec 16) (data : List UInt8) (s : Daemon) :
    Except Halt Daemon :=
  let txt := data.take 1023
  if revents &&& POLLIN ≠ 0 ∧ s.logs .info ∧ txt = [] then .ok s
  else
    let s :=
      if revents &&& POLLIN ≠ 0 ∧ s.logs .info then
        ((s.flog .info "the mood lamp says: '" []).fprintf "%s" [.text txt]).fprintf "'\n" []
      else s
    if revents &&& POLLOUT ≠ 0 then s.serialWritable k else .ok s

/-- What a ready descriptor delivers. -/
inductive Arrival
  | command (stale : Stale) (datagram : Option (List UInt8))
  | serial (revents : BitVec 16) (data : List UInt8)
  | key (c : Option UInt8)
  | osc (packet : Option (List UInt8))
  deriving DecidableEq

def handle (k : Kernel) (a : Arrival) (s : Daemon) : Except Halt Daemon :=
  match a with
  | .command stale datagram =>
    let (mem, sz) := recvfrom stale (datagram.getD [])
    s.receiveCommand k mem sz
  | .serial revents data => s.serialReady k revents data
  | .key none => .ok s
  | .key (some c) => .ok (s.handleKey c)
  | .osc packet => s.receiveOsc k packet

/-- A run of reactions. -/
def react (k : Kernel) (arrivals : List Arrival) (s : Daemon) : Except Halt Daemon :=
  arrivals.foldlM (fun s a => s.handle k a) s

inductive Fd
  | sock
  | serial
  | stdin
  | osc
  deriving DecidableEq, Repr

structure PollFd where
  fd : Fd
  events : BitVec 16
  deriving DecidableEq, Repr

/-- What one call of `poll`, and the reads after it, find: which descriptors are terminals, what
`poll` returns, the events reported, and the data. -/
structure Round where
  serialTty : Bool
  stdinTty : Bool
  pollResult : ℤ
  revents : Fd → BitVec 16
  stale : Stale
  datagram : Option (List UInt8)
  serialData : List UInt8
  key : Option UInt8
  packet : Option (List UInt8)

def pollfds (r : Round) (s : Daemon) : List PollFd :=
  [⟨.sock, POLLIN⟩,
    ⟨.serial, (if r.serialTty then POLLIN else 0) |||
      (if s.serial.writeBufferEmpty then 0 else POLLOUT)⟩] ++
  (if r.stdinTty then [⟨.stdin, POLLIN⟩] else []) ++ [⟨.osc, POLLIN⟩]

def Round.arrival (r : Round) : Fd → Arrival
  | .sock => .command r.stale r.datagram
  | .serial => .serial (r.revents .serial) r.serialData
  | .stdin => .key r.key
  | .osc => .osc r.packet

/-- `pfd.revents & (POLLERR|POLLRDHUP|POLLHUP|POLLNVAL)`. -/
def wentBad (revents : BitVec 16) : Bool :=
  revents &&& (POLLERR ||| POLLRDHUP ||| POLLHUP ||| POLLNVAL) ≠ 0

/-- One descriptor's turn. The test `!pfd.revents&POLLIN` holds when no event is reported. -/
def dispatch (k : Kernel) (r : Round) (fd : Fd) (s : Daemon) : Except Halt Daemon :=
  if wentBad (r.revents fd) then .error (.badFd s.serial)
  else if fd ≠ .serial ∧ r.revents fd = 0 then .ok s
  else s.handle k (r.arrival fd)

/-- One iteration of the loop of `run`. -/
def iteration (k : Kernel) (r : Round) (s : Daemon) : Except Halt Daemon :=
  if r.pollResult < 0 then s.fail "poll"
  else ((s.pollfds r).map PollFd.fd).foldlM (fun s fd => s.dispatch k r fd) s

/-- A daemon that has not written anything, with the default log mask. -/
def idle : Daemon := ⟨false, 2, .empty, []⟩

/-- The daemon in front of the loop of `run`, after the initialization command. -/
def start (k : Kernel) (logMask : BitVec 32) : Except Halt Daemon := do
  let s ← { idle with logMask := logMask }.write k (ascii "q\n")
  .ok (s.flog .info "entering main loop.\n" [])

def run (k : Kernel) (logMask : BitVec 32) (rounds : List Round) : Except Halt Daemon := do
  let s ← start k logMask
  rounds.foldlM (fun s r => s.iteration k r) s

end Daemon

end Moodpd
