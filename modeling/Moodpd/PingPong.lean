import Moodpd.OscRoundTrip
import Moodpd.UdpSocket

/-!
# The ping-pong demo of oscpkt

The loops of `oscpkt_demo.cc`. The server answers each `/ping` with one integer by a `/pong`
with the next one and prints what else it gets. The client sends a ping in each round, then
waits and prints what it gets.
-/
namespace Moodpd.PingPong
open Memory HexText Oscpkt

inductive DemoFault
  | memory (f : Fault)
  | socket (f : SocketFault)
  | overflow
  deriving DecidableEq, Repr

section Lift
variable {α : Type}

def memory : Checked α → Except DemoFault α
  | .ok a => .ok a
  | .error f => .error (.memory f)

def socket : Except SocketFault α → Except DemoFault α
  | .ok a => .ok a
  | .error f => .error (.socket f)

@[simp] theorem memory_ok (a : α) : memory (.ok a) = .ok a := rfl

@[simp] theorem memory_error (f : Fault) :
    memory (.error f : Checked α) = .error (.memory f) := rfl

@[simp] theorem socket_ok (a : α) : socket (.ok a) = .ok a := rfl

end Lift

def PORT_NUM : ℤ := 9109

def pingPath : List UInt8 := [47, 112, 105, 110, 103]
def pongPath : List UInt8 := [47, 112, 111, 110, 103]

/-- `INT_MAX`. -/
def intMax : ℤ := 2147483647

/-- `i+1` on `int`. -/
def increment (i : ℤ) : Except DemoFault ℤ := if i = intMax then .error .overflow else .ok (i + 1)

/-- `packetData` and `packetSize`. -/
def packet (pw : PacketWriter) : List UInt8 := (pw.packetData.getD []).take pw.packetSize

/-- What the system answers in one round. -/
structure Answers where
  select : ℤ
  recvfrom : RecvResult
  send : ℕ → SendResult

inductive ServerLine
  | received (iarg : ℤ) (origin : SockAddr)
  | unhandled (address : List UInt8) (args : List Datum)

structure Server where
  sock : UdpSocket
  lines : List ServerLine

namespace Server

def start (texts : ErrorTexts) (resolver : Resolver) : Except DemoFault Server := do
  let (sock, _) ← socket (UdpSocket.new.bindTo texts resolver PORT_NUM .forceIpv4)
  .ok ⟨sock, []⟩

/-- `msg->match("/ping").popInt32(iarg).isOkNoMoreArgs()`, with `iarg` where it holds. -/
def matchPing (msg : Message) : Checked (Option ℤ) := do
  let a ← msg.match pingPath
  let (a, iarg) ← a.popInt32
  .ok (if a.isOkNoMoreArgs then some iarg else none)

def handle (answers : Answers) (srv : Server) (msg : Message) : Except DemoFault Server := do
  match ← memory (matchPing msg) with
  | some iarg =>
    let next ← increment iarg
    let repl ← memory ((Message.init pongPath 1).pushInt32 (BitVec.ofInt 32 next))
    let pw ← memory (PacketWriter.init.addMessage repl)
    let (sock, _) ← socket (srv.sock.sendPacketTo (packet pw) srv.sock.remoteAddr
      (answers.send srv.sock.sends.length))
    .ok ⟨sock, srv.lines ++ [.received iarg srv.sock.remoteAddr]⟩
  | none =>
    let (_, args) ← memory msg.print
    .ok { srv with lines := srv.lines ++ [.unhandled msg.address args] }

/-- A turn of the loop. -/
def round (texts : ErrorTexts) (answers : Answers) (srv : Server) : Except DemoFault Server :=
  if srv.sock.isOk then do
    let (sock, got) ← socket (srv.sock.receiveNextPacket texts 30 answers.select answers.recvfrom)
    let srv := { srv with sock := sock }
    if got then
      let pr ← memory (PacketReader.init srv.sock.buffer)
      if pr.isOk then pr.messages.foldlM (fun srv msg => srv.handle answers msg) srv else .ok srv
    else .ok srv
  else .ok srv

end Server

inductive ClientLine
  | sent (iping : ℤ) (ok : Bool)
  | received (address : List UInt8) (args : List Datum)
  deriving DecidableEq, Repr

/-- Between sending and receiving the client is waiting. -/
structure Client where
  sock : UdpSocket
  iping : ℤ
  lines : List ClientLine
  waiting : Bool

namespace Client

def start (texts : ErrorTexts) (resolver : Resolver) : Except DemoFault Client := do
  let (sock, _) ← socket (UdpSocket.new.connectTo texts resolver (ascii "localhost")
    (UdpSocket.portString PORT_NUM) .forceIpv4)
  .ok ⟨sock, 1, [], false⟩

/-- The packet with the ping, in two bundles. -/
def pingWriter (iping : ℤ) : Checked PacketWriter := do
  let msg ← (Message.ofAddress pingPath 1).pushInt32 (BitVec.ofInt 32 iping)
  PacketWriter.init.calls
    [.startBundle 1, .startBundle 1, .addMessage msg, .endBundle, .endBundle]

def print (c : Client) (msg : Message) : Except DemoFault Client := do
  let (_, args) ← memory msg.print
  .ok { c with lines := c.lines ++ [.received msg.address args] }

/-- The first half of a turn of the loop: a ping is sent. -/
def ping (result : SendResult) (c : Client) : Except DemoFault Client :=
  if ¬ c.waiting ∧ c.sock.isOk then do
    let pw ← memory (pingWriter c.iping)
    let (sock, ok) ← socket (c.sock.sendPacket (packet pw) result)
    let next ← increment c.iping
    .ok ⟨sock, next, c.lines ++ [.sent c.iping ok], true⟩
  else .ok c

/-- The second half: the client waits for a reply. -/
def wait (texts : ErrorTexts) (select : ℤ) (recvfrom : RecvResult) (c : Client) :
    Except DemoFault Client :=
  if c.waiting then do
    let (sock, got) ← socket (c.sock.receiveNextPacket texts 30 select recvfrom)
    let c := { c with sock := sock, waiting := false }
    if got then
      let pr ← memory (PacketReader.init c.sock.buffer)
      if pr.isOk then pr.messages.foldlM Client.print c else .ok c
    else .ok c
  else .ok c

end Client

/-- A message to an address with one integer. -/
structure Carries (msg : Message) (address : List UInt8) (v : BitVec 32) : Prop where
  address : msg.address = address
  cells : msg.HasCells [some (.int32 v)]

/-- The bytes of such a message. -/
def intPacket (address : List UInt8) (v : BitVec 32) : List UInt8 :=
  padded address ++ (padded [44, typeTagInt32] ++ toBigEndian 4 v.toNat)

/-- The packet of the server. -/
def pongPacket (v : BitVec 32) : List UInt8 := intPacket pongPath v

/-- The packet of the client. -/
def pingPacket (v : BitVec 32) : List UInt8 :=
  bundleHeader 1 ++ (toBigEndian 4 36 ++
    (bundleHeader 1 ++ (toBigEndian 4 16 ++ intPacket pingPath v)))

section Packets
variable {msg : Message} {address : List UInt8} {timeTag : ℕ} {v : BitVec 32}

theorem packed_of_built (h : msg.Built address timeTag [.int32 v])
    (hslash : address.head? = some 47) (hnul : 0 ∉ address) : msg.packed = intPacket address v := by
  rw [(h.sendable hslash hnul).packed_eq, h.address, h.typeTags, h.storage, encodeValues_cons,
    encodeValues_nil, List.append_nil]
  rfl

/-- A packet with one message is read as this message. -/
theorem reads_carries {item : Item} {ts : ℕ} (h : msg.Built address timeTag [.int32 v])
    (hsend : item.Sendable) (hmessages : item.messages 1 = [(ts, msg)])
    (hsize : item.encode.length < 2 ^ 32) :
    ∃ r, PacketReader.init item.encode = .ok ⟨[r], .okNoError⟩ ∧ Carries r address v := by
  obtain ⟨pr, hinit, herr, hrec⟩ := reads_item hsend hsize
  unfold ReceivedAll at hrec
  rw [hmessages] at hrec
  obtain ⟨r, _, hr, hnil, hpr⟩ := List.forall₂_cons_left_iff.mp hrec
  obtain rfl := List.forall₂_nil_left_iff.mp hnil
  obtain ⟨vs, hsent, hheld⟩ := hr.values
  obtain rfl : vs = [.int32 v] := hsent.hasCells.unique h.hasCells
  refine ⟨r, ?_, hr.address.trans h.address, hheld.hasCells⟩
  rw [hinit, ← herr, ← hpr]

theorem packet_of_data {pw : PacketWriter} {data : List UInt8} (h : pw.packetData = some data)
    (hsize : data.length < 2 ^ 32) : packet pw = data := by
  obtain ⟨rfl, hok⟩ := packetData_eq_some h
  rw [packet, h, Option.getD_some, PacketWriter.packetSize, if_pos hok, Nat.mod_eq_of_lt hsize,
    List.take_length]

theorem intPacket_length (hlen : address.length = 5) : (intPacket address v).length = 16 := by
  unfold intPacket
  rw [List.length_append, List.length_append, padded_length, padded_length, toBigEndian_length, hlen]
  rfl

end Packets

theorem pong_built (v : BitVec 32) : ∃ msg, (Message.init pongPath 1).pushInt32 v = .ok msg ∧
    msg.Built pongPath 1 [.int32 v] :=
  pushValue_built (init_built rfl 1) (v := .int32 v) trivial

theorem ping_built (v : BitVec 32) : ∃ msg, (Message.ofAddress pingPath 1).pushInt32 v = .ok msg ∧
    msg.Built pingPath 1 [.int32 v] :=
  have hnew : (Message.ofAddress pingPath 1).Built pingPath 1 [] := ⟨⟨rfl, rfl, .nil⟩, rfl, rfl, rfl⟩
  pushValue_built hnew (v := .int32 v) trivial

/-- The packet of a pong is written, and read back. -/
theorem pong_packet {v : BitVec 32} {msg : Message} (h : msg.Built pongPath 1 [.int32 v]) :
    ∃ pw, PacketWriter.init.addMessage msg = .ok pw ∧ packet pw = pongPacket v := by
  have hsend : (Item.message msg).Sendable := h.sendable rfl (by decide)
  have hencode : (Item.message msg).encode = pongPacket v := packed_of_built h rfl (by decide)
  have hsize : (pongPacket v).length < 2 ^ 32 := by
    rw [pongPacket, intPacket_length rfl]
    decide
  obtain ⟨pw, hcalls, hdata⟩ := packetWriter_item (.message msg) hsend
  obtain ⟨pw', hadd, hpw⟩ := bind_eq_ok.mp hcalls
  obtain rfl := Except.ok.inj hpw
  exact ⟨_, hadd, packet_of_data (hdata.trans (congrArg some hencode)) hsize⟩

/-- The two bundles around a ping. -/
def pingItem (msg : Message) : Item := .bundle 1 [.bundle 1 [.message msg]]

theorem pingItem_encode {v : BitVec 32} {msg : Message} (h : msg.Built pingPath 1 [.int32 v]) :
    (pingItem msg).encode = pingPacket v := by
  have hpacked : msg.packed = intPacket pingPath v := packed_of_built h rfl (by decide)
  have hheader : (bundleHeader 1).length = 16 := rfl
  have hinner : (bundleHeader 1 ++ (toBigEndian 4 16 ++ intPacket pingPath v)).length = 36 := by
    rw [List.length_append, List.length_append, toBigEndian_length, intPacket_length rfl, hheader]
  simp only [pingItem, Item.encode, encodeItems, emptyBody, List.append_nil, hpacked,
    intPacket_length (show pingPath.length = 5 from rfl), hinner, pingPacket]

theorem pingPacket_length (v : BitVec 32) : (pingPacket v).length = 56 := by
  have hheader : (bundleHeader 1).length = 16 := rfl
  simp only [pingPacket, List.length_append, toBigEndian_length, hheader,
    intPacket_length (show pingPath.length = 5 from rfl)]

/-- The packet of a ping is written, and read back. -/
theorem ping_packet {v : BitVec 32} {msg : Message} (h : msg.Built pingPath 1 [.int32 v]) :
    ∃ pw, PacketWriter.init.calls (pingItem msg).calls = .ok pw ∧ packet pw = pingPacket v := by
  have hsend : (pingItem msg).Sendable := ⟨⟨h.sendable rfl (by decide), trivial⟩, trivial⟩
  obtain ⟨pw, hcalls, hdata⟩ := packetWriter_item (pingItem msg) hsend
  refine ⟨pw, hcalls, packet_of_data (hdata.trans (congrArg some (pingItem_encode h))) ?_⟩
  rw [pingPacket_length]
  decide

/-- A datagram from which one message with one integer is read. -/
structure Delivers (d : List UInt8) (address : List UInt8) (v : BitVec 32) : Prop where
  fits : d.length ≤ 1024 * 128
  reads : ∃ r, PacketReader.init d = .ok ⟨[r], .okNoError⟩ ∧ Carries r address v

theorem pongPacket_delivers (v : BitVec 32) : Delivers (pongPacket v) pongPath v := by
  obtain ⟨msg, -, hbuilt⟩ := pong_built v
  have hencode : (Item.message msg).encode = pongPacket v := packed_of_built hbuilt rfl (by decide)
  have hlen : (pongPacket v).length = 16 := intPacket_length rfl
  refine ⟨by omega, ?_⟩
  rw [← hencode] at hlen ⊢
  exact reads_carries hbuilt (hbuilt.sendable rfl (by decide)) rfl (by omega)

theorem pingPacket_delivers (v : BitVec 32) : Delivers (pingPacket v) pingPath v := by
  obtain ⟨msg, -, hbuilt⟩ := ping_built v
  have hlen := pingPacket_length v
  refine ⟨by omega, ?_⟩
  rw [← pingItem_encode hbuilt] at hlen ⊢
  exact reads_carries hbuilt ⟨⟨hbuilt.sendable rfl (by decide), trivial⟩, trivial⟩ rfl (by omega)

/-- The integer of a ping, by its address and arguments. -/
def pingInt (address : List UInt8) (cs : List Cell) : Option (BitVec 32) :=
  if address = pingPath then
    match cs with
    | [some (.int32 v)] => some v
    | _ => none
  else none

/-- A message to the server: its origin, its address and its arguments. -/
structure Request where
  origin : SockAddr
  address : List UInt8
  cells : List Cell

/-- The line that the server prints and the pongs that it sends. -/
structure Response where
  line : ServerLine
  pongs : List (SockAddr × BitVec 32)

/-- A ping with the greatest integer has no next one, and a blob of wrapping size cannot be
printed. -/
def respond (req : Request) : Except DemoFault Response :=
  match pingInt req.address req.cells with
  | some v =>
    if v.toInt = intMax then .error .overflow
    else .ok ⟨.received v.toInt req.origin, [(req.origin, v + 1)]⟩
  | none =>
    if none ∈ req.cells then .error (.memory .outOfBounds)
    else .ok ⟨.unhandled req.address ((req.cells.filterMap id).map Value.datum), []⟩

theorem pingInt_eq_some {address : List UInt8} {cs : List Cell} {v : BitVec 32} :
    pingInt address cs = some v ↔ address = pingPath ∧ cs = [some (.int32 v)] := by
  unfold pingInt
  split_ifs with haddr
  · split
    · rename_i w
      simp [haddr]
    · rename_i hne
      refine ⟨nofun, fun h => absurd h.2 (hne v)⟩
  · simp [haddr]

section Messages
variable {msg : Message} {cs : List Cell} (h : msg.HasCells cs)
include h

/-- The check after the pop of the integer holds exactly when there is nothing else. -/
theorem popInt32_cells : ∃ a i, msg.arg.popInt32 = .ok (a, i) ∧
    (a.isOkNoMoreArgs = true → ∃ v : BitVec 32, cs = [some (.int32 v)]) ∧
    ∀ v : BitVec 32, cs = [some (.int32 v)] → a.isOkNoMoreArgs = true ∧ i = v.toInt := by
  have hpops := h.remains.pops [.int32]
  unfold Pops at hpops
  cases hresult : popsResult cs [.int32] with
  | none =>
    exfalso
    cases cs with
    | nil => cases hresult
    | cons c cs =>
      cases c with
      | none => cases hresult
      | some v => cases v <;> simp [popsResult, Cell.pop, Value.pop] at hresult
  | some r =>
    rw [hresult] at hpops
    obtain ⟨a', hp, -, -⟩ := hpops
    have hcheck := h.remains.isOkNoMoreArgs_iff hp
    obtain ⟨⟨a₁, d⟩, hpop, hrest⟩ := bind_eq_ok.mp hp
    obtain ⟨⟨a₂, i⟩, hint, hd⟩ := bind_eq_ok.mp hpop
    obtain ⟨rfl, rfl⟩ := Prod.mk.inj (Except.ok.inj hd)
    obtain ⟨rfl, hds⟩ := Prod.mk.inj (Except.ok.inj hrest)
    refine ⟨a₂, i, hint, fun hok => ?_, ?_⟩
    · obtain ⟨vs, rfl, hkinds, -⟩ := (hcheck.mp hok).values (by decide)
      obtain ⟨v, rfl⟩ := List.length_eq_one_iff.mp
        (show vs.length = 1 by simpa using (congrArg List.length hkinds).symm)
      cases v with
      | int32 v => exact ⟨v, rfl⟩
      | _ => cases hkinds
    · rintro v rfl
      have htakes := takesAll_values [.int32 v]
      have hdata : r.2 = [.int32 v.toInt] :=
        congrArg Prod.snd (Option.some.inj (hresult.symm.trans htakes.popsResult))
      refine ⟨hcheck.mpr (hdata ▸ htakes), ?_⟩
      rw [← hds] at hdata
      exact Datum.int32.inj (List.cons.inj hdata).1

theorem matchPing_cells :
    Server.matchPing msg = .ok ((pingInt msg.address cs).map BitVec.toInt) := by
  unfold Server.matchPing Message.match
  rw [fullPatternMatch_literal (by decide), ok_bind]
  by_cases haddr : msg.address = pingPath
  · obtain ⟨a, i, hpop, hcheck, hint⟩ := popInt32_cells h
    have harg : (⟨msg, msg.err.set .okNoError, 0⟩ : ArgReader) = msg.arg := by
      unfold Message.arg
      rw [h.err]
      rfl
    simp only [haddr, decide_true, if_true, ok_bind]
    rw [harg, hpop, ok_bind]
    simp only
    congr 1
    by_cases hok : a.isOkNoMoreArgs = true
    · obtain ⟨v, hcs⟩ := hcheck hok
      rw [if_pos hok, pingInt_eq_some.mpr ⟨rfl, hcs⟩, (hint v hcs).2]
      rfl
    · rw [if_neg hok]
      cases hping : pingInt pingPath cs with
      | none => rfl
      | some v => exact absurd (hint v (pingInt_eq_some.mp hping).2).1 hok
  · have herr : (msg.err.set .patternMismatch) ≠ .okNoError := by
      rw [h.err]
      decide
    have hnone : pingInt msg.address cs = none := if_neg haddr
    simp only [haddr, decide_false, Bool.false_eq_true, if_false, ok_bind, hnone, Option.map_none]
    rw [popInt32_of_err herr, ok_bind]
    simp only
    rw [isOkNoMoreArgs_of_err herr]
    rfl

theorem print_cells : (none ∈ cs ∧ msg.print = .error .outOfBounds) ∨
    (none ∉ cs ∧ ∃ a, msg.print = .ok (a, (cs.filterMap id).map Value.datum)) := by
  have hprint := h.remains.printArgs
  rw [h.arguments.length_eq] at hprint
  rcases hprint with ⟨vs, a, rfl, hok, -⟩ | hwrapping
  · refine .inr ⟨by simp, a, ?_⟩
    rw [List.filterMap_map, Function.id_comp, List.filterMap_some]
    exact hok
  · exact .inl hwrapping

end Messages

/-- A server after some responses, with what is known of its socket. -/
structure Answered (srv : Server) (Q : UdpSocket → Prop) (rs : List Response) (t : Server) :
    Prop where
  sock : Q t.sock
  localAddr : t.sock.localAddr = srv.sock.localAddr
  lines : t.lines = srv.lines ++ rs.map Response.line
  datagrams : t.sock.datagrams = srv.sock.datagrams ++
    (rs.flatMap Response.pongs).map fun p => (srv.sock.dest p.1, pongPacket p.2)

theorem Answered.nil {srv : Server} {Q : UdpSocket → Prop} (h : Q srv.sock) :
    Answered srv Q [] srv :=
  ⟨h, rfl, (List.append_nil _).symm, (List.append_nil _).symm⟩

theorem Answered.trans {srv t u : Server} {Q Q' : UdpSocket → Prop} {rs rs' : List Response}
    (h : Answered srv Q rs t) (h' : Answered t Q' rs' u) : Answered srv Q' (rs ++ rs') u where
  sock := h'.sock
  localAddr := h'.localAddr.trans h.localAddr
  lines := by rw [h'.lines, h.lines, List.append_assoc, List.map_append]
  datagrams := by
    have hdest : t.sock.dest = srv.sock.dest := by
      funext addr
      unfold UdpSocket.dest UdpSocket.isBound
      rw [h.localAddr]
    rw [h'.datagrams, h.datagrams, hdest, List.append_assoc, List.flatMap_append, List.map_append]

/-- The server does what the responses to some requests say. -/
inductive Responds (srv : Server) (Q : UdpSocket → Prop) :
    Except DemoFault (List Response) → Except DemoFault Server → Prop
  | ok {rs : List Response} {t : Server} (h : Answered srv Q rs t) : Responds srv Q (.ok rs) (.ok t)
  | error (e : DemoFault) : Responds srv Q (.error e) (.error e)

/-- Responses one after the other. -/
theorem Responds.bind {srv : Server} {Q Q' : UdpSocket → Prop}
    {rs rs' : Except DemoFault (List Response)} {r : Except DemoFault Server}
    {f : Server → Except DemoFault Server} (h : Responds srv Q rs r)
    (hf : ∀ t, r = .ok t → Q t.sock → Responds t Q' rs' (f t)) :
    Responds srv Q' (do return (← rs) ++ (← rs')) (r >>= f) := by
  cases h with
  | error e => exact .error e
  | @ok rs t hfirst =>
    have hmore := hf t rfl hfirst.sock
    rw [ok_bind, ok_bind]
    generalize f t = q at hmore
    cases hmore with
    | error e => exact .error e
    | ok hrest => exact .ok (hfirst.trans hrest)

/-- A server that has not answered anything yet. -/
theorem Responds.of_nil {srv t : Server} {Q Q' : UdpSocket → Prop}
    {rs : Except DemoFault (List Response)} {r : Except DemoFault Server}
    (ht : Answered srv Q [] t) (h : Responds t Q' rs r) : Responds srv Q' rs r := by
  cases h with
  | error e => exact .error e
  | ok hrest => exact .ok (ht.trans hrest)

theorem pongPacket_ne_nil (v : BitVec 32) : pongPacket v ≠ [] := by
  unfold pongPacket intPacket padded pongPath
  exact List.cons_ne_nil _ _

/-- A message as a request. -/
structure IsRequest (origin : SockAddr) (msg : Message) (req : Request) : Prop where
  origin : req.origin = origin
  address : req.address = msg.address
  cells : msg.HasCells req.cells

section Server
variable (answers : Answers) {srv : Server} {fd : ℕ} (hopened : srv.sock.Opened fd)
include hopened

theorem handle_responds {msg : Message} {req : Request}
    (h : IsRequest srv.sock.remoteAddr msg req) :
    Responds srv (·.Opened fd) ((fun r => [r]) <$> respond req) (srv.handle answers msg) := by
  unfold Server.handle respond
  rw [matchPing_cells h.cells, h.address, h.origin]
  cases pingInt msg.address req.cells with
  | some v =>
    simp only [Option.map_some, memory_ok, ok_bind]
    by_cases hmax : v.toInt = intMax
    · rw [if_pos hmax, increment, if_pos hmax]
      exact .error _
    · have hnext : BitVec.ofInt 32 (v.toInt + 1) = v + 1 := by
        rw [BitVec.ofInt_add, BitVec.ofInt_toInt]
        rfl
      obtain ⟨repl, hrepl, hbuilt⟩ := pong_built (v + 1)
      obtain ⟨pw, hadd, hpacket⟩ := pong_packet hbuilt
      rw [if_neg hmax, increment, if_neg hmax, ok_bind, hnext, hrepl, memory_ok, ok_bind, hadd,
        memory_ok, ok_bind, hpacket, hopened.sendPacketTo_eq (pongPacket_ne_nil (v + 1)), socket_ok,
        ok_bind]
      refine .ok ⟨⟨hopened.errorMessage, hopened.handle, hopened.fds⟩, rfl, rfl, ?_⟩
      unfold UdpSocket.datagrams
      rw [List.map_append]
      rfl
  | none =>
    simp only [Option.map_none, memory_ok, ok_bind]
    rcases print_cells h.cells with ⟨hmem, hprint⟩ | ⟨hmem, a, hprint⟩
    · rw [if_pos hmem, hprint]
      exact .error _
    · rw [if_neg hmem, hprint]
      exact .ok ⟨hopened, rfl, rfl, (List.append_nil _).symm⟩

theorem handle_remoteAddr {msg : Message} {t : Server} (h : srv.handle answers msg = .ok t) :
    t.sock.remoteAddr = srv.sock.remoteAddr := by
  unfold Server.handle at h
  obtain ⟨ping, -, h⟩ := bind_eq_ok.mp h
  cases ping with
  | some iarg =>
    obtain ⟨next, -, h⟩ := bind_eq_ok.mp h
    obtain ⟨repl, -, h⟩ := bind_eq_ok.mp h
    obtain ⟨pw, -, h⟩ := bind_eq_ok.mp h
    obtain ⟨⟨sock, ok⟩, hsend, h⟩ := bind_eq_ok.mp h
    obtain rfl := Except.ok.inj h
    by_cases hdata : packet pw = []
    · rw [hdata, hopened.sendPacketTo_nil] at hsend
      obtain ⟨rfl, -⟩ := Prod.mk.inj (Except.ok.inj hsend)
      rfl
    · rw [hopened.sendPacketTo_eq hdata] at hsend
      obtain ⟨rfl, -⟩ := Prod.mk.inj (Except.ok.inj hsend)
      rfl
  | none =>
    obtain ⟨⟨a, args⟩, -, h⟩ := bind_eq_ok.mp h
    obtain rfl := Except.ok.inj h
    rfl

end Server

/-- The messages of one packet. -/
theorem handleAll_responds (answers : Answers) {fd : ℕ} {srv : Server}
    (hopened : srv.sock.Opened fd) {msgs : List Message} {reqs : List Request}
    (h : List.Forall₂ (IsRequest srv.sock.remoteAddr) msgs reqs) :
    Responds srv (·.Opened fd) (reqs.mapM respond)
      (msgs.foldlM (fun srv msg => srv.handle answers msg) srv) := by
  generalize horigin : srv.sock.remoteAddr = origin at h
  induction h generalizing srv with
  | nil => exact .ok (.nil hopened)
  | @cons msg req msgs reqs hreq _ ih =>
    subst horigin
    have hfirst := handle_responds answers hopened hreq
    have hall := hfirst.bind fun t ht hopened' => ih hopened' (handle_remoteAddr answers hopened ht)
    rw [List.mapM_cons, List.foldlM_cons]
    convert hall using 1
    cases respond req with
    | error e => rfl
    | ok r => rfl

/-- The requests in a datagram, if it is accepted. -/
def ReadAs (d : List UInt8) (origin : SockAddr) (reqs : List Request) : Prop :=
  ∃ pr, PacketReader.init d = .ok pr ∧
    if pr.isOk = true then List.Forall₂ (IsRequest origin) pr.messages reqs else reqs = []

theorem exists_readAs (d : List UInt8) (origin : SockAddr) : ∃ reqs, ReadAs d origin reqs := by
  obtain ⟨pr, hinit, -⟩ := init_decides d
  by_cases hok : pr.isOk = true
  · have hall : ∀ ms, (∀ msg ∈ ms, msg ∈ pr.messages) →
        ∃ reqs, List.Forall₂ (IsRequest origin) ms reqs := by
      intro ms
      induction ms with
      | nil => exact fun _ => ⟨[], .nil⟩
      | cons msg ms ih =>
        intro hmem
        obtain ⟨cs, hcs⟩ := init_hasCells hinit hok (hmem msg List.mem_cons_self)
        obtain ⟨reqs, hreqs⟩ := ih fun m hm => hmem m (List.mem_cons_of_mem _ hm)
        exact ⟨⟨origin, msg.address, cs⟩ :: reqs, .cons ⟨rfl, rfl, hcs⟩ hreqs⟩
    obtain ⟨reqs, hreqs⟩ := hall pr.messages fun _ hm => hm
    exact ⟨reqs, pr, hinit, by rw [if_pos hok]; exact hreqs⟩
  · exact ⟨[], pr, hinit, by rw [if_neg hok]⟩

/-- The requests that reach the server in some rounds. An error that does not pass closes its
socket, and it hears nothing any more. -/
inductive Heard : List Answers → List Request → Prop
  | nil : Heard [] []
  | waits {answers : Answers} {rounds : List Answers} {reqs : List Request}
    (hselect : answers.select ≤ 0) (more : Heard rounds reqs) : Heard (answers :: rounds) reqs
  | passes {answers : Answers} {rounds : List Answers} {reqs : List Request} {errno : ℤ}
    (hselect : 0 < answers.select) (hrecv : answers.recvfrom = .failed errno)
    (hpassing : Passing errno) (more : Heard rounds reqs) : Heard (answers :: rounds) reqs
  | closes {answers : Answers} {errno : ℤ} (hselect : 0 < answers.select)
    (hrecv : answers.recvfrom = .failed errno) (hpassing : ¬ Passing errno)
    (rounds : List Answers) : Heard (answers :: rounds) []
  | packet {answers : Answers} {rounds : List Answers} {reqs reqs' : List Request}
    {data : List UInt8} {origin : SockAddr} (hselect : 0 < answers.select)
    (hrecv : answers.recvfrom = .received data origin)
    (hread : ReadAs (data.take (1024 * 128)) origin reqs) (more : Heard rounds reqs') :
    Heard (answers :: rounds) (reqs ++ reqs')

/-- What a round does with an open socket: it waits in vain, it fails and the socket stays
open or is closed, or it answers a packet. -/
inductive Round (srv : Server) (fd : ℕ) (answers : Answers) : Except DemoFault Server → Prop
  | waits {t : Server} (hselect : answers.select ≤ 0) (ht : Answered srv (·.Opened fd) [] t) :
    Round srv fd answers (.ok t)
  | passes {t : Server} {errno : ℤ} (hselect : 0 < answers.select)
    (hrecv : answers.recvfrom = .failed errno) (hpassing : Passing errno)
    (ht : Answered srv (·.Opened fd) [] t) : Round srv fd answers (.ok t)
  | closes {t : Server} {errno : ℤ} (hselect : 0 < answers.select)
    (hrecv : answers.recvfrom = .failed errno) (hpassing : ¬ Passing errno)
    (ht : Answered srv (fun s => s.isOk = false ∧ s.Closed) [] t) : Round srv fd answers (.ok t)
  | packet {r : Except DemoFault Server} {data : List UInt8} {origin : SockAddr}
    {reqs : List Request} (hselect : 0 < answers.select)
    (hrecv : answers.recvfrom = .received data origin)
    (hread : ReadAs (data.take (1024 * 128)) origin reqs)
    (hr : Responds srv (·.Opened fd) (reqs.mapM respond) r) : Round srv fd answers r

section Rounds
variable (texts : ErrorTexts) {srv : Server} {fd : ℕ}

/-- A server that differs in what its socket has received. -/
theorem answered_socket {Q : UdpSocket → Prop} {sock : UdpSocket} (h : Q sock)
    (hlocal : sock.localAddr = srv.sock.localAddr) (hsends : sock.sends = srv.sock.sends) :
    Answered srv Q [] { srv with sock := sock } := by
  refine ⟨h, hlocal, (List.append_nil _).symm, ?_⟩
  unfold UdpSocket.datagrams
  rw [hsends]
  exact (List.append_nil _).symm

theorem round_cases (answers : Answers) (hopened : srv.sock.Opened fd) (hfd : fd < fdSetSize) :
    Round srv fd answers (srv.round texts answers) := by
  have hsmall : ¬ ((30 : ℤ) ≥ 0 ∧ fdSetSize ≤ fd) := fun hb => Nat.not_le.mpr hfd hb.2
  have hbuffer : ∀ buffer addr,
      UdpSocket.Opened { srv.sock with buffer := buffer, remoteAddr := addr } fd :=
    fun _ _ => ⟨hopened.errorMessage, hopened.handle, hopened.fds⟩
  unfold Server.round
  rw [if_pos hopened.isOk, hopened.receiveNextPacket_eq texts hsmall, socket_ok, ok_bind]
  by_cases hselect : answers.select ≤ 0
  · rw [if_pos ⟨by decide, hselect⟩]
    exact .waits hselect (answered_socket (hbuffer _ _) rfl rfl)
  · have hready := Int.not_le.mp hselect
    rw [if_neg fun hb => hselect hb.2]
    cases hrecv : answers.recvfrom with
    | failed errno =>
      unfold UdpSocket.received
      by_cases hpassing : Passing errno
      · simp only [if_pos hpassing]
        exact .passes hready hrecv hpassing (answered_socket (hbuffer _ _) rfl rfl)
      · simp only [if_neg hpassing]
        refine .closes hready hrecv hpassing (answered_socket ⟨?_, rfl, rfl⟩ rfl rfl)
        exact List.isEmpty_eq_false_iff.mpr (texts.strerror_ne_nil errno)
    | received data origin =>
      obtain ⟨reqs, hread⟩ := exists_readAs (data.take (1024 * 128)) origin
      refine .packet hready hrecv hread ?_
      obtain ⟨pr, hinit, hreqs⟩ := hread
      have hopened' := hbuffer (data.take (1024 * 128)) origin
      have hsame : Answered srv (·.Opened fd) [] ⟨_, srv.lines⟩ := answered_socket hopened' rfl rfl
      unfold UdpSocket.received
      simp only [if_true, hinit, memory_ok, ok_bind]
      split_ifs at hreqs ⊢ with hok
      · exact .of_nil hsame (handleAll_responds answers hopened' hreqs)
      · rw [hreqs]
        exact .ok hsame

end Rounds

def someTexts : ErrorTexts where
  gaiStrerror _ := [63]
  strerror _ := [63]
  gaiStrerror_ne_nil _ := List.cons_ne_nil _ _
  strerror_ne_nil _ := List.cons_ne_nil _ _

end Moodpd.PingPong
