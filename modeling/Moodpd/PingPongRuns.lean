import Moodpd.PingPong
import Moodpd.Wire

/-!
# The ping-pong demo over a network

The client and the server of the demo with two networks between them that drop, duplicate and
reorder their datagrams. Every pong that the client prints answers a ping that the server has
printed, and the server prints only pings that the client has sent.
-/
namespace Moodpd.PingPong
open Memory HexText Oscpkt Wire

/-- What comes of waiting for a packet. -/
inductive Wait
  | nothing
  | failed (errno : ℤ)
  | deliver (j : ℕ)

structure Demo where
  server : Server
  client : Client
  up : Net (List UInt8)
  down : Net (List UInt8)

/-- A turn of the server, a half turn of the client, which does nothing when it is not its
turn, or something that a network does. -/
inductive Event
  | server (wait : Wait) (send : ℕ → SendResult)
  | ping (result : SendResult)
  | wait (wait : Wait)
  | dropUp (j : ℕ)
  | duplicateUp (j : ℕ)
  | dropDown (j : ℕ)
  | duplicateDown (j : ℕ)

/-- What `select` and `recvfrom` answer to a side that waits for datagrams from the other
one. -/
def arrival (net : Net (List UInt8)) (origin : SockAddr) : Wait → ℤ × RecvResult
  | .nothing => (0, .failed EAGAIN)
  | .failed errno => (1, .failed errno)
  | .deliver j =>
    match net.transit[j]? with
    | some d => (1, .received d origin)
    | none => (0, .failed EAGAIN)

def answersOf (net : Net (List UInt8)) (origin : SockAddr) (send : ℕ → SendResult) (wait : Wait) :
    Answers :=
  ⟨(arrival net origin wait).1, (arrival net origin wait).2, send⟩

def netAfter (net : Net (List UInt8)) : Wait → Net (List UInt8)
  | .deliver j => net.deliver j
  | _ => net

/-- The datagrams of some calls that the system has taken and that go to an address, or with
`none` to the other end of a connected socket. -/
def posted (addr : Option SockAddr) (calls : List SendCall) : List (List UInt8) :=
  (calls.filter fun c => c.addr.map Prod.fst = addr ∧ c.result.value = c.data.length).map
    SendCall.data

namespace Demo

variable (texts : ErrorTexts) (serverAddr clientAddr : SockAddr)

def start (serverResolver clientResolver : Resolver) : Except DemoFault Demo := do
  let server ← Server.start texts serverResolver
  let client ← Client.start texts clientResolver
  .ok ⟨server, client, .empty, .empty⟩

/-- The client has done half a turn. -/
def afterClient (d : Demo) (client : Client) : Demo :=
  { d with
    client := client
    up := d.up.send (posted none (client.sock.sends.drop d.client.sock.sends.length)) }

def step (d : Demo) : Event → Except DemoFault Demo
  | .server wait send => do
    let server ← d.server.round texts (answersOf d.up clientAddr send wait)
    let calls := server.sock.sends.drop d.server.sock.sends.length
    .ok { d with
      server := server
      up := netAfter d.up wait
      down := d.down.send (posted (some clientAddr) calls) }
  | .ping result => do
    let client ← d.client.ping result
    .ok (d.afterClient client)
  | .wait wait => do
    let answer := arrival d.down serverAddr wait
    let client ← d.client.wait texts answer.1 answer.2
    .ok { d.afterClient client with
      down := if d.client.waiting then netAfter d.down wait else d.down }
  | .dropUp j => .ok { d with up := d.up.drop j }
  | .duplicateUp j => .ok { d with up := d.up.duplicate j }
  | .dropDown j => .ok { d with down := d.down.drop j }
  | .duplicateDown j => .ok { d with down := d.down.duplicate j }

def run (serverResolver clientResolver : Resolver) (events : List Event) :
    Except DemoFault Demo := do
  let d ← start texts serverResolver clientResolver
  events.foldlM (fun d e => d.step texts serverAddr clientAddr e) d

/-- The client has sent a ping. -/
def Pinged (d : Demo) (k : ℤ) : Prop :=
  1 ≤ k ∧ k < d.client.iping ∧ ClientLine.sent k true ∈ d.client.lines

/-- The server has printed a ping of the client. -/
def Heard (d : Demo) (k : ℤ) : Prop := ServerLine.received k clientAddr ∈ d.server.lines

/-- Each message on a network and each line has its cause. -/
structure Causal (d : Demo) : Prop where
  up : d.up.Honest
  down : d.down.Honest
  pings : ∀ m ∈ d.up.sent, ∃ k, d.Pinged k ∧ m = pingPacket (BitVec.ofInt 32 k)
  heard : ∀ l ∈ d.server.lines, ∃ k, d.Pinged k ∧ l = .received k clientAddr
  pongs : ∀ m ∈ d.down.sent, ∃ k, d.Heard clientAddr k ∧ m = pongPacket (BitVec.ofInt 32 (k + 1))
  printed : ∀ l ∈ d.client.lines, (∃ k ok, 1 ≤ k ∧ k < d.client.iping ∧ l = .sent k ok) ∨
    ∃ k, d.Heard clientAddr k ∧ l = .received pongPath [.int32 (k + 1)]

/-- The sockets can be waited for, and the counter has counted events at most. -/
structure Able (n : ℕ) (d : Demo) : Prop where
  server : d.server.sock.Ready
  client : d.client.sock.Ready
  one_le : 1 ≤ d.client.iping
  counter : d.client.iping ≤ n + 1

end Demo

theorem toInt_ofInt {k : ℤ} (h₀ : 0 ≤ k) (h₁ : k ≤ intMax) : (BitVec.ofInt 32 k).toInt = k := by
  unfold intMax at h₁
  exact BitVec.toInt_ofInt_eq_self (by decide) (by omega) (by omega)

/-- Cells with the tag of an integer. -/
theorem cells_of_int {msg : Message} {cs : List Cell} {v : BitVec 32} (h : msg.HasCells cs)
    (hv : msg.HasCells [some (.int32 v)]) : cs = [some (.int32 v)] := by
  have htags := h.typeTags.symm.trans hv.typeTags
  obtain ⟨c, rfl⟩ := List.length_eq_one_iff.mp
    (show cs.length = 1 by simpa using congrArg List.length htags)
  cases c with
  | none => cases (List.cons.inj htags).1
  | some w =>
    have hw : [w] = [.int32 v] := Message.HasCells.unique h hv
    rw [(List.cons.inj hw).1]

/-- The one request in a ping. -/
theorem readAs_ping {v : BitVec 32} {origin : SockAddr} {reqs : List Request}
    (h : ReadAs ((pingPacket v).take (1024 * 128)) origin reqs) :
    reqs = [⟨origin, pingPath, [some (.int32 v)]⟩] := by
  obtain ⟨hfits, r, hinit, haddr, hcells⟩ := pingPacket_delivers v
  obtain ⟨pr, hpr, hreqs⟩ := h
  rw [List.take_of_length_le hfits, hinit] at hpr
  obtain rfl := Except.ok.inj hpr
  rw [if_pos (by rfl)] at hreqs
  obtain ⟨req, _, hreq, hnil, rfl⟩ := List.forall₂_cons_left_iff.mp hreqs
  obtain rfl := List.forall₂_nil_left_iff.mp hnil
  have hcs := cells_of_int hreq.cells hcells
  have hreqAddr := hreq.address.trans haddr
  have horigin := hreq.origin
  cases req
  simp only at hcs hreqAddr horigin
  rw [hcs, hreqAddr, horigin]

theorem respond_ping {v : BitVec 32} (hv : v.toInt ≠ intMax) (origin : SockAddr) :
    respond ⟨origin, pingPath, [some (.int32 v)]⟩ =
      .ok ⟨.received v.toInt origin, [(origin, v + 1)]⟩ := by
  have hping : pingInt pingPath [some (.int32 v)] = some v := pingInt_eq_some.mpr ⟨rfl, rfl⟩
  unfold respond
  simp only [hping]
  rw [if_neg hv]

theorem posted_of_datagrams {addr : Option SockAddr} {s t : UdpSocket}
    {new : List (Option (SockAddr × ℕ) × List UInt8)} (h : t.datagrams = s.datagrams ++ new)
    {m : List UInt8} (hm : m ∈ posted addr (t.sends.drop s.sends.length)) :
    ∃ a, (a, m) ∈ new := by
  obtain ⟨c, hc, rfl⟩ := List.mem_map.mp hm
  have hdrop : (t.sends.drop s.sends.length).map (fun c => (c.addr, c.data)) = new := by
    have hlen : s.datagrams.length = s.sends.length := List.length_map ..
    rw [List.map_drop, ← hlen]
    exact (congrArg (List.drop s.datagrams.length) h).trans List.drop_left
  exact ⟨c.addr, hdrop ▸ List.mem_map_of_mem (List.mem_of_mem_filter hc)⟩

/-- What a round of the server leaves when only pings with certain integers arrive. -/
structure ServerTurn (clientAddr : SockAddr) (P : ℤ → Prop) (srv t : Server) : Prop where
  ready : t.sock.Ready
  kept : ∀ l ∈ srv.lines, l ∈ t.lines
  lines : ∀ l ∈ t.lines, l ∈ srv.lines ∨ ∃ k, P k ∧ l = .received k clientAddr
  posted : ∀ m ∈ posted (some clientAddr) (t.sock.sends.drop srv.sock.sends.length),
    ∃ k, ServerLine.received k clientAddr ∈ t.lines ∧ m = pongPacket (BitVec.ofInt 32 (k + 1))

theorem ServerTurn.quiet {clientAddr : SockAddr} {P : ℤ → Prop} {srv t : Server}
    {Q : UdpSocket → Prop} (h : t.sock.Ready) (ht : Answered srv Q [] t) :
    ServerTurn clientAddr P srv t where
  ready := h
  kept l hl := by
    rw [ht.lines]
    exact List.mem_append_left _ hl
  lines l hl := by
    rw [ht.lines, List.map_nil, List.append_nil] at hl
    exact .inl hl
  posted m hm := by
    obtain ⟨a, ha⟩ := posted_of_datagrams ht.datagrams hm
    exact absurd ha List.not_mem_nil

/-- Responses to one ping. -/
theorem ServerTurn.answered {clientAddr : SockAddr} {P : ℤ → Prop} {srv t : Server} {fd : ℕ}
    (hfd : fd < fdSetSize) {k : ℤ} (hk : P k)
    (h : Answered srv (·.Opened fd)
      [⟨.received k clientAddr, [(clientAddr, BitVec.ofInt 32 (k + 1))]⟩] t) :
    ServerTurn clientAddr P srv t where
  ready := h.sock.ready hfd
  kept l hl := by
    rw [h.lines]
    exact List.mem_append_left _ hl
  lines l hl := by
    rw [h.lines] at hl
    rcases List.mem_append.mp hl with hl | hl
    · exact .inl hl
    · exact .inr ⟨k, hk, List.mem_singleton.mp hl⟩
  posted m hm := by
    obtain ⟨a, ha⟩ := posted_of_datagrams h.datagrams hm
    obtain ⟨-, rfl⟩ := Prod.mk.inj (List.mem_singleton.mp ha)
    refine ⟨k, ?_, rfl⟩
    rw [h.lines]
    exact List.mem_append_right _ (List.mem_singleton.mpr rfl)

/-- A datagram that is delivered comes from the network. -/
theorem arrival_received {net : Net (List UInt8)} {origin from' : SockAddr} {wait : Wait}
    {data : List UInt8} (h : (arrival net origin wait).2 = .received data from') :
    data ∈ net.transit ∧ from' = origin := by
  cases wait with
  | nothing => cases h
  | failed errno => cases h
  | deliver j =>
    unfold arrival at h
    simp only at h
    cases hj : net.transit[j]? with
    | none =>
      rw [hj] at h
      cases h
    | some d =>
      rw [hj] at h
      obtain ⟨rfl, rfl⟩ := RecvResult.received.inj h
      exact ⟨List.mem_of_getElem? hj, rfl⟩

theorem server_turn (texts : ErrorTexts) {clientAddr : SockAddr} {P : ℤ → Prop}
    (hP : ∀ k, P k → 0 ≤ k ∧ k < intMax) {net : Net (List UInt8)}
    (hnet : ∀ m ∈ net.transit, ∃ k, P k ∧ m = pingPacket (BitVec.ofInt 32 k)) (wait : Wait)
    (send : ℕ → SendResult) {srv : Server} (hready : srv.sock.Ready) :
    ∃ t, srv.round texts (answersOf net clientAddr send wait) = .ok t ∧
      ServerTurn clientAddr P srv t := by
  rcases hready.cases with hclosed | ⟨fd, hopened, hfd⟩
  · unfold Server.round
    by_cases hok : srv.sock.isOk = true
    · rw [if_pos hok, hclosed.receiveNextPacket texts, socket_ok, ok_bind]
      have hunset := hclosed.setErr_ready UdpSocket.notOpened
      exact ⟨_, rfl, .quiet hunset (answered_socket hunset
        (UdpSocket.setErr_localAddr _) (UdpSocket.setErr_sends _))⟩
    · rw [if_neg hok]
      exact ⟨srv, rfl, .quiet hready (.nil hready)⟩
  · have hround := round_cases texts (answersOf net clientAddr send wait) hopened hfd
    generalize srv.round texts (answersOf net clientAddr send wait) = r at hround ⊢
    cases hround with
    | @waits t hselect ht => exact ⟨t, rfl, .quiet (ht.sock.ready hfd) ht⟩
    | @passes t errno hselect hrecv hpassing ht => exact ⟨t, rfl, .quiet (ht.sock.ready hfd) ht⟩
    | @closes t errno hselect hrecv hpassing ht => exact ⟨t, rfl, .quiet ht.sock.2.ready ht⟩
    | @packet _ data origin reqs hselect hrecv hread hr =>
      obtain ⟨htransit, rfl⟩ := arrival_received hrecv
      obtain ⟨k, hk, rfl⟩ := hnet data htransit
      obtain ⟨h₀, h₁⟩ := hP k hk
      have hint : (BitVec.ofInt 32 k).toInt = k := toInt_ofInt h₀ (by omega)
      have hne : (BitVec.ofInt 32 k).toInt ≠ intMax := by omega
      have hnext : BitVec.ofInt 32 k + 1 = BitVec.ofInt 32 (k + 1) := by
        rw [BitVec.ofInt_add]
        rfl
      have hresponses : reqs.mapM respond =
          .ok [⟨.received k origin, [(origin, BitVec.ofInt 32 (k + 1))]⟩] := by
        rw [readAs_ping hread, List.mapM_cons, respond_ping hne, hint, hnext]
        rfl
      rw [hresponses] at hr
      cases hr with
      | @ok _ t ht => exact ⟨t, rfl, .answered hfd hk ht⟩

/-- What half a round of the client leaves when only pongs to certain integers arrive. -/
structure ClientTurn (P : ℤ → Prop) (c t : Client) : Prop where
  ready : t.sock.Ready
  counter : c.iping ≤ t.iping ∧ t.iping ≤ c.iping + 1
  kept : ∀ l ∈ c.lines, l ∈ t.lines
  lines : ∀ l ∈ t.lines, l ∈ c.lines ∨ (∃ ok, l = .sent c.iping ok ∧ c.iping < t.iping) ∨
    ∃ k, P k ∧ l = .received pongPath [.int32 (k + 1)]
  posted : ∀ m ∈ posted none (t.sock.sends.drop c.sock.sends.length),
    m = pingPacket (BitVec.ofInt 32 c.iping) ∧ c.iping < t.iping ∧
      ClientLine.sent c.iping true ∈ t.lines

theorem print_carries {c : Client} {msg : Message} {address : List UInt8} {v : BitVec 32}
    (h : Carries msg address v) : c.print msg =
      .ok { c with lines := c.lines ++ [.received address [.int32 v.toInt]] } := by
  unfold Client.print
  rcases print_cells h.cells with ⟨hmem, -⟩ | ⟨-, a, hprint⟩
  · simp at hmem
  · rw [hprint, h.address]
    rfl

/-- The packet of the client. -/
theorem pingWriter_packet (iping : ℤ) : ∃ pw, Client.pingWriter iping = .ok pw ∧
    packet pw = pingPacket (BitVec.ofInt 32 iping) := by
  obtain ⟨msg, hpush, hbuilt⟩ := ping_built (BitVec.ofInt 32 iping)
  obtain ⟨pw, hcalls, hpacket⟩ := ping_packet hbuilt
  refine ⟨pw, ?_, hpacket⟩
  unfold Client.pingWriter
  rw [hpush, ok_bind]
  exact hcalls

/-- The client after it has sent its ping. -/
theorem ClientTurn.sent {P : ℤ → Prop} {c : Client} {addr : SockAddr} {res : SendResult}
    {sock : UdpSocket} {ok : Bool}
    (h : c.sock.Sends (pingPacket (BitVec.ofInt 32 c.iping)) addr res sock ok) :
    ClientTurn P c ⟨sock, c.iping + 1, c.lines ++ [.sent c.iping ok], true⟩ where
  ready := h.ready
  counter := ⟨Int.le_add_one le_rfl, le_rfl⟩
  kept _ hl := List.mem_append_left _ hl
  lines l hl := by
    rcases List.mem_append.mp hl with hl | hl
    · exact .inl hl
    · exact .inr (.inl ⟨ok, List.mem_singleton.mp hl, Int.lt_succ c.iping⟩)
  posted m hm := by
    simp only at hm
    rcases h.sends with ⟨hsends, -⟩ | ⟨hsends, hok⟩
    · rw [hsends, List.drop_length] at hm
      exact absurd hm List.not_mem_nil
    · rw [hsends, List.drop_left] at hm
      obtain ⟨call, hcall, rfl⟩ := List.mem_map.mp hm
      obtain ⟨hmem, htaken⟩ := List.mem_filter.mp hcall
      obtain rfl := List.mem_singleton.mp hmem
      have hdone : ok = true := by
        rw [hok]
        exact decide_eq_true (of_decide_eq_true htaken).2
      refine ⟨rfl, Int.lt_succ c.iping, ?_⟩
      rw [hdone]
      exact List.mem_append_right _ (List.mem_singleton.mpr rfl)

/-- Receiving does not send. -/
theorem ClientTurn.received {P : ℤ → Prop} {c t : Client} (h : ClientTurn P c t)
    {recvfrom : RecvResult} {sock : UdpSocket} {got : Bool}
    (hsock : t.sock.Receives recvfrom sock got) :
    ClientTurn P c { t with sock := sock, waiting := false } where
  ready := hsock.ready
  counter := h.counter
  kept := h.kept
  lines := h.lines
  posted m hm := by
    rw [hsock.sends] at hm
    exact h.posted m hm

theorem ClientTurn.printed {P : ℤ → Prop} {c t : Client} (h : ClientTurn P c t) {k : ℤ}
    (hk : P k) : ClientTurn P c
      { t with lines := t.lines ++ [.received pongPath [.int32 (k + 1)]] } where
  ready := h.ready
  counter := h.counter
  kept l hl := List.mem_append_left _ (h.kept l hl)
  lines l hl := by
    rcases List.mem_append.mp hl with hl | hl
    · exact h.lines l hl
    · exact .inr (.inr ⟨k, hk, List.mem_singleton.mp hl⟩)
  posted m hm := by
    obtain ⟨hping, hcounter, hline⟩ := h.posted m hm
    exact ⟨hping, hcounter, List.mem_append_left _ hline⟩

theorem ClientTurn.refl {P : ℤ → Prop} {c : Client} (h : c.sock.Ready) : ClientTurn P c c where
  ready := h
  counter := ⟨le_rfl, by omega⟩
  kept _ hl := hl
  lines _ hl := .inl hl
  posted m hm := by
    rw [List.drop_length] at hm
    exact absurd hm List.not_mem_nil

theorem ping_turn {P : ℤ → Prop} (result : SendResult) {c : Client} (hready : c.sock.Ready)
    (hiping : c.iping < intMax) : ∃ t, c.ping result = .ok t ∧ ClientTurn P c t := by
  unfold Client.ping
  by_cases hturn : ¬ c.waiting ∧ c.sock.isOk
  · obtain ⟨pw, hwriter, hpacket⟩ := pingWriter_packet c.iping
    obtain ⟨sock, ok, hsend, hsent⟩ := hready.sendPacketTo
      (pingPacket (BitVec.ofInt 32 c.iping)) c.sock.remoteAddr result
    have hnext : increment c.iping = .ok (c.iping + 1) := if_neg (by omega)
    rw [if_pos hturn, hwriter, memory_ok, ok_bind, hpacket]
    unfold UdpSocket.sendPacket
    rw [hsend, socket_ok, ok_bind]
    simp only [hnext, ok_bind]
    exact ⟨_, rfl, .sent hsent⟩
  · rw [if_neg hturn]
    exact ⟨c, rfl, .refl hready⟩

theorem wait_turn (texts : ErrorTexts) (serverAddr : SockAddr) {P : ℤ → Prop}
    (hP : ∀ k, P k → 0 ≤ k ∧ k < intMax) {net : Net (List UInt8)}
    (hnet : ∀ m ∈ net.transit, ∃ k, P k ∧ m = pongPacket (BitVec.ofInt 32 (k + 1))) (wait : Wait)
    {c : Client} (hready : c.sock.Ready) :
    ∃ t, c.wait texts (arrival net serverAddr wait).1 (arrival net serverAddr wait).2 = .ok t ∧
      ClientTurn P c t := by
  unfold Client.wait
  by_cases hwaiting : c.waiting = true
  · obtain ⟨sock, got, hrecv, hreceived⟩ := hready.receiveNextPacket texts 30
      (arrival net serverAddr wait).1 (arrival net serverAddr wait).2
    have hturn := (ClientTurn.refl (P := P) hready).received hreceived
    rw [if_pos hwaiting, hrecv, socket_ok, ok_bind]
    by_cases hgot : got = true
    · obtain ⟨data, origin, hdata, hbuffer, -⟩ := hreceived.packet hgot
      obtain ⟨htransit, -⟩ := arrival_received hdata
      obtain ⟨k, hk, rfl⟩ := hnet data htransit
      obtain ⟨h₀, h₁⟩ := hP k hk
      obtain ⟨hfits, r, hinit, hcarries⟩ := pongPacket_delivers (BitVec.ofInt 32 (k + 1))
      have hisOk : (PacketReader.isOk ⟨[r], .okNoError⟩) = true := rfl
      simp only [if_pos hgot]
      rw [hbuffer, List.take_of_length_le hfits, hinit, memory_ok, ok_bind, if_pos hisOk,
        List.foldlM_cons, print_carries hcarries, toInt_ofInt (by omega) (by omega)]
      exact ⟨_, rfl, hturn.printed hk⟩
    · simp only [if_neg hgot]
      exact ⟨_, rfl, hturn⟩
  · rw [if_neg hwaiting]
    exact ⟨c, rfl, .refl hready⟩

theorem honest_netAfter {net : Net (List UInt8)} (h : net.Honest) (wait : Wait) :
    (netAfter net wait).Honest := by
  cases wait with
  | deliver j => exact h.deliver j
  | nothing => exact h
  | failed errno => exact h

theorem netAfter_sent (net : Net (List UInt8)) (wait : Wait) :
    (netAfter net wait).sent = net.sent := by
  cases wait <;> rfl

namespace Demo
variable (texts : ErrorTexts) (serverAddr : SockAddr) {clientAddr : SockAddr} {d : Demo} {n : ℕ}

theorem Able.pinged (h : d.Able n) (hn : (n : ℤ) + 1 < intMax) {k : ℤ} (hk : d.Pinged k) :
    0 ≤ k ∧ k < intMax := by
  have hcounter := h.counter
  obtain ⟨hone, hlt, -⟩ := hk
  omega

theorem Causal.heard_pinged (h : Causal clientAddr d) {k : ℤ} (hk : d.Heard clientAddr k) :
    d.Pinged k := by
  obtain ⟨k', hk', he⟩ := h.heard _ hk
  obtain ⟨rfl, -⟩ := ServerLine.received.inj he
  exact hk'

theorem Causal.server (h : Causal clientAddr d) {t : Server}
    (ht : ServerTurn clientAddr d.Pinged d.server t) (wait : Wait) :
    Causal clientAddr { d with
      server := t
      up := netAfter d.up wait
      down := d.down.send
        (posted (some clientAddr) (t.sock.sends.drop d.server.sock.sends.length)) } where
  up := honest_netAfter h.up wait
  down := h.down.send _
  pings m hm := by
    rw [netAfter_sent] at hm
    exact h.pings m hm
  heard l hl := by
    rcases ht.lines l hl with hl | hl
    · exact h.heard l hl
    · exact hl
  pongs m hm := by
    rcases List.mem_append.mp hm with hm | hm
    · obtain ⟨k, hk, rfl⟩ := h.pongs m hm
      exact ⟨k, ht.kept _ hk, rfl⟩
    · exact ht.posted m hm
  printed l hl := by
    rcases h.printed l hl with hsent | ⟨k, hk, rfl⟩
    · exact .inl hsent
    · exact .inr ⟨k, ht.kept _ hk, rfl⟩

theorem Causal.client (h : Causal clientAddr d) (hable : d.Able n) {t : Client}
    (ht : ClientTurn (d.Heard clientAddr) d.client t) : Causal clientAddr (d.afterClient t) := by
  have hpinged : ∀ k, d.Pinged k → 1 ≤ k ∧ k < t.iping ∧ ClientLine.sent k true ∈ t.lines :=
    fun k hk => ⟨hk.1, lt_of_lt_of_le hk.2.1 ht.counter.1, ht.kept _ hk.2.2⟩
  refine ⟨h.up.send _, h.down, ?_, ?_, h.pongs, ?_⟩
  · intro m hm
    rcases List.mem_append.mp hm with hm | hm
    · obtain ⟨k, hk, rfl⟩ := h.pings m hm
      exact ⟨k, hpinged k hk, rfl⟩
    · obtain ⟨rfl, hcounter, hline⟩ := ht.posted m hm
      exact ⟨d.client.iping, ⟨hable.one_le, hcounter, hline⟩, rfl⟩
  · intro l hl
    obtain ⟨k, hk, rfl⟩ := h.heard l hl
    exact ⟨k, hpinged k hk, rfl⟩
  · intro l hl
    rcases ht.lines l hl with hl | ⟨ok, rfl, hcounter⟩ | hreceived
    · rcases h.printed l hl with ⟨k, ok, hone, hlt, rfl⟩ | hreceived
      · exact .inl ⟨k, ok, hone, lt_of_lt_of_le hlt ht.counter.1, rfl⟩
      · exact .inr hreceived
    · exact .inl ⟨d.client.iping, ok, hable.one_le, hcounter, rfl⟩
    · exact .inr hreceived

/-- The networks may do what they do. -/
theorem Causal.nets (h : Causal clientAddr d) {up down : Net (List UInt8)} (hup : up.Honest)
    (hupSent : up.sent = d.up.sent) (hdown : down.Honest) (hdownSent : down.sent = d.down.sent) :
    Causal clientAddr { d with up := up, down := down } where
  up := hup
  down := hdown
  pings := by
    rw [hupSent]
    exact h.pings
  heard := h.heard
  pongs := by
    rw [hdownSent]
    exact h.pongs
  printed := h.printed

/-- What holds of every state of a run after some events. -/
structure Good (clientAddr : SockAddr) (n : ℕ) (d : Demo) : Prop where
  causal : Causal clientAddr d
  able : d.Able n

theorem Able.nets (h : d.Able n) (up down : Net (List UInt8)) :
    Able (n + 1) { d with up := up, down := down } :=
  ⟨h.server, h.client, h.one_le, le_trans h.counter (by omega)⟩

theorem Able.afterClient (h : d.Able n) {P : ℤ → Prop} {t : Client} (ht : ClientTurn P d.client t)
    (down : Net (List UInt8)) : Able (n + 1) { d.afterClient t with down := down } where
  server := h.server
  client := ht.ready
  one_le := le_trans h.one_le ht.counter.1
  counter := by
    have hle := h.counter
    exact le_trans ht.counter.2 (by omega)

theorem Good.step (h : Good clientAddr n d) (hn : (n : ℤ) + 1 < intMax) (e : Event) :
    ∃ d', d.step texts serverAddr clientAddr e = .ok d' ∧ Good clientAddr (n + 1) d' := by
  have hcausal := h.causal
  have hable := h.able
  have hpinged : ∀ k, d.Pinged k → 0 ≤ k ∧ k < intMax := fun _ => hable.pinged hn
  cases e with
  | server wait send =>
    obtain ⟨t, hround, ht⟩ := server_turn texts hpinged
      (fun m hm => hcausal.pings m (hcausal.up.transit m hm)) wait send hable.server
    refine ⟨_, by simp only [Demo.step, hround, ok_bind], hcausal.server ht wait, ?_⟩
    exact ⟨ht.ready, hable.client, hable.one_le, le_trans hable.counter (by omega)⟩
  | ping result =>
    obtain ⟨t, hping, ht⟩ := ping_turn (P := d.Heard clientAddr) result hable.client
      (lt_of_le_of_lt hable.counter hn)
    exact ⟨_, by simp only [Demo.step, hping, ok_bind], hcausal.client hable ht,
      hable.afterClient ht d.down⟩
  | wait wait =>
    obtain ⟨t, hwait, ht⟩ := wait_turn texts serverAddr
      (fun k hk => hpinged k (hcausal.heard_pinged hk))
      (fun m hm => hcausal.pongs m (hcausal.down.transit m hm)) wait hable.client
    have hclient := hcausal.client hable ht
    have hstep : d.step texts serverAddr clientAddr (.wait wait) = .ok { d.afterClient t with
        down := if d.client.waiting then netAfter d.down wait else d.down } := by
      unfold Demo.step
      simp only
      rw [hwait, ok_bind]
    refine ⟨_, hstep, hclient.nets hclient.up rfl ?_ ?_, hable.afterClient ht _⟩
    · split_ifs
      · exact honest_netAfter hcausal.down wait
      · exact hcausal.down
    · split_ifs
      · exact netAfter_sent d.down wait
      · rfl
  | dropUp j =>
    exact ⟨_, rfl, hcausal.nets (hcausal.up.drop j) rfl hcausal.down rfl, hable.nets _ _⟩
  | duplicateUp j =>
    exact ⟨_, rfl, hcausal.nets (hcausal.up.duplicate j) rfl hcausal.down rfl, hable.nets _ _⟩
  | dropDown j =>
    exact ⟨_, rfl, hcausal.nets hcausal.up rfl (hcausal.down.drop j) rfl, hable.nets _ _⟩
  | duplicateDown j =>
    exact ⟨_, rfl, hcausal.nets hcausal.up rfl (hcausal.down.duplicate j) rfl, hable.nets _ _⟩

theorem Good.run (events : List Event) (h : Good clientAddr n d)
    (hlen : (n : ℤ) + events.length < intMax) :
    ∃ d', events.foldlM (fun d e => d.step texts serverAddr clientAddr e) d = .ok d' ∧
      Good clientAddr (n + events.length) d' := by
  induction events generalizing d n with
  | nil => exact ⟨d, rfl, h⟩
  | cons e events ih =>
    rw [List.length_cons] at hlen
    obtain ⟨d₁, hstep, h₁⟩ := h.step texts serverAddr (by omega) e
    obtain ⟨d₂, hrun, h₂⟩ := ih h₁ (by omega)
    refine ⟨d₂, ?_, ?_⟩
    · rw [List.foldlM_cons, hstep]
      exact hrun
    · rw [List.length_cons, Nat.add_comm events.length 1, ← Nat.add_assoc]
      exact h₂

theorem good_start (clientAddr : SockAddr) {serverResolver clientResolver : Resolver}
    (hserver : UdpSocket.SmallDescriptors serverResolver)
    (hclient : UdpSocket.SmallDescriptors clientResolver) :
    ∃ d, start texts serverResolver clientResolver = .ok d ∧ Good clientAddr 0 d := by
  have hnew : UdpSocket.new.Ready := UdpSocket.Closed.ready ⟨rfl, rfl⟩
  obtain ⟨s, ok, hs, hready⟩ := hnew.openSocket texts hserver []
    (UdpSocket.portString PORT_NUM) .forceIpv4
  obtain ⟨c, ok', hc, hready'⟩ := hnew.openSocket texts hclient (ascii "localhost")
    (UdpSocket.portString PORT_NUM) .forceIpv4
  refine ⟨⟨⟨s, []⟩, ⟨c, 1, [], false⟩, .empty, .empty⟩, ?_, ?_, ?_⟩
  · unfold start Server.start Client.start UdpSocket.bindTo UdpSocket.connectTo
    rw [hs, hc]
    rfl
  · exact ⟨Net.honest_empty, Net.honest_empty, nofun, nofun, nofun, nofun⟩
  · exact ⟨hready, hready', le_rfl, le_rfl⟩

end Demo

/-- In every run that is too short to use up the integers, whatever the network and the
system do: no side fails, every ping that the server prints was sent by the client, and every
message that the client prints is a pong, with the next integer, to a ping that the server has
printed. -/
theorem pingPong_causal (texts : ErrorTexts) (serverAddr clientAddr : SockAddr)
    {serverResolver clientResolver : Resolver}
    (hserver : UdpSocket.SmallDescriptors serverResolver)
    (hclient : UdpSocket.SmallDescriptors clientResolver) (events : List Event)
    (hlen : (events.length : ℤ) < intMax) :
    ∃ d, Demo.run texts serverAddr clientAddr serverResolver clientResolver events = .ok d ∧
      (∀ l ∈ d.server.lines, ∃ k, l = .received k clientAddr ∧
        ClientLine.sent k true ∈ d.client.lines) ∧
      ∀ address args, ClientLine.received address args ∈ d.client.lines → ∃ k,
        address = pongPath ∧ args = [.int32 (k + 1)] ∧
        ServerLine.received k clientAddr ∈ d.server.lines := by
  obtain ⟨d, hd, hstart⟩ := Demo.good_start texts clientAddr hserver hclient
  obtain ⟨d', hrun, hgood⟩ := hstart.run texts serverAddr events (by simpa using hlen)
  refine ⟨d', ?_, fun l hl => ?_, fun address args hl => ?_⟩
  · unfold Demo.run
    rw [hd]
    exact hrun
  · obtain ⟨k, hk, rfl⟩ := hgood.causal.heard l hl
    exact ⟨k, rfl, hk.2.2⟩
  · rcases hgood.causal.printed _ hl with ⟨k, ok, -, -, he⟩ | ⟨k, hk, he⟩
    · cases he
    · obtain ⟨rfl, rfl⟩ := ClientLine.received.inj he
      exact ⟨k, rfl, rfl, hk⟩

/-- One address, with descriptor 3. -/
def oneAddress : Resolver := fun _ =>
  .ok [⟨⟨AF_INET, []⟩, 16, some 3, true, some ⟨AF_INET, []⟩, by decide⟩]

/-- A ping that is answered while the client waits, and a second one. -/
def exchange : List Event :=
  [.ping (.sent 56), .server (.deliver 0) (fun _ => .sent 16), .wait (.deliver 0), .ping (.sent 56)]

theorem smallDescriptors_oneAddress : UdpSocket.SmallDescriptors oneAddress := by
  intro q result hresult rp hmem fd hfd
  obtain rfl := Except.ok.inj hresult
  obtain rfl := List.mem_singleton.mp hmem
  obtain rfl := Option.some.inj hfd
  decide

theorem pingPong_causal_exchange : ∃ d, Demo.run someTexts ⟨AF_INET, [1]⟩ ⟨AF_INET, [2]⟩
      oneAddress oneAddress exchange = .ok d ∧
    (∀ l ∈ d.server.lines, ∃ k, l = .received k ⟨AF_INET, [2]⟩ ∧
      ClientLine.sent k true ∈ d.client.lines) ∧
    (∀ address args, ClientLine.received address args ∈ d.client.lines → ∃ k,
      address = pongPath ∧ args = [.int32 (k + 1)] ∧
      ServerLine.received k ⟨AF_INET, [2]⟩ ∈ d.server.lines) ∧
    d.client.lines = [.sent 1 true, .received pongPath [.int32 2], .sent 2 true] := by
  obtain ⟨d, hrun, hserver, hclient⟩ := pingPong_causal someTexts ⟨AF_INET, [1]⟩ ⟨AF_INET, [2]⟩
    smallDescriptors_oneAddress smallDescriptors_oneAddress exchange (by decide)
  have hlines : (Demo.run someTexts ⟨AF_INET, [1]⟩ ⟨AF_INET, [2]⟩ oneAddress oneAddress
      exchange).map (fun d => d.client.lines) =
        .ok [.sent 1 true, .received pongPath [.int32 2], .sent 2 true] := by
    decide +kernel
  rw [hrun] at hlines
  exact ⟨d, hrun, hserver, hclient, Except.ok.inj hlines⟩

end Moodpd.PingPong
