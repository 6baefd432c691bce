import Moodpd.Memory
import Moodpd.HexText

/-!
# The socket of oscpkt

`UdpSocket` owns at most one descriptor of the system. What the system answers to the calls
that a method makes is given to the method. A call on a descriptor that is not open is a
fault.
-/
namespace Moodpd.Oscpkt
open Memory HexText

def AF_UNSPEC : UInt16 := 0
def AF_INET : UInt16 := 2
def AF_INET6 : UInt16 := 10

/-- The family of an address and the bytes that follow it. -/
structure SockAddr where
  family : UInt16
  data : List UInt8
  deriving DecidableEq, Repr

namespace SockAddr

/-- `sizeof addr_`, the size of a `sockaddr_storage`. -/
def maxLen : ℕ := 128

def actualLen (addr : SockAddr) : ℕ :=
  if addr.family = AF_UNSPEC then 0
  else if addr.family = AF_INET then 16
  else if addr.family = AF_INET6 then 28
  else maxLen

def unspec : SockAddr := ⟨AF_UNSPEC, []⟩

def empty (addr : SockAddr) : Bool := addr.family = AF_UNSPEC

end SockAddr

inductive SocketFault
  | notOpen (fd : ℕ)
  | beyondSet (fd : ℕ)
  | assertFailed
  deriving DecidableEq, Repr

/-- The texts of the system's errors. None is empty. -/
structure ErrorTexts where
  gaiStrerror : ℤ → List UInt8
  strerror : ℤ → List UInt8
  gaiStrerror_ne_nil : ∀ err, gaiStrerror err ≠ []
  strerror_ne_nil : ∀ errno, strerror errno ≠ []

/-- `struct addrinfo`, with what the system answers when the address is tried: the descriptor
of a socket, whether it can be bound or connected, and the name of a bound socket. -/
structure AddrInfo where
  addr : SockAddr
  addrlen : ℕ
  socket : Option ℕ
  attached : Bool
  sockname : Option SockAddr
  fits : addrlen ≤ SockAddr.maxLen

/-- The arguments of `getaddrinfo`. -/
structure AddrQuery where
  node : Option (List UInt8)
  service : Option (List UInt8)
  family : UInt16
  passive : Bool

/-- `getaddrinfo`. -/
abbrev Resolver := AddrQuery → Except ℤ (List AddrInfo)

def EINTR : ℤ := 4
def EAGAIN : ℤ := 11
def EWOULDBLOCK : ℤ := EAGAIN
def ECONNRESET : ℤ := 104
def ECONNREFUSED : ℤ := 111

inductive RecvResult
  | received (data : List UInt8) (origin : SockAddr)
  | failed (errno : ℤ)

/-- A datagram has less than 2^16 bytes. -/
inductive SendResult
  | sent (bytes : UInt16)
  | failed (errno : ℤ)

/-- `sent` after the loop around the call. The `continue` after `EINTR` ends the loop, so
nothing is sent again. -/
def SendResult.value : SendResult → ℤ
  | .sent bytes => bytes.toNat
  | .failed errno => if errno = EINTR then 0 else -1

/-- A call of `sendto`, or of `send` without an address, and its result. -/
structure SendCall where
  addr : Option (SockAddr × ℕ)
  data : List UInt8
  result : SendResult

/-- The errors of `recvfrom` after which the socket stays open. -/
def Passing (errno : ℤ) : Prop :=
  errno = EAGAIN ∨ errno = EINTR ∨ errno = EWOULDBLOCK ∨ errno = ECONNRESET ∨ errno = ECONNREFUSED

instance : DecidablePred Passing := fun _ => inferInstanceAs (Decidable (_ ∨ _))

/-- `FD_SETSIZE`. -/
def fdSetSize : ℕ := 1024

inductive SocketOptions
  | unspec
  | forceIpv4
  | forceIpv6
  deriving DecidableEq, Repr

def SocketOptions.family : SocketOptions → UInt16
  | .forceIpv4 => AF_INET
  | .forceIpv6 => AF_INET6
  | .unspec => AF_UNSPEC

/-- A handle of -1 is `none`. The descriptors that are open and the calls that sent data are
kept by the system. -/
structure UdpSocket where
  errorMessage : List UInt8
  handle : Option ℕ
  localAddr : SockAddr
  remoteAddr : SockAddr
  buffer : List UInt8
  fds : List ℕ
  sends : List SendCall

namespace UdpSocket

def new : UdpSocket := ⟨[], none, .unspec, .unspec, [], [], []⟩

def isOk (s : UdpSocket) : Bool := s.errorMessage.isEmpty

def isBound (s : UdpSocket) : Bool := !s.localAddr.empty

def setErr (msg : List UInt8) (s : UdpSocket) : UdpSocket :=
  if s.errorMessage = [] then { s with errorMessage := msg } else s

def notOpened : List UInt8 := ascii "not opened.."

/-- A call on a descriptor. -/
def use (s : UdpSocket) (fd : ℕ) : Except SocketFault Unit :=
  if fd ∈ s.fds then .ok () else .error (.notOpen fd)

def close (s : UdpSocket) : Except SocketFault UdpSocket :=
  match s.handle with
  | none => .ok s
  | some fd => do
    s.use fd
    .ok { s with handle := none, fds := s.fds.erase fd }

/-- `socket()`, whose answer becomes the handle. -/
def socket (fd : Option ℕ) (s : UdpSocket) : UdpSocket :=
  { s with handle := fd, fds := fd.toList ++ s.fds }

/-- The loop over the addresses, and whether it has left at one of them. -/
def openLoop (binding : Bool) : List AddrInfo → UdpSocket → Except SocketFault (UdpSocket × Bool)
  | [], s => .ok (s, false)
  | rp :: rest, s =>
    match s.handle with
    | some _ => .ok (s, true)
    | none =>
      let s := s.socket rp.socket
      match rp.socket with
      | none => openLoop binding rest s
      | some fd => do
        s.use fd
        if !rp.attached then
          let s ← s.close
          openLoop binding rest s
        else if binding then .ok ({ s with localAddr := rp.sockname.getD s.localAddr }, true)
        else if rp.addrlen ≤ SockAddr.maxLen then .ok ({ s with remoteAddr := rp.addr }, true)
        else .error .assertFailed

/-- `c_str()` as the system reads it. -/
def cstr (s : List UInt8) : List UInt8 := s.takeWhile (· ≠ 0)

def query (hostname port : List UInt8) (options : SocketOptions) : AddrQuery where
  node := if hostname = [] then none else some (cstr hostname)
  service := if port = [] then none else some (cstr port)
  family := options.family
  passive := hostname = []

def openFailed (binding : Bool) : List UInt8 :=
  if binding then ascii "bind failed" else ascii "connect failed"

def openSocket (texts : ErrorTexts) (resolver : Resolver) (hostname port : List UInt8)
    (options : SocketOptions) (s : UdpSocket) : Except SocketFault (UdpSocket × Bool) := do
  let binding : Bool := hostname = []
  let s ← s.close
  let s := { s with errorMessage := [] }
  match resolver (query hostname port options) with
  | .error err => .ok (s.setErr (texts.gaiStrerror err), false)
  | .ok result =>
    let (s, rp) ← openLoop binding result s
    if rp then .ok (s, true)
    else
      let s := s.setErr (openFailed binding)
      if s.handle = none then .ok (s, false) else .error .assertFailed

/-- `snprintf` with `"%d"`. -/
def portString (port : ℤ) : List UInt8 := ascii (toString port)

def bindTo (texts : ErrorTexts) (resolver : Resolver) (port : ℤ) (options : SocketOptions)
    (s : UdpSocket) : Except SocketFault (UdpSocket × Bool) :=
  s.openSocket texts resolver [] (portString port) options

def connectTo (texts : ErrorTexts) (resolver : Resolver) (host port : List UInt8)
    (options : SocketOptions) (s : UdpSocket) : Except SocketFault (UdpSocket × Bool) :=
  s.openSocket texts resolver host port options

/-- `buffer.resize(n)`. -/
def resize (buffer : List UInt8) (n : ℕ) : List UInt8 :=
  buffer.take n ++ List.replicate (n - buffer.length) 0

/-- `recvfrom` and what follows it. -/
def readPacket (texts : ErrorTexts) (recvfrom : RecvResult) (fd : ℕ) (s : UdpSocket) :
    Except SocketFault (UdpSocket × Bool) := do
  s.use fd
  match recvfrom with
  | .failed errno =>
    let s := if Passing errno then s else s.setErr (texts.strerror errno)
    let s ← (if s.isOk then .ok s else s.close)
    .ok (s, false)
  | .received data origin =>
    let nread := min data.length s.buffer.length
    let s := { s with
      buffer := data.take nread ++ s.buffer.drop nread
      remoteAddr := origin }
    -- a datagram that was cut off has exactly the size of the buffer
    if nread > s.buffer.length then .ok ({ s with buffer := [] }, true)
    else .ok ({ s with buffer := resize s.buffer nread }, true)

def receiveNextPacket (texts : ErrorTexts) (timeoutMs select : ℤ) (recvfrom : RecvResult)
    (s : UdpSocket) : Except SocketFault (UdpSocket × Bool) :=
  match s.isOk, s.handle with
  | true, some fd =>
    let s := { s with buffer := resize s.buffer (1024 * 128) }
    if timeoutMs ≥ 0 then
      if fd < fdSetSize then do
        s.use fd
        if select ≤ 0 then .ok (s, false) else s.readPacket texts recvfrom fd
      else .error (.beyondSet fd)
    else s.readPacket texts recvfrom fd
  | _, _ => .ok (s.setErr notOpened, false)

/-- The address that is given to the system. A socket that is not bound has none to give. -/
def dest (s : UdpSocket) (addr : SockAddr) : Option (SockAddr × ℕ) :=
  if s.isBound then some (addr, addr.actualLen) else none

def sendPacketTo (data : List UInt8) (addr : SockAddr) (res : SendResult) (s : UdpSocket) :
    Except SocketFault (UdpSocket × Bool) :=
  match s.isOk, s.handle with
  | true, some fd =>
    if data = [] then .ok (s, false)
    else do
      s.use fd
      -- (size_t) -1 is the size of no buffer
      .ok ({ s with sends := s.sends ++ [⟨s.dest addr, data, res⟩] }, res.value = data.length)
  | _, _ => .ok (s.setErr notOpened, false)

def sendPacket (data : List UInt8) (res : SendResult) (s : UdpSocket) :
    Except SocketFault (UdpSocket × Bool) :=
  s.sendPacketTo data s.remoteAddr res

/-- What was handed to the system, with its address. -/
def datagrams (s : UdpSocket) : List (Option (SockAddr × ℕ) × List UInt8) :=
  s.sends.map fun c => (c.addr, c.data)

end UdpSocket

/-- A call of a method. -/
inductive SocketCall
  | bindTo (resolver : Resolver) (port : ℤ) (options : SocketOptions)
  | connectTo (resolver : Resolver) (host port : List UInt8) (options : SocketOptions)
  | close
  | receiveNextPacket (timeoutMs select : ℤ) (recvfrom : RecvResult)
  | sendPacket (data : List UInt8) (res : SendResult)
  | sendPacketTo (data : List UInt8) (addr : SockAddr) (res : SendResult)

namespace UdpSocket

def call (texts : ErrorTexts) (s : UdpSocket) : SocketCall → Except SocketFault UdpSocket
  | .bindTo resolver port options => Prod.fst <$> s.bindTo texts resolver port options
  | .connectTo resolver host port options => Prod.fst <$> s.connectTo texts resolver host port options
  | .close => s.close
  | .receiveNextPacket timeoutMs select recvfrom =>
    Prod.fst <$> s.receiveNextPacket texts timeoutMs select recvfrom
  | .sendPacket data res => Prod.fst <$> s.sendPacket data res
  | .sendPacketTo data addr res => Prod.fst <$> s.sendPacketTo data addr res

def calls (texts : ErrorTexts) (s : UdpSocket) (cs : List SocketCall) :
    Except SocketFault UdpSocket :=
  cs.foldlM (fun s c => s.call texts c) s

end UdpSocket

/-- A socket is not in use, has a descriptor, or has failed. -/
inductive SocketStatus
  | idle
  | opened (fd : ℕ)
  | failed (msg : List UInt8)
  deriving DecidableEq, Repr

namespace SocketStatus

/-- The descriptor that belongs to a socket. -/
def handle : SocketStatus → Option ℕ
  | .opened fd => some fd
  | _ => none

/-- An address is used where a socket is given for it that can be bound or connected. -/
def usable (rp : AddrInfo) : Option ℕ := if rp.attached then rp.socket else none

/-- The first address that can be used decides. -/
def ofResult (texts : ErrorTexts) (binding : Bool) : Except ℤ (List AddrInfo) → SocketStatus
  | .error err => .failed (texts.gaiStrerror err)
  | .ok result =>
    match result.findSome? usable with
    | some fd => .opened fd
    | none => .failed (UdpSocket.openFailed binding)

def next (texts : ErrorTexts) : SocketStatus → SocketCall → Except SocketFault SocketStatus
  | _, .bindTo resolver port options =>
    .ok (ofResult texts true (resolver (UdpSocket.query [] (UdpSocket.portString port) options)))
  | _, .connectTo resolver host port options =>
    .ok (ofResult texts (host = []) (resolver (UdpSocket.query host port options)))
  | .opened _, .close => .ok .idle
  | .opened fd, .receiveNextPacket timeoutMs select recvfrom =>
    if timeoutMs ≥ 0 ∧ fdSetSize ≤ fd then .error (.beyondSet fd)
    else if timeoutMs ≥ 0 ∧ select ≤ 0 then .ok (.opened fd)
    else match recvfrom with
      | .received _ _ => .ok (.opened fd)
      | .failed errno =>
        .ok (if Passing errno then .opened fd else .failed (texts.strerror errno))
  | .idle, .receiveNextPacket _ _ _ => .ok (.failed UdpSocket.notOpened)
  | .idle, .sendPacket _ _ => .ok (.failed UdpSocket.notOpened)
  | .idle, .sendPacketTo _ _ _ => .ok (.failed UdpSocket.notOpened)
  | st, _ => .ok st

end SocketStatus

namespace UdpSocket

def status (s : UdpSocket) : SocketStatus :=
  if s.errorMessage = [] then
    match s.handle with
    | none => .idle
    | some fd => .opened fd
  else .failed s.errorMessage

/-- The handle is the only open descriptor, and a socket that has failed has none. -/
structure Owns (s : UdpSocket) : Prop where
  fds : s.fds = s.handle.toList
  failed : s.errorMessage ≠ [] → s.handle = none

/-- The outcome of a method, with what the status says it is. -/
inductive Follows : Except SocketFault UdpSocket → Except SocketFault SocketStatus → Prop
  | ok {s : UdpSocket} (h : s.Owns) : Follows (.ok s) (.ok s.status)
  | error (e : SocketFault) : Follows (.error e) (.error e)

theorem Follows.of_status {s : UdpSocket} {st : SocketStatus} (h : s.Owns) (hst : s.status = st) :
    Follows (.ok s) (.ok st) := hst ▸ .ok h

structure Opened (s : UdpSocket) (fd : ℕ) : Prop where
  errorMessage : s.errorMessage = []
  handle : s.handle = some fd
  fds : s.fds = [fd]

structure Closed (s : UdpSocket) : Prop where
  handle : s.handle = none
  fds : s.fds = []

theorem owns_new : new.Owns := ⟨rfl, fun h => absurd rfl h⟩

section Owns
variable {s : UdpSocket} {fd : ℕ}

theorem Opened.owns (h : s.Opened fd) : s.Owns :=
  ⟨by rw [h.fds, h.handle]; rfl, fun herr => absurd h.errorMessage herr⟩

theorem Closed.owns (h : s.Closed) : s.Owns :=
  ⟨by rw [h.fds, h.handle]; rfl, fun _ => h.handle⟩

theorem Owns.cases (h : s.Owns) : s.Closed ∨ ∃ fd, s.Opened fd := by
  have hfds := h.fds
  cases hfd : s.handle with
  | none => exact .inl ⟨hfd, by rw [hfds, hfd]; rfl⟩
  | some fd =>
    refine .inr ⟨fd, ?_, hfd, by rw [hfds, hfd]; rfl⟩
    by_contra herr
    cases hfd.symm.trans (h.failed herr)

theorem Opened.status (h : s.Opened fd) : s.status = .opened fd := by
  unfold UdpSocket.status
  rw [if_pos h.errorMessage, h.handle]

theorem Closed.status (h : s.Closed) :
    s.status = if s.errorMessage = [] then .idle else .failed s.errorMessage := by
  unfold UdpSocket.status
  rw [h.handle]

theorem Opened.isOk (h : s.Opened fd) : s.isOk = true := by
  rw [UdpSocket.isOk, h.errorMessage]
  rfl

theorem Opened.follows (h : s.Opened fd) : Follows (.ok s) (.ok (.opened fd)) :=
  .of_status h.owns h.status

theorem Owns.fds_status (h : s.Owns) : s.fds = s.status.handle.toList := by
  rcases h.cases with hclosed | ⟨fd, hopened⟩
  · rw [hclosed.status, hclosed.fds]
    split_ifs <;> rfl
  · rw [hopened.status, hopened.fds]
    rfl

theorem Owns.handle_status (h : s.Owns) : s.handle = s.status.handle := by
  rcases h.cases with hclosed | ⟨fd, hopened⟩
  · rw [hclosed.status, hclosed.handle]
    split_ifs <;> rfl
  · rw [hopened.status, hopened.handle]
    rfl

end Owns

section Call
variable (texts : ErrorTexts) {s : UdpSocket} {fd : ℕ}

theorem use_of_fds (h : s.fds = [fd]) : s.use fd = .ok () := by
  unfold use
  rw [h, if_pos (List.mem_singleton.mpr rfl)]

theorem close_fds (hfd : s.handle = some fd) (hfds : s.fds = [fd]) :
    s.close = .ok { s with handle := none, fds := [] } := by
  unfold close
  rw [hfd]
  simp only [use_of_fds hfds, hfds, List.erase_cons_head]
  rfl

theorem Owns.close (h : s.Owns) :
    ∃ t, s.close = .ok t ∧ t.Closed ∧ t.errorMessage = s.errorMessage := by
  rcases h.cases with hclosed | ⟨fd, hopened⟩
  · exact ⟨s, by rw [UdpSocket.close, hclosed.handle], hclosed, rfl⟩
  · exact ⟨_, close_fds hopened.handle hopened.fds, ⟨rfl, rfl⟩, rfl⟩

/-- The socket after the loop over the addresses, of which one could be used or none. -/
def Tried (fd : Option ℕ) (r : Except SocketFault (UdpSocket × Bool)) : Prop :=
  ∃ t, r = .ok (t, fd.isSome) ∧ t.errorMessage = [] ∧ t.handle = fd ∧ t.fds = fd.toList

theorem openLoop_tried (binding : Bool) (result : List AddrInfo) (h : s.Closed)
    (herr : s.errorMessage = []) :
    Tried (result.findSome? SocketStatus.usable) (openLoop binding result s) := by
  induction result generalizing s with
  | nil => exact ⟨s, rfl, herr, h.handle, h.fds⟩
  | cons rp rest ih =>
    unfold openLoop
    rw [h.handle, List.findSome?_cons, SocketStatus.usable]
    simp only
    cases hsocket : rp.socket with
    | none =>
      rw [ite_self]
      exact ih ⟨rfl, h.fds⟩ herr
    | some fd =>
      have hfds : (s.socket (some fd)).fds = [fd] := congrArg (fd :: ·) h.fds
      simp only [use_of_fds hfds]
      cases hattached : rp.attached with
      | false =>
        -- the descriptor is closed before the next address is tried
        simp only [close_fds (show (s.socket (some fd)).handle = some fd from rfl) hfds]
        exact ih ⟨rfl, rfl⟩ herr
      | true =>
        cases binding with
        | true => exact ⟨_, rfl, herr, rfl, hfds⟩
        | false =>
          refine ⟨{ s.socket (some fd) with remoteAddr := rp.addr }, ?_, herr, rfl, hfds⟩
          simp only [Bool.not_true, Bool.false_eq_true, if_false, if_pos rp.fits]
          rfl

/-- The first error is kept, and it is the status. -/
theorem Closed.setErr (h : s.Closed) {msg : List UInt8} (hmsg : msg ≠ []) :
    Follows (.ok (s.setErr msg))
      (.ok (if s.errorMessage = [] then .failed msg else .failed s.errorMessage)) := by
  unfold UdpSocket.setErr
  by_cases herr : s.errorMessage = []
  · rw [if_pos herr, if_pos herr]
    exact .of_status ⟨h.owns.fds, fun _ => h.handle⟩ (if_neg hmsg)
  · rw [if_neg herr, if_neg herr]
    exact .of_status h.owns (if_neg herr)

theorem openFailed_ne_nil (binding : Bool) : openFailed binding ≠ [] := by
  revert binding
  decide

theorem notOpened_ne_nil : notOpened ≠ [] := by decide

theorem Owns.openSocket (h : s.Owns) (resolver : Resolver) (hostname port : List UInt8)
    (options : SocketOptions) :
    Follows (Prod.fst <$> s.openSocket texts resolver hostname port options)
      (.ok (.ofResult texts (hostname = []) (resolver (query hostname port options)))) := by
  obtain ⟨t, ht, hclosed, -⟩ := h.close
  unfold UdpSocket.openSocket
  rw [ht]
  have hcleared : ({ t with errorMessage := [] } : UdpSocket).Closed := ⟨hclosed.handle, hclosed.fds⟩
  cases hresult : resolver (query hostname port options) with
  | error err =>
    have hfollows := hcleared.setErr (texts.gaiStrerror_ne_nil err)
    rw [if_pos rfl] at hfollows
    exact hfollows
  | ok result =>
    obtain ⟨u, hu, herr, hfd, hfds⟩ := openLoop_tried (decide (hostname = [])) result hcleared rfl
    simp only [SocketStatus.ofResult]
    cases hfirst : result.findSome? SocketStatus.usable with
    | some fd =>
      rw [hfirst] at hu hfd hfds
      have hstep := Opened.follows ⟨herr, hfd, hfds⟩
      simp only [ok_bind, hu]
      exact hstep
    | none =>
      rw [hfirst] at hu hfd hfds
      have hfollows := (Closed.mk hfd hfds).setErr (openFailed_ne_nil (decide (hostname = [])))
      rw [if_pos herr] at hfollows
      have hnone : (u.setErr (openFailed (decide (hostname = [])))).handle = none := by
        unfold UdpSocket.setErr
        rw [if_pos herr]
        exact hfd
      simp only [ok_bind, hu, Option.isSome_none, Bool.false_eq_true, if_false, if_pos hnone]
      exact hfollows

theorem resize_take (data rest : List UInt8) {n : ℕ} (h : n ≤ data.length) :
    resize (data.take n ++ rest) n = data.take n := by
  have hlen : (data.take n).length = n := List.length_take_of_le h
  have hle : n ≤ (data.take n ++ rest).length := by
    rw [List.length_append, hlen]
    omega
  unfold resize
  rw [Nat.sub_eq_zero_of_le hle, List.replicate_zero, List.append_nil]
  exact List.take_left' hlen

/-- A datagram is cut off at the size of the buffer. An error that does not pass closes the
socket. -/
theorem Opened.readPacket_eq (h : s.Opened fd) (recvfrom : RecvResult) :
    s.readPacket texts recvfrom fd = .ok (match recvfrom with
      | .received data origin =>
        ({ s with buffer := data.take s.buffer.length, remoteAddr := origin }, true)
      | .failed errno => (if Passing errno then s else
          { s with errorMessage := texts.strerror errno, handle := none, fds := [] }, false)) := by
  unfold UdpSocket.readPacket
  rw [use_of_fds h.fds]
  cases recvfrom with
  | received data origin =>
    have hmin : data.take (min data.length s.buffer.length) = data.take s.buffer.length := by
      rw [min_comm, ← List.take_take, List.take_length]
    simp only [ok_bind]
    rw [if_neg (by simp), resize_take data _ (Nat.min_le_left _ _), hmin]
  | failed errno =>
    simp only [ok_bind]
    by_cases hpassing : Passing errno
    · rw [if_pos hpassing]
      simp only [h.isOk, if_true, ok_bind, if_pos hpassing]
    · have hset : s.setErr (texts.strerror errno) =
          { s with errorMessage := texts.strerror errno } := if_pos h.errorMessage
      have hfailed : ({ s with errorMessage := texts.strerror errno } : UdpSocket).isOk = false :=
        List.isEmpty_eq_false_iff.mpr (texts.strerror_ne_nil errno)
      have hclose : ({ s with errorMessage := texts.strerror errno } : UdpSocket).close =
          .ok { s with errorMessage := texts.strerror errno, handle := none, fds := [] } :=
        close_fds h.handle h.fds
      rw [if_neg hpassing, if_neg hpassing, hset]
      simp only [hfailed, Bool.false_eq_true, if_false, hclose, ok_bind]

theorem resize_length (buffer : List UInt8) (n : ℕ) : (resize buffer n).length = n := by
  unfold resize
  rw [List.length_append, List.length_take, List.length_replicate]
  omega

/-- What `receiveNextPacket` does with an open socket when it does not wait in vain. -/
def received (s : UdpSocket) : RecvResult → UdpSocket × Bool
  | .received data origin =>
    ({ s with buffer := data.take (1024 * 128), remoteAddr := origin }, true)
  | .failed errno =>
    if Passing errno then ({ s with buffer := resize s.buffer (1024 * 128) }, false)
    else ({ s with
      errorMessage := texts.strerror errno
      handle := none
      buffer := resize s.buffer (1024 * 128)
      fds := [] }, false)

theorem Opened.receiveNextPacket_eq (h : s.Opened fd) {timeoutMs : ℤ}
    (hfd : ¬ (timeoutMs ≥ 0 ∧ fdSetSize ≤ fd)) (select : ℤ) (recvfrom : RecvResult) :
    s.receiveNextPacket texts timeoutMs select recvfrom =
      .ok (if timeoutMs ≥ 0 ∧ select ≤ 0 then
        ({ s with buffer := resize s.buffer (1024 * 128) }, false) else s.received texts recvfrom) := by
  have hresized : Opened { s with buffer := resize s.buffer (1024 * 128) } fd :=
    ⟨h.errorMessage, h.handle, h.fds⟩
  have hread : UdpSocket.readPacket texts recvfrom fd
      { s with buffer := resize s.buffer (1024 * 128) } = .ok (s.received texts recvfrom) := by
    rw [hresized.readPacket_eq texts recvfrom]
    cases recvfrom with
    | received data origin =>
      simp only [resize_length]
      rfl
    | failed errno => by_cases hpassing : Passing errno <;> simp [received, hpassing]
  have hsize : timeoutMs ≥ 0 → fd < fdSetSize := fun ht => Nat.not_le.mp fun hle => hfd ⟨ht, hle⟩
  unfold UdpSocket.receiveNextPacket
  split
  · rename_i fd' _ hhandle
    obtain rfl := Option.some.inj (h.handle.symm.trans hhandle)
    simp only
    by_cases htimeout : timeoutMs ≥ 0
    · rw [if_pos htimeout, if_pos (hsize htimeout), use_of_fds hresized.fds, ok_bind, hread]
      by_cases hselect : select ≤ 0
      · rw [if_pos hselect, if_pos ⟨htimeout, hselect⟩]
      · rw [if_neg hselect, if_neg fun hb => hselect hb.2]
    · rw [if_neg htimeout, hread, if_neg fun hb => htimeout hb.1]
  · rename_i hnone
    exact absurd h.handle (hnone fd h.isOk)

theorem Opened.receiveNextPacket (h : s.Opened fd) (timeoutMs select : ℤ) (recvfrom : RecvResult) :
    Follows (Prod.fst <$> s.receiveNextPacket texts timeoutMs select recvfrom)
      (SocketStatus.next texts (.opened fd) (.receiveNextPacket timeoutMs select recvfrom)) := by
  have hbuffer : ∀ buffer addr, Opened { s with buffer := buffer, remoteAddr := addr } fd :=
    fun _ _ => ⟨h.errorMessage, h.handle, h.fds⟩
  unfold SocketStatus.next
  simp only
  by_cases hfd : timeoutMs ≥ 0 ∧ fdSetSize ≤ fd
  · have hbeyond : s.receiveNextPacket texts timeoutMs select recvfrom = .error (.beyondSet fd) := by
      unfold UdpSocket.receiveNextPacket
      rw [h.isOk, h.handle]
      simp only
      rw [if_pos hfd.1, if_neg (Nat.not_lt.mpr hfd.2)]
    rw [if_pos hfd, hbeyond]
    exact .error _
  · rw [if_neg hfd, h.receiveNextPacket_eq texts hfd]
    by_cases hwaits : timeoutMs ≥ 0 ∧ select ≤ 0
    · rw [if_pos hwaits, if_pos hwaits]
      exact (hbuffer _ _).follows
    · rw [if_neg hwaits, if_neg hwaits]
      cases recvfrom with
      | received data origin => exact (hbuffer _ _).follows
      | failed errno =>
        unfold received
        by_cases hpassing : Passing errno
        · simp only [if_pos hpassing]
          exact (hbuffer _ _).follows
        · simp only [if_neg hpassing]
          exact .of_status ⟨rfl, fun _ => rfl⟩ (if_neg (texts.strerror_ne_nil errno))

theorem Opened.sendPacketTo_eq (h : s.Opened fd) {data : List UInt8} (hdata : data ≠ [])
    (addr : SockAddr) (res : SendResult) : s.sendPacketTo data addr res =
      .ok ({ s with sends := s.sends ++ [⟨s.dest addr, data, res⟩] }, res.value = data.length) := by
  unfold UdpSocket.sendPacketTo
  rw [h.isOk, h.handle]
  simp only
  rw [if_neg hdata, use_of_fds h.fds, ok_bind]

theorem Opened.sendPacketTo_nil (h : s.Opened fd) (addr : SockAddr) (res : SendResult) :
    s.sendPacketTo [] addr res = .ok (s, false) := by
  unfold UdpSocket.sendPacketTo
  rw [h.isOk, h.handle]
  rfl

theorem Opened.sendPacketTo (h : s.Opened fd) (data : List UInt8) (addr : SockAddr)
    (res : SendResult) : Follows (Prod.fst <$> s.sendPacketTo data addr res) (.ok (.opened fd)) := by
  by_cases hdata : data = []
  · subst hdata
    rw [h.sendPacketTo_nil]
    exact h.follows
  · rw [h.sendPacketTo_eq hdata]
    exact Opened.follows ⟨h.errorMessage, h.handle, h.fds⟩

/-- Where a method wants an open socket and has none. -/
theorem Closed.notOpened (h : s.Closed) : Follows (.ok (s.setErr notOpened))
    (.ok (if s.errorMessage = [] then .failed notOpened else .failed s.errorMessage)) :=
  h.setErr notOpened_ne_nil

theorem Closed.receiveNextPacket (h : s.Closed) (timeoutMs select : ℤ) (recvfrom : RecvResult) :
    s.receiveNextPacket texts timeoutMs select recvfrom = .ok (s.setErr UdpSocket.notOpened, false) := by
  unfold UdpSocket.receiveNextPacket
  rw [h.handle]
  cases s.isOk <;> rfl

theorem Closed.sendPacketTo (h : s.Closed) (data : List UInt8) (addr : SockAddr)
    (res : SendResult) :
    s.sendPacketTo data addr res = .ok (s.setErr UdpSocket.notOpened, false) := by
  unfold UdpSocket.sendPacketTo
  rw [h.handle]
  cases s.isOk <;> rfl

/-- Every method does with the descriptor and the error what the status says. -/
theorem Owns.call (h : s.Owns) (c : SocketCall) :
    Follows (s.call texts c) (s.status.next texts c) := by
  cases c with
  | bindTo resolver port options => exact h.openSocket texts resolver [] (portString port) options
  | connectTo resolver host port options => exact h.openSocket texts resolver host port options
  | close =>
    rcases h.cases with hclosed | ⟨fd, hopened⟩
    · have hstay : s.status.next texts .close = .ok s.status := by
        rw [hclosed.status]
        split_ifs <;> rfl
      rw [hstay, UdpSocket.call, UdpSocket.close, hclosed.handle]
      exact .ok h
    · rw [hopened.status, UdpSocket.call, close_fds hopened.handle hopened.fds]
      have hclosed : Closed { s with handle := none, fds := [] } := ⟨rfl, rfl⟩
      refine .of_status hclosed.owns ?_
      rw [hclosed.status, if_pos hopened.errorMessage]
  | receiveNextPacket timeoutMs select recvfrom =>
    rcases h.cases with hclosed | ⟨fd, hopened⟩
    · have hfollows := hclosed.notOpened
      rw [UdpSocket.call, hclosed.receiveNextPacket, hclosed.status]
      split_ifs at hfollows ⊢ <;> exact hfollows
    · rw [hopened.status]
      exact hopened.receiveNextPacket texts timeoutMs select recvfrom
  | sendPacket data res =>
    rcases h.cases with hclosed | ⟨fd, hopened⟩
    · have hfollows := hclosed.notOpened
      rw [UdpSocket.call, UdpSocket.sendPacket, hclosed.sendPacketTo, hclosed.status]
      split_ifs at hfollows ⊢ <;> exact hfollows
    · rw [hopened.status]
      exact hopened.sendPacketTo data s.remoteAddr res
  | sendPacketTo data addr res =>
    rcases h.cases with hclosed | ⟨fd, hopened⟩
    · have hfollows := hclosed.notOpened
      rw [UdpSocket.call, hclosed.sendPacketTo, hclosed.status]
      split_ifs at hfollows ⊢ <;> exact hfollows
    · rw [hopened.status]
      exact hopened.sendPacketTo data addr res

end Call

theorem Owns.calls (texts : ErrorTexts) (cs : List SocketCall) {s : UdpSocket} (h : s.Owns) :
    Follows (s.calls texts cs) (cs.foldlM (SocketStatus.next texts) s.status) := by
  unfold UdpSocket.calls
  induction cs generalizing s with
  | nil => exact .ok h
  | cons c cs ih =>
    have hstep := h.call texts c
    rw [List.foldlM_cons, List.foldlM_cons]
    generalize s.call texts c = r at hstep
    generalize s.status.next texts c = r' at hstep
    cases hstep with
    | ok ht => exact ih ht
    | error e => exact .error e

/-- After any calls the socket is in the status that follows from them alone, with the
descriptor of this status as the only open one. A descriptor is used and closed only while it
is open. The one fault is that of a descriptor too large for `select`. -/
theorem udpSocket_calls (texts : ErrorTexts) (cs : List SocketCall) :
    (fun s => (s.status, s.fds)) <$> new.calls texts cs =
      (fun st => (st, st.handle.toList)) <$> cs.foldlM (SocketStatus.next texts) .idle := by
  have hfollows := owns_new.calls texts cs
  rw [show new.status = .idle from rfl] at hfollows
  generalize new.calls texts cs = r at hfollows ⊢
  generalize cs.foldlM (SocketStatus.next texts) .idle = r' at hfollows ⊢
  cases hfollows with
  | ok h => exact congrArg (fun fds => Except.ok (_, fds)) h.fds_status
  | error e => rfl

/-- A socket that can be waited for with `select`. -/
structure Ready (s : UdpSocket) : Prop where
  owns : s.Owns
  small : ∀ fd ∈ s.handle, fd < fdSetSize

section Data
variable (texts : ErrorTexts) {s : UdpSocket}

theorem Opened.ready {fd : ℕ} (h : s.Opened fd) (hfd : fd < fdSetSize) : s.Ready where
  owns := h.owns
  small fd' hfd' := by
    obtain rfl := Option.some.inj (h.handle.symm.trans hfd')
    exact hfd

theorem Ready.cases (h : s.Ready) : s.Closed ∨ ∃ fd, s.Opened fd ∧ fd < fdSetSize := by
  rcases h.owns.cases with hclosed | ⟨fd, hopened⟩
  · exact .inl hclosed
  · exact .inr ⟨fd, hopened, h.small fd hopened.handle⟩

theorem Closed.ready (h : s.Closed) : s.Ready where
  owns := h.owns
  small fd hfd := by
    rw [h.handle] at hfd
    cases hfd

theorem Closed.setErr_ready (h : s.Closed) (msg : List UInt8) : (s.setErr msg).Ready := by
  unfold UdpSocket.setErr
  split_ifs with herr
  · exact Closed.ready ⟨h.handle, h.fds⟩
  · exact h.ready

theorem setErr_localAddr (msg : List UInt8) : (s.setErr msg).localAddr = s.localAddr := by
  unfold UdpSocket.setErr
  split_ifs <;> rfl

theorem setErr_sends (msg : List UInt8) : (s.setErr msg).sends = s.sends := by
  unfold UdpSocket.setErr
  split_ifs <;> rfl

/-- What a method that waits for a packet leaves, and what it has received. A datagram is cut
off at 128 KiB, and its origin becomes the remote address. -/
structure Receives (s : UdpSocket) (recvfrom : RecvResult) (t : UdpSocket) (got : Bool) :
    Prop where
  ready : t.Ready
  sends : t.sends = s.sends
  packet : got = true → ∃ data origin, recvfrom = .received data origin ∧
    t.buffer = data.take (1024 * 128) ∧ t.remoteAddr = origin

theorem Ready.receiveNextPacket (h : s.Ready) (timeoutMs select : ℤ) (recvfrom : RecvResult) :
    ∃ t got, s.receiveNextPacket texts timeoutMs select recvfrom = .ok (t, got) ∧
      s.Receives recvfrom t got := by
  rcases h.cases with hclosed | ⟨fd, hopened, hfd⟩
  · exact ⟨_, false, hclosed.receiveNextPacket texts timeoutMs select recvfrom,
      hclosed.setErr_ready notOpened, setErr_sends notOpened, nofun⟩
  · have hsmall : ¬ (timeoutMs ≥ 0 ∧ fdSetSize ≤ fd) := fun hb => Nat.not_le.mpr hfd hb.2
    have hbuffer : ∀ buffer addr, Ready { s with buffer := buffer, remoteAddr := addr } :=
      fun _ _ => Opened.ready ⟨hopened.errorMessage, hopened.handle, hopened.fds⟩ hfd
    rw [hopened.receiveNextPacket_eq texts hsmall]
    split_ifs
    · exact ⟨_, false, rfl, hbuffer _ _, rfl, nofun⟩
    · cases recvfrom with
      | received data origin =>
        exact ⟨_, true, rfl, hbuffer _ _, rfl, fun _ => ⟨data, origin, rfl, rfl, rfl⟩⟩
      | failed errno =>
        unfold received
        by_cases hpassing : Passing errno
        · simp only [if_pos hpassing]
          exact ⟨_, false, rfl, hbuffer _ _, rfl, nofun⟩
        · simp only [if_neg hpassing]
          exact ⟨_, false, rfl, ⟨⟨rfl, fun _ => rfl⟩, nofun⟩, rfl, nofun⟩

/-- What a sending method leaves: nothing is sent, or all the data in one call. -/
structure Sends (s : UdpSocket) (data : List UInt8) (addr : SockAddr) (res : SendResult)
    (t : UdpSocket) (ok : Bool) : Prop where
  ready : t.Ready
  remoteAddr : t.remoteAddr = s.remoteAddr
  sends : (t.sends = s.sends ∧ ok = false) ∨
    (t.sends = s.sends ++ [⟨s.dest addr, data, res⟩] ∧ ok = decide (res.value = data.length))

theorem setErr_remoteAddr (msg : List UInt8) : (s.setErr msg).remoteAddr = s.remoteAddr := by
  unfold UdpSocket.setErr
  split_ifs <;> rfl

theorem Ready.sendPacketTo (h : s.Ready) (data : List UInt8) (addr : SockAddr)
    (res : SendResult) : ∃ t ok, s.sendPacketTo data addr res = .ok (t, ok) ∧
      s.Sends data addr res t ok := by
  rcases h.cases with hclosed | ⟨fd, hopened, hfd⟩
  · exact ⟨_, false, hclosed.sendPacketTo data addr res, hclosed.setErr_ready notOpened,
      setErr_remoteAddr notOpened, .inl ⟨setErr_sends notOpened, rfl⟩⟩
  · by_cases hdata : data = []
    · subst hdata
      exact ⟨s, false, hopened.sendPacketTo_nil addr res, h, rfl, .inl ⟨rfl, rfl⟩⟩
    · refine ⟨_, _, hopened.sendPacketTo_eq hdata addr res, ?_, rfl, .inr ⟨rfl, rfl⟩⟩
      exact Opened.ready ⟨hopened.errorMessage, hopened.handle, hopened.fds⟩ hfd

/-- The addresses that a resolver finds have descriptors for `select`. -/
def SmallDescriptors (resolver : Resolver) : Prop :=
  ∀ q result, resolver q = .ok result → ∀ rp ∈ result, ∀ fd ∈ rp.socket, fd < fdSetSize

theorem handle_ofResult {resolver : Resolver} (hsmall : SmallDescriptors resolver)
    (binding : Bool) (q : AddrQuery) :
    ∀ fd ∈ (SocketStatus.ofResult texts binding (resolver q)).handle, fd < fdSetSize := by
  intro fd hfd
  unfold SocketStatus.ofResult at hfd
  cases hresult : resolver q with
  | error err =>
    rw [hresult] at hfd
    cases hfd
  | ok result =>
    rw [hresult] at hfd
    simp only at hfd
    cases hfirst : result.findSome? SocketStatus.usable with
    | none =>
      rw [hfirst] at hfd
      cases hfd
    | some fd' =>
      rw [hfirst] at hfd
      obtain rfl := Option.some.inj hfd
      obtain ⟨rp, hmem, husable⟩ := List.exists_of_findSome?_eq_some hfirst
      refine hsmall q result hresult rp hmem fd' ?_
      unfold SocketStatus.usable at husable
      split_ifs at husable
      exact husable

theorem Ready.openSocket (h : s.Ready) {resolver : Resolver} (hsmall : SmallDescriptors resolver)
    (hostname port : List UInt8) (options : SocketOptions) :
    ∃ t ok, s.openSocket texts resolver hostname port options = .ok (t, ok) ∧ t.Ready := by
  have hfollows := h.owns.openSocket texts resolver hostname port options
  have hstatus := handle_ofResult texts hsmall (decide (hostname = [])) (query hostname port options)
  generalize SocketStatus.ofResult texts (decide (hostname = []))
    (resolver (query hostname port options)) = st at hfollows hstatus
  cases hopen : s.openSocket texts resolver hostname port options with
  | error e =>
    rw [hopen] at hfollows
    cases hfollows
  | ok r =>
    obtain ⟨t, ok⟩ := r
    rw [hopen] at hfollows
    generalize hst : (Except.ok st : Except SocketFault SocketStatus) = st' at hfollows
    cases hfollows with
    | @ok _ howns =>
      refine ⟨t, ok, rfl, howns, ?_⟩
      rw [howns.handle_status, ← Except.ok.inj hst]
      exact hstatus

end Data

end UdpSocket

end Moodpd.Oscpkt
