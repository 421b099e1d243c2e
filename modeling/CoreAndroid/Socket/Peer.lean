import CoreAndroid.Socket.Address
import CoreAndroid.Socket.Run

/-! The calls that tell who the peer is: `ofc_socket_impl_accept` and
`ofc_socket_impl_recv_from`. The kernel copies the peer's address to a `struct sockaddr` on
the stack, as much of it as the length it is given allows. -/
namespace CoreAndroid.Socket
open Reading Buffer

def localSockaddr (stack : Nat → UInt8) : Buffer := ⟨sizeofSockaddr, fun i => .junk (stack i)⟩

/-- `ofc_memset` to zero. The kernel wrote none of these bytes. -/
def clear (b : Buffer) (n : Nat) : Buffer :=
  { b with cell := fun i => if i < n then .junk 0 else b.cell i }

/-- What a call does about the peer's address. -/
structure PeerTold where
  out : Option PeerOut -- what `ip` and `port` point to, unless a null pointer was written through
  passed : Option (Cell Nat) -- the length that the kernel was given, if it was called
  unset : Nat -- reads outside the buffer, of what the kernel did not write, or of an unset length

section Calls

def ofcSocketImplAcceptFrom (hSocket : Handle) (mem : SocketImpl) (stack : Nat → UInt8)
    (accept : Int → Int × List UInt8) (hNew : Handle) (out : PeerOut) (s : Sockets) :
    (Handle × Sockets) × PeerTold :=
  let answer := ofcSocketImplAccept hSocket mem (fun fd => (accept fd).1) hNew s
  match s.impl hSocket with
  | none => (answer, ⟨some out, none, 0⟩)
  | some sock =>
      let addrlen : Cell Nat := .put sizeofSockaddr
      let (fd, sockaddr) := accept sock.socket.val
      let mysockaddr := (localSockaddr stack).fill (sockaddr.take addrlen.val)
      if fd ≠ -1 then
        let (out, unset) := unmakeSockaddr out mysockaddr
        (answer, ⟨out, some addrlen, addrlen.unset + unset⟩)
      else (answer, ⟨some out, some addrlen, addrlen.unset⟩)

/-- `mysize` is what the stack holds: the call does not set it. -/
def ofcSocketImplRecvFrom (hSocket : Handle) (len : UInt64) (stack : Nat → UInt8) (mysize : Nat)
    (recvfrom : Int → Int → Int × Int × List UInt8) (out : PeerOut) (s : Sockets) :
    UInt64 × PeerTold :=
  match s.impl hSocket with
  | none => (UInt64.ofInt (-1), ⟨some out, none, 0⟩)
  | some sock =>
      let mysize : Cell Nat := .junk mysize
      let mysockaddr := clear (localSockaddr stack) mysize.val
      let (status, errno, sockaddr) := recvfrom sock.socket.val (toInt len)
      let mysockaddr := mysockaddr.fill (sockaddr.take mysize.val)
      if status = -1 ∧ errno = eagain then (0, ⟨some out, some mysize, mysize.unset⟩)
      else if status ≥ 0 then
        let (out, unset) := unmakeSockaddr out mysockaddr
        (UInt64.ofInt status, ⟨out, some mysize, mysize.unset + unset⟩)
      else (UInt64.ofInt (-1), ⟨some out, some mysize, mysize.unset⟩)

end Calls

inductive Peer where
  | inet (port : UInt16) (addr : UInt32) (zero : Vector UInt8 8)
  | inet6 (port : UInt16) (flowinfo : Vector UInt8 4) (addr : Vector UInt8 16) (scope : UInt32)

namespace Peer

def sockaddr : Peer → List UInt8
  | .inet port addr zero => sockaddrIn port addr zero.toList
  | .inet6 port flowinfo addr scope => sockaddrIn6 port flowinfo.toList addr scope

def port : Peer → UInt16
  | .inet port _ _ | .inet6 port _ _ _ => port

def At (ip : Ipaddr) : Peer → Prop
  | .inet _ addr _ => ip.ipVersion = .ip ∧ ip.ipv4 = addr
  | .inet6 _ _ addr _ => ip.ipVersion = .ipv6 ∧ ip.ipv6.s6Addr = addr

def isInet : Peer → Bool
  | .inet .. => true
  | .inet6 .. => false

end Peer

inductive PeerCall where
  | accept (mem : SocketImpl) (accept : Int → Int × List UInt8) (hNew : Handle)
  | recvFrom (len : UInt64) (mysize : Nat) (recvfrom : Int → Int → Int × Int × List UInt8)

namespace PeerCall

def told (hSocket : Handle) (stack : Nat → UInt8) (out : PeerOut) (s : Sockets) :
    PeerCall → PeerTold
  | .accept mem answer hNew =>
      (ofcSocketImplAcceptFrom hSocket mem stack answer hNew out s).2
  | .recvFrom len mysize recvfrom =>
      (ofcSocketImplRecvFrom hSocket len stack mysize recvfrom out s).2

def Succeeds (sock : SocketImpl) (peer : Peer) : PeerCall → Prop
  | .accept _ answer _ => ∃ fd, 0 ≤ fd ∧ answer sock.socket.val = (fd, peer.sockaddr)
  | .recvFrom len _ recvfrom => ∃ status errno, 0 ≤ status ∧
      recvfrom sock.socket.val (toInt len) = (status, errno, peer.sockaddr)

def isAccept : PeerCall → Bool
  | .accept .. => true
  | .recvFrom .. => false

end PeerCall

/-- The peer's version, address and port are stored, from bytes that the kernel wrote to the
buffer, and the kernel was given a length that was set to at most the buffer's size. -/
structure Delivered (peer : Peer) (told : PeerTold) : Prop where
  stored : ∃ ip, told.out = some ⟨some ip, some peer.port⟩ ∧ peer.At ip
  read : told.unset = 0
  passed : ∃ len, told.passed = some (.put len) ∧ len ≤ sizeofSockaddr

variable {hSocket : Handle} {s : Sockets} {sock : SocketImpl} {stack : Nat → UInt8} {ip : Ipaddr}
  {port : UInt16}

theorem holds_received (stack : Nat → UInt8) (bytes : List UInt8) :
    ((localSockaddr stack).fill (bytes.take sizeofSockaddr)).Holds (bytes.take sizeofSockaddr) :=
  holds_fill (localSockaddr stack) (by simp [localSockaddr])

theorem accept_delivers_iff (mem : SocketImpl) (accept : Int → Int × List UInt8) (hNew : Handle)
    {peer : Peer} (hlive : s.impl hSocket = some sock)
    (hok : PeerCall.Succeeds sock peer (.accept mem accept hNew)) :
    Delivered peer (PeerCall.told hSocket stack ⟨some ip, some port⟩ s
      (.accept mem accept hNew)) ↔ peer.isInet = true := by
  obtain ⟨fd, hfd, haccept⟩ := hok
  have hopen : fd ≠ -1 := by omega
  have hholds := holds_received stack peer.sockaddr
  simp only [PeerCall.told, ofcSocketImplAcceptFrom, hlive, haccept, Cell.put, ne_eq, hopen,
    not_false_eq_true, if_true]
  cases peer with
  | inet peerPort addr zero =>
    have hwhole : (Peer.inet peerPort addr zero).sockaddr.take sizeofSockaddr =
        sockaddrIn peerPort addr zero.toList :=
      List.take_of_length_le (by simp [Peer.sockaddr, sockaddrIn, sizeofSockaddr])
    rw [hwhole] at hholds ⊢
    rw [unmakeSockaddr_in hholds]
    refine iff_of_true ⟨⟨_, rfl, rfl, rfl⟩, rfl, ⟨_, rfl, le_refl _⟩⟩ rfl
  | inet6 peerPort flowinfo addr scope =>
    refine iff_of_false ?_ (by simp [Peer.isInet])
    intro hdelivered
    have hfront : (Peer.inet6 peerPort flowinfo addr scope).sockaddr.take sizeofSockaddr =
        familyBytes afInet6 ++ (netSton peerPort ++ flowinfo.toList ++ addr.toList ++
          LittleEndian.store 4 scope.toNat).take 14 := by
      simp only [Peer.sockaddr, sockaddrIn6, List.append_assoc]
      rw [List.take_append, List.take_of_length_le (by simp [sizeofSockaddr])]
      simp [sizeofSockaddr]
    rw [hfront] at hholds
    have hread := hdelivered.read
    simp only [hfront, Nat.add_eq_zero_iff] at hread
    exact unmakeSockaddr_short rfl hholds hread.2

theorem recvFrom_passes_unset {len : UInt64} {mysize : Nat}
    {recvfrom : Int → Int → Int × Int × List UInt8} {out : PeerOut} {n : Nat}
    (hlive : s.impl hSocket = some sock) :
    (PeerCall.told hSocket stack out s (.recvFrom len mysize recvfrom)).passed ≠
      some (.put n) := by
  simp only [PeerCall.told, ofcSocketImplRecvFrom, hlive]
  split
  · simp [Cell.junk, Cell.put]
  · split <;> simp [Cell.junk, Cell.put]

/-- The peer's address is delivered by an accept, of an IPv4 peer, and by nothing else. -/
theorem peer_delivered_iff (call : PeerCall) (peer : Peer) (hlive : s.impl hSocket = some sock)
    (hok : call.Succeeds sock peer) :
    Delivered peer (call.told hSocket stack ⟨some ip, some port⟩ s) ↔
      call.isAccept = true ∧ peer.isInet = true := by
  cases call with
  | accept mem accept hNew =>
    rw [accept_delivers_iff mem accept hNew hlive hok]
    simp [PeerCall.isAccept]
  | recvFrom len mysize recvfrom =>
    refine iff_of_false ?_ (by simp [PeerCall.isAccept])
    intro hdelivered
    obtain ⟨n, hpassed, -⟩ := hdelivered.passed
    exact recvFrom_passes_unset hlive hpassed

def oneSocket : Sockets := ⟨Function.update (fun _ => none) 1 (some (memoryOf 0)), fun _ => false⟩

def noAddress : Ipaddr := ⟨.ip, 0, in6addrAny⟩

def localPeer : Peer := .inet 445 0x7f000001 (Vector.replicate 8 0)

def linkLocalPeer : Peer := .inet6 445 (Vector.replicate 4 0) (linkLocal 3).ipv6.s6Addr 3

def acceptOf (peer : Peer) : PeerCall := .accept (memoryOf 0) (fun _ => (4, peer.sockaddr)) 2

theorem peer_delivered_local :
    Delivered localPeer
      ((acceptOf localPeer).told 1 (fun _ => 0) ⟨some noAddress, some 0⟩ oneSocket) :=
  (peer_delivered_iff (acceptOf localPeer) localPeer rfl ⟨4, by decide, rfl⟩).mpr ⟨rfl, rfl⟩

theorem peer_not_delivered :
    ¬ ∀ (hSocket : Handle) (s : Sockets) (sock : SocketImpl) (stack : Nat → UInt8) (ip : Ipaddr)
      (port : UInt16) (call : PeerCall) (peer : Peer), s.impl hSocket = some sock →
      call.Succeeds sock peer →
        Delivered peer (call.told hSocket stack ⟨some ip, some port⟩ s) := by
  intro hall
  have hdelivered := hall 1 oneSocket (memoryOf 0) (fun _ => 0) noAddress 0 (acceptOf linkLocalPeer)
    linkLocalPeer rfl ⟨4, by decide, rfl⟩
  have hinet := (accept_delivers_iff (memoryOf 0) (fun _ => (4, linkLocalPeer.sockaddr)) 2 rfl
    ⟨4, by decide, rfl⟩).mp hdelivered
  cases hinet

end CoreAndroid.Socket
