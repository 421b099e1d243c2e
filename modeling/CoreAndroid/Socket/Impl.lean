import CoreAndroid.Handle
import CoreAndroid.Lib.Casts
import CoreAndroid.Lib.Reading
import Mathlib.Logic.Function.Basic

/-! The sockets of socket_android.c: the records behind the handles, and the calls
that make, read, change and end them. What the kernel, `ofc_malloc` and
`ofc_handle_create` answer is an argument of the call. -/
namespace CoreAndroid.Socket
open Reading

inductive FamilyType where
  | ip
  | ipv6
  deriving DecidableEq, Repr

inductive SocketType where
  | stream
  | dgram
  | icmp
  deriving DecidableEq, Repr

inductive AddressFamily where
  | inet
  | inet6
  deriving DecidableEq, Repr

inductive Style where
  | sockStream
  | sockDgram
  | sockRaw
  deriving DecidableEq, Repr

inductive Protocol where
  | tcp
  | udp
  | icmp
  | icmpv6
  deriving DecidableEq, Repr

structure In6Addr where
  s6Addr : Vector UInt8 16
  scope : UInt32
  deriving DecidableEq

def inaddrAny : UInt32 := 0

def in6addrAny : In6Addr := ⟨Vector.replicate 16 0, 0⟩

/-- `OFC_SOCKET_IMPL`. The members of `ip` stand here one by one, since the address of
the other version is left as it is. -/
structure SocketImpl where
  socket : Cell Int
  family : Cell FamilyType
  events : Cell UInt16
  revents : Cell UInt16
  ipVersion : Cell FamilyType
  ipv4 : Cell UInt32
  ipv6 : Cell In6Addr
  remoteClosed : Cell Bool
  deriving DecidableEq

def SocketImpl.fresh (mem : SocketImpl) : SocketImpl where
  socket := .junk mem.socket.val
  family := .junk mem.family.val
  events := .junk mem.events.val
  revents := .junk mem.revents.val
  ipVersion := .junk mem.ipVersion.val
  ipv4 := .junk mem.ipv4.val
  ipv6 := .junk mem.ipv6.val
  remoteClosed := .junk mem.remoteClosed.val

/-- The live handles with their records, and the descriptors that are open. -/
structure Sockets where
  impl : Handle → Option SocketImpl
  opened : Int → Bool

namespace Sockets

/-- The kernel opens the descriptor of a new record and `ofc_handle_create` gives the
record a handle. -/
def give (s : Sockets) (h : Handle) (sock : SocketImpl) : Sockets where
  impl := Function.update s.impl h (some sock)
  opened := Function.update s.opened sock.socket.val true

def modify (s : Sockets) (h : Handle) (write : SocketImpl → SocketImpl) : Sockets :=
  match s.impl h with
  | none => s
  | some sock => { s with impl := Function.update s.impl h (some (write sock)) }

def look {α : Type} (s : Sockets) (h : Handle) (none : α) (read : Reading SocketImpl α) : α × Nat :=
  match s.impl h with
  | .none => (none, 0)
  | .some sock => read sock

end Sockets

section Make

def familyArg : FamilyType → AddressFamily
  | .ip => .inet
  | .ipv6 => .inet6

def styleArgs : SocketType → FamilyType → Style × Protocol
  | .stream, _ => (.sockStream, .tcp)
  | .icmp, .ip => (.sockRaw, .icmp)
  | .icmp, .ipv6 => (.sockRaw, .icmpv6)
  | .dgram, _ => (.sockDgram, .udp)

def createdSocket (family : FamilyType) (socktype : SocketType) (mem : Option SocketImpl)
    (socket : AddressFamily → Style → Protocol → Int) : Option SocketImpl :=
  mem.bind fun mem =>
    let sock :=
      { mem.fresh with
        family := .put family
        revents := .put 0
        events := .put 0
        remoteClosed := .put false }
    let sock :=
      match family with
      | .ip => { sock with ipVersion := .put .ip, ipv4 := .put inaddrAny }
      | .ipv6 => { sock with ipVersion := .put .ipv6, ipv6 := .put in6addrAny }
    let (stype, proto) := styleArgs socktype sock.ipVersion.val
    let fd := socket (familyArg family) stype proto
    if fd < 0 then none else some { sock with socket := .put fd }

def ofcSocketImplCreate (family : FamilyType) (socktype : SocketType) (mem : Option SocketImpl)
    (socket : AddressFamily → Style → Protocol → Int) (hNew : Handle) (s : Sockets) :
    Handle × Sockets :=
  match createdSocket family socktype mem socket with
  | none => (handleNull, s)
  -- the broadcast option of a datagram socket changes nothing that is modelled
  | some sock => (hNew, s.give hNew sock)

/-- The record that `ofc_socket_impl_accept` builds: it writes two of the fields. -/
def acceptedSocket (sock mem : SocketImpl) (accept : Int → Int) : Option SocketImpl :=
  let newsock := { mem.fresh with remoteClosed := .put false }
  let fd := accept sock.socket.val
  if fd ≠ -1 then some { newsock with socket := .put fd } else none

def ofcSocketImplAccept (hSocket : Handle) (mem : SocketImpl) (accept : Int → Int)
    (hNew : Handle) (s : Sockets) : Handle × Sockets :=
  match s.impl hSocket with
  | none => (handleNull, s)
  | some sock =>
    match acceptedSocket sock mem accept with
    | none => (handleNull, s)
    | some newsock => (hNew, s.give hNew newsock)

end Make

section End

/-- The descriptor is closed; the record keeps its number. -/
def ofcSocketImplClose (hSocket : Handle) (s : Sockets) : Bool × Sockets :=
  match s.impl hSocket with
  | none => (false, s)
  | some sock => (true, { s with opened := Function.update s.opened sock.socket.val false })

def ofcSocketImplDestroy (hSocket : Handle) (s : Sockets) : Sockets :=
  match s.impl hSocket with
  | none => s
  | some _ => { s with impl := Function.update s.impl hSocket none }

end End

section Use

structure SocketEvents where
  close : Bool
  accept : Bool
  addressChange : Bool
  qos : Bool
  read : Bool
  write : Bool
  deriving DecidableEq, Repr

def pollin : UInt16 := 0x001
def pollpri : UInt16 := 0x002
def pollout : UInt16 := 0x004
def pollerr : UInt16 := 0x008
def pollhup : UInt16 := 0x010

def eagain : Int := 11

def ofcSocketImplRecv (hSocket : Handle) (len : UInt64) (recv : Int → Int → Int × Int)
    (s : Sockets) : UInt64 × Sockets :=
  match s.impl hSocket with
  | none => (UInt64.ofInt (-1), s)
  | some sock =>
    let (status, errno) := recv sock.socket.val (toInt len)
    if status = -1 ∧ errno = eagain then (0, s)
    else if status > 0 then (UInt64.ofInt status, s)
    else (0, s.modify hSocket fun sock => { sock with remoteClosed := .put true })

def ofcSocketImplSetEvent (hSocket : Handle) (revents : UInt16) (s : Sockets) : Sockets :=
  s.modify hSocket fun sock => { sock with revents := .put revents }

def ofcSocketImplGetEvent (hSocket : Handle) (s : Sockets) : UInt16 × Nat :=
  s.look hSocket 0 (field (·.events))

def ofcSocketImplGetFd (hSocket : Handle) (s : Sockets) : Int × Nat :=
  s.look hSocket (-1) (field (·.socket))

def ofcSocketImplTest (hSocket : Handle) (s : Sockets) : SocketEvents × Nat :=
  s.look hSocket ⟨false, false, false, false, false, false⟩ do
    let remoteClosed ← field (·.remoteClosed)
    let revents ← field (·.revents)
    pure {
      close := remoteClosed || revents &&& pollhup != 0
      accept := revents &&& pollin != 0
      read := revents &&& pollin != 0
      addressChange := revents &&& pollerr != 0
      qos := revents &&& pollpri != 0
      write := revents &&& pollout != 0 }

def ofcSocketImplConnected (hSocket : Handle) (getpeername : Int → Int) (s : Sockets) :
    Bool × Nat :=
  s.look hSocket false do
    let remoteClosed ← field (·.remoteClosed)
    if remoteClosed then pure false
    else
      let socket ← field (·.socket)
      pure (getpeername socket != -1)

def eventMask (type : SocketEvents) : UInt16 :=
  (if type.close then pollhup else 0) ||| (if type.accept then pollin else 0) |||
  (if type.addressChange then pollerr else 0) ||| (if type.qos then pollpri else 0) |||
  (if type.read then pollin else 0) ||| (if type.write then pollout else 0)

def ofcSocketImplEnable (hSocket : Handle) (type : SocketEvents) (s : Sockets) : Bool × Sockets :=
  ((s.impl hSocket).isSome,
    s.modify hSocket fun sock => { sock with events := .put (eventMask type) })

end Use

end CoreAndroid.Socket
