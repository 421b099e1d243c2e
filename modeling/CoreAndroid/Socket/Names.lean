import CoreAndroid.Socket.Peer

/-! The names of sockets: `ofc_socket_impl_bind` and `ofc_socket_impl_connect` hand them to the
kernel as bytes, and `ofc_socket_impl_get_addresses` reads them back. What the kernel makes of
the names it is handed is its own affair. -/
namespace CoreAndroid.Socket
open Reading Buffer

structure Sockaddr where
  sinFamily : FamilyType
  sinAddr : Ipaddr
  sinPort : UInt16
  deriving DecidableEq

def einprogress : Int := 115
def eisconn : Int := 106

/-- What a kernel does about names. `bind` and `connect` are handed bytes and answer with a status,
`connect` with `errno` too; a name that a socket or its peer has is one of the two structures. -/
structure NameKernel (κ : Type) where
  bind : Int → List UInt8 → κ → Int × κ
  connect : Int → List UInt8 → κ → (Int × Int) × κ
  sockname : κ → Int → Option Peer -- `getsockname` and `getpeername`, if they succeed
  peername : κ → Int → Option Peer

section Calls

/-- What `bind` and `connect` are handed. -/
def handedName (ip : Ipaddr) (port : UInt16) : List UInt8 :=
  let (mysockaddr, mysocklen) := makeSockaddr ip port
  mysockaddr.take mysocklen

variable {κ : Type} (kernel : NameKernel κ)

def ofcSocketImplBind (hSocket : Handle) (ip : Ipaddr) (port : UInt16) (s : Sockets) (k : κ) :
    Bool × κ :=
  match s.impl hSocket with
  | none => (false, k)
  | some sock =>
      let (status, k) := kernel.bind sock.socket.val (handedName ip port) k
      (status = 0, k)

def ofcSocketImplConnect (hSocket : Handle) (ip : Ipaddr) (port : UInt16) (s : Sockets) (k : κ) :
    Bool × κ :=
  match s.impl hSocket with
  | none => (false, k)
  | some sock =>
      let ((status, errno), k) := kernel.connect sock.socket.val (handedName ip port) k
      ((status ≠ 0 ∧ errno = einprogress) ∨ status = 0, k)

def sockaddrBuffer (heap : Nat → UInt8) : Buffer := ⟨sizeofSockaddrIn6, fun i => .junk (heap i)⟩

def readName (out : Sockaddr) : Reading Buffer Sockaddr := do
  let saFamily ← bytes 0 2
  let sinFamily := if LittleEndian.load saFamily.toList = afInet then .ip else .ipv6
  let told ← unmakeSockaddr ⟨some out.sinAddr, some out.sinPort⟩
  match told with
  | some ⟨some sinAddr, some sinPort⟩ => pure { sinFamily, sinAddr, sinPort }
  | _ => pure { out with sinFamily }

/-- The result with `local` and `remote`, and the number of unset reads. -/
def ofcSocketImplGetAddresses (hSock : Handle) (heap heap' : Nat → UInt8)
    (sockLocal remote : Sockaddr) (s : Sockets) (k : κ) : (Bool × Sockaddr × Sockaddr) × Nat :=
  match s.impl hSock with
  | none => ((false, sockLocal, remote), 0)
  | some sock =>
      match kernel.sockname k sock.socket.val with
      | none => ((false, sockLocal, remote), 0)
      | some name =>
          let (sockLocal, unset) :=
            readName sockLocal ((sockaddrBuffer heap).fill (name.sockaddr.take sizeofSockaddrIn6))
          match kernel.peername k sock.socket.val with
          | none => ((false, sockLocal, remote), unset)
          | some peer =>
              let (remote, unset') :=
                readName remote ((sockaddrBuffer heap').fill (peer.sockaddr.take sizeofSockaddrIn6))
              ((true, sockLocal, remote), unset + unset')

inductive NameCall (κ : Type) where
  | bind (hSocket : Handle) (ip : Ipaddr) (port : UInt16)
  | connect (hSocket : Handle) (ip : Ipaddr) (port : UInt16)
  | getAddresses (hSock : Handle) (heap heap' : Nat → UInt8) (sockLocal remote : Sockaddr)
  | other (change : Sockets × κ → Sockets × κ)

inductive NameAnswer where
  | nothing
  | done (ret : Bool)
  | addresses (ret : Bool) (sockLocal remote : Sockaddr) (unset : Nat)
  deriving DecidableEq

def NameCall.perform : NameCall κ → Sockets × κ → NameAnswer × Sockets × κ
  | .bind hSocket ip port, (s, k) =>
      let (ret, k) := ofcSocketImplBind kernel hSocket ip port s k
      (.done ret, s, k)
  | .connect hSocket ip port, (s, k) =>
      let (ret, k) := ofcSocketImplConnect kernel hSocket ip port s k
      (.done ret, s, k)
  | .getAddresses hSock heap heap' sockLocal remote, (s, k) =>
      let ((ret, sockLocal, remote), unset) :=
        ofcSocketImplGetAddresses kernel hSock heap heap' sockLocal remote s k
      (.addresses ret sockLocal remote unset, s, k)
  | .other change, state => (.nothing, change state)

end Calls

section Peers

def Peer.of (ip : Ipaddr) (port : UInt16) : Peer :=
  match ip.ipVersion with
  | .ip => .inet port ip.ipv4 (Vector.replicate 8 0)
  | .ipv6 => .inet6 port (Vector.replicate 4 0) ip.ipv6.s6Addr ip.ipv6.scope

theorem handedName_eq (ip : Ipaddr) (port : UInt16) :
    handedName ip port = (Peer.of ip port).sockaddr := by
  unfold handedName Peer.of
  dsimp only
  cases hip : ip.ipVersion with
  | ip =>
    have hlength : (makeSockaddr ip port).2 = sizeofSockaddrIn := by simp [makeSockaddr, hip]
    rw [makeSockaddr_ip port hip, hlength]
    exact List.take_of_length_le (by simp [sockaddrIn, sizeofSockaddrIn])
  | ipv6 =>
    have hlength : (makeSockaddr ip port).2 = sizeofSockaddrIn6 := by simp [makeSockaddr, hip]
    rw [makeSockaddr_ipv6 port hip, hlength]
    exact List.take_of_length_le (by simp [sockaddrIn6, sizeofSockaddrIn6])

def Peer.stored (out : Sockaddr) : Peer → Sockaddr
  | .inet port addr _ =>
      { sinFamily := .ip, sinAddr := { out.sinAddr with ipVersion := .ip, ipv4 := addr },
        sinPort := port }
  | .inet6 port _ addr _ =>
      { sinFamily := .ipv6
        sinAddr := { out.sinAddr with
          ipVersion := .ipv6, ipv6 := { out.sinAddr.ipv6 with s6Addr := addr } }
        sinPort := port }

theorem family_in {b : Buffer} {port : UInt16} {addr : UInt32} {zero : List UInt8}
    (h : b.Holds (sockaddrIn port addr zero)) :
    LittleEndian.load (bytes 0 2 b).1.toList = afInet ∧ (bytes 0 2 b).2 = 0 := by
  obtain ⟨hfamily, hfamily0⟩ : (bytes 0 2 b).1.toList = familyBytes afInet ∧
      (bytes 0 2 b).2 = 0 :=
    bytes_of_holds [] _ (by simpa [sockaddrIn, List.append_assoc] using h) rfl (by simp)
  rw [hfamily]
  exact ⟨LittleEndian.load_store_of_lt (by decide), hfamily0⟩

theorem readName_sockaddr (heap : Nat → UInt8) (out : Sockaddr) (peer : Peer) :
    readName out ((sockaddrBuffer heap).fill (peer.sockaddr.take sizeofSockaddrIn6)) =
      (peer.stored out, 0) := by
  have hfits : peer.sockaddr.length ≤ sizeofSockaddrIn6 := by
    cases peer <;> simp [Peer.sockaddr, sockaddrIn, sockaddrIn6, sizeofSockaddrIn6]
  rw [List.take_of_length_le hfits]
  have hholds := holds_fill (sockaddrBuffer heap) hfits
  generalize (sockaddrBuffer heap).fill peer.sockaddr = b at hholds ⊢
  cases peer with
  | inet port addr zero =>
    obtain ⟨hfamily, hfamily0⟩ := family_in hholds
    have hread : unmakeSockaddr ⟨some out.sinAddr, some out.sinPort⟩ b = _ :=
      unmakeSockaddr_in hholds
    simp only [readName, bind_run, hfamily, hfamily0, hread, if_true, pure_run]
    rfl
  | inet6 port flowinfo addr scope =>
    obtain ⟨hfamily, hfamily0⟩ := family_in6
      (netSton port ++ flowinfo.toList ++ addr.toList ++ LittleEndian.store 4 scope.toNat)
      (by simpa [Peer.sockaddr, sockaddrIn6, List.append_assoc] using hholds)
    have hread : unmakeSockaddr ⟨some out.sinAddr, some out.sinPort⟩ b = _ :=
      unmakeSockaddr_in6 (by simp) hholds
    simp only [readName, bind_run, hfamily, hfamily0, hread, if_false, pure_run]
    rfl

end Peers

section Spec
variable {κ : Type} (kernel : NameKernel κ)

variable {kernel}

end Spec

section Again

/-- The name has nothing that is not told, apart from a scope, and that was told before. -/
def Peer.Told (held : Sockaddr) : Peer → Prop
  | .inet _ _ zero => zero = Vector.replicate 8 0
  | .inet6 _ flowinfo _ scope =>
      flowinfo = Vector.replicate 4 0 ∧ scope = held.sinAddr.ipv6.scope

theorem store_scope_inj {scope scope' : UInt32}
    (h : LittleEndian.store 4 scope.toNat = LittleEndian.store 4 scope'.toNat) :
    scope = scope' := by
  have hload := congrArg LittleEndian.load h
  rw [LittleEndian.load_store_of_lt scope.toNat_lt, LittleEndian.load_store_of_lt scope'.toNat_lt]
    at hload
  exact UInt32.toNat_inj.mp hload

theorem handedName_stored (peer : Peer) (held : Sockaddr) :
    handedName (peer.stored held).sinAddr (peer.stored held).sinPort = peer.sockaddr ↔
      peer.Told held := by
  rw [handedName_eq]
  cases peer with
  | inet port addr zero =>
    simp only [Peer.of, Peer.stored, Peer.sockaddr, sockaddrIn, List.append_cancel_left_eq,
      Vector.toList_inj, Peer.Told]
    exact eq_comm
  | inet6 port flowinfo addr scope =>
    simp only [Peer.of, Peer.stored, Peer.sockaddr, sockaddrIn6, Peer.Told, List.append_assoc,
      List.append_cancel_left_eq]
    constructor
    · intro hsame
      obtain ⟨hflow, hrest⟩ := List.append_inj hsame (by simp)
      exact ⟨(Vector.toList_inj.mp hflow).symm,
        (store_scope_inj (List.append_cancel_left hrest)).symm⟩
    · rintro ⟨rfl, rfl⟩
      rfl

/-- An address and a port that were told lead back to the name that the kernel has exactly if the
name has nothing else but a scope that the record held before: the scope is not told. -/
theorem told_leads_back_iff {κ : Type} {kernel : NameKernel κ} {hSock : Handle} {s : Sockets}
    {k : κ} {sock : SocketImpl} {own peer : Peer} (hlive : s.impl hSock = some sock)
    (hown : kernel.sockname k sock.socket.val = some own)
    (hpeer : kernel.peername k sock.socket.val = some peer) (heap heap' : Nat → UInt8)
    (sockLocal held : Sockaddr) :
    ∃ near far,
      ofcSocketImplGetAddresses kernel hSock heap heap' sockLocal held s k =
        ((true, near, far), 0) ∧
      (handedName near.sinAddr near.sinPort = own.sockaddr ↔ own.Told sockLocal) ∧
      (handedName far.sinAddr far.sinPort = peer.sockaddr ↔ peer.Told held) := by
  refine ⟨own.stored sockLocal, peer.stored held, ?_, handedName_stored own sockLocal,
    handedName_stored peer held⟩
  simp only [ofcSocketImplGetAddresses, hlive, hown, hpeer, readName_sockaddr]

def ownName : Peer := .inet 50000 0x7f000001 (Vector.replicate 8 0)

def loopback : NameKernel Unit where
  bind _ _ k := (-1, k)
  connect _ _ k := ((-1, eisconn), k)
  sockname _ _ := some ownName
  peername _ _ := some localPeer

def noSockaddr : Sockaddr := ⟨.ip, noAddress, 0⟩

theorem told_leads_back_loopback : ∃ near far,
    ofcSocketImplGetAddresses loopback 1 (fun _ => 0) (fun _ => 0) noSockaddr noSockaddr oneSocket
      () = ((true, near, far), 0) ∧
    handedName near.sinAddr near.sinPort = ownName.sockaddr ∧
    handedName far.sinAddr far.sinPort = localPeer.sockaddr := by
  have hown : loopback.sockname () (memoryOf 0).socket.val = some ownName := rfl
  have hpeer : loopback.peername () (memoryOf 0).socket.val = some localPeer := rfl
  obtain ⟨near, far, hget, hnear, hfar⟩ := told_leads_back_iff
    (rfl : oneSocket.impl 1 = some (memoryOf 0)) hown hpeer (fun _ => 0) (fun _ => 0) noSockaddr
    noSockaddr
  exact ⟨near, far, hget, hnear.mpr rfl, hfar.mpr rfl⟩

end Again

end CoreAndroid.Socket
