import CoreAndroid.Lib.Bytes
import CoreAndroid.Socket.Impl

/-! Internet addresses and the kernel's `struct sockaddr`: `make_sockaddr` builds one,
`unmake_sockaddr` takes one apart. -/
namespace CoreAndroid.Socket
open Reading Buffer

/-- `OFC_IPADDR`. The members of its union stand here one by one. -/
structure Ipaddr where
  ipVersion : FamilyType
  ipv4 : UInt32
  ipv6 : In6Addr
  deriving DecidableEq

def afInet : Nat := 2
def afInet6 : Nat := 10

def sizeofSockaddr : Nat := 16
def sizeofSockaddrIn : Nat := 16
def sizeofSockaddrIn6 : Nat := 28

/-- `OFC_NET_STON` and `OFC_NET_LTON`. -/
def netSton (x : UInt16) : List UInt8 := BigEndian.store 2 x.toNat
def netLton (x : UInt32) : List UInt8 := BigEndian.store 4 x.toNat

/-- `OFC_NET_NTOS` and `OFC_NET_NTOL`. -/
def netNtos (bytes : Vector UInt8 2) : UInt16 := UInt16.ofNat (BigEndian.load bytes.toList)
def netNtol (bytes : Vector UInt8 4) : UInt32 := UInt32.ofNat (BigEndian.load bytes.toList)

def familyBytes (family : Nat) : List UInt8 := LittleEndian.store 2 family

theorem netNtos_netSton {bytes : Vector UInt8 2} {x : UInt16} (h : bytes.toList = netSton x) :
    netNtos bytes = x := by
  have hload : BigEndian.load (netSton x) = x.toNat := BigEndian.load_store_of_lt x.toNat_lt
  rw [netNtos, h, hload, UInt16.ofNat_toNat]

theorem netNtol_netLton {bytes : Vector UInt8 4} {x : UInt32} (h : bytes.toList = netLton x) :
    netNtol bytes = x := by
  have hload : BigEndian.load (netLton x) = x.toNat := BigEndian.load_store_of_lt x.toNat_lt
  rw [netNtol, h, hload, UInt32.ofNat_toNat]

@[simp] theorem netSton_length (x : UInt16) : (netSton x).length = 2 := by simp [netSton]
@[simp] theorem netLton_length (x : UInt32) : (netLton x).length = 4 := by simp [netLton]
@[simp] theorem familyBytes_length (family : Nat) : (familyBytes family).length = 2 := by
  simp [familyBytes]

section Make

/-- The memory that `make_sockaddr` fills, and its length. -/
def makeSockaddr (ip : Ipaddr) (port : UInt16) : List UInt8 × Nat :=
  match ip.ipVersion with
  | .ip =>
      let mysockaddrIn := List.replicate sizeofSockaddrIn 0
      let mysockaddrIn := overwrite mysockaddrIn 0 (familyBytes afInet)
      let mysockaddrIn := overwrite mysockaddrIn 2 (netSton port)
      let mysockaddrIn := overwrite mysockaddrIn 4 (netLton ip.ipv4)
      (mysockaddrIn, sizeofSockaddrIn)
  | .ipv6 =>
      let mysockaddrIn6 := List.replicate sizeofSockaddrIn6 0
      let mysockaddrIn6 := overwrite mysockaddrIn6 0 (familyBytes afInet6)
      let mysockaddrIn6 := overwrite mysockaddrIn6 24 (LittleEndian.store 4 ip.ipv6.scope.toNat)
      let mysockaddrIn6 := overwrite mysockaddrIn6 2 (netSton port)
      let mysockaddrIn6 := overwrite mysockaddrIn6 8 ip.ipv6.s6Addr.toList
      (mysockaddrIn6, sizeofSockaddrIn6)

def sockaddrIn (port : UInt16) (addr : UInt32) (zero : List UInt8) : List UInt8 :=
  familyBytes afInet ++ netSton port ++ netLton addr ++ zero

def sockaddrIn6 (port : UInt16) (flowinfo : List UInt8) (addr : Vector UInt8 16)
    (scope : UInt32) : List UInt8 :=
  familyBytes afInet6 ++ netSton port ++ flowinfo ++ addr.toList ++
    LittleEndian.store 4 scope.toNat

theorem makeSockaddr_ip {ip : Ipaddr} (port : UInt16) (hip : ip.ipVersion = .ip) :
    (makeSockaddr ip port).1 = sockaddrIn port ip.ipv4 (List.replicate 8 0) := by
  unfold makeSockaddr sockaddrIn
  simp only [hip]
  have hfamily : overwrite (List.replicate sizeofSockaddrIn 0) 0 (familyBytes afInet) =
      familyBytes afInet ++ List.replicate 14 0 :=
    overwrite_eq [] (List.replicate 2 0) _ rfl rfl (by simp)
  have hport : overwrite (familyBytes afInet ++ List.replicate 14 0) 2 (netSton port) =
      familyBytes afInet ++ netSton port ++ List.replicate 12 0 :=
    overwrite_eq _ (List.replicate 2 0) _ (by simp) (by simp) (by simp)
  have haddr : overwrite (familyBytes afInet ++ netSton port ++ List.replicate 12 0) 4
      (netLton ip.ipv4) =
      familyBytes afInet ++ netSton port ++ netLton ip.ipv4 ++ List.replicate 8 0 :=
    overwrite_eq _ (List.replicate 4 0) _ (by simp) (by simp) (by simp)
  rw [hfamily, hport, haddr]

theorem makeSockaddr_ipv6 {ip : Ipaddr} (port : UInt16) (hip : ip.ipVersion = .ipv6) :
    (makeSockaddr ip port).1 =
      sockaddrIn6 port (List.replicate 4 0) ip.ipv6.s6Addr ip.ipv6.scope := by
  unfold makeSockaddr sockaddrIn6
  simp only [hip]
  generalize hscope : LittleEndian.store 4 ip.ipv6.scope.toNat = scope
  have hlength : scope.length = 4 := by simp [← hscope]
  have hfamily : overwrite (List.replicate sizeofSockaddrIn6 0) 0 (familyBytes afInet6) =
      familyBytes afInet6 ++ List.replicate 26 0 :=
    overwrite_eq [] (List.replicate 2 0) _ rfl rfl (by simp)
  have hfirst : overwrite (familyBytes afInet6 ++ List.replicate 26 0) 24 scope =
      familyBytes afInet6 ++ List.replicate 22 0 ++ scope := by
    rw [overwrite_eq (familyBytes afInet6 ++ List.replicate 22 0) (List.replicate 4 0) [] (by simp)
      (by simp) (by simp [hlength]),
      List.append_nil]
  have hport : overwrite (familyBytes afInet6 ++ List.replicate 22 0 ++ scope) 2 (netSton port) =
      familyBytes afInet6 ++ netSton port ++ (List.replicate 20 0 ++ scope) :=
    overwrite_eq _ (List.replicate 2 0) _ (by simp) (by simp) (by simp)
  have haddr : overwrite (familyBytes afInet6 ++ netSton port ++ (List.replicate 20 0 ++ scope)) 8
      ip.ipv6.s6Addr.toList =
      familyBytes afInet6 ++ netSton port ++ List.replicate 4 0 ++ ip.ipv6.s6Addr.toList ++
        scope :=
    overwrite_eq _ (List.replicate 16 0) _ (by simp) (by simp) (by simp)
  rw [hfamily, hfirst, hport, haddr]

end Make

section Unmake

structure PeerOut where
  ip : Option Ipaddr
  port : Option UInt16
  deriving DecidableEq

/-- `unmake_sockaddr` on a buffer. There is no result if it writes through a null pointer. -/
def unmakeSockaddr (out : PeerOut) : Reading Buffer (Option PeerOut) := do
  let saFamily ← bytes 0 2
  if LittleEndian.load saFamily.toList = afInet then
    match out with
    | ⟨some ip, some _⟩ =>
        let port ← bytes 2 2
        let addr ← bytes 4 4
        pure (some ⟨some { ip with ipVersion := .ip, ipv4 := netNtol addr }, some (netNtos port)⟩)
    | _ => pure none
  else
    let ip ← match out.ip with
      | some ip => do
          let s6Addr ← bytes 8 16
          pure (some { ip with ipVersion := .ipv6, ipv6 := { ip.ipv6 with s6Addr := s6Addr } })
      | none => pure none
    let port ← match out.port with
      | some _ => do
          let port ← bytes 2 2
          pure (some (netNtos port))
      | none => pure none
    pure (some ⟨ip, port⟩)

variable {b : Buffer} {ip : Ipaddr} {port startPort : UInt16}

theorem unmakeSockaddr_in {addr : UInt32} {zero : List UInt8}
    (h : b.Holds (sockaddrIn port addr zero)) :
    unmakeSockaddr ⟨some ip, some startPort⟩ b =
      (some ⟨some { ip with ipVersion := .ip, ipv4 := addr }, some port⟩, 0) := by
  unfold sockaddrIn at h
  obtain ⟨hfamily, hfamily0⟩ : (bytes 0 2 b).1.toList = familyBytes afInet ∧ (bytes 0 2 b).2 = 0 :=
    bytes_of_holds [] _ (by simpa [List.append_assoc] using h) rfl (by simp)
  obtain ⟨hport, hport0⟩ : (bytes 2 2 b).1.toList = netSton port ∧ (bytes 2 2 b).2 = 0 :=
    bytes_of_holds (familyBytes afInet) _ (by simpa [List.append_assoc] using h) (by simp)
      (by simp)
  obtain ⟨haddr, haddr0⟩ : (bytes 4 4 b).1.toList = netLton addr ∧ (bytes 4 4 b).2 = 0 :=
    bytes_of_holds _ _ h (by simp) (by simp)
  have hinet : LittleEndian.load (familyBytes afInet) = afInet :=
    LittleEndian.load_store_of_lt (by decide)
  simp [unmakeSockaddr, hfamily, hfamily0, hinet, hport0, haddr0, netNtos_netSton hport,
    netNtol_netLton haddr]

theorem family_in6 (rest : List UInt8) (h : b.Holds (familyBytes afInet6 ++ rest)) :
    LittleEndian.load (bytes 0 2 b).1.toList ≠ afInet ∧ (bytes 0 2 b).2 = 0 := by
  obtain ⟨hfamily, hfamily0⟩ : (bytes 0 2 b).1.toList = familyBytes afInet6 ∧
      (bytes 0 2 b).2 = 0 :=
    bytes_of_holds [] _ (by simpa using h) rfl (by simp)
  have hinet6 : LittleEndian.load (familyBytes afInet6) = afInet6 :=
    LittleEndian.load_store_of_lt (by decide)
  rw [hfamily, hinet6]
  exact ⟨by decide, hfamily0⟩

theorem unmakeSockaddr_in6 {flowinfo : List UInt8} {addr : Vector UInt8 16} {scope : UInt32}
    (hflow : flowinfo.length = 4) (h : b.Holds (sockaddrIn6 port flowinfo addr scope)) :
    unmakeSockaddr ⟨some ip, some startPort⟩ b =
      (some ⟨some { ip with ipVersion := .ipv6, ipv6 := { ip.ipv6 with s6Addr := addr } },
        some port⟩, 0) := by
  unfold sockaddrIn6 at h
  obtain ⟨hfamily, hfamily0⟩ := family_in6
    (netSton port ++ flowinfo ++ addr.toList ++ LittleEndian.store 4 scope.toNat)
    (by simpa [List.append_assoc] using h)
  obtain ⟨hport, hport0⟩ : (bytes 2 2 b).1.toList = netSton port ∧ (bytes 2 2 b).2 = 0 :=
    bytes_of_holds (familyBytes afInet6) _ (by simpa [List.append_assoc] using h) (by simp)
      (by simp)
  obtain ⟨haddr, haddr0⟩ : (bytes 8 16 b).1.toList = addr.toList ∧ (bytes 8 16 b).2 = 0 :=
    bytes_of_holds _ _ h (by simp [hflow]) (by simp)
  have hs6 : (bytes 8 16 b).1 = addr := Vector.toList_inj.mp haddr
  simp [unmakeSockaddr, hfamily, hfamily0, hport0, haddr0, netNtos_netSton hport, hs6]

theorem unmakeSockaddr_short {rest : List UInt8} (hsize : b.size = sizeofSockaddr)
    (h : b.Holds (familyBytes afInet6 ++ rest)) :
    (unmakeSockaddr ⟨some ip, some startPort⟩ b).2 ≠ 0 := by
  obtain ⟨hfamily, -⟩ := family_in6 rest h
  have hout : (bytes 8 16 b).2 ≠ 0 :=
    bytes_outside 15 (by decide) (by rw [hsize]; decide)
  simp [unmakeSockaddr, hfamily, hout]

end Unmake

section RoundTrip

def SameAddress (ip ip' : Ipaddr) : Prop :=
  ip'.ipVersion = ip.ipVersion ∧
    match ip.ipVersion with
    | .ip => ip'.ipv4 = ip.ipv4
    | .ipv6 => ip'.ipv6 = ip.ipv6

/-- What `make_sockaddr` builds of an address, `unmake_sockaddr` gives back. -/
def RoundTrips (ip : Ipaddr) (port : UInt16) (start : Ipaddr) (startPort : UInt16) : Prop :=
  ∃ ip', (unmakeSockaddr ⟨some start, some startPort⟩ (.ofBytes (makeSockaddr ip port).1)).1 =
    some ⟨some ip', some port⟩ ∧ SameAddress ip ip'

/-- An address comes back with its port, except for the scope, which is left as it was. -/
theorem sockaddr_round_trip_iff (ip : Ipaddr) (port : UInt16) (start : Ipaddr)
    (startPort : UInt16) :
    RoundTrips ip port start startPort ↔
      (ip.ipVersion = .ipv6 → start.ipv6.scope = ip.ipv6.scope) := by
  have hholds := holds_ofBytes (makeSockaddr ip port).1
  unfold RoundTrips SameAddress
  cases hip : ip.ipVersion with
  | ip =>
    rw [makeSockaddr_ip port hip] at hholds ⊢
    rw [unmakeSockaddr_in hholds]
    simp
  | ipv6 =>
    rw [makeSockaddr_ipv6 port hip] at hholds ⊢
    rw [unmakeSockaddr_in6 (by simp) hholds]
    obtain ⟨-, -, s6Addr, scope⟩ := ip
    simp

def linkLocal (scope : UInt32) : Ipaddr :=
  ⟨.ipv6, 0, ⟨⟨#[0xfe, 0x80, 0, 0, 0, 0, 0, 0, 0, 0, 0, 0, 0, 0, 0, 1], rfl⟩, scope⟩⟩

theorem sockaddr_round_trip_loses_scope :
    ¬ ∀ ip port start startPort, RoundTrips ip port start startPort := by
  intro hall
  obtain ⟨ip, hback, -, hsame⟩ := hall (linkLocal 3) 445 (linkLocal 0) 0
  have hread : (unmakeSockaddr ⟨some (linkLocal 0), some 0⟩
      (.ofBytes (makeSockaddr (linkLocal 3) 445).1)).1 =
      some ⟨some (linkLocal 0), some 445⟩ := by decide
  rw [hread] at hback
  cases hback
  have hscope : (linkLocal 0).ipv6 = (linkLocal 3).ipv6 := hsame
  exact absurd hscope (by decide)

end RoundTrip

end CoreAndroid.Socket
