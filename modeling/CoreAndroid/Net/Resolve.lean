import CoreAndroid.Socket.Address

/-! Name resolution in net_android.c, and the addresses that a program connects to after it. -/
namespace CoreAndroid.Net
open Socket

section Source

/-- The loop over `h_addr_list`, with room for `numAddrs` addresses at `ip`. There is no result if
it writes behind the array. -/
def resolveLoop (numAddrs : UInt16) :
    List (Vector UInt8 4) → Nat → List Ipaddr → Option (Nat × List Ipaddr)
  | [], i, ip => some (i, ip)
  | hAddr :: hAddrList, i, ip =>
      if i < numAddrs.toNat then
        if h : i < ip.length then
          resolveLoop numAddrs hAddrList (i + 1)
            (ip.set i { ip[i] with ipVersion := .ip, ipv4 := netNtol hAddr })
        else none
      else some (i, ip)

def ofcNetResolveDnsNameImpl (hentry : Option (List (Vector UInt8 4))) (numAddrs : UInt16)
    (ip : List Ipaddr) : Option (UInt16 × List Ipaddr) :=
  match hentry with
  | none => some (0, ip)
  | some hAddrList =>
      (resolveLoop numAddrs hAddrList 0 ip).map fun (i, ip) => (UInt16.ofNat i, ip)

end Source

def resolved (hAddr : Vector UInt8 4) (ip : Ipaddr) : Ipaddr :=
  { ip with ipVersion := .ip, ipv4 := netNtol hAddr }

variable {numAddrs : UInt16} {ip : List Ipaddr}

theorem resolveLoop_spec (hAddrList : List (Vector UInt8 4)) {i : Nat} (hi : i ≤ numAddrs.toNat)
    (hroom : numAddrs.toNat ≤ ip.length) :
    ∃ ips, resolveLoop numAddrs hAddrList i ip =
        some (min (i + hAddrList.length) numAddrs.toNat, ips) ∧
      ips.length = ip.length ∧
      (∀ j, j < i ∨ min (i + hAddrList.length) numAddrs.toNat ≤ j → ips[j]? = ip[j]?) ∧
      ∀ k hAddr, hAddrList[k]? = some hAddr → i + k < numAddrs.toNat →
        ips[i + k]? = (ip[i + k]?).map (resolved hAddr) := by
  induction hAddrList generalizing i ip with
  | nil =>
    refine ⟨ip, ?_, rfl, fun _ _ => rfl, nofun⟩
    simp [resolveLoop, hi]
  | cons hAddr hAddrList ih =>
    by_cases hlt : i < numAddrs.toNat
    · have hin : i < ip.length := by omega
      let filled := ip.set i (resolved hAddr ip[i])
      have hfilled : numAddrs.toNat ≤ filled.length := by simpa [filled] using hroom
      obtain ⟨ips, hloop, hlength, hrest, hnew⟩ := ih (Nat.succ_le_of_lt hlt) hfilled
      refine ⟨ips, ?_, ?_, ?_, ?_⟩
      · rw [resolveLoop, if_pos hlt, dif_pos hin, List.length_cons,
          show i + (hAddrList.length + 1) = i + 1 + hAddrList.length by omega]
        exact hloop
      · simpa [filled] using hlength
      · intro j hj
        rw [List.length_cons] at hj
        have hne : i ≠ j := by omega
        rw [hrest j (by omega), List.getElem?_set_ne hne]
      · intro k addr hk hroom'
        cases k with
        | zero =>
          obtain rfl := Option.some_inj.mp hk
          rw [Nat.add_zero, hrest i (by omega), List.getElem?_set_self hin,
            List.getElem?_eq_getElem hin]
          rfl
        | succ k =>
          have hne : i ≠ i + (k + 1) := by omega
          have hk := hnew k addr hk (by omega)
          rw [show i + (k + 1) = i + 1 + k by omega] at hne ⊢
          rw [hk, List.getElem?_set_ne hne]
    · have heq : i = numAddrs.toNat := by omega
      refine ⟨ip, ?_, rfl, fun _ _ => rfl, fun k addr _ hk => by omega⟩
      rw [resolveLoop, if_neg hlt, Nat.min_eq_right (by omega), heq]

theorem netLton_netNtol (bytes : Vector UInt8 4) : netLton (netNtol bytes) = bytes.toList := by
  have hlt := BigEndian.load_lt bytes.toList
  have hstore := BigEndian.store_load bytes.toList
  rw [Vector.length_toList] at hlt hstore
  have hload : (netNtol bytes).toNat = BigEndian.load bytes.toList := by
    rw [netNtol, UInt32.toNat_ofNat']
    exact Nat.mod_eq_of_lt hlt
  rw [netLton, hload, hstore]

theorem makeSockaddr_resolved (hAddr : Vector UInt8 4) (ip : Ipaddr) (port : UInt16) :
    makeSockaddr (resolved hAddr ip) port =
      (familyBytes afInet ++ netSton port ++ hAddr.toList ++ List.replicate 8 0,
        sizeofSockaddrIn) := by
  refine Prod.ext ?_ rfl
  have hip : (resolved hAddr ip).ipVersion = .ip := rfl
  rw [makeSockaddr_ip port hip, sockaddrIn]
  simp [resolved, netLton_netNtol]

/-- A program that resolves a name with room for `numAddrs` addresses gets the first of the
addresses that the resolver has, in order and not more than there is room for, and nothing else is
written. When it connects to one of them, the kernel is given the bytes that the resolver had. -/
theorem resolved_reached (hentry : Option (List (Vector UInt8 4)))
    (hroom : numAddrs.toNat ≤ ip.length) :
    ∃ n ips, ofcNetResolveDnsNameImpl hentry numAddrs ip = some (n, ips) ∧
      n.toNat = min (hentry.getD []).length numAddrs.toNat ∧ ips.length = ip.length ∧
      (∀ j, n.toNat ≤ j → ips[j]? = ip[j]?) ∧
      ∀ j hAddr, (hentry.getD [])[j]? = some hAddr → j < n.toNat →
        ∃ found, ips[j]? = some found ∧ ∀ port, makeSockaddr found port =
          (familyBytes afInet ++ netSton port ++ hAddr.toList ++ List.replicate 8 0,
            sizeofSockaddrIn) := by
  cases hentry with
  | none => exact ⟨0, ip, rfl, by simp, rfl, fun _ _ => rfl, by simp⟩
  | some hAddrList =>
    obtain ⟨ips, hloop, hlength, hrest, hnew⟩ :=
      resolveLoop_spec hAddrList (Nat.zero_le _) hroom
    rw [Nat.zero_add] at hloop hrest
    have hlt := numAddrs.toNat_lt
    have hn : (UInt16.ofNat (min hAddrList.length numAddrs.toNat)).toNat =
        min hAddrList.length numAddrs.toNat := by
      rw [UInt16.toNat_ofNat']
      exact Nat.mod_eq_of_lt (by omega)
    refine ⟨UInt16.ofNat (min hAddrList.length numAddrs.toNat), ips, ?_, hn, hlength,
      fun j hj => hrest j (.inr (hn ▸ hj)), ?_⟩
    · simp [ofcNetResolveDnsNameImpl, hloop]
    · intro j hAddr hj hjn
      rw [hn] at hjn
      have hin : j < ip.length := by omega
      have hfound := hnew j hAddr hj (by omega)
      rw [Nat.zero_add, List.getElem?_eq_getElem hin] at hfound
      exact ⟨resolved hAddr ip[j], hfound, makeSockaddr_resolved hAddr ip[j]⟩

def twoAddresses : List (Vector UInt8 4) := [#v[192, 0, 2, 1], #v[192, 0, 2, 2]]

theorem resolved_reached_twoAddresses : ∃ n ips,
    ofcNetResolveDnsNameImpl (some twoAddresses) 1 [⟨.ipv6, 0, ⟨Vector.replicate 16 0, 0⟩⟩] =
      some (n, ips) ∧ n.toNat = 1 ∧
    ∃ found, ips[0]? = some found ∧ (makeSockaddr found 445).1 =
      familyBytes afInet ++ netSton 445 ++ [192, 0, 2, 1] ++ List.replicate 8 0 := by
  let room : List Ipaddr := [⟨.ipv6, 0, ⟨Vector.replicate 16 0, 0⟩⟩]
  have hroom : (1 : UInt16).toNat ≤ room.length := by decide
  obtain ⟨n, ips, hresolve, hn, -, -, hall⟩ := resolved_reached (some twoAddresses) hroom
  have hn : n.toNat = 1 := hn
  obtain ⟨found, hfound, hbytes⟩ := hall 0 #v[192, 0, 2, 1] rfl (by omega)
  exact ⟨n, ips, hresolve, hn, found, hfound, congrArg Prod.fst (hbytes 445)⟩

end CoreAndroid.Net
