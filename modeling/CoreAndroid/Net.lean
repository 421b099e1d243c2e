import CoreAndroid.Socket.Address
import Mathlib.Data.List.Range
import Mathlib.Data.List.TakeWhile

/-! The network interfaces of net_android.c: one function counts those that can be used, the
other finds one of them by its index. Each walks the table of `SIOCGIFCONF` with a byte counter
and a cursor of its own. -/
namespace CoreAndroid.Net
open Socket (Ipaddr afInet netNtol)

section Source

def text (ifrName : Vector UInt8 16) : List UInt8 := ifrName.toList.takeWhile (· ≠ 0)

def ascii (chars : List Char) : List UInt8 := chars.map fun c => UInt8.ofNat c.toNat

def wlan : List UInt8 := ascii ['w', 'l', 'a', 'n']
def eth : List UInt8 := ascii ['e', 't', 'h']
def tun : List UInt8 := ascii ['t', 'u', 'n']
def p2pWlan : List UInt8 := ascii ['p', '2', 'p', '-', 'w', 'l', 'a', 'n']

structure Ifreq where
  ifrName : Vector UInt8 16
  saFamily : Nat

/-- What the kernel answers, with `none` for a call that fails. It is asked by name about the
entry at some place of the table; entries of one name need not get one answer. -/
structure Kernel where
  sock : Int -- the descriptor of the unbound socket
  table : Option (List Ifreq) -- `SIOCGIFCONF`
  flags : Nat → List UInt8 → Option UInt16 -- `SIOCGIFFLAGS`
  addr : Nat → List UInt8 → Option (Vector UInt8 4) -- `SIOCGIFADDR`
  netmask : Nat → List UInt8 → Option (Vector UInt8 4) -- `SIOCGIFNETMASK`
  brdaddr : Nat → List UInt8 → Option (Vector UInt8 4) -- `SIOCGIFBRDADDR`

structure Core where
  strncpy : Vector UInt8 16 → Vector UInt8 16 → Nat → Vector UInt8 16 -- `ofc_strncpy`
  strncmp : List UInt8 → List UInt8 → Nat → Int -- `ofc_strncmp`
  inaddrNone : UInt32 -- `OFC_INADDR_NONE`

def ifnamsiz : Nat := 16
def sizeofIfreq : Nat := 40
def iffUp : UInt16 := 0x1
def iffLoopback : UInt16 := 0x8

variable (core : Core) (kernel : Kernel)

def nameWanted (ifrName : Vector UInt8 16) : Bool :=
  core.strncmp (text ifrName) wlan 4 = 0 || core.strncmp (text ifrName) eth 3 = 0 ||
    core.strncmp (text ifrName) tun 3 = 0 || core.strncmp (text ifrName) p2pWlan 8 = 0

def flagsWanted (ifrFlags : UInt16) : Bool :=
  ifrFlags &&& iffUp ≠ 0 && !(ifrFlags &&& iffLoopback ≠ 0)

def countEntry (pifreq : Nat) (entry : Ifreq) (maxCount : Int) (ifrName : Vector UInt8 16) :
    Int × Vector UInt8 16 :=
  if entry.saFamily = afInet then
    let ifrName := core.strncpy ifrName entry.ifrName ifnamsiz
    if nameWanted core ifrName then
      match kernel.flags pifreq (text ifrName) with
      | some ifrFlags =>
          if flagsWanted ifrFlags then (maxCount + 1, ifrName) else (maxCount, ifrName)
      | none => (maxCount, ifrName)
    else (maxCount, ifrName)
  else (maxCount, ifrName)

/-- There is no result if the cursor leaves the table. -/
def countLoop (table : List Ifreq) (i pifreq : Nat) (maxCount : Int)
    (ifrName : Vector UInt8 16) : Option Int :=
  if i < sizeofIfreq * table.length then
    table[pifreq]?.bind fun entry =>
      let (maxCount, ifrName) := countEntry core kernel pifreq entry maxCount ifrName
      countLoop table (i + sizeofIfreq) (pifreq + 1) maxCount ifrName
  else some maxCount
termination_by sizeofIfreq * table.length - i
decreasing_by
  unfold sizeofIfreq at *
  omega

/-- `ifrName` is what the stack holds. -/
def ofcNetInterfaceCountImpl (ifrName : Vector UInt8 16) : Option Int :=
  if kernel.sock ≥ 0 then
    match kernel.table with
    | some table => countLoop core kernel table 0 0 0 ifrName
    | none => some 0
  else some 0

/-- The body of the second loop: what it makes of `found`, of `max_count` and of the name. -/
def findEntry (index : Int) (pifreq : Nat) (entry : Ifreq) (maxCount : Int)
    (ifrName : Vector UInt8 16) : Bool × Int × Vector UInt8 16 :=
  if entry.saFamily = afInet then
    let ifrName := core.strncpy ifrName entry.ifrName ifnamsiz
    if nameWanted core ifrName then
      match kernel.flags pifreq (text ifrName) with
      | some ifrFlags =>
          if flagsWanted ifrFlags then (index = maxCount, maxCount + 1, ifrName)
          else (false, maxCount, ifrName)
      | none => (false, maxCount, ifrName)
    else (false, maxCount, ifrName)
  else (false, maxCount, ifrName)

structure Cursor where
  found : Bool
  pifreq : Nat
  ifrName : Vector UInt8 16

def findLoop (index : Int) (table : List Ifreq) (i : Nat) (maxCount : Int) (cursor : Cursor) :
    Option Cursor :=
  if i < sizeofIfreq * table.length ∧ !cursor.found then
    table[cursor.pifreq]?.bind fun entry =>
      let (found, maxCount, ifrName) :=
        findEntry core kernel index cursor.pifreq entry maxCount cursor.ifrName
      let pifreq := if !found then cursor.pifreq + 1 else cursor.pifreq
      findLoop index table (i + sizeofIfreq) maxCount ⟨found, pifreq, ifrName⟩
  else some cursor
termination_by sizeofIfreq * table.length - i
decreasing_by
  unfold sizeofIfreq at *
  omega

structure Outputs where
  pinaddr : Option Ipaddr
  pbcast : Option Ipaddr
  pmask : Option Ipaddr

def noAddr (addr : Ipaddr) : Ipaddr := { addr with ipVersion := .ip, ipv4 := core.inaddrNone }

def askAddr (ioctl : Nat → List UInt8 → Option (Vector UInt8 4)) (pifreq : Nat) (entry : Ifreq)
    (ifrName : Vector UInt8 16) : Option Ipaddr → Option Ipaddr × Vector UInt8 16
  | none => (none, ifrName)
  | some addr =>
      let ifrName := core.strncpy ifrName entry.ifrName ifnamsiz
      match ioctl pifreq (text ifrName) with
      | some sAddr => (some { addr with ipv4 := netNtol sAddr }, ifrName)
      | none => (some addr, ifrName)

def ofcNetInterfaceAddrImpl (index : Int) (out : Outputs) (ifrName : Vector UInt8 16) :
    Option Outputs :=
  let out : Outputs :=
    ⟨out.pinaddr.map (noAddr core), out.pbcast.map (noAddr core), out.pmask.map (noAddr core)⟩
  if kernel.sock ≥ 0 then
    match kernel.table with
    | some table =>
        (findLoop core kernel index table 0 0 ⟨false, 0, ifrName⟩).bind fun cursor =>
          if cursor.found then
            table[cursor.pifreq]?.map fun entry =>
              let (pinaddr, ifrName) :=
                askAddr core kernel.addr cursor.pifreq entry cursor.ifrName out.pinaddr
              let (pmask, ifrName) :=
                askAddr core kernel.netmask cursor.pifreq entry ifrName out.pmask
              let (pbcast, _) :=
                askAddr core kernel.brdaddr cursor.pifreq entry ifrName out.pbcast
              ⟨pinaddr, pbcast, pmask⟩
          else some out
    | none => some out
  else some out

end Source

/-- The string functions do what their C namesakes do. -/
structure Core.Standard (core : Core) : Prop where
  strncpy : ∀ dst src, text (core.strncpy dst src ifnamsiz) = text src
  strncmp : ∀ s t n, core.strncmp s t n = 0 ↔ s.take n = t.take n

section Spec
variable (core : Core) (kernel : Kernel)

def prefixes : List (List UInt8) := [wlan, eth, tun, p2pWlan]

/-- An IPv4 entry with a wanted name, that is up and not a loopback. -/
structure Eligible (place : Nat) (entry : Ifreq) : Prop where
  family : entry.saFamily = afInet
  name : ∃ start ∈ prefixes, start <+: text entry.ifrName
  flags : ∃ ifrFlags, kernel.flags place (text entry.ifrName) = some ifrFlags ∧
    ifrFlags &&& iffUp ≠ 0 ∧ ifrFlags &&& iffLoopback = 0

def eligible (place : Nat) (entry : Ifreq) : Bool :=
  entry.saFamily = afInet && nameWanted core entry.ifrName &&
    (kernel.flags place (text entry.ifrName)).any flagsWanted

def eligiblePlaces (table : List Ifreq) (place n : Nat) : List Nat :=
  (List.range' place n).filter fun place => table[place]?.any (eligible core kernel place)

def Outputs.answered (out : Outputs) (table : List Ifreq) (place : Option Nat) : Outputs :=
  let address (ioctl : Nat → List UInt8 → Option (Vector UInt8 4)) (addr : Ipaddr) : Ipaddr :=
    { addr with
      ipVersion := .ip
      ipv4 := (place.bind fun place => table[place]?.bind fun entry =>
        ioctl place (text entry.ifrName)).elim core.inaddrNone netNtol }
  ⟨out.pinaddr.map (address kernel.addr), out.pbcast.map (address kernel.brdaddr),
    out.pmask.map (address kernel.netmask)⟩

end Spec

section Loops
variable {core : Core} {kernel : Kernel} {table : List Ifreq}

theorem strncmp_prefix (hcore : core.Standard) (s start : List UInt8) :
    core.strncmp s start start.length = 0 ↔ start <+: s := by
  rw [hcore.strncmp, List.take_length, List.prefix_iff_eq_take, eq_comm]

theorem nameWanted_iff (hcore : core.Standard) (ifrName : Vector UInt8 16) :
    nameWanted core ifrName = true ↔ ∃ start ∈ prefixes, start <+: text ifrName := by
  have hwlan := strncmp_prefix hcore (text ifrName) wlan
  have heth := strncmp_prefix hcore (text ifrName) eth
  have htun := strncmp_prefix hcore (text ifrName) tun
  have hp2p := strncmp_prefix hcore (text ifrName) p2pWlan
  simp only [nameWanted, Bool.or_eq_true, decide_eq_true_eq, prefixes, List.mem_cons,
    List.not_mem_nil, or_false, exists_eq_or_imp, exists_eq_left, ← hwlan, ← heth, ← htun, ← hp2p,
    or_assoc]
  rfl

theorem nameWanted_strncpy (hcore : core.Standard) (dst src : Vector UInt8 16) :
    nameWanted core (core.strncpy dst src ifnamsiz) = nameWanted core src := by
  simp only [nameWanted, hcore.strncpy]

theorem eligible_iff (hcore : core.Standard) (place : Nat) (entry : Ifreq) :
    eligible core kernel place entry = true ↔ Eligible kernel place entry := by
  simp only [eligible, Bool.and_eq_true, decide_eq_true_eq, Option.any_eq_true, flagsWanted,
    Bool.not_eq_true', decide_eq_false_iff_not, not_not, nameWanted_iff hcore]
  constructor
  · rintro ⟨⟨hfamily, hname⟩, hflags⟩
    exact ⟨hfamily, hname, hflags⟩
  · rintro ⟨hfamily, hname, hflags⟩
    exact ⟨⟨hfamily, hname⟩, hflags⟩

theorem countEntry_eq (hcore : core.Standard) (kernel : Kernel) (pifreq : Nat) (entry : Ifreq)
    (maxCount : Int) (ifrName : Vector UInt8 16) :
    (countEntry core kernel pifreq entry maxCount ifrName).1 =
      if eligible core kernel pifreq entry then maxCount + 1 else maxCount := by
  unfold countEntry eligible
  by_cases hfamily : entry.saFamily = afInet
  · cases hname : nameWanted core entry.ifrName with
    | false => simp [hfamily, nameWanted_strncpy hcore, hname]
    | true =>
      simp only [hfamily, nameWanted_strncpy hcore, hcore.strncpy, hname]
      cases kernel.flags pifreq (text entry.ifrName) with
      | none => rfl
      | some ifrFlags => cases hup : flagsWanted ifrFlags <;> simp [hup]
  · simp [hfamily]

theorem findEntry_eq (hcore : core.Standard) (index : Int) (pifreq : Nat) (entry : Ifreq)
    (maxCount : Int) (ifrName : Vector UInt8 16) :
    findEntry core kernel index pifreq entry maxCount ifrName =
      (eligible core kernel pifreq entry && index = maxCount,
        countEntry core kernel pifreq entry maxCount ifrName) := by
  unfold findEntry countEntry eligible
  by_cases hfamily : entry.saFamily = afInet
  · cases hname : nameWanted core entry.ifrName with
    | false => simp [hfamily, nameWanted_strncpy hcore, hname]
    | true =>
      simp only [hfamily, nameWanted_strncpy hcore, hcore.strncpy, hname]
      cases kernel.flags pifreq (text entry.ifrName) with
      | none => simp
      | some ifrFlags => cases hup : flagsWanted ifrFlags <;> simp [hup]
  · simp [hfamily]

theorem eligiblePlaces_succ {place n : Nat} {entry : Ifreq} (hentry : table[place]? = some entry) :
    eligiblePlaces core kernel table place (n + 1) =
      if eligible core kernel place entry
      then place :: eligiblePlaces core kernel table (place + 1) n
      else eligiblePlaces core kernel table (place + 1) n := by
  simp [eligiblePlaces, List.range'_succ, List.filter_cons, hentry]

theorem countLoop_eq (hcore : core.Standard) (kernel : Kernel) {pifreq n : Nat}
    (hn : pifreq + n = table.length) (maxCount : Int) (ifrName : Vector UInt8 16) :
    countLoop core kernel table (sizeofIfreq * pifreq) pifreq maxCount ifrName =
      some (maxCount + (eligiblePlaces core kernel table pifreq n).length) := by
  induction n generalizing pifreq maxCount ifrName with
  | zero =>
    unfold countLoop
    rw [if_neg (by simp [← hn])]
    simp [eligiblePlaces]
  | succ n ih =>
    have hin : pifreq < table.length := by omega
    have hentry : table[pifreq]? = some table[pifreq] := List.getElem?_eq_getElem hin
    unfold countLoop
    rw [if_pos (Nat.mul_lt_mul_of_pos_left hin (by decide)), hentry, Option.bind_some]
    dsimp only
    rw [← Nat.mul_succ, ih (by omega), countEntry_eq hcore, eligiblePlaces_succ hentry]
    split <;> simp [add_assoc, add_comm]

def nth (places : List Nat) (k : Int) : Option Nat := if 0 ≤ k then places[k.toNat]? else none

theorem nth_cons (place : Nat) (places : List Nat) (k : Int) :
    nth (place :: places) k = if k = 0 then some place else nth places (k - 1) := by
  unfold nth
  rcases lt_trichotomy k 0 with hneg | rfl | hpos
  · rw [if_neg (by omega), if_neg (by omega), if_neg (by omega)]
  · rfl
  · obtain ⟨m, rfl⟩ : ∃ m : Nat, k = m + 1 := ⟨(k - 1).toNat, by omega⟩
    rw [if_pos (by omega), if_neg (by omega), if_pos (by omega)]
    have hsucc : ((m : Int) + 1).toNat = m + 1 := by omega
    have hpred : ((m : Int) + 1 - 1).toNat = m := by omega
    rw [hsucc, hpred, List.getElem?_cons_succ]

theorem findLoop_found (index : Int) (i : Nat) (maxCount : Int) (pifreq : Nat)
    (ifrName : Vector UInt8 16) :
    findLoop core kernel index table i maxCount ⟨true, pifreq, ifrName⟩ =
      some ⟨true, pifreq, ifrName⟩ := by
  unfold findLoop
  exact if_neg fun hgo => by cases hgo.2

theorem findLoop_eq (hcore : core.Standard) (kernel : Kernel) (index : Int) {pifreq n : Nat}
    (hn : pifreq + n = table.length) (maxCount : Int) (ifrName : Vector UInt8 16) :
    ∃ cursor, findLoop core kernel index table (sizeofIfreq * pifreq) maxCount
        ⟨false, pifreq, ifrName⟩ = some cursor ∧
      match nth (eligiblePlaces core kernel table pifreq n) (index - maxCount) with
      | some place => cursor.found = true ∧ cursor.pifreq = place
      | none => cursor.found = false := by
  induction n generalizing pifreq maxCount ifrName with
  | zero =>
    unfold findLoop
    rw [if_neg (by simp [← hn])]
    exact ⟨_, rfl, by simp [eligiblePlaces, nth]⟩
  | succ n ih =>
    have hin : pifreq < table.length := by omega
    have hentry : table[pifreq]? = some table[pifreq] := List.getElem?_eq_getElem hin
    unfold findLoop
    rw [if_pos ⟨Nat.mul_lt_mul_of_pos_left hin (by decide), rfl⟩]
    dsimp only
    rw [hentry, Option.bind_some]
    have hcount := countEntry_eq hcore kernel pifreq table[pifreq] maxCount ifrName
    simp only [findEntry_eq hcore, ← Nat.mul_succ, hcount]
    rw [eligiblePlaces_succ hentry]
    cases heligible : eligible core kernel pifreq table[pifreq] with
    | false => exact ih (by omega) maxCount _
    | true =>
      simp only [if_true, nth_cons]
      by_cases hhere : index = maxCount
      · simp only [hhere, sub_self, if_true]
        exact ⟨_, findLoop_found _ _ _ _ _, rfl, rfl⟩
      · have hleft : index - maxCount ≠ 0 := by omega
        simp only [hhere, hleft, if_false]
        rw [sub_sub]
        exact ih (by omega) (maxCount + 1) _

theorem askAddr_eq (hcore : core.Standard) (ioctl : Nat → List UInt8 → Option (Vector UInt8 4))
    (place : Nat) (entry : Ifreq) (ifrName : Vector UInt8 16) (p : Option Ipaddr) :
    (askAddr core ioctl place entry ifrName (p.map (noAddr core))).1 = p.map fun addr =>
      { addr with
        ipVersion := .ip
        ipv4 := (ioctl place (text entry.ifrName)).elim core.inaddrNone netNtol } := by
  cases p with
  | none => rfl
  | some addr =>
    simp only [Option.map_some, askAddr, hcore.strncpy]
    cases ioctl place (text entry.ifrName) <;> rfl

end Loops

section Agreement
variable {core : Core} {kernel : Kernel} {table : List Ifreq}

theorem mem_eligiblePlaces (hcore : core.Standard) (place : Nat) :
    place ∈ eligiblePlaces core kernel table 0 table.length ↔
      ∃ entry, table[place]? = some entry ∧ Eligible kernel place entry := by
  simp only [eligiblePlaces, List.mem_filter, List.mem_range', Option.any_eq_true,
    eligible_iff hcore]
  constructor
  · rintro ⟨-, hentry⟩
    exact hentry
  · rintro ⟨entry, hentry, heligible⟩
    obtain ⟨hin, -⟩ := List.getElem?_eq_some_iff.mp hentry
    exact ⟨⟨place, hin, by simp⟩, entry, hentry, heligible⟩

theorem nth_mem {places : List Nat} {k : Int} {place : Nat} (h : nth places k = some place) :
    place ∈ places :=
  List.mem_of_getElem? (Option.ite_none_right_eq_some.mp h).2

theorem count_eq (hcore : core.Standard) (hsock : 0 ≤ kernel.sock)
    (htable : kernel.table = some table) (ifrName : Vector UInt8 16) :
    ofcNetInterfaceCountImpl core kernel ifrName =
      some ((eligiblePlaces core kernel table 0 table.length).length : Int) := by
  have hloop := countLoop_eq hcore kernel (Nat.zero_add table.length) 0 ifrName
  rw [Int.zero_add] at hloop
  simp only [ofcNetInterfaceCountImpl, ge_iff_le, hsock, if_true, htable]
  exact hloop

theorem addr_eq (hcore : core.Standard) (hsock : 0 ≤ kernel.sock)
    (htable : kernel.table = some table) (index : Int) (out : Outputs)
    (ifrName : Vector UInt8 16) :
    ofcNetInterfaceAddrImpl core kernel index out ifrName =
      some (out.answered core kernel table
        (nth (eligiblePlaces core kernel table 0 table.length) index)) := by
  obtain ⟨cursor, hloop, hcursor⟩ :=
    findLoop_eq hcore kernel index (Nat.zero_add table.length) 0 ifrName
  rw [sub_zero] at hcursor
  have hloop' : findLoop core kernel index table 0 0 ⟨false, 0, ifrName⟩ = some cursor := hloop
  simp only [ofcNetInterfaceAddrImpl, ge_iff_le, hsock, if_true, htable, hloop', Option.bind_some]
  cases hplace : nth (eligiblePlaces core kernel table 0 table.length) index with
  | none =>
    rw [hplace] at hcursor
    simp only [hcursor, Outputs.answered]
    rfl
  | some place =>
    rw [hplace] at hcursor
    obtain ⟨hfound, rfl⟩ := hcursor
    obtain ⟨entry, hentry, -⟩ := (mem_eligiblePlaces hcore _).mp (nth_mem hplace)
    simp only [hfound, hentry, if_true, Option.map_some, askAddr_eq hcore, Outputs.answered,
      Option.bind_some]

/-- The two functions agree: the eligible entries, in the order of the table, are counted by
one and found at their indices, from 0 on, by the other; at any other index nothing is found. -/
theorem interface_lookup_agrees (hcore : core.Standard) (hsock : 0 ≤ kernel.sock)
    (htable : kernel.table = some table) : ∃ places : List Nat,
    places.Pairwise (· < ·) ∧
    (∀ place, place ∈ places ↔
      ∃ entry, table[place]? = some entry ∧ Eligible kernel place entry) ∧
    (∀ ifrName, ofcNetInterfaceCountImpl core kernel ifrName = some (places.length : Int)) ∧
    (∀ (index : Nat) (hindex : index < places.length) out ifrName,
      ofcNetInterfaceAddrImpl core kernel index out ifrName =
        some (out.answered core kernel table (some places[index]))) ∧
    ∀ index : Int, index < 0 ∨ places.length ≤ index → ∀ out ifrName,
      ofcNetInterfaceAddrImpl core kernel index out ifrName =
        some (out.answered core kernel table none) := by
  refine ⟨eligiblePlaces core kernel table 0 table.length, ?_, mem_eligiblePlaces hcore,
    count_eq hcore hsock htable, ?_, ?_⟩
  · exact List.Pairwise.filter _ List.pairwise_lt_range'
  · intro index hindex out ifrName
    rw [addr_eq hcore hsock htable]
    simp [nth, hindex]
  · intro index hother out ifrName
    rw [addr_eq hcore hsock htable]
    have hnone : nth (eligiblePlaces core kernel table 0 table.length) index = none := by
      unfold nth
      split
      · rw [List.getElem?_eq_none_iff]
        omega
      · rfl
    rw [hnone]

end Agreement

section Example

def cStrings : Core where
  strncpy dst src n := Vector.ofFn fun i => if i < n then (text src).getD i 0 else dst[i]
  strncmp s t n :=
    if s.take n = t.take n then 0 else if s.take n < t.take n then -1 else 1
  inaddrNone := 0xffffffff

theorem text_length (ifrName : Vector UInt8 16) : (text ifrName).length ≤ 16 := by
  have hle := (List.takeWhile_sublist (l := ifrName.toList) (· ≠ 0)).length_le
  simpa [text] using hle

theorem text_padded {chars : List UInt8} (hlength : chars.length ≤ 16)
    (hchars : ∀ c ∈ chars, c ≠ 0) : text (Vector.ofFn fun i => chars.getD i 0) = chars := by
  have hpadded : (Vector.ofFn fun i : Fin 16 => chars.getD i 0).toList =
      chars ++ List.replicate (16 - chars.length) 0 := by
    apply List.ext_getElem
    · simp
      omega
    · intro i hi hi'
      by_cases hin : i < chars.length
      · simp [hin]
      · simp [hin, List.getElem_append_right (not_lt.mp hin)]
  unfold text
  rw [hpadded, List.takeWhile_append_of_pos (by simpa using hchars)]
  simp

theorem cStrings_standard : cStrings.Standard := by
  constructor
  · intro dst src
    have hcopied : cStrings.strncpy dst src ifnamsiz =
        Vector.ofFn fun i => (text src).getD i 0 := by
      unfold cStrings ifnamsiz
      dsimp only
      congr 1
      funext i
      exact if_pos i.isLt
    rw [hcopied]
    apply text_padded (text_length src)
    intro c hc
    simpa using List.mem_takeWhile_imp hc
  · intro s t n
    unfold cStrings
    dsimp only
    split_ifs with heq hlt <;> simp [heq]

def nameOf (chars : List Char) : Vector UInt8 16 := Vector.ofFn fun i => (ascii chars).getD i 0

def fewInterfaces : List Ifreq :=
  [⟨nameOf ['l', 'o'], afInet⟩, ⟨nameOf ['w', 'l', 'a', 'n', '0'], afInet⟩,
    ⟨nameOf ['e', 't', 'h', '0'], afInet⟩, ⟨nameOf ['t', 'u', 'n', '0'], afInet⟩]

def fewAnswers : Kernel where
  sock := 3
  table := some fewInterfaces
  flags place _ := some (if place = 0 then 9 else if place = 2 then 0 else 1)
  addr place _ := some #v[10, 0, 0, UInt8.ofNat place]
  netmask _ _ := some #v[255, 255, 255, 0]
  brdaddr _ _ := none

theorem interface_lookup_few : ∃ places : List Nat, places.Pairwise (· < ·) ∧
    (∀ place, place ∈ places ↔
      ∃ entry, fewInterfaces[place]? = some entry ∧ Eligible fewAnswers place entry) ∧
    ∀ ifrName, ofcNetInterfaceCountImpl cStrings fewAnswers ifrName =
      some (places.length : Int) := by
  have hsock : 0 ≤ fewAnswers.sock := by decide
  have htable : fewAnswers.table = some fewInterfaces := rfl
  obtain ⟨places, hsorted, hmem, hcount, -⟩ :=
    interface_lookup_agrees cStrings_standard hsock htable
  exact ⟨places, hsorted, hmem, hcount⟩

end Example

end CoreAndroid.Net
