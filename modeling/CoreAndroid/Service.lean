import Mathlib.Data.List.Range

/-! The service lookup of net_android.c, in a build with `OFC_KERBEROS`: what
`ofc_net_resolve_svc` stores, and the names of the servers in the answer. What the
resolver library answers is a parameter; memory for the entries is there. -/
namespace CoreAndroid.Service

section Source

abbrev Text := List UInt8

/-- What is used of an `ns_rr`: its type, and the address of its data. -/
structure NsRr where
  type : UInt16
  rdata : Nat

structure NsMsg where
  count : UInt16 -- `ns_msg_count` of the section `ns_s_an`
  parserr : Nat → Option NsRr -- `ns_parserr` in the section `ns_s_an`
  -- `dn_expand` of what is at an address, into a buffer of some size
  dnExpand : Nat → Nat → Option Text

/-- The resolver library. A call of `ns_initparse` that fails leaves a handle of any content. -/
structure Resolver where
  resInit : Int
  -- the service, the class, the type and the size of the buffer for the answer
  resSearch : Text → Nat → UInt16 → Nat → Int
  nsInitparse : Int → Int × NsMsg -- the status, and the handle for so many bytes of the answer

def packetsz : Nat := 512
def maxcdname : Nat := 255
def nsInt16sz : Nat := 2
def cIn : Nat := 1
def tSrv : UInt16 := 33

/-- What a call leaves: `none` stands for what it does not write. -/
structure Lookup where
  count : Option UInt32
  dc : Option (List (Option Text))
  parsed : Option Int -- the length that the parser was given
  log : List String -- the warnings of the call

/-- The body of the loop. -/
def storeEntry (handle : NsMsg) (dc : List (Option Text)) (i : Nat) : List (Option Text) :=
  match handle.parserr i with
  | none => dc
  | some rr =>
    if rr.type = tSrv then
      match handle.dnExpand (rr.rdata + 3 * nsInt16sz) maxcdname with
      | some dname => dc.set i (some dname)
      | none => dc
    else dc

def ofcNetResolveSvc (resolver : Resolver) (svc : Text) : Lookup :=
  if resolver.resInit = 0 then
    let len := resolver.resSearch svc cIn tSrv packetsz
    if len ≥ 0 then
      -- the status is not looked at
      let (_, handle) := resolver.nsInitparse len
      let count := handle.count.toUInt32
      -- room for the square of the count
      let dc := List.replicate (count.toNat * count.toNat) none
      let dc := (List.range handle.count.toNat).foldl (storeEntry handle) dc
      { count := some count, dc := some dc, parsed := some len, log := [] }
    else
      { count := none, dc := none, parsed := none
        log := ["Could not resolve search for kerberos\n"] }
  else
    { count := none, dc := none, parsed := none
      log := ["Could Not Init Resolver Library for getting Domain DC\n"] }

end Source

section Loop
variable (handle : NsMsg)

def target (i : Nat) : Option Text :=
  (handle.parserr i).bind fun rr =>
    if rr.type = tSrv then handle.dnExpand (rr.rdata + 3 * nsInt16sz) maxcdname else none

theorem storeEntry_none {i : Nat} (h : target handle i = none) (dc : List (Option Text)) :
    storeEntry handle dc i = dc := by
  unfold storeEntry
  cases hrr : handle.parserr i with
  | none => rfl
  | some rr =>
    by_cases hsrv : rr.type = tSrv
    · have hname : handle.dnExpand (rr.rdata + 3 * nsInt16sz) maxcdname = none := by
        simpa [target, hrr, hsrv] using h
      simp [hsrv, hname]
    · simp [hsrv]

theorem storeEntry_some {i : Nat} {dname : Text} (h : target handle i = some dname)
    (dc : List (Option Text)) : storeEntry handle dc i = dc.set i (some dname) := by
  obtain ⟨rr, hrr, hname⟩ := Option.bind_eq_some_iff.mp h
  obtain ⟨hsrv, hname⟩ := Option.ite_none_right_eq_some.mp hname
  simp [storeEntry, hrr, hsrv, hname]

theorem store_range (n size : Nat) (hsize : n ≤ size) :
    (List.range n).foldl (storeEntry handle) (List.replicate size none) =
      (List.range n).map (target handle) ++ List.replicate (size - n) none := by
  induction n with
  | zero => rfl
  | succ n ih =>
    have hroom : size - n = (size - (n + 1)) + 1 := by omega
    rw [List.range_succ, List.foldl_append, ih (by omega), hroom, List.replicate_succ]
    cases h : target handle n with
    | none => simp [storeEntry_none handle h, h]
    | some dname => simp [storeEntry_some handle h, h]

end Loop

section Answer
variable (resolver : Resolver) (svc : Text)

def targets (handle : NsMsg) : List Text :=
  (List.range handle.count.toNat).filterMap (target handle)

def Resolver.length : Int := resolver.resSearch svc cIn tSrv packetsz

def names : List Text :=
  let (status, handle) := resolver.nsInitparse (resolver.length svc)
  if resolver.resInit = 0 ∧ 0 ≤ resolver.length svc ∧ 0 ≤ status then targets handle else []

/-- The count is set and the entries are the names, with nothing between them or after,
and the parser was kept to the buffer. -/
structure Filled (found : List Text) (lookup : Lookup) : Prop where
  count : lookup.count.map UInt32.toNat = some found.length
  stored : (lookup.dc.getD []).countP Option.isSome = found.length
  entries : ∀ i < found.length, (lookup.dc.getD [])[i]? = some found[i]?
  parsed : ∀ len, lookup.parsed = some len → len ≤ packetsz

/-- The library finds an answer that fits into the buffer. If it parses, every record of
the section has a target; if not, the handle is left with a count of 0. -/
structure Plain : Prop where
  inited : resolver.resInit = 0
  found : 0 ≤ resolver.length svc
  fits : resolver.length svc ≤ packetsz
  records : 0 ≤ (resolver.nsInitparse (resolver.length svc)).1 →
    ∀ i < (resolver.nsInitparse (resolver.length svc)).2.count.toNat,
      (target (resolver.nsInitparse (resolver.length svc)).2 i).isSome = true
  unparsed : (resolver.nsInitparse (resolver.length svc)).1 < 0 →
    (resolver.nsInitparse (resolver.length svc)).2.count = 0

theorem resolveSvc_found (hinit : resolver.resInit = 0) (hfound : 0 ≤ resolver.length svc)
    {status : Int} {handle : NsMsg}
    (hparse : resolver.nsInitparse (resolver.length svc) = (status, handle)) :
    ofcNetResolveSvc resolver svc =
      { count := some handle.count.toUInt32
        dc := some ((List.range handle.count.toNat).map (target handle) ++
          List.replicate (handle.count.toNat * handle.count.toNat - handle.count.toNat) none)
        parsed := some (resolver.length svc)
        log := [] } := by
  unfold Resolver.length at hfound hparse ⊢
  simp only [ofcNetResolveSvc, hinit, if_true, ge_iff_le, hfound, hparse,
    UInt16.toNat_toUInt32]
  rw [store_range handle _ _ (Nat.le_mul_self _)]

theorem resolveSvc_lost (h : ¬ (resolver.resInit = 0 ∧ 0 ≤ resolver.length svc)) :
    (ofcNetResolveSvc resolver svc).count = none := by
  unfold ofcNetResolveSvc
  split
  case isTrue hinit =>
    have hlost : ¬ resolver.resSearch svc cIn tSrv packetsz ≥ 0 := fun hfound => h ⟨hinit, hfound⟩
    simp [hlost]
  case isFalse => rfl

theorem names_found (hinit : resolver.resInit = 0) (hfound : 0 ≤ resolver.length svc)
    {status : Int} {handle : NsMsg}
    (hparse : resolver.nsInitparse (resolver.length svc) = (status, handle)) :
    names resolver svc = if 0 ≤ status then targets handle else [] := by
  simp [names, hinit, hfound, hparse]

theorem targets_length {handle : NsMsg} : (targets handle).length = handle.count.toNat ↔
    ∀ i < handle.count.toNat, (target handle i).isSome = true := by
  have hlength : handle.count.toNat = (List.range handle.count.toNat).length := by simp
  rw [targets, List.length_filterMap_eq_countP]
  conv_lhs => rhs; rw [hlength]
  rw [List.countP_eq_length]
  simp

theorem map_target {handle : NsMsg}
    (h : ∀ i < handle.count.toNat, (target handle i).isSome = true) :
    (List.range handle.count.toNat).map (target handle) = (targets handle).map some := by
  have hget : ∀ i ∈ List.range handle.count.toNat,
      target handle i = some ((target handle i).getD []) := by
    intro i hi
    obtain ⟨dname, hdname⟩ := Option.isSome_iff_exists.mp (h i (List.mem_range.mp hi))
    rw [hdname, Option.getD_some]
  have hall : targets handle =
      (List.range handle.count.toNat).map fun i => (target handle i).getD [] := by
    rw [targets, List.filterMap_congr hget, ← List.filterMap_eq_map]
    rfl
  rw [hall, List.map_map]
  exact List.map_congr_left hget

theorem filled_of_names {found : List Text} {lookup : Lookup} {free : Nat} {count : UInt32}
    (hcount : lookup.count = some count) (hlength : count.toNat = found.length)
    (hdc : lookup.dc = some (found.map some ++ List.replicate free none))
    (hparsed : ∀ len, lookup.parsed = some len → len ≤ packetsz) : Filled found lookup where
  count := by rw [hcount, Option.map_some, hlength]
  stored := by
    have hall : (found.map some).countP Option.isSome = found.length := by simp
    simp [hdc, List.countP_append, hall, List.countP_replicate]
  entries i hi := by
    have hat : i < (found.map some).length := by simpa using hi
    rw [hdc, Option.getD_some, List.getElem?_append_left hat, List.getElem?_map,
      List.getElem?_eq_getElem hi, Option.map_some]
  parsed := hparsed

/-- Every entry below the count is the name at its place exactly where the library finds a
packet that fits and every record of its answer section has a target. -/
theorem service_filled_iff :
    Filled (names resolver svc) (ofcNetResolveSvc resolver svc) ↔ Plain resolver svc := by
  rcases hparse : resolver.nsInitparse (resolver.length svc) with ⟨status, handle⟩
  constructor
  · intro hfilled
    by_cases hup : resolver.resInit = 0 ∧ 0 ≤ resolver.length svc
    case neg =>
      have hcount := hfilled.count
      rw [resolveSvc_lost resolver svc hup] at hcount
      cases hcount
    obtain ⟨hinit, hfound⟩ := hup
    rw [resolveSvc_found resolver svc hinit hfound hparse,
      names_found resolver svc hinit hfound hparse] at hfilled
    have hcount := hfilled.count
    simp only [Option.map_some, UInt16.toNat_toUInt32, Option.some.injEq] at hcount
    refine ⟨hinit, hfound, hfilled.parsed _ rfl, ?_, ?_⟩
    · rw [hparse]
      intro hstatus
      rw [if_pos hstatus] at hcount
      exact targets_length.mp hcount.symm
    · rw [hparse]
      intro hstatus
      rw [if_neg (by omega)] at hcount
      exact UInt16.toNat_inj.mp hcount
  · intro hplain
    rw [resolveSvc_found resolver svc hplain.inited hplain.found hparse,
      names_found resolver svc hplain.inited hplain.found hparse]
    have hrecords := hplain.records
    have hunparsed := hplain.unparsed
    rw [hparse] at hrecords hunparsed
    have hfits : ∀ len, some (resolver.length svc) = some len → len ≤ packetsz := by
      intro len hlen
      injection hlen with hlen
      exact hlen ▸ hplain.fits
    by_cases hstatus : 0 ≤ status
    · rw [if_pos hstatus, map_target (hrecords hstatus)]
      refine filled_of_names rfl ?_ rfl hfits
      rw [UInt16.toNat_toUInt32, targets_length.mpr (hrecords hstatus)]
    · rw [if_neg hstatus, hunparsed (by omega)]
      have hnone : some [] = some (([] : List Text).map some ++ List.replicate 0 none) := rfl
      exact filled_of_names rfl rfl hnone hfits

def aliased : Resolver where
  resInit := 0
  resSearch _ _ _ _ := 100
  nsInitparse _ := (0, {
    count := 2
    parserr := fun i => if i = 0 then some ⟨5, 40⟩ else some ⟨tSrv, 60⟩
    dnExpand := fun address _ => if address = 66 then some [100, 99] else none })

/-- The alias is counted and its place stays free. -/
theorem alias_counted : ¬ ∀ (resolver : Resolver) (svc : Text),
    Filled (names resolver svc) (ofcNetResolveSvc resolver svc) := by
  intro hall
  have hcount := (hall aliased []).count
  have hone : (names aliased []).length = 1 := by decide
  have htwo : (ofcNetResolveSvc aliased []).count = some 2 := by decide
  rw [hone, htwo] at hcount
  cases hcount

end Answer

end CoreAndroid.Service
