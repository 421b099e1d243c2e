import CoreAndroid.Process

/-! Code addresses of process_android.c, written down as offsets into one of the two libraries.
The top bit says which, so an address can be found again from the offset and the addresses at
which the libraries were loaded. -/
namespace CoreAndroid.Process

section Source

def smbMark : Nat := 0x8000000000000000

/-- The load addresses have 64 bits, and an address as many as a pointer. -/
def ofcProcessRelativeAddrImpl {w : Nat} (coreLoadAddr smbLoadAddr : UInt64) (addr : BitVec w) :
    BitVec w :=
  let core := coreLoadAddr.toNat
  let smb := smbLoadAddr.toNat
  if core = 0 ∨ smb = 0 then 0
  else if core > smb then
    if addr.toNat > core then addr - BitVec.ofNat w core
    else if addr.toNat > smb then (addr - BitVec.ofNat w smb) ||| BitVec.ofNat w smbMark
    else 0
  else if smb > core then
    if addr.toNat > smb then (addr - BitVec.ofNat w smb) ||| BitVec.ofNat w smbMark
    else if addr.toNat > core then addr - BitVec.ofNat w core
    else 0
  else 0

end Source

section Spec

def absolute (core smb offset : Nat) : Option Nat :=
  if offset = 0 then none
  else if smbMark ≤ offset then some (smb + (offset - smbMark))
  else some (core + offset)

/-- The library at `base` is the last one before the address. -/
def Nearest (base other addr : Nat) : Prop := base < addr ∧ (other < base ∨ addr ≤ other)

end Spec

section Offset
variable {w base : Nat} {addr : BitVec w}

theorem sub_toNat (h : base < addr.toNat) :
    (addr - BitVec.ofNat w base).toNat = addr.toNat - base := by
  have hbase : (BitVec.ofNat w base).toNat = base := by
    rw [BitVec.toNat_ofNat, Nat.mod_eq_of_lt (Nat.lt_trans h addr.isLt)]
  have hle : BitVec.ofNat w base ≤ addr := by
    rw [BitVec.le_def, hbase]
    exact Nat.le_of_lt h
  rw [BitVec.toNat_sub_of_le hle, hbase]

theorem marked_toNat {x : BitVec 64} (h : x.toNat < smbMark) :
    (x ||| BitVec.ofNat 64 smbMark).toNat = smbMark + x.toNat := by
  have hmark : (BitVec.ofNat 64 smbMark).toNat = 2 ^ 63 * 1 := by decide
  rw [BitVec.toNat_or, hmark, Nat.or_comm, ← Nat.two_pow_add_eq_or_of_lt h]
  rfl

theorem marked_short {x : BitVec w} (hw : w < 64) : x ||| BitVec.ofNat w smbMark = x := by
  have hdvd : 2 ^ w ∣ smbMark := Nat.pow_dvd_pow 2 (Nat.le_of_lt_succ hw)
  have hzero : BitVec.ofNat w smbMark = 0#w := by
    apply BitVec.eq_of_toNat_eq
    rw [BitVec.toNat_ofNat, Nat.mod_eq_zero_of_dvd hdvd]
    rfl
  rw [hzero, BitVec.or_zero]

end Offset

section Relative
variable {w : Nat} {core smb : UInt64} {addr : BitVec w}

theorem relative_core (hcore : core.toNat ≠ 0) (hsmb : smb.toNat ≠ 0)
    (h : Nearest core.toNat smb.toNat addr.toNat) :
    ofcProcessRelativeAddrImpl core smb addr = addr - BitVec.ofNat w core.toNat := by
  obtain ⟨hlt, hother⟩ := h
  unfold ofcProcessRelativeAddrImpl
  simp only [hcore, hsmb, or_self, if_false]
  rcases hother with hother | hother
  · rw [if_pos hother, if_pos hlt]
  · rw [if_neg (by omega), if_pos (by omega), if_neg (by omega), if_pos hlt]

theorem relative_smb (hcore : core.toNat ≠ 0) (hsmb : smb.toNat ≠ 0)
    (h : Nearest smb.toNat core.toNat addr.toNat) :
    ofcProcessRelativeAddrImpl core smb addr =
      (addr - BitVec.ofNat w smb.toNat) ||| BitVec.ofNat w smbMark := by
  obtain ⟨hlt, hother⟩ := h
  unfold ofcProcessRelativeAddrImpl
  simp only [hcore, hsmb, or_self, if_false]
  rcases hother with hother | hother
  · rw [if_neg (by omega), if_pos hother, if_pos hlt]
  · rw [if_pos (by omega), if_neg (by omega), if_pos hlt]

theorem relative_none (h : ¬ (core.toNat ≠ 0 ∧ smb.toNat ≠ 0 ∧
      (Nearest core.toNat smb.toNat addr.toNat ∨ Nearest smb.toNat core.toNat addr.toNat))) :
    ofcProcessRelativeAddrImpl core smb addr = 0 := by
  unfold ofcProcessRelativeAddrImpl Nearest at *
  by_cases hzero : core.toNat = 0 ∨ smb.toNat = 0
  · exact if_pos hzero
  · dsimp only
    rw [if_neg hzero]
    split
    · rw [if_neg (by omega), if_neg (by omega)]
    · split
      · rw [if_neg (by omega), if_neg (by omega)]
      · rfl

variable (core smb addr)

/-- An address is found again exactly if both libraries were loaded and the last one before it
is the core library, or the smb library with pointers that have room for the mark. -/
theorem relative_addr_resolves_iff (hw : w ≤ 64) (haddr : addr.toNat < smbMark) :
    absolute core.toNat smb.toNat (ofcProcessRelativeAddrImpl core smb addr).toNat =
        some addr.toNat ↔
      core.toNat ≠ 0 ∧ smb.toNat ≠ 0 ∧ (Nearest core.toNat smb.toNat addr.toNat ∨
        w = 64 ∧ Nearest smb.toNat core.toNat addr.toNat) := by
  by_cases hfound : core.toNat ≠ 0 ∧ smb.toNat ≠ 0 ∧
      (Nearest core.toNat smb.toNat addr.toNat ∨ Nearest smb.toNat core.toNat addr.toNat)
  · obtain ⟨hcore, hsmb, hnear | hnear⟩ := hfound
    · refine iff_of_true ?_ ⟨hcore, hsmb, .inl hnear⟩
      have hlt := hnear.1
      rw [relative_core hcore hsmb hnear, sub_toNat hlt, absolute, if_neg (by omega),
        if_neg (by omega)]
      exact congrArg some (by omega)
    · have hlt := hnear.1
      have hother : ¬ Nearest core.toNat smb.toNat addr.toNat := by
        intro hboth
        unfold Nearest at hnear hboth
        omega
      rw [relative_smb hcore hsmb hnear]
      rcases Nat.lt_or_eq_of_le hw with hshort | rfl
      · -- the offset is read as one into the core library
        rw [marked_short hshort, sub_toNat hlt, absolute, if_neg (by omega), if_neg (by omega)]
        refine iff_of_false ?_ ?_
        · intro hsum
          injection hsum with hsum
          unfold Nearest at hnear
          omega
        · rintro ⟨-, -, hboth | ⟨hlong, -⟩⟩
          · exact hother hboth
          · omega
      · refine iff_of_true ?_ ⟨hcore, hsmb, .inr ⟨rfl, hnear⟩⟩
        have hsub := sub_toNat hlt
        rw [marked_toNat (by omega), hsub, absolute, if_neg (by simp [smbMark]),
          if_pos (Nat.le_add_right _ _)]
        exact congrArg some (by omega)
  · rw [relative_none hfound]
    refine iff_of_false (by simp [absolute]) ?_
    rintro ⟨hcore, hsmb, hnear⟩
    exact hfound ⟨hcore, hsmb, hnear.imp_right And.right⟩

end Relative

theorem relative_addr_resolves_inSmb :
    absolute 0x7000 0x9000 (ofcProcessRelativeAddrImpl 0x7000 0x9000 0x9123#64).toNat =
      some 0x9123 :=
  (relative_addr_resolves_iff 0x7000 0x9000 0x9123#64 (by decide) (by decide)).mpr
    ⟨by decide, by decide, .inr ⟨rfl, by decide, .inl (by decide)⟩⟩

end CoreAndroid.Process
