import Mathlib.Algebra.Ring.Int.Defs

/-! The conversions of C between a `size_t` of eight bytes and an `int` of four. -/

/-- A `size_t` passed for an `int`. -/
def toInt (len : UInt64) : Int := Int.bmod len.toNat 0x100000000

/-- An `int` passed for a `size_t`. -/
def toSize (status : Int) : UInt64 := UInt64.ofInt status

theorem toInt_le (len : UInt64) : toInt len ≤ len.toNat := by
  unfold toInt Int.bmod
  dsimp only
  split <;> omega

theorem toInt_lt (len : UInt64) : toInt len < 2 ^ 31 := by
  unfold toInt Int.bmod
  dsimp only
  split <;> omega

theorem toSize_toNat {status : Int} (hlow : 0 ≤ status) (hhigh : status < 2 ^ 31) :
    (toSize status).toNat = status.toNat := by
  obtain ⟨n, rfl⟩ := Int.eq_ofNat_of_zero_le hlow
  rw [toSize, UInt64.ofInt]
  simp
  omega
