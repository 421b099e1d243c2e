import Mathlib.Algebra.BigOperators.Group.Finset.Basic
import Mathlib.Algebra.Order.BigOperators.Group.Finset
import Mathlib.Tactic.Linarith

/-! Spans of given lengths laid end to end from 0: a position is a span and an
offset below the length of that span, and these pairs are ordered as the positions are. -/
namespace Spans
variable {len : Nat → Nat}

def start (len : Nat → Nat) (k : Nat) : Nat := ∑ i ∈ Finset.range k, len i

@[simp] theorem start_zero : start len 0 = 0 := rfl

theorem start_succ (k : Nat) : start len (k + 1) = start len k + len k :=
  Finset.sum_range_succ len k

theorem start_mono {j k : Nat} (h : j ≤ k) : start len j ≤ start len k := by
  induction k, h using Nat.le_induction with
  | base => exact le_refl _
  | succ k _ ih =>
    rw [start_succ]
    omega

theorem start_add_le {j k : Nat} (h : j < k) : start len j + len j ≤ start len k := by
  rw [← start_succ]
  exact start_mono h

/-- Positions compare by span first and by offset inside one span. -/
theorem position_lt_iff {j k r s : Nat} (hr : r < len j) (hs : s < len k) :
    start len j + r < start len k + s ↔ j < k ∨ (j = k ∧ r < s) := by
  rcases lt_trichotomy j k with h | h | h
  · have hle : start len j + len j ≤ start len k := start_add_le h
    constructor
    · intro _
      exact .inl h
    · intro _
      omega
  · subst h
    simp
  · have hle : start len k + len k ≤ start len j := start_add_le h
    omega

end Spans
