import Mathlib.Data.List.Basic
import Mathlib.Data.List.TakeWhile

/-! Sequences that end at a delimiter: the part before it, and reading through it with a limit. -/
namespace Delimited
variable {α : Type*} [DecidableEq α] {d : α} {l s tail : List α}

def upTo (d : α) (l : List α) : List α := l.takeWhile (· ≠ d)

/-- Reads `n` elements at most, and nothing behind the first delimiter. -/
def readThrough (d : α) : Nat → List α → List α
  | 0, _ => []
  | _ + 1, [] => []
  | n + 1, a :: l => if a = d then [a] else a :: readThrough d n l

theorem upTo_cons_self (l : List α) : upTo d (d :: l) = [] :=
  List.takeWhile_cons_of_neg (by simp)

theorem upTo_cons {a : α} (h : a ≠ d) : upTo d (a :: l) = a :: upTo d l :=
  List.takeWhile_cons_of_pos (by simpa using h)

theorem upTo_append (h : d ∉ s) (tail : List α) : upTo d (s ++ d :: tail) = s := by
  induction s with
  | nil => exact upTo_cons_self tail
  | cons a s ih =>
    obtain ⟨ha, hs⟩ := not_or.mp (List.mem_cons.not.mp h)
    rw [List.cons_append, upTo_cons (Ne.symm ha), ih hs]

theorem idxOf_append (h : d ∉ s) (tail : List α) : (s ++ d :: tail).idxOf d = s.length := by
  rw [List.idxOf_append_of_notMem h, List.idxOf_cons_self, Nat.add_zero]

theorem readThrough_isPrefix (n : Nat) (l : List α) : readThrough d n l <+: l := by
  induction n generalizing l with
  | zero => exact List.nil_prefix
  | succ n ih =>
    cases l with
    | nil => exact List.nil_prefix
    | cons a l =>
      unfold readThrough
      split
      · exact List.prefix_cons_inj a |>.mpr List.nil_prefix
      · exact (List.prefix_cons_inj a).mpr (ih l)

theorem readThrough_length_le (n : Nat) (l : List α) : (readThrough d n l).length ≤ n := by
  induction n generalizing l with
  | zero => exact Nat.le_refl 0
  | succ n ih =>
    cases l with
    | nil => exact Nat.zero_le _
    | cons a l =>
      unfold readThrough
      split
      · exact Nat.succ_le_succ (Nat.zero_le n)
      · exact Nat.succ_le_succ (ih l)

theorem readThrough_eq (n : Nat) (l : List α) :
    readThrough d n l =
      if d ∈ l ∧ (upTo d l).length < n then upTo d l ++ [d] else (upTo d l).take n := by
  induction n generalizing l with
  | zero => simp [readThrough]
  | succ n ih =>
    cases l with
    | nil => simp [readThrough, upTo]
    | cons a l =>
      by_cases ha : a = d
      · subst ha
        simp [readThrough, upTo_cons_self]
      · rw [readThrough, if_neg ha, ih, upTo_cons ha]
        simp only [List.mem_cons, Ne.symm ha, false_or, List.length_cons, Nat.succ_lt_succ_iff]
        split <;> rfl

end Delimited
