import Mathlib.Algebra.Order.Group.Nat

/-! Items in a pipe of bytes, each a block of one length. A write is all or nothing, and a
read takes a block at most, so the pipe holds whole items at all times. -/

structure Framing (α β : Type) where
  size : Nat
  encode : α → List β
  decode : List β → α
  size_pos : 0 < size
  encode_length : ∀ a, (encode a).length = size

namespace Framing
variable {α β : Type} (f : Framing α β)

def Fits (a : α) : Prop := f.decode (f.encode a) = a

def frames (items : List α) : List β := items.flatMap f.encode

/-- A write to a pipe with room for this many bytes is dropped if it does not fit. -/
def write (room : Nat) (a : α) (bytes : List β) : List β :=
  if bytes.length + f.size ≤ room then bytes ++ f.encode a else bytes

/-- What a read returns, and what it leaves. -/
def read (bytes : List β) : List β × List β := (bytes.take f.size, bytes.drop f.size)

@[simp] theorem frames_nil : f.frames [] = [] := rfl

@[simp] theorem frames_cons (a : α) (items : List α) :
    f.frames (a :: items) = f.encode a ++ f.frames items := rfl

theorem frames_length (items : List α) : (f.frames items).length = f.size * items.length := by
  induction items with
  | nil => rfl
  | cons a items ih =>
    rw [frames_cons, List.length_append, f.encode_length, ih, List.length_cons, Nat.mul_succ,
      Nat.add_comm]

theorem frames_eq_nil {items : List α} : f.frames items = [] ↔ items = [] := by
  rw [← List.length_eq_zero_iff, frames_length, Nat.mul_eq_zero, List.length_eq_zero_iff]
  exact or_iff_right f.size_pos.ne'

theorem write_frames (room : Nat) (a : α) (items : List α) :
    f.write room a (f.frames items) =
      f.frames (if items.length < room / f.size then items ++ [a] else items) := by
  have hroom : (f.frames items).length + f.size ≤ room ↔ items.length < room / f.size := by
    rw [frames_length, ← Nat.mul_succ, ← Nat.succ_le_iff, Nat.le_div_iff_mul_le f.size_pos,
      Nat.mul_comm]
  unfold write
  by_cases hlt : items.length < room / f.size
  · rw [if_pos hlt, if_pos (hroom.mpr hlt), frames, frames, List.flatMap_append,
      List.flatMap_singleton]
  · rw [if_neg hlt, if_neg fun hle => hlt (hroom.mp hle)]

theorem read_frames (items : List α) :
    f.read (f.frames items) = (items.head?.elim [] f.encode, f.frames items.tail) := by
  cases items with
  | nil => simp [read]
  | cons a items =>
    have hsize : (f.encode a).length = f.size := f.encode_length a
    simp [read, ← hsize]

end Framing
