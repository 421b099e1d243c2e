import CoreAndroid.Lib.Reading
import Mathlib.Data.List.Induction
import Mathlib.Data.Nat.ModEq
import Mathlib.Tactic.Ring

/-! Numbers as bytes in either order, lists of bytes with a part overwritten, and buffers
whose reads are counted when they leave the buffer or find what nobody put there. -/

namespace BigEndian

/-- The last `n` bytes of a number, the most significant first. -/
def store : Nat → Nat → List UInt8
  | 0, _ => []
  | n + 1, x => store n (x / 256) ++ [UInt8.ofNat x]

def load (bytes : List UInt8) : Nat := bytes.foldl (fun x b => 256 * x + b.toNat) 0

@[simp] theorem store_length (n x : Nat) : (store n x).length = n := by
  induction n generalizing x with
  | zero => rfl
  | succ n ih => simp [store, ih]

theorem load_append_one (bytes : List UInt8) (b : UInt8) :
    load (bytes ++ [b]) = 256 * load bytes + b.toNat := by
  simp [load]

theorem load_store (n x : Nat) : load (store n x) = x % 256 ^ n := by
  induction n generalizing x with
  | zero => simp [store, load, Nat.mod_one]
  | succ n ih =>
    have hb : (UInt8.ofNat x).toNat = x % 256 := by simp
    rw [store, load_append_one, ih, hb, pow_succ', Nat.mod_mul, Nat.add_comm]

theorem load_store_of_lt {n x : Nat} (h : x < 256 ^ n) : load (store n x) = x := by
  rw [load_store, Nat.mod_eq_of_lt h]

theorem store_load (bytes : List UInt8) : store bytes.length (load bytes) = bytes := by
  induction bytes using List.reverseRecOn with
  | nil => rfl
  | append_singleton bytes b ih =>
    have hfront : (256 * load bytes + b.toNat) / 256 = load bytes := by
      have hb := b.toNat_lt
      omega
    have hlast : UInt8.ofNat (256 * load bytes + b.toNat) = b := by
      rw [← UInt8.toNat_inj]
      simp
    rw [List.length_append, List.length_singleton, store, load_append_one, hfront, ih, hlast]

theorem load_lt (bytes : List UInt8) : load bytes < 256 ^ bytes.length := by
  induction bytes using List.reverseRecOn with
  | nil => simp [load]
  | append_singleton bytes b ih =>
    have hb := b.toNat_lt
    rw [load_append_one, List.length_append, List.length_singleton, pow_succ']
    omega

end BigEndian

namespace LittleEndian

def store (n x : Nat) : List UInt8 := (BigEndian.store n x).reverse

def load (bytes : List UInt8) : Nat := BigEndian.load bytes.reverse

@[simp] theorem store_length (n x : Nat) : (store n x).length = n := by simp [store]

theorem load_store_of_lt {n x : Nat} (h : x < 256 ^ n) : load (store n x) = x := by
  simp [load, store, BigEndian.load_store_of_lt h]

end LittleEndian

def overwrite (mem : List UInt8) (offset : Nat) (bytes : List UInt8) : List UInt8 :=
  mem.take offset ++ bytes ++ mem.drop (offset + bytes.length)

theorem overwrite_eq {mem bytes : List UInt8} {offset : Nat} (front old back : List UInt8)
    (hmem : mem = front ++ old ++ back) (hoffset : front.length = offset)
    (hold : old.length = bytes.length) : overwrite mem offset bytes = front ++ bytes ++ back := by
  subst hmem hoffset
  have hrest : (front ++ old ++ back).drop (front.length + bytes.length) = back := by
    rw [← hold, ← List.length_append, List.drop_left]
  rw [overwrite, hrest, List.append_assoc front, List.take_left]

/-- A buffer of `size` bytes, and what lies in memory behind it. -/
structure Buffer where
  size : Nat
  cell : Nat → Cell UInt8

namespace Buffer
open Reading

/-- A byte, as a read through the buffer finds it: nothing is put outside. -/
def byte (b : Buffer) (i : Nat) : Cell UInt8 :=
  if i < b.size then b.cell i else .junk (b.cell i).val

def fill (b : Buffer) (bytes : List UInt8) : Buffer :=
  { b with cell := fun i => (bytes[i]?).elim (b.cell i) .put }

def ofBytes (bytes : List UInt8) : Buffer :=
  fill ⟨bytes.length, fun _ => .junk 0⟩ bytes

def Holds (b : Buffer) (bytes : List UInt8) : Prop :=
  ∀ (i : Nat) (h : i < bytes.length), b.byte i = .put bytes[i]

theorem holds_fill {bytes : List UInt8} (b : Buffer) (h : bytes.length ≤ b.size) :
    (b.fill bytes).Holds bytes := by
  intro i hi
  have hsize : i < b.size := by omega
  simp [byte, fill, hsize, hi]

theorem holds_ofBytes (bytes : List UInt8) : (ofBytes bytes).Holds bytes :=
  holds_fill ⟨bytes.length, fun _ => .junk 0⟩ (le_refl _)

def bytes (offset n : Nat) : Reading Buffer (Vector UInt8 n) := fun b =>
  (Vector.ofFn fun i => (b.byte (offset + i)).val,
    ((List.range n).map fun i => (b.byte (offset + i)).unset).sum)

theorem bytes_of_holds {b : Buffer} {middle : List UInt8} {offset n : Nat}
    (front back : List UInt8) (h : b.Holds (front ++ middle ++ back))
    (hoffset : front.length = offset)
    (hn : middle.length = n) :
    (bytes offset n b).1.toList = middle ∧ (bytes offset n b).2 = 0 := by
  subst hoffset hn
  have hbyte : ∀ (i : Nat) (hi : i < middle.length),
      b.byte (front.length + i) = .put middle[i] := by
    intro i hi
    rw [h (front.length + i) (by simp; omega)]
    simp [hi]
  constructor
  · apply List.ext_getElem
    · simp
    · intro i hi hi'
      simp [bytes, hbyte i hi', Cell.put]
  · apply List.sum_eq_zero_iff_forall_eq_nat.mpr
    intro x hx
    obtain ⟨i, hi, rfl⟩ := List.mem_map.mp hx
    rw [hbyte i (List.mem_range.mp hi)]
    rfl

theorem bytes_outside {b : Buffer} {offset n : Nat} (i : Nat) (hi : i < n)
    (hout : b.size ≤ offset + i) :
    (bytes offset n b).2 ≠ 0 := by
  intro hzero
  have hnone := List.sum_eq_zero_iff_forall_eq_nat.mp hzero (b.byte (offset + i)).unset
    (List.mem_map_of_mem (List.mem_range.mpr hi))
  simp [byte, Nat.not_lt.mpr hout, Cell.unset, Cell.junk] at hnone

end Buffer
