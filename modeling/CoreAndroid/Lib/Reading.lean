import Mathlib.Logic.Basic

/-! Records with fields that may not have been written, and computations that read
them and count the reads of unwritten fields. -/

/-- A field of a record: what the memory holds, and whether the program put it there. -/
structure Cell (α : Type) where
  val : α
  written : Bool
  deriving DecidableEq, Repr

namespace Cell
variable {α : Type}

def junk (v : α) : Cell α := ⟨v, false⟩
def put (v : α) : Cell α := ⟨v, true⟩

def unset (c : Cell α) : Nat := if c.written then 0 else 1

def Agree (c d : Cell α) : Prop := c.written = d.written ∧ (c.written = true → c.val = d.val)

theorem agree_of_eq {c d : Cell α} (h : c = d) : c.Agree d := by
  subst h
  exact ⟨rfl, fun _ => rfl⟩

@[simp] theorem put_agree (v : α) : (put v).Agree (put v) := ⟨rfl, fun _ => rfl⟩

@[simp] theorem junk_agree (v w : α) : (junk v).Agree (junk w) := ⟨rfl, fun h => by cases h⟩

theorem unset_eq_zero {c : Cell α} : c.unset = 0 ↔ c.written = true := by
  unfold unset
  split <;> simp [*]

end Cell

/-- A computation that reads a record, with the number of its unset reads. -/
def Reading (ρ α : Type) : Type := ρ → α × Nat

namespace Reading
variable {ρ α β : Type}

instance : Monad (Reading ρ) where
  pure a := fun _ => (a, 0)
  bind m f := fun r => ((f (m r).1 r).1, (m r).2 + (f (m r).1 r).2)

def field (f : ρ → Cell α) : Reading ρ α := fun r => ((f r).val, (f r).unset)

@[simp] theorem pure_run (a : α) (r : ρ) : (pure a : Reading ρ α) r = (a, 0) := rfl

@[simp] theorem bind_run (m : Reading ρ α) (f : α → Reading ρ β) (r : ρ) :
    (m >>= f) r = ((f (m r).1 r).1, (m r).2 + (f (m r).1 r).2) := rfl

@[simp] theorem field_run (f : ρ → Cell α) (r : ρ) : field f r = ((f r).val, (f r).unset) := rfl

/-- With no unset read, records that agree give the same result. -/
def Respects (agree : ρ → ρ → Prop) (m : Reading ρ α) : Prop :=
  ∀ r r', agree r r' → (m r).2 = 0 → m r' = m r

variable {agree : ρ → ρ → Prop}

theorem respects_pure (a : α) : Respects agree (pure a) := fun _ _ _ _ => rfl

theorem respects_bind {m : Reading ρ α} {f : α → Reading ρ β} (hm : Respects agree m)
    (hf : ∀ a, Respects agree (f a)) : Respects agree (m >>= f) := by
  intro r r' h hzero
  simp only [bind_run, Nat.add_eq_zero_iff] at hzero ⊢
  rw [hm r r' h hzero.1, hf _ r r' h hzero.2]

theorem respects_field {f : ρ → Cell α} (hf : ∀ r r', agree r r' → (f r).Agree (f r')) :
    Respects agree (field f) := by
  intro r r' h hzero
  obtain ⟨hw, hv⟩ := hf r r' h
  have hr : (f r).written = true := Cell.unset_eq_zero.mp hzero
  simp only [field_run, Cell.unset, ← hw, hr, hv hr]

end Reading
