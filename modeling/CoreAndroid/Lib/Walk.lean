import Mathlib.Data.List.Nodup
import Mathlib.Logic.Function.Iterate

/-! Loops that hold their place in a collection as the item itself, and ask for the item after it
until they meet an end mark. -/

/-- From this item `next` goes through the list and then to the end mark. -/
def Walks {α : Type} (next : α → α) (stop : α) : α → List α → Prop
  | a, [] => a = stop
  | a, b :: items => a ≠ stop ∧ b = a ∧ Walks next stop (next a) items

namespace Walks
variable {α : Type} {next : α → α} {stop a : α} {items items' : List α}

theorem ne_stop (h : Walks next stop a items) : ∀ b ∈ items, b ≠ stop := by
  induction items generalizing a with
  | nil => exact fun b hb => absurd hb List.not_mem_nil
  | cons b items ih =>
    obtain ⟨hne, rfl, hrest⟩ := h
    exact List.forall_mem_cons.mpr ⟨hne, ih hrest⟩

theorem unique (h : Walks next stop a items) (h' : Walks next stop a items') : items = items' := by
  induction items generalizing a items' with
  | nil =>
    cases items' with
    | nil => rfl
    | cons b items' => exact absurd h h'.1
  | cons b items ih =>
    obtain ⟨hne, rfl, hrest⟩ := h
    cases items' with
    | nil => exact absurd h' hne
    | cons b' items' =>
      obtain ⟨-, rfl, hrest'⟩ := h'
      rw [ih hrest hrest']

theorem iterate (h : Walks next stop a items) {i : Nat} (hi : i ≤ items.length) :
    next^[i] a = (items[i]?).getD stop := by
  induction items generalizing a i with
  | nil =>
    obtain rfl := Nat.le_zero.mp hi
    exact h
  | cons b items ih =>
    obtain ⟨-, rfl, hrest⟩ := h
    cases i with
    | zero => rfl
    | succ i =>
      rw [Function.iterate_succ_apply, ih hrest (Nat.le_of_succ_le_succ hi),
        List.getElem?_cons_succ]

theorem drop {front back : List α} (h : Walks next stop a (front ++ back)) :
    Walks next stop (next^[front.length] a) back := by
  induction front generalizing a with
  | nil => exact h
  | cons b front ih =>
    obtain ⟨-, rfl, hrest⟩ := h
    exact ih hrest

/-- A walk that comes to its end meets nothing twice: from an item that it met before it would
go round for ever. -/
theorem nodup (h : Walks next stop a items) : items.Nodup := by
  induction items generalizing a with
  | nil => exact List.nodup_nil
  | cons b items ih =>
    have hwhole := h
    obtain ⟨hne, rfl, hrest⟩ := h
    refine List.nodup_cons.mpr ⟨?_, ih hrest⟩
    intro hagain
    obtain ⟨front, back, rfl⟩ := List.append_of_mem hagain
    have hback := hrest.drop
    have hsame : b :: back = b :: (front ++ b :: back) := by
      have hhead : next^[front.length] (next b) = b := hback.2.1.symm
      rw [hhead] at hback
      exact hback.unique hwhole
    have hlength := congrArg List.length hsame
    simp at hlength
    omega

end Walks

section Until
variable {α σ : Type} (done : σ → Bool) (visit : α → σ → σ)

def foldUntil : List α → σ → σ
  | [], s => s
  | a :: items, s => if done s then s else foldUntil items (visit a s)

variable (next : α → α) (stop : α) [DecidableEq α]

/-- The loop from an item on. It has no result if it takes more turns than it is given. -/
def walkUntil : Nat → α → σ → Option σ
  | 0, _, _ => none
  | turns + 1, a, s =>
      if a ≠ stop ∧ done s = false then walkUntil turns (next a) (visit a s) else some s

variable {done visit next stop} {a : α} {s t : σ} {turns : Nat} {items : List α}

theorem Walks.walkUntil_eq (h : Walks next stop a items) (hturns : items.length < turns) (s : σ) :
    walkUntil done visit next stop turns a s = some (foldUntil done visit items s) := by
  induction items generalizing a s turns with
  | nil =>
    obtain ⟨turns, rfl⟩ := Nat.exists_eq_add_one_of_ne_zero (Nat.ne_zero_of_lt hturns)
    exact if_neg fun hgo => hgo.1 h
  | cons b items ih =>
    obtain ⟨hne, rfl, hrest⟩ := h
    obtain ⟨turns, rfl⟩ := Nat.exists_eq_add_one_of_ne_zero (Nat.ne_zero_of_lt hturns)
    unfold walkUntil foldUntil
    cases hdone : done s with
    | true => rw [if_neg fun hgo => Bool.noConfusion hgo.2, if_pos rfl]
    | false =>
      rw [if_pos ⟨hne, rfl⟩, if_neg Bool.false_ne_true]
      exact ih hrest (Nat.lt_of_succ_lt_succ hturns) (visit b s)

theorem walks_of_walkUntil (h : walkUntil done visit next stop turns a s = some t)
    (ht : done t = false) :
    ∃ items, Walks next stop a items ∧ t = foldUntil done visit items s := by
  induction turns generalizing a s with
  | zero => cases h
  | succ turns ih =>
    unfold walkUntil at h
    split at h
    · rename_i hgo
      obtain ⟨items, hwalks, rfl⟩ := ih h
      exact ⟨a :: items, ⟨hgo.1, rfl, hwalks⟩, by rw [foldUntil, hgo.2, if_neg Bool.false_ne_true]⟩
    · rename_i hstay
      injection h with h
      subst h
      have hend : a = stop := by
        by_contra hne
        exact hstay ⟨hne, ht⟩
      exact ⟨[], hend, rfl⟩

end Until
