import Mathlib.Order.Basic

/-! Functions that may have no result, ordered by how many results they have, and recursions
that are given fuel: more fuel keeps every result. -/

/-- Every result of the first function is one of the second. -/
def Below {α β : Type} (f g : α → Option β) : Prop := ∀ a b, f a = some b → g a = some b

namespace Below
variable {α β γ : Type} {f f' : α → Option β}

theorem refl (f : α → Option β) : Below f f := fun _ _ h => h

theorem bind {g g' : β → Option γ} (hf : Below f f') (hg : Below g g') :
    Below (fun a => (f a).bind g) (fun a => (f' a).bind g') := by
  intro a c h
  obtain ⟨b, hb, hc⟩ := Option.bind_eq_some_iff.mp h
  exact Option.bind_eq_some_iff.mpr ⟨b, hf a b hb, hg b c hc⟩

theorem map (hf : Below f f') (g : β → γ) :
    Below (fun a => (f a).map g) (fun a => (f' a).map g) := by
  intro a c h
  obtain ⟨b, hb, rfl⟩ := Option.map_eq_some_iff.mp h
  exact Option.map_eq_some_iff.mpr ⟨b, hf a b hb, rfl⟩

theorem comp (hf : Below f f') (g : γ → α) : Below (fun c => f (g c)) (fun c => f' (g c)) :=
  fun c => hf (g c)

theorem ite {g g' : α → Option β} (c : α → Prop) [DecidablePred c] (hf : Below f f')
    (hg : Below g g') :
    Below (fun a => if c a then f a else g a) (fun a => if c a then f' a else g' a) := by
  intro a b h
  dsimp only at h ⊢
  by_cases hc : c a
  · rw [if_pos hc] at h ⊢
    exact hf a b h
  · rw [if_neg hc] at h ⊢
    exact hg a b h

theorem foldlM {g g' : β → α → Option β} (hg : ∀ a, Below (g · a) (g' · a)) (as : List α) :
    Below (fun b => as.foldlM g b) (fun b => as.foldlM g' b) := by
  induction as with
  | nil => exact refl _
  | cons a as ih => exact bind (hg a) ih

/-- A recursion whose calls grow with the fuel grows with it. -/
theorem of_le {F : Nat → α → Option β} (hF : ∀ n, Below (F n) (F (n + 1))) {n k : Nat}
    (hle : n ≤ k) : Below (F n) (F k) := by
  induction hle with
  | refl => exact refl _
  | step _ ih => exact fun a b h => hF _ a b (ih a b h)

end Below
