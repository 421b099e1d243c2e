import CoreAndroid.Lib.Machine

/-! Machines that come to a goal: some step towards it can always be taken, and no step that
may be taken leads away from it for good. The rule is a rank that falls with each step. -/
namespace Machine
variable {σ α : Type} (m : Machine σ α)

/-- Whatever steps of `may` are taken, they come to the goal, and until then a step of `sure`
can be taken. -/
inductive LeadsTo (sure may : α → Prop) (goal : σ → Prop) : σ → Prop
  | here {s : σ} : goal s → LeadsTo sure may goal s
  | step {s : σ} : (∃ a t, sure a ∧ m.step s a = some t) →
      (∀ a t, may a → m.step s a = some t → LeadsTo sure may goal t) → LeadsTo sure may goal s

namespace LeadsTo
variable {m} {sure may : α → Prop} {goal middle : σ → Prop} {s : σ}

theorem mono (h : m.LeadsTo sure may middle s) (hgoal : ∀ t, middle t → goal t) :
    m.LeadsTo sure may goal s := by
  induction h with
  | here hm => exact .here (hgoal _ hm)
  | step hsure _ ih => exact .step hsure ih

theorem trans (h : m.LeadsTo sure may middle s)
    (hgoal : ∀ t, middle t → m.LeadsTo sure may goal t) : m.LeadsTo sure may goal s := by
  induction h with
  | here hm => exact hgoal _ hm
  | step hsure _ ih => exact .step hsure ih

theorem keep {inv : σ → Prop} (h : m.LeadsTo sure may goal s)
    (hstep : ∀ s a t, inv s → may a → m.step s a = some t → inv t) (hs : inv s) :
    m.LeadsTo sure may (fun t => goal t ∧ inv t) s := by
  induction h with
  | here hgoal => exact .here ⟨hgoal, hs⟩
  | step hsure _ ih =>
    exact .step hsure fun a t ha ht => ih a t ha ht (hstep _ a t hs ha ht)

/-- A rank that falls with every step outside the goal, under an invariant. -/
theorem of_rank (inv : σ → Prop) (rank : σ → Nat)
    (hsure : ∀ s, inv s → ¬ goal s → ∃ a t, sure a ∧ m.step s a = some t)
    (hmay : ∀ s a t, inv s → ¬ goal s → may a → m.step s a = some t → inv t ∧ rank t < rank s)
    (hs : inv s) : m.LeadsTo sure may goal s := by
  induction hrank : rank s using Nat.strongRecOn generalizing s with
  | ind n ih =>
    by_cases hgoal : goal s
    · exact .here hgoal
    · refine .step (hsure s hs hgoal) ?_
      intro a t ha ht
      obtain ⟨hinv, hlt⟩ := hmay s a t hs hgoal ha ht
      exact ih (rank t) (hrank ▸ hlt) hinv rfl

theorem run (h : m.LeadsTo sure may goal s) (hsure : ∀ a, sure a → may a) :
    ∃ as t, (∀ a ∈ as, sure a) ∧ m.run s as = some t ∧ goal t := by
  induction h with
  | here hgoal => exact ⟨[], _, List.forall_mem_nil _, rfl, hgoal⟩
  | step hstep _ ih =>
    obtain ⟨a, t, ha, ht⟩ := hstep
    obtain ⟨as, u, has, hr, hgoal⟩ := ih a t (hsure a ha) ht
    refine ⟨a :: as, u, List.forall_mem_cons.mpr ⟨ha, has⟩, ?_, hgoal⟩
    exact Option.bind_eq_some_iff.mpr ⟨t, ht, hr⟩

end LeadsTo

end Machine
