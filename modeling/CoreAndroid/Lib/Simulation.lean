import CoreAndroid.Lib.Machine

/-! One machine follows another, step by step or with a run for each step. -/
namespace Machine
variable {σ τ α β : Type} {m : Machine σ α} {n : Machine τ α}

/-- If each step of the one machine is matched by a step of the other, so is each run. -/
theorem run_simulates {R : σ → τ → Prop} {ok : α → Prop}
    (hstep : ∀ s t a s', R s t → ok a → m.step s a = some s' → ∃ t', n.step t a = some t' ∧ R s' t')
    {s s' : σ} {t : τ} {as : List α} (hR : R s t) (hok : ∀ a ∈ as, ok a)
    (hr : m.run s as = some s') : ∃ t', n.run t as = some t' ∧ R s' t' := by
  induction as generalizing s t with
  | nil =>
    injection hr with hr
    exact ⟨t, rfl, hr ▸ hR⟩
  | cons a as ih =>
    obtain ⟨ha, hok⟩ := List.forall_mem_cons.mp hok
    obtain ⟨u, hu, hr⟩ := Option.bind_eq_some_iff.mp hr
    obtain ⟨v, hv, hR⟩ := hstep s t a u hR ha hu
    obtain ⟨t', ht', hR⟩ := ih hR hok hr
    exact ⟨t', Option.bind_eq_some_iff.mpr ⟨v, hv, ht'⟩, hR⟩

def Comes (m : Machine σ α) (s t : σ) : Prop := ∃ as, m.run s as = some t

theorem Comes.refl (s : σ) : m.Comes s s := ⟨[], rfl⟩

theorem Comes.head {s u t : σ} {a : α} (hu : m.step s a = some u) (h : m.Comes u t) :
    m.Comes s t := by
  obtain ⟨as, hr⟩ := h
  exact ⟨a :: as, Option.bind_eq_some_iff.mpr ⟨u, hu, hr⟩⟩

theorem Comes.trans {s u t : σ} (h : m.Comes s u) (h' : m.Comes u t) : m.Comes s t := by
  obtain ⟨as, hr⟩ := h
  induction as generalizing s with
  | nil =>
    injection hr with hr
    rwa [hr]
  | cons a as ih =>
    obtain ⟨v, hv, hr⟩ := Option.bind_eq_some_iff.mp hr
    exact .head hv (ih hr)

/-- If each step of the one machine is a run of the other, so is each run. -/
theorem run_comes {n : Machine τ β} {R : σ → τ → Prop} {ok : σ → α → Prop}
    (hstep : ∀ s t a s', R s t → ok s a → m.step s a = some s' → ∃ t', n.Comes t t' ∧ R s' t')
    {s s' : σ} {t : τ} {as : List α} (hR : R s t) (hok : m.Each ok s as)
    (hr : m.run s as = some s') : ∃ t', n.Comes t t' ∧ R s' t' := by
  induction as generalizing s t with
  | nil =>
    injection hr with hr
    exact ⟨t, .refl t, hr ▸ hR⟩
  | cons a as ih =>
    obtain ⟨u, hu, hr⟩ := Option.bind_eq_some_iff.mp hr
    obtain ⟨v, hv, hR⟩ := hstep s t a u hR hok.1 hu
    obtain ⟨t', ht', hR⟩ := ih hR (hok.2 u hu) hr
    exact ⟨t', hv.trans ht', hR⟩

end Machine
