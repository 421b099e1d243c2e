import Mathlib.Logic.Function.Basic

/-! Machines that take labelled steps: runs, the states that runs reach, and the
invariant rule. A run may be held to a condition on each of its steps. -/

structure Machine (σ α : Type) where
  init : σ → Prop
  step : σ → α → Option σ

namespace Machine
variable {σ α : Type} (m : Machine σ α)

def run (s : σ) : List α → Option σ
  | [] => some s
  | a :: as => (m.step s a).bind fun t => run t as

/-- The states that runs reach whose steps all meet `ok`. -/
inductive ReachWhere (ok : σ → α → Prop) : σ → Prop
  | init {s : σ} : m.init s → ReachWhere ok s
  | step {s t : σ} {a : α} : ReachWhere ok s → ok s a → m.step s a = some t → ReachWhere ok t

def Reach : σ → Prop := m.ReachWhere fun _ _ => True

variable {m}

theorem Reach.step {s t : σ} {a : α} (h : m.Reach s) (hs : m.step s a = some t) : m.Reach t :=
  ReachWhere.step h trivial hs

theorem ReachWhere.reach {ok : σ → α → Prop} {s : σ} (h : m.ReachWhere ok s) : m.Reach s := by
  induction h with
  | init hi => exact .init hi
  | step _ _ hs ih => exact ih.step hs

/-- An invariant holds at the start and is kept by the steps that runs may take; a
step starts from a reached state, so earlier invariants can be used in it. -/
theorem ReachWhere.invariant {ok : σ → α → Prop} {inv : σ → Prop}
    (hinit : ∀ s, m.init s → inv s)
    (hstep : ∀ s a t, m.ReachWhere ok s → inv s → ok s a → m.step s a = some t → inv t)
    {s : σ} (h : m.ReachWhere ok s) : inv s := by
  induction h with
  | init hi => exact hinit _ hi
  | step hr hok hs ih => exact hstep _ _ _ hr ih hok hs

theorem Reach.invariant {inv : σ → Prop} (hinit : ∀ s, m.init s → inv s)
    (hstep : ∀ s a t, m.Reach s → inv s → m.step s a = some t → inv t)
    {s : σ} (h : m.Reach s) : inv s :=
  ReachWhere.invariant hinit (fun s a t hr hi _ hs => hstep s a t hr hi hs) h

theorem run_keeps {inv : σ → Prop} (hstep : ∀ s a t, inv s → m.step s a = some t → inv t)
    {s t : σ} {as : List α} (hs : inv s) (hr : m.run s as = some t) : inv t := by
  induction as generalizing s with
  | nil =>
    injection hr with hr
    rwa [← hr]
  | cons a as ih =>
    obtain ⟨u, hu, hr⟩ := Option.bind_eq_some_iff.mp hr
    exact ih (hstep s a u hs hu) hr

theorem ReachWhere.run {ok : σ → α → Prop} {s t : σ} {as : List α} (h : m.ReachWhere ok s)
    (hok : ∀ a ∈ as, ∀ u, ok u a) (hr : m.run s as = some t) : m.ReachWhere ok t := by
  induction as generalizing s with
  | nil =>
    injection hr with hr
    rwa [← hr]
  | cons a as ih =>
    obtain ⟨u, hu, hr⟩ := Option.bind_eq_some_iff.mp hr
    exact ih (h.step (hok a List.mem_cons_self s) hu)
      (fun b hb => hok b (List.mem_cons_of_mem a hb)) hr

theorem Reach.run {s t : σ} {as : List α} (h : m.Reach s) (hr : m.run s as = some t) :
    m.Reach t :=
  ReachWhere.run h (fun _ _ _ => trivial) hr

theorem step_unique {s u : σ} {a : α} (hu : m.step s a = some u) (v : σ)
    (hv : m.step s a = some v) : v = u := by
  rw [hu] at hv
  injection hv with hv
  exact hv.symm

section Along
variable (m)

/-- Every state along a run has the property. -/
def Always (P : σ → Prop) (s : σ) : List α → Prop
  | [] => P s
  | a :: as => P s ∧ ∀ t, m.step s a = some t → Always P t as

/-- Every step of a run meets the condition. -/
def Each (ok : σ → α → Prop) (s : σ) : List α → Prop
  | [] => True
  | a :: as => ok s a ∧ ∀ t, m.step s a = some t → Each ok t as

/-- The state after each step of a run has the property. -/
def AfterEach (P : σ → Prop) (s : σ) (as : List α) : Prop :=
  m.Each (fun s a => ∀ t, m.step s a = some t → P t) s as

variable {m}

theorem Always.head {P : σ → Prop} {s : σ} {as : List α} (h : m.Always P s as) : P s := by
  cases as with
  | nil => exact h
  | cons => exact h.1

theorem Always.last {P : σ → Prop} {s t : σ} {as : List α} (h : m.Always P s as)
    (hr : m.run s as = some t) : P t := by
  induction as generalizing s with
  | nil =>
    injection hr with hr
    rwa [← hr]
  | cons a as ih =>
    obtain ⟨u, hu, hr⟩ := Option.bind_eq_some_iff.mp hr
    exact ih (h.2 u hu) hr

theorem always_iff_afterEach {P : σ → Prop} {s : σ} {as : List α} :
    m.Always P s as ↔ P s ∧ m.AfterEach P s as := by
  induction as generalizing s with
  | nil => exact (and_iff_left trivial).symm
  | cons a as ih =>
    refine and_congr_right fun _ => ?_
    constructor
    · intro h
      exact ⟨fun t ht => (h t ht).head, fun t ht => (ih.mp (h t ht)).2⟩
    · rintro ⟨hafter, hrest⟩ t ht
      exact ih.mpr ⟨hafter t ht, hrest t ht⟩

theorem afterEach_cons {P : σ → Prop} {s t : σ} {a : α} (as : List α)
    (ht : m.step s a = some t) : m.AfterEach P s (a :: as) ↔ m.Always P t as := by
  have honly := step_unique ht
  constructor
  · rintro ⟨hafter, hrest⟩
    exact always_iff_afterEach.mpr ⟨hafter t ht, hrest t ht⟩
  · intro h
    obtain ⟨hafter, hrest⟩ := always_iff_afterEach.mp h
    constructor
    · intro v hv
      rwa [honly v hv]
    · intro v hv
      rwa [honly v hv]

theorem Each.keeps {ok : σ → α → Prop} {inv : σ → Prop} {s t : σ} {as : List α}
    (h : m.Each ok s as) (hstep : ∀ s a t, inv s → ok s a → m.step s a = some t → inv t)
    (hs : inv s) (hr : m.run s as = some t) : inv t := by
  induction as generalizing s with
  | nil =>
    injection hr with hr
    rwa [← hr]
  | cons a as ih =>
    obtain ⟨u, hu, hr⟩ := Option.bind_eq_some_iff.mp hr
    exact ih (h.2 u hu) (hstep s a u hs h.1 hu) hr

theorem each_congr {ok ok' : σ → α → Prop} (inv : σ → Prop)
    (hstep : ∀ s a t, inv s → m.step s a = some t → inv t)
    (hiff : ∀ s a, inv s → (ok s a ↔ ok' s a)) {s : σ} (hs : inv s) (as : List α) :
    m.Each ok s as ↔ m.Each ok' s as := by
  induction as generalizing s with
  | nil => exact Iff.rfl
  | cons a as ih =>
    exact and_congr (hiff s a hs) (forall₂_congr fun t ht => ih (hstep s a t hs ht))

/-- A condition on steps is exact for a property of states if, under an invariant,
the steps that meet it keep the invariant and every other step loses the property. -/
theorem always_iff_each {P inv : σ → Prop} {ok : σ → α → Prop}
    (hP : ∀ s, inv s → P s)
    (hkeep : ∀ s a t, inv s → ok s a → m.step s a = some t → inv t)
    (hlose : ∀ s a t, inv s → ¬ ok s a → m.step s a = some t → ¬ P t)
    {s t : σ} {as : List α} (hs : inv s) (hr : m.run s as = some t) :
    m.Always P s as ↔ m.Each ok s as := by
  induction as generalizing s with
  | nil => exact iff_of_true (hP s hs) trivial
  | cons a as ih =>
    obtain ⟨u, hu, hr⟩ := Option.bind_eq_some_iff.mp hr
    have honly := step_unique hu
    constructor
    · rintro ⟨_, hrest⟩
      have hok : ok s a := by
        by_contra hno
        exact hlose s a u hs hno hu (hrest u hu).head
      refine ⟨hok, ?_⟩
      intro v hv
      rw [honly v hv]
      exact (ih (hkeep s a u hs hok hu) hr).mp (hrest u hu)
    · rintro ⟨hok, hrest⟩
      refine ⟨hP s hs, ?_⟩
      intro v hv
      rw [honly v hv]
      exact (ih (hkeep s a u hs hok hu) hr).mpr (hrest u hu)

end Along

section Record
variable {β : Type} (m) (note : σ → α → List β)

/-- The machine with a record of what its steps note. -/
def record : Machine (σ × List β) α where
  init s := m.init s.1 ∧ s.2 = []
  step s a := (m.step s.1 a).map fun t => (t, s.2 ++ note s.1 a)

variable {m note}

theorem record_step {s t : σ × List β} {a : α} (h : (m.record note).step s a = some t) :
    m.step s.1 a = some t.1 ∧ t.2 = s.2 ++ note s.1 a := by
  obtain ⟨u, hu, rfl⟩ := Option.map_eq_some_iff.mp h
  exact ⟨hu, rfl⟩

theorem record_mono {s t : σ × List β} {as : List α} (hr : (m.record note).run s as = some t)
    (b : β) (hb : b ∈ s.2) : b ∈ t.2 := by
  have hstep : ∀ s a t, b ∈ s.2 → (m.record note).step s a = some t → b ∈ t.2 := by
    intro s a t hs hstep
    rw [(record_step hstep).2]
    exact List.mem_append_left _ hs
  exact run_keeps hstep hb hr

theorem record_forall_iff {P : β → Prop} {s t : σ × List β} {as : List α}
    (hs : ∀ b ∈ s.2, P b) (hr : (m.record note).run s as = some t) :
    (∀ b ∈ t.2, P b) ↔ (m.record note).Each (fun s a => ∀ b ∈ note s.1 a, P b) s as := by
  induction as generalizing s with
  | nil =>
    injection hr with hr
    exact iff_of_true (hr ▸ hs) trivial
  | cons a as ih =>
    obtain ⟨u, hu, hr⟩ := Option.bind_eq_some_iff.mp hr
    have honly := step_unique hu
    have hrecord := (record_step hu).2
    constructor
    · intro hall
      have hkept : ∀ b ∈ u.2, P b := fun b hb => hall b (record_mono hr b hb)
      have hnoted : ∀ b ∈ note s.1 a, P b := by
        intro b hb
        exact hkept b (hrecord ▸ List.mem_append_right _ hb)
      refine ⟨hnoted, ?_⟩
      intro v hv
      rw [honly v hv]
      exact (ih hkept hr).mp hall
    · rintro ⟨hnoted, hrest⟩
      have hkept : ∀ b ∈ u.2, P b := by
        intro b hb
        rw [hrecord] at hb
        exact (List.mem_append.mp hb).elim (hs b) (hnoted b)
      exact (ih hkept hr).mpr (hrest u hu)

end Record

section Checked
variable (m) (ok : σ → α → Prop) [∀ s a, Decidable (ok s a)]

def runWhere (s : σ) : List α → Option σ
  | [] => some s
  | a :: as => if ok s a then (m.step s a).bind fun t => runWhere t as else none

variable {m ok}

theorem ReachWhere.runWhere {s t : σ} {as : List α} (h : m.ReachWhere ok s)
    (hr : m.runWhere ok s as = some t) : m.ReachWhere ok t := by
  induction as generalizing s with
  | nil =>
    injection hr with hr
    rwa [← hr]
  | cons a as ih =>
    obtain ⟨hok, hr⟩ := Option.ite_none_right_eq_some.mp hr
    obtain ⟨u, hu, hr⟩ := Option.bind_eq_some_iff.mp hr
    exact ih (h.step hok hu) hr

theorem each_of_runWhere {s t : σ} {as : List α} (hr : m.runWhere ok s as = some t) :
    m.Each ok s as := by
  induction as generalizing s with
  | nil => exact trivial
  | cons a as ih =>
    obtain ⟨hok, hr⟩ := Option.ite_none_right_eq_some.mp hr
    obtain ⟨u, hu, hr⟩ := Option.bind_eq_some_iff.mp hr
    refine ⟨hok, ?_⟩
    intro v hv
    rw [step_unique hu v hv]
    exact ih hr

theorem run_of_runWhere {s t : σ} {as : List α} (hr : m.runWhere ok s as = some t) :
    m.run s as = some t := by
  induction as generalizing s with
  | nil => exact hr
  | cons a as ih =>
    obtain ⟨-, hr⟩ := Option.ite_none_right_eq_some.mp hr
    obtain ⟨u, hu, hr⟩ := Option.bind_eq_some_iff.mp hr
    exact Option.bind_eq_some_iff.mpr ⟨u, hu, ih hr⟩

end Checked

end Machine
