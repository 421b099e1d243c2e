import CoreAndroid.Lib.Monitor

/-! An object with a monitor that threads find through a handle, and that a thread may destroy:
it takes the object apart, releases it, and takes its handle away after that. -/
namespace Monitor
variable {Tid Val Pc Op : Type}

inductive DestroyPc where
  | idle
  | teardown (left : Nat) -- so many statements on the object come before its release
  | unpublish
  deriving DecidableEq, Repr

def DestroyPc.uses : DestroyPc → Bool
  | .teardown _ => true
  | _ => false

def Thread.uses (uses : Pc → Bool) : Thread Pc → Bool
  | .running pc => uses pc
  | _ => true

def Thread.atCall (code : Pc → Instr Val Pc Op) : Thread Pc → Bool
  | .running pc =>
    match code pc with
    | .call _ => true
    | _ => false
  | _ => false

/-- What the threads do with the object. -/
structure Object (Val Pc Op : Type) where
  code : Pc → Instr Val Pc Op
  uses : Pc → Bool -- at these points a thread has found the object and will use it
  teardown : Nat -- the statements on the object with which a destroy begins

structure Lifetime (Tid Val Pc : Type) where
  monitor : State Tid Val Pc
  live : Bool -- the handle leads to the object
  released : Nat
  touched : Bool -- the object was used after it was released
  destroy : Tid → DestroyPc

inductive LifeAction (Tid Op : Type) where
  | act (a : Action Tid Op)
  | destroy (t : Tid)
  | goOn (t : Tid)

/-- A call enters the object and leaves it for good. -/
structure Object.Sound (o : Object Val Pc Op) : Prop where
  enters : ∀ {pc enter}, o.code pc = .call enter →
    o.uses pc = false ∧ ∀ op v, o.uses (enter op v).2 = true
  stays : ∀ {pc}, o.uses pc = false → (∃ enter, o.code pc = .call enter) ∨
    ∃ run, o.code pc = .exec run ∧ ∀ v, o.uses (run v).2 = false

namespace Object
variable [DecidableEq Tid] (o : Object Val Pc Op)

def holds (s : Lifetime Tid Val Pc) (t : Tid) : Bool :=
  (s.monitor.thread t).uses o.uses || (s.destroy t).uses

def use (s : Lifetime Tid Val Pc) (t : Tid) : Lifetime Tid Val Pc :=
  { s with touched := s.touched || o.holds s t && s.released ≠ 0 }

def destroyStep (s : Lifetime Tid Val Pc) (t : Tid) : DestroyPc → Option (Lifetime Tid Val Pc)
  | .idle => none
  | .teardown (left + 1) =>
      some { o.use s t with destroy := Function.update s.destroy t (.teardown left) }
  | .teardown 0 =>
      some { s with
        released := s.released + 1
        destroy := Function.update s.destroy t .unpublish }
  | .unpublish => some { s with live := false, destroy := Function.update s.destroy t .idle }

def step (s : Lifetime Tid Val Pc) : LifeAction Tid Op → Option (Lifetime Tid Val Pc)
  | .act (.call t op) =>
      if s.destroy t = .idle then
        (Monitor.step o.code s.monitor (.call t op)).map fun monitor =>
          if s.live then { s with monitor } else s
      else none
  | .act (.run t) =>
      (Monitor.step o.code s.monitor (.run t)).map fun monitor => { o.use s t with monitor }
  | .act (.spurious t) =>
      (Monitor.step o.code s.monitor (.spurious t)).map fun monitor => { s with monitor }
  | .destroy t =>
      if s.destroy t = .idle ∧ (s.monitor.thread t).atCall o.code then
        some { s with
          destroy := Function.update s.destroy t (if s.live then .teardown o.teardown else .idle) }
      else none
  | .goOn t => o.destroyStep s t (s.destroy t)

def fresh (monitor : State Tid Val Pc) : Lifetime Tid Val Pc :=
  ⟨monitor, true, 0, false, fun _ => .idle⟩

def lifetime (init : State Tid Val Pc → Prop) :
    Machine (Lifetime Tid Val Pc) (LifeAction Tid Op) where
  init s := ∃ monitor, init monitor ∧ s = fresh monitor
  step := o.step

/-- The object is released once at most, and after that nobody uses it or is about to. -/
structure Safe (s : Lifetime Tid Val Pc) : Prop where
  untouched : s.touched = false
  once : s.released ≤ 1
  gone : s.released ≠ 0 → ∀ t, o.holds s t = false

/-- The object is released while no other thread has it, and from then on until the handle is
gone nobody looks for it. -/
def Alone (s : Lifetime Tid Val Pc) : LifeAction Tid Op → Prop
  | .act (.call _ _) | .destroy _ => s.live = true → s.released = 0
  | .goOn t => s.destroy t = .teardown 0 → ∀ u, u ≠ t → o.holds s u = false
  | .act _ => True

structure LifeInv (s : Lifetime Tid Val Pc) : Prop where
  safe : o.Safe s
  busy : ∀ t, s.destroy t ≠ .idle → (s.monitor.thread t).atCall o.code = true

variable {o} {s s' : Lifetime Tid Val Pc}

omit [DecidableEq Tid] in
theorem fresh_inv (monitor : State Tid Val Pc) : o.LifeInv (fresh monitor) where
  safe := ⟨rfl, Nat.zero_le 1, fun h => absurd rfl h⟩
  busy _ h := absurd rfl h

@[simp] theorem wake_uses (uses : Pc → Bool) (th : Thread Pc) :
    th.wake.uses uses = th.uses uses := by
  cases th <;> rfl

@[simp] theorem wake_atCall (code : Pc → Instr Val Pc Op) (th : Thread Pc) :
    th.wake.atCall code = th.atCall code := by
  cases th <;> rfl

theorem thread_other {code : Pc → Instr Val Pc Op} {m m' : State Tid Val Pc} {a : Action Tid Op}
    (h : Step code m a m') {u : Tid} (hu : u ≠ a.tid) :
    m'.thread u = m.thread u ∨ m'.thread u = (m.thread u).wake := by
  cases h with
  | @broadcast t =>
    have hut : u ≠ t := hu
    exact .inr (by simp [hut])
  | @call t | @lock t | @unlock t | @exec t | @wait t | @resume t | @spurious t =>
    have hut : u ≠ t := hu
    exact .inl (by simp [hut])

theorem uses_other {code : Pc → Instr Val Pc Op} {m m' : State Tid Val Pc} {a : Action Tid Op}
    (h : Step code m a m') (uses : Pc → Bool) {u : Tid} (hu : u ≠ a.tid) :
    (m'.thread u).uses uses = (m.thread u).uses uses := by
  rcases thread_other h hu with heq | heq <;> rw [heq]
  exact wake_uses uses _

theorem atCall_other {code : Pc → Instr Val Pc Op} {m m' : State Tid Val Pc} {a : Action Tid Op}
    (h : Step code m a m') {u : Tid} (hu : u ≠ a.tid) :
    (m'.thread u).atCall code = (m.thread u).atCall code := by
  rcases thread_other h hu with heq | heq <;> rw [heq]
  exact wake_atCall code _

omit [DecidableEq Tid] in
theorem Sound.atCall_out (hs : o.Sound) {th : Thread Pc} (h : th.atCall o.code = true) :
    th.uses o.uses = false := by
  cases th with
  | running pc =>
    cases hc : o.code pc with
    | call enter => exact (hs.enters hc).1
    | _ => simp [Thread.atCall, hc] at h
  | asleep pc | woken pc => cases h

theorem not_atCall_of_run {code : Pc → Instr Val Pc Op} {m m' : State Tid Val Pc} {t : Tid}
    (h : Step code m (.run t) m') : (m.thread t).atCall code = false := by
  cases h with
  | lock ht hc | unlock ht hc | exec ht hc | wait ht hc | broadcast ht hc =>
    simp [ht, Thread.atCall, hc]
  | resume ht => simp [ht, Thread.atCall]

theorem Sound.run_out (hs : o.Sound) {m m' : State Tid Val Pc} {t : Tid}
    (h : Step o.code m (.run t) m') (hout : (m.thread t).uses o.uses = false) :
    (m'.thread t).uses o.uses = false := by
  have hcall := not_atCall_of_run h
  cases hth : m.thread t with
  | asleep pc | woken pc => simp [hth, Thread.uses] at hout
  | running pc =>
    simp only [hth, Thread.uses] at hout
    rcases hs.stays hout with ⟨enter, hc⟩ | ⟨run, hc, hrun⟩
    · simp [hth, Thread.atCall, hc] at hcall
    · cases h with
      | exec ht hc' =>
        cases hth.symm.trans ht
        cases hc.symm.trans hc'
        simpa [Thread.uses] using hrun m.val
      | lock ht hc' | unlock ht hc' | wait ht hc' | broadcast ht hc' =>
        cases hth.symm.trans ht
        cases hc.symm.trans hc'
      | resume ht => cases hth.symm.trans ht

omit [DecidableEq Tid] in
theorem use_eq (h : o.Safe s) (t : Tid) : o.use s t = s := by
  have hheld : (o.holds s t && decide (s.released ≠ 0)) = false := by
    by_cases hr : s.released = 0
    · simp [hr]
    · simp [h.gone hr t]
  unfold use
  rw [hheld, Bool.or_false]

theorem LifeInv.monitor (hi : o.LifeInv s) {a : Action Tid Op} {m : State Tid Val Pc}
    (h : Step o.code s.monitor a m) (hbusy : s.destroy a.tid = .idle)
    (hout : s.released ≠ 0 → (m.thread a.tid).uses o.uses = false) :
    o.LifeInv { s with monitor := m } where
  safe.untouched := hi.safe.untouched
  safe.once := hi.safe.once
  safe.gone hr u := by
    have hgone := hi.safe.gone hr u
    unfold holds at hgone ⊢
    by_cases hu : u = a.tid
    · subst hu
      simp [hout hr, hbusy, DestroyPc.uses]
    · simpa only [uses_other h o.uses hu] using hgone
  busy u hu := by
    have hne : u ≠ a.tid := by
      rintro rfl
      exact hu hbusy
    exact (atCall_other h hne).trans (hi.busy u hu)

theorem LifeInv.moves (hi : o.LifeInv s) {t : Tid} {pc : DestroyPc} {live : Bool}
    (hcall : (s.monitor.thread t).atCall o.code = true)
    (hout : s.released ≠ 0 → pc.uses = false) (hs : o.Sound) :
    o.LifeInv { s with live, destroy := Function.update s.destroy t pc } where
  safe.untouched := hi.safe.untouched
  safe.once := hi.safe.once
  safe.gone hr u := by
    have hgone := hi.safe.gone hr u
    unfold holds at hgone ⊢
    by_cases hu : u = t
    · subst hu
      simp [hs.atCall_out hcall, hout hr]
    · simpa [Function.update_of_ne hu] using hgone
  busy u hu := by
    by_cases hut : u = t
    · exact hut ▸ hcall
    · exact hi.busy u (by simpa [Function.update_of_ne hut] using hu)

theorem LifeInv.release (hi : o.LifeInv s) (hs : o.Sound) {t : Tid}
    (hpc : s.destroy t = .teardown 0) (halone : ∀ u, u ≠ t → o.holds s u = false) :
    o.LifeInv { s with
      released := s.released + 1
      destroy := Function.update s.destroy t .unpublish } := by
  have hcall := hi.busy t (by simp [hpc])
  have hzero : s.released = 0 := by
    by_contra hr
    have hheld := hi.safe.gone hr t
    simp [holds, hpc, DestroyPc.uses] at hheld
  refine ⟨⟨hi.safe.untouched, by simp [hzero], ?_⟩, ?_⟩
  · intro _ u
    by_cases hu : u = t
    · subst hu
      simp [holds, hs.atCall_out hcall, DestroyPc.uses]
    · simpa [holds, Function.update_of_ne hu] using halone u hu
  · intro u hu
    by_cases hut : u = t
    · exact hut ▸ hcall
    · exact hi.busy u (by simpa [Function.update_of_ne hut] using hu)

theorem LifeInv.step (hi : o.LifeInv s) (hs : o.Sound) {a : LifeAction Tid Op}
    (hok : o.Alone s a) (h : o.step s a = some s') : o.LifeInv s' := by
  cases a with
  | act a =>
    cases a with
    | call t op =>
      obtain ⟨hidle, h⟩ := Option.ite_none_right_eq_some.mp h
      obtain ⟨m, hm, rfl⟩ := Option.map_eq_some_iff.mp h
      by_cases hl : s.live = true
      · rw [if_pos hl]
        exact hi.monitor (step_spec hm) hidle fun hr => absurd (hok hl) hr
      · rwa [if_neg hl]
    | run t =>
      obtain ⟨m, hm, rfl⟩ := Option.map_eq_some_iff.mp h
      have hstep := step_spec hm
      have hidle : s.destroy t = .idle := by
        by_contra hbusy
        have hcall := hi.busy t hbusy
        rw [not_atCall_of_run hstep] at hcall
        cases hcall
      rw [use_eq hi.safe]
      refine hi.monitor hstep hidle fun hr => ?_
      have hout : (s.monitor.thread t).uses o.uses = false := by
        simpa [holds, hidle, DestroyPc.uses] using hi.safe.gone hr t
      exact hs.run_out hstep hout
    | spurious t =>
      obtain ⟨m, hm, rfl⟩ := Option.map_eq_some_iff.mp h
      have hstep := step_spec hm
      cases hstep with
      | spurious ht =>
        have hidle : s.destroy t = .idle := by
          by_contra hbusy
          have hcall := hi.busy t hbusy
          simp [ht, Thread.atCall] at hcall
        refine hi.monitor (.spurious ht) hidle fun hr => ?_
        have hgone := hi.safe.gone hr t
        simp [holds, ht, Thread.uses] at hgone
  | destroy t =>
    obtain ⟨⟨hidle, hcall⟩, h⟩ := Option.ite_none_right_eq_some.mp h
    cases h
    refine hi.moves hcall (fun hr => ?_) hs
    by_cases hl : s.live = true
    · exact absurd (hok hl) hr
    · simp [hl, DestroyPc.uses]
  | goOn t =>
    dsimp only [Object.step] at h
    cases hpc : s.destroy t with
    | idle =>
      rw [hpc] at h
      cases h
    | teardown left =>
      have hcall := hi.busy t (by simp [hpc])
      rw [hpc] at h
      cases left with
      | zero =>
        cases h
        exact hi.release hs hpc (hok hpc)
      | succ left =>
        rw [destroyStep, use_eq hi.safe] at h
        cases h
        refine hi.moves hcall (fun hr => ?_) hs
        have hgone := hi.safe.gone hr t
        simp [holds, hpc, DestroyPc.uses] at hgone
    | unpublish =>
      have hcall := hi.busy t (by simp [hpc])
      rw [hpc] at h
      cases h
      exact hi.moves hcall (fun _ => rfl) hs

theorem unsafe_of_not_alone (hs : o.Sound) {a : LifeAction Tid Op}
    (hno : ¬ o.Alone s a) (h : o.step s a = some s') : ¬ o.Safe s' := by
  intro hsafe
  cases a with
  | act a =>
    cases a with
    | call t op =>
      simp only [Alone, Classical.not_imp] at hno
      obtain ⟨hl, hr⟩ := hno
      obtain ⟨-, h⟩ := Option.ite_none_right_eq_some.mp h
      obtain ⟨m, hm, rfl⟩ := Option.map_eq_some_iff.mp h
      rw [if_pos hl] at hsafe
      cases step_spec hm with
      | @call _ _ pc enter ht hc =>
        have hgone := hsafe.gone hr t
        simp [holds, Thread.uses, (hs.enters hc).2] at hgone
    | run t | spurious t => exact hno trivial
  | destroy t =>
    simp only [Alone, Classical.not_imp] at hno
    obtain ⟨hl, hr⟩ := hno
    obtain ⟨-, h⟩ := Option.ite_none_right_eq_some.mp h
    cases h
    have hgone := hsafe.gone hr t
    simp [holds, hl, DestroyPc.uses] at hgone
  | goOn t =>
    simp only [Alone, Classical.not_imp, not_forall] at hno
    obtain ⟨hpc, u, hu, hheld⟩ := hno
    simp only [Object.step, hpc, destroyStep, Option.some_inj] at h
    subst h
    have hgone := hsafe.gone (Nat.succ_ne_zero _) u
    simp only [holds, Function.update_of_ne hu] at hgone hheld
    exact hheld hgone

/-- The condition is exact. -/
theorem safe_iff_alone (hs : o.Sound) {init : State Tid Val Pc → Prop}
    {as : List (LifeAction Tid Op)} (hi : o.LifeInv s) (hr : (o.lifetime init).run s as = some s') :
    (o.lifetime init).Always o.Safe s as ↔ (o.lifetime init).Each o.Alone s as :=
  Machine.always_iff_each (fun _ hi => hi.safe) (fun _ _ _ hi hok h => hi.step hs hok h)
    (fun _ _ _ _ hno h => unsafe_of_not_alone hs hno h) hi hr

end Object

end Monitor
