import CoreAndroid.Lib.Machine

/-! Threads that share a value under one mutex with one condition variable. A
thread's program is an instruction for each of its program points. -/
namespace Monitor

/-- What a thread does at a program point. Only the environment leaves a `call` point. -/
inductive Instr (Val Pc Op : Type) where
  | call (enter : Op → Val → Val × Pc)
  | lock (next : Pc)
  | unlock (next : Pc)
  | exec (run : Val → Val × Pc)
  | wait (next : Pc)
  | broadcast (next : Pc)

/-- A thread runs, or sleeps on the condition variable, or was woken there and
waits for the mutex. A sleeper continues at its point once it has the mutex back. -/
inductive Thread (Pc : Type) where
  | running (pc : Pc)
  | asleep (pc : Pc)
  | woken (pc : Pc)
  deriving DecidableEq, Repr

def Thread.wake {Pc : Type} : Thread Pc → Thread Pc
  | .asleep pc => .woken pc
  | t => t

def Thread.isWoken {Pc : Type} : Thread Pc → Bool
  | .woken _ => true
  | _ => false

structure State (Tid Val Pc : Type) where
  val : Val
  holder : Option Tid
  thread : Tid → Thread Pc
  sleeps : Tid → Nat -- how often a thread has gone to sleep

inductive Action (Tid Op : Type) where
  | call (t : Tid) (op : Op)
  | run (t : Tid)
  | spurious (t : Tid)

variable {Tid Val Pc Op : Type} [DecidableEq Tid]

def Action.tid : Action Tid Op → Tid
  | .call t _ => t
  | .run t => t
  | .spurious t => t

def State.goto (s : State Tid Val Pc) (t : Tid) (th : Thread Pc) : State Tid Val Pc :=
  { s with thread := Function.update s.thread t th }

def exec (s : State Tid Val Pc) (t : Tid) : Instr Val Pc Op → Option (State Tid Val Pc)
  | .call _ => none
  | .lock next =>
    if s.holder = none then some { s.goto t (.running next) with holder := some t } else none
  | .unlock next =>
    if s.holder = some t then some { s.goto t (.running next) with holder := none } else none
  | .exec run => some { s.goto t (.running (run s.val).2) with val := (run s.val).1 }
  | .wait next =>
    if s.holder = some t then
      some { s.goto t (.asleep next) with
        holder := none
        sleeps := Function.update s.sleeps t (s.sleeps t + 1) }
    else none
  | .broadcast next =>
    some { s with thread := Function.update (fun u => (s.thread u).wake) t (.running next) }

def step (code : Pc → Instr Val Pc Op) (s : State Tid Val Pc) :
    Action Tid Op → Option (State Tid Val Pc)
  | .call t op =>
    match s.thread t with
    | .running pc =>
      match code pc with
      | .call enter =>
        some { s.goto t (.running (enter op s.val).2) with val := (enter op s.val).1 }
      | _ => none
    | _ => none
  | .run t =>
    match s.thread t with
    | .running pc => exec s t (code pc)
    | .asleep _ => none
    | .woken pc =>
      if s.holder = none then some { s.goto t (.running pc) with holder := some t } else none
  | .spurious t =>
    match s.thread t with
    | .asleep pc => some (s.goto t (.woken pc))
    | _ => none

def start (v : Val) (pc : Pc) : State Tid Val Pc := ⟨v, none, fun _ => .running pc, fun _ => 0⟩

def machine (code : Pc → Instr Val Pc Op) (init : State Tid Val Pc → Prop) :
    Machine (State Tid Val Pc) (Action Tid Op) where
  init := init
  step := step code

/-- What a step can be, with the state it leaves. -/
inductive Step (code : Pc → Instr Val Pc Op) (s : State Tid Val Pc) :
    Action Tid Op → State Tid Val Pc → Prop
  | call {t op pc enter} : s.thread t = .running pc → code pc = .call enter →
      Step code s (.call t op)
        { s.goto t (.running (enter op s.val).2) with val := (enter op s.val).1 }
  | lock {t pc next} : s.thread t = .running pc → code pc = .lock next → s.holder = none →
      Step code s (.run t) { s.goto t (.running next) with holder := some t }
  | unlock {t pc next} : s.thread t = .running pc → code pc = .unlock next → s.holder = some t →
      Step code s (.run t) { s.goto t (.running next) with holder := none }
  | exec {t pc run} : s.thread t = .running pc → code pc = .exec run →
      Step code s (.run t) { s.goto t (.running (run s.val).2) with val := (run s.val).1 }
  | wait {t pc next} : s.thread t = .running pc → code pc = .wait next → s.holder = some t →
      Step code s (.run t) { s.goto t (.asleep next) with
        holder := none
        sleeps := Function.update s.sleeps t (s.sleeps t + 1) }
  | broadcast {t pc next} : s.thread t = .running pc → code pc = .broadcast next →
      Step code s (.run t)
        { s with thread := Function.update (fun u => (s.thread u).wake) t (.running next) }
  | resume {t pc} : s.thread t = .woken pc → s.holder = none →
      Step code s (.run t) { s.goto t (.running pc) with holder := some t }
  | spurious {t pc} : s.thread t = .asleep pc → Step code s (.spurious t) (s.goto t (.woken pc))

theorem step_spec {code : Pc → Instr Val Pc Op} {s s' : State Tid Val Pc} {a : Action Tid Op}
    (h : step code s a = some s') : Step code s a s' := by
  cases a with
  | call t op =>
    cases ht : s.thread t with
    | running pc =>
      cases hc : code pc with
      | call enter =>
        simp only [step, ht, hc, Option.some.injEq] at h
        exact h ▸ .call ht hc
      | _ => simp [step, ht, hc] at h
    | _ => simp [step, ht] at h
  | run t =>
    cases ht : s.thread t with
    | running pc =>
      simp only [step, ht] at h
      cases hc : code pc with
      | call enter => simp [hc, exec] at h
      | lock next =>
        rw [hc, exec, Option.ite_none_right_eq_some, Option.some.injEq] at h
        exact h.2 ▸ .lock ht hc h.1
      | unlock next =>
        rw [hc, exec, Option.ite_none_right_eq_some, Option.some.injEq] at h
        exact h.2 ▸ .unlock ht hc h.1
      | exec run =>
        rw [hc, exec, Option.some.injEq] at h
        exact h ▸ .exec ht hc
      | wait next =>
        rw [hc, exec, Option.ite_none_right_eq_some, Option.some.injEq] at h
        exact h.2 ▸ .wait ht hc h.1
      | broadcast next =>
        rw [hc, exec, Option.some.injEq] at h
        exact h ▸ .broadcast ht hc
    | asleep pc => simp [step, ht] at h
    | woken pc =>
      simp only [step, ht] at h
      rw [Option.ite_none_right_eq_some, Option.some.injEq] at h
      exact h.2 ▸ .resume ht h.1
  | spurious t =>
    cases ht : s.thread t with
    | asleep pc =>
      simp only [step, ht, Option.some.injEq] at h
      exact h ▸ .spurious ht
    | _ => simp [step, ht] at h

/-- Marks on the program points, about a condition on the value that sleepers wait
for: the thread holds the mutex here; the condition may hold here although threads
sleep; the condition does not hold here. -/
structure Marks (Pc : Type) where
  inside : Pc → Bool
  raised : Pc → Bool
  denied : Pc → Bool

/-- The marks are right about one instruction: a thread sleeps only where the
condition is denied, and who makes it true broadcasts before it lets go of the mutex. -/
def Marks.Sound (mk : Marks Pc) (P : Val → Prop) (pc : Pc) : Instr Val Pc Op → Prop
  | .call enter => mk.inside pc = false ∧
      ∀ op v, mk.inside (enter op v).2 = false ∧ (P (enter op v).1 ↔ P v)
  | .lock next => mk.inside pc = false ∧ mk.inside next = true ∧ mk.denied next = false
  | .unlock next => mk.inside pc = true ∧ mk.raised pc = false ∧ mk.inside next = false
  | .exec run => ∀ v, mk.inside (run v).2 = mk.inside pc ∧
      (mk.inside pc = false → (P (run v).1 ↔ P v)) ∧
      (P (run v).1 → (P v ∧ mk.raised pc = false) ∨ mk.raised (run v).2 = true) ∧
      (mk.denied (run v).2 = true → ¬ P (run v).1)
  | .wait next => mk.inside pc = true ∧ mk.denied pc = true ∧
      mk.inside next = true ∧ mk.denied next = false
  | .broadcast next => mk.inside pc = true ∧ mk.inside next = true ∧ mk.denied next = false

structure Disciplined (code : Pc → Instr Val Pc Op) (P : Val → Prop) (mk : Marks Pc) : Prop where
  sound : ∀ pc, mk.Sound P pc (code pc)
  raised_inside : ∀ pc, mk.raised pc = true → mk.inside pc = true
  denied_inside : ∀ pc, mk.denied pc = true → mk.inside pc = true

structure Inv (mk : Marks Pc) (P : Val → Prop) (s : State Tid Val Pc) : Prop where
  owner : ∀ t pc, s.thread t = .running pc → (mk.inside pc = true ↔ s.holder = some t)
  parked : ∀ t pc, s.thread t = .asleep pc ∨ s.thread t = .woken pc →
    s.holder ≠ some t ∧ mk.inside pc = true ∧ mk.denied pc = false
  denied : ∀ t pc, s.thread t = .running pc → mk.denied pc = true → ¬ P s.val
  sleepers : P s.val → (∃ u pc, s.thread u = .asleep pc) →
    ∃ t pc, s.thread t = .running pc ∧ mk.raised pc = true

@[simp] theorem goto_same (s : State Tid Val Pc) (t : Tid) (th : Thread Pc) :
    (s.goto t th).thread t = th := by
  simp [State.goto]

@[simp] theorem goto_other (s : State Tid Val Pc) {t u : Tid} (th : Thread Pc) (h : u ≠ t) :
    (s.goto t th).thread u = s.thread u := by
  simp [State.goto, h]

@[simp] theorem goto_holder (s : State Tid Val Pc) (t : Tid) (th : Thread Pc) :
    (s.goto t th).holder = s.holder := rfl

@[simp] theorem goto_val (s : State Tid Val Pc) (t : Tid) (th : Thread Pc) :
    (s.goto t th).val = s.val := rfl

@[simp] theorem goto_sleeps (s : State Tid Val Pc) (t : Tid) (th : Thread Pc) :
    (s.goto t th).sleeps = s.sleeps := rfl

@[simp] theorem wake_eq_running (th : Thread Pc) (pc : Pc) :
    th.wake = .running pc ↔ th = .running pc := by
  cases th <;> simp [Thread.wake]

@[simp] theorem wake_ne_asleep (th : Thread Pc) (pc : Pc) : th.wake ≠ .asleep pc := by
  cases th <;> simp [Thread.wake]

theorem wake_eq_woken (th : Thread Pc) (pc : Pc) :
    th.wake = .woken pc ↔ th = .asleep pc ∨ th = .woken pc := by
  cases th <;> simp [Thread.wake]

theorem Step.others {code : Pc → Instr Val Pc Op} {s s' : State Tid Val Pc} {a : Action Tid Op}
    (h : Step code s a s') {u : Tid} (hu : u ≠ a.tid) {pc : Pc} :
    s'.thread u = .running pc ↔ s.thread u = .running pc := by
  cases h with
  | @call t | @lock t | @unlock t | @exec t | @wait t | @broadcast t | @resume t | @spurious t =>
    have hut : u ≠ t := hu
    simp [hut]

theorem Step.others_asleep {code : Pc → Instr Val Pc Op} {s s' : State Tid Val Pc}
    {a : Action Tid Op} (h : Step code s a s') {u : Tid} (hu : u ≠ a.tid) {pc : Pc}
    (hp : s'.thread u = .asleep pc) : s.thread u = .asleep pc := by
  cases h with
  | @broadcast t =>
    have hut : u ≠ t := hu
    simp [hut] at hp
  | @call t | @lock t | @unlock t | @exec t | @wait t | @resume t | @spurious t =>
    have hut : u ≠ t := hu
    simpa [hut] using hp

theorem Step.others_parked {code : Pc → Instr Val Pc Op} {s s' : State Tid Val Pc}
    {a : Action Tid Op} (h : Step code s a s') {u : Tid} (hu : u ≠ a.tid) {pc : Pc}
    (hp : s'.thread u = .asleep pc ∨ s'.thread u = .woken pc) :
    s.thread u = .asleep pc ∨ s.thread u = .woken pc := by
  cases h with
  | @broadcast t =>
    have hut : u ≠ t := hu
    simpa [hut, wake_eq_woken] using hp
  | @call t | @lock t | @unlock t | @exec t | @wait t | @resume t | @spurious t =>
    have hut : u ≠ t := hu
    simpa [hut] using hp

theorem Step.others_holder {code : Pc → Instr Val Pc Op} {s s' : State Tid Val Pc}
    {a : Action Tid Op} (h : Step code s a s') {u : Tid} (hu : u ≠ a.tid) :
    s'.holder = some u ↔ s.holder = some u := by
  cases h with
  | @lock t _ _ _ _ hfree | @resume t _ _ hfree =>
    have hut : u ≠ t := hu
    simp [hfree, Ne.symm hut]
  | @unlock t _ _ _ _ hheld | @wait t _ _ _ _ hheld =>
    have hut : u ≠ t := hu
    simp [hheld, Ne.symm hut]
  | _ => exact Iff.rfl

def ParkedAt (code : Pc → Instr Val Pc Op) (s : State Tid Val Pc) : Prop :=
  ∀ u pc, s.thread u = .asleep pc ∨ s.thread u = .woken pc → ∃ pc₀, code pc₀ = .wait pc

theorem Step.parkedAt {code : Pc → Instr Val Pc Op} {s s' : State Tid Val Pc} {a : Action Tid Op}
    (h : Step code s a s') (hi : ParkedAt code s) : ParkedAt code s' := by
  intro u pc hu
  by_cases hua : u = a.tid
  · subst hua
    cases h with
    | @wait t pc₀ next ht hc =>
      simp [Action.tid] at hu
      exact ⟨pc₀, hu ▸ hc⟩
    | @spurious t pc₀ ht =>
      simp [Action.tid] at hu
      exact hu ▸ hi t pc₀ (.inl ht)
    | _ => simp [Action.tid] at hu
  · exact hi u pc (h.others_parked hua hu)

section Invariant
variable {code : Pc → Instr Val Pc Op} {P : Val → Prop} {mk : Marks Pc}
  {s s' : State Tid Val Pc} {a : Action Tid Op}

omit [DecidableEq Tid] in
theorem start_inv (v : Val) (pc : Pc) (hout : mk.inside pc = false)
    (hd : Disciplined code P mk) : Inv mk P (start v pc : State Tid Val Pc) where
  owner t pc' h := by
    injection h with h
    subst h
    simp [start, hout]
  parked t pc' h := by
    simp [start] at h
  denied t pc' h hden := by
    injection h with h
    subst h
    simp [hd.denied_inside pc hden] at hout
  sleepers _ h := by
    simp [start] at h

theorem Inv.owner_step (hi : Inv mk P s) (hd : Disciplined code P mk) (h : Step code s a s')
    (u : Tid) (pc : Pc) (hu : s'.thread u = .running pc) :
    mk.inside pc = true ↔ s'.holder = some u := by
  by_cases hua : u = a.tid
  · subst hua
    cases h with
    | @call t op pc₀ enter ht hc =>
      have hs := hd.sound pc₀
      have ho := hi.owner t pc₀ ht
      simp only [hc, Marks.Sound] at hs
      simp [Action.tid] at hu
      simp [Action.tid, ← hu, hs.2, ← ho, hs.1]
    | @lock t pc₀ next ht hc hfree =>
      have hs := hd.sound pc₀
      simp only [hc, Marks.Sound] at hs
      simp [Action.tid] at hu
      simp [Action.tid, ← hu, hs.2.1]
    | @unlock t pc₀ next ht hc hheld =>
      have hs := hd.sound pc₀
      simp only [hc, Marks.Sound] at hs
      simp [Action.tid] at hu
      simp [Action.tid, ← hu, hs.2.2]
    | @exec t pc₀ run ht hc =>
      have hs := hd.sound pc₀
      simp only [hc, Marks.Sound] at hs
      simp [Action.tid] at hu
      simpa [Action.tid, ← hu, (hs s.val).1] using hi.owner t pc₀ ht
    | @broadcast t pc₀ next ht hc =>
      have hs := hd.sound pc₀
      simp only [hc, Marks.Sound] at hs
      simp [Action.tid] at hu
      simp [Action.tid, ← hu, hs.2.1, ← hi.owner t pc₀ ht, hs.1]
    | @resume t pc₀ ht hfree =>
      simp [Action.tid] at hu
      simp [Action.tid, ← hu, (hi.parked t pc₀ (.inr ht)).2.1]
    | @wait t | @spurious t => simp [Action.tid] at hu
  · rw [h.others_holder hua]
    exact hi.owner u pc ((h.others hua).mp hu)

theorem Inv.parked_step (hi : Inv mk P s) (hd : Disciplined code P mk) (h : Step code s a s')
    (u : Tid) (pc : Pc) (hu : s'.thread u = .asleep pc ∨ s'.thread u = .woken pc) :
    s'.holder ≠ some u ∧ mk.inside pc = true ∧ mk.denied pc = false := by
  by_cases hua : u = a.tid
  · subst hua
    cases h with
    | @wait t pc₀ next ht hc hheld =>
      have hs := hd.sound pc₀
      simp only [hc, Marks.Sound] at hs
      simp [Action.tid] at hu
      exact ⟨by simp, hu ▸ hs.2.2⟩
    | @spurious t pc₀ ht =>
      simp [Action.tid] at hu
      exact hu ▸ hi.parked t pc₀ (.inl ht)
    | _ => simp [Action.tid] at hu
  · have hp := hi.parked u pc (h.others_parked hua hu)
    exact ⟨fun hheld => hp.1 ((h.others_holder hua).mp hheld), hp.2⟩

theorem Inv.keeps (hi : Inv mk P s) (hd : Disciplined code P mk) (h : Step code s a s')
    {u : Tid} {pc : Pc} (hua : u ≠ a.tid) (hu : s.thread u = .running pc)
    (hin : mk.inside pc = true) : P s'.val ↔ P s.val := by
  have hheld := (hi.owner u pc hu).mp hin
  cases h with
  | @call t op pc₀ enter ht hc =>
    have hs := hd.sound pc₀
    simp only [hc, Marks.Sound] at hs
    exact (hs.2 op s.val).2
  | @exec t pc₀ run ht hc =>
    have hs := hd.sound pc₀
    simp only [hc, Marks.Sound] at hs
    have hout : mk.inside pc₀ = false := by
      by_contra hin₀
      have hheld₀ := (hi.owner t pc₀ ht).mp (by simpa using hin₀)
      rw [hheld] at hheld₀
      injection hheld₀ with hheld₀
      exact hua hheld₀
    exact (hs s.val).2.1 hout
  | _ => exact Iff.rfl

theorem Inv.denied_step (hi : Inv mk P s) (hd : Disciplined code P mk) (h : Step code s a s')
    (u : Tid) (pc : Pc) (hu : s'.thread u = .running pc) (hden : mk.denied pc = true) :
    ¬ P s'.val := by
  have hin := hd.denied_inside pc hden
  by_cases hua : u = a.tid
  · subst hua
    cases h with
    | @call t op pc₀ enter ht hc =>
      have hs := hd.sound pc₀
      simp only [hc, Marks.Sound] at hs
      simp [Action.tid] at hu
      simp [← hu, hs.2] at hin
    | @lock t pc₀ next ht hc hfree =>
      have hs := hd.sound pc₀
      simp only [hc, Marks.Sound] at hs
      simp [Action.tid] at hu
      simp [← hu, hs.2.2] at hden
    | @unlock t pc₀ next ht hc hheld =>
      have hs := hd.sound pc₀
      simp only [hc, Marks.Sound] at hs
      simp [Action.tid] at hu
      simp [← hu, hs.2.2] at hin
    | @exec t pc₀ run ht hc =>
      have hs := hd.sound pc₀
      simp only [hc, Marks.Sound] at hs
      simp [Action.tid] at hu
      exact (hs s.val).2.2.2 (hu ▸ hden)
    | @broadcast t pc₀ next ht hc =>
      have hs := hd.sound pc₀
      simp only [hc, Marks.Sound] at hs
      simp [Action.tid] at hu
      simp [← hu, hs.2.2] at hden
    | @resume t pc₀ ht hfree =>
      simp [Action.tid] at hu
      simp [← hu, (hi.parked t pc₀ (.inr ht)).2.2] at hden
    | @wait t | @spurious t => simp [Action.tid] at hu
  · have hsame := (h.others hua).mp hu
    rw [hi.keeps hd h hua hsame hin]
    exact hi.denied u pc hsame hden

theorem Inv.sleepers_step (hi : Inv mk P s) (hd : Disciplined code P mk) (h : Step code s a s')
    (hP : P s'.val) (hu : ∃ u pc, s'.thread u = .asleep pc) :
    ∃ t pc, s'.thread t = .running pc ∧ mk.raised pc = true := by
  obtain ⟨u, pc, hu⟩ := hu
  have hout {pc : Pc} (hin : mk.inside pc = false) : mk.raised pc = false := by
    by_contra hr
    simp [hd.raised_inside pc (by simpa using hr)] at hin
  -- a broadcast that another thread still owed before the step is owed after it
  have howed : P s.val → (∀ pc₀, s.thread a.tid = .running pc₀ → mk.raised pc₀ = false) →
      u ≠ a.tid → ∃ t pc, s'.thread t = .running pc ∧ mk.raised pc = true := by
    intro hold hlow hua
    obtain ⟨w, pc', hw, hr⟩ := hi.sleepers hold ⟨u, pc, h.others_asleep hua hu⟩
    have hwa : w ≠ a.tid := by
      rintro rfl
      simp [hlow pc' hw] at hr
    exact ⟨w, pc', (h.others hwa).mpr hw, hr⟩
  cases h with
  | @call t op pc₀ enter ht hc =>
    have hs := hd.sound pc₀
    simp only [hc, Marks.Sound] at hs
    apply howed ((hs.2 op s.val).2.mp hP)
    · intro pc' hw
      cases ht.symm.trans hw
      exact hout hs.1
    · rintro rfl
      simp at hu
  | @lock t pc₀ next ht hc hfree =>
    have hs := hd.sound pc₀
    simp only [hc, Marks.Sound] at hs
    apply howed hP
    · intro pc' hw
      cases ht.symm.trans hw
      exact hout hs.1
    · rintro rfl
      simp at hu
  | @unlock t pc₀ next ht hc hheld =>
    have hs := hd.sound pc₀
    simp only [hc, Marks.Sound] at hs
    apply howed hP
    · intro pc' hw
      cases ht.symm.trans hw
      exact hs.2.1
    · rintro rfl
      simp at hu
  | @exec t pc₀ run ht hc =>
    have hs := hd.sound pc₀
    simp only [hc, Marks.Sound] at hs
    rcases (hs s.val).2.2.1 hP with ⟨hold, hlow⟩ | hraised
    · apply howed hold
      · intro pc' hw
        cases ht.symm.trans hw
        exact hlow
      · rintro rfl
        simp at hu
    · exact ⟨t, _, by simp, hraised⟩
  | @wait t pc₀ next ht hc hheld =>
    have hs := hd.sound pc₀
    simp only [hc, Marks.Sound] at hs
    exact absurd hP (hi.denied t pc₀ ht hs.2.1)
  | @broadcast t pc₀ next ht hc =>
    by_cases hut : u = t
    · subst hut
      simp at hu
    · simp [hut] at hu
  | @resume t pc₀ ht | @spurious t pc₀ ht =>
    apply howed hP
    · intro pc' hw
      cases ht.symm.trans hw
    · rintro rfl
      simp at hu

theorem Inv.step (hi : Inv mk P s) (hd : Disciplined code P mk) (h : Step code s a s') :
    Inv mk P s' :=
  ⟨hi.owner_step hd h, hi.parked_step hd h, hi.denied_step hd h, hi.sleepers_step hd h⟩

omit [DecidableEq Tid] in
/-- While the mutex is free and the condition holds, no thread sleeps. -/
theorem Inv.no_sleeper (hi : Inv mk P s) (hd : Disciplined code P mk) (hfree : s.holder = none)
    (hP : P s.val) (u : Tid) (pc : Pc) : s.thread u ≠ .asleep pc := by
  intro hu
  obtain ⟨t, pc', ht, hr⟩ := hi.sleepers hP ⟨u, pc, hu⟩
  have hheld := (hi.owner t pc' ht).mp (hd.raised_inside pc' hr)
  simp [hfree] at hheld

def SleepsAfter (n : Nat) (u : Tid) (s : State Tid Val Pc) : Prop :=
  n ≤ s.sleeps u ∧ ∀ pc, s.thread u = .asleep pc → n < s.sleeps u

theorem SleepsAfter.step {n : Nat} {u : Tid} (hi : SleepsAfter n u s) (h : Step code s a s') :
    SleepsAfter n u s' := by
  obtain ⟨hn, hlater⟩ := hi
  unfold SleepsAfter
  cases h with
  | @wait t pc₀ next ht hc hheld =>
    by_cases hut : u = t
    · subst hut
      simp
      omega
    · simpa [hut] using ⟨hn, hlater⟩
  | @broadcast t pc₀ next ht hc =>
    by_cases hut : u = t
    · subst hut
      simpa using hn
    · simpa [hut] using hn
  | @call t | @lock t | @unlock t | @exec t | @resume t | @spurious t =>
    by_cases hut : u = t
    · subst hut
      simpa using hn
    · simpa [hut] using ⟨hn, hlater⟩

/-- After a broadcast a thread sleeps only in a sleep it begins later. -/
theorem sleeps_after_broadcast {init : State Tid Val Pc → Prop} {t u : Tid} {pc next : Pc}
    {as : List (Action Tid Op)} {s'' : State Tid Val Pc}
    (ht : s.thread t = .running pc) (hc : code pc = .broadcast next)
    (hs : (machine code init).step s (.run t) = some s')
    (hr : (machine code init).run s' as = some s'') : SleepsAfter (s.sleeps u) u s'' := by
  have hstep : s' = { s with
      thread := Function.update (fun u => (s.thread u).wake) t (.running next) } := by
    simpa [machine, Monitor.step, ht, hc, exec] using hs.symm
  have hstart : SleepsAfter (s.sleeps u) u s' := by
    subst hstep
    by_cases hut : u = t
    · subst hut
      simp [SleepsAfter]
    · simp [SleepsAfter, hut]
  exact Machine.run_keeps (fun _ _ _ hv hw => hv.step (step_spec hw)) hstart hr

end Invariant

section MapVal
variable {code : Pc → Instr Val Pc Op} {s s' : State Tid Val Pc} {a : Action Tid Op}

/-- The instruction does not look at what `f` changes in the value. -/
def Instr.Commutes (f : Val → Val) : Instr Val Pc Op → Prop
  | .call enter => ∀ op v, enter op (f v) = (f (enter op v).1, (enter op v).2)
  | .exec run => ∀ v, run (f v) = (f (run v).1, (run v).2)
  | _ => True

def State.mapVal (f : Val → Val) (s : State Tid Val Pc) : State Tid Val Pc :=
  { s with val := f s.val }

theorem Step.mapVal {f : Val → Val} (hf : ∀ pc, (code pc).Commutes f) (h : Step code s a s') :
    Step code (s.mapVal f) a (s'.mapVal f) := by
  cases h with
  | @call t op pc enter ht hc =>
    have hstep : Step code (s.mapVal f) (.call t op)
        { s.goto t (.running (enter op (f s.val)).2) with val := (enter op (f s.val)).1 } :=
      .call ht hc
    have hcommutes := hc ▸ hf pc
    rw [hcommutes op s.val] at hstep
    exact hstep
  | @exec t pc run ht hc =>
    have hstep : Step code (s.mapVal f) (.run t)
        { s.goto t (.running (run (f s.val)).2) with val := (run (f s.val)).1 } := .exec ht hc
    have hcommutes := hc ▸ hf pc
    rw [hcommutes s.val] at hstep
    exact hstep
  | lock ht hc hfree => exact .lock ht hc hfree
  | unlock ht hc hheld => exact .unlock ht hc hheld
  | wait ht hc hheld => exact .wait ht hc hheld
  | broadcast ht hc => exact .broadcast ht hc
  | resume ht hfree => exact .resume ht hfree
  | spurious ht => exact .spurious ht

end MapVal

end Monitor
