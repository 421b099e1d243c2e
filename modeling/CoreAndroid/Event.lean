import CoreAndroid.Lib.Monitor
import Mathlib.Data.Finset.Card
import Mathlib.Data.Fintype.Basic

/-! The event of event_android.c: a flag under a mutex with a condition variable,
used by any number of threads. The event exists throughout, so `ofc_handle_lock`
always finds it. -/
namespace CoreAndroid.Event
open Monitor

inductive EventType where
  | auto
  | manual
  deriving DecidableEq, Repr

/-- The fields of `ANDROID_EVENT` outside the mutex and the condition variable, and
counts of what the callers did. -/
structure AndroidEvent where
  eventType : EventType
  signalled : Bool
  sets : Nat := 0 -- calls of `ofc_event_set_impl` so far
  returns : Nat := 0 -- returns of `ofc_event_wait_impl` so far
  -- passes of `ofc_event_wait_impl` beyond its test and sleep with the flag down
  unsignalled : Nat := 0
  deriving DecidableEq, Repr

inductive Op where
  | set
  | reset
  | test
  | wait
  deriving DecidableEq, Repr

inductive Pc where
  | idle
  | setLock | setSignal | setBroadcast | setWaitSet | setUnlock
  | resetLock | resetStore | resetUnlock
  | testLock | testRead | testUnlock (ret : Bool)
  | waitLock | waitTest | waitSleep | waitClear | waitUnlock | waitReturn
  deriving DecidableEq, Repr

def enter : Op → AndroidEvent → AndroidEvent × Pc
  | .set, e => ({ e with sets := e.sets + 1 }, .setLock)
  | .reset, e => (e, .resetLock)
  | .test, e => (e, .testLock)
  | .wait, e => (e, .waitLock)

/-- The statements of `ofc_event_set_impl`, `ofc_event_reset_impl`, `ofc_event_test_impl` and
`ofc_event_wait_impl`, but for the `ofc_handle_unlock` at the end of each. -/
def code : Pc → Instr AndroidEvent Pc Op
  | .idle => .call enter
  | .setLock => .lock .setSignal
  | .setSignal => .exec fun e => ({ e with signalled := true }, .setBroadcast)
  | .setBroadcast => .broadcast .setWaitSet
  -- ofc_waitset_signal_impl writes to the pipe of the wait set, not to the event
  | .setWaitSet => .exec fun e => (e, .setUnlock)
  | .setUnlock => .unlock .idle
  | .resetLock => .lock .resetStore
  | .resetStore => .exec fun e => ({ e with signalled := false }, .resetUnlock)
  | .resetUnlock => .unlock .idle
  | .testLock => .lock .testRead
  | .testRead => .exec fun e => (e, .testUnlock e.signalled)
  | .testUnlock _ => .unlock .idle
  | .waitLock => .lock .waitTest
  | .waitTest => .exec fun e => (e, if e.signalled then .waitClear else .waitSleep)
  | .waitSleep => .wait .waitClear
  | .waitClear => .exec fun e =>
      ({ e with
          signalled := if e.eventType = .auto then false else e.signalled
          unsignalled := if e.signalled then e.unsignalled else e.unsignalled + 1 }, .waitUnlock)
  | .waitUnlock => .unlock .waitReturn
  | .waitReturn => .exec fun e => ({ e with returns := e.returns + 1 }, .idle)

variable {Tid : Type} [DecidableEq Tid]

abbrev EventState (Tid : Type) := State Tid AndroidEvent Pc

def created (eventType : EventType) : EventState Tid := start ⟨eventType, false, 0, 0, 0⟩ .idle

def system (Tid : Type) [DecidableEq Tid] (eventType : EventType) :
    Machine (EventState Tid) (Action Tid Op) :=
  machine code fun s => s = created eventType

def marks : Marks Pc where
  inside
    | .setSignal | .setBroadcast | .setWaitSet | .setUnlock | .resetStore | .resetUnlock
    | .testRead | .testUnlock _ | .waitTest | .waitSleep | .waitClear | .waitUnlock => true
    | _ => false
  raised pc := pc = .setBroadcast
  denied pc := pc = .waitSleep

theorem disciplined : Disciplined code (fun e => e.signalled = true) marks where
  sound pc := by
    cases pc with
    | idle =>
      refine ⟨rfl, ?_⟩
      rintro (_ | _ | _ | _) e <;> exact ⟨rfl, Iff.rfl⟩
    | waitTest =>
      intro e
      cases h : e.signalled <;> simp [marks, h]
    | _ => simp [Marks.Sound, code, marks]
  raised_inside pc h := by
    cases pc <;> simp_all [marks]
  denied_inside pc h := by
    cases pc <;> simp_all [marks]

theorem inv_reach {eventType : EventType} {s : EventState Tid}
    (h : (system Tid eventType).Reach s) : Inv marks (fun e => e.signalled = true) s := by
  apply h.invariant
  · rintro s rfl
    exact start_inv _ _ rfl disciplined
  · intro s a t _ hi hs
    exact hi.step disciplined (step_spec hs)

/-- No sleeper is left behind: while the mutex is free and the event is signalled no
thread sleeps on it, and a thread that slept when a set ran its broadcast sleeps
later only in a sleep it began after that. -/
theorem no_sleeper_left (eventType : EventType) (s : EventState Tid)
    (h : (system Tid eventType).Reach s) :
    (s.holder = none → s.val.signalled = true → ∀ u pc, s.thread u ≠ .asleep pc) ∧
    (∀ (t u : Tid) (pc : Pc) (s' : EventState Tid), s.thread t = .running .setBroadcast →
      s.thread u = .asleep pc → (system Tid eventType).step s (.run t) = some s' →
      ∀ (as : List (Action Tid Op)) (s'' : EventState Tid),
        (system Tid eventType).run s' as = some s'' →
        ∀ pc', s''.thread u = .asleep pc' → s.sleeps u < s''.sleeps u) := by
  constructor
  · exact (inv_reach h).no_sleeper disciplined
  · intro t u pc s' ht _ hs as s'' hr pc' hu'
    have hc : code .setBroadcast = .broadcast .setWaitSet := rfl
    exact (sleeps_after_broadcast ht hc hs hr).2 pc' hu'

def beforeBroadcast : List (Action (Fin 3) Op) :=
  [.call 0 .wait, .run 0, .run 0, .run 0, .call 2 .set, .run 2, .run 2]

theorem no_sleeper_left_beforeBroadcast : ∃ s s' : EventState (Fin 3),
    s.thread 0 = .asleep .waitClear ∧ (system (Fin 3) .manual).step s (.run 2) = some s' ∧
    ∀ (as : List (Action (Fin 3) Op)) (s'' : EventState (Fin 3)),
      (system (Fin 3) .manual).run s' as = some s'' →
      ∀ pc, s''.thread 0 = .asleep pc → s.sleeps 0 < s''.sleeps 0 := by
  have hrun : ((system (Fin 3) .manual).run (created .manual) beforeBroadcast).map
      (fun s => (s.thread 0, s.thread 2, ((system (Fin 3) .manual).step s (.run 2)).isSome)) =
      some (.asleep .waitClear, .running .setBroadcast, true) := by decide
  obtain ⟨s, hs, hlast⟩ := Option.map_eq_some_iff.mp hrun
  simp only [Prod.mk.injEq] at hlast
  obtain ⟨hsleeper, hsetter, hstep⟩ := hlast
  obtain ⟨s', hs'⟩ := Option.isSome_iff_exists.mp hstep
  have hall := (no_sleeper_left .manual s (Machine.Reach.run (.init rfl) hs)).2
  exact ⟨s, s', hsleeper, hs', hall 2 0 .waitClear s' hsetter hsleeper hs'⟩

def owing : Pc → Bool
  | .setLock | .setSignal | .waitUnlock | .waitReturn => true
  | _ => false

def owed : Thread Pc → Nat
  | .running pc => if owing pc then 1 else 0
  | _ => 0

/-- Every return, every signal under way and the raised flag has a set of its own,
apart from the waits that passed an unsignalled event. -/
def Accounted (s : EventState Tid) : Prop :=
  ∀ S : Finset Tid, (∀ t ∈ S, owed (s.thread t) = 1) →
    s.val.returns + S.card + s.val.signalled.toNat ≤ s.val.sets + s.val.unsignalled

theorem owed_eq_one {th : Thread Pc} (h : owed th = 1) : ∃ pc, th = .running pc := by
  cases th with
  | running pc => exact ⟨pc, rfl⟩
  | asleep pc => cases h
  | woken pc => cases h

theorem owed_le_one (th : Thread Pc) : owed th ≤ 1 := by
  unfold owed
  split
  · split <;> omega
  · omega

section Accounting
variable {s s' : EventState Tid} {a : Action Tid Op} {S : Finset Tid}

theorem Accounted.before (ha : Accounted s) (h : Step code s a s')
    (hS : ∀ u ∈ S, owed (s'.thread u) = 1) :
    s.val.returns + (S.erase a.tid).card + owed (s.thread a.tid) + s.val.signalled.toNat ≤
      s.val.sets + s.val.unsignalled := by
  have hothers : ∀ u ∈ S.erase a.tid, owed (s.thread u) = 1 := by
    intro u hu
    obtain ⟨hne, hu⟩ := Finset.mem_erase.mp hu
    obtain ⟨pc, hpc⟩ := owed_eq_one (hS u hu)
    have hsame := (h.others hne).mp hpc
    rw [hsame, ← hpc]
    exact hS u hu
  by_cases hown : owed (s.thread a.tid) = 1
  · have hi := ha (insert a.tid (S.erase a.tid)) (by
      intro u hu
      rcases Finset.mem_insert.mp hu with rfl | hu
      · exact hown
      · exact hothers u hu)
    rw [Finset.card_insert_of_notMem (Finset.notMem_erase _ S)] at hi
    omega
  · have hi := ha (S.erase a.tid) hothers
    have hle := owed_le_one (s.thread a.tid)
    omega

theorem card_le_erase (t : Tid) (hS : ∀ u ∈ S, owed (s'.thread u) = 1) :
    S.card ≤ (S.erase t).card + owed (s'.thread t) := by
  by_cases ht : t ∈ S
  · have hcard := Finset.card_erase_add_one ht
    have hown := hS t ht
    omega
  · rw [Finset.erase_eq_of_notMem ht]
    omega

omit [DecidableEq Tid] in
theorem parked_eq (hp : ParkedAt code s) {t : Tid} {pc : Pc}
    (ht : s.thread t = .asleep pc ∨ s.thread t = .woken pc) : pc = .waitClear := by
  obtain ⟨pc₀, hc⟩ := hp t pc ht
  cases pc₀ <;> cases hc
  rfl

theorem accounted_step (ha : Accounted s) (hauto : s.val.eventType = .auto)
    (hp : ParkedAt code s) (h : Step code s a s') : Accounted s' := by
  intro S hS
  have hb := ha.before h hS
  have hc := card_le_erase a.tid hS
  generalize (S.erase a.tid).card = n at hb hc
  cases h with
  | @call t op pc run ht hcode =>
    cases pc <;> cases hcode
    cases op <;> simp [Action.tid, ht, enter, owed, owing] at * <;> omega
  | @lock t pc next ht hcode =>
    cases pc <;> cases hcode <;> simp [Action.tid, ht, owed, owing] at * <;> omega
  | @unlock t pc next ht hcode =>
    cases pc <;> cases hcode <;> simp [Action.tid, ht, owed, owing] at * <;> omega
  | @exec t pc run ht hcode =>
    cases pc <;> cases hcode <;> cases hsig : s.val.signalled <;>
      simp [Action.tid, ht, hauto, hsig, owed, owing] at * <;> omega
  | @wait t pc next ht hcode =>
    cases pc <;> cases hcode
    simp [Action.tid, ht, owed, owing] at *
    omega
  | @broadcast t pc next ht hcode =>
    cases pc <;> cases hcode
    simp [Action.tid, ht, owed, owing] at *
    omega
  | @resume t pc ht =>
    have hclear := parked_eq hp (.inr ht)
    simp [Action.tid, ht, hclear, owed, owing] at *
    omega
  | @spurious t pc ht =>
    simp [Action.tid, ht, owed] at *
    omega

theorem eventType_step (h : Step code s a s') : s'.val.eventType = s.val.eventType := by
  cases h with
  | @call t op pc run ht hcode =>
    cases pc <;> cases hcode
    cases op <;> rfl
  | @exec t pc run ht hcode => cases pc <;> cases hcode <;> rfl
  | _ => rfl

end Accounting

theorem auto_accounted {s : EventState Tid} (h : (system Tid .auto).Reach s) :
    s.val.eventType = .auto ∧ ParkedAt code s ∧ Accounted s := by
  apply h.invariant
  · rintro s rfl
    refine ⟨rfl, ?_, ?_⟩
    · intro u pc hu
      simp [created, start] at hu
    · intro S hS
      have hempty : S = ∅ := by
        apply Finset.eq_empty_of_forall_notMem
        intro t ht
        cases hS t ht
      simp [hempty, created, start]
  · intro s a t _ hi hs
    obtain ⟨hauto, hp, ha⟩ := hi
    have h := step_spec hs
    exact ⟨(eventType_step h).trans hauto, h.parkedAt hp, accounted_step ha hauto hp h⟩

/-- A thread that was woken finds the event signalled when it takes the mutex back. -/
def ResumesSignalled (s : EventState Tid) : Action Tid Op → Prop
  | .run t => (s.thread t).isWoken = true → s.val.signalled = true
  | _ => True

instance (s : EventState Tid) : (a : Action Tid Op) → Decidable (ResumesSignalled s a)
  | .run _ => inferInstanceAs (Decidable (_ → _))
  | .call _ _ => inferInstanceAs (Decidable True)
  | .spurious _ => inferInstanceAs (Decidable True)

theorem clears_signalled {s : EventState Tid}
    (h : (system Tid .auto).ReachWhere ResumesSignalled s) :
    (∀ t, s.thread t = .running .waitClear → s.val.signalled = true) ∧ s.val.unsignalled = 0 := by
  apply h.invariant
  · rintro s rfl
    exact ⟨fun t ht => by simp [created, start] at ht, rfl⟩
  · intro s a s' hr hi hok hs
    obtain ⟨hclear, hzero⟩ := hi
    have hinv := inv_reach hr.reach
    have hstep := step_spec hs
    constructor
    · intro u hu
      by_cases hua : u = a.tid
      · subst hua
        cases hstep with
        | @call t op pc run ht hcode =>
          cases pc <;> cases hcode
          cases op <;> simp [Action.tid, enter] at hu
        | @exec t pc run ht hcode =>
          cases pc <;> cases hcode <;> cases hup : s.val.signalled <;>
            simp_all [Action.tid]
        | @lock t pc next ht hcode | @unlock t pc next ht hcode
        | @broadcast t pc next ht hcode => cases pc <;> cases hcode <;> simp [Action.tid] at hu
        | @wait t | @spurious t => simp [Action.tid] at hu
        | @resume t pc ht => exact hok (by simp [ht, Thread.isWoken])
      · have hsame := (hstep.others hua).mp hu
        exact (hinv.keeps disciplined hstep hua hsame rfl).mpr (hclear u hsame)
    · cases hstep with
      | @call t op pc run ht hcode =>
        cases pc <;> cases hcode
        cases op <;> exact hzero
      | @exec t pc run ht hcode =>
        have hup := hclear t
        rw [ht] at hup
        cases pc <;> cases hcode <;> simp_all
      | _ => exact hzero

/-- No wake-up is spurious, and no thread lowers the flag while a woken thread waits for
the mutex. -/
def Undisturbed (s : EventState Tid) : Action Tid Op → Prop
  | .run t => s.thread t = .running .resetStore ∨ s.thread t = .running .waitClear →
      ∀ u, (s.thread u).isWoken = false
  | .call _ _ => True
  | .spurious _ => False

instance [Fintype Tid] (s : EventState Tid) : (a : Action Tid Op) → Decidable (Undisturbed s a)
  | .run _ => inferInstanceAs (Decidable (_ → ∀ _, _))
  | .call _ _ => inferInstanceAs (Decidable True)
  | .spurious _ => inferInstanceAs (Decidable False)

theorem woken_signalled {eventType : EventType} {s : EventState Tid}
    (h : (system Tid eventType).ReachWhere Undisturbed s) :
    (∀ t, s.thread t = .running .setBroadcast → s.val.signalled = true) ∧
      ∀ u pc, s.thread u = .woken pc → s.val.signalled = true := by
  apply h.invariant
  · rintro s rfl
    constructor
    · intro t ht
      simp [created, start] at ht
    · intro t pc ht
      simp [created, start] at ht
  · intro s a s' hr hi hok hs
    obtain ⟨hbroadcast, hwoken⟩ := hi
    have hinv := inv_reach hr.reach
    have hstep := step_spec hs
    constructor
    · intro u hu
      by_cases hua : u = a.tid
      · subst hua
        cases hstep with
        | @call t op pc run ht hcode =>
          cases pc <;> cases hcode
          cases op <;> simp [Action.tid, enter] at hu
        | @exec t pc run ht hcode =>
          cases pc <;> cases hcode <;> cases hup : s.val.signalled <;>
            simp_all [Action.tid]
        | @lock t pc next ht hcode | @unlock t pc next ht hcode
        | @broadcast t pc next ht hcode => cases pc <;> cases hcode <;> simp [Action.tid] at hu
        | @wait t | @spurious t => simp [Action.tid] at hu
        | @resume t pc ht => exact hwoken t pc ht
      · have hsame := (hstep.others hua).mp hu
        exact (hinv.keeps disciplined hstep hua hsame rfl).mpr (hbroadcast u hsame)
    · intro u pc hu
      by_cases hua : u = a.tid
      · subst hua
        cases hstep with
        | @spurious t => exact hok.elim
        | _ => simp [Action.tid] at hu
      · cases hstep with
        | @broadcast t pc₀ next ht hcode =>
          cases pc₀ <;> cases hcode
          exact hbroadcast t ht
        | @spurious t => exact hok.elim
        | @call t op pc₀ run ht hcode =>
          have hut : u ≠ t := hua
          have hup := hwoken u pc (by simpa [hut] using hu)
          cases pc₀ <;> cases hcode
          cases op <;> exact hup
        | @exec t pc₀ run ht hcode =>
          have hut : u ≠ t := hua
          have hparked : s.thread u = .woken pc := by simpa [hut] using hu
          have hup := hwoken u pc hparked
          cases pc₀ with
          | setSignal =>
            cases hcode
            rfl
          | resetStore => simpa [hparked, Thread.isWoken] using hok (.inl ht) u
          | waitClear => simpa [hparked, Thread.isWoken] using hok (.inr ht) u
          | setWaitSet | testRead | waitTest | waitReturn =>
            cases hcode
            exact hup
          | _ => cases hcode
        | @lock t | @unlock t | @wait t | @resume t =>
          have hut : u ≠ t := hua
          exact hwoken u pc (by simpa [hut] using hu)

theorem resumesSignalled_of_undisturbed {eventType : EventType} {s : EventState Tid}
    (h : (system Tid eventType).ReachWhere Undisturbed s) :
    (system Tid eventType).ReachWhere ResumesSignalled s := by
  induction h with
  | init hs => exact .init hs
  | @step s s' a hr _ hs ih =>
    refine ih.step ?_ hs
    cases a with
    | run t =>
      intro hwoken
      cases ht : s.thread t with
      | woken pc => exact (woken_signalled hr).2 t pc ht
      | running pc | asleep pc =>
        rw [ht] at hwoken
        cases hwoken
    | call | spurious => trivial

/-- An AUTO event releases at most one consumer for each set, and none without one, in every
run without spurious wake-ups in which nobody gets ahead of a woken thread. -/
theorem auto_event_returns_le_sets (s : EventState Tid)
    (h : (system Tid .auto).ReachWhere Undisturbed s) :
    s.val.returns ≤ s.val.sets ∧ s.val.unsignalled = 0 := by
  obtain ⟨_, _, ha⟩ := auto_accounted h.reach
  obtain ⟨_, hzero⟩ := clears_signalled (resumesSignalled_of_undisturbed h)
  have hcount := ha ∅ (by simp)
  exact ⟨by omega, hzero⟩

def wakeOne : List (Action (Fin 3) Op) :=
  beforeBroadcast ++ [.run 2, .run 2, .run 2, .run 0, .run 0, .run 0, .run 0]

theorem auto_event_wakeOne : ∃ s : EventState (Fin 3),
    s.val.returns = 1 ∧ s.val.returns ≤ s.val.sets ∧ s.val.unsignalled = 0 := by
  have hrun : ((system (Fin 3) .auto).runWhere Undisturbed (created .auto) wakeOne).map
      (fun s => s.val.returns) = some 1 := by decide
  obtain ⟨s, hs, hcount⟩ := Option.map_eq_some_iff.mp hrun
  exact ⟨s, hcount, auto_event_returns_le_sets s (Machine.ReachWhere.runWhere (.init rfl) hs)⟩

def wakeTwo : List (Action (Fin 3) Op) :=
  [.call 1 .wait, .run 1, .run 1, .run 1] ++ wakeOne ++ [.run 1, .run 1, .run 1, .run 1]

theorem auto_event_wakeTwo : ¬ ∀ s : EventState (Fin 3), (system (Fin 3) .auto).Reach s →
    s.val.returns ≤ s.val.sets := by
  intro hall
  have hrun : ((system (Fin 3) .auto).run (created .auto) wakeTwo).map
      (fun s => (s.val.returns, s.val.sets)) = some (2, 1) := by decide
  obtain ⟨s, hs, hcount⟩ := Option.map_eq_some_iff.mp hrun
  have hle := hall s (Machine.Reach.run (.init rfl) hs)
  injection hcount with hreturns hsets
  omega

end CoreAndroid.Event
