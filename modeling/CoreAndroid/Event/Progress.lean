import CoreAndroid.Lib.Settling
import CoreAndroid.Event

/-! The calls on an event come to an end, but for waits on a lowered flag. -/
namespace CoreAndroid.Event
open Monitor

def left : Pc → Nat
  | .idle => 0
  | .setUnlock | .resetUnlock | .testUnlock _ | .waitReturn => 1
  | .setWaitSet | .resetStore | .testRead | .waitUnlock => 2
  | .setBroadcast | .resetLock | .testLock | .waitClear => 3
  | .setSignal => 4
  | .setLock => 5
  -- the sleep and the return from it come between
  | .waitSleep => 6
  | .waitTest => 7
  | .waitLock => 8

theorem falling : Falling code left := by
  intro pc
  cases pc with
  | idle => trivial
  | waitTest =>
    intro e
    cases h : e.signalled <;> simp [h, left]
  | _ => simp [code, left]

variable {Tid : Type} [DecidableEq Tid]

theorem parked_reach {eventType : EventType} {s : EventState Tid}
    (h : (system Tid eventType).Reach s) : ParkedAt code s := by
  apply h.invariant
  · rintro s rfl u pc hu
    simp [created, start] at hu
  · intro s a s' _ hp hs
    exact (step_spec hs).parkedAt hp

/-- Each thread is out of its call, or asleep in a wait on a lowered flag. -/
def AtRest (s : EventState Tid) : Prop :=
  ∀ t, s.thread t = .running .idle ∨
    (s.thread t = .asleep .waitClear ∧ s.val.signalled = false)

theorem idle_of_call {pc : Pc} {run : Op → AndroidEvent → AndroidEvent × Pc}
    (hc : code pc = .call run) : pc = .idle := by
  cases pc <;> cases hc
  rfl

omit [DecidableEq Tid] in
theorem Settled.atRest {s : EventState Tid}
    (hs : Settled code (fun e => e.signalled = true) s) (hp : ParkedAt code s) : AtRest s := by
  obtain ⟨hrests, hnone⟩ := hs
  intro t
  have ht := hrests t
  cases hth : s.thread t with
  | running pc =>
    rw [hth] at ht
    obtain ⟨run, hc⟩ := ht
    exact .inl (congrArg _ (idle_of_call hc))
  | asleep pc =>
    refine .inr ⟨congrArg _ (parked_eq hp (.inl hth)), ?_⟩
    cases hup : s.val.signalled with
    | false => rfl
    | true => exact absurd hth (hnone hup t pc)
  | woken pc =>
    rw [hth] at ht
    exact ht.elim

theorem leadsTo_settled [Fintype Tid] {eventType : EventType} {s : EventState Tid}
    (h : (system Tid eventType).Reach s) :
    (system Tid eventType).LeadsTo (fun a => a.isRun = true) (fun a => a.isCall = false)
      (fun t => Settled code (fun e => e.signalled = true) t ∧ ParkedAt code t) s := by
  have hsettles : (system Tid eventType).LeadsTo (fun a => a.isRun = true)
      (fun a => a.isCall = false) (Settled code fun e => e.signalled = true) s :=
    (inv_reach h).settles disciplined falling
  exact hsettles.keep (fun s a t hp _ hs => (step_spec hs).parkedAt hp) (parked_reach h)

/-- No schedule of the threads gets stuck: if no new call begins, the threads come to a
state in which each is out of its call or asleep in a wait on a lowered flag, spurious
wake-ups or not, and until then some thread can go on. -/
theorem calls_come_to_rest [Fintype Tid] (eventType : EventType) (s : EventState Tid)
    (h : (system Tid eventType).Reach s) :
    (system Tid eventType).LeadsTo (fun a => a.isRun = true) (fun a => a.isCall = false)
      AtRest s := by
  refine (leadsTo_settled h).mono ?_
  rintro t ⟨hsettled, hp⟩
  exact Settled.atRest hsettled hp

theorem calls_come_to_rest_beforeBroadcast : ∃ s : EventState (Fin 3),
    s.thread 0 = .asleep .waitClear ∧ s.thread 2 = .running .setBroadcast ∧
    (system (Fin 3) .auto).LeadsTo (fun a => a.isRun = true) (fun a => a.isCall = false)
      AtRest s := by
  have hrun : ((system (Fin 3) .auto).run (created .auto) beforeBroadcast).map
      (fun s => (s.thread 0, s.thread 2)) =
      some (.asleep .waitClear, .running .setBroadcast) := by decide
  obtain ⟨s, hs, hlast⟩ := Option.map_eq_some_iff.mp hrun
  simp only [Prod.mk.injEq] at hlast
  exact ⟨s, hlast.1, hlast.2, calls_come_to_rest .auto s (Machine.Reach.run (.init rfl) hs)⟩

section Manual
variable {s s' : EventState Tid} {a : Action Tid Op}

/-- A MANUAL event with its flag up, and no thread on the way to lower it. -/
structure Raised (s : EventState Tid) : Prop where
  manual : s.val.eventType = .manual
  up : s.val.signalled = true
  no_reset : ∀ t, s.thread t ≠ .running .resetLock ∧ s.thread t ≠ .running .resetStore

theorem Raised.step (hr : Raised s) (hp : ParkedAt code s) (h : Step code s a s')
    (ha : a.isCall = false) : Raised s' := by
  obtain ⟨hmanual, hup, hno⟩ := hr
  have hothers : ∀ u, u ≠ a.tid →
      s'.thread u ≠ .running .resetLock ∧ s'.thread u ≠ .running .resetStore := by
    intro u hu
    simpa only [Ne, h.others hu] using hno u
  have hthreads : s'.thread a.tid ≠ .running .resetLock ∧
        s'.thread a.tid ≠ .running .resetStore →
      ∀ u, s'.thread u ≠ .running .resetLock ∧ s'.thread u ≠ .running .resetStore := by
    intro hown u
    by_cases hu : u = a.tid
    · exact hu ▸ hown
    · exact hothers u hu
  cases h with
  | call => cases ha
  | @lock t pc next ht hc | @unlock t pc next ht hc | @wait t pc next ht hc
  | @broadcast t pc next ht hc =>
    have ht' := hno t
    refine ⟨hmanual, hup, hthreads ?_⟩
    cases pc <;> cases hc <;> simp_all [Action.tid]
  | @exec t pc run ht hc =>
    have ht' := hno t
    refine ⟨?_, ?_, hthreads ?_⟩ <;> cases pc <;> cases hc <;> simp_all [Action.tid]
  | @resume t pc ht =>
    have hclear := parked_eq hp (.inr ht)
    exact ⟨hmanual, hup, hthreads (by simp [Action.tid, hclear])⟩
  | @spurious t pc ht => exact ⟨hmanual, hup, hthreads (by simp [Action.tid])⟩

theorem eventType_reach {eventType : EventType} (h : (system Tid eventType).Reach s) :
    s.val.eventType = eventType := by
  apply h.invariant
  · rintro s rfl
    rfl
  · intro s a s' _ hi hs
    exact (eventType_step (step_spec hs)).trans hi

/-- A raised MANUAL event that nobody is about to reset lets every wait return. -/
theorem raised_manual_releases_all [Fintype Tid] (s : EventState Tid)
    (h : (system Tid .manual).Reach s) (hup : s.val.signalled = true)
    (hno : ∀ t, s.thread t ≠ .running .resetLock ∧ s.thread t ≠ .running .resetStore) :
    (system Tid .manual).LeadsTo (fun a => a.isRun = true) (fun a => a.isCall = false)
      (fun s => ∀ t, s.thread t = .running .idle) s := by
  have hraised : Raised s := ⟨eventType_reach h, hup, hno⟩
  have hkept : ∀ s a s', (Raised s ∧ ParkedAt code s) → a.isCall = false →
      (system Tid .manual).step s a = some s' → Raised s' ∧ ParkedAt code s' := by
    rintro s a s' ⟨hr, hp⟩ ha hs
    exact ⟨hr.step hp (step_spec hs) ha, (step_spec hs).parkedAt hp⟩
  refine ((leadsTo_settled h).keep hkept ⟨hraised, parked_reach h⟩).mono ?_
  rintro s' ⟨⟨hsettled, hp⟩, hr, -⟩ t
  rcases Settled.atRest hsettled hp t with hidle | ⟨-, hdown⟩
  · exact hidle
  · rw [hr.up] at hdown
    cases hdown

theorem raised_manual_releases_all_beforeBroadcast : ∃ s : EventState (Fin 3),
    s.thread 0 = .asleep .waitClear ∧
    (system (Fin 3) .manual).LeadsTo (fun a => a.isRun = true) (fun a => a.isCall = false)
      (fun s => ∀ t, s.thread t = .running .idle) s := by
  have hrun : ((system (Fin 3) .manual).run (created .manual) beforeBroadcast).map
      (fun s => (s.thread 0, s.val.signalled, decide (∀ t, s.thread t ≠ .running .resetLock ∧
        s.thread t ≠ .running .resetStore))) = some (.asleep .waitClear, true, true) := by decide
  obtain ⟨s, hs, hlast⟩ := Option.map_eq_some_iff.mp hrun
  simp only [Prod.mk.injEq, decide_eq_true_eq] at hlast
  obtain ⟨hsleeper, hup, hno⟩ := hlast
  exact ⟨s, hsleeper,
    raised_manual_releases_all s (Machine.Reach.run (.init rfl) hs) hup hno⟩

end Manual

end CoreAndroid.Event
