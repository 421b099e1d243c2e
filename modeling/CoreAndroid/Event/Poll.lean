import CoreAndroid.Event

/-! AUTO events that are polled. `PollEvent` and the scan of `ofc_waitset_wait_impl` take an
event by two calls, `ofc_event_test` and then `ofc_event_reset`, and other threads may poll it
too or wait for it. -/
namespace CoreAndroid.Event
open Monitor

variable {Tid : Type} [DecidableEq Tid]

section Source

structure Polled (Tid : Type) where
  monitor : EventState Tid
  -- the thread's test found the event signalled, and it has not reset the event yet
  found : Tid → Bool
  taken : Nat -- the resets so far, each of which reports the event

/-- A poll that found the event signalled resets it next, and no other call resets it. -/
def Polled.follows (s : Polled Tid) : Action Tid Op → Bool
  | .call t op => s.found t = decide (op = .reset)
  | _ => true

def Polled.note (s : Polled Tid) (monitor : EventState Tid) : Action Tid Op → Polled Tid
  | .run t =>
      match s.monitor.thread t with
      | .running .testRead =>
          { s with monitor, found := Function.update s.found t s.monitor.val.signalled }
      | .running .resetStore =>
          { monitor, found := Function.update s.found t false, taken := s.taken + 1 }
      | _ => { s with monitor }
  | _ => { s with monitor }

def unpolled : Polled Tid := ⟨created .auto, fun _ => false, 0⟩

def polls (Tid : Type) [DecidableEq Tid] : Machine (Polled Tid) (Action Tid Op) where
  init s := s = unpolled
  step s a :=
    if s.follows a then (step code s.monitor a).map fun monitor => s.note monitor a else none

end Source

section Spec

/-- What the polls have found is still so. -/
def Stands (s : Polled Tid) : Prop := ∀ t, s.found t = true → s.monitor.val.signalled = true

/-- No thread takes the event while the poll of another thread has found it. -/
def LeavesFound (s : Polled Tid) : Action Tid Op → Prop
  | .run t =>
      s.monitor.thread t = .running .resetStore ∨ s.monitor.thread t = .running .waitClear →
        ∀ u, u ≠ t → s.found u = false
  | _ => True

end Spec

section Steps
variable {s s' : Polled Tid} {a : Action Tid Op}

inductive PollStep (s : Polled Tid) : Action Tid Op → Polled Tid → Prop
  | test {t} : s.monitor.thread t = .running .testRead → PollStep s (.run t)
      { s with
        monitor := s.monitor.goto t (.running (.testUnlock s.monitor.val.signalled))
        found := Function.update s.found t s.monitor.val.signalled }
  | reset {t} : s.monitor.thread t = .running .resetStore → PollStep s (.run t)
      { monitor := { s.monitor.goto t (.running .resetUnlock) with
          val := { s.monitor.val with signalled := false } }
        found := Function.update s.found t false
        taken := s.taken + 1 }
  | other {a monitor} : s.follows a = true → Step code s.monitor a monitor →
      (∀ t, a = .run t → s.monitor.thread t ≠ .running .testRead ∧
        s.monitor.thread t ≠ .running .resetStore) → PollStep s a { s with monitor }

theorem poll_step (h : (polls Tid).step s a = some s') : PollStep s a s' := by
  obtain ⟨hfollows, h⟩ := Option.ite_none_right_eq_some.mp h
  obtain ⟨monitor, hstep, rfl⟩ := Option.map_eq_some_iff.mp h
  cases a with
  | call t op => exact .other hfollows (step_spec hstep) (by simp)
  | spurious t => exact .other hfollows (step_spec hstep) (by simp)
  | run t =>
    by_cases htest : s.monitor.thread t = .running .testRead
    · simp only [step, htest, code, exec, Option.some.injEq] at hstep
      subst hstep
      simp only [Polled.note, htest]
      exact .test htest
    · by_cases hreset : s.monitor.thread t = .running .resetStore
      · simp only [step, hreset, code, exec, Option.some.injEq] at hstep
        subst hstep
        simp only [Polled.note, hreset]
        exact .reset hreset
      · have hnote : s.note monitor (.run t) = { s with monitor } := by simp only [Polled.note]
        rw [hnote]
        refine .other hfollows (step_spec hstep) ?_
        rintro u ⟨⟩
        exact ⟨htest, hreset⟩

theorem PollStep.monitor (h : PollStep s a s') : Step code s.monitor a s'.monitor := by
  cases h with
  | @test t ht =>
    have hc : code .testRead = .exec fun e => (e, .testUnlock e.signalled) := rfl
    exact .exec ht hc
  | @reset t ht =>
    have hc : code .resetStore = .exec fun e => ({ e with signalled := false }, .resetUnlock) := rfl
    exact .exec ht hc
  | other _ hm => exact hm

theorem signalled_step {m m' : EventState Tid} {a : Action Tid Op} (h : Step code m a m') :
    m'.val.signalled = m.val.signalled ∨ m'.val.signalled = true ∨
      ∃ t, a = .run t ∧
        (m.thread t = .running .resetStore ∨ m.thread t = .running .waitClear) := by
  cases h with
  | @call t op pc enter ht hc =>
    cases pc <;> cases hc
    cases op <;> exact .inl rfl
  | @exec t pc run ht hc =>
    cases pc with
    | setSignal =>
      cases hc
      exact .inr (.inl rfl)
    | resetStore => exact .inr (.inr ⟨t, rfl, .inl ht⟩)
    | waitClear => exact .inr (.inr ⟨t, rfl, .inr ht⟩)
    | setWaitSet | testRead | waitTest | waitReturn =>
      cases hc
      exact .inl rfl
    | _ => cases hc
  | _ => exact .inl rfl

theorem waitClear_step {m m' : EventState Tid} {t : Tid} (h : Step code m (.run t) m')
    (hclear : m.thread t = .running .waitClear) (hauto : m.val.eventType = .auto) :
    m'.val.signalled = false := by
  cases h with
  | @exec t pc run ht hc =>
    obtain rfl := Thread.running.inj (hclear.symm.trans ht)
    cases hc
    simp [hauto]
  | @lock t pc next ht hc | @unlock t pc next ht hc | @wait t pc next ht hc
  | @broadcast t pc next ht hc =>
    obtain rfl := Thread.running.inj (hclear.symm.trans ht)
    cases hc
  | @resume t pc ht => cases hclear.symm.trans ht

end Steps

section Found
variable {s s' : Polled Tid} {a : Action Tid Op}

def tested : Pc → Bool
  | .testUnlock true | .idle | .resetLock | .resetStore => true
  | _ => false

def resetting : Pc → Bool
  | .resetLock | .resetStore => true
  | _ => false

structure Polling (s : Polled Tid) : Prop where
  auto : s.monitor.val.eventType = .auto
  parked : ParkedAt code s.monitor
  found : ∀ t, s.found t = true → ∃ pc, s.monitor.thread t = .running pc ∧ tested pc = true
  resets : ∀ t pc, s.monitor.thread t = .running pc → resetting pc = true → s.found t = true

theorem tested_step {m : EventState Tid} (h : Step code s.monitor a m)
    (hfollows : s.follows a = true)
    (hplain : ∀ t, a = .run t → s.monitor.thread t ≠ .running .resetStore)
    (hfound : s.found a.tid = true) {pc : Pc} (hpc : s.monitor.thread a.tid = .running pc)
    (htested : tested pc = true) : ∃ pc', m.thread a.tid = .running pc' ∧ tested pc' = true := by
  cases h with
  | @call t op pc' enter ht hc =>
    cases pc' <;> cases hc
    have hop : op = .reset := by
      dsimp only [Action.tid] at hfound
      simpa [Polled.follows, hfound] using hfollows
    subst hop
    exact ⟨.resetLock, by simp [Action.tid, Event.enter], rfl⟩
  | @lock t pc' next ht hc =>
    obtain rfl : pc' = pc := Thread.running.inj (ht.symm.trans hpc)
    cases pc' with
    | resetLock =>
      cases hc
      exact ⟨.resetStore, by simp [Action.tid], rfl⟩
    | _ => cases hc <;> cases htested
  | @unlock t pc' next ht hc =>
    obtain rfl : pc' = pc := Thread.running.inj (ht.symm.trans hpc)
    cases pc' with
    | testUnlock ret =>
      cases hc
      exact ⟨.idle, by simp [Action.tid], rfl⟩
    | _ => cases hc <;> cases htested
  | @exec t pc' next ht hc =>
    obtain rfl : pc' = pc := Thread.running.inj (ht.symm.trans hpc)
    cases pc' with
    | resetStore => exact absurd ht (hplain t rfl)
    | _ => cases hc <;> cases htested
  | @wait t pc' next ht hc | @broadcast t pc' next ht hc =>
    obtain rfl : pc' = pc := Thread.running.inj (ht.symm.trans hpc)
    cases pc' <;> cases hc
    cases htested
  | @resume t pc' ht | @spurious t pc' ht => cases ht.symm.trans hpc

theorem resetting_step {m : EventState Tid} (hi : Polling s) (h : Step code s.monitor a m)
    (hfollows : s.follows a = true) {pc : Pc}
    (hpc : m.thread a.tid = .running pc) (hresets : resetting pc = true) :
    s.found a.tid = true := by
  cases h with
  | @call t op pc' enter ht hc =>
    cases pc' <;> cases hc
    cases op with
    | reset => simpa [Polled.follows, Action.tid] using hfollows
    | _ =>
      simp [Action.tid, Event.enter] at hpc
      subst hpc
      cases hresets
  | @lock t pc' next ht hc =>
    cases pc' with
    | resetLock => exact hi.resets t _ ht rfl
    | _ =>
      cases hc <;>
      · simp [Action.tid] at hpc
        subst hpc
        cases hresets
  | @exec t pc' next ht hc =>
    cases pc' with
    | waitTest =>
      cases hc
      cases hup : s.monitor.val.signalled <;>
      · simp [Action.tid, hup] at hpc
        subst hpc
        cases hresets
    | _ =>
      cases hc <;>
      · simp [Action.tid] at hpc
        subst hpc
        cases hresets
  | @unlock t pc' next ht hc | @broadcast t pc' next ht hc =>
    cases pc' <;> cases hc <;>
    · simp [Action.tid] at hpc
      subst hpc
      cases hresets
  | @wait t pc' next ht hc | @spurious t pc' ht => simp [Action.tid] at hpc
  | @resume t pc' ht =>
    simp [Action.tid] at hpc
    subst hpc
    rw [parked_eq hi.parked (.inr ht)] at hresets
    cases hresets

theorem Polling.moved (hi : Polling s) {m : EventState Tid} {t : Tid} {pc : Pc} {b : Bool}
    (taken : Nat) (hauto : m.val.eventType = .auto) (hparked : ParkedAt code m)
    (hthread : m.thread = Function.update s.monitor.thread t (.running pc))
    (htested : b = true → tested pc = true) (hpc : resetting pc = false) :
    Polling ⟨m, Function.update s.found t b, taken⟩ := by
  refine ⟨hauto, hparked, ?_, ?_⟩
  · intro u hu
    by_cases hut : u = t
    · subst hut
      exact ⟨pc, by simp [hthread], htested (by simpa using hu)⟩
    · simpa [hthread, hut] using hi.found u (by simpa [hut] using hu)
  · intro u pc' hu hresets
    by_cases hut : u = t
    · subst hut
      obtain rfl : pc = pc' := by simpa [hthread] using hu
      rw [hpc] at hresets
      cases hresets
    · simpa [hut] using hi.resets u pc' (by simpa [hthread, hut] using hu) hresets

theorem Polling.step (hi : Polling s) (h : PollStep s a s') : Polling s' := by
  have hauto := (eventType_step h.monitor).trans hi.auto
  have hparked := h.monitor.parkedAt hi.parked
  cases h with
  | @test t ht => exact hi.moved s.taken hauto hparked rfl (fun hup => by rw [hup]; rfl) rfl
  | @reset t ht => exact hi.moved (s.taken + 1) hauto hparked rfl (by simp) rfl
  | @other a m hfollows hm hplain =>
    refine ⟨hauto, hparked, ?_, ?_⟩
    · intro u hu
      obtain ⟨pc, hpc, htested⟩ := hi.found u hu
      by_cases hua : u = a.tid
      · subst hua
        exact tested_step hm hfollows (fun t ht => (hplain t ht).2) hu hpc htested
      · exact ⟨pc, (hm.others hua).mpr hpc, htested⟩
    · intro u pc hu hpc
      by_cases hua : u = a.tid
      · subst hua
        have hfound : s.found a.tid = true := resetting_step hi hm hfollows hu hpc
        exact hfound
      · exact hi.resets u pc ((hm.others hua).mp hu) hpc

theorem Stands.step (hs : Stands s) (hi : Polling s) (hok : LeavesFound s a)
    (h : PollStep s a s') : Stands s' := by
  intro u hu
  cases h with
  | @test t ht =>
    by_cases hut : u = t
    · simpa [hut] using hu
    · exact hs u (by simpa [hut] using hu)
  | @reset t ht =>
    by_cases hut : u = t
    · simp [hut] at hu
    · simp [hut, hok (.inl ht) u hut] at hu
  | @other a m hfollows hm hplain =>
    rcases signalled_step hm with hsame | hup | ⟨t, rfl, hlowers⟩
    · exact hsame.trans (hs u hu)
    · exact hup
    · have hclear := hlowers.resolve_left (hplain t rfl).2
      by_cases hut : u = t
      · subst hut
        obtain ⟨pc, hpc, htested⟩ := hi.found u hu
        obtain rfl := Thread.running.inj (hclear.symm.trans hpc)
        cases htested
      · have hleft := hok (.inr hclear) u hut
        rw [hleft] at hu
        cases hu

theorem not_stands (hi : Polling s) (hno : ¬ LeavesFound s a) (h : PollStep s a s') :
    ¬ Stands s' := by
  intro hs
  cases a with
  | call t op | spurious t => exact hno trivial
  | run t =>
    obtain ⟨hlowers, u, hut, hu⟩ : (s.monitor.thread t = .running .resetStore ∨
        s.monitor.thread t = .running .waitClear) ∧ ∃ u, u ≠ t ∧ s.found u = true := by
      simpa [LeavesFound] using hno
    cases h with
    | test ht => simp [ht] at hlowers
    | reset ht => simpa using hs u (by simpa [hut] using hu)
    | other hfollows hm hplain =>
      have hclear := hlowers.resolve_left (hplain t rfl).2
      have hlow := waitClear_step hm hclear hi.auto
      have hup := hs u hu
      rw [hlow] at hup
      cases hup

end Found

section Count
variable {s s' : Polled Tid} {a : Action Tid Op}

def reported (n : Nat) (e : AndroidEvent) : AndroidEvent := { e with returns := e.returns + n }

theorem reported_commutes (n : Nat) (pc : Pc) : (code pc).Commutes (reported n) := by
  cases pc with
  | idle => rintro (_ | _ | _ | _) e <;> rfl
  | waitReturn =>
    intro e
    simp [reported, Nat.add_right_comm]
  | setSignal | setWaitSet | resetStore | testRead | waitTest | waitClear => exact fun e => rfl
  | _ => exact trivial

/-- Every return and every take of a poll, every signal under way and the raised flag has a
set of its own, apart from the waits that passed an unsignalled event. -/
def Covered (s : Polled Tid) : Prop := Accounted (s.monitor.mapVal (reported s.taken))

theorem Covered.step (ha : Covered s) (hi : Polling s) (hs : Stands s) (h : PollStep s a s') :
    Covered s' := by
  have hparked : ParkedAt code (s.monitor.mapVal (reported s.taken)) := hi.parked
  have hstep := accounted_step ha hi.auto hparked (h.monitor.mapVal (reported_commutes s.taken))
  cases h with
  | test ht => exact hstep
  | other => exact hstep
  | @reset t ht =>
    have hup : s.monitor.val.signalled = true := hs t (hi.resets t .resetStore ht rfl)
    intro S hS
    have howed : ∀ u ∈ S, owed (s.monitor.thread u) = 1 := by
      intro u hu
      have hsame : owed ((s.monitor.goto t (.running .resetUnlock)).thread u) = 1 := hS u hu
      by_cases hut : u = t
      · simp [hut, owed, owing] at hsame
      · simpa [hut] using hsame
    have hbefore := ha S howed
    simp only [State.mapVal, reported, hup, Bool.toNat_true, Bool.toNat_false] at hbefore ⊢
    omega

end Count

section Runs

omit [DecidableEq Tid] in
theorem unpolled_polling : Polling (unpolled : Polled Tid) ∧ Stands (unpolled : Polled Tid) ∧
    Covered (unpolled : Polled Tid) := by
  refine ⟨⟨rfl, ?_, ?_, ?_⟩, ?_, ?_⟩
  · intro u pc hu
    simp [unpolled, created, start] at hu
  · intro t ht
    cases ht
  · intro t pc ht hpc
    obtain rfl := Thread.running.inj ht
    cases hpc
  · intro t ht
    cases ht
  · intro S hS
    have hempty : S = ∅ := by
      apply Finset.eq_empty_of_forall_notMem
      intro t ht
      cases hS t ht
    simp [hempty, unpolled, created, start, State.mapVal, reported]

theorem monitor_step {s s' : Polled Tid} {a : Action Tid Op}
    (h : (polls Tid).step s a = some s') : step code s.monitor a = some s'.monitor := by
  obtain ⟨-, h⟩ := Option.ite_none_right_eq_some.mp h
  obtain ⟨monitor, hstep, rfl⟩ := Option.map_eq_some_iff.mp h
  rw [hstep]
  cases a with
  | call t op | spurious t => rfl
  | run t =>
    simp only [Polled.note]
    split <;> rfl

/-- Polls and waits share the sets of an AUTO event. What the polls have found stands in every
state of a run, exactly if no thread takes the event while the poll of another one has found
it. In such a run, if also each woken thread finds the event signalled, there are as many sets
as reports by polls and returns of waits together. -/
theorem takes_shared_iff :
    (∀ as (s : Polled Tid), (polls Tid).run unpolled as = some s →
      ((polls Tid).Always Stands unpolled as ↔ (polls Tid).Each LeavesFound unpolled as)) ∧
    ∀ s : Polled Tid, (polls Tid).ReachWhere
        (fun s a => LeavesFound s a ∧ ResumesSignalled s.monitor a) s →
      s.monitor.val.returns + s.taken ≤ s.monitor.val.sets := by
  have hstart : Polling (unpolled : Polled Tid) ∧ Stands (unpolled : Polled Tid) ∧
      Covered (unpolled : Polled Tid) := unpolled_polling
  constructor
  · intro as s hrun
    have hstands : ∀ s : Polled Tid, Polling s ∧ Stands s → Stands s := fun s hi => hi.2
    have hkeep : ∀ s a (s' : Polled Tid), Polling s ∧ Stands s → LeavesFound s a →
        (polls Tid).step s a = some s' → Polling s' ∧ Stands s' := by
      intro s a s' hi hok hs
      have h := poll_step hs
      exact ⟨hi.1.step h, hi.2.step hi.1 hok h⟩
    have hlose : ∀ s a (s' : Polled Tid), Polling s ∧ Stands s → ¬ LeavesFound s a →
        (polls Tid).step s a = some s' → ¬ Stands s' :=
      fun s a s' hi hno hs => not_stands hi.1 hno (poll_step hs)
    exact Machine.always_iff_each hstands hkeep hlose ⟨hstart.1, hstart.2.1⟩ hrun
  · intro s h
    have hi : Polling s ∧ Stands s ∧ Covered s ∧
        (system Tid .auto).ReachWhere ResumesSignalled s.monitor := by
      apply h.invariant
      · rintro s rfl
        exact ⟨hstart.1, hstart.2.1, hstart.2.2, .init rfl⟩
      · intro s a s' _ hi hok hs
        obtain ⟨hpolling, hstands, hcovered, hreach⟩ := hi
        have hstep := poll_step hs
        exact ⟨hpolling.step hstep, hstands.step hpolling hok.1 hstep,
          hcovered.step hpolling hstands hstep, hreach.step hok.2 (monitor_step hs)⟩
    obtain ⟨-, -, hcovered, hreach⟩ := hi
    have hzero := (clears_signalled hreach).2
    have hcount := hcovered ∅ (by simp)
    simp only [State.mapVal, reported, Finset.card_empty, hzero] at hcount
    omega

end Runs

section Calls
variable {s : Polled Tid} {t : Tid}

structure Polled.AtRest (s : Polled Tid) : Prop where
  holder : s.monitor.holder = none
  thread : s.monitor.thread = fun _ => .running .idle

def wholeCall (t : Tid) (op : Op) (n : Nat) : List (Action Tid Op) :=
  .call t op :: List.replicate n (.run t)

theorem run_test (hrest : s.AtRest) (hfound : s.found t = false) :
    (polls Tid).run s (wholeCall t .test 3) =
      some { s with found := Function.update s.found t s.monitor.val.signalled } := by
  obtain ⟨⟨val, holder, thread, sleeps⟩, found, taken⟩ := s
  obtain ⟨rfl, rfl⟩ := hrest
  replace hfound : found t = false := hfound
  simp [Machine.run, polls, wholeCall, Polled.follows, Polled.note, step, code, exec, Event.enter,
    State.goto, hfound]

theorem run_reset (hrest : s.AtRest) (hfound : s.found t = true) :
    (polls Tid).run s (wholeCall t .reset 3) =
      some { s with
        monitor := { s.monitor with val := { s.monitor.val with signalled := false } }
        found := Function.update s.found t false
        taken := s.taken + 1 } := by
  obtain ⟨⟨val, holder, thread, sleeps⟩, found, taken⟩ := s
  obtain ⟨rfl, rfl⟩ := hrest
  replace hfound : found t = true := hfound
  simp [Machine.run, polls, wholeCall, Polled.follows, Polled.note, step, code, exec, Event.enter,
    State.goto, hfound]

theorem run_set (hrest : s.AtRest) (hfound : s.found t = false) :
    (polls Tid).run s (wholeCall t .set 5) =
      some { s with
        monitor := { s.monitor with val := { s.monitor.val with
          signalled := true
          sets := s.monitor.val.sets + 1 } } } := by
  obtain ⟨⟨val, holder, thread, sleeps⟩, found, taken⟩ := s
  obtain ⟨rfl, rfl⟩ := hrest
  replace hfound : found t = false := hfound
  simp [Machine.run, polls, wholeCall, Polled.follows, Polled.note, step, code, exec, Event.enter,
    State.goto, hfound]
  -- nobody sleeps, so the broadcast wakes nobody
  funext u
  by_cases hu : u = t
  · simp [hu]
  · simp [hu, Thread.wake]

end Calls

section Pair

instance (s : Polled Bool) : (a : Action Bool Op) → Decidable (LeavesFound s a)
  | .run _ => inferInstanceAs (Decidable (_ → _))
  | .call _ _ => inferInstanceAs (Decidable True)
  | .spurious _ => inferInstanceAs (Decidable True)

def setThenTest : List (Action Bool Op) :=
  [.call true .set, .run true, .run true, .run true, .run true, .run true,
    .call false .test, .run false, .run false, .run false]

def thenReset : List (Action Bool Op) := [.call false .reset, .run false, .run false, .run false]

def passingWait : List (Action Bool Op) :=
  [.call true .wait, .run true, .run true, .run true, .run true, .run true]

theorem takes_shared_poll : ∃ s : Polled Bool, s.taken = 1 ∧
    s.monitor.val.returns + s.taken ≤ s.monitor.val.sets := by
  have hrun : ((polls Bool).runWhere
      (fun s a => LeavesFound s a ∧ ResumesSignalled s.monitor a) unpolled
      (setThenTest ++ thenReset)).map (·.taken) = some 1 := by decide
  obtain ⟨s, hs, htaken⟩ := Option.map_eq_some_iff.mp hrun
  exact ⟨s, htaken, takes_shared_iff.2 s (Machine.ReachWhere.runWhere (.init rfl) hs)⟩

-- a wait between the test and the reset of a poll: both report the one set
example : ((polls Bool).run unpolled (setThenTest ++ passingWait ++ thenReset)).map
    (fun s => (s.monitor.val.returns, s.taken, s.monitor.val.sets)) = some (1, 1, 1) := by decide

end Pair

end CoreAndroid.Event
