import CoreAndroid.Waitset.OneCall

/-! A call of the wait consumes no event that it does not report, whatever the other threads
do meanwhile. -/
namespace CoreAndroid.Waitset

section Frame
variable {core : Core} {build : Build} {hHandleQueue : List Handle} {w w' : World}
  {pc pc' : WaiterPc}

theorem lookUses_resets (w : World) (h : Handle) : resetEvents (lookUses core build w h) = [] := by
  unfold lookUses
  split
  · rfl
  · rfl

theorem scanUses_resets (core : Core) (build : Build) (hHandleQueue : List Handle) (w : World)
    (place : Nat) (scan : Scan) :
    resetEvents (waiterUses core build hHandleQueue w (.scan place scan)) = [] := by
  simp only [waiterUses]
  split
  · split
    · rfl
    · exact lookUses_resets w _
  · rfl

/-- A step of the wait lowers the events it resets, and leaves the rest alone: the other
events, the timers, and the wait queues. -/
structure OwnFrame (uses : List EventUse) (w w' : World) : Prop where
  signalled : ∀ e, w'.signalled e = if e ∈ resetEvents uses then false else w.signalled e
  items : w'.items = w.items
  waitTime : w'.waitTime = w.waitTime

theorem ownFrame_same {uses : List EventUse} (hresets : resetEvents uses = [])
    (hsignalled : w'.signalled = w.signalled) (hitems : w'.items = w.items)
    (htime : w'.waitTime = w.waitTime) : OwnFrame uses w w' := by
  refine ⟨?_, hitems, htime⟩
  intro e
  simp [hresets, hsignalled]

theorem ownFrame_reset (w : World) (hEvent : Handle) :
    OwnFrame [.reset hEvent] w (w.reset hEvent) := by
  refine ⟨?_, rfl, rfl⟩
  intro e
  by_cases he : e = hEvent <;> simp [World.reset, EventUse.resets, he]

theorem waiter_frame {pipeFile : Int} {answer : PollAnswer}
    (h : waiterStep core build hHandleQueue pipeFile answer w pc = some (w', pc')) :
    OwnFrame (waiterUses core build hHandleQueue w pc) w w' := by
  cases pc with
  | outside g =>
    cases h
    exact ownFrame_same rfl rfl rfl rfl
  | purge =>
    simp only [waiterStep] at h
    split at h <;> cases h <;> exact ownFrame_same rfl rfl rfl rfl
  | scan place scan =>
    have hresets := scanUses_resets core build hHandleQueue w place scan
    simp only [waiterStep] at h
    split at h
    · cases h
      exact ownFrame_same hresets rfl rfl rfl
    · split at h
      · cases h
        exact ownFrame_same hresets rfl rfl rfl
      · split at h <;> cases h <;> exact ownFrame_same hresets rfl rfl rfl
  | scanReset g =>
    cases h
    exact ownFrame_reset w g
  | poll scan =>
    obtain ⟨-, h⟩ := Option.ite_none_right_eq_some.mp h
    split at h <;> cases h <;> exact ownFrame_same rfl rfl rfl rfl
  | pollRead eventQueue =>
    simp only [waiterStep] at h
    split at h
    · cases h
      exact ownFrame_same rfl rfl rfl rfl
    · split at h
      · cases h
        exact ownFrame_same rfl rfl rfl rfl
      · split at h <;> cases h <;> exact ownFrame_same rfl rfl rfl rfl
  | pollTest eventQueue el =>
    simp only [waiterStep] at h
    split at h
    · split at h <;> cases h <;> exact ownFrame_same rfl rfl rfl rfl
    · cases h
      exact ownFrame_same rfl rfl rfl rfl
  | pollReset eventQueue el =>
    cases h
    exact ownFrame_reset w el.hEvent

end Frame

section Others
variable {core : Core} {build : Build} {members members' : List Handle} {uses : List EventUse}

theorem Known.mono {el : EventElement} (h : Known core build members el)
    (hsub : members ⊆ members') :
    Known core build members' el :=
  ⟨h.nonnull, hsub h.member, h.backed⟩

theorem ScanKnows.mono {scan : Scan} (h : ScanKnows core build members scan)
    (hsub : members ⊆ members') : ScanKnows core build members' scan :=
  ⟨fun el hel => (h.elements el hel).mono hsub, h.timer, h.polled⟩

theorem Stage.mono {pc : WaiterPc} (h : Stage core build members uses pc)
    (hsub : members ⊆ members') : Stage core build members' uses pc := by
  cases pc with
  | purge => exact h
  | scan place scan => exact ⟨h.1, h.2.mono hsub⟩
  | poll scan => exact ⟨h.1, h.2.mono hsub⟩
  | scanReset g => exact ⟨h.1, h.2.1, hsub h.2.2.1, h.2.2.2⟩
  | pollRead eventQueue => exact ⟨h.1, fun el hel => (h.2 el hel).mono hsub⟩
  | pollTest eventQueue el => exact ⟨h.1, h.2.1.mono hsub, fun el hel => (h.2.2 el hel).mono hsub⟩
  | pollReset eventQueue el => exact ⟨h.1, h.2.mono hsub⟩
  | outside g =>
    rcases h with hquiet | hreported
    · exact .inl hquiet
    · exact .inr ⟨hreported.nonnull, hsub hreported.member, hreported.event⟩

variable {config : Config} {Tid : Type} [DecidableEq Tid] {s t : State Tid}

theorem enter_members (sh : Shared) (op : Op) :
    sh.hHandleQueue ⊆ (enter config sh op).1.hHandleQueue := by
  cases op with
  | add h => exact List.subset_append_left _ _
  | _ => exact List.Subset.refl _

theorem exec_members (sh : Shared) (pc : Pc) :
    sh.hHandleQueue ⊆ (exec config sh pc).1.hHandleQueue := by
  cases pc <;> exact List.Subset.refl _

theorem others_step {a : Action Tid} (ha : ∀ answer, a ≠ .wait answer)
    (h : step config s a = some t) :
    t.waiter = s.waiter ∧ s.shared.hHandleQueue ⊆ t.shared.hHandleQueue := by
  cases a with
  | wait answer => exact absurd rfl (ha answer)
  | call tid op =>
    obtain ⟨-, h⟩ := Option.ite_none_right_eq_some.mp h
    cases h
    exact ⟨rfl, enter_members s.shared op⟩
  | run tid =>
    obtain ⟨-, h⟩ := Option.ite_none_left_eq_some.mp h
    cases h
    exact ⟨rfl, exec_members s.shared (s.thread tid)⟩
  | take hWaitQ =>
    cases h
    exact ⟨rfl, List.Subset.refl _⟩
  | pass waitTime sockets =>
    cases h
    exact ⟨rfl, List.Subset.refl _⟩

end Others

section Reach
variable {config : Config} {Tid : Type} [DecidableEq Tid] {s t : State Tid}
  {uses : List EventUse}

theorem callSystem_wait {answer : PollAnswer}
    (h : (callSystem config).step s (.wait answer) = some t) :
    s.waiter.returned = false ∧
      waiterStep config.core config.build s.shared.hHandleQueue config.pipeFile answer
        s.shared.world s.waiter = some (t.shared.world, t.waiter) ∧
      t.shared.hHandleQueue = s.shared.hHandleQueue := by
  obtain ⟨hin, h⟩ := Option.ite_none_left_eq_some.mp h
  obtain ⟨⟨w, pc⟩, hw, rfl⟩ := Option.map_eq_some_iff.mp h
  exact ⟨by simpa using hin, hw, rfl⟩

theorem callSystem_cases {a : Action Tid} (h : (callSystem config).step s a = some t) :
    (∃ answer, a = .wait answer ∧ s.waiter.returned = false ∧
      waiterStep config.core config.build s.shared.hHandleQueue config.pipeFile answer
        s.shared.world s.waiter = some (t.shared.world, t.waiter) ∧
      t.shared.hHandleQueue = s.shared.hHandleQueue) ∨
    (usesOf config s a = [] ∧ (∀ answer, a ≠ .wait answer) ∧ step config s a = some t) := by
  cases a with
  | wait answer => exact .inl ⟨answer, rfl, callSystem_wait h⟩
  | _ => exact .inr ⟨rfl, by simp, h⟩

theorem stage_step {p q : State Tid × List EventUse} {a : Action Tid}
    (hs : Stage config.core config.build p.1.shared.hHandleQueue p.2 p.1.waiter)
    (h : (oneCall config).step p a = some q) :
    Stage config.core config.build q.1.shared.hHandleQueue q.2 q.1.waiter := by
  obtain ⟨hstep, huses⟩ := Machine.record_step h
  rw [huses]
  rcases callSystem_cases hstep with ⟨answer, rfl, hin, hw, hqueue⟩ | ⟨hnone, ha, hstep⟩
  · rw [hqueue]
    exact hs.step hin hw
  · obtain ⟨hwaiter, hsub⟩ := others_step ha hstep
    rw [hnone, List.append_nil, hwaiter]
    exact hs.mono hsub

omit [DecidableEq Tid] in
theorem stage_start (hs : s.waiter = .purge) :
    Stage config.core config.build s.shared.hHandleQueue [] s.waiter := by
  rw [hs]
  exact ⟨rfl, rfl⟩

theorem stage_reach (h : (oneCall config).Reach (s, uses)) :
    Stage config.core config.build s.shared.hHandleQueue uses s.waiter := by
  have hinit : ∀ p : State Tid × List EventUse, (oneCall config).init p →
      Stage config.core config.build p.1.shared.hHandleQueue p.2 p.1.waiter := by
    rintro ⟨s, _⟩ ⟨hs, rfl⟩
    exact stage_start hs
  exact Machine.Reach.invariant hinit (fun _ _ _ _ hs hstep => stage_step hs hstep) h

/-- What a call consumed so far, it reports if it returns. -/
structure ConsumesReported (config : Config) (s : State Tid) (uses : List EventUse) : Prop where
  atMostOne : (resetEvents uses).length ≤ 1
  auto : ∀ e ∈ resetEvents uses, config.core.eventType e = .auto ∧ e ∈ foundEvents uses
  reported : ∀ h, s.waiter = .outside h → ∀ e ∈ resetEvents uses,
    h ∈ s.shared.hHandleQueue ∧
      ∃ b, backing config.core config.build h = some b ∧ b.event = e
  null : s.waiter = .outside handleNull → resetEvents uses = []

omit [DecidableEq Tid] in
theorem consumes_nothing (h : resetEvents uses = []) : ConsumesReported config s uses := by
  constructor <;> simp [h]

omit [DecidableEq Tid] in
theorem Stage.consumes
    (h : Stage config.core config.build s.shared.hHandleQueue uses s.waiter) :
    ConsumesReported config s uses := by
  cases hpc : s.waiter with
  | outside g =>
    rw [hpc] at h
    rcases h with ⟨hquiet, -⟩ | hreported
    · exact consumes_nothing hquiet.resets
    · obtain ⟨b, hb, hfound, hresets⟩ := hreported.event
      split at hresets
      · rename_i hauto
        constructor
        · simp [hresets]
        · intro e he
          rw [hresets, List.mem_singleton] at he
          subst he
          simp [hauto.1, hfound]
        · intro h' hh' e he
          rw [hpc] at hh'
          cases hh'
          rw [hresets, List.mem_singleton] at he
          exact ⟨hreported.member, b, hb, he.symm⟩
        · intro hnull
          rw [hpc] at hnull
          cases hnull
          exact absurd rfl hreported.nonnull
      · exact consumes_nothing hresets
  | purge =>
    rw [hpc] at h
    exact consumes_nothing h.resets
  | scan place scan | poll scan | scanReset g | pollRead eventQueue | pollTest eventQueue el
  | pollReset eventQueue el =>
    rw [hpc] at h
    exact consumes_nothing h.1.resets

/-- At every point of a call it has reset at most one event, an AUTO event that it found
signalled; the member it returns is one with that event behind it. Its steps change no other
event, no timer and no wait queue. -/
theorem wait_consumes_reported (config : Config) (h : (oneCall config).Reach (s, uses)) :
    ConsumesReported config s uses ∧
      ∀ answer t, (callSystem config).step s (.wait answer) = some t →
        OwnFrame (usesOf config s (.wait answer)) s.shared.world t.shared.world :=
  ⟨(stage_reach h).consumes, fun _ _ hstep => waiter_frame (callSystem_wait hstep).2.1⟩

end Reach

def WaiterPc.result : WaiterPc → Option Handle
  | .outside h => some h
  | _ => none

theorem outside_of_result {pc : WaiterPc} {h : Handle} (hr : pc.result = some h) :
    pc = .outside h := by
  cases pc with
  | outside g =>
    injection hr with hr
    rw [hr]
  | _ => cases hr

def oneEvent : Config := ⟨fewHandles, ⟨false, true⟩, 9, 16⟩

def eventSet : State Unit where
  shared := ⟨fewWaits, [1], fun _ => true⟩
  waiter := .purge
  thread _ := .idle

def setWhileBlocked : List (Action Unit) :=
  [.wait noAnswer, .wait noAnswer, .wait noAnswer, .call () (.set 1), .run (), .run (), .run (),
    .wait ⟨1, fun _ => 1⟩, .wait noAnswer, .wait noAnswer, .wait noAnswer]

theorem wait_consumes_reported_set : ∃ (s : State Unit) (uses : List EventUse),
    s.waiter = .outside 1 ∧ resetEvents uses = [1] ∧ ConsumesReported oneEvent s uses := by
  have hrun : ((oneCall oneEvent).run (eventSet, []) setWhileBlocked).map (fun p =>
      (p.1.waiter.result, resetEvents p.2)) = some (some 1, [1]) := by decide
  obtain ⟨⟨s, uses⟩, hs, hlast⟩ := Option.map_eq_some_iff.mp hrun
  simp only [Prod.mk.injEq] at hlast
  have hinit : (oneCall oneEvent).Reach (eventSet, []) := .init ⟨rfl, rfl⟩
  exact ⟨s, uses, outside_of_result hlast.1, hlast.2,
    (wait_consumes_reported oneEvent (hinit.run hs)).1⟩

end CoreAndroid.Waitset
