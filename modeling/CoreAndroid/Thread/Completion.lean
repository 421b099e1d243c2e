import CoreAndroid.Event.Lifetime
import CoreAndroid.Thread.LifeCycle

/-! A thread that is given an event to notify: `ofc_thread_launch` sets it when the scheduler has
returned, and the owner of the event waits for that and destroys the event. -/
namespace CoreAndroid.Thread
open Event Monitor

def LaunchPc.ran : LaunchPc → Bool
  | .notStarted | .run | .storeRet => false
  | _ => true

def LaunchPc.reads : LaunchPc → Bool
  | .run | .storeRet | .notify | .test => true
  | _ => false

structure Completion (Tid : Type) where
  thread : LifeState Tid
  event : EventLife Tid
  notified : Bool -- `ofc_thread_launch` has called `ofc_event_set`
  told : Bool -- the last call of the owner has told it that the event is signalled

inductive CompletionAction (Tid : Type) where
  | thread (a : Thread.LifeAction Tid) -- a step on the record of the thread
  | notify -- `ofc_thread_launch` calls `ofc_event_set`
  | event (a : Monitor.LifeAction Tid Event.Op) -- a step on the event

variable {Tid : Type} [DecidableEq Tid]

section Model
variable (signaller owner : Tid)

/-- `ofc_thread_launch` goes on after `ofc_event_set`. The `ofc_handle_unlock` at its end, which
does not use the event's record, is not a step of its own. -/
def Completion.goesOn (s : Completion Tid) : Thread.LifeAction Tid → Bool
  | .launched =>
      s.thread.launched ≠ .notify ||
        s.notified && s.event.monitor.thread signaller = .running .idle
  | _ => true

/-- The thread is past its last use of the event's record: of the call it was in, nothing but the
`ofc_handle_unlock` may be left. -/
def Completion.PastRecord (s : Completion Tid) : Prop :=
  s.event.monitor.thread signaller = .running .idle

def Completion.onEvent (s : Completion Tid) (a : Monitor.LifeAction Tid Event.Op) :
    Option (Completion Tid) :=
  (object.step s.event a).map fun event =>
    { s with event, told := toldAfter owner s.event s.told a }

def completion (eventType : EventType) : Machine (Completion Tid) (CompletionAction Tid) where
  init s := (lifeSystem Tid).init s.thread ∧ s.event = Object.fresh (Event.created eventType) ∧
    s.notified = false ∧ s.told = false
  step s
    | .thread a =>
        if s.goesOn signaller a then
          ((lifeSystem Tid).step s.thread a).map fun thread => { s with thread }
        else none
    | .notify =>
        if s.thread.launched = .notify ∧ s.notified = false then
          (s.onEvent owner (.act (.call signaller .set))).map fun s => { s with notified := true }
        else none
    | .event a => s.onEvent owner a

/-- Nobody but the launched thread sets the event. The owner tests it, waits for it without
spurious wake-ups, and destroys it after it was told that it is signalled. -/
def OwnerWaits (s : Completion Tid) : CompletionAction Tid → Prop
  | .event (.act (.call t op)) => t = owner ∧ op ≠ .set
  | .event (.act (.spurious _)) => False
  | .event (.destroy t) => t = owner ∧ s.told = true
  | _ => True

instance (s : Completion Tid) : (a : CompletionAction Tid) → Decidable (OwnerWaits owner s a)
  | .event (.act (.call _ _)) => inferInstanceAs (Decidable (_ ∧ _))
  | .event (.act (.spurious _)) => inferInstanceAs (Decidable False)
  | .event (.destroy _) => inferInstanceAs (Decidable (_ ∧ _))
  | .thread _ | .notify | .event (.goOn _) | .event (.act (.run _)) =>
      inferInstanceAs (Decidable True)

end Model

section Record
variable {s s' : LifeState Tid}

structure Begun (s : LifeState Tid) : Prop where
  creating : s.creator ≠ .done → s.creator ≠ .readHandle → s.launched = .notStarted
  joined : s.waiter = .destroy ∨ s.waiter = .free → s.launched = .returned
  gone : s.released ≠ 0 → s.launched = .returned ∨ s.launched = .notStarted ∧ s.creator = .done

omit [DecidableEq Tid] in
theorem Begun.released (h : Begun s) (hs : s.launched ≠ .returned)
    (hstarted : s.launched = .notStarted → s.creator ≠ .done) : s.released = 0 := by
  by_contra hr
  rcases h.gone hr with hret | ⟨hnot, hdone⟩
  · exact hs hret
  · exact hstarted hnot hdone

omit [DecidableEq Tid] in
theorem Begun.creator (h : Begun s) {ok : Bool} (hs : creatorStep s ok s.creator = some s') :
    Begun s' ∧ (s.launched.ran = true → s'.launched.ran = true) := by
  -- until `pthread_create` nothing has started
  have hearly (hne : s.creator ≠ .done) (hne' : s.creator ≠ .readHandle) :
      s.launched = .notStarted ∧ s.released = 0 := by
    have hnot := h.creating hne hne'
    exact ⟨hnot, h.released (by simp [hnot]) fun _ => hne⟩
  cases hpc : s.creator with
  | start detachstate =>
    obtain ⟨hnot, hzero⟩ := hearly (by simp [hpc]) (by simp [hpc])
    rw [hpc] at hs
    cases ok <;> cases hs
    · exact ⟨⟨by simp, h.joined, by simp [hzero]⟩, id⟩
    · exact ⟨⟨fun _ _ => hnot, h.joined, by simp [hzero]⟩, id⟩
  | spawn =>
    obtain ⟨hnot, hzero⟩ := hearly (by simp [hpc]) (by simp [hpc])
    have hout : ¬ (s.waiter = .destroy ∨ s.waiter = .free) := by
      intro hw
      have hret := h.joined hw
      rw [hnot] at hret
      cases hret
    rw [hpc] at hs
    cases ok <;> cases hs
    · exact ⟨⟨fun _ _ => hnot, h.joined, by simp [hzero]⟩, id⟩
    · exact ⟨⟨by simp, fun hw => absurd hw hout, by simp [hzero]⟩, by simp [hnot, LaunchPc.ran]⟩
  | failDestroy =>
    obtain ⟨hnot, hzero⟩ := hearly (by simp [hpc]) (by simp [hpc])
    rw [hpc] at hs
    cases hs
    exact ⟨⟨fun _ _ => hnot, h.joined, by simp [LifeState.touch, hzero]⟩, id⟩
  | failFree =>
    obtain ⟨hnot, -⟩ := hearly (by simp [hpc]) (by simp [hpc])
    rw [hpc] at hs
    cases hs
    exact ⟨⟨by simp, h.joined, fun _ => .inr ⟨hnot, rfl⟩⟩, id⟩
  | readHandle =>
    rw [hpc] at hs
    cases hs
    refine ⟨⟨by simp, h.joined, fun hr => .inl ?_⟩, id⟩
    rcases h.gone hr with hret | ⟨-, hdone⟩
    · exact hret
    · rw [hpc] at hdone
      cases hdone
  | done =>
    rw [hpc] at hs
    cases hs

omit [DecidableEq Tid] in
theorem Begun.launch (h : Begun s) (hs : launchStep s s.launched = some s') :
    Begun s' ∧ (s.launched.ran = true → s'.launched.ran = true) := by
  have hcreated (hne : s.launched ≠ .notStarted) {next : LaunchPc} :
      s.creator ≠ .done → s.creator ≠ .readHandle → next = .notStarted :=
    fun h₁ h₂ => absurd (h.creating h₁ h₂) hne
  have hjoined (hne : s.launched ≠ .returned) {next : LaunchPc} :
      s.waiter = .destroy ∨ s.waiter = .free → next = .returned :=
    fun hw => absurd (h.joined hw) hne
  cases hpc : s.launched with
  | notStarted | returned =>
    rw [hpc] at hs
    cases hs
  | run | storeRet | notify | destroy =>
    have hzero := h.released (by simp [hpc]) (by simp [hpc])
    rw [hpc] at hs
    cases hs
    exact ⟨⟨hcreated (by simp [hpc]), hjoined (by simp [hpc]), by simp [LifeState.touch, hzero]⟩,
      by simp [LaunchPc.ran]⟩
  | test =>
    have hzero := h.released (by simp [hpc]) (by simp [hpc])
    rw [hpc] at hs
    cases hs
    refine ⟨⟨hcreated (by simp [hpc]), hjoined (by simp [hpc]),
      by simp [LifeState.touch, hzero]⟩, fun _ => ?_⟩
    cases hstate : s.record.detachstate <;> rfl
  | free =>
    rw [hpc] at hs
    cases hs
    exact ⟨⟨hcreated (by simp [hpc]), fun _ => rfl, fun _ => .inl rfl⟩, fun _ => rfl⟩

omit [DecidableEq Tid] in
theorem Begun.join (h : Begun s) (hs : joinStep s s.waiter = some s') :
    Begun s' ∧ s'.launched = s.launched := by
  cases hpc : s.waiter with
  | idle | finished =>
    rw [hpc] at hs
    cases hs
  | lock =>
    rw [hpc] at hs
    cases hs
    refine ⟨⟨h.creating, ?_, h.gone⟩, rfl⟩
    cases s.handleLive <;> simp
  | test =>
    rw [hpc] at hs
    cases hs
    refine ⟨⟨h.creating, ?_, h.gone⟩, rfl⟩
    cases s.record.detachstate <;> simp
  | readThread =>
    rw [hpc] at hs
    cases hs
    exact ⟨⟨h.creating, by simp, h.gone⟩, rfl⟩
  | join =>
    rw [hpc] at hs
    obtain ⟨hret, hs⟩ := Option.ite_none_right_eq_some.mp hs
    cases hs
    exact ⟨⟨h.creating, fun _ => hret, h.gone⟩, rfl⟩
  | destroy =>
    have hret := h.joined (.inl hpc)
    rw [hpc] at hs
    cases hs
    exact ⟨⟨h.creating, fun _ => hret, h.gone⟩, rfl⟩
  | free =>
    have hret := h.joined (.inr hpc)
    rw [hpc] at hs
    cases hs
    exact ⟨⟨h.creating, by simp, fun _ => .inl hret⟩, rfl⟩

theorem Begun.call (h : Begun s) {t : Tid} (hs : lifeCallStep s t (s.call t) = some s') :
    Begun s' ∧ s'.launched = s.launched := by
  by_cases hheld : (s.call t).holds = true
  · rw [lifeCallStep_held hheld] at hs
    cases hs
    exact ⟨⟨h.creating, h.joined, h.gone⟩, rfl⟩
  · cases hpc : s.call t with
    | idle =>
      rw [hpc] at hs
      cases hs
    | lock op | unlock ret =>
      rw [hpc] at hs
      cases hs
      exact ⟨⟨h.creating, h.joined, h.gone⟩, rfl⟩
    | _ =>
      rw [hpc] at hheld
      exact absurd rfl hheld

theorem Begun.step (h : Begun s) {a : Thread.LifeAction Tid}
    (hs : (lifeSystem Tid).step s a = some s') :
    Begun s' ∧ (s.launched.ran = true → s'.launched.ran = true) := by
  cases a with
  | creator ok => exact h.creator hs
  | launched => exact h.launch hs
  | startWait =>
    obtain ⟨-, hs⟩ := Option.ite_none_right_eq_some.mp hs
    cases hs
    exact ⟨⟨h.creating, by simp, h.gone⟩, id⟩
  | waiter =>
    obtain ⟨hbegun, hsame⟩ := h.join hs
    exact ⟨hbegun, fun hran => hsame ▸ hran⟩
  | call t op =>
    obtain ⟨-, hs⟩ := Option.ite_none_right_eq_some.mp hs
    cases hs
    exact ⟨⟨h.creating, h.joined, h.gone⟩, id⟩
  | run t =>
    obtain ⟨hbegun, hsame⟩ := h.call hs
    exact ⟨hbegun, fun hran => hsame ▸ hran⟩

end Record

section Runs
variable {signaller owner : Tid} {eventType : EventType} {s s' : Completion Tid}

structure Completes (signaller owner : Tid) (s : Completion Tid) : Prop where
  begun : Begun s.thread
  handed : HandedOver signaller owner s.event s.told
  quiet : s.notified = false → s.event.monitor.val.sets = 0
  ran : s.notified = true → s.thread.launched.ran = true

theorem sets_of_not_set {e e' : EventLife Tid} {a : Monitor.LifeAction Tid Event.Op}
    (hs : object.step e a = some e') (hset : ∀ t, a ≠ .act (.call t .set)) :
    e'.monitor.val.sets = e.monitor.val.sets := by
  have hmonitor {m : EventState Tid} {act : Monitor.Action Tid Event.Op}
      (hm : Monitor.step code e.monitor act = some m) (hact : ∀ t, act ≠ .call t .set) :
      m.val.sets = e.monitor.val.sets := by
    rcases sets_step (step_spec hm) with hsame | ⟨t, hcall, -⟩
    · exact hsame
    · exact absurd hcall (hact t)
  cases a with
  | act act =>
    have hact : ∀ t, act ≠ .call t .set := fun t heq => hset t (congrArg _ heq)
    cases act with
    | call t op =>
      obtain ⟨-, hs⟩ := Option.ite_none_right_eq_some.mp hs
      obtain ⟨m, hm, rfl⟩ := Option.map_eq_some_iff.mp hs
      split
      · exact hmonitor hm hact
      · rfl
    | run t | spurious t =>
      obtain ⟨m, hm, rfl⟩ := Option.map_eq_some_iff.mp hs
      exact hmonitor hm hact
  | destroy t =>
    obtain ⟨-, hs⟩ := Option.ite_none_right_eq_some.mp hs
    cases hs
    rfl
  | goOn t =>
    rw [Object.step] at hs
    cases hpc : e.destroy t with
    | idle =>
      rw [hpc] at hs
      cases hs
    | teardown left =>
      rw [hpc] at hs
      cases left <;> cases hs <;> rfl
    | unpublish =>
      rw [hpc] at hs
      cases hs
      rfl

theorem Completes.event (h : Completes signaller owner s) (hne : signaller ≠ owner)
    {a : Monitor.LifeAction Tid Event.Op} (hok : OwnerWaits owner s (.event a))
    (hs : s.onEvent owner a = some s') : Completes signaller owner s' := by
  obtain ⟨e, he, rfl⟩ := Option.map_eq_some_iff.mp hs
  have hone : OneShot signaller owner s.event s.told a := by
    cases a with
    | act act =>
      cases act with
      | call t op => exact .inr hok
      | run t | spurious t => exact hok
    | destroy t | goOn t => exact hok
  have hset : ∀ t, a ≠ .act (.call t .set) := by
    rintro t rfl
    exact hok.2 rfl
  exact ⟨h.begun, h.handed.step hne hone he,
    fun hnot => (sets_of_not_set he hset).trans (h.quiet hnot), h.ran⟩

theorem Completes.notify (h : Completes signaller owner s) (hne : signaller ≠ owner)
    (hs : (completion signaller owner eventType).step s .notify = some s') :
    Completes signaller owner s' := by
  obtain ⟨⟨hpc, hnot⟩, hs⟩ := Option.ite_none_right_eq_some.mp hs
  obtain ⟨t, ht, rfl⟩ := Option.map_eq_some_iff.mp hs
  obtain ⟨e, he, rfl⟩ := Option.map_eq_some_iff.mp ht
  have hone : OneShot signaller owner s.event s.told (.act (.call signaller .set)) :=
    .inl ⟨rfl, rfl, h.quiet hnot⟩
  have hran : s.thread.launched.ran = true := by
    rw [hpc]
    rfl
  exact ⟨h.begun, h.handed.step hne hone he, nofun, fun _ => hran⟩

theorem completes_reach (hne : signaller ≠ owner)
    (h : (completion signaller owner eventType).ReachWhere (OwnerWaits owner) s) :
    Completes signaller owner s := by
  refine h.invariant ?_ ?_
  · rintro ⟨thread, event, notified, told⟩ ⟨hthread, rfl, rfl, rfl⟩
    obtain ⟨-, hzero, -, -, hnot, hidle, -⟩ := hthread
    have hidle : thread.waiter = .idle := hidle
    exact ⟨⟨fun _ _ => hnot, by simp [hidle], fun hr => absurd hzero hr⟩,
      fresh_handedOver eventType, fun _ => rfl, nofun⟩
  · rintro s a s' - hi hok hs
    cases a with
    | thread a =>
      obtain ⟨-, hs⟩ := Option.ite_none_right_eq_some.mp hs
      obtain ⟨thread, hthread, rfl⟩ := Option.map_eq_some_iff.mp hs
      obtain ⟨hbegun, hran⟩ := hi.begun.step hthread
      exact ⟨hbegun, hi.handed, hi.quiet, fun hnotified => hran (hi.ran hnotified)⟩
    | notify => exact hi.notify hne hs
    | event a => exact hi.event hne hok hs

/-- When the owner of the event is told that the thread has completed, the scheduler has returned
and the launched thread is past its last use of the event's record, so that the owner may destroy
the event at once: no record of an event is used after its release, and it is released once. The
record of the thread, which names the event, is there as long as the launched thread reads it. -/
theorem completion_handed_over (hne : signaller ≠ owner)
    (h : (completion signaller owner eventType).ReachWhere (OwnerWaits owner) s) :
    object.Safe s.event ∧
    (s.told = true → s.thread.launched.ran = true ∧ s.PastRecord signaller) ∧
    (s.thread.launched.reads = true → s.thread.released = 0) := by
  have hi := completes_reach hne h
  refine ⟨hi.handed.life.safe, fun htold => ?_, fun hreads => ?_⟩
  · obtain ⟨hsets, hidle⟩ := hi.handed.handing.told htold
    have hnotified : s.notified = true := by
      by_contra hnot
      exact hsets (hi.quiet (by simpa using hnot))
    exact ⟨hi.ran hnotified, hidle⟩
  · refine hi.begun.released ?_ ?_
    · rintro hret
      simp [hret, LaunchPc.reads] at hreads
    · rintro hnot
      simp [hnot, LaunchPc.reads] at hreads

def destroyWhenTold : List (CompletionAction Bool) :=
  [.thread (.creator true), .thread (.creator true), .thread (.creator true),
    .event (.act (.call true .wait)), .event (.act (.run true)), .event (.act (.run true)),
    .event (.act (.run true)), .thread .launched, .thread .launched, .notify] ++
  List.replicate 5 (.event (.act (.run false))) ++ List.replicate 4 (.event (.act (.run true))) ++
  .event (.destroy true) :: List.replicate 5 (.event (.goOn true)) ++ [.thread .launched]

def aboutToNotify : Completion Bool :=
  ⟨⟨⟨false, .join, handleNull⟩, false, 0, false, .start .detach, .notStarted, .idle,
    fun _ => .idle⟩, Object.fresh (Event.created .manual), false, false⟩

theorem completion_handed_over_destroyWhenTold : ∃ s : Completion Bool,
    (completion false true .manual).run aboutToNotify destroyWhenTold = some s ∧
    s.event.released = 1 ∧ object.Safe s.event ∧ s.thread.launched.ran = true := by
  have hrun : ((completion false true .manual).runWhere (OwnerWaits true) aboutToNotify
      destroyWhenTold).map (fun s => (s.event.released, s.told)) = some (1, true) := by decide
  obtain ⟨s, hs, hlast⟩ := Option.map_eq_some_iff.mp hrun
  simp only [Prod.mk.injEq] at hlast
  obtain ⟨hreleased, htold⟩ := hlast
  have hinit : (completion false true .manual).init aboutToNotify :=
    ⟨⟨rfl, rfl, rfl, ⟨.detach, rfl⟩, rfl, rfl, fun _ => rfl⟩, rfl, rfl, rfl⟩
  have hall := completion_handed_over (by decide) (Machine.ReachWhere.runWhere (.init hinit) hs)
  exact ⟨s, Machine.run_of_runWhere hs, hreleased, hall.1, (hall.2.1 htold).1⟩

end Runs

end CoreAndroid.Thread
