import CoreAndroid.Waitset.Signal

/-! One call of the wait among other threads: which events its steps test and reset, and
what the call returns for them. -/
namespace CoreAndroid.Waitset

section Uses
variable (core : Core) (build : Build)

/-- What a step of the wait does with an event. -/
inductive EventUse where
  | scanTested (h hEvent : Handle) (signalled : Bool) -- the scan tests the event of a member
  | pollTested (hEvent : Handle) (signalled : Bool)
  | reset (hEvent : Handle)
  deriving DecidableEq, Repr

def EventUse.found : EventUse → Option Handle
  | .scanTested _ hEvent true | .pollTested hEvent true => some hEvent
  | _ => none

def EventUse.resets : EventUse → Option Handle
  | .reset hEvent => some hEvent
  | _ => none

/-- The scan found the AUTO event of an overlapped member signalled. -/
def EventUse.early : EventUse → Bool
  | .scanTested h hEvent true => core.handleType h ≠ .event && core.eventType hEvent = .auto
  | _ => false

def foundEvents (uses : List EventUse) : List Handle := uses.filterMap EventUse.found
def resetEvents (uses : List EventUse) : List Handle := uses.filterMap EventUse.resets

def lookUses (w : World) (h : Handle) : List EventUse :=
  match backing core build h with
  | some ⟨hEvent, none⟩ => [.scanTested h hEvent (w.signalled hEvent)]
  | _ => []

def waiterUses (hHandleQueue : List Handle) (w : World) : WaiterPc → List EventUse
  | .scan place _ =>
      match hHandleQueue[place]? with
      | some h => if h = handleNull then [] else lookUses core build w h
      | none => []
  | .scanReset h => [.reset h]
  | .pollTest _ el => [.pollTested el.hEvent (w.signalled el.hEvent)]
  | .pollReset _ el => [.reset el.hEvent]
  | _ => []

end Uses

section Call
variable (config : Config) {Tid : Type} [DecidableEq Tid]

def WaiterPc.returned : WaiterPc → Bool
  | .outside _ => true
  | _ => false

/-- One call of the wait: it starts with the purge, and takes no step once it returned. -/
def callSystem : Machine (State Tid) (Action Tid) where
  init s := s.waiter = .purge
  step s
    | .wait answer => if s.waiter.returned then none else step config s (.wait answer)
    | a => step config s a

def usesOf (s : State Tid) : Action Tid → List EventUse
  | .wait _ =>
      waiterUses config.core config.build s.shared.hHandleQueue s.shared.world s.waiter
  | _ => []

def oneCall : Machine (State Tid × List EventUse) (Action Tid) :=
  (callSystem config).record (usesOf config)

end Call

section Stage
variable (core : Core) (build : Build) (hHandleQueue : List Handle)

structure Known (el : EventElement) : Prop where
  nonnull : el.hAssoc ≠ handleNull
  member : el.hAssoc ∈ hHandleQueue
  backed : ∃ b, backing core build el.hAssoc = some b ∧ b.event = el.hEvent

def Eventless (h : Handle) : Prop :=
  h = handleNull ∨ ∀ b, backing core build h = some b → b.queue ≠ none

structure ScanKnows (scan : Scan) : Prop where
  elements : ∀ el ∈ scan.eventQueue, Known core build hHandleQueue el
  timer : Eventless core build scan.timerEvent
  polled : ∀ h ∈ scan.ofcHandleList, Eventless core build h

structure Quiet (uses : List EventUse) : Prop where
  found : foundEvents uses = []
  resets : resetEvents uses = []

structure Found1 (hEvent : Handle) (uses : List EventUse) : Prop where
  found : foundEvents uses = [hEvent]
  resets : resetEvents uses = []
  auto : core.eventType hEvent = .auto
  late : ∀ use ∈ uses, use.early core = false

/-- A call returns a member whose event it found signalled. The event was reset if it is
an AUTO event that the scan did not find behind an overlapped member. -/
structure Reported (h : Handle) (uses : List EventUse) : Prop where
  nonnull : h ≠ handleNull
  member : h ∈ hHandleQueue
  event : ∃ b, backing core build h = some b ∧ foundEvents uses = [b.event] ∧
    resetEvents uses =
      if core.eventType b.event = .auto ∧ ∀ use ∈ uses, use.early core = false
      then [b.event] else []

/-- What is known where the call stands, from what it did with events so far. -/
def Stage (uses : List EventUse) : WaiterPc → Prop
  | .purge => Quiet uses
  | .scan _ scan | .poll scan => Quiet uses ∧ ScanKnows core build hHandleQueue scan
  | .scanReset h => Found1 core h uses ∧ h ≠ handleNull ∧ h ∈ hHandleQueue ∧
      backing core build h = some ⟨h, none⟩
  | .pollRead eventQueue => Quiet uses ∧ ∀ el ∈ eventQueue, Known core build hHandleQueue el
  | .pollTest eventQueue el => Quiet uses ∧ Known core build hHandleQueue el ∧
      ∀ el ∈ eventQueue, Known core build hHandleQueue el
  | .pollReset _ el => Found1 core el.hEvent uses ∧ Known core build hHandleQueue el
  | .outside h =>
      Quiet uses ∧ Eventless core build h ∨ Reported core build hHandleQueue h uses

end Stage

variable {core : Core} {build : Build} {hHandleQueue : List Handle} {uses : List EventUse}
  {w w' : World} {pc pc' : WaiterPc}

@[simp] theorem foundEvents_append (uses uses' : List EventUse) :
    foundEvents (uses ++ uses') = foundEvents uses ++ foundEvents uses' :=
  List.filterMap_append

@[simp] theorem resetEvents_append (uses uses' : List EventUse) :
    resetEvents (uses ++ uses') = resetEvents uses ++ resetEvents uses' :=
  List.filterMap_append

@[simp] theorem foundEvents_single (use : EventUse) : foundEvents [use] = use.found.toList := by
  cases h : use.found <;> simp [foundEvents, h]

@[simp] theorem resetEvents_single (use : EventUse) : resetEvents [use] = use.resets.toList := by
  cases h : use.resets <;> simp [resetEvents, h]

theorem Quiet.late (h : Quiet uses) : ∀ use ∈ uses, use.early core = false := by
  intro use huse
  have hnone : use.found = none := List.filterMap_eq_nil_iff.mp h.found use huse
  cases use with
  | scanTested g hEvent signalled =>
    cases signalled with
    | true => cases hnone
    | false => rfl
  | _ => rfl

theorem Quiet.append_unfound {uses' : List EventUse} (h : Quiet uses)
    (hfound : foundEvents uses' = []) (hresets : resetEvents uses' = []) :
    Quiet (uses ++ uses') :=
  ⟨by simp [h.found, hfound], by simp [h.resets, hresets]⟩

theorem Quiet.found1 {use : EventUse} {hEvent : Handle} (h : Quiet uses)
    (hfound : use.found = some hEvent) (hresets : use.resets = none)
    (hearly : use.early core = false) (hauto : core.eventType hEvent = .auto) :
    Found1 core hEvent (uses ++ [use]) := by
  refine ⟨?_, ?_, hauto, ?_⟩
  · simp [h.found, hfound]
  · simp [h.resets, hresets]
  · exact List.forall_mem_append.mpr ⟨h.late, List.forall_mem_singleton.mpr hearly⟩

theorem backing_of_event {h : Handle} (htype : core.handleType h = .event) :
    backing core build h = some ⟨h, none⟩ := by
  simp [backing, htype]

theorem resetsAtScan_eq {h : Handle} {b : Backing} (hb : backing core build h = some b) :
    resetsAtScan core h =
      (decide (core.handleType h = .event) && decide (core.eventType b.event = .auto)) := by
  unfold resetsAtScan
  by_cases htype : core.handleType h = .event
  · rw [backing_of_event htype] at hb
    injection hb with hb
    subst hb
    simp [htype]
  · simp [htype]

theorem signalled_of_ready {h hEvent : Handle} {resets : Bool}
    (hb : backing core build h = some ⟨hEvent, none⟩)
    (hlook : look core build w h = .ready resets) :
    w.signalled hEvent = true ∧ resetsAtScan core h = resets := by
  rw [look_backed hb] at hlook
  cases hsignalled : w.signalled hEvent with
  | false => simp [Backing.ready, hsignalled] at hlook
  | true => simpa [Backing.ready, hsignalled] using hlook

theorem look_ready_true {h : Handle} (hlook : look core build w h = .ready true) :
    lookUses core build w h = [.scanTested h h true] ∧ core.eventType h = .auto := by
  have htype := ready_true_event hlook
  have hb : backing core build h = some ⟨h, none⟩ := backing_of_event htype
  obtain ⟨hsignalled, hauto⟩ := signalled_of_ready hb hlook
  exact ⟨by simp [lookUses, hb, hsignalled], by simpa [resetsAtScan, htype] using hauto⟩

theorem eventless_of_unbacked {h : Handle} (hb : backing core build h = none) :
    Eventless core build h := by
  right
  intro b hb'
  rw [hb] at hb'
  cases hb'

theorem stage_ready {h : Handle} (hq : Quiet uses) (hne : h ≠ handleNull)
    (hmem : h ∈ hHandleQueue) (hlook : look core build w h = .ready false) :
    Stage core build hHandleQueue (uses ++ lookUses core build w h) (.outside h) := by
  cases hb : backing core build h with
  | none =>
    left
    simp only [lookUses, hb, List.append_nil]
    exact ⟨hq, eventless_of_unbacked hb⟩
  | some b =>
    obtain ⟨hEvent, queue⟩ := b
    cases queue with
    | some q =>
      left
      simp only [lookUses, hb, List.append_nil]
      exact ⟨hq, .inr fun b hb' => by rw [hb] at hb'; cases hb'; simp⟩
    | none =>
      right
      obtain ⟨hsignalled, hkeeps⟩ := signalled_of_ready hb hlook
      rw [resetsAtScan_eq hb] at hkeeps
      refine ⟨hne, hmem, _, hb, ?_⟩
      simp only [lookUses, hb, hsignalled]
      refine ⟨by simp [hq.found, EventUse.found], ?_⟩
      -- without a reset the event is not AUTO, or the member is an overlapped one
      have hno : ¬ (core.eventType hEvent = .auto ∧
          ∀ use ∈ uses ++ [EventUse.scanTested h hEvent true], use.early core = false) := by
        rintro ⟨hauto, hlate⟩
        have hearly := hlate (.scanTested h hEvent true) (by simp)
        simp [EventUse.early, hauto] at hearly
        simp [hearly, hauto] at hkeeps
      rw [if_neg hno]
      simp [hq.resets, EventUse.resets]

theorem scanKnows_visit {scan : Scan} {h : Handle} (hs : ScanKnows core build hHandleQueue scan)
    (hne : h ≠ handleNull) (hmem : h ∈ hHandleQueue)
    (hlook : ∀ resets, look core build w h ≠ .ready resets) :
    ScanKnows core build hHandleQueue (scan.visit h (look core build w h)) := by
  cases hb : backing core build h with
  | some b =>
    have hready := unready_of_look hb hlook
    rw [look_backed hb, hready]
    refine ⟨?_, hs.timer, hs.polled⟩
    intro el hel
    rcases List.mem_append.mp hel with hel | hel
    · exact hs.elements el hel
    · obtain rfl := List.mem_singleton.mp hel
      exact ⟨hne, hmem, b, hb, rfl⟩
  | none =>
    have heventless := eventless_of_unbacked hb
    cases hfound : look core build w h with
    | ready resets => exact absurd hfound (hlook resets)
    | nothing => exact hs
    | waiting hEvent =>
      refine ⟨?_, hs.timer, hs.polled⟩
      rw [← hfound]
      intro el hel
      rcases visit_elements hel with hel | ⟨hassoc, hbacked⟩
      · exact hs.elements el hel
      · exact ⟨hassoc ▸ hne, hassoc ▸ hmem, hassoc ▸ hbacked⟩
    | polled fd events =>
      refine ⟨hs.elements, hs.timer, ?_⟩
      intro g hg
      rcases List.mem_append.mp hg with hg | hg
      · exact hs.polled g hg
      · obtain rfl := List.mem_singleton.mp hg
        exact heventless
    | timed waitTime =>
      unfold Scan.visit
      dsimp only
      split
      · exact ⟨hs.elements, heventless, hs.polled⟩
      · exact hs

theorem lookUses_unready {h : Handle} (hlook : ∀ resets, look core build w h ≠ .ready resets) :
    foundEvents (lookUses core build w h) = [] ∧ resetEvents (lookUses core build w h) = [] := by
  unfold lookUses
  split
  · rename_i hEvent hb
    have hready := unready_of_look hb hlook
    simp only [Backing.ready] at hready
    simp [EventUse.found, EventUse.resets, hready]
  · exact ⟨rfl, rfl⟩

theorem readPoll_reported {scan : Scan} {pollCount : Int} {revents : Nat → UInt16} {h : Handle}
    {reported : UInt16} (hread : readPoll scan pollCount revents = .reported h reported) :
    h ∈ scan.ofcHandleList := by
  unfold readPoll at hread
  split at hread
  · cases hread
  · split at hread
    · dsimp only at hread
      split at hread
      · cases hread
      · split at hread <;> cases hread
        rename_i hget
        exact List.mem_of_getElem? hget
    · cases hread

theorem stage_reported {h : Handle} {b : Backing} (hb : backing core build h = some b)
    (hne : h ≠ handleNull) (hmem : h ∈ hHandleQueue) (hfound : Found1 core b.event uses) :
    Stage core build hHandleQueue (uses ++ [.reset b.event]) (.outside h) := by
  right
  refine ⟨hne, hmem, b, hb, ?_⟩
  have hlate : ∀ use ∈ uses ++ [EventUse.reset b.event], use.early core = false :=
    List.forall_mem_append.mpr ⟨hfound.late, List.forall_mem_singleton.mpr rfl⟩
  rw [if_pos ⟨hfound.auto, hlate⟩]
  simp [hfound.found, hfound.resets, EventUse.found, EventUse.resets]

theorem Stage.step {pipeFile : Int} {answer : PollAnswer}
    (hs : Stage core build hHandleQueue uses pc) (hin : pc.returned = false)
    (h : waiterStep core build hHandleQueue pipeFile answer w pc = some (w', pc')) :
    Stage core build hHandleQueue (uses ++ waiterUses core build hHandleQueue w pc) pc' := by
  cases pc with
  | outside g => cases hin
  | purge =>
    simp only [waiterStep] at h
    simp only [waiterUses, List.append_nil]
    split at h <;> cases h
    · refine ⟨hs, by simp [Scan.start], .inl rfl, ?_⟩
      intro g hg
      exact .inl (List.mem_singleton.mp hg)
    · exact hs
  | scan place scan =>
    obtain ⟨hq, hk⟩ := hs
    simp only [waiterStep] at h
    simp only [waiterUses]
    cases hplace : hHandleQueue[place]? with
    | none =>
      rw [hplace] at h
      cases h
      exact ⟨by simpa using hq, hk⟩
    | some g =>
      have hmem : g ∈ hHandleQueue := List.mem_of_getElem? hplace
      rw [hplace] at h
      by_cases hnull : g = handleNull
      · simp only [hnull, if_true] at h
        cases h
        exact ⟨by simpa [hnull] using hq, hk⟩
      · simp only [hnull, if_false] at h ⊢
        cases hlook : look core build w g with
        | ready resets =>
          cases resets with
          | false =>
            simp only [hlook] at h
            cases h
            exact stage_ready hq hnull hmem hlook
          | true =>
            simp only [hlook] at h
            cases h
            have htype := ready_true_event hlook
            obtain ⟨huses, hauto⟩ := look_ready_true hlook
            rw [huses]
            exact ⟨hq.found1 rfl rfl (by simp [EventUse.early, htype]) hauto, hnull, hmem,
              backing_of_event htype⟩
        | _ =>
          have hunready : ∀ resets, look core build w g ≠ .ready resets := by simp [hlook]
          simp only [hlook] at h
          cases h
          rw [← hlook]
          obtain ⟨hfound, hresets⟩ := lookUses_unready hunready
          exact ⟨hq.append_unfound hfound hresets, scanKnows_visit hk hnull hmem hunready⟩
  | scanReset g =>
    obtain ⟨hfound, hne, hmem, hb⟩ := hs
    cases h
    exact stage_reported hb hne hmem hfound
  | poll scan =>
    obtain ⟨hq, hk⟩ := hs
    simp only [waiterUses, List.append_nil]
    obtain ⟨-, h⟩ := Option.ite_none_right_eq_some.mp h
    split at h <;> cases h
    · rename_i hread
      left
      refine ⟨hq, ?_⟩
      rcases readPoll_returns hread with rfl | rfl
      · exact hk.timer
      · exact .inl rfl
    · exact ⟨hq, hk.elements⟩
    · rename_i hread
      exact .inl ⟨hq, hk.polled _ (readPoll_reported hread)⟩
  | pollRead eventQueue =>
    obtain ⟨hq, hk⟩ := hs
    simp only [waiterUses, List.append_nil]
    simp only [waiterStep] at h
    split at h
    · cases h
      exact .inl ⟨hq, .inl rfl⟩
    · split at h
      · cases h
        exact .inl ⟨hq, .inl rfl⟩
      · split at h <;> cases h
        · exact ⟨hq, hk⟩
        · rename_i el hfind
          exact ⟨hq, hk el (List.mem_of_find?_eq_some hfind), hk⟩
  | pollTest eventQueue el =>
    obtain ⟨hq, hel, hk⟩ := hs
    simp only [waiterUses]
    simp only [waiterStep] at h
    cases hsignalled : w.signalled el.hEvent with
    | false =>
      simp only [hsignalled, Bool.false_eq_true, if_false] at h
      cases h
      exact ⟨hq.append_unfound rfl rfl, hk⟩
    | true =>
      simp only [hsignalled, if_true] at h
      split at h <;> cases h
      · rename_i hauto
        exact ⟨hq.found1 rfl rfl rfl hauto, hel⟩
      · rename_i hauto
        obtain ⟨b, hb, hevent⟩ := hel.backed
        rw [afterElement, if_neg hel.nonnull]
        right
        refine ⟨hel.nonnull, hel.member, b, hb, ?_⟩
        rw [hevent, if_neg fun hno => hauto hno.1]
        simp [hq.found, hq.resets, EventUse.found, EventUse.resets]
  | pollReset eventQueue el =>
    obtain ⟨hfound, hel⟩ := hs
    obtain ⟨b, hb, hevent⟩ := hel.backed
    cases h
    rw [afterElement, if_neg hel.nonnull]
    simp only [waiterUses]
    rw [← hevent] at hfound ⊢
    exact stage_reported hb hel.nonnull hel.member hfound

end CoreAndroid.Waitset
