import CoreAndroid.Waitset.Member

/-! The wait in small steps: the reads of the purge, the single looks of the scan, the poll,
and the reads and tests of `PollEvent`, so that other threads can act in between. -/
namespace CoreAndroid.Waitset

/-- Where a thread stands in `ofc_waitset_wait_impl`. -/
inductive WaiterPc where
  | outside (triggeredEvent : Handle) -- not in the call, which returned this handle last
  | purge
  | scan (place : Nat) (scan : Scan) -- about to look at the member at a place of `hHandleQueue`
  | scanReset (hEventHandle : Handle) -- about to reset the AUTO event that the scan found
  | poll (scan : Scan)
  | pollRead (eventQueue : List EventElement)
  | pollTest (eventQueue : List EventElement) (eventElement : EventElement)
  | pollReset (eventQueue : List EventElement) (eventElement : EventElement)

structure PollAnswer where
  pollCount : Int
  revents : Nat → UInt16

/-- The poll comes back with entry 0 exactly if the pipe holds a message. -/
def PollAnswer.fits (answer : PollAnswer) (w : World) : Bool :=
  if 0 < answer.pollCount then decide (answer.revents 0 ≠ 0) == !w.pipe.isEmpty
  else answer.pollCount ≠ 0 || w.pipe.isEmpty

def afterElement (eventQueue : List EventElement) (eventElement : EventElement) : WaiterPc :=
  if eventElement.hAssoc = handleNull then .pollRead eventQueue else .outside eventElement.hAssoc

/-- The next step of the wait on a set with these members. -/
def waiterStep (core : Core) (build : Build) (hHandleQueue : List Handle) (pipeFile : Int)
    (answer : PollAnswer) (w : World) : WaiterPc → Option (World × WaiterPc)
  | .outside _ => some (w, .purge)
  | .purge =>
      match w.pipe with
      | [] => some (w, .scan 0 (.start core pipeFile))
      | _ :: pipe => some ({ w with pipe := pipe }, .purge)
  | .scan place scan =>
      match hHandleQueue[place]? with
      | none => some (w, .poll scan)
      | some h =>
          if h = handleNull then some (w, .poll scan)
          else
            match look core build w h with
            | .ready true => some (w, .scanReset h)
            | .ready false => some (w, .outside h)
            | found => some (w, .scan (place + 1) (scan.visit h found))
  | .scanReset h => some (w.reset h, .outside h)
  | .poll scan =>
      if answer.fits w then
        match readPoll scan answer.pollCount answer.revents with
        | .returns h => some (w, .outside h)
        | .pipe => some (w, .pollRead scan.eventQueue)
        | .reported h revents => some (w.setEvent core h revents, .outside h)
      else none
  | .pollRead eventQueue =>
      match w.pipe with
      | [] => some (w, .outside handleNull)
      | hEvent :: pipe =>
          let w := { w with pipe := pipe }
          if hEvent = handleNull then some (w, .outside handleNull)
          else
            match eventQueue.find? fun eventElement => eventElement.hEvent = hEvent with
            | none => some (w, .pollRead eventQueue)
            | some eventElement => some (w, .pollTest eventQueue eventElement)
  | .pollTest eventQueue eventElement =>
      if w.signalled eventElement.hEvent then
        if core.eventType eventElement.hEvent = .auto
        then some (w, .pollReset eventQueue eventElement)
        else some (w, afterElement eventQueue eventElement)
      else some (w, .pollRead eventQueue)
  | .pollReset eventQueue eventElement =>
      some (w.reset eventElement.hEvent, afterElement eventQueue eventElement)

/-- The member at a place is the one that `ofc_queue_next` has come to, for queue functions that go
through the members. -/
theorem scan_step_next {core : Core} {build : Build} {hHandleQueue : List Handle}
    {queue : HandleQueue} (hqueue : queue.Enumerates hHandleQueue) {place : Nat}
    (hplace : place ≤ hHandleQueue.length) (pipeFile : Int) (answer : PollAnswer) (w : World)
    (scan : Scan) :
    let hEventHandle := queue.next^[place] queue.first
    waiterStep core build hHandleQueue pipeFile answer w (.scan place scan) =
      if hEventHandle = handleNull then some (w, .poll scan)
      else
        match look core build w hEventHandle with
        | .ready true => some (w, .scanReset hEventHandle)
        | .ready false => some (w, .outside hEventHandle)
        | found => some (w, .scan (place + 1) (scan.visit hEventHandle found)) := by
  have hnext := hqueue.iterate hplace
  intro hEventHandle
  simp only [waiterStep]
  cases hmember : hHandleQueue[place]? with
  | none =>
    rw [hmember] at hnext
    exact (if_pos hnext).symm
  | some h =>
    rw [hmember] at hnext
    obtain rfl : hEventHandle = h := hnext
    rfl

/-- Blocked in the poll: no message is in the pipe. -/
def Blocked (w : World) (pc : WaiterPc) : Prop := (∃ scan, pc = .poll scan) ∧ w.pipe = []

def WaiterPc.atPoll : WaiterPc → Bool
  | .poll _ => true
  | _ => false

theorem blocked_of_atPoll {w : World} {pc : WaiterPc} (hpoll : pc.atPoll = true)
    (hempty : w.pipe = []) : Blocked w pc := by
  cases pc with
  | poll scan => exact ⟨⟨scan, rfl⟩, hempty⟩
  | _ => cases hpoll

def noAnswer : PollAnswer := ⟨0, fun _ => 0⟩

/-- The member at this place was looked at, and found wanting, since the purge. -/
def Passed : WaiterPc → Nat → Prop
  | .scan place _, i => i < place
  | .poll _, _ => True
  | _, _ => False

def WaiterPc.elements : WaiterPc → List EventElement
  | .scan _ found | .poll found => found.eventQueue
  | .pollRead eventQueue => eventQueue
  | .pollTest eventQueue eventElement | .pollReset eventQueue eventElement =>
      eventElement :: eventQueue
  | _ => []

/-- What a step of the wait can do to the events, and to what the wait has passed. -/
inductive WaiterEffect (core : Core) (build : Build) (hHandleQueue : List Handle) (w : World) :
    WaiterPc → World → WaiterPc → Prop
  -- nothing is passed after the step
  | rest {pc w' pc'} : w'.signalled = w.signalled → w'.items = w.items →
      (∀ i, ¬ Passed pc' i) → (∀ el ∈ pc'.elements, el ∈ pc.elements) →
      (∀ h, pc' ≠ .scanReset h) → WaiterEffect core build hHandleQueue w pc w' pc'
  | find {place scan h} : hHandleQueue[place]? = some h → core.handleType h = .event →
      WaiterEffect core build hHandleQueue w (.scan place scan) w (.scanReset h)
  | scanReset {h} : WaiterEffect core build hHandleQueue w (.scanReset h) (w.reset h) (.outside h)
  | pollReset {eventQueue el pc'} :
      (∀ i, ¬ Passed pc' i) → (∀ el' ∈ pc'.elements, el' ∈ eventQueue) →
      (∀ h, pc' ≠ .scanReset h) →
      WaiterEffect core build hHandleQueue w (.pollReset eventQueue el) (w.reset el.hEvent) pc'
  -- a member that is not ready is passed
  | pass {place scan h} : hHandleQueue[place]? = some h →
      (∀ b, backing core build h = some b → b.ready w = false) →
      WaiterEffect core build hHandleQueue w (.scan place scan) w
        (.scan (place + 1) (scan.visit h (look core build w h)))
  | poll {place scan} : (∀ h, hHandleQueue[place]? = some h → h = handleNull) →
      WaiterEffect core build hHandleQueue w (.scan place scan) w (.poll scan)

variable {core : Core} {build : Build} {hHandleQueue : List Handle} {w w' : World}
  {pc pc' : WaiterPc}

theorem afterElement_not_passed (eventQueue : List EventElement) (el : EventElement) (i : Nat) :
    ¬ Passed (afterElement eventQueue el) i := by
  unfold afterElement
  split <;> exact not_false

theorem afterElement_elements {eventQueue : List EventElement} {el el' : EventElement}
    (h : el' ∈ (afterElement eventQueue el).elements) : el' ∈ eventQueue := by
  unfold afterElement at h
  split at h
  · exact h
  · cases h

theorem afterElement_ne_scanReset (eventQueue : List EventElement) (el : EventElement)
    (h : Handle) : afterElement eventQueue el ≠ .scanReset h := by
  unfold afterElement
  split <;> simp

theorem ready_true_event {h : Handle} (hlook : look core build w h = .ready true) :
    core.handleType h = .event := by
  cases hb : backing core build h with
  | some b =>
    rw [look_backed hb] at hlook
    split at hlook
    · injection hlook with hresets
      simp only [resetsAtScan, Bool.and_eq_true, decide_eq_true_eq] at hresets
      exact hresets.1
    · cases hlook
  | none =>
    rw [look_unbacked hb] at hlook
    split at hlook
    · cases hlook
    · split at hlook
      · split at hlook <;> simp at hlook
      · cases hlook

theorem unready_of_look {h : Handle} {b : Backing} (hb : backing core build h = some b)
    (hlook : ∀ resets, look core build w h ≠ .ready resets) : b.ready w = false := by
  cases hr : b.ready w with
  | false => rfl
  | true => exact absurd (by rw [look_backed hb, if_pos hr]) (hlook _)

theorem waiter_effect {pipeFile : Int} {answer : PollAnswer}
    (h : waiterStep core build hHandleQueue pipeFile answer w pc = some (w', pc')) :
    WaiterEffect core build hHandleQueue w pc w' pc' := by
  cases pc with
  | outside g =>
    cases h
    exact .rest rfl rfl (fun _ => not_false) (fun _ hel => hel) (by simp)
  | purge =>
    simp only [waiterStep] at h
    split at h <;> cases h
    · exact .rest rfl rfl (fun i => Nat.not_lt_zero i) (fun _ hel => hel) (by simp)
    · exact .rest rfl rfl (fun _ => not_false) (fun _ hel => hel) (by simp)
  | scan place scan =>
    simp only [waiterStep] at h
    cases hplace : hHandleQueue[place]? with
    | none =>
      rw [hplace] at h
      cases h
      exact .poll (by simp [hplace])
    | some g =>
      rw [hplace] at h
      by_cases hnull : g = handleNull
      · simp only [hnull, if_true] at h
        cases h
        exact .poll (by simp [hplace, hnull])
      · simp only [hnull, if_false] at h
        cases hlook : look core build w g with
        | ready resets =>
          cases resets with
          | true =>
            simp only [hlook] at h
            cases h
            exact .find hplace (ready_true_event hlook)
          | false =>
            simp only [hlook] at h
            cases h
            exact .rest rfl rfl (fun _ => not_false) (fun _ hel => by cases hel) (by simp)
        | _ =>
          simp only [hlook] at h
          cases h
          rw [← hlook]
          exact .pass hplace fun b hb => unready_of_look hb (by simp [hlook])
  | scanReset g =>
    cases h
    exact .scanReset
  | poll scan =>
    obtain ⟨-, h⟩ := Option.ite_none_right_eq_some.mp h
    split at h <;> cases h
    · exact .rest rfl rfl (fun _ => not_false) (fun _ hel => by cases hel) (by simp)
    · exact .rest rfl rfl (fun _ => not_false) (fun _ hel => hel) (by simp)
    · exact .rest rfl rfl (fun _ => not_false) (fun _ hel => by cases hel) (by simp)
  | pollRead eventQueue =>
    simp only [waiterStep] at h
    split at h
    · cases h
      exact .rest rfl rfl (fun _ => not_false) (fun _ hel => by cases hel) (by simp)
    · split at h
      · cases h
        exact .rest rfl rfl (fun _ => not_false) (fun _ hel => by cases hel) (by simp)
      · split at h <;> cases h
        · exact .rest rfl rfl (fun _ => not_false) (fun _ hel => hel) (by simp)
        · rename_i el hfind
          refine .rest rfl rfl (fun _ => not_false) ?_ (by simp)
          intro el' hel'
          rcases List.mem_cons.mp hel' with rfl | hel'
          · exact List.mem_of_find?_eq_some hfind
          · exact hel'
  | pollTest eventQueue el =>
    simp only [waiterStep] at h
    split at h
    · split at h <;> cases h
      · exact .rest rfl rfl (fun _ => not_false) (fun _ hel => hel) (by simp)
      · refine .rest rfl rfl (afterElement_not_passed _ _) ?_ (afterElement_ne_scanReset _ _)
        exact fun _ hel => List.mem_cons_of_mem _ (afterElement_elements hel)
    · cases h
      exact .rest rfl rfl (fun _ => not_false) (fun _ hel => List.mem_cons_of_mem _ hel) (by simp)
  | pollReset eventQueue el =>
    cases h
    exact .pollReset (afterElement_not_passed _ _) (fun _ => afterElement_elements)
      (afterElement_ne_scanReset _ _)

def WaiterPc.Within (n : Nat) : WaiterPc → Prop
  | .scan place _ => place ≤ n
  | _ => True

theorem within_of_not_passed {n : Nat} (h : ∀ i, ¬ Passed pc i) : pc.Within n := by
  cases pc with
  | scan place scan =>
    cases place with
    | zero => exact Nat.zero_le n
    | succ place => exact absurd (Nat.lt_succ_self place) (h place)
  | _ => trivial

theorem within_step {pipeFile : Int} {answer : PollAnswer}
    (h : waiterStep core build hHandleQueue pipeFile answer w pc = some (w', pc')) :
    pc'.Within hHandleQueue.length := by
  cases waiter_effect h with
  | rest _ _ hpassed => exact within_of_not_passed hpassed
  | pollReset hpassed => exact within_of_not_passed hpassed
  | pass hplace =>
    obtain ⟨hlt, -⟩ := List.getElem?_eq_some_iff.mp hplace
    exact hlt
  | _ => trivial

theorem visit_elements {h : Handle} {scan : Scan} {el : EventElement}
    (hel : el ∈ (scan.visit h (look core build w h)).eventQueue) :
    el ∈ scan.eventQueue ∨
      el.hAssoc = h ∧ ∃ b, backing core build h = some b ∧ b.event = el.hEvent := by
  cases hb : backing core build h with
  | some b =>
    rw [look_backed hb] at hel
    split at hel
    · exact .inl hel
    · rcases List.mem_append.mp hel with hel | hel
      · exact .inl hel
      · obtain rfl := List.mem_singleton.mp hel
        exact .inr ⟨rfl, b, rfl, rfl⟩
  | none =>
    left
    rw [look_unbacked hb] at hel
    split at hel
    · exact hel
    · split at hel
      · split at hel
        · exact hel
        · unfold Scan.visit at hel
          dsimp only at hel
          split at hel <;> exact hel
      · exact hel

end CoreAndroid.Waitset
