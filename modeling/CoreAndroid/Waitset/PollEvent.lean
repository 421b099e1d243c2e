import CoreAndroid.Waitset.Steps

/-! What `PollEvent` takes out of the pipe: the messages up to the first that decides, and
nothing behind it. -/
namespace CoreAndroid.Waitset
open StateTransition (Reaches)

section Spec

/-- A wake, or a message about an event in the queue that is signalled. -/
def Decisive (eventQueue : List EventElement) (signalled : Handle → Bool) (hEvent : Handle) :
    Prop :=
  hEvent = handleNull ∨ (∃ el ∈ eventQueue, el.hEvent = hEvent) ∧ signalled hEvent = true

def Associated (eventQueue : List EventElement) : Prop :=
  ∀ el ∈ eventQueue, el.hAssoc ≠ handleNull

/-- The message that decides is the last one taken. A wake returns nothing; an event returns
the member of its first element, and is reset if it is AUTO. -/
structure Decides (core : Core) (eventQueue : List EventElement) (w : World) (hEvent : Handle)
    (after : List Handle) (polled : Handle × World) : Prop where
  world : polled.2 = { w with pipe := after, signalled := polled.2.signalled }
  wake : hEvent = handleNull → polled.1 = handleNull ∧ polled.2.signalled = w.signalled
  event : hEvent ≠ handleNull →
    ∃ el, eventQueue.find? (fun eventElement => eventElement.hEvent = hEvent) = some el ∧
      polled.1 = el.hAssoc ∧ polled.2.signalled =
        if core.eventType hEvent = .auto then Function.update w.signalled hEvent false
        else w.signalled

end Spec

section Messages
variable (core : Core) (pipe : List Handle) {eventQueue : List EventElement}
  {signalled : Handle → Bool} {hEvent : Handle} {before : List Handle}

theorem pollEvent_passes (h : ¬ Decisive eventQueue signalled hEvent) :
    pollEvent core eventQueue (hEvent :: pipe) signalled =
      pollEvent core eventQueue pipe signalled := by
  obtain ⟨hnull, hquiet⟩ := not_or.mp h
  rw [pollEvent, if_neg hnull]
  cases hfind : eventQueue.find? fun eventElement => eventElement.hEvent = hEvent with
  | none => rfl
  | some el =>
    have hel : el.hEvent = hEvent := by simpa using List.find?_some hfind
    have hlow : ¬ signalled hEvent = true := fun hs =>
      hquiet ⟨⟨el, List.mem_of_find?_eq_some hfind, hel⟩, hs⟩
    exact if_neg hlow

theorem pollEvent_passes_all (h : ∀ m ∈ before, ¬ Decisive eventQueue signalled m) :
    pollEvent core eventQueue (before ++ pipe) signalled =
      pollEvent core eventQueue pipe signalled := by
  induction before with
  | nil => rfl
  | cons m before ih =>
    obtain ⟨hm, hbefore⟩ := List.forall_mem_cons.mp h
    rw [List.cons_append, pollEvent_passes core _ hm]
    exact ih hbefore

theorem pollEvent_decides (hqueue : Associated eventQueue) (hnull : hEvent ≠ handleNull)
    (h : Decisive eventQueue signalled hEvent) :
    ∃ el, eventQueue.find? (fun eventElement => eventElement.hEvent = hEvent) = some el ∧
      pollEvent core eventQueue (hEvent :: pipe) signalled = (el.hAssoc, pipe,
        if core.eventType hEvent = .auto then Function.update signalled hEvent false
        else signalled) := by
  obtain ⟨⟨el', hel', hmatch⟩, hsignalled⟩ := h.resolve_left hnull
  have hsome : (eventQueue.find? fun eventElement => eventElement.hEvent = hEvent).isSome :=
    List.find?_isSome.mpr ⟨el', hel', by simpa using hmatch⟩
  obtain ⟨el, hfind⟩ := Option.isSome_iff_exists.mp hsome
  refine ⟨el, hfind, ?_⟩
  have hassoc : el.hAssoc ≠ handleNull := hqueue el (List.mem_of_find?_eq_some hfind)
  simp only [pollEvent, hnull, if_false, hfind, hsignalled, if_true, hassoc]

end Messages

section Scan
variable {core : Core} {build : Build}

theorem scan_associated (hHandleQueue : List Handle) (w : World) {scan : Scan}
    (h : Associated scan.eventQueue) :
    Associated (scanMembers core build hHandleQueue w scan).2.eventQueue := by
  induction hHandleQueue generalizing w scan with
  | nil => exact h
  | cons g hHandleQueue ih =>
    unfold scanMembers
    split
    · rename_i hgo
      apply ih
      intro el hel
      rcases visit_elements hel with hel | ⟨hassoc, -⟩
      · exact h el hel
      · rw [hassoc]
        exact hgo.1
    · exact h

end Scan

/-- With nobody else in between `PollEvent` comes back, and takes the messages up to and with
the first decisive one out of the pipe, or all of them if there is none. The queue that it is
given has no element without a member. -/
theorem poll_event_takes (core : Core) (build : Build) :
    (∀ hHandleQueue w pipeFile, Associated
      (scanMembers core build hHandleQueue w (.start core pipeFile)).2.eventQueue) ∧
    ∀ (eventQueue : List EventElement) (w : World), Associated eventQueue →
      let polled := w.pollEvent core eventQueue
      (∀ waitSet answer, Reaches (aloneStep core build waitSet answer)
        (w, .pollRead eventQueue) (polled.2, .outside polled.1)) ∧
      (∀ before hEvent after, w.pipe = before ++ hEvent :: after →
        (∀ m ∈ before, ¬ Decisive eventQueue w.signalled m) →
        Decisive eventQueue w.signalled hEvent →
        Decides core eventQueue w hEvent after polled) ∧
      ((∀ m ∈ w.pipe, ¬ Decisive eventQueue w.signalled m) →
        polled = (handleNull, { w with pipe := [] })) := by
  refine ⟨fun hHandleQueue w pipeFile => scan_associated _ w (List.forall_mem_nil _), ?_⟩
  intro eventQueue w hqueue
  refine ⟨fun waitSet answer => pollEvent_alone eventQueue w, ?_, ?_⟩
  · intro before hEvent after hpipe hbefore hdecisive
    simp only [World.pollEvent, hpipe, pollEvent_passes_all core _ hbefore]
    by_cases hnull : hEvent = handleNull
    · subst hnull
      simp only [pollEvent, if_true]
      exact ⟨rfl, fun _ => ⟨rfl, rfl⟩, fun hne => absurd rfl hne⟩
    · obtain ⟨el, hfind, hpolled⟩ := pollEvent_decides core after hqueue hnull hdecisive
      simp only [hpolled]
      exact ⟨rfl, fun h => absurd h hnull, fun _ => ⟨el, hfind, rfl, rfl⟩⟩
  · intro hquiet
    have hempty := pollEvent_passes_all core [] hquiet
    rw [List.append_nil] at hempty
    simp only [World.pollEvent, hempty, pollEvent]

def wakeBehind : World := { fewWaits with signalled := fun _ => true, pipe := [2, 1, 0] }

theorem poll_event_takes_wakeBehind :
    Decides fewHandles [⟨1, 1⟩] wakeBehind 1 [0] (wakeBehind.pollEvent fewHandles [⟨1, 1⟩]) :=
  ((poll_event_takes fewHandles ⟨false, true⟩).2 [⟨1, 1⟩] wakeBehind
    (List.forall_mem_singleton.mpr (by decide))).2.1 [2] 1 [0] rfl
    (by simp [Decisive, handleNull]) (by simp [Decisive, wakeBehind])

end CoreAndroid.Waitset
