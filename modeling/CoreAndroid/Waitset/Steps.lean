import CoreAndroid.Waitset.Selection
import CoreAndroid.Waitset.Waiter
import Mathlib.Computability.StateTransition

/-! The small steps of the wait, taken with nobody else in between, do what
`ofcWaitsetWaitImpl` does in one go. -/
namespace CoreAndroid.Waitset
open Relation (ReflTransGen)
open StateTransition (Reaches)

def aloneStep (core : Core) (build : Build) (waitSet : WaitSet) (answer : PollAnswer)
    (s : World × WaiterPc) : Option (World × WaiterPc) :=
  waiterStep core build waitSet.hHandleQueue waitSet.pipeFile answer s.1 s.2

variable {core : Core} {build : Build} {waitSet : WaitSet} {answer : PollAnswer}
  {s t u : World × WaiterPc}

theorem alone_step (hs : aloneStep core build waitSet answer s = some t)
    (h : Reaches (aloneStep core build waitSet answer) t u) :
    Reaches (aloneStep core build waitSet answer) s u :=
  ReflTransGen.head hs h

theorem alone_last (hs : aloneStep core build waitSet answer s = some t) :
    Reaches (aloneStep core build waitSet answer) s t :=
  ReflTransGen.single hs

theorem purge_alone (w : World) :
    Reaches (aloneStep core build waitSet answer) (w, .purge)
      ({ w with pipe := [] }, .scan 0 (.start core waitSet.pipeFile)) := by
  obtain ⟨signalled, items, waitTime, sockets, pipe⟩ := w
  induction pipe with
  | nil => exact alone_last rfl
  | cons hEvent pipe ih => exact alone_step rfl ih

def Scan.next (scan : Scan) : WaiterPc :=
  if scan.triggeredEvent = handleNull then .poll scan else .outside scan.triggeredEvent

theorem visit_triggered {scan : Scan} {h : Handle} {found : Found}
    (hfound : ∀ resets, found ≠ .ready resets) :
    (scan.visit h found).triggeredEvent = scan.triggeredEvent := by
  cases found with
  | ready resets => exact absurd rfl (hfound resets)
  | timed waitTime =>
    unfold Scan.visit
    dsimp only
    split <;> rfl
  | _ => rfl

theorem visit_world {w : World} {h : Handle} {found : Found}
    (hfound : ∀ resets, found ≠ .ready resets) : w.visit h found = w := by
  cases found with
  | ready resets => exact absurd rfl (hfound resets)
  | _ => rfl

theorem scan_alone {hHandleQueue : List Handle} {place : Nat} {scan : Scan} (w : World)
    (hrest : waitSet.hHandleQueue.drop place = hHandleQueue)
    (hs : scan.triggeredEvent = handleNull) :
    let scanned := scanMembers core build hHandleQueue w scan
    Reaches (aloneStep core build waitSet answer) (w, .scan place scan)
      (scanned.1, scanned.2.next) := by
  induction hHandleQueue generalizing place scan with
  | nil =>
    have hplace : waitSet.hHandleQueue[place]? = none := by rw [← List.head?_drop, hrest]; rfl
    apply alone_last
    simp [aloneStep, waiterStep, hplace, scanMembers, Scan.next, hs]
  | cons h hHandleQueue ih =>
    have hplace : waitSet.hHandleQueue[place]? = some h := by rw [← List.head?_drop, hrest]; rfl
    by_cases hnull : h = handleNull
    · apply alone_last
      simp [aloneStep, waiterStep, hplace, scanMembers, Scan.next, hs, hnull]
    rw [scanMembers, if_pos ⟨hnull, hs⟩]
    by_cases hready : ∃ resets, look core build w h = .ready resets
    · obtain ⟨resets, hlook⟩ := hready
      simp only [hlook]
      rw [scan_stops hHandleQueue hnull]
      cases resets with
      | true =>
        have hfound : aloneStep core build waitSet answer (w, .scan place scan) =
            some (w, .scanReset h) := by
          simp [aloneStep, waiterStep, hplace, hnull, hlook]
        refine alone_step hfound (alone_last ?_)
        simp [aloneStep, waiterStep, Scan.next, Scan.visit, World.visit, hnull]
      | false =>
        apply alone_last
        simp [aloneStep, waiterStep, hplace, hnull, hlook, Scan.next, Scan.visit, World.visit]
    · have hunready : ∀ resets, look core build w h ≠ .ready resets := not_exists.mp hready
      have hfound : aloneStep core build waitSet answer (w, .scan place scan) =
          some (w, .scan (place + 1) (scan.visit h (look core build w h))) := by
        cases hlook : look core build w h with
        | ready resets => exact absurd hlook (hunready resets)
        | _ => simp [aloneStep, waiterStep, hplace, hnull, hlook]
      have hnext : waitSet.hHandleQueue.drop (place + 1) = hHandleQueue := by
        rw [← List.drop_drop, hrest]
        rfl
      simp only [visit_world hunready]
      exact alone_step hfound (ih hnext ((visit_triggered hunready).trans hs))

theorem pollEvent_alone (eventQueue : List EventElement) (w : World) :
    let polled := w.pollEvent core eventQueue
    Reaches (aloneStep core build waitSet answer) (w, .pollRead eventQueue)
      (polled.2, .outside polled.1) := by
  obtain ⟨signalled, items, waitTime, sockets, pipe⟩ := w
  induction pipe generalizing signalled with
  | nil => exact alone_last rfl
  | cons hEvent pipe ih =>
    by_cases hnull : hEvent = handleNull
    · apply alone_last
      simp [aloneStep, waiterStep, World.pollEvent, pollEvent, hnull]
    cases hfind : eventQueue.find? fun eventElement => eventElement.hEvent = hEvent with
    | none =>
      have hread : aloneStep core build waitSet answer
          (⟨signalled, items, waitTime, sockets, hEvent :: pipe⟩, .pollRead eventQueue) =
          some (⟨signalled, items, waitTime, sockets, pipe⟩, .pollRead eventQueue) := by
        simp [aloneStep, waiterStep, hnull, hfind]
      have hrest := alone_step hread (ih signalled)
      simpa [World.pollEvent, pollEvent, hnull, hfind] using hrest
    | some el =>
      have hel : el.hEvent = hEvent := by simpa using List.find?_some hfind
      have hread : aloneStep core build waitSet answer
          (⟨signalled, items, waitTime, sockets, hEvent :: pipe⟩, .pollRead eventQueue) =
          some (⟨signalled, items, waitTime, sockets, pipe⟩, .pollTest eventQueue el) := by
        simp [aloneStep, waiterStep, hnull, hfind]
      -- an element that names no handle does not end the loop
      have hafter : ∀ after : Handle → Bool,
          let polled := if el.hAssoc = handleNull then pollEvent core eventQueue pipe after
            else (el.hAssoc, pipe, after)
          Reaches (aloneStep core build waitSet answer)
            (⟨after, items, waitTime, sockets, pipe⟩, afterElement eventQueue el)
            (⟨polled.2.2, items, waitTime, sockets, polled.2.1⟩, .outside polled.1) := by
        intro after
        by_cases hassoc : el.hAssoc = handleNull
        · simpa [afterElement, hassoc, World.pollEvent] using ih after
        · simp only [afterElement, hassoc, if_false]
          exact ReflTransGen.refl
      apply alone_step hread
      by_cases hsignalled : signalled hEvent = true
      · by_cases hauto : core.eventType hEvent = .auto
        · have htest : aloneStep core build waitSet answer
              (⟨signalled, items, waitTime, sockets, pipe⟩, .pollTest eventQueue el) =
              some (⟨signalled, items, waitTime, sockets, pipe⟩, .pollReset eventQueue el) := by
            simp [aloneStep, waiterStep, hel, hsignalled, hauto]
          have hreset : aloneStep core build waitSet answer
              (⟨signalled, items, waitTime, sockets, pipe⟩, .pollReset eventQueue el) =
              some (⟨Function.update signalled hEvent false, items, waitTime, sockets, pipe⟩,
                afterElement eventQueue el) := by
            simp [aloneStep, waiterStep, World.reset, hel]
          have hrest := alone_step htest (alone_step hreset (hafter _))
          simpa [World.pollEvent, pollEvent, hnull, hfind, hsignalled, hauto] using hrest
        · have htest : aloneStep core build waitSet answer
              (⟨signalled, items, waitTime, sockets, pipe⟩, .pollTest eventQueue el) =
              some (⟨signalled, items, waitTime, sockets, pipe⟩, afterElement eventQueue el) := by
            simp [aloneStep, waiterStep, hel, hsignalled, hauto]
          have hrest := alone_step htest (hafter signalled)
          simpa [World.pollEvent, pollEvent, hnull, hfind, hsignalled, hauto] using hrest
      · have htest : aloneStep core build waitSet answer
            (⟨signalled, items, waitTime, sockets, pipe⟩, .pollTest eventQueue el) =
            some (⟨signalled, items, waitTime, sockets, pipe⟩, .pollRead eventQueue) := by
          simp [aloneStep, waiterStep, hel, hsignalled]
        have hrest := alone_step htest (ih signalled)
        simpa [World.pollEvent, pollEvent, hnull, hfind, hsignalled] using hrest

theorem poll_alone {scan : Scan} {outcome : PollOutcome}
    (hanswer : answer = ⟨outcome.pollCount, outcome.revents⟩)
    (hfits : answer.fits outcome.world = true) :
    let polled := afterPoll core scan outcome
    Reaches (aloneStep core build waitSet answer) (outcome.world, .poll scan)
      (polled.2, .outside polled.1) := by
  subst hanswer
  intro polled
  cases hread : readPoll scan outcome.pollCount outcome.revents with
  | returns h =>
    apply alone_last
    simp [aloneStep, waiterStep, hfits, hread, polled, afterPoll]
  | pipe =>
    have hpipe : aloneStep core build waitSet ⟨outcome.pollCount, outcome.revents⟩
        (outcome.world, .poll scan) = some (outcome.world, .pollRead scan.eventQueue) := by
      simp [aloneStep, waiterStep, hfits, hread]
    have hpolled : polled = outcome.world.pollEvent core scan.eventQueue := by
      simp [polled, afterPoll, hread]
    rw [hpolled]
    exact alone_step hpipe (pollEvent_alone _ _)
  | reported h revents =>
    apply alone_last
    simp [aloneStep, waiterStep, hfits, hread, polled, afterPoll]

/-- The call is what its steps do by themselves: up to its return if a member is ready, or
up to the poll, and from there on in the world that the poll leaves. -/
theorem wait_alone (core : Core) (build : Build) (waitSet : WaitSet)
    (poll : List PollFd → Int → World → PollOutcome) (w : World) (last : Handle) :
    let waited := ofcWaitsetWaitImpl core build (some waitSet) poll w
    match waited.polled with
    | none => ∀ answer, Reaches (aloneStep core build waitSet answer)
        (w, .outside last) (waited.world, .outside waited.triggeredEvent)
    | some (entries, timeout) =>
        ∃ (w' : World) (scan : Scan),
          scan.androidHandleList = entries ∧ scan.leastWait = timeout ∧
          (∀ answer, Reaches (aloneStep core build waitSet answer)
            (w, .outside last) (w', .poll scan)) ∧
          let outcome := poll entries timeout w'
          let answer : PollAnswer := ⟨outcome.pollCount, outcome.revents⟩
          answer.fits outcome.world = true → Reaches (aloneStep core build waitSet answer)
            (outcome.world, .poll scan) (waited.world, .outside waited.triggeredEvent) := by
  intro waited
  have hscan : ∀ answer, Reaches (aloneStep core build waitSet answer) (w, .outside last)
      (let scanned := scanMembers core build waitSet.hHandleQueue { w with pipe := [] }
        (.start core waitSet.pipeFile)
      (scanned.1, scanned.2.next)) := fun answer =>
    alone_step rfl ((purge_alone w).trans (scan_alone _ rfl rfl))
  dsimp only [waited, ofcWaitsetWaitImpl, waitAfterScan]
  generalize scanMembers core build waitSet.hHandleQueue { w with pipe := [] }
    (.start core waitSet.pipeFile) = scanned at hscan
  obtain ⟨w', scan⟩ := scanned
  by_cases hs : scan.triggeredEvent = handleNull
  · rw [if_pos hs]
    refine ⟨w', scan, rfl, rfl, ?_, fun hfits => poll_alone rfl hfits⟩
    intro answer
    simpa only [Scan.next, if_pos hs] using hscan answer
  · rw [if_neg hs]
    intro answer
    simpa only [Scan.next, if_neg hs] using hscan answer

end CoreAndroid.Waitset
