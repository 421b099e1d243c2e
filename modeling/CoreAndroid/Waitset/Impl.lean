import CoreAndroid.Event
import CoreAndroid.Lib.Walk
import CoreAndroid.Socket.Impl

/-! The wait of waitset_android.c: the scan of the members, the poll, and the reading of
the pipe. Here a call runs by itself; what other threads do while it is blocked is part of
the outcome of the poll. -/
namespace CoreAndroid.Waitset
open Event (EventType)
open Socket (Sockets ofcSocketImplGetEvent ofcSocketImplGetFd ofcSocketImplSetEvent)

inductive HandleType where
  | waitSet | sched | app | thread | pipe | mailslot | fswin32File | fsandroidFile | queue
  | waitQueue | file | socket | fsresolverOverlapped | fsandroidOverlapped | fssmbOverlapped
  | event | timer | other
  deriving DecidableEq, Repr

structure Build where
  resolverFs : Bool
  fsAndroid : Bool
  deriving DecidableEq, Repr

/-- The functions of the core library that the wait set asks about handles. -/
structure Core where
  handleType : Handle → HandleType -- `ofc_handle_get_type`
  waitqEvent : Handle → Handle -- `ofc_waitq_get_event_handle`
  overlappedWaitQ : Handle → Handle -- `OfcFileGetOverlappedWaitQ`
  overlappedEvent : Handle → Handle -- `OfcFileGetOverlappedEvent`
  resolverOverlappedEvent : Handle → Handle -- `ofc_android_get_resolver_overlapped_event`
  androidOverlappedEvent : Handle → Handle -- `OfcFSAndroidGetOverlappedEvent`
  fileIsAndroid : Handle → Bool -- `OfcFileGetFSType` is `OFC_FST_ANDROID`
  fileFsHandle : Handle → Handle -- `OfcFileGetFSHandle`
  androidFd : Handle → Int -- `OfcFSAndroidGetFD`
  socketImpl : Handle → Handle -- `ofc_socket_get_impl`
  eventType : Handle → EventType -- `ofc_event_get_type`
  maxSchedWait : Int -- `OFC_MAX_SCHED_WAIT`

structure World where
  signalled : Handle → Bool -- `ofc_event_test`
  items : Handle → Nat -- the lengths of the wait queues
  waitTime : Handle → Int -- `ofc_timer_get_wait_time`
  sockets : Sockets
  pipe : List Handle -- the handles in the pipe of the wait set, the oldest first

def World.waitqEmpty (w : World) (q : Handle) : Bool := w.items q = 0

def World.reset (w : World) (hEvent : Handle) : World :=
  { w with signalled := Function.update w.signalled hEvent false }

structure EventElement where
  hEvent : Handle
  hAssoc : Handle
  deriving DecidableEq, Repr

structure PollFd where
  fd : Int
  events : UInt16
  revents : UInt16
  deriving DecidableEq, Repr

section Scan

inductive Found where
  | nothing
  | ready (resets : Bool) -- something to report; an AUTO event is to be reset
  | waiting (hEvent : Handle) -- not ready, but a message about the event will tell
  | polled (fd : Int) (events : UInt16)
  | timed (waitTime : Int)
  deriving DecidableEq, Repr

def lookQueue (core : Core) (w : World) (q : Handle) : Found :=
  if !w.waitqEmpty q then .ready false else .waiting (core.waitqEvent q)

def lookEvent (w : World) (hEvent : Handle) : Found :=
  if w.signalled hEvent then .ready false else .waiting hEvent

/-- The switch over the type of a member. -/
def look (core : Core) (build : Build) (w : World) (h : Handle) : Found :=
  match core.handleType h with
  | .waitQueue => lookQueue core w h
  | .file =>
      if build.fsAndroid && core.fileIsAndroid h
      then .polled (core.androidFd (core.fileFsHandle h)) 0
      else .nothing
  | .socket =>
      let androidHandle := core.socketImpl h
      .polled (ofcSocketImplGetFd androidHandle w.sockets).1
        (ofcSocketImplGetEvent androidHandle w.sockets).1
  | .fsresolverOverlapped =>
      if build.resolverFs then lookEvent w (core.resolverOverlappedEvent h) else .nothing
  | .fsandroidOverlapped =>
      if build.fsAndroid then lookEvent w (core.androidOverlappedEvent h) else .nothing
  | .fssmbOverlapped => lookQueue core w (core.overlappedWaitQ h)
  | .event => if w.signalled h then .ready (core.eventType h = .auto) else .waiting h
  | .timer => if w.waitTime h = 0 then .ready false else .timed (w.waitTime h)
  | .waitSet | .sched | .app | .thread | .pipe | .mailslot | .fswin32File | .fsandroidFile
  | .queue | .other => .nothing

structure Scan where
  triggeredEvent : Handle
  eventQueue : List EventElement
  androidHandleList : List PollFd
  ofcHandleList : List Handle
  leastWait : Int
  timerEvent : Handle

def pollin : UInt16 := Socket.pollin

def Scan.start (core : Core) (pipeFile : Int) : Scan where
  triggeredEvent := handleNull
  eventQueue := []
  androidHandleList := [⟨pipeFile, pollin, 0⟩]
  ofcHandleList := [handleNull]
  leastWait := core.maxSchedWait
  timerEvent := handleNull

def Scan.visit (scan : Scan) (h : Handle) : Found → Scan
  | .nothing => scan
  | .ready _ => { scan with triggeredEvent := h }
  | .waiting hEvent => { scan with eventQueue := scan.eventQueue ++ [⟨hEvent, h⟩] }
  | .polled fd events =>
      { scan with
        androidHandleList := scan.androidHandleList ++ [⟨fd, events, 0⟩]
        ofcHandleList := scan.ofcHandleList ++ [h] }
  | .timed waitTime =>
      if waitTime < scan.leastWait
      then { scan with leastWait := waitTime, timerEvent := h }
      else scan

def World.visit (w : World) (h : Handle) : Found → World
  | .ready true => w.reset h
  | _ => w

/-- What `ofc_queue_first` and `ofc_queue_next` return for `hHandleQueue`: the loop holds its
place in the queue as a handle. -/
structure HandleQueue where
  first : Handle
  next : Handle → Handle

/-- They go through these members, and null follows the last. -/
def HandleQueue.Enumerates (queue : HandleQueue) (hHandleQueue : List Handle) : Prop :=
  Walks queue.next handleNull queue.first hHandleQueue

def Scan.triggered (scan : World × Scan) : Bool := scan.2.triggeredEvent ≠ handleNull

def visitMember (core : Core) (build : Build) (h : Handle) : World × Scan → World × Scan
  | (w, scan) =>
      let found := look core build w h
      (w.visit h found, scan.visit h found)

def scanQueue (core : Core) (build : Build) (queue : HandleQueue) (turns : Nat) :
    World × Scan → Option (World × Scan) :=
  walkUntil Scan.triggered (visitMember core build) queue.next handleNull turns queue.first

def scanMembers (core : Core) (build : Build) : List Handle → World → Scan → World × Scan
  | [], w, scan => (w, scan)
  | h :: hHandleQueue, w, scan =>
      if h ≠ handleNull ∧ scan.triggeredEvent = handleNull then
        let found := look core build w h
        scanMembers core build hHandleQueue (w.visit h found) (scan.visit h found)
      else (w, scan)

theorem scanMembers_eq (core : Core) (build : Build) {hHandleQueue : List Handle}
    (hnull : ∀ h ∈ hHandleQueue, h ≠ handleNull) (w : World) (scan : Scan) :
    scanMembers core build hHandleQueue w scan =
      foldUntil Scan.triggered (visitMember core build) hHandleQueue (w, scan) := by
  induction hHandleQueue generalizing w scan with
  | nil => rfl
  | cons h hHandleQueue ih =>
    unfold scanMembers foldUntil
    by_cases hs : scan.triggeredEvent = handleNull
    · rw [if_pos ⟨hnull h List.mem_cons_self, hs⟩, if_neg (by simp [Scan.triggered, hs])]
      exact ih (fun g hg => hnull g (List.mem_cons_of_mem h hg)) _ _
    · rw [if_neg fun hgo => hs hgo.2, if_pos (by simp [Scan.triggered, hs])]

end Scan

section Pipe
variable (core : Core)

/-- `PollEvent` on the messages in the pipe and the flags of the events. -/
def pollEvent (eventQueue : List EventElement) :
    List Handle → (Handle → Bool) → Handle × List Handle × (Handle → Bool)
  | [], signalled => (handleNull, [], signalled)
  | hEvent :: pipe, signalled =>
      if hEvent = handleNull then (handleNull, pipe, signalled)
      else
        match eventQueue.find? fun eventElement => eventElement.hEvent = hEvent with
        | none => pollEvent eventQueue pipe signalled
        | some eventElement =>
            if signalled hEvent then
              let signalled :=
                if core.eventType hEvent = .auto
                then Function.update signalled hEvent false
                else signalled
              if eventElement.hAssoc = handleNull
              then pollEvent eventQueue pipe signalled
              else (eventElement.hAssoc, pipe, signalled)
            else pollEvent eventQueue pipe signalled

def World.pollEvent (w : World) (eventQueue : List EventElement) : Handle × World :=
  let (triggered, pipe, signalled) := Waitset.pollEvent core eventQueue w.pipe w.signalled
  (triggered, { w with pipe := pipe, signalled := signalled })

/-- The most handles the pipe holds; a write beyond that is dropped. -/
def ofcWaitsetSignalImpl (capacity : Nat) (hEvent : Handle) (pipe : List Handle) : List Handle :=
  if pipe.length < capacity then pipe ++ [hEvent] else pipe

theorem signal_ne_nil {capacity : Nat} (hcap : 0 < capacity) (hEvent : Handle)
    (pipe : List Handle) : ofcWaitsetSignalImpl capacity hEvent pipe ≠ [] := by
  unfold ofcWaitsetSignalImpl
  split
  · simp
  · rename_i hfull
    rintro rfl
    exact hfull hcap

def ofcWaitsetWakeImpl (capacity : Nat) (pipe : List Handle) : List Handle :=
  ofcWaitsetSignalImpl capacity handleNull pipe

end Pipe

section Wait

structure PollOutcome where
  pollCount : Int
  revents : Nat → UInt16
  world : World

structure Waited where
  triggeredEvent : Handle
  polled : Option (List PollFd × Int)
  world : World

inductive Polled where
  | returns (h : Handle)
  | pipe -- the pipe has a message
  | reported (h : Handle) (revents : UInt16)

/-- The count, and the first entry of `android_handle_list` that the kernel reported. -/
def readPoll (scan : Scan) (pollCount : Int) (revents : Nat → UInt16) : Polled :=
  if pollCount = 0 ∧ scan.timerEvent ≠ handleNull then .returns scan.timerEvent
  else if pollCount > 0 then
    let androidHandleList :=
      scan.androidHandleList.mapIdx fun i entry => { entry with revents := revents i }
    let waitIndex := androidHandleList.findIdx fun entry => entry.revents ≠ 0
    if waitIndex = 0 then .pipe
    else
      match androidHandleList[waitIndex]?, scan.ofcHandleList[waitIndex]? with
      | some entry, some h => .reported h entry.revents
      | _, _ => .returns handleNull
  else .returns handleNull

theorem readPoll_returns {scan : Scan} {pollCount : Int} {revents : Nat → UInt16} {h : Handle}
    (hread : readPoll scan pollCount revents = .returns h) :
    h = scan.timerEvent ∨ h = handleNull := by
  unfold readPoll at hread
  split at hread
  · cases hread
    exact .inl rfl
  · right
    split at hread
    · dsimp only at hread
      split at hread
      · cases hread
      · split at hread <;> cases hread
        rfl
    · cases hread
      rfl

def World.setEvent (core : Core) (w : World) (h : Handle) (revents : UInt16) : World :=
  { w with sockets := ofcSocketImplSetEvent (core.socketImpl h) revents w.sockets }

def afterPoll (core : Core) (scan : Scan) (outcome : PollOutcome) : Handle × World :=
  match readPoll scan outcome.pollCount outcome.revents with
  | .returns h => (h, outcome.world)
  | .pipe => outcome.world.pollEvent core scan.eventQueue
  | .reported h revents => (h, outcome.world.setEvent core h revents)

structure WaitSet where
  hHandleQueue : List Handle
  pipeFile : Int

section Call
variable (core : Core) (build : Build) (poll : List PollFd → Int → World → PollOutcome)

def waitAfterScan (w : World) (scan : Scan) : Waited :=
  if scan.triggeredEvent = handleNull then
    let (triggeredEvent, world) :=
      afterPoll core scan (poll scan.androidHandleList scan.leastWait w)
    ⟨triggeredEvent, some (scan.androidHandleList, scan.leastWait), world⟩
  else ⟨scan.triggeredEvent, none, w⟩

/-- `ofc_waitset_wait_impl`, given what `ofc_handle_lock` returns: the queue functions on the
members and the reading end of the pipe. -/
def ofcWaitsetWaitQueueImpl (pWaitSet : Option (HandleQueue × Int)) (turns : Nat) (w : World) :
    Option Waited :=
  match pWaitSet with
  | none => some ⟨handleNull, none, w⟩
  | some (hHandleQueue, pipeFile) =>
      -- the purge
      let w := { w with pipe := [] }
      (scanQueue core build hHandleQueue turns (w, .start core pipeFile)).map
        fun (w, scan) => waitAfterScan core poll w scan

end Call

/-- `ofc_waitset_wait_impl` on the members that the queue functions go through. -/
def ofcWaitsetWaitImpl (core : Core) (build : Build) (pWaitSet : Option WaitSet)
    (poll : List PollFd → Int → World → PollOutcome) (w : World) : Waited :=
  match pWaitSet with
  | none => ⟨handleNull, none, w⟩
  | some waitSet =>
      let w := { w with pipe := [] }
      let (w, scan) := scanMembers core build waitSet.hHandleQueue w (.start core waitSet.pipeFile)
      waitAfterScan core poll w scan

section Queue
variable {core : Core} {build : Build} {poll : List PollFd → Int → World → PollOutcome}
  {queue : HandleQueue} {turns : Nat} {w : World}

theorem wait_enumerated {waitSet : WaitSet} (hqueue : queue.Enumerates waitSet.hHandleQueue)
    (hturns : waitSet.hHandleQueue.length < turns) (w : World) :
    ofcWaitsetWaitQueueImpl core build poll (some (queue, waitSet.pipeFile)) turns w =
      some (ofcWaitsetWaitImpl core build (some waitSet) poll w) := by
  unfold ofcWaitsetWaitQueueImpl ofcWaitsetWaitImpl scanQueue
  dsimp only
  rw [hqueue.walkUntil_eq hturns, scanMembers_eq core build hqueue.ne_stop, Option.map_some]

theorem enumerates_of_polled {pipeFile : Int} {waited : Waited}
    (hret : ofcWaitsetWaitQueueImpl core build poll (some (queue, pipeFile)) turns w = some waited)
    (hpolled : waited.polled ≠ none) :
    ∃ hHandleQueue, queue.Enumerates hHandleQueue ∧ hHandleQueue.Nodup ∧
      waited = ofcWaitsetWaitImpl core build (some ⟨hHandleQueue, pipeFile⟩) poll w := by
  obtain ⟨⟨w', scan⟩, hscan, rfl⟩ := Option.map_eq_some_iff.mp hret
  have hnone : Scan.triggered (w', scan) = false := by
    by_contra hfound
    have hne : scan.triggeredEvent ≠ handleNull := by simpa [Scan.triggered] using hfound
    apply hpolled
    dsimp only
    rw [waitAfterScan, if_neg hne]
  obtain ⟨hHandleQueue, hwalks, hfold⟩ := walks_of_walkUntil hscan hnone
  refine ⟨hHandleQueue, hwalks, hwalks.nodup, ?_⟩
  unfold ofcWaitsetWaitImpl
  dsimp only
  rw [scanMembers_eq core build hwalks.ne_stop, ← hfold]

end Queue

end Wait

section Add

def addAssoc (core : Core) (build : Build) (h : Handle) : Option Handle :=
  match core.handleType h with
  | .waitQueue => some (core.waitqEvent h)
  | .event => some h
  | .fsresolverOverlapped =>
      if build.resolverFs then some (core.resolverOverlappedEvent h) else none
  | .fsandroidOverlapped => some (core.androidOverlappedEvent h)
  | .fssmbOverlapped => some (core.overlappedEvent h)
  | .waitSet | .sched | .app | .thread | .pipe | .mailslot | .fswin32File | .fsandroidFile
  | .queue | .other | .file | .socket | .timer => none

def addTest (core : Core) (w : World) (h hAssoc : Handle) : Bool :=
  match core.handleType h with
  | .waitQueue => !w.waitqEmpty h
  | _ => w.signalled hAssoc

end Add

def fewHandles : Core where
  handleType h :=
    if h = 1 then .event else if h ≤ 3 then .timer else if h = 4 then .socket else .file
  waitqEvent := id
  overlappedWaitQ := id
  overlappedEvent := id
  resolverOverlappedEvent := id
  androidOverlappedEvent := id
  fileIsAndroid _ := true
  fileFsHandle := id
  androidFd h := h
  socketImpl := id
  eventType _ := .auto
  maxSchedWait := 1000

def fewWaits : World where
  signalled _ := false
  items _ := 0
  waitTime _ := 20
  sockets := ⟨fun _ => none, fun _ => false⟩
  pipe := []

end CoreAndroid.Waitset
