import CoreAndroid.Lib.Machine
import CoreAndroid.Waitset.Waiter

/-! One thread that waits on a set, and any number of threads that signal, fill and add
its members. The mutex of an event only takes interleavings away, so it is left out. -/
namespace CoreAndroid.Waitset

/-- The system of the set: what the calls ask the core library, the build, the reading end
of the pipe and how many handles the pipe holds. -/
structure Config where
  core : Core
  build : Build
  pipeFile : Int
  capacity : Nat

structure Shared where
  world : World
  hHandleQueue : List Handle
  hasSet : Handle → Bool -- `ofc_handle_get_wait_set` of the event is this set

inductive Op where
  | set (hEvent : Handle)
  | reset (hEvent : Handle)
  | test (hEvent : Handle)
  | wake
  | put (hWaitQ : Handle) -- put an item in a wait queue and set its event
  | add (h : Handle) -- enqueue a handle on `hHandleQueue` and call `ofc_waitset_add_impl`

inductive Pc where
  | idle
  | setStore (hEvent : Handle)
  | setGetWaitSet (hEvent : Handle)
  | setSignal (hEvent : Handle)
  | setUnlock (hEvent : Handle)
  | resetStore (hEvent : Handle)
  | testRead (hEvent : Handle)
  | wakeSignal
  | addSetApp (h hAssoc : Handle)
  | addTest (h hAssoc : Handle)
  | addSignal (h hAssoc : Handle)
  deriving DecidableEq, Repr

def World.set (w : World) (hEvent : Handle) : World :=
  { w with signalled := Function.update w.signalled hEvent true }

def World.put (w : World) (hWaitQ : Handle) : World :=
  { w with items := Function.update w.items hWaitQ (w.items hWaitQ + 1) }

def Shared.signal (capacity : Nat) (s : Shared) (hEvent : Handle) : Shared :=
  { s with world := { s.world with pipe := ofcWaitsetSignalImpl capacity hEvent s.world.pipe } }

variable (config : Config)

def enter (s : Shared) : Op → Shared × Pc
  | .set hEvent => (s, .setStore hEvent)
  | .reset hEvent => (s, .resetStore hEvent)
  | .test hEvent => (s, .testRead hEvent)
  | .wake => (s, .wakeSignal)
  | .put hWaitQ =>
      ({ s with world := s.world.put hWaitQ }, .setStore (config.core.waitqEvent hWaitQ))
  | .add h =>
      ({ s with hHandleQueue := s.hHandleQueue ++ [h] },
        match addAssoc config.core config.build h with
        | some hAssoc => .addSetApp h hAssoc
        | none => .idle)

/-- The statements of `ofc_event_set_impl`, `ofc_event_reset_impl`, `ofc_event_test_impl`,
`ofc_waitset_wake_impl` and `ofc_waitset_add_impl`. -/
def exec (s : Shared) : Pc → Shared × Pc
  | .idle => (s, .idle)
  | .setStore hEvent => ({ s with world := s.world.set hEvent }, .setGetWaitSet hEvent)
  | .setGetWaitSet hEvent =>
      (s, if s.hasSet hEvent then .setSignal hEvent else .setUnlock hEvent)
  | .setSignal hEvent => (s.signal config.capacity hEvent, .setUnlock hEvent)
  | .setUnlock _ => (s, .idle)
  | .resetStore hEvent => ({ s with world := s.world.reset hEvent }, .idle)
  | .testRead _ => (s, .idle)
  | .wakeSignal => (s.signal config.capacity handleNull, .idle)
  | .addSetApp h hAssoc =>
      ({ s with hasSet := Function.update s.hasSet hAssoc true }, .addTest h hAssoc)
  | .addTest h hAssoc =>
      (s, if addTest config.core s.world h hAssoc then .addSignal h hAssoc else .idle)
  | .addSignal _ hAssoc => (s.signal config.capacity hAssoc, .idle)

variable (Tid : Type)

structure State where
  shared : Shared
  waiter : WaiterPc
  thread : Tid → Pc

inductive Action where
  | wait (answer : PollAnswer) -- the next step of the waiting thread
  | call (t : Tid) (op : Op)
  | run (t : Tid)
  | take (hWaitQ : Handle) -- someone takes an item off a wait queue
  -- time passes, and something happens to the sockets
  | pass (waitTime : Handle → Int) (sockets : Socket.Sockets)

variable {Tid} [DecidableEq Tid]

def step (s : State Tid) : Action Tid → Option (State Tid)
  | .wait answer =>
      (waiterStep config.core config.build s.shared.hHandleQueue config.pipeFile answer
        s.shared.world s.waiter).map fun (w, pc) =>
          { s with shared := { s.shared with world := w }, waiter := pc }
  | .call t op =>
      if s.thread t = .idle then
        let (shared, pc) := enter config s.shared op
        some { s with shared := shared, thread := Function.update s.thread t pc }
      else none
  | .run t =>
      if s.thread t = .idle then none
      else
        let (shared, pc) := exec config s.shared (s.thread t)
        some { s with shared := shared, thread := Function.update s.thread t pc }
  | .take hWaitQ =>
      let w := s.shared.world
      some { s with shared := { s.shared with
        world := { w with items := Function.update w.items hWaitQ (w.items hWaitQ - 1) } } }
  | .pass waitTime sockets =>
      some { s with shared := { s.shared with
        world := { s.shared.world with waitTime := waitTime, sockets := sockets } } }

def BacksQueue (hEvent : Handle) : Prop :=
  ∃ h b, backing config.core config.build h = some b ∧ b.queue ≠ none ∧ b.event = hEvent

/-- A new wait set: it has no member, its pipe is empty and nobody is in a call. The wait
queue of an SMB overlapped has its event set if it has items. -/
structure Created (s : State Tid) : Prop where
  members : s.shared.hHandleQueue = []
  pipe : s.shared.world.pipe = []
  waiter : s.waiter = .outside handleNull
  thread : s.thread = fun _ => .idle
  queues : ∀ o, config.core.handleType o = .fssmbOverlapped →
    s.shared.world.items (config.core.overlappedWaitQ o) ≠ 0 →
      s.shared.world.signalled (config.core.waitqEvent (config.core.overlappedWaitQ o)) = true

def system : Machine (State Tid) (Action Tid) where
  init := Created config
  step := step config

def OnQueue (q h : Handle) : Prop :=
  ∃ b, backing config.core config.build h = some b ∧ b.queue = some q

def Represented (s : Shared) (q : Handle) : Prop := ∃ h ∈ s.hHandleQueue, OnQueue config q h

def Respects (q h : Handle) : Prop :=
  ∀ b, backing config.core config.build h = some b → b.event = config.core.waitqEvent q →
    b.queue = some q

/-- Other threads reset only events that back no wait queue, add no null handle, and put items
in wait queues of members. Items may also come before the queue is a member's; then, if
it is the queue of an SMB overlapped, its event is not a member by itself. -/
def Allowed (s : State Tid) : Action Tid → Prop
  | .call _ (.reset hEvent) => ¬ BacksQueue config hEvent
  | .call _ (.put hWaitQ) => ∀ o, config.core.handleType o = .fssmbOverlapped →
      config.core.overlappedWaitQ o = hWaitQ →
        Represented config s.shared hWaitQ ∨ ∀ h ∈ s.shared.hHandleQueue, Respects config hWaitQ h
  | .call _ (.add h) => h ≠ handleNull ∧ ∀ o, config.core.handleType o = .fssmbOverlapped →
      s.shared.world.items (config.core.overlappedWaitQ o) ≠ 0 →
        Represented config s.shared (config.core.overlappedWaitQ o) ∨
          Respects config (config.core.overlappedWaitQ o) h
  | _ => True

/-- What the set relies on in the core library: the event that an SMB overlapped is known
by is that of its wait queue. -/
structure Standard : Prop where
  overlapped : ∀ h, config.core.handleType h = .fssmbOverlapped →
    config.core.overlappedEvent h = config.core.waitqEvent (config.core.overlappedWaitQ h)

end CoreAndroid.Waitset
