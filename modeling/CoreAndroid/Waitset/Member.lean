import CoreAndroid.Waitset.Impl

/-! What a member of a wait set stands for: the event and the wait queue behind it, the
descriptor it is polled with, or a time. -/
namespace CoreAndroid.Waitset
open Socket (ofcSocketImplGetEvent ofcSocketImplGetFd)

/-- What is behind an event-backed member: an event that tells about it, and the wait
queue that decides if it is ready, unless the event does. -/
structure Backing where
  event : Handle
  queue : Option Handle
  deriving DecidableEq, Repr

def backing (core : Core) (build : Build) (h : Handle) : Option Backing :=
  match core.handleType h with
  | .waitQueue => some ⟨core.waitqEvent h, some h⟩
  | .fssmbOverlapped =>
      some ⟨core.waitqEvent (core.overlappedWaitQ h), some (core.overlappedWaitQ h)⟩
  | .event => some ⟨h, none⟩
  | .fsresolverOverlapped =>
      if build.resolverFs then some ⟨core.resolverOverlappedEvent h, none⟩ else none
  | .fsandroidOverlapped =>
      if build.fsAndroid then some ⟨core.androidOverlappedEvent h, none⟩ else none
  | _ => none

def Backing.ready (b : Backing) (w : World) : Bool :=
  match b.queue with
  | some q => !w.waitqEmpty q
  | none => w.signalled b.event

def resetsAtScan (core : Core) (h : Handle) : Bool :=
  core.handleType h = .event && core.eventType h = .auto

def isTimer (core : Core) (h : Handle) : Bool := core.handleType h = .timer

def pollEntry (core : Core) (build : Build) (w : World) (h : Handle) : Option PollFd :=
  match core.handleType h with
  | .socket =>
      some ⟨(ofcSocketImplGetFd (core.socketImpl h) w.sockets).1,
        (ofcSocketImplGetEvent (core.socketImpl h) w.sockets).1, 0⟩
  | .file =>
      if build.fsAndroid && core.fileIsAndroid h
      then some ⟨core.androidFd (core.fileFsHandle h), 0, 0⟩
      else none
  | _ => none

variable {core : Core} {build : Build} {w : World} {h : Handle}

theorem look_backed {b : Backing} (hb : backing core build h = some b) :
    look core build w h =
      if b.ready w then .ready (resetsAtScan core h) else .waiting b.event := by
  unfold backing at hb
  unfold look resetsAtScan
  cases htype : core.handleType h with
  | waitQueue | fssmbOverlapped | event =>
    simp only [htype] at hb ⊢
    cases hb
    simp [lookQueue, Backing.ready]
  | fsresolverOverlapped | fsandroidOverlapped =>
    simp only [htype] at hb ⊢
    obtain ⟨hopt, hb⟩ := Option.ite_none_right_eq_some.mp hb
    cases hb
    simp [lookEvent, hopt, Backing.ready]
  | _ =>
    rw [htype] at hb
    cases hb

theorem look_unbacked (hb : backing core build h = none) :
    look core build w h =
      match pollEntry core build w h with
      | some entry => .polled entry.fd entry.events
      | none =>
          if isTimer core h then
            if w.waitTime h = 0 then .ready false else .timed (w.waitTime h)
          else .nothing := by
  unfold backing at hb
  unfold look pollEntry isTimer
  cases htype : core.handleType h with
  | waitQueue | fssmbOverlapped | event =>
    rw [htype] at hb
    cases hb
  | fsresolverOverlapped | fsandroidOverlapped =>
    simp only [htype] at hb ⊢
    simp_all
  | file =>
    dsimp only
    split <;> rfl
  | timer => simp only [decide_true, if_true]
  | _ => rfl

theorem pollEntry_backed {b : Backing} (hb : backing core build h = some b) :
    pollEntry core build w h = none ∧ isTimer core h = false := by
  unfold backing at hb
  unfold pollEntry isTimer
  cases htype : core.handleType h <;> simp_all

theorem pollEntry_timer (ht : isTimer core h = true) : pollEntry core build w h = none := by
  have htype : core.handleType h = .timer := by simpa [isTimer] using ht
  simp [pollEntry, htype]

theorem pollEntry_revents {entry : PollFd} (he : pollEntry core build w h = some entry) :
    entry = ⟨entry.fd, entry.events, 0⟩ := by
  unfold pollEntry at he
  split at he
  · cases he
    rfl
  · obtain ⟨_, he⟩ := Option.ite_none_right_eq_some.mp he
    cases he
    rfl
  · cases he

end CoreAndroid.Waitset
