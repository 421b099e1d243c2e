import CoreAndroid.Lib.Machine
import CoreAndroid.Socket.Impl

/-! Sequences of socket calls on any number of handles, and what each call can do. -/
namespace CoreAndroid.Socket
open Reading

inductive Call where
  | create (family : FamilyType) (socktype : SocketType) (mem : Option SocketImpl)
      (socket : AddressFamily → Style → Protocol → Int) (hNew : Handle)
  | accept (hSocket : Handle) (mem : SocketImpl) (accept : Int → Int) (hNew : Handle)
  | close (hSocket : Handle)
  | destroy (hSocket : Handle)
  | recv (hSocket : Handle) (len : UInt64) (recv : Int → Int → Int × Int)
  | enable (hSocket : Handle) (type : SocketEvents)
  | setEvent (hSocket : Handle) (revents : UInt16)
  | getEvent (hSocket : Handle)
  | getFd (hSocket : Handle)
  | test (hSocket : Handle)
  | connected (hSocket : Handle) (getpeername : Int → Int)
  -- `bind`, `connect`, `listen`, `send` and the other calls that only pass the descriptor number
  -- on to the kernel
  | passOn (hSocket : Handle)

inductive Report where
  | event (hSocket : Handle) (events : UInt16)
  | fd (hSocket : Handle) (fd : Int)
  | test (hSocket : Handle) (events : SocketEvents)
  | connected (hSocket : Handle) (ret : Bool)
  deriving DecidableEq

inductive Deed where
  | created (h : Handle)
  | accepted (h : Handle)
  | closed (h : Handle)
  | enabled (h : Handle)
  | eventSet (h : Handle)
  deriving DecidableEq

structure System extends Sockets where
  past : List Deed -- what was done so far, the latest first
  reports : List Report
  unset : Nat -- reads so far, by the reporting calls, of fields that no call had written

/-- The handle was closed after it was last given out. -/
def closedSince (h : Handle) : List Deed → Bool
  | [] => false
  | .closed g :: past => g = h || closedSince h past
  | .created g :: past | .accepted g :: past => g ≠ h && closedSince h past
  | _ :: past => closedSince h past

/-- The handle was created, or its events were enabled after it was accepted. -/
def enabledSince (h : Handle) : List Deed → Bool
  | [] => false
  | .enabled g :: past | .created g :: past => g = h || enabledSince h past
  | .accepted g :: past => g ≠ h && enabledSince h past
  | _ :: past => enabledSince h past

def eventSetSince (h : Handle) : List Deed → Bool
  | [] => false
  | .eventSet g :: past | .created g :: past => g = h || eventSetSince h past
  | .accepted g :: past => g ≠ h && eventSetSince h past
  | _ :: past => eventSetSince h past

def given (s : Sockets) : Call → Option (Handle × SocketImpl)
  | .create family socktype mem socket hNew =>
      (createdSocket family socktype mem socket).map (hNew, ·)
  | .accept hSocket mem accept hNew =>
      (s.impl hSocket).bind fun sock => (acceptedSocket sock mem accept).map (hNew, ·)
  | _ => none

/-- A new handle is not in use, and the kernel hands out a descriptor that is not open. That
`ofc_handle_create` gives a handle at all is assumed: the source does not look at its answer. -/
def Grantable (s : Sockets) (call : Call) : Bool :=
  (given s call).all fun (h, sock) =>
    h ≠ handleNull && (s.impl h).isNone && 0 ≤ sock.socket.val && !s.opened sock.socket.val

def System.report (s : System) {α : Type} (answer : α × Nat) (report : α → Report) : System :=
  { s with reports := report answer.1 :: s.reports, unset := s.unset + answer.2 }

def System.note (s : System) (h : Handle) (deed : Handle → Deed) : List Deed :=
  if (s.impl h).isSome then deed h :: s.past else s.past

def System.noteNew (s : System) (h : Handle) (deed : Handle → Deed) : List Deed :=
  if h = handleNull then s.past else deed h :: s.past

def perform (s : System) : Call → System
  | .create family socktype mem socket hNew =>
      let (h, k) := ofcSocketImplCreate family socktype mem socket hNew s.toSockets
      { s with toSockets := k, past := s.noteNew h .created }
  | .accept hSocket mem accept hNew =>
      let (h, k) := ofcSocketImplAccept hSocket mem accept hNew s.toSockets
      { s with toSockets := k, past := s.noteNew h .accepted }
  | .close hSocket =>
      { s with
        toSockets := (ofcSocketImplClose hSocket s.toSockets).2
        past := s.note hSocket .closed }
  | .destroy hSocket => { s with toSockets := ofcSocketImplDestroy hSocket s.toSockets }
  | .recv hSocket len recv =>
      { s with toSockets := (ofcSocketImplRecv hSocket len recv s.toSockets).2 }
  | .enable hSocket type =>
      { s with
        toSockets := (ofcSocketImplEnable hSocket type s.toSockets).2
        past := s.note hSocket .enabled }
  | .setEvent hSocket revents =>
      { s with
        toSockets := ofcSocketImplSetEvent hSocket revents s.toSockets
        past := s.note hSocket .eventSet }
  | .getEvent hSocket => s.report (ofcSocketImplGetEvent hSocket s.toSockets) (.event hSocket)
  | .getFd hSocket => s.report (ofcSocketImplGetFd hSocket s.toSockets) (.fd hSocket)
  | .test hSocket => s.report (ofcSocketImplTest hSocket s.toSockets) (.test hSocket)
  | .connected hSocket getpeername =>
      s.report (ofcSocketImplConnected hSocket getpeername s.toSockets) (.connected hSocket)
  | .passOn _ => s

structure Fresh (s : System) : Prop where
  impl : s.impl = fun _ => none
  past : s.past = []
  reports : s.reports = []
  unset : s.unset = 0

def noSockets : System := ⟨⟨fun _ => none, fun _ => false⟩, [], [], 0⟩

theorem noSockets_fresh : Fresh noSockets := ⟨rfl, rfl, rfl, rfl⟩

def memoryOf (content : UInt16) : SocketImpl :=
  ⟨.junk 0, .junk .ip, .junk content, .junk content, .junk .ip, .junk 0, .junk in6addrAny,
    .junk false⟩

def system : Machine System Call where
  init := Fresh
  step s call := if Grantable s.toSockets call then some (perform s call) else none

/-- Reads of unset fields by a call. -/
def unsetReads (s : Sockets) : Call → Nat
  | .getEvent hSocket => (ofcSocketImplGetEvent hSocket s).2
  | .getFd hSocket => (ofcSocketImplGetFd hSocket s).2
  | .test hSocket => (ofcSocketImplTest hSocket s).2
  | .connected hSocket getpeername => (ofcSocketImplConnected hSocket getpeername s).2
  | _ => 0

inductive Effect (s : System) : Call → System → Prop
  | create {family socktype mem socket h sock} :
      createdSocket family socktype mem socket = some sock →
      Effect s (.create family socktype mem socket h)
        { s with toSockets := s.give h sock, past := .created h :: s.past }
  | accept {g listener mem accept h sock} : s.impl g = some listener →
      acceptedSocket listener mem accept = some sock →
      Effect s (.accept g mem accept h)
        { s with toSockets := s.give h sock, past := .accepted h :: s.past }
  | close {h sock} : s.impl h = some sock →
      Effect s (.close h)
        { s with
          opened := Function.update s.opened sock.socket.val false
          past := .closed h :: s.past }
  | destroy {h sock} : s.impl h = some sock →
      Effect s (.destroy h) { s with impl := Function.update s.impl h none }
  | recv {h len recv sock} : s.impl h = some sock →
      Effect s (.recv h len recv)
        { s with impl := Function.update s.impl h (some { sock with remoteClosed := .put true }) }
  | enable {h type sock} : s.impl h = some sock →
      Effect s (.enable h type)
        { s with
          impl := Function.update s.impl h (some { sock with events := .put (eventMask type) })
          past := .enabled h :: s.past }
  | setEvent {h revents sock} : s.impl h = some sock →
      Effect s (.setEvent h revents)
        { s with
          impl := Function.update s.impl h (some { sock with revents := .put revents })
          past := .eventSet h :: s.past }
  | report {call report} : given s.toSockets call = none →
      Effect s call { s with
        reports := report :: s.reports
        unset := s.unset + unsetReads s.toSockets call }
  | nothing {call} :
      given s.toSockets call = none → unsetReads s.toSockets call = 0 → Effect s call s

theorem note_some {s : System} {h : Handle} {sock : SocketImpl} (hl : s.impl h = some sock)
    (deed : Handle → Deed) : s.note h deed = deed h :: s.past := by
  simp [System.note, hl]

theorem note_none {s : System} {h : Handle} (hl : s.impl h = none) (deed : Handle → Deed) :
    s.note h deed = s.past := by
  simp [System.note, hl]

theorem effect_perform {s : System} {call : Call} (hg : Grantable s.toSockets call = true) :
    Effect s call (perform s call) := by
  cases call with
  | create family socktype mem socket hNew =>
    cases hsock : createdSocket family socktype mem socket with
    | none =>
      have hnone : perform s (.create family socktype mem socket hNew) = s := by
        simp [perform, ofcSocketImplCreate, hsock, System.noteNew]
      rw [hnone]
      exact .nothing (by simp [given, hsock]) rfl
    | some sock =>
      have hnew : hNew ≠ handleNull := by
        simp [Grantable, given, hsock] at hg
        exact hg.1.1.1
      simp only [perform, ofcSocketImplCreate, hsock, System.noteNew, hnew, if_false]
      exact .create hsock
  | accept g mem accept hNew =>
    cases hl : s.impl g with
    | none =>
      have hnone : perform s (.accept g mem accept hNew) = s := by
        simp [perform, ofcSocketImplAccept, hl, System.noteNew]
      rw [hnone]
      exact .nothing (by simp [given, hl]) rfl
    | some listener =>
      cases hsock : acceptedSocket listener mem accept with
      | none =>
        have hnone : perform s (.accept g mem accept hNew) = s := by
          simp [perform, ofcSocketImplAccept, hl, hsock, System.noteNew]
        rw [hnone]
        exact .nothing (by simp [given, hl, hsock]) rfl
      | some sock =>
        have hnew : hNew ≠ handleNull := by
          simp [Grantable, given, hl, hsock] at hg
          exact hg.1.1.1
        simp only [perform, ofcSocketImplAccept, hl, hsock, System.noteNew, hnew, if_false]
        exact .accept hl hsock
  | close h =>
    cases hl : s.impl h with
    | none =>
      simp only [perform, ofcSocketImplClose, hl, note_none hl]
      exact .nothing rfl rfl
    | some sock =>
      simp only [perform, ofcSocketImplClose, hl, note_some hl]
      exact .close hl
  | destroy h =>
    cases hl : s.impl h with
    | none =>
      simp only [perform, ofcSocketImplDestroy, hl]
      exact .nothing rfl rfl
    | some sock =>
      simp only [perform, ofcSocketImplDestroy, hl]
      exact .destroy hl
  | recv h len recv =>
    cases hl : s.impl h with
    | none =>
      simp only [perform, ofcSocketImplRecv, hl]
      exact .nothing rfl rfl
    | some sock =>
      simp only [perform, ofcSocketImplRecv, Sockets.modify, hl]
      split
      · exact .nothing rfl rfl
      · split
        · exact .nothing rfl rfl
        · exact .recv hl
  | enable h type =>
    cases hl : s.impl h with
    | none =>
      simp only [perform, ofcSocketImplEnable, Sockets.modify, hl, note_none hl]
      exact .nothing rfl rfl
    | some sock =>
      simp only [perform, ofcSocketImplEnable, Sockets.modify, hl, note_some hl]
      exact .enable hl
  | setEvent h revents =>
    cases hl : s.impl h with
    | none =>
      simp only [perform, ofcSocketImplSetEvent, Sockets.modify, hl, note_none hl]
      exact .nothing rfl rfl
    | some sock =>
      simp only [perform, ofcSocketImplSetEvent, Sockets.modify, hl, note_some hl]
      exact .setEvent hl
  | getEvent h | getFd h | test h | connected h getpeername => exact .report rfl
  | passOn h => exact .nothing rfl rfl

theorem step_spec {s t : System} {call : Call} (h : system.step s call = some t) :
    Grantable s.toSockets call = true ∧ t = perform s call ∧ Effect s call t := by
  obtain ⟨hg, ht⟩ := Option.ite_none_right_eq_some.mp h
  injection ht with ht
  subst ht
  exact ⟨hg, rfl, effect_perform hg⟩

theorem live_update {impl : Handle → Option SocketImpl} {g h : Handle} {new : Option SocketImpl}
    {sock : SocketImpl} (hl : Function.update impl g new h = some sock) :
    h = g ∧ new = some sock ∨ h ≠ g ∧ impl h = some sock := by
  by_cases hg : h = g
  · subst hg
    rw [Function.update_self] at hl
    exact .inl ⟨rfl, hl⟩
  · rw [Function.update_of_ne hg] at hl
    exact .inr ⟨hg, hl⟩

theorem Grantable.given {s : Sockets} {call : Call} {h : Handle} {sock : SocketImpl}
    (hg : Grantable s call = true) (hgiven : given s call = some (h, sock)) :
    s.impl h = none ∧ s.opened sock.socket.val = false := by
  simp only [Grantable, hgiven, Option.all_some, Bool.and_eq_true, Bool.not_eq_true',
    Option.isNone_iff_eq_none] at hg
  exact ⟨hg.1.1.2, hg.2⟩

end CoreAndroid.Socket
