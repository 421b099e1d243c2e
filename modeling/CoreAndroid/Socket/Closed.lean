import CoreAndroid.Socket.Isolation
import Mathlib.Data.List.Induction

/-! When `ofc_socket_impl_recv` marks a socket closed, over sequences of socket calls,
and when the stream that the socket carries has ended. -/
namespace CoreAndroid.Socket

section Ended

def eintr : Int := 4

def transient (errno : Int) : Bool := errno = eagain || errno = eintr

/-- What the kernel answers to `recv`: the status, and `errno` for a status of -1. -/
abbrev Answer := Int × Int

def endsStream (len : UInt64) (answer : Answer) : Bool :=
  0 < len && (answer.1 = 0 || answer.1 = -1 && !transient answer.2)

inductive Heard where
  | given (h : Handle)
  | received (h : Handle) (len : UInt64) (answer : Answer)

def endedBy (h : Handle) (ended : Bool) : Heard → Bool
  | .given g => g ≠ h && ended
  | .received g len answer => ended || g = h && endsStream len answer

def endedSince (h : Handle) (past : List Heard) : Bool := past.foldl (endedBy h) false

theorem endedSince_append (h : Handle) (past : List Heard) (news : Heard) :
    endedSince h (past ++ [news]) = endedBy h (endedSince h past) news := by
  simp [endedSince]

/-- A read told that the stream of the handle ended, and the handle was not given out
again later. -/
def Ended (h : Handle) (past : List Heard) : Prop :=
  ∃ before len answer later, past = before ++ .received h len answer :: later ∧
    endsStream len answer = true ∧ .given h ∉ later

theorem ended_append {h : Handle} {past : List Heard} {news : Heard} :
    Ended h (past ++ [news]) ↔ Ended h past ∧ news ≠ .given h ∨
      ∃ len answer, news = .received h len answer ∧ endsStream len answer = true := by
  constructor
  · rintro ⟨before, len, answer, later, hpast, hends, hlater⟩
    rcases List.eq_nil_or_concat later with rfl | ⟨later, last, rfl⟩
    · obtain ⟨-, hlast⟩ := List.append_inj' hpast rfl
      injection hlast with hlast
      exact .inr ⟨len, answer, hlast, hends⟩
    · have hsplit : past ++ [news] = (before ++ .received h len answer :: later) ++ [last] := by
        simpa using hpast
      obtain ⟨hpast, hlast⟩ := List.append_inj' hsplit rfl
      injection hlast with hlast
      rw [List.concat_eq_append, List.mem_append, List.mem_singleton, not_or] at hlater
      refine .inl ⟨⟨before, len, answer, later, hpast, hends, hlater.1⟩, ?_⟩
      exact hlast ▸ Ne.symm hlater.2
  · rintro (⟨⟨before, len, answer, later, rfl, hends, hlater⟩, hne⟩ | ⟨len, answer, rfl, hends⟩)
    · refine ⟨before, len, answer, later ++ [news], by simp, hends, ?_⟩
      simp [hlater, Ne.symm hne]
    · exact ⟨past, len, answer, [], rfl, hends, List.not_mem_nil⟩

theorem ended_iff {h : Handle} {past : List Heard} : Ended h past ↔ endedSince h past = true := by
  induction past using List.reverseRecOn with
  | nil => simp [Ended, endedSince]
  | append_singleton past news ih =>
    rw [ended_append, endedSince_append, ih]
    cases news with
    | given g => by_cases hg : g = h <;> simp [endedBy, hg]
    | received g len answer => by_cases hg : g = h <;> simp [endedBy, hg, and_assoc]

def heard (s : System) : Call → List Heard
  | .recv hSocket len recv =>
      (s.impl hSocket).toList.map fun sock =>
        .received hSocket len (recv sock.socket.val (toInt len))
  | call => (given s.toSockets call).toList.map fun new => .given new.1

def Answered (s : System) : Call → Bool
  | .recv hSocket len recv =>
      (s.impl hSocket).all fun sock => -1 ≤ (recv sock.socket.val (toInt len)).1
  | _ => true

def streams : Machine System Call where
  init := Fresh
  step s call := if Answered s call then system.step s call else none

end Ended

section Mark
variable {s t : System} {call : Call} {g h : Handle} {new : SocketImpl}

/-- The answers after which `ofc_socket_impl_recv` marks the socket. -/
def marks (answer : Answer) : Bool := !(answer.1 = -1 && answer.2 = eagain) && answer.1 ≤ 0

theorem recv_sockets {k : Sockets} {len : UInt64} {recv : Int → Int → Int × Int}
    {sock : SocketImpl} (hl : k.impl h = some sock) :
    (ofcSocketImplRecv h len recv k).2 =
      if marks (recv sock.socket.val (toInt len)) then
        k.modify h fun sock => { sock with remoteClosed := .put true }
      else k := by
  simp only [ofcSocketImplRecv, hl, marks]
  obtain ⟨status, errno⟩ := recv sock.socket.val (toInt len)
  by_cases hagain : status = -1 ∧ errno = eagain
  · simp [hagain]
  · by_cases hread : status > 0
    · have hnot : ¬ status ≤ 0 := by omega
      simp [hagain, hread, hnot]
    · have hle : status ≤ 0 := by omega
      have hmark : (!(decide (status = -1) && decide (errno = eagain))) = true := by
        rw [← Bool.decide_and]
        simpa only [Bool.not_eq_true', decide_eq_false_iff_not] using hagain
      simp only [hagain, hread, hle, hmark, if_false, decide_true, Bool.and_true, if_true]

inductive Leaves (s : System) (h : Handle) (new : SocketImpl) : Call → Prop
  | given {call : Call} : heard s call = [.given h] → new.remoteClosed = .put false →
      Leaves s h new call
  | kept {call : Call} {sock : SocketImpl} : s.impl h = some sock →
      new.remoteClosed = sock.remoteClosed →
      (∀ past, endedSince h (past ++ heard s call) = endedSince h past) → Leaves s h new call
  | recv {len : UInt64} {recv : Int → Int → Int × Int} {sock : SocketImpl} :
      s.impl h = some sock →
      (new.remoteClosed =
        if marks (recv sock.socket.val (toInt len)) then .put true else sock.remoteClosed) →
      Leaves s h new (.recv h len recv)

theorem createdSocket_open {family : FamilyType} {socktype : SocketType}
    {mem : Option SocketImpl} {socket : AddressFamily → Style → Protocol → Int}
    {sock : SocketImpl} (hsock : createdSocket family socktype mem socket = some sock) :
    sock.remoteClosed = .put false := by
  cases mem with
  | none => cases hsock
  | some mem =>
    cases family with
    | ip | ipv6 =>
      obtain ⟨-, hsock⟩ := Option.ite_none_left_eq_some.mp hsock
      injection hsock with hsock
      rw [← hsock]

theorem acceptedSocket_open {listener mem : SocketImpl} {accept : Int → Int} {sock : SocketImpl}
    (hsock : acceptedSocket listener mem accept = some sock) : sock.remoteClosed = .put false := by
  obtain ⟨-, hsock⟩ := Option.ite_none_right_eq_some.mp hsock
  injection hsock with hsock
  rw [← hsock]

theorem endedSince_given (hne : g ≠ h) (past : List Heard) :
    endedSince h (past ++ [.given g]) = endedSince h past := by
  simp [endedSince_append, endedBy, hne]

theorem endedSince_received (hne : g ≠ h) (past : List Heard) (len : UInt64) (answer : Answer) :
    endedSince h (past ++ [.received g len answer]) = endedSince h past := by
  simp [endedSince_append, endedBy, hne]

theorem Leaves.of_give {sock : SocketImpl} (hheard : heard s call = [.given g])
    (hopen : sock.remoteClosed = .put false)
    (hnew : Function.update s.impl g (some sock) h = some new) : Leaves s h new call := by
  rcases live_update hnew with ⟨rfl, hgiven⟩ | ⟨hne, hkept⟩
  · injection hgiven with hgiven
    exact .given hheard (hgiven ▸ hopen)
  · exact .kept hkept rfl fun past => hheard ▸ endedSince_given (Ne.symm hne) past

theorem Leaves.of_quiet {sock : SocketImpl} (hheard : heard s call = []) (hl : s.impl h = some sock)
    (hsame : new.remoteClosed = sock.remoteClosed) : Leaves s h new call := by
  refine .kept hl hsame ?_
  intro past
  rw [hheard, List.append_nil]

theorem Leaves.of_write {sock written : SocketImpl} (hheard : heard s call = [])
    (hl : s.impl g = some sock) (hsame : written.remoteClosed = sock.remoteClosed)
    (hnew : Function.update s.impl g (some written) h = some new) : Leaves s h new call := by
  rcases live_update hnew with ⟨rfl, hwritten⟩ | ⟨-, hkept⟩
  · injection hwritten with hwritten
    exact .of_quiet hheard hl (hwritten ▸ hsame)
  · exact .of_quiet hheard hkept rfl

theorem Leaves.of_recv {len : UInt64} {recv : Int → Int → Int × Int}
    (hnew : (perform s (.recv g len recv)).impl h = some new) :
    Leaves s h new (.recv g len recv) := by
  cases hl : s.impl g with
  | none =>
    simp only [perform, ofcSocketImplRecv, hl] at hnew
    exact .of_quiet (by simp [heard, hl]) hnew rfl
  | some sock =>
    simp only [perform, recv_sockets hl] at hnew
    by_cases hg : h = g
    · subst hg
      refine .recv hl ?_
      split at hnew
      case isTrue hmark =>
        simp only [Sockets.modify, hl, Function.update_self, Option.some.injEq] at hnew
        simp [hmark, ← hnew]
      case isFalse hmark =>
        rw [hl] at hnew
        injection hnew with hnew
        rw [if_neg hmark, hnew]
    · have hsame : s.impl h = some new := by
        split at hnew
        · simpa only [Sockets.modify, hl, Function.update_of_ne hg] using hnew
        · exact hnew
      refine .kept hsame rfl ?_
      intro past
      simp only [heard, hl, Option.toList_some, List.map_cons, List.map_nil]
      exact endedSince_received (Ne.symm hg) past len _

theorem leaves (hs : system.step s call = some t) (hnew : t.impl h = some new) :
    Leaves s h new call := by
  obtain ⟨-, ht, he⟩ := step_spec hs
  cases he with
  | create hsock => exact .of_give (by simp [heard, given, hsock]) (createdSocket_open hsock) hnew
  | accept hl hsock =>
    exact .of_give (by simp [heard, given, hl, hsock]) (acceptedSocket_open hsock) hnew
  | close => exact .of_quiet rfl hnew rfl
  | destroy =>
    rcases live_update hnew with ⟨-, hgone⟩ | ⟨-, hkept⟩
    · cases hgone
    · exact .of_quiet rfl hkept rfl
  | recv => exact .of_recv (ht ▸ hnew)
  | enable hl => exact .of_write rfl hl (by rfl) hnew
  | setEvent hl => exact .of_write rfl hl (by rfl) hnew
  | report hnone | nothing hnone =>
    cases call with
    | recv => exact .of_recv (ht ▸ hnew)
    | _ => exact .of_quiet (by simp [heard, hnone]) hnew rfl

end Mark

section History
variable {s t : System × List Heard} {call : Call} {calls : List Call} {h : Handle}

/-- The socket of the handle is marked exactly when its stream has ended, and then the
calls that ask for the mark say so. -/
structure ClosedRight (h : Handle) (s : System × List Heard) : Prop where
  marked : ∀ sock, s.1.impl h = some sock → (sock.remoteClosed.val = true ↔ Ended h s.2)
  unconnected : ∀ sock, s.1.impl h = some sock → Ended h s.2 → ∀ getpeername,
    (ofcSocketImplConnected h getpeername s.1.toSockets).1 = false
  tested : ∀ sock, s.1.impl h = some sock → Ended h s.2 →
    (ofcSocketImplTest h s.1.toSockets).1.close = true

/-- Answers that are taken for the end of the stream and do not tell of it: an interrupted read,
and whatever a read of no bytes gets, `EAGAIN` apart. -/
def misread (len : UInt64) (answer : Answer) : Bool :=
  answer.1 = 0 && len = 0 ||
    answer.1 = -1 && (answer.2 = eintr || len = 0 && answer.2 ≠ eagain)

/-- A read of the socket does not misread its answer before the stream has ended. -/
def TellsEnd (h : Handle) (s : System × List Heard) : Call → Bool
  | .recv g len recv =>
      g ≠ h || (s.1.impl h).all fun sock =>
        endedSince h s.2 || !misread len (recv sock.socket.val (toInt len))
  | _ => true

theorem marks_iff {len : UInt64} {answer : Answer} (hans : -1 ≤ answer.1) :
    marks answer = true ↔ endsStream len answer = true ∨ misread len answer = true := by
  obtain ⟨status, errno⟩ := answer
  have hlen : 0 < len ↔ ¬ len = 0 := by
    rw [UInt64.lt_iff_toNat_lt, ← UInt64.toNat_inj]
    exact Nat.pos_iff_ne_zero
  have herr : eagain ≠ eintr := by decide
  simp only [marks, endsStream, misread, transient, hlen, Bool.and_eq_true,
    Bool.or_eq_true, Bool.not_eq_true', Bool.and_eq_false_iff, Bool.or_eq_false_iff,
    decide_eq_true_eq, decide_eq_false_iff_not] at hans ⊢
  by_cases hzero : len = 0 <;>
    simp only [hzero, not_true, not_false_eq_true, true_and, false_and, and_true, and_false,
      false_or, or_false, ne_eq] <;> omega

theorem not_ends_of_misread {len : UInt64} {answer : Answer} (hmis : misread len answer = true) :
    endsStream len answer = false := by
  by_cases hzero : len = 0
  · simp [endsStream, hzero]
  · simp only [misread, hzero, decide_false, Bool.and_false, Bool.false_and, Bool.or_false,
      Bool.false_or, Bool.and_eq_true, decide_eq_true_eq] at hmis
    simp [endsStream, transient, hmis]

def Marked (h : Handle) (s : System × List Heard) : Prop :=
  ∀ sock, s.1.impl h = some sock → sock.remoteClosed.val = endedSince h s.2

theorem Marked.right (hm : Marked h s) : ClosedRight h s where
  marked sock hl := by
    rw [hm sock hl, ended_iff]
  unconnected sock hl hended getpeername := by
    have hmark : sock.remoteClosed.val = true := (hm sock hl).trans (ended_iff.mp hended)
    simp [ofcSocketImplConnected, Sockets.look, hl, hmark]
  tested sock hl hended := by
    have hmark : sock.remoteClosed.val = true := (hm sock hl).trans (ended_iff.mp hended)
    simp [ofcSocketImplTest, Sockets.look, hl, hmark]

theorem heard_recv {k : System} {len : UInt64} {recv : Int → Int → Int × Int} {sock : SocketImpl}
    (hl : k.impl h = some sock) :
    heard k (.recv h len recv) = [.received h len (recv sock.socket.val (toInt len))] := by
  simp [heard, hl]

theorem endedSince_recv (past : List Heard) (len : UInt64) (answer : Answer) :
    endedSince h (past ++ [.received h len answer]) =
      (endedSince h past || endsStream len answer) := by
  simp [endedSince_append, endedBy]

theorem Marked.step (hm : Marked h s) (htell : TellsEnd h s call = true)
    (hs : (streams.record heard).step s call = some t) : Marked h t := by
  obtain ⟨hstep, hpast⟩ := Machine.record_step hs
  obtain ⟨hans, hstep⟩ := Option.ite_none_right_eq_some.mp hstep
  intro new hnew
  rw [hpast]
  cases leaves hstep hnew with
  | given hheard hopen => simp [hheard, endedSince_append, endedBy, hopen, Cell.put]
  | kept hl hsame hquiet => rw [hquiet, hsame, hm _ hl]
  | @recv len recv sock hl hmark =>
    rw [heard_recv hl, endedSince_recv, hmark]
    simp only [Answered, hl, Option.all_some, decide_eq_true_eq] at hans
    simp only [TellsEnd, hl, ne_eq, not_true, decide_false, Bool.false_or, Option.all_some,
      Bool.or_eq_true, Bool.not_eq_true'] at htell
    have hiff : marks _ = true ↔ endsStream len _ = true ∨ misread len _ = true := marks_iff hans
    split
    case isTrue hmarks =>
      rcases htell with hended | hright
      · simp [Cell.put, hended]
      · have hends : endsStream len (recv sock.socket.val (toInt len)) = true :=
          (hiff.mp hmarks).resolve_right (by simp [hright])
        simp [Cell.put, hends]
    case isFalse hmarks =>
      have hgoes : endsStream len (recv sock.socket.val (toInt len)) = false := by
        simpa using fun hends => hmarks (hiff.mpr (.inl hends))
      rw [hm _ hl, hgoes, Bool.or_false]

theorem not_right_of_misread (hm : Marked h s) (htell : ¬ TellsEnd h s call = true)
    (hs : (streams.record heard).step s call = some t) : ¬ ClosedRight h t := by
  obtain ⟨hstep, hpast⟩ := Machine.record_step hs
  obtain ⟨hans, hstep⟩ := Option.ite_none_right_eq_some.mp hstep
  obtain ⟨-, ht, -⟩ := step_spec hstep
  cases call with
  | recv g len recv =>
    simp only [TellsEnd, ne_eq, Bool.or_eq_true, decide_eq_true_eq, not_or, not_not] at htell
    obtain ⟨rfl, htell⟩ := htell
    cases hl : s.1.impl g with
    | none => simp [hl] at htell
    | some sock =>
      simp only [Answered, hl, Option.all_some, decide_eq_true_eq] at hans
      simp only [hl, Option.all_some, Bool.or_eq_true, Bool.not_eq_true', not_or,
        Bool.not_eq_true, Bool.not_eq_false] at htell
      obtain ⟨hgoing, hmis⟩ := htell
      have hmarks := (marks_iff hans).mpr (.inr hmis)
      have hnew : t.1.impl g = some { sock with remoteClosed := .put true } := by
        simp [ht, perform, recv_sockets hl, hmarks, Sockets.modify, hl]
      intro hright
      have hended := ended_iff.mp ((hright.marked _ hnew).mp rfl)
      rw [hpast, heard_recv hl, endedSince_recv, hgoing, not_ends_of_misread hmis] at hended
      cases hended
  | _ => exact absurd rfl htell

/-- In every state along a run, the socket of the handle is marked exactly when its
stream has ended, if and only if no answer to a read of it was misread. -/
theorem stream_closed_iff (h : Handle) (hs : (streams.record heard).init s)
    (hr : (streams.record heard).run s calls = some t) :
    (streams.record heard).Always (ClosedRight h) s calls ↔
      (streams.record heard).Each (fun s call => TellsEnd h s call = true) s calls := by
  have hfresh : Marked h s := by
    intro sock hl
    rw [hs.1.impl] at hl
    cases hl
  exact Machine.always_iff_each (fun _ => Marked.right) (fun _ _ _ => Marked.step)
    (fun _ _ _ => not_right_of_misread) hfresh hr

theorem noSockets_init : (streams.record heard).init (noSockets, []) := ⟨noSockets_fresh, rfl⟩

def peerLeaves : List Call :=
  [createAt 1 3, .passOn 1, .recv 1 10 fun _ _ => (-1, eagain), .recv 1 10 fun _ _ => (5, 0),
    .recv 1 10 fun _ _ => (0, 0), .recv 1 0 fun _ _ => (0, 0), .test 1]

theorem stream_closed_peerLeaves : ∃ t, (streams.record heard).run (noSockets, []) peerLeaves =
    some t ∧ (t.1.impl 1).map (·.remoteClosed) = some (.put true) ∧
    (streams.record heard).Always (ClosedRight 1) (noSockets, []) peerLeaves := by
  have hrun : ((streams.record heard).runWhere (fun s call => TellsEnd 1 s call = true)
      (noSockets, []) peerLeaves).map (fun t => (t.1.impl 1).map (·.remoteClosed)) =
      some (some (.put true)) := by decide
  obtain ⟨t, ht, hmark⟩ := Option.map_eq_some_iff.mp hrun
  have hr := Machine.run_of_runWhere ht
  have hiff := stream_closed_iff 1 noSockets_init hr
  exact ⟨t, hr, hmark, hiff.mpr (Machine.each_of_runWhere ht)⟩

/-- A read that a signal interrupts marks the socket. -/
theorem interrupted_marked : ¬ ∀ (h : Handle) (s t : System × List Heard) (calls : List Call),
    (streams.record heard).init s → (streams.record heard).run s calls = some t →
    (streams.record heard).Always (ClosedRight h) s calls := by
  intro hall
  have hrun : ((streams.record heard).run (noSockets, [])
      [createAt 1 3, .passOn 1, .recv 1 10 fun _ _ => (-1, eintr)]).map
      (fun t => ((t.1.impl 1).map (·.remoteClosed), endedSince 1 t.2)) =
      some (some (.put true), false) := by decide
  obtain ⟨t, ht, hlast⟩ := Option.map_eq_some_iff.mp hrun
  simp only [Prod.mk.injEq, Option.map_eq_some_iff] at hlast
  obtain ⟨⟨sock, hl, hmark⟩, hgoing⟩ := hlast
  have hright := (hall 1 _ t _ noSockets_init ht).last ht
  have hended := (hright.marked sock hl).mp (by rw [hmark, Cell.put])
  rw [ended_iff, hgoing] at hended
  cases hended

end History

end CoreAndroid.Socket
