import CoreAndroid.Socket.Run
import CoreAndroid.Waitset.Selection
import Mathlib.Data.List.TakeWhile
import Mathlib.Data.Nat.Bitwise

/-! What a wait does with the entry that the poll reports first. The entry is a socket's or an
Android file's, and the kernel sets bits in it that nobody asked for. -/
namespace CoreAndroid.Waitset
open Socket (SocketEvents SocketImpl Sockets ofcSocketImplCreate ofcSocketImplClose
  ofcSocketImplEnable ofcSocketImplGetEvent ofcSocketImplGetFd ofcSocketImplSetEvent
  ofcSocketImplTest eventMask memoryOf pollpri pollout pollerr pollhup)

section Live

def WaitSet.live (waitSet : WaitSet) : WaitSet :=
  { waitSet with hHandleQueue := waitSet.hHandleQueue.takeWhile (· ≠ handleNull) }

theorem WaitSet.live_ne_null {waitSet : WaitSet} :
    ∀ h ∈ waitSet.live.hHandleQueue, h ≠ handleNull := by
  intro h hh
  simpa using List.mem_takeWhile_imp hh

variable {core : Core} {build : Build}

theorem scan_live (hHandleQueue : List Handle) (w : World) (scan : Scan) :
    scanMembers core build (hHandleQueue.takeWhile (· ≠ handleNull)) w scan =
      scanMembers core build hHandleQueue w scan := by
  induction hHandleQueue generalizing w scan with
  | nil => rfl
  | cons h hHandleQueue ih =>
    by_cases hnull : h = handleNull
    · simp [hnull, scanMembers]
    · rw [List.takeWhile_cons_of_pos (by simpa using hnull)]
      simp only [scanMembers, ih]

end Live

section Spec
variable (core : Core) (build : Build) (waitSet : WaitSet)
  (poll : List PollFd → Int → World → PollOutcome) (w : World)

/-- The member that the kernel reported first, with the bits, if the pipe is not reported. -/
def firstReport (members : List Handle) (outcome : PollOutcome) : Option (Handle × UInt16) :=
  if 0 < outcome.pollCount ∧ outcome.revents 0 = 0 then
    ((List.range members.length).find? fun i => outcome.revents (i + 1) ≠ 0).bind fun i =>
      members[i]?.map fun h => (h, outcome.revents (i + 1))
  else none

def pollOutcome : PollOutcome :=
  poll (polledEntries core build w waitSet.live)
    (leastTime core w waitSet.live.hHandleQueue core.maxSchedWait) { w with pipe := [] }

def reportedEntry : Option (Handle × UInt16) :=
  if ∀ h ∈ waitSet.live.hHandleQueue, readyAtScan core build w h = false then
    firstReport (polledMembers core build w waitSet.live.hHandleQueue)
      (pollOutcome core build waitSet poll w)
  else none

def Scan.unready : Scan where
  triggeredEvent := handleNull
  eventQueue := eventElements core build waitSet.live.hHandleQueue
  androidHandleList := polledEntries core build w waitSet.live
  ofcHandleList := handleNull :: polledMembers core build w waitSet.live.hHandleQueue
  leastWait := leastTime core w waitSet.live.hHandleQueue core.maxSchedWait
  timerEvent :=
    rememberedTimer core w waitSet.live.hHandleQueue core.maxSchedWait handleNull

def pollnval : UInt16 := 0x020

/-- The kernel reports what was requested, and the three bits that need no request. It passes
over negative descriptors, and counts the entries with something to report. -/
structure KernelAnswers (entries : List PollFd) (outcome : PollOutcome) : Prop where
  count : outcome.pollCount =
    ((List.range entries.length).countP fun i => outcome.revents i ≠ 0 : Nat)
  bits : ∀ i entry, entries[i]? = some entry →
    outcome.revents i &&& ~~~(entry.events ||| pollerr ||| pollhup ||| pollnval) = 0
  negative : ∀ i entry, entries[i]? = some entry → entry.fd < 0 → outcome.revents i = 0

end Spec

section Taken
variable {core : Core} {build : Build} {waitSet : WaitSet} {w : World}
  {poll : List PollFd → Int → World → PollOutcome} {h : Handle} {revents : UInt16}

theorem scan_live_unready
    (hunready : ∀ h ∈ waitSet.live.hHandleQueue, readyAtScan core build w h = false) :
    scanMembers core build waitSet.hHandleQueue { w with pipe := [] }
        (.start core waitSet.pipeFile) =
      ({ w with pipe := [] }, .unready core build waitSet w) := by
  rw [← scan_live]
  exact scan_unready (w := { w with pipe := [] }) WaitSet.live_ne_null rfl hunready

theorem readPoll_reported_iff {scan : Scan} {first : PollFd} {entries : List PollFd}
    {members : List Handle} (hentries : scan.androidHandleList = first :: entries)
    (hhandles : scan.ofcHandleList = handleNull :: members)
    (hlength : members.length = entries.length) (outcome : PollOutcome) :
    readPoll scan outcome.pollCount outcome.revents = .reported h revents ↔
      firstReport members outcome = some (h, revents) := by
  unfold readPoll firstReport
  by_cases hpos : 0 < outcome.pollCount
  · rw [if_neg fun hzero => hpos.ne' hzero.1, if_pos hpos, hentries, hhandles]
    simp only [List.mapIdx_cons, List.findIdx_cons]
    by_cases hpipe : outcome.revents 0 = 0
    · have hrest := findIdx_reported (fun i => outcome.revents (i + 1)) entries
      simp only [hpipe, ne_eq, not_true_eq_false, decide_false, cond_false, hrest, ← hlength]
      cases hfind : (List.range members.length).find? fun i => outcome.revents (i + 1) ≠ 0 with
      | none => simp [hlength]
      | some i =>
        obtain ⟨-, hrange, -⟩ := List.find?_range_eq_some.mp hfind
        have hi : i < members.length := List.mem_range.mp hrange
        have hi' : i < entries.length := hlength ▸ hi
        simp [hi, hi', hpos]
    · simp [hpipe]
  · have hnone : ¬ (0 < outcome.pollCount ∧ outcome.revents 0 = 0) := fun hgo => hpos hgo.1
    rw [if_neg hnone]
    split <;> simp

theorem unready_reported_iff (outcome : PollOutcome) :
    readPoll (.unready core build waitSet w) outcome.pollCount outcome.revents =
        .reported h revents ↔
      firstReport (polledMembers core build w waitSet.live.hHandleQueue) outcome =
        some (h, revents) :=
  readPoll_reported_iff rfl rfl (polledMembers_length _) outcome

theorem wait_unready (poll : List PollFd → Int → World → PollOutcome)
    (hunready : ∀ h ∈ waitSet.live.hHandleQueue, readyAtScan core build w h = false) :
    let waited := ofcWaitsetWaitImpl core build (some waitSet) poll w
    (waited.triggeredEvent, waited.world) =
      afterPoll core (.unready core build waitSet w) (pollOutcome core build waitSet poll w) := by
  dsimp only [ofcWaitsetWaitImpl, waitAfterScan]
  rw [scan_live_unready hunready]
  rfl

theorem scan_live_ready
    (hready : ¬ ∀ h ∈ waitSet.live.hHandleQueue, readyAtScan core build w h = false) :
    ∃ h, h ≠ handleNull ∧ readyAtScan core build w h = true ∧
      (scanMembers core build waitSet.hHandleQueue { w with pipe := [] }
        (.start core waitSet.pipeFile)).2.triggeredEvent = h := by
  obtain ⟨h, hfind⟩ : ∃ h,
      waitSet.live.hHandleQueue.find? (readyAtScan core build w) = some h := by
    simpa [← Option.isSome_iff_exists] using hready
  refine ⟨h, WaitSet.live_ne_null h (List.mem_of_find?_eq_some hfind), List.find?_some hfind, ?_⟩
  rw [← scan_live]
  exact scan_ready (w := { w with pipe := [] }) WaitSet.live_ne_null rfl hfind

theorem wait_ready (poll : List PollFd → Int → World → PollOutcome)
    (hready : ¬ ∀ h ∈ waitSet.live.hHandleQueue, readyAtScan core build w h = false) :
    readyAtScan core build w
      (ofcWaitsetWaitImpl core build (some waitSet) poll w).triggeredEvent = true := by
  obtain ⟨h, hne, hr, rfl⟩ := scan_live_ready hready
  dsimp only [ofcWaitsetWaitImpl, waitAfterScan]
  rw [if_neg hne]
  exact hr

end Taken

section Socket
variable {core : Core} {build : Build} {waitSet : WaitSet} {w : World}
  {poll : List PollFd → Int → World → PollOutcome} {h : Handle} {revents : UInt16}

theorem backing_ne_socket {b : Backing} (hb : backing core build h = some b) :
    core.handleType h ≠ .socket := by
  intro hsocket
  simp [backing, hsocket] at hb

theorem isTimer_ne_socket (ht : isTimer core h = true) : core.handleType h ≠ .socket := by
  intro hsocket
  simp [isTimer, hsocket] at ht

theorem ready_ne_socket (hr : readyAtScan core build w h = true) :
    core.handleType h ≠ .socket := by
  intro hsocket
  simp [readyAtScan, backing, isTimer, hsocket] at hr

theorem pollEvent_assoc (eventQueue : List EventElement) (pipe : List Handle)
    (signalled : Handle → Bool) (hne : (pollEvent core eventQueue pipe signalled).1 ≠ handleNull) :
    ∃ el ∈ eventQueue, (pollEvent core eventQueue pipe signalled).1 = el.hAssoc := by
  fun_induction pollEvent core eventQueue pipe signalled with
  | case1 | case2 => exact absurd rfl hne
  | case3 _ _ _ _ _ ih | case4 _ _ _ _ _ _ _ _ _ ih | case6 _ _ _ _ _ _ _ ih => exact ih hne
  | case5 _ _ _ _ el hfind => exact ⟨el, List.mem_of_find?_eq_some hfind, rfl⟩

theorem eventElements_ne_socket {hHandleQueue : List Handle} {el : EventElement}
    (hel : el ∈ eventElements core build hHandleQueue) : core.handleType el.hAssoc ≠ .socket := by
  obtain ⟨g, -, hg⟩ := List.mem_filterMap.mp hel
  obtain ⟨b, hb, rfl⟩ := Option.map_eq_some_iff.mp hg
  exact backing_ne_socket hb

theorem rememberedTimer_ne_socket {hHandleQueue : List Handle} {time : Int}
    (hne : rememberedTimer core w hHandleQueue time handleNull ≠ handleNull) :
    core.handleType (rememberedTimer core w hHandleQueue time handleNull) ≠ .socket := by
  unfold rememberedTimer at hne ⊢
  split at hne
  · rename_i hlt
    obtain ⟨g, hg⟩ := Option.isSome_iff_exists.mp (firstTimer_isSome hlt)
    rw [if_pos hlt, hg]
    exact isTimer_ne_socket (List.mem_filter.mp (List.mem_of_find?_eq_some hg)).2
  · exact absurd rfl hne

theorem wait_socket
    (hret : (ofcWaitsetWaitImpl core build (some waitSet) poll w).triggeredEvent = h)
    (hne : h ≠ handleNull) (hsocket : core.handleType h = .socket) :
    ∃ revents, reportedEntry core build waitSet poll w = some (h, revents) ∧
      (ofcWaitsetWaitImpl core build (some waitSet) poll w).world =
        (pollOutcome core build waitSet poll w).world.setEvent core h revents := by
  by_cases hunready : ∀ h ∈ waitSet.live.hHandleQueue, readyAtScan core build w h = false
  · have hwait := Prod.mk.inj (wait_unready poll hunready)
    rw [hret] at hwait
    obtain ⟨hhandle, hworld⟩ := hwait
    cases hread : readPoll (.unready core build waitSet w)
        (pollOutcome core build waitSet poll w).pollCount
        (pollOutcome core build waitSet poll w).revents with
    | returns g =>
      simp only [hread] at hhandle
      subst hhandle
      rcases readPoll_returns hread with rfl | hnull
      · exact absurd hsocket (rememberedTimer_ne_socket hne)
      · exact absurd hnull hne
    | pipe =>
      simp only [hread] at hhandle
      subst hhandle
      obtain ⟨el, hel, hassoc⟩ := pollEvent_assoc _ _ _ hne
      exact absurd (hassoc ▸ hsocket) (eventElements_ne_socket hel)
    | reported g revents =>
      simp only [hread] at hhandle hworld
      subst hhandle
      refine ⟨revents, ?_, hworld⟩
      rw [reportedEntry, if_pos hunready]
      exact (unready_reported_iff _).mp hread
  · have hready := wait_ready poll hunready
    rw [hret] at hready
    exact absurd hsocket (ready_ne_socket hready)

end Socket

section Test
variable {core : Core} {build : Build} {waitSet : WaitSet} {w : World}
  {poll : List PollFd → Int → World → PollOutcome} {h : Handle} {revents : UInt16}

def noEvents : SocketEvents := ⟨false, false, false, false, false, false⟩

/-- What `ofc_socket_impl_test` has a translation for. -/
def Tells (sock : SocketImpl) (revents : UInt16) : Prop :=
  sock.remoteClosed.val = true ∨
    revents &&& (pollin ||| pollpri ||| pollout ||| pollerr ||| pollhup) ≠ 0

theorem and_or_distrib (x y z : UInt16) : x &&& (y ||| z) = x &&& y ||| x &&& z := by
  apply UInt16.eq_of_toBitVec_eq
  simp [BitVec.and_or_distrib_left]

theorem and_or_eq_zero (x y z : UInt16) : x &&& (y ||| z) = 0 ↔ x &&& y = 0 ∧ x &&& z = 0 := by
  rw [and_or_distrib, UInt16.or_eq_zero_iff]

theorem and_pollnval (x : UInt16) : x &&& pollnval = 0 ∨ x &&& pollnval = pollnval := by
  have hbit : (x &&& pollnval).toNat = (x.toNat.testBit 5).toNat * 2 ^ 5 := by
    rw [UInt16.toNat_and]
    exact Nat.and_two_pow x.toNat 5
  cases hset : x.toNat.testBit 5 with
  | false =>
    left
    apply UInt16.toNat_inj.mp
    simp [hbit, hset]
  | true =>
    right
    apply UInt16.toNat_inj.mp
    rw [hbit, hset]
    rfl

theorem test_setEvent_ne_iff (hSocket : Handle) (revents : UInt16) (s : Sockets) :
    (ofcSocketImplTest hSocket (ofcSocketImplSetEvent hSocket revents s)).1 ≠ noEvents ↔
      ∃ sock, s.impl hSocket = some sock ∧ Tells sock revents := by
  unfold ofcSocketImplTest ofcSocketImplSetEvent Sockets.modify Sockets.look Tells
  cases hlive : s.impl hSocket with
  | none => simp [hlive, noEvents]
  | some sock =>
    simp only [Function.update_self, Reading.bind_run, Reading.field_run, Reading.pure_run,
      Cell.put, Option.some.injEq, exists_eq_left']
    cases sock.remoteClosed.val <;> simp [noEvents, and_or_eq_zero, pollin]
    tauto

theorem eventMask_covered (type : SocketEvents) :
    ~~~(eventMask type ||| pollerr ||| pollhup ||| pollnval) &&& ~~~0x3f = ~~~0x3f := by
  obtain ⟨close, accept, addressChange, qos, read, write⟩ := type
  cases close <;> cases accept <;> cases addressChange <;> cases qos <;> cases read <;>
    cases write <;> rfl

theorem tells_iff_valid {sock : SocketImpl} {type : SocketEvents} {revents : UInt16}
    (hbits : revents &&& ~~~(eventMask type ||| pollerr ||| pollhup ||| pollnval) = 0)
    (hne : revents ≠ 0) :
    Tells sock revents ↔ sock.remoteClosed.val = true ∨ revents ≠ pollnval := by
  unfold Tells
  refine or_congr_right ⟨?_, ?_⟩
  · rintro htold rfl
    exact htold rfl
  · intro hvalid htold
    have hrest : revents &&& ~~~0x3f = 0 := by
      rw [← eventMask_covered type, ← UInt16.and_assoc, hbits]
      rfl
    have hall : revents = revents &&& pollnval := by
      calc revents
        _ = revents &&& ((pollin ||| pollpri ||| pollout ||| pollerr ||| pollhup) |||
              (pollnval ||| ~~~0x3f)) := (UInt16.and_neg_one).symm
        _ = revents &&& pollnval := by
            rw [and_or_distrib revents _ (pollnval ||| ~~~0x3f), htold, and_or_distrib, hrest]
            simp
    rcases and_pollnval revents with hnone | honly
    · exact hne (hall.trans hnone)
    · exact hvalid (hall.trans honly)

theorem polledMembers_entry {hHandleQueue : List Handle} {i : Nat}
    (hmember : (polledMembers core build w hHandleQueue)[i]? = some h) :
    (hHandleQueue.filterMap (pollEntry core build w))[i]? = pollEntry core build w h := by
  induction hHandleQueue generalizing i with
  | nil => simp [polledMembers] at hmember
  | cons g hHandleQueue ih =>
    rw [polledMembers_cons] at hmember
    cases hg : pollEntry core build w g with
    | none =>
      rw [List.filterMap_cons_none hg]
      exact ih (by simpa [polledMembers, hg] using hmember)
    | some entry =>
      rw [List.filterMap_cons_some hg]
      cases i with
      | zero =>
        have hsame : g = h := by simpa [polledMembers, hg] using hmember
        rw [← hsame, hg]
        rfl
      | succ i => exact ih (by simpa [polledMembers, hg] using hmember)

theorem reportedEntry_bits
    (hkernel : KernelAnswers (polledEntries core build w waitSet.live)
      (pollOutcome core build waitSet poll w))
    (hsocket : core.handleType h = .socket)
    (hentry : reportedEntry core build waitSet poll w = some (h, revents)) :
    revents ≠ 0 ∧ revents &&& ~~~((ofcSocketImplGetEvent (core.socketImpl h) w.sockets).1 |||
      pollerr ||| pollhup ||| pollnval) = 0 := by
  obtain ⟨-, hreport⟩ := Option.ite_none_right_eq_some.mp hentry
  obtain ⟨-, hreport⟩ := Option.ite_none_right_eq_some.mp hreport
  obtain ⟨i, hfind, hreport⟩ := Option.bind_eq_some_iff.mp hreport
  obtain ⟨g, hmember, hpair⟩ := Option.map_eq_some_iff.mp hreport
  injection hpair with hg hrevents
  subst hg hrevents
  have hentry : (polledEntries core build w waitSet.live)[i + 1]? =
      some ⟨(ofcSocketImplGetFd (core.socketImpl g) w.sockets).1,
        (ofcSocketImplGetEvent (core.socketImpl g) w.sockets).1, 0⟩ := by
    rw [polledEntries, List.getElem?_cons_succ, polledMembers_entry hmember, pollEntry, hsocket]
  have hsome := List.find?_some hfind
  have hbits := hkernel.bits (i + 1) _ hentry
  exact ⟨of_decide_eq_true hsome, hbits⟩

/-- A wait returns a socket that has something to report exactly if its implementation is live
when the poll returns, and the other side has closed or one of the bits is translated. For a mask
that `ofc_socket_impl_enable` made, the one report that is not translated is `POLLNVAL` alone. -/
theorem reported_socket_tells_iff (core : Core) (build : Build) (waitSet : WaitSet)
    (poll : List PollFd → Int → World → PollOutcome) (w : World) (h : Handle)
    (hret : (ofcWaitsetWaitImpl core build (some waitSet) poll w).triggeredEvent = h)
    (hne : h ≠ handleNull) (hsocket : core.handleType h = .socket) :
    let told := (ofcSocketImplTest (core.socketImpl h)
      (ofcWaitsetWaitImpl core build (some waitSet) poll w).world.sockets).1
    (told ≠ noEvents ↔
      ∃ revents sock, reportedEntry core build waitSet poll w = some (h, revents) ∧
        (pollOutcome core build waitSet poll w).world.sockets.impl (core.socketImpl h) =
          some sock ∧ Tells sock revents) ∧
    ∀ type, (ofcSocketImplGetEvent (core.socketImpl h) w.sockets).1 = eventMask type →
      KernelAnswers (polledEntries core build w waitSet.live)
        (pollOutcome core build waitSet poll w) →
      (told ≠ noEvents ↔
        ∃ revents sock, reportedEntry core build waitSet poll w = some (h, revents) ∧
          (pollOutcome core build waitSet poll w).world.sockets.impl (core.socketImpl h) =
            some sock ∧ (sock.remoteClosed.val = true ∨ revents ≠ pollnval)) := by
  intro told
  have htold : told ≠ noEvents ↔
      ∃ revents sock, reportedEntry core build waitSet poll w = some (h, revents) ∧
        (pollOutcome core build waitSet poll w).world.sockets.impl (core.socketImpl h) =
          some sock ∧ Tells sock revents := by
    obtain ⟨revents, hentry, hworld⟩ := wait_socket hret hne hsocket
    dsimp only [told]
    rw [hworld, World.setEvent, test_setEvent_ne_iff, hentry]
    constructor
    · rintro ⟨sock, hlive, htells⟩
      exact ⟨revents, sock, rfl, hlive, htells⟩
    · rintro ⟨revents', sock, hsame, hlive, htells⟩
      cases hsame
      exact ⟨sock, hlive, htells⟩
  refine ⟨htold, fun type hmask hkernel => htold.trans ?_⟩
  refine exists₂_congr fun revents sock => and_congr_right fun hentry => and_congr_right fun _ => ?_
  obtain ⟨hsome, hbits⟩ := reportedEntry_bits hkernel hsocket hentry
  exact tells_iff_valid (hmask ▸ hbits) hsome

end Test

def readingMember : World :=
  { fewWaits with
    sockets := (ofcSocketImplEnable 4 ⟨false, false, false, false, true, false⟩
      (ofcSocketImplCreate .ip .stream (some (memoryOf 0)) (fun _ _ _ => 7) 4
        fewWaits.sockets).2).2 }

def closedMember : World :=
  { readingMember with sockets := (ofcSocketImplClose 4 readingMember.sockets).2 }

def oneMember : WaitSet := ⟨[4], 9⟩

def reports (revents : UInt16) (w : World) : PollOutcome :=
  ⟨1, fun i => if i = 1 then revents else 0, w⟩

theorem reports_answers {fd : Int} {events revents : UInt16} (w : World) (hfd : 0 ≤ fd)
    (hne : revents ≠ 0)
    (hbits : revents &&& ~~~(events ||| pollerr ||| pollhup ||| pollnval) = 0) :
    KernelAnswers [⟨9, pollin, 0⟩, ⟨fd, events, 0⟩] (reports revents w) := by
  constructor
  · simp [reports, List.range_succ, hne]
  · intro i entry hentry
    match i with
    | 0 => simp [reports]
    | 1 =>
      cases hentry
      exact hbits
    | _ + 2 => cases hentry
  · intro i entry hentry hneg
    match i with
    | 0 => rfl
    | 1 =>
      cases hentry
      exact absurd hneg (not_lt.mpr hfd)
    | _ + 2 => cases hentry

theorem reported_socket_tells_read :
    (ofcSocketImplTest 4 (ofcWaitsetWaitImpl fewHandles ⟨false, true⟩ (some oneMember)
      (fun _ _ w => reports pollin w) readingMember).world.sockets).1 ≠ noEvents :=
  (reported_socket_tells_iff fewHandles ⟨false, true⟩ oneMember (fun _ _ w => reports pollin w)
    readingMember 4 (by decide) (by decide) rfl).1.mpr
    ⟨pollin, _, by decide, rfl, .inr (by decide)⟩

/-- The kernel finds the descriptor closed, and the wait returns the socket with no event. -/
theorem closed_socket_tells_nothing :
    let waited := ofcWaitsetWaitImpl fewHandles ⟨false, true⟩ (some oneMember)
      (fun _ _ w => reports pollnval w) closedMember
    waited.polled = some ([⟨9, pollin, 0⟩, ⟨7, pollin, 0⟩], 1000) ∧
      KernelAnswers [⟨9, pollin, 0⟩, ⟨7, pollin, 0⟩] (reports pollnval closedMember) ∧
      waited.triggeredEvent = 4 ∧ fewHandles.handleType 4 = .socket ∧
      (ofcSocketImplTest (fewHandles.socketImpl 4) waited.world.sockets).1 = noEvents := by
  exact ⟨rfl, reports_answers closedMember (by decide) (by decide) rfl, by decide, rfl, by decide⟩

end CoreAndroid.Waitset
