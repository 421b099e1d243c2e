import CoreAndroid.Waitset.Report

/-! The calls of a wait to the socket functions that find an implementation and set its events.
The scan makes the first kind for each socket it looks at; after the poll both kinds are made
for the entry that reported, whatever member it belongs to. -/
namespace CoreAndroid.Waitset

section Calls
variable (core : Core) (build : Build)

inductive SocketCall where
  | getImpl (hSocket : Handle) -- `ofc_socket_get_impl`
  | setEvent (androidHandle : Handle) (revents : UInt16) -- `ofc_socket_impl_set_event`
  deriving DecidableEq, Repr

def lookCalls (h : Handle) : List SocketCall :=
  match core.handleType h with
  | .socket => [.getImpl h]
  | _ => []

/-- The calls of the loop over `hHandleQueue`. -/
def scanCalls : List Handle → World → Scan → List SocketCall
  | [], _, _ => []
  | h :: hHandleQueue, w, scan =>
      if h ≠ handleNull ∧ scan.triggeredEvent = handleNull then
        let found := look core build w h
        lookCalls core h ++ scanCalls hHandleQueue (w.visit h found) (scan.visit h found)
      else []

def afterPollCalls (scan : Scan) (outcome : PollOutcome) : List SocketCall :=
  match readPoll scan outcome.pollCount outcome.revents with
  | .reported h revents => [.getImpl h, .setEvent (core.socketImpl h) revents]
  | _ => []

def waitCalls (waitSet : WaitSet) (poll : List PollFd → Int → World → PollOutcome) (w : World) :
    List SocketCall :=
  let start := Scan.start core waitSet.pipeFile
  let w := { w with pipe := [] }
  let scanned := scanMembers core build waitSet.hHandleQueue w start
  scanCalls core build waitSet.hHandleQueue w start ++
    if scanned.2.triggeredEvent = handleNull then
      afterPollCalls core scanned.2
        (poll scanned.2.androidHandleList scanned.2.leastWait scanned.1)
    else []

/-- Implementations are asked for sockets only, and events set on the implementation of the
socket whose entry reported. -/
structure SocketsOnly (reported : Option (Handle × UInt16)) (calls : List SocketCall) :
    Prop where
  looked : ∀ h, .getImpl h ∈ calls → core.handleType h = .socket
  set : ∀ androidHandle revents, .setEvent androidHandle revents ∈ calls →
    ∃ h, reported = some (h, revents) ∧ core.handleType h = .socket ∧
      androidHandle = core.socketImpl h

end Calls

section Agree
variable {core : Core} {build : Build} {f : Handle → Handle}

theorem mem_lookCalls {h : Handle} {call : SocketCall} :
    call ∈ lookCalls core h ↔ core.handleType h = .socket ∧ call = .getImpl h := by
  unfold lookCalls
  split
  · rename_i hsocket
    simp [hsocket]
  · rename_i hother
    simp only [List.not_mem_nil, false_iff, not_and]
    intro hsocket
    exact absurd hsocket hother

theorem look_agree {w : World} {h : Handle}
    (hagree : .getImpl h ∈ lookCalls core h → f h = core.socketImpl h) :
    look { core with socketImpl := f } build w h = look core build w h := by
  by_cases hsocket : core.handleType h = .socket
  · have himpl := hagree (mem_lookCalls.mpr ⟨hsocket, rfl⟩)
    simp only [look, hsocket, himpl]
  · unfold look
    dsimp only
    split <;> first | rfl | contradiction

theorem scan_agree {hHandleQueue : List Handle} {w : World} {scan : Scan}
    (hagree : ∀ h, .getImpl h ∈ scanCalls core build hHandleQueue w scan →
      f h = core.socketImpl h) :
    scanMembers { core with socketImpl := f } build hHandleQueue w scan =
      scanMembers core build hHandleQueue w scan := by
  induction hHandleQueue generalizing w scan with
  | nil => rfl
  | cons h hHandleQueue ih =>
    unfold scanMembers
    unfold scanCalls at hagree
    split at hagree
    · rename_i hgo
      have hlook : look { core with socketImpl := f } build w h = look core build w h :=
        look_agree fun hcall => hagree h (List.mem_append_left _ hcall)
      rw [if_pos hgo, if_pos hgo, hlook]
      exact ih fun g hg => hagree g (List.mem_append_right _ hg)
    · rename_i hstop
      rw [if_neg hstop, if_neg hstop]

theorem pollEvent_agree (eventQueue : List EventElement) (pipe : List Handle)
    (signalled : Handle → Bool) :
    pollEvent { core with socketImpl := f } eventQueue pipe signalled =
      pollEvent core eventQueue pipe signalled := by
  induction pipe generalizing signalled with
  | nil => rfl
  | cons hEvent pipe ih => simp only [pollEvent, ih]

theorem afterPoll_agree {scan : Scan} {outcome : PollOutcome}
    (hagree : ∀ h, .getImpl h ∈ afterPollCalls core scan outcome → f h = core.socketImpl h) :
    afterPoll { core with socketImpl := f } scan outcome = afterPoll core scan outcome := by
  unfold afterPollCalls at hagree
  unfold afterPoll
  split
  · rfl
  · simp only [World.pollEvent, pollEvent_agree]
  · rename_i h revents hread
    rw [hread] at hagree
    have himpl := hagree h List.mem_cons_self
    simp only [World.setEvent, himpl]

theorem wait_agree {waitSet : WaitSet} {poll : List PollFd → Int → World → PollOutcome} {w : World}
    (hagree : ∀ h, .getImpl h ∈ waitCalls core build waitSet poll w → f h = core.socketImpl h) :
    ofcWaitsetWaitImpl { core with socketImpl := f } build (some waitSet) poll w =
      ofcWaitsetWaitImpl core build (some waitSet) poll w := by
  have hstart : Scan.start { core with socketImpl := f } waitSet.pipeFile =
      Scan.start core waitSet.pipeFile := rfl
  unfold waitCalls at hagree
  dsimp only [ofcWaitsetWaitImpl, waitAfterScan] at hagree ⊢
  rw [hstart, scan_agree fun h hh => hagree h (List.mem_append_left _ hh)]
  split
  · rename_i htriggered
    rw [if_pos htriggered] at hagree
    rw [afterPoll_agree fun h hh => hagree h (List.mem_append_right _ hh)]
  · rfl

end Agree

section Sockets
variable {core : Core} {build : Build} {waitSet : WaitSet} {w : World}
  {poll : List PollFd → Int → World → PollOutcome}

theorem scanCalls_sockets {hHandleQueue : List Handle} {w : World} {scan : Scan}
    {call : SocketCall} (hcall : call ∈ scanCalls core build hHandleQueue w scan) :
    ∃ h, call = .getImpl h ∧ core.handleType h = .socket := by
  induction hHandleQueue generalizing w scan with
  | nil => cases hcall
  | cons h hHandleQueue ih =>
    unfold scanCalls at hcall
    split at hcall
    · rcases List.mem_append.mp hcall with hhere | hrest
      · obtain ⟨hsocket, rfl⟩ := mem_lookCalls.mp hhere
        exact ⟨h, rfl, hsocket⟩
      · exact ih hrest
    · cases hcall

theorem polled_type {h : Handle} (hpolled : (pollEntry core build w h).isSome) :
    core.handleType h = .socket ∨ core.handleType h = .file := by
  unfold pollEntry at hpolled
  split at hpolled
  · rename_i hsocket
    exact .inl hsocket
  · rename_i hfile
    exact .inr hfile
  · cases hpolled

theorem firstReport_mem {members : List Handle} {outcome : PollOutcome} {h : Handle}
    {revents : UInt16} (hfirst : firstReport members outcome = some (h, revents)) :
    h ∈ members := by
  unfold firstReport at hfirst
  obtain ⟨-, hfirst⟩ := Option.ite_none_right_eq_some.mp hfirst
  obtain ⟨i, -, hi⟩ := Option.bind_eq_some_iff.mp hfirst
  obtain ⟨g, hg, hpair⟩ := Option.map_eq_some_iff.mp hi
  cases hpair
  exact List.mem_of_getElem? hg

theorem reportedEntry_type {h : Handle} {revents : UInt16}
    (hentry : reportedEntry core build waitSet poll w = some (h, revents)) :
    core.handleType h = .socket ∨ core.handleType h = .file := by
  obtain ⟨-, hfirst⟩ := Option.ite_none_right_eq_some.mp hentry
  exact polled_type (List.mem_filter.mp (firstReport_mem hfirst)).2

theorem afterPollCalls_unready (outcome : PollOutcome) :
    afterPollCalls core (.unready core build waitSet w) outcome =
      match firstReport (polledMembers core build w waitSet.live.hHandleQueue) outcome with
      | some (h, revents) => [.getImpl h, .setEvent (core.socketImpl h) revents]
      | none => [] := by
  unfold afterPollCalls
  cases hfirst : firstReport (polledMembers core build w waitSet.live.hHandleQueue) outcome with
  | some report => rw [(unready_reported_iff _).mpr hfirst]
  | none =>
    split
    · rename_i hread
      rw [(unready_reported_iff _).mp hread] at hfirst
      cases hfirst
    · rfl

theorem waitCalls_eq :
    waitCalls core build waitSet poll w =
      scanCalls core build waitSet.hHandleQueue { w with pipe := [] }
          (.start core waitSet.pipeFile) ++
        match reportedEntry core build waitSet poll w with
        | some (h, revents) => [.getImpl h, .setEvent (core.socketImpl h) revents]
        | none => [] := by
  unfold waitCalls reportedEntry
  dsimp only
  congr 1
  by_cases hunready : ∀ h ∈ waitSet.live.hHandleQueue, readyAtScan core build w h = false
  · rw [scan_live_unready hunready, if_pos hunready]
    exact (if_pos rfl).trans (afterPollCalls_unready _)
  · obtain ⟨h, hne, -, rfl⟩ := scan_live_ready hunready
    rw [if_neg hne, if_neg hunready]

theorem mem_waitCalls {call : SocketCall} (hcall : call ∈ waitCalls core build waitSet poll w) :
    (∃ h, call = .getImpl h ∧ core.handleType h = .socket) ∨
      ∃ h revents, reportedEntry core build waitSet poll w = some (h, revents) ∧
        (call = .getImpl h ∨ call = .setEvent (core.socketImpl h) revents) := by
  rw [waitCalls_eq] at hcall
  rcases List.mem_append.mp hcall with hscan | hafter
  · exact .inl (scanCalls_sockets hscan)
  · right
    cases hentry : reportedEntry core build waitSet poll w with
    | none =>
      rw [hentry] at hafter
      cases hafter
    | some report =>
      rw [hentry] at hafter
      exact ⟨report.1, report.2, rfl, by simpa using hafter⟩

/-- A wait keeps to sockets exactly if the entry that the kernel reports first, if the wait
comes to take it up, is not a file's. -/
theorem sockets_only_iff (core : Core) (build : Build) (waitSet : WaitSet)
    (poll : List PollFd → Int → World → PollOutcome) (w : World) :
    SocketsOnly core (reportedEntry core build waitSet poll w)
        (waitCalls core build waitSet poll w) ↔
      ¬ ∃ h revents, reportedEntry core build waitSet poll w = some (h, revents) ∧
        core.handleType h = .file := by
  constructor
  · rintro honly ⟨h, revents, hentry, hfile⟩
    have hsocket := honly.looked h (by simp [waitCalls_eq, hentry])
    rw [hfile] at hsocket
    cases hsocket
  · intro hnofile
    have hreported : ∀ h revents, reportedEntry core build waitSet poll w = some (h, revents) →
        core.handleType h = .socket := by
      intro h revents hentry
      exact (reportedEntry_type hentry).resolve_right fun hfile =>
        hnofile ⟨h, revents, hentry, hfile⟩
    constructor
    · intro h hcall
      rcases mem_waitCalls hcall with ⟨g, hg, hsocket⟩ | ⟨g, revents, hentry, hg | hg⟩
      · cases hg
        exact hsocket
      · cases hg
        exact hreported h revents hentry
      · cases hg
    · intro androidHandle revents hcall
      rcases mem_waitCalls hcall with ⟨g, hg, -⟩ | ⟨g, bits, hentry, hg | hg⟩
      · cases hg
      · cases hg
      · cases hg
        exact ⟨g, hentry, hreported g revents hentry, rfl⟩

end Sockets

def fileMember : WaitSet := ⟨[5], 9⟩

theorem file_taken_for_socket :
    let poll := fun (_ : List PollFd) (_ : Int) w => reports pollnval w
    (ofcWaitsetWaitImpl fewHandles ⟨false, true⟩ (some fileMember) poll fewWaits).polled =
        some ([⟨9, pollin, 0⟩, ⟨5, 0, 0⟩], 1000) ∧
      KernelAnswers [⟨9, pollin, 0⟩, ⟨5, 0, 0⟩] (reports pollnval fewWaits) ∧
      .getImpl 5 ∈ waitCalls fewHandles ⟨false, true⟩ fileMember poll fewWaits ∧
      fewHandles.handleType 5 = .file ∧
      ¬ SocketsOnly fewHandles (reportedEntry fewHandles ⟨false, true⟩ fileMember poll fewWaits)
        (waitCalls fewHandles ⟨false, true⟩ fileMember poll fewWaits) := by
  intro poll
  have hcall : .getImpl 5 ∈ waitCalls fewHandles ⟨false, true⟩ fileMember poll fewWaits := by
    decide
  refine ⟨rfl, reports_answers fewWaits (by decide) (by decide) rfl, hcall, rfl, ?_⟩
  intro honly
  cases honly.looked 5 hcall

end CoreAndroid.Waitset
