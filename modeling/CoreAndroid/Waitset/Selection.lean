import CoreAndroid.Waitset.Member

/-! Which handle a wait returns. The specification names it from the whole queue; the
wait finds it in one pass with two arrays and a running minimum. -/
namespace CoreAndroid.Waitset

section Spec
variable (core : Core) (build : Build)

def readyAtScan (w : World) (h : Handle) : Bool :=
  match backing core build h with
  | some b => b.ready w
  | none => isTimer core h && w.waitTime h = 0

def leastTime (w : World) (hHandleQueue : List Handle) (time : Int) : Int :=
  ((hHandleQueue.filter (isTimer core)).map w.waitTime).foldl min time

def firstTimer (w : World) (hHandleQueue : List Handle) (time : Int) : Option Handle :=
  (hHandleQueue.filter (isTimer core)).find? fun h => w.waitTime h = time

def eventElements (hHandleQueue : List Handle) : List EventElement :=
  hHandleQueue.filterMap fun h => (backing core build h).map fun b => ⟨b.event, h⟩

def polledMembers (w : World) (hHandleQueue : List Handle) : List Handle :=
  hHandleQueue.filter fun h => (pollEntry core build w h).isSome

def polledEntries (w : World) (waitSet : WaitSet) : List PollFd :=
  ⟨waitSet.pipeFile, pollin, 0⟩ :: waitSet.hHandleQueue.filterMap (pollEntry core build w)

/-- The handle for an outcome of the poll. -/
def selected (w : World) (hHandleQueue : List Handle) (outcome : PollOutcome) : Handle :=
  if outcome.pollCount < 0 then handleNull
  else if outcome.pollCount = 0 then
    let least := leastTime core w hHandleQueue core.maxSchedWait
    if least < core.maxSchedWait then (firstTimer core w hHandleQueue least).getD handleNull
    else handleNull
  else if outcome.revents 0 ≠ 0 then
    (pollEvent core (eventElements core build hHandleQueue) outcome.world.pipe
      outcome.world.signalled).1
  else
    let members := polledMembers core build w hHandleQueue
    ((List.range members.length).find? fun i => outcome.revents (i + 1) ≠ 0).elim handleNull
      fun i => members.getD i handleNull

/-- The first member that is ready at the scan is returned, without a poll. If there is none the
pipe and the polled members are polled with the least time as timeout, and what the outcome
selects is returned. -/
def Selects (waitSet : WaitSet) (poll : List PollFd → Int → World → PollOutcome) (w : World)
    (waited : Waited) : Prop :=
  match waitSet.hHandleQueue.find? (readyAtScan core build w) with
  | some h => waited.triggeredEvent = h ∧ waited.polled = none
  | none =>
      let polled := polledEntries core build w waitSet
      let timeout := leastTime core w waitSet.hHandleQueue core.maxSchedWait
      waited.polled = some (polled, timeout) ∧
        waited.triggeredEvent = selected core build w waitSet.hHandleQueue
          (poll polled timeout { w with pipe := [] })

end Spec

variable {core : Core} {build : Build} {w : World}

theorem look_ready {h : Handle} (hr : readyAtScan core build w h = true) :
    ∃ resets, look core build w h = .ready resets := by
  unfold readyAtScan at hr
  cases hb : backing core build h with
  | some b =>
    rw [hb] at hr
    exact ⟨_, by rw [look_backed hb, if_pos hr]⟩
  | none =>
    simp only [hb, Bool.and_eq_true, decide_eq_true_eq] at hr
    exact ⟨false, by simp [look_unbacked hb, pollEntry_timer hr.1, hr.1, hr.2]⟩

theorem visit_unready {h : Handle} (hr : readyAtScan core build w h = false) (scan : Scan) :
    w.visit h (look core build w h) = w ∧
    scan.visit h (look core build w h) =
      { triggeredEvent := scan.triggeredEvent
        eventQueue := scan.eventQueue ++ eventElements core build [h]
        androidHandleList := scan.androidHandleList ++ [h].filterMap (pollEntry core build w)
        ofcHandleList := scan.ofcHandleList ++ polledMembers core build w [h]
        leastWait := leastTime core w [h] scan.leastWait
        timerEvent :=
          if isTimer core h && w.waitTime h < scan.leastWait then h else scan.timerEvent } := by
  unfold readyAtScan at hr
  cases hb : backing core build h with
  | some b =>
    rw [hb] at hr
    obtain ⟨hentry, htimer⟩ := pollEntry_backed (w := w) hb
    simp [look_backed hb, hr, World.visit, Scan.visit, eventElements, polledMembers, leastTime,
      hb, hentry, htimer]
  | none =>
    simp only [hb] at hr
    cases he : pollEntry core build w h with
    | some entry =>
      have htimer : isTimer core h = false := by
        cases ht : isTimer core h with
        | false => rfl
        | true => simp [pollEntry_timer ht] at he
      simp [look_unbacked hb, he, World.visit, Scan.visit, eventElements, polledMembers,
        leastTime, hb, htimer, ← pollEntry_revents he]
    | none =>
      cases ht : isTimer core h with
      | false =>
        simp [look_unbacked hb, he, ht, World.visit, Scan.visit, eventElements, polledMembers,
          leastTime, hb]
      | true =>
        have hne : w.waitTime h ≠ 0 := by simpa [ht] using hr
        by_cases hlt : w.waitTime h < scan.leastWait
        · simp [look_unbacked hb, he, ht, hne, hlt, World.visit, Scan.visit, eventElements,
            polledMembers, leastTime, hb, min_eq_right hlt.le]
        · simp [look_unbacked hb, he, ht, hne, hlt, World.visit, Scan.visit, eventElements,
            polledMembers, leastTime, hb, min_eq_left (not_lt.mp hlt)]

theorem eventElements_cons (h : Handle) (hHandleQueue : List Handle) :
    eventElements core build (h :: hHandleQueue) =
      eventElements core build [h] ++ eventElements core build hHandleQueue :=
  List.filterMap_append (l := [h])

theorem polledMembers_cons (h : Handle) (hHandleQueue : List Handle) :
    polledMembers core build w (h :: hHandleQueue) =
      polledMembers core build w [h] ++ polledMembers core build w hHandleQueue :=
  List.filter_append [h] hHandleQueue

theorem leastTime_cons (h : Handle) (hHandleQueue : List Handle) (time : Int) :
    leastTime core w (h :: hHandleQueue) time =
      leastTime core w hHandleQueue (leastTime core w [h] time) := by
  cases ht : isTimer core h <;> simp [leastTime, ht]

theorem leastTime_single (h : Handle) (time : Int) :
    leastTime core w [h] time = if isTimer core h then min time (w.waitTime h) else time := by
  cases ht : isTimer core h <;> simp [leastTime, ht]

theorem leastTime_le (hHandleQueue : List Handle) (time : Int) :
    leastTime core w hHandleQueue time ≤ time := by
  induction hHandleQueue generalizing time with
  | nil => exact le_refl _
  | cons h hHandleQueue ih =>
    rw [leastTime_cons]
    refine (ih _).trans ?_
    rw [leastTime_single]
    split
    · exact min_le_left _ _
    · exact le_refl _

theorem firstTimer_cons (h : Handle) (hHandleQueue : List Handle) (time : Int) :
    firstTimer core w (h :: hHandleQueue) time =
      if isTimer core h ∧ w.waitTime h = time then some h
      else firstTimer core w hHandleQueue time := by
  cases ht : isTimer core h with
  | false => simp [firstTimer, ht]
  | true => by_cases htime : w.waitTime h = time <;> simp [firstTimer, ht, htime]

/-- The timer that the pass remembers: the first with the least time, if that is below
the time at the start. -/
def rememberedTimer (core : Core) (w : World) (hHandleQueue : List Handle) (time : Int)
    (timer : Handle) : Handle :=
  if leastTime core w hHandleQueue time < time
  then (firstTimer core w hHandleQueue (leastTime core w hHandleQueue time)).getD handleNull
  else timer

theorem rememberedTimer_cons (h : Handle) (hHandleQueue : List Handle) (time : Int)
    (timer : Handle) :
    rememberedTimer core w (h :: hHandleQueue) time timer =
      rememberedTimer core w hHandleQueue (leastTime core w [h] time)
        (if isTimer core h && w.waitTime h < time then h else timer) := by
  have hle : leastTime core w hHandleQueue (leastTime core w [h] time) ≤
      leastTime core w [h] time := leastTime_le _ _
  unfold rememberedTimer
  rw [leastTime_cons, firstTimer_cons]
  generalize leastTime core w hHandleQueue (leastTime core w [h] time) = least at hle ⊢
  rw [leastTime_single] at hle ⊢
  cases ht : isTimer core h with
  | false => simp
  | true =>
    simp only [ht, if_true, true_and, Bool.true_and, decide_eq_true_eq] at hle ⊢
    by_cases hlower : w.waitTime h < time
    · rw [min_eq_right hlower.le] at hle ⊢
      have hbelow : least < time := lt_of_le_of_lt hle hlower
      by_cases heq : w.waitTime h = least
      · simp [heq, hbelow]
      · have hlt : least < w.waitTime h := lt_of_le_of_ne hle (Ne.symm heq)
        simp [heq, hbelow, hlt]
    · rw [min_eq_left (not_lt.mp hlower)] at hle ⊢
      by_cases hbelow : least < time
      · have hne : w.waitTime h ≠ least := by omega
        simp [hbelow, hne]
      · simp [hbelow, hlower]

theorem scan_stops (hHandleQueue : List Handle) {scan : Scan}
    (hs : scan.triggeredEvent ≠ handleNull) :
    scanMembers core build hHandleQueue w scan = (w, scan) := by
  cases hHandleQueue with
  | nil => rfl
  | cons h hHandleQueue => exact if_neg fun hgo => hs hgo.2

theorem scan_ready {hHandleQueue : List Handle} {h : Handle} {scan : Scan}
    (hnull : ∀ h ∈ hHandleQueue, h ≠ handleNull) (hs : scan.triggeredEvent = handleNull)
    (hf : hHandleQueue.find? (readyAtScan core build w) = some h) :
    (scanMembers core build hHandleQueue w scan).2.triggeredEvent = h := by
  induction hHandleQueue generalizing scan with
  | nil => cases hf
  | cons g hHandleQueue ih =>
    have hg : g ≠ handleNull := hnull g List.mem_cons_self
    rw [scanMembers, if_pos ⟨hg, hs⟩]
    cases hr : readyAtScan core build w g with
    | true =>
      obtain ⟨resets, hlook⟩ := look_ready hr
      rw [List.find?_cons_of_pos hr] at hf
      injection hf with hf
      subst hf
      simp only [hlook, Scan.visit]
      rw [scan_stops hHandleQueue hg]
    | false =>
      rw [List.find?_cons_of_neg (by simp [hr])] at hf
      obtain ⟨hworld, hvisit⟩ := visit_unready hr scan
      simp only [hworld]
      apply ih (fun k hk => hnull k (List.mem_cons_of_mem g hk)) _ hf
      rw [hvisit, hs]

theorem scan_unready {hHandleQueue : List Handle} {scan : Scan}
    (hnull : ∀ h ∈ hHandleQueue, h ≠ handleNull) (hs : scan.triggeredEvent = handleNull)
    (hf : ∀ h ∈ hHandleQueue, readyAtScan core build w h = false) :
    scanMembers core build hHandleQueue w scan =
      (w,
        { triggeredEvent := handleNull
          eventQueue := scan.eventQueue ++ eventElements core build hHandleQueue
          androidHandleList :=
            scan.androidHandleList ++ hHandleQueue.filterMap (pollEntry core build w)
          ofcHandleList := scan.ofcHandleList ++ polledMembers core build w hHandleQueue
          leastWait := leastTime core w hHandleQueue scan.leastWait
          timerEvent := rememberedTimer core w hHandleQueue scan.leastWait scan.timerEvent }) := by
  induction hHandleQueue generalizing scan with
  | nil => simp [scanMembers, eventElements, polledMembers, leastTime, rememberedTimer, ← hs]
  | cons g hHandleQueue ih =>
    have hg : g ≠ handleNull := hnull g List.mem_cons_self
    obtain ⟨hworld, hvisit⟩ := visit_unready (hf g List.mem_cons_self) scan
    rw [scanMembers, if_pos ⟨hg, hs⟩]
    simp only [hworld]
    rw [ih (fun k hk => hnull k (List.mem_cons_of_mem g hk)) (by rw [hvisit, hs])
      fun k hk => hf k (List.mem_cons_of_mem g hk)]
    have hentries : (g :: hHandleQueue).filterMap (pollEntry core build w) =
        [g].filterMap (pollEntry core build w) ++
          hHandleQueue.filterMap (pollEntry core build w) := List.filterMap_append (l := [g])
    rw [hvisit, eventElements_cons g hHandleQueue, polledMembers_cons g hHandleQueue,
      leastTime_cons g hHandleQueue, rememberedTimer_cons, hentries]
    simp only [List.append_assoc]

theorem findIdx_reported (revents : Nat → UInt16) (entries : List PollFd) :
    (entries.mapIdx fun i entry => { entry with revents := revents i }).findIdx
        (fun entry => entry.revents ≠ 0) =
      ((List.range entries.length).find? fun i => revents i ≠ 0).getD entries.length := by
  cases hfind : (List.range entries.length).find? fun i => revents i ≠ 0 with
  | none =>
    rw [List.find?_range_eq_none] at hfind
    have hall : ∀ entry ∈ entries.mapIdx fun i entry => { entry with revents := revents i },
        decide (entry.revents ≠ 0) = false := by
      intro entry hentry
      obtain ⟨i, hi, rfl⟩ := List.mem_mapIdx.mp hentry
      simpa using hfind i hi
    rw [List.findIdx_eq_length_of_false hall, List.length_mapIdx]
    rfl
  | some i =>
    obtain ⟨hi, hrange, hbefore⟩ := List.find?_range_eq_some.mp hfind
    have hlt : i < (entries.mapIdx fun i entry => { entry with revents := revents i }).length := by
      rw [List.length_mapIdx]
      exact List.mem_range.mp hrange
    rw [Option.getD_some, List.findIdx_eq hlt]
    constructor
    · simpa using hi
    · intro j hj
      simpa using hbefore j hj

theorem polledMembers_length (hHandleQueue : List Handle) :
    (polledMembers core build w hHandleQueue).length =
      (hHandleQueue.filterMap (pollEntry core build w)).length := by
  induction hHandleQueue with
  | nil => rfl
  | cons h hHandleQueue ih =>
    unfold polledMembers at ih ⊢
    cases he : pollEntry core build w h <;> simp [he, ih]

theorem firstTimer_isSome {hHandleQueue : List Handle} {time : Int}
    (hlt : leastTime core w hHandleQueue time < time) :
    (firstTimer core w hHandleQueue (leastTime core w hHandleQueue time)).isSome := by
  induction hHandleQueue generalizing time with
  | nil => exact absurd hlt (lt_irrefl _)
  | cons h hHandleQueue ih =>
    rw [leastTime_cons] at hlt ⊢
    rw [firstTimer_cons]
    by_cases hhere : isTimer core h ∧
        w.waitTime h = leastTime core w hHandleQueue (leastTime core w [h] time)
    · rw [if_pos hhere]
      rfl
    · rw [if_neg hhere]
      apply ih
      refine lt_of_le_of_ne (leastTime_le _ _) ?_
      intro heq
      rw [heq, leastTime_single] at hlt hhere
      split at hlt
      · rename_i ht
        have hlower : w.waitTime h < time := by
          by_contra hge
          rw [min_eq_left (not_lt.mp hge)] at hlt
          exact lt_irrefl _ hlt
        rw [if_pos ht, min_eq_right hlower.le] at hhere
        exact hhere ⟨ht, rfl⟩
      · exact lt_irrefl _ hlt

theorem firstTimer_mem {hHandleQueue : List Handle} {time : Int} {h : Handle}
    (hf : firstTimer core w hHandleQueue time = some h) : h ∈ hHandleQueue :=
  List.mem_of_mem_filter (List.mem_of_find?_eq_some hf)

theorem afterPoll_selected {waitSet : WaitSet}
    (hnull : ∀ h ∈ waitSet.hHandleQueue, h ≠ handleNull) {scan : Scan}
    (hqueue : scan.eventQueue = eventElements core build waitSet.hHandleQueue)
    (hentries : scan.androidHandleList = polledEntries core build w waitSet)
    (hhandles : scan.ofcHandleList =
      handleNull :: polledMembers core build w waitSet.hHandleQueue)
    (htimer : scan.timerEvent =
      rememberedTimer core w waitSet.hHandleQueue core.maxSchedWait handleNull)
    (outcome : PollOutcome) :
    (afterPoll core scan outcome).1 =
      selected core build w waitSet.hHandleQueue outcome := by
  unfold afterPoll readPoll selected
  rcases lt_trichotomy outcome.pollCount 0 with hneg | hzero | hpos
  · rw [if_neg fun h => hneg.ne h.1, if_neg (not_lt.mpr hneg.le), if_pos hneg]
  · rw [htimer]
    unfold rememberedTimer
    by_cases hlt : leastTime core w waitSet.hHandleQueue core.maxSchedWait < core.maxSchedWait
    · obtain ⟨h, hh⟩ := Option.isSome_iff_exists.mp (firstTimer_isSome hlt)
      have hne : h ≠ handleNull := hnull h (firstTimer_mem hh)
      simp [hzero, hlt, hh, hne]
    · simp [hzero, hlt]
  · rw [if_neg fun h => hpos.ne' h.1, if_pos hpos, if_neg (not_lt.mpr hpos.le),
      if_neg hpos.ne']
    have hlength : (polledMembers core build w waitSet.hHandleQueue).length =
        (waitSet.hHandleQueue.filterMap (pollEntry core build w)).length :=
      polledMembers_length _
    rw [hentries, hhandles, hqueue]
    generalize hHandles : polledMembers core build w waitSet.hHandleQueue = members at hlength ⊢
    unfold polledEntries
    generalize waitSet.hHandleQueue.filterMap (pollEntry core build w) = entries at hlength ⊢
    simp only [List.mapIdx_cons, List.findIdx_cons]
    by_cases hpipe : outcome.revents 0 ≠ 0
    · simp [hpipe, World.pollEvent]
    · have hrest := findIdx_reported (fun i => outcome.revents (i + 1)) entries
      simp only [hpipe, decide_false, cond_false, hrest, ← hlength]
      cases hfind : (List.range members.length).find? fun i => outcome.revents (i + 1) ≠ 0 with
      | none => simp [hlength]
      | some i =>
        obtain ⟨-, hrange, -⟩ := List.find?_range_eq_some.mp hfind
        have hi : i < members.length := List.mem_range.mp hrange
        have hi' : i < entries.length := hlength ▸ hi
        simp [hi, hi']

theorem members_selects (core : Core) (build : Build) (waitSet : WaitSet)
    (poll : List PollFd → Int → World → PollOutcome) (w : World)
    (hnull : ∀ h ∈ waitSet.hHandleQueue, h ≠ handleNull) :
    Selects core build waitSet poll w
      (ofcWaitsetWaitImpl core build (some waitSet) poll w) := by
  unfold Selects
  have hstart : (Scan.start core waitSet.pipeFile).triggeredEvent = handleNull := rfl
  -- the purge changes nothing that the scan looks at
  have hpurged : readyAtScan core build { w with pipe := [] } = readyAtScan core build w := rfl
  rw [← hpurged]
  cases hfind : waitSet.hHandleQueue.find? (readyAtScan core build { w with pipe := [] }) with
  | some h =>
    have htriggered := scan_ready hnull hstart hfind
    have hne : h ≠ handleNull := hnull h (List.mem_of_find?_eq_some hfind)
    dsimp only [ofcWaitsetWaitImpl, waitAfterScan]
    rw [if_neg (by rwa [htriggered])]
    exact ⟨htriggered, rfl⟩
  | none =>
    have hunready : ∀ h ∈ waitSet.hHandleQueue,
        readyAtScan core build { w with pipe := [] } h = false := by
      intro h hh
      simpa using List.find?_eq_none.mp hfind h hh
    have hscan := scan_unready hnull hstart hunready
    dsimp only [ofcWaitsetWaitImpl, waitAfterScan]
    rw [hscan]
    dsimp only
    rw [if_pos rfl]
    refine ⟨rfl, ?_⟩
    exact afterPoll_selected (w := w) hnull rfl rfl rfl rfl _

/-- On a queue whose functions go through its members a wait comes back, and selects as its
specification says. -/
theorem wait_selects (core : Core) (build : Build) (queue : HandleQueue) (waitSet : WaitSet)
    (poll : List PollFd → Int → World → PollOutcome) (w : World)
    (hqueue : queue.Enumerates waitSet.hHandleQueue) :
    ∃ waited, (∀ turns > waitSet.hHandleQueue.length,
        ofcWaitsetWaitQueueImpl core build poll (some (queue, waitSet.pipeFile)) turns w =
          some waited) ∧
      Selects core build waitSet poll w waited :=
  ⟨ofcWaitsetWaitImpl core build (some waitSet) poll w,
    fun _ hturns => wait_enumerated hqueue hturns w,
    members_selects core build waitSet poll w hqueue.ne_stop⟩

/-- Whatever the queue functions return, a wait that polls has gone through members of which none
is twice there, and selects as its specification says of these. -/
theorem polled_selects {core : Core} {build : Build} {queue : HandleQueue} {pipeFile : Int}
    {poll : List PollFd → Int → World → PollOutcome} {turns : Nat} {w : World} {waited : Waited}
    (hret : ofcWaitsetWaitQueueImpl core build poll (some (queue, pipeFile)) turns w = some waited)
    (hpolled : waited.polled ≠ none) :
    ∃ hHandleQueue, queue.Enumerates hHandleQueue ∧ hHandleQueue.Nodup ∧
      Selects core build ⟨hHandleQueue, pipeFile⟩ poll w waited := by
  obtain ⟨hHandleQueue, hqueue, hnodup, rfl⟩ := enumerates_of_polled hret hpolled
  exact ⟨hHandleQueue, hqueue, hnodup, members_selects core build _ poll w hqueue.ne_stop⟩

def fewMembers : HandleQueue where
  first := 4
  next h := if h = 4 then 3 else if h = 3 then 1 else if h = 1 then 5 else if h = 5 then 2 else 0

theorem wait_selects_first_timer : ∃ waited,
    ofcWaitsetWaitQueueImpl fewHandles ⟨false, true⟩ (fun _ _ w => ⟨0, fun _ => 0, w⟩)
      (some (fewMembers, 9)) 6 fewWaits = some waited ∧
    waited.polled = some ([⟨9, pollin, 0⟩, ⟨-1, 0, 0⟩, ⟨5, 0, 0⟩], 20) ∧
      waited.triggeredEvent = 3 := by
  have hqueue : fewMembers.Enumerates [4, 3, 1, 5, 2] := by
    simp [HandleQueue.Enumerates, Walks, fewMembers, handleNull]
  obtain ⟨waited, hret, hselects⟩ := wait_selects fewHandles ⟨false, true⟩ fewMembers
    ⟨[4, 3, 1, 5, 2], 9⟩ (fun _ _ w => ⟨0, fun _ => 0, w⟩) fewWaits hqueue
  exact ⟨waited, hret 6 (by decide), hselects⟩

theorem fewWaits_unready (h : Handle) :
    readyAtScan fewHandles ⟨false, true⟩ fewWaits h = false := by
  unfold readyAtScan backing isTimer
  dsimp only [fewHandles]
  split_ifs <;> simp_all [Backing.ready, fewWaits]

theorem fewHandles_entry {h : Handle}
    (he : pollEntry fewHandles ⟨false, true⟩ fewWaits h = some ⟨-1, 0, 0⟩) : h = 4 := by
  unfold pollEntry at he
  split at he
  · rename_i htype
    dsimp only [fewHandles] at htype
    split_ifs at htype with h₁ h₂ h₃
    exact h₃
  · obtain ⟨-, he⟩ := Option.ite_none_right_eq_some.mp he
    have hfd : (h : Int) = -1 := congrArg PollFd.fd (Option.some.inj he)
    omega
  · cases he

/-- A socket that is twice in the queue is not polled twice, whatever the queue functions
return. -/
theorem wait_polls_no_duplicate : ¬ ∃ (queue : HandleQueue) (turns : Nat) (waited : Waited),
    ofcWaitsetWaitQueueImpl fewHandles ⟨false, true⟩ (fun _ _ w => ⟨0, fun _ => 0, w⟩)
      (some (queue, 9)) turns fewWaits = some waited ∧
    Selects fewHandles ⟨false, true⟩ ⟨[4, 4], 9⟩ (fun _ _ w => ⟨0, fun _ => 0, w⟩) fewWaits
      waited := by
  rintro ⟨queue, turns, waited, hret, hselects⟩
  have htwice : waited.polled = some ([⟨9, pollin, 0⟩, ⟨-1, 0, 0⟩, ⟨-1, 0, 0⟩], 1000) :=
    hselects.1
  obtain ⟨hHandleQueue, -, hnodup, hmembers⟩ := polled_selects hret (by simp [htwice])
  have hnone : hHandleQueue.find? (readyAtScan fewHandles ⟨false, true⟩ fewWaits) = none :=
    List.find?_eq_none.mpr fun h _ => by simp [fewWaits_unready h]
  unfold Selects at hmembers
  rw [hnone] at hmembers
  have hentries : hHandleQueue.filterMap (pollEntry fewHandles ⟨false, true⟩ fewWaits) =
      [⟨-1, 0, 0⟩, ⟨-1, 0, 0⟩] := by
    have hboth := hmembers.1.symm.trans htwice
    simp only [Option.some.injEq, Prod.mk.injEq, polledEntries, List.cons.injEq] at hboth
    exact hboth.1.2
  obtain ⟨front, h, rest, rfl, -, hfirst, hrest⟩ := List.filterMap_eq_cons_iff.mp hentries
  obtain ⟨middle, g, back, rfl, -, hsecond, -⟩ := List.filterMap_eq_cons_iff.mp hrest
  obtain rfl := fewHandles_entry hfirst
  obtain rfl := fewHandles_entry hsecond
  have hboth : (4 :: (middle ++ 4 :: back)).Nodup := (List.nodup_append.mp hnodup).2.1
  exact (List.nodup_cons.mp hboth).1 (by simp)

end CoreAndroid.Waitset
