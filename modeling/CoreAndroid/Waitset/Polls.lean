import CoreAndroid.Event.Poll
import CoreAndroid.Lib.Simulation
import CoreAndroid.Waitset.AutoReset

/-! The wait polls an AUTO event by the calls of `Event.polls`: the scan and `PollEvent` test
it, and reset it next if the test has found it. -/
namespace CoreAndroid.Waitset

section Steps
variable {core : Core} {build : Build} {hHandleQueue : List Handle} {w w' : World}
  {pc pc' : WaiterPc} {e : Handle}

def WaiterPc.resets (e : Handle) : WaiterPc → Bool
  | .scanReset h => h = e
  | .pollReset _ el => el.hEvent = e
  | _ => false

theorem resetEvents_iff (core : Core) (build : Build) (hHandleQueue : List Handle) (w : World)
    (pc : WaiterPc) (e : Handle) :
    e ∈ resetEvents (waiterUses core build hHandleQueue w pc) ↔ pc.resets e = true := by
  cases pc with
  | scanReset h | pollReset eventQueue el =>
    simp [waiterUses, WaiterPc.resets, EventUse.resets, eq_comm]
  | scan place scan =>
    simp [scanUses_resets, WaiterPc.resets]
  | _ => simp [waiterUses, WaiterPc.resets, resetEvents, EventUse.resets]

@[simp] theorem afterElement_resets (eventQueue : List EventElement) (el : EventElement)
    (e : Handle) : (afterElement eventQueue el).resets e = false := by
  unfold afterElement
  split <;> rfl

theorem kept_unfound {h : Handle} (hauto : core.eventType e = .auto)
    (hlook : look core build w h = .ready false)
    (hlate : ∀ use ∈ lookUses core build w h, use.found = some e → use.early core = false) :
    e ∉ foundEvents (lookUses core build w h) := by
  intro hfound
  obtain ⟨use, huse, hfind⟩ := List.mem_filterMap.mp hfound
  have hearly := hlate use huse hfind
  unfold lookUses at huse
  split at huse
  · rename_i hEvent hb
    obtain rfl := List.mem_singleton.mp huse
    obtain ⟨hsignalled, hkeeps⟩ := signalled_of_ready hb hlook
    rw [hsignalled] at hfind hearly
    obtain rfl : hEvent = e := Option.some.inj hfind
    have htype : core.handleType h = .event := by simpa [EventUse.early, hauto] using hearly
    rw [backing_of_event htype] at hb
    obtain rfl : h = hEvent := by simpa using hb
    simp [resetsAtScan, htype, hauto] at hkeeps
  · cases huse

theorem resets_iff_found {pipeFile : Int} {answer : PollAnswer} (hauto : core.eventType e = .auto)
    (hlate : ∀ use ∈ waiterUses core build hHandleQueue w pc,
      use.found = some e → use.early core = false)
    (h : waiterStep core build hHandleQueue pipeFile answer w pc = some (w', pc')) :
    pc'.resets e = true ↔ e ∈ foundEvents (waiterUses core build hHandleQueue w pc) := by
  cases pc with
  | outside g =>
    cases h
    simp [waiterUses, WaiterPc.resets, foundEvents]
  | purge =>
    simp only [waiterStep] at h
    split at h <;> cases h <;> simp [waiterUses, WaiterPc.resets, foundEvents]
  | scan place scan =>
    simp only [waiterStep] at h
    simp only [waiterUses] at hlate ⊢
    cases hplace : hHandleQueue[place]? with
    | none =>
      rw [hplace] at h
      cases h
      simp [WaiterPc.resets, foundEvents]
    | some g =>
      simp only [hplace] at h hlate
      by_cases hnull : g = handleNull
      · simp only [hnull, if_true] at h ⊢
        cases h
        simp [WaiterPc.resets, foundEvents]
      · simp only [hnull, if_false] at h hlate ⊢
        cases hlook : look core build w g with
        | ready resets =>
          cases resets with
          | true =>
            simp only [hlook] at h
            cases h
            simp [(look_ready_true hlook).1, WaiterPc.resets, EventUse.found, eq_comm]
          | false =>
            simp only [hlook] at h
            cases h
            have hunfound := kept_unfound hauto hlook hlate
            simpa [WaiterPc.resets] using hunfound
        | _ =>
          have hunready : ∀ resets, look core build w g ≠ .ready resets := by simp [hlook]
          simp only [hlook] at h
          cases h
          simp [(lookUses_unready hunready).1, WaiterPc.resets]
  | scanReset g =>
    cases h
    simp [waiterUses, WaiterPc.resets, EventUse.found]
  | poll scan =>
    obtain ⟨-, h⟩ := Option.ite_none_right_eq_some.mp h
    split at h <;> cases h <;> simp [waiterUses, WaiterPc.resets, foundEvents]
  | pollRead eventQueue =>
    simp only [waiterStep] at h
    split at h
    · cases h
      simp [waiterUses, WaiterPc.resets, foundEvents]
    · split at h
      · cases h
        simp [waiterUses, WaiterPc.resets, foundEvents]
      · split at h <;> cases h <;> simp [waiterUses, WaiterPc.resets, foundEvents]
  | pollTest eventQueue el =>
    simp only [waiterStep] at h
    simp only [waiterUses, foundEvents_single]
    cases hsignalled : w.signalled el.hEvent with
    | false =>
      simp only [hsignalled, Bool.false_eq_true, if_false] at h
      cases h
      simp [WaiterPc.resets, EventUse.found]
    | true =>
      simp only [hsignalled, if_true] at h
      by_cases htype : core.eventType el.hEvent = .auto
      · rw [if_pos htype] at h
        cases h
        simp [WaiterPc.resets, EventUse.found, eq_comm]
      · rw [if_neg htype] at h
        cases h
        have hne : e ≠ el.hEvent := by
          rintro rfl
          exact htype hauto
        simp [EventUse.found, hne]
  | pollReset eventQueue el =>
    cases h
    simp [waiterUses, EventUse.found]

theorem waiterUses_cases (core : Core) (build : Build) (hHandleQueue : List Handle) (w : World)
    (pc : WaiterPc) :
    waiterUses core build hHandleQueue w pc = [] ∨
    (∃ hEvent, (∃ h, waiterUses core build hHandleQueue w pc =
        [.scanTested h hEvent (w.signalled hEvent)]) ∨
      waiterUses core build hHandleQueue w pc = [.pollTested hEvent (w.signalled hEvent)]) ∨
    ∃ hEvent, waiterUses core build hHandleQueue w pc = [.reset hEvent] := by
  cases pc with
  | scan place scan =>
    simp only [waiterUses]
    split
    · split
      · exact .inl rfl
      · rename_i h _ _
        unfold lookUses
        split
        · rename_i hEvent _
          exact .inr (.inl ⟨hEvent, .inl ⟨h, rfl⟩⟩)
        · exact .inl rfl
    · exact .inl rfl
  | scanReset h => exact .inr (.inr ⟨h, rfl⟩)
  | pollTest eventQueue el => exact .inr (.inl ⟨el.hEvent, .inr rfl⟩)
  | pollReset eventQueue el => exact .inr (.inr ⟨el.hEvent, rfl⟩)
  | _ => exact .inl rfl

end Steps

section Polls
variable {Tid : Type} [DecidableEq Tid]

def pollCalls (e : Handle) (t : Tid) : EventUse → List (Monitor.Action Tid Event.Op)
  | .scanTested _ hEvent _ | .pollTested hEvent _ =>
      if hEvent = e then Event.wholeCall t .test 3 else []
  | .reset hEvent => if hEvent = e then Event.wholeCall t .reset 3 else []

/-- The polls of the event are where the wait has come to, with what it did with events. -/
structure Shows (e : Handle) (t : Tid) (w : World) (pc : WaiterPc) (uses : List EventUse)
    (p : Event.Polled Tid) : Prop where
  rest : p.AtRest
  flag : p.monitor.val.signalled = w.signalled e
  found : p.found t = pc.resets e
  others : ∀ u, u ≠ t → p.found u = false
  taken : p.taken = (resetEvents uses).count e

variable {core : Core} {build : Build} {hHandleQueue : List Handle} {w w' : World}
  {pc pc' : WaiterPc} {e hEvent : Handle} {uses uses' : List EventUse} {t : Tid}
  {p : Event.Polled Tid}

omit [DecidableEq Tid] in
theorem Shows.none_taken (hs : Shows e t w pc uses p) (hno : e ∉ resetEvents uses') :
    p.taken = (resetEvents (uses ++ uses')).count e := by
  rw [resetEvents_append, List.count_append, List.count_eq_zero_of_not_mem hno, hs.taken]
  rfl

omit [DecidableEq Tid] in
theorem Shows.kept (hs : Shows e t w pc uses p) (hflag : w'.signalled e = w.signalled e)
    (hresets : pc'.resets e = pc.resets e) (hno : e ∉ resetEvents uses') :
    Shows e t w' pc' (uses ++ uses') p :=
  ⟨hs.rest, hs.flag.trans hflag.symm, hs.found.trans hresets.symm, hs.others, hs.none_taken hno⟩

theorem Shows.test {use : EventUse} (hs : Shows e t w pc uses p)
    (hflag : w'.signalled e = w.signalled e) (hresets : pc.resets e = false)
    (hnext : pc'.resets e = true ↔ e ∈ foundEvents [use]) (hno : e ∉ resetEvents [use])
    (hfound : use.found = if w.signalled hEvent then some hEvent else none) :
    ∃ q, (Event.polls Tid).run p (if hEvent = e then Event.wholeCall t .test 3 else []) = some q ∧
      Shows e t w' pc' (uses ++ [use]) q := by
  by_cases he : hEvent = e
  · subst he
    have hresets' : pc'.resets hEvent = w.signalled hEvent := by
      cases hsignalled : w.signalled hEvent <;> simpa [hfound, hsignalled] using hnext
    rw [if_pos rfl]
    refine ⟨_, Event.run_test hs.rest (hs.found.trans hresets), ?_⟩
    refine ⟨⟨hs.rest.1, hs.rest.2⟩, hs.flag.trans hflag.symm, ?_, ?_, hs.none_taken hno⟩
    · simp [hs.flag, hresets']
    · intro u hu
      simp [hu, hs.others u hu]
  · have hunfound : e ∉ foundEvents [use] := by
      cases hsignalled : w.signalled hEvent <;> simp [hfound, hsignalled, Ne.symm he]
    have hresets' := Bool.eq_false_iff.mpr fun hnext' => hunfound (hnext.mp hnext')
    rw [if_neg he]
    exact ⟨p, rfl, hs.kept hflag (by rw [hresets, hresets']) hno⟩

theorem Shows.reset (hs : Shows e t w pc uses p)
    (hflag : w'.signalled e = if e ∈ resetEvents [.reset hEvent] then false else w.signalled e)
    (hown : e ∈ resetEvents [.reset hEvent] ↔ pc.resets e = true)
    (hresets' : pc'.resets e = false) :
    ∃ q, (Event.polls Tid).run p (if hEvent = e then Event.wholeCall t .reset 3 else []) = some q ∧
      Shows e t w' pc' (uses ++ [.reset hEvent]) q := by
  by_cases he : hEvent = e
  · subst he
    have hyes : hEvent ∈ resetEvents [.reset hEvent] := by simp [EventUse.resets]
    rw [if_pos hyes] at hflag
    rw [if_pos rfl]
    refine ⟨_, Event.run_reset hs.rest (hs.found.trans (hown.mp hyes)), ?_⟩
    refine ⟨⟨hs.rest.1, hs.rest.2⟩, hflag.symm, ?_, ?_, ?_⟩
    · simp [hresets']
    · intro u hu
      simp [hu, hs.others u hu]
    · simp [EventUse.resets, hs.taken]
  · have hno : e ∉ resetEvents [.reset hEvent] := by simp [EventUse.resets, Ne.symm he]
    have hresets := Bool.eq_false_iff.mpr fun hown' => hno (hown.mpr hown')
    rw [if_neg hno] at hflag
    rw [if_neg he]
    exact ⟨p, rfl, hs.kept hflag (by rw [hresets, hresets']) hno⟩

theorem waiter_polls {pipeFile : Int} {answer : PollAnswer} (hauto : core.eventType e = .auto)
    (hlate : ∀ use ∈ waiterUses core build hHandleQueue w pc,
      use.found = some e → use.early core = false)
    (h : waiterStep core build hHandleQueue pipeFile answer w pc = some (w', pc'))
    (hs : Shows e t w pc uses p) :
    ∃ q, (Event.polls Tid).run p
        ((waiterUses core build hHandleQueue w pc).flatMap (pollCalls e t)) = some q ∧
      Shows e t w' pc' (uses ++ waiterUses core build hHandleQueue w pc) q := by
  have hflag := (waiter_frame h).signalled e
  have hnext := resets_iff_found hauto hlate h
  have hown := resetEvents_iff core build hHandleQueue w pc e
  rcases waiterUses_cases core build hHandleQueue w pc with
    huses | ⟨hEvent, htest⟩ | ⟨hEvent, huses⟩
  · rw [huses] at hflag hnext hown ⊢
    have hresets : pc.resets e = false := by simpa [resetEvents] using hown
    have hresets' : pc'.resets e = false := by simpa [foundEvents] using hnext
    exact ⟨p, rfl, hs.kept (by simpa [resetEvents] using hflag) (by rw [hresets, hresets'])
      (by simp [resetEvents])⟩
  · obtain ⟨use, huse, hnone, hfound, hcalls⟩ :
        ∃ use, waiterUses core build hHandleQueue w pc = [use] ∧ use.resets = none ∧
          use.found = (if w.signalled hEvent then some hEvent else none) ∧
          pollCalls e t use = if hEvent = e then Event.wholeCall t .test 3 else [] := by
      rcases htest with ⟨g, huse⟩ | huse <;> refine ⟨_, huse, rfl, ?_, rfl⟩ <;>
      · cases w.signalled hEvent <;> rfl
    rw [huse] at hflag hnext hown ⊢
    have hno : e ∉ resetEvents [use] := by simp [hnone]
    have hresets := Bool.eq_false_iff.mpr fun hown' => hno (hown.mpr hown')
    rw [if_neg hno] at hflag
    rw [List.flatMap_singleton, hcalls]
    exact hs.test hflag hresets hnext hno hfound
  · rw [huses] at hflag hnext hown ⊢
    rw [List.flatMap_singleton]
    exact hs.reset hflag hown (by simpa [EventUse.found] using hnext)

end Polls

section Runs
variable {config : Config} {Tid : Type} [DecidableEq Tid] {e : Handle}

/-- Only the wait resets the event, and its scan finds it as a member, not behind one. -/
def OnlyPolled (config : Config) (e : Handle) (p : State Tid × List EventUse)
    (a : Action Tid) : Prop :=
  (∀ t, a = .run t → p.1.thread t ≠ .resetStore e) ∧
    ∀ use ∈ usesOf config p.1 a, use.found = some e → use.early config.core = false

def Polls (e : Handle) (p : State Tid × List EventUse) (q : Event.Polled (Option Tid)) : Prop :=
  Shows e none p.1.shared.world p.1.waiter p.2 q

theorem polls_step (hauto : config.core.eventType e = .auto) {s t : State Tid × List EventUse}
    {p : Event.Polled (Option Tid)} {a : Action Tid} (hs : Polls e s p)
    (hok : OnlyPolled config e s a)
    (hstep : ((system config).record (usesOf config)).step s a = some t) :
    ∃ q, (Event.polls (Option Tid)).Comes p q ∧ Polls e t q := by
  obtain ⟨hstep, huses⟩ := Machine.record_step hstep
  by_cases ha : ∃ answer, a = .wait answer
  · obtain ⟨answer, rfl⟩ := ha
    obtain ⟨⟨w, pc⟩, hw, hrest⟩ := Option.map_eq_some_iff.mp hstep
    obtain ⟨q, hrun, hq⟩ := waiter_polls hauto hok.2 hw hs
    refine ⟨q, ⟨_, hrun⟩, ?_⟩
    unfold Polls
    rw [huses, ← hrest]
    exact hq
  · have ha : ∀ answer, a ≠ .wait answer := fun answer h => ha ⟨answer, h⟩
    have hwaiter := (others_step ha hstep).1
    have hnone : usesOf config s.1 a = [] := by
      cases a with
      | wait answer => exact absurd rfl (ha answer)
      | _ => rfl
    rw [hnone] at huses
    have hkept (hflag : t.1.shared.world.signalled e = s.1.shared.world.signalled e) :
        Polls e t p := by
      unfold Polls
      rw [huses]
      exact hs.kept hflag (by rw [hwaiter]) (by simp [resetEvents])
    rcases others_signalled ha hstep with hsame | ⟨u, rfl, hran⟩
    · exact ⟨p, .refl p, hkept (by rw [hsame])⟩
    · by_cases hset : s.1.thread u = .setStore e
      · refine ⟨_, ⟨_, Event.run_set hs.rest (hs.others (some u) (Option.some_ne_none u))⟩, ?_⟩
        refine ⟨⟨hs.rest.1, hs.rest.2⟩, ?_, hs.found.trans (by rw [hwaiter]), hs.others, ?_⟩
        · simp [hran, hset, exec, World.set]
        · rw [huses, List.append_nil]
          exact hs.taken
      · exact ⟨p, .refl p, hkept (by rw [hran, exec_signalled s.1.shared hset (hok.1 u rfl)])⟩

/-- Every run of the system whose steps are of this kind is one of the polls: each take of the
polls is a reset by the wait, of an event that its test has found. -/
theorem wait_polls (hauto : config.core.eventType e = .auto) {s : State Tid}
    {t : State Tid × List EventUse} {as : List (Action Tid)}
    (hlow : s.shared.world.signalled e = false) (hwaiter : s.waiter.resets e = false)
    (hok : ((system config).record (usesOf config)).Each (OnlyPolled config e) (s, []) as)
    (hrun : ((system config).record (usesOf config)).run (s, []) as = some t) :
    ∃ q, (Event.polls (Option Tid)).Reach q ∧ Polls e t q := by
  have hstart : Polls e (s, []) (Event.unpolled : Event.Polled (Option Tid)) :=
    ⟨⟨rfl, rfl⟩, hlow.symm, hwaiter.symm, fun _ _ => rfl, rfl⟩
  obtain ⟨q, ⟨calls, hcalls⟩, hq⟩ :=
    Machine.run_comes (fun _ _ _ _ hs hok hstep => polls_step hauto hs hok hstep) hstart hok hrun
  exact ⟨q, Machine.Reach.run (.init rfl) hcalls, hq⟩

end Runs
end CoreAndroid.Waitset
