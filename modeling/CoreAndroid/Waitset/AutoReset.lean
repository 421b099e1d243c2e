import CoreAndroid.Waitset.Consume

/-! How a call leaves the event of the member it returns: an AUTO event is to be taken, whether
the scan found it signalled or a message in the pipe told about it. -/
namespace CoreAndroid.Waitset

section Conditions
variable (config : Config) {Tid : Type} [DecidableEq Tid]

/-- Nobody else resets the event, or sets it again once the call has found it signalled. -/
def Undisturbed (e : Handle) (p : State Tid × List EventUse) : Action Tid → Prop
  | .run t => p.1.thread t ≠ .resetStore e ∧ (p.1.thread t = .setStore e → e ∉ foundEvents p.2)
  | _ => True

def NotSet (e : Handle) (p : State Tid × List EventUse) : Action Tid → Prop
  | .run t => p.1.thread t ≠ .setStore e
  | _ => True

/-- The scan is about to find an overlapped member with its AUTO event signalled. -/
def FindsEarly (s : State Tid) : Action Tid → Prop
  | .wait _ => ∃ place scan h hEvent, s.waiter = .scan place scan ∧
      s.shared.hHandleQueue[place]? = some h ∧ h ≠ handleNull ∧
      config.core.handleType h ≠ .event ∧
      backing config.core config.build h = some ⟨hEvent, none⟩ ∧
      config.core.eventType hEvent = .auto ∧ s.shared.world.signalled hEvent = true
  | _ => False

/-- The event is left unsignalled exactly if it is an AUTO event, and then no second wait
reports it unless somebody sets it. -/
structure TakenOnce (e h : Handle) (t : State Tid) : Prop where
  left : t.shared.world.signalled e = decide (config.core.eventType e ≠ .auto)
  once : config.core.eventType e = .auto → ∀ as t' uses,
    (oneCall config).Each (NotSet e) ({ t with waiter := .purge }, []) as →
    (oneCall config).run ({ t with waiter := .purge }, []) as = some (t', uses) →
    t'.waiter ≠ .outside h

end Conditions

section Flags
variable {core : Core} {build : Build} {hHandleQueue : List Handle} {w : World} {pc : WaiterPc}
  {e : Handle}

theorem signalled_of_found (hfound : e ∈ foundEvents (waiterUses core build hHandleQueue w pc)) :
    w.signalled e = true := by
  have htest : ∀ g, e ∈ foundEvents (lookUses core build w g) → w.signalled e = true := by
    intro g hg
    unfold lookUses at hg
    split at hg
    · rename_i hEvent _
      cases hsignalled : w.signalled hEvent <;> simp_all [EventUse.found]
    · cases hg
  cases pc with
  | scan place scan =>
    simp only [waiterUses] at hfound
    split at hfound
    · split at hfound
      · cases hfound
      · exact htest _ hfound
    · cases hfound
  | pollTest eventQueue el =>
    cases hsignalled : w.signalled el.hEvent <;>
      simp_all [waiterUses, EventUse.found]
  | _ => cases hfound

variable {config : Config} {Tid : Type} [DecidableEq Tid] {s t : State Tid}

theorem enter_signalled (sh : Shared) (op : Op) :
    (enter config sh op).1.world.signalled = sh.world.signalled := by
  cases op <;> rfl

theorem exec_signalled (sh : Shared) {pc : Pc} (hset : pc ≠ .setStore e)
    (hreset : pc ≠ .resetStore e) :
    (exec config sh pc).1.world.signalled e = sh.world.signalled e := by
  cases pc with
  | setStore e' =>
    have hne : e ≠ e' := by
      rintro rfl
      exact hset rfl
    simp [exec, World.set, hne]
  | resetStore e' =>
    have hne : e ≠ e' := by
      rintro rfl
      exact hreset rfl
    simp [exec, World.reset, hne]
  | _ => rfl

theorem exec_unsignalled {sh : Shared} {pc : Pc} (hset : pc ≠ .setStore e)
    (hflag : sh.world.signalled e = false) : (exec config sh pc).1.world.signalled e = false := by
  by_cases hreset : pc = .resetStore e
  · subst hreset
    simp [exec, World.reset]
  · rw [exec_signalled sh hset hreset]
    exact hflag

theorem others_signalled {a : Action Tid} (ha : ∀ answer, a ≠ .wait answer)
    (h : step config s a = some t) :
    t.shared.world.signalled = s.shared.world.signalled ∨
      ∃ tid, a = .run tid ∧ t.shared.world.signalled =
        (exec config s.shared (s.thread tid)).1.world.signalled := by
  cases a with
  | wait answer => exact absurd rfl (ha answer)
  | call tid op =>
    obtain ⟨-, h⟩ := Option.ite_none_right_eq_some.mp h
    cases h
    exact .inl (enter_signalled s.shared op)
  | run tid =>
    obtain ⟨-, h⟩ := Option.ite_none_left_eq_some.mp h
    cases h
    exact .inr ⟨tid, rfl, rfl⟩
  | take hWaitQ =>
    cases h
    exact .inl rfl
  | pass waitTime sockets =>
    cases h
    exact .inl rfl

end Flags

section Runs
variable {config : Config} {Tid : Type} [DecidableEq Tid] {s t : State Tid}
  {uses : List EventUse} {e h : Handle}

structure Follows (config : Config) (e : Handle) (p : State Tid × List EventUse) : Prop where
  stage : Stage config.core config.build p.1.shared.hHandleQueue p.2 p.1.waiter
  flag : e ∈ foundEvents p.2 →
    p.1.shared.world.signalled e = decide (e ∉ resetEvents p.2)

theorem Follows.step {p q : State Tid × List EventUse} {a : Action Tid}
    (hf : Follows config e p) (hu : Undisturbed e p a)
    (hstep : (oneCall config).step p a = some q) : Follows config e q := by
  refine ⟨stage_step hf.stage hstep, ?_⟩
  obtain ⟨hcall, huses⟩ := Machine.record_step hstep
  intro hfound
  rcases callSystem_cases hcall with ⟨answer, rfl, -, hw, -⟩ | ⟨hnone, ha, hothers⟩
  · have hframe := (waiter_frame hw).signalled e
    rw [huses, foundEvents_append, List.mem_append] at hfound
    rw [huses, hframe, resetEvents_append]
    simp only [usesOf, List.mem_append]
    by_cases hreset : e ∈ resetEvents (waiterUses config.core config.build
      p.1.shared.hHandleQueue p.1.shared.world p.1.waiter)
    · simp [hreset]
    · simp only [hreset, if_false, or_false]
      rcases hfound with hold | hfresh
      · exact hf.flag hold
      · -- what was just found signalled was not reset before, for then it was found before
        have hsignalled := signalled_of_found hfresh
        by_cases hold : e ∈ foundEvents p.2
        · exact hf.flag hold
        · have hkept : e ∉ resetEvents p.2 := fun hr => hold (hf.stage.consumes.auto e hr).2
          simp [hkept, hsignalled]
  · rw [hnone, List.append_nil] at huses
    rw [huses] at hfound ⊢
    rw [← hf.flag hfound]
    rcases others_signalled ha hothers with hsame | ⟨tid, rfl, hran⟩
    · rw [hsame]
    · rw [hran]
      exact exec_signalled p.1.shared (fun hat => hu.2 hat hfound) hu.1

structure Unfound (config : Config) (e : Handle) (p : State Tid × List EventUse) : Prop where
  stage : Stage config.core config.build p.1.shared.hHandleQueue p.2 p.1.waiter
  found : e ∉ foundEvents p.2
  flag : p.1.shared.world.signalled e = false

theorem Unfound.step {p q : State Tid × List EventUse} {a : Action Tid}
    (hf : Unfound config e p) (hn : NotSet e p a)
    (hstep : (oneCall config).step p a = some q) : Unfound config e q := by
  obtain ⟨hcall, huses⟩ := Machine.record_step hstep
  rcases callSystem_cases hcall with ⟨answer, rfl, -, hw, -⟩ | ⟨hnone, ha, hothers⟩
  · refine ⟨stage_step hf.stage hstep, ?_, ?_⟩
    · rw [huses, foundEvents_append, List.mem_append]
      rintro (hold | hfresh)
      · exact hf.found hold
      · have hsignalled := signalled_of_found hfresh
        rw [hf.flag] at hsignalled
        cases hsignalled
    · rw [(waiter_frame hw).signalled e, hf.flag]
      simp
  · refine ⟨stage_step hf.stage hstep, ?_, ?_⟩
    · rw [huses, hnone, List.append_nil]
      exact hf.found
    · rcases others_signalled ha hothers with hsame | ⟨tid, rfl, hran⟩
      · rw [hsame]
        exact hf.flag
      · rw [hran]
        exact exec_unsignalled hn hf.flag

omit [DecidableEq Tid] in
theorem found_of_returned
    (hs : Stage config.core config.build s.shared.hHandleQueue uses s.waiter)
    (hret : s.waiter = .outside h) (hne : h ≠ handleNull)
    (hb : backing config.core config.build h = some ⟨e, none⟩) :
    foundEvents uses = [e] ∧ resetEvents uses =
      if config.core.eventType e = .auto ∧ ∀ use ∈ uses, use.early config.core = false
      then [e] else [] := by
  rw [hret] at hs
  rcases hs with ⟨-, hnull | hqueue⟩ | hreported
  · exact absurd hnull hne
  · exact absurd rfl (hqueue _ hb)
  · obtain ⟨b, hb', hfound, hresets⟩ := hreported.event
    rw [hb] at hb'
    cases hb'
    exact ⟨hfound, hresets⟩

omit [DecidableEq Tid] in
theorem uses_late_iff (s : State Tid) (a : Action Tid) :
    (∀ use ∈ usesOf config s a, use.early config.core = false) ↔ ¬ FindsEarly config s a := by
  cases a with
  | wait answer =>
    simp only [usesOf, FindsEarly]
    cases hpc : s.waiter with
    | scan place scan =>
      simp only [waiterUses]
      cases hplace : s.shared.hHandleQueue[place]? with
      | none => simp [hplace]
      | some g =>
        by_cases hnull : g = handleNull
        · simp [hplace, hnull]
        · simp only [hnull, if_false, lookUses]
          split
          · rename_i hEvent hb
            cases hsignalled : s.shared.world.signalled hEvent <;>
              simp_all [EventUse.early]
          · rename_i hnone
            simp only [List.not_mem_nil, IsEmpty.forall_iff, implies_true, true_iff]
            rintro ⟨_, _, g', hEvent, hscan, hg, -, -, hb, -⟩
            cases hscan
            rw [hplace] at hg
            cases hg
            exact hnone hEvent hb
    | pollTest eventQueue el =>
      cases hsignalled : s.shared.world.signalled el.hEvent <;>
        simp [waiterUses, EventUse.early]
    | _ => simp [waiterUses, EventUse.early]
  | _ => simp [usesOf, FindsEarly]

theorem late_iff {as : List (Action Tid)} (hr : (oneCall config).run (s, []) as = some (t, uses)) :
    (∀ use ∈ uses, use.early config.core = false) ↔
      (oneCall config).Each (fun p a => ¬ FindsEarly config p.1 a) (s, []) as := by
  simp only [← uses_late_iff]
  exact Machine.record_forall_iff (by simp) hr

theorem taken_once_of_unsignalled (hne : h ≠ handleNull)
    (hb : backing config.core config.build h = some ⟨e, none⟩)
    (hleft : t.shared.world.signalled e = decide (config.core.eventType e ≠ .auto)) :
    TakenOnce config e h t := by
  refine ⟨hleft, ?_⟩
  intro hauto as t' uses' heach hrun hret
  have hstart : Unfound config e ({ t with waiter := .purge }, []) :=
    ⟨⟨rfl, rfl⟩, List.not_mem_nil, by simp [hleft, hauto]⟩
  have hend := heach.keeps (fun _ _ _ hf hn hstep => hf.step hn hstep) hstart hrun
  obtain ⟨hfound, -⟩ := found_of_returned hend.stage hret hne hb
  apply hend.found
  simp [hfound]

/-- A member with an event is reported once for each time the event is set, and its AUTO event
reset, exactly by the calls whose scan does not find the AUTO event of an overlapped member
signalled. -/
theorem taken_once_iff {as : List (Action Tid)} (hs : s.waiter = .purge)
    (hr : (oneCall config).run (s, []) as = some (t, uses))
    (hu : (oneCall config).Each (Undisturbed e) (s, []) as)
    (hret : t.waiter = .outside h) (hne : h ≠ handleNull)
    (hb : backing config.core config.build h = some ⟨e, none⟩) :
    TakenOnce config e h t ↔
      (oneCall config).Each (fun p a => ¬ FindsEarly config p.1 a) (s, []) as := by
  have hstart : Follows config e (s, []) := ⟨stage_start hs, fun hno => by cases hno⟩
  have hend := hu.keeps (fun _ _ _ hf hok hstep => hf.step hok hstep) hstart hr
  obtain ⟨hfound, hresets⟩ := found_of_returned hend.stage hret hne hb
  have hflag := hend.flag (by simp [hfound])
  rw [← late_iff hr]
  constructor
  · intro htaken
    by_cases hauto : config.core.eventType e = .auto
    · by_contra hearly
      rw [if_neg fun hno => hearly hno.2] at hresets
      have hleft := htaken.left
      rw [hflag, hresets] at hleft
      simp [hauto] at hleft
    · -- an early find is of the event itself, which is not AUTO
      intro use huse
      cases hearly : use.early config.core with
      | false => rfl
      | true =>
        have hsome : ∃ g hEvent, use = .scanTested g hEvent true ∧
            config.core.eventType hEvent = .auto := by
          unfold EventUse.early at hearly
          split at hearly
          · simp only [Bool.and_eq_true, decide_eq_true_eq] at hearly
            exact ⟨_, _, rfl, hearly.2⟩
          · cases hearly
        obtain ⟨g, hEvent, rfl, hauto'⟩ := hsome
        have hmem : hEvent ∈ foundEvents uses := List.mem_filterMap.mpr ⟨_, huse, rfl⟩
        rw [hfound, List.mem_singleton] at hmem
        exact absurd (hmem ▸ hauto') hauto
  · intro hall
    apply taken_once_of_unsignalled hne hb
    rw [hflag, hresets]
    by_cases hauto : config.core.eventType e = .auto
    · rw [if_pos ⟨hauto, hall⟩]
      simp [hauto]
    · rw [if_neg fun hno => hauto hno.1]
      simp [hauto]

instance (p : State Tid × List EventUse) : DecidablePred (Undisturbed e p) := fun a =>
  match a with
  | .run _ => inferInstanceAs (Decidable (_ ∧ _))
  | .wait _ | .call _ _ | .take _ | .pass _ _ => inferInstanceAs (Decidable True)

end Runs

def overlapped : Config :=
  ⟨{ fewHandles with
      handleType := fun _ => .fsandroidOverlapped
      androidOverlappedEvent := fun _ => 2 }, ⟨false, true⟩, 9, 16⟩

def doneAfterScan : List (Action Unit) :=
  [.wait noAnswer, .wait noAnswer, .wait noAnswer, .call () (.set 2), .run (), .run (), .run (),
    .wait ⟨1, fun _ => 1⟩, .wait noAnswer, .wait noAnswer, .wait noAnswer]

theorem taken_once_late : ∃ (t : State Unit) (uses : List EventUse),
    (oneCall overlapped).run (eventSet, []) doneAfterScan = some (t, uses) ∧
      TakenOnce overlapped 2 1 t := by
  have hrun : ((oneCall overlapped).runWhere (Undisturbed 2) (eventSet, []) doneAfterScan).map
      (fun p => (p.1.waiter.result, decide (∀ use ∈ p.2, use.early overlapped.core = false))) =
      some (some 1, true) := by decide
  obtain ⟨⟨t, uses⟩, hs, hlast⟩ := Option.map_eq_some_iff.mp hrun
  simp only [Prod.mk.injEq, decide_eq_true_eq] at hlast
  have hr := Machine.run_of_runWhere hs
  exact ⟨t, uses, hr, (taken_once_iff rfl hr (Machine.each_of_runWhere hs)
    (outside_of_result hlast.1) (by decide) rfl).mpr ((late_iff hr).mp hlast.2)⟩

def doneBeforeScan : State Unit :=
  { eventSet with shared := ⟨{ fewWaits with signalled := fun _ => true }, [1], fun _ => true⟩ }

/-- The scan leaves the event signalled. -/
theorem not_taken_early : ∃ (t : State Unit) (uses : List EventUse),
    (oneCall overlapped).run (doneBeforeScan, []) [.wait noAnswer, .wait noAnswer] =
        some (t, uses) ∧
      (oneCall overlapped).Each (Undisturbed 2) (doneBeforeScan, [])
        [.wait noAnswer, .wait noAnswer] ∧
      t.waiter = .outside 1 ∧ t.shared.world.signalled 2 = true ∧ ¬ TakenOnce overlapped 2 1 t := by
  have hrun : ((oneCall overlapped).runWhere (Undisturbed 2) (doneBeforeScan, [])
      [.wait noAnswer, .wait noAnswer]).map
      (fun p => (p.1.waiter.result, p.1.shared.world.signalled 2)) =
      some (some 1, true) := by decide
  obtain ⟨⟨t, uses⟩, hs, hlast⟩ := Option.map_eq_some_iff.mp hrun
  simp only [Prod.mk.injEq] at hlast
  refine ⟨t, uses, Machine.run_of_runWhere hs, Machine.each_of_runWhere hs,
    outside_of_result hlast.1, hlast.2, ?_⟩
  intro htaken
  have hleft := htaken.left
  rw [hlast.2] at hleft
  revert hleft
  decide

end CoreAndroid.Waitset
