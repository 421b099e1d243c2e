import CoreAndroid.Waitset.Signal

/-! What a step of the set can do, what the wait knows about the members, and who gives the
set to the event behind a member. -/
namespace CoreAndroid.Waitset

variable {config : Config} {Tid : Type} [DecidableEq Tid] {s s' : State Tid}

inductive Effect (config : Config) (s : State Tid) : State Tid → Prop
  | wait {w pc} : WaiterEffect config.core config.build s.shared.hHandleQueue s.shared.world
      s.waiter w pc →
      Effect config s { s with shared := { s.shared with world := w }, waiter := pc }
  | call {t op} : s.thread t = .idle → Allowed config s (.call t op) →
      Effect config s
        { s with
          shared := (enter config s.shared op).1
          thread := Function.update s.thread t (enter config s.shared op).2 }
  | run {t pc} : s.thread t = pc → pc ≠ .idle →
      Effect config s
        { s with
          shared := (exec config s.shared pc).1
          thread := Function.update s.thread t (exec config s.shared pc).2 }
  -- nobody in a call does anything
  | other {w} : w.signalled = s.shared.world.signalled → w.pipe = s.shared.world.pipe →
      (∀ q, w.items q ≠ 0 → s.shared.world.items q ≠ 0) →
      Effect config s { s with shared := { s.shared with world := w } }

theorem step_effect {a : Action Tid} (hok : Allowed config s a) (h : step config s a = some s') :
    Effect config s s' := by
  cases a with
  | wait answer =>
    obtain ⟨⟨w, pc⟩, hw, rfl⟩ := Option.map_eq_some_iff.mp h
    exact .wait (waiter_effect hw)
  | call t op =>
    obtain ⟨hidle, h⟩ := Option.ite_none_right_eq_some.mp h
    cases h
    exact .call hidle hok
  | run t =>
    obtain ⟨hbusy, h⟩ := Option.ite_none_left_eq_some.mp h
    cases h
    exact .run rfl hbusy
  | take hWaitQ =>
    cases h
    refine .other rfl rfl ?_
    intro q hq
    by_cases hqq : q = hWaitQ
    · subst hqq
      simp only [Function.update_self] at hq
      omega
    · simpa [hqq] using hq
  | pass waitTime sockets =>
    cases h
    exact .other rfl rfl fun _ hq => hq

section Shape

def Pc.adds : Pc → Option (Handle × Handle)
  | .addSetApp h hAssoc | .addTest h hAssoc | .addSignal h hAssoc => some (h, hAssoc)
  | _ => none

theorem enter_adds {sh : Shared} {op : Op} {h hAssoc : Handle}
    (ha : (enter config sh op).2.adds = some (h, hAssoc)) :
    addAssoc config.core config.build h = some hAssoc := by
  cases op with
  | add g =>
    simp only [enter] at ha
    split at ha
    · rename_i hassoc
      cases ha
      exact hassoc
    · cases ha
  | _ => cases ha

theorem exec_adds {sh : Shared} {pc : Pc} {p : Handle × Handle}
    (ha : (exec config sh pc).2.adds = some p) : pc.adds = some p := by
  cases pc with
  | setGetWaitSet e | addTest h hAssoc =>
    simp only [exec] at ha
    split at ha
    · exact ha
    · cases ha
  | addSetApp h hAssoc => exact ha
  | _ => cases ha

theorem enter_resetStore {sh : Shared} {op : Op} {e : Handle}
    (he : (enter config sh op).2 = .resetStore e) : op = .reset e := by
  cases op with
  | reset e' =>
    cases he
    rfl
  | add g =>
    simp only [enter] at he
    split at he <;> cases he
  | _ => cases he

theorem exec_ne_resetStore (sh : Shared) (pc : Pc) (e : Handle) :
    (exec config sh pc).2 ≠ .resetStore e := by
  intro he
  cases pc with
  | setGetWaitSet e' | addTest h hAssoc =>
    simp only [exec] at he
    split at he <;> cases he
  | _ => cases he

/-- What the threads stand for, and what the wait knows about the members. -/
structure Shape (config : Config) (s : State Tid) : Prop where
  nonnull : ∀ h ∈ s.shared.hHandleQueue, h ≠ handleNull
  place : ∀ i scan, s.waiter = .scan i scan → i ≤ s.shared.hHandleQueue.length
  found : ∀ h, s.waiter = .scanReset h →
    h ∈ s.shared.hHandleQueue ∧ config.core.handleType h = .event
  known : ∀ el ∈ s.waiter.elements, el.hAssoc ∈ s.shared.hHandleQueue ∧
    ∃ b, backing config.core config.build el.hAssoc = some b ∧ b.event = el.hEvent
  plain : ∀ t e, s.thread t = .resetStore e → ¬ BacksQueue config e
  adding : ∀ t h hAssoc, (s.thread t).adds = some (h, hAssoc) →
    addAssoc config.core config.build h = some hAssoc

omit [DecidableEq Tid] in
theorem Created.shape (h : Created config s) : Shape config s where
  nonnull := by simp [h.members]
  place := by simp [h.waiter]
  found := by simp [h.waiter]
  known := by simp [h.waiter, WaiterPc.elements]
  plain := by simp [h.thread]
  adding := by simp [h.thread, Pc.adds]

omit [DecidableEq Tid] in
theorem Shape.wait (hi : Shape config s) {w : World} {pc : WaiterPc}
    (h : WaiterEffect config.core config.build s.shared.hHandleQueue s.shared.world s.waiter w pc) :
    Shape config { s with shared := { s.shared with world := w }, waiter := pc } := by
  obtain ⟨hnonnull, hplace, hfound, hknown, hplain, hadding⟩ := hi
  obtain ⟨shared, waiter, thread⟩ := s
  dsimp only at *
  cases h with
  | rest _ _ hpass helements hreset =>
    refine ⟨hnonnull, ?_, fun h hpc => absurd hpc (hreset h), ?_, hplain, hadding⟩
    · rintro i scan rfl
      have hzero : ¬ 0 < i := hpass 0
      omega
    · exact fun el hel => hknown el (helements el hel)
  | find hget hevent =>
    refine ⟨hnonnull, by simp, ?_, by simp [WaiterPc.elements], hplain, hadding⟩
    rintro h ⟨⟩
    exact ⟨List.mem_of_getElem? hget, hevent⟩
  | scanReset => exact ⟨hnonnull, by simp, by simp, by simp [WaiterPc.elements], hplain, hadding⟩
  | pollReset hpass helements hreset =>
    refine ⟨hnonnull, ?_, fun h hpc => absurd hpc (hreset h), ?_, hplain, hadding⟩
    · rintro i scan rfl
      have hzero : ¬ 0 < i := hpass 0
      omega
    · exact fun el hel => hknown el (List.mem_cons_of_mem _ (helements el hel))
  | pass hget =>
    refine ⟨hnonnull, ?_, by simp, ?_, hplain, hadding⟩
    · rintro i scan ⟨⟩
      exact (List.getElem?_eq_some_iff.mp hget).1
    · intro el hel
      rcases visit_elements hel with hold | ⟨rfl, b, hb, hev⟩
      · exact hknown el hold
      · exact ⟨List.mem_of_getElem? hget, b, hb, hev⟩
  | poll =>
    exact ⟨hnonnull, by simp, by simp, hknown, hplain, hadding⟩

theorem Shape.step (hi : Shape config s) (h : Effect config s s') : Shape config s' := by
  cases h with
  | wait hw => exact hi.wait hw
  | @call t op hidle hok =>
    have hqueue : ∀ h ∈ (enter config s.shared op).1.hHandleQueue,
        h ∈ s.shared.hHandleQueue ∨ op = .add h := by
      intro h hh
      cases op with
      | add g =>
        rcases List.mem_append.mp hh with hh | hh
        · exact .inl hh
        · exact .inr (by rw [List.mem_singleton.mp hh])
      | _ => exact .inl hh
    have hgrow : ∀ {h}, h ∈ s.shared.hHandleQueue →
        h ∈ (enter config s.shared op).1.hHandleQueue := by
      intro h hh
      cases op with
      | add g => exact List.mem_append_left _ hh
      | _ => exact hh
    have hlength : s.shared.hHandleQueue.length ≤
        (enter config s.shared op).1.hHandleQueue.length := by
      cases op with
      | add g => simp [enter]
      | _ => exact Nat.le_refl _
    refine ⟨?_, fun i scan hpc => (hi.place i scan hpc).trans hlength,
      fun h hpc => (hi.found h hpc).imp_left hgrow, ?_, ?_, ?_⟩
    · intro h hh
      rcases hqueue h hh with hh | rfl
      · exact hi.nonnull h hh
      · exact hok.1
    · intro el hel
      obtain ⟨hmem, hb⟩ := hi.known el hel
      exact ⟨hgrow hmem, hb⟩
    · intro u e hu
      by_cases hut : u = t
      · subst hut
        simp only [Function.update_self] at hu
        cases enter_resetStore hu
        exact hok
      · simp only [Function.update_of_ne hut] at hu
        exact hi.plain u e hu
    · intro u h hAssoc hu
      by_cases hut : u = t
      · subst hut
        simp only [Function.update_self] at hu
        exact enter_adds hu
      · simp only [Function.update_of_ne hut] at hu
        exact hi.adding u h hAssoc hu
  | @run t pc hpc _ =>
    have hqueue : (exec config s.shared pc).1.hHandleQueue = s.shared.hHandleQueue := by
      cases pc <;> rfl
    refine ⟨hqueue ▸ hi.nonnull, hqueue ▸ hi.place, hqueue ▸ hi.found, hqueue ▸ hi.known, ?_, ?_⟩
    · intro u e hu
      by_cases hut : u = t
      · subst hut
        simp only [Function.update_self] at hu
        exact absurd hu (exec_ne_resetStore _ _ _)
      · simp only [Function.update_of_ne hut] at hu
        exact hi.plain u e hu
    · intro u h hAssoc hu
      by_cases hut : u = t
      · subst hut
        simp only [Function.update_self] at hu
        exact hi.adding u h hAssoc (hpc ▸ exec_adds hu)
      · simp only [Function.update_of_ne hut] at hu
        exact hi.adding u h hAssoc hu
  | other => exact ⟨hi.nonnull, hi.place, hi.found, hi.known, hi.plain, hi.adding⟩

end Shape

section Backing

theorem backing_queue {core : Core} {build : Build} {h q : Handle} {b : Backing}
    (hb : backing core build h = some b) (hq : b.queue = some q) : b.event = core.waitqEvent q := by
  unfold backing at hb
  split at hb
  · cases hb
    cases hq
    rfl
  · cases hb
    cases hq
    rfl
  · cases hb
    cases hq
  · obtain ⟨_, hb⟩ := Option.ite_none_right_eq_some.mp hb
    cases hb
    cases hq
  · obtain ⟨_, hb⟩ := Option.ite_none_right_eq_some.mp hb
    cases hb
    cases hq
  · cases hb

theorem backing_smb {core : Core} {build : Build} {o : Handle}
    (ho : core.handleType o = .fssmbOverlapped) :
    backing core build o =
      some ⟨core.waitqEvent (core.overlappedWaitQ o), some (core.overlappedWaitQ o)⟩ := by
  simp [backing, ho]

theorem backing_event {core : Core} {build : Build} {h : Handle}
    (hh : core.handleType h = .event) : backing core build h = some ⟨h, none⟩ := by
  simp [backing, hh]

theorem addAssoc_backed (hstd : Standard config) {h : Handle} {b : Backing}
    (hb : backing config.core config.build h = some b) :
    addAssoc config.core config.build h = some b.event := by
  unfold backing at hb
  unfold addAssoc
  cases htype : config.core.handleType h with
  | waitQueue | event =>
    rw [htype] at hb
    cases hb
    rfl
  | fssmbOverlapped =>
    rw [htype] at hb
    cases hb
    exact congrArg some (hstd.overlapped h htype)
  | fsresolverOverlapped =>
    simp only [htype] at hb
    obtain ⟨hopt, hb⟩ := Option.ite_none_right_eq_some.mp hb
    cases hb
    exact if_pos hopt
  | fsandroidOverlapped =>
    simp only [htype] at hb
    obtain ⟨-, hb⟩ := Option.ite_none_right_eq_some.mp hb
    cases hb
    rfl
  | _ =>
    rw [htype] at hb
    cases hb

theorem addTest_backed {core : Core} {build : Build} {w : World} {h : Handle} {b : Backing}
    (hb : backing core build h = some b) :
    core.handleType h = .fssmbOverlapped ∧ addTest core w h b.event = w.signalled b.event ∨
      addTest core w h b.event = b.ready w := by
  unfold backing at hb
  unfold addTest
  cases htype : core.handleType h with
  | waitQueue | event =>
    rw [htype] at hb
    cases hb
    exact .inr rfl
  | fssmbOverlapped => exact .inl ⟨rfl, rfl⟩
  | fsresolverOverlapped | fsandroidOverlapped =>
    simp only [htype] at hb
    obtain ⟨-, hb⟩ := Option.ite_none_right_eq_some.mp hb
    cases hb
    exact .inr rfl
  | _ =>
    rw [htype] at hb
    cases hb

end Backing

section Registered

/-- The event behind a member knows the set, or the thread that adds it is about to tell. -/
def Registered (config : Config) (s : State Tid) : Prop :=
  ∀ h ∈ s.shared.hHandleQueue, ∀ b, backing config.core config.build h = some b →
    s.shared.hasSet b.event = true ∨ ∃ t hAssoc, s.thread t = .addSetApp h hAssoc

theorem Registered.step (hstd : Standard config) (hr : Registered config s)
    (hi : Shape config s) (h : Effect config s s') : Registered config s' := by
  intro g hg b hb
  cases h with
  | wait => exact hr g hg b hb
  | @call t op hidle hok =>
    have hkeep : g ∈ s.shared.hHandleQueue → s.shared.hasSet b.event = true ∨
        ∃ u a, Function.update s.thread t (enter config s.shared op).2 u = .addSetApp g a := by
      intro hg
      rcases hr g hg b hb with hset | ⟨u, a, hu⟩
      · exact .inl hset
      · have hut : u ≠ t := by
          rintro rfl
          rw [hidle] at hu
          cases hu
        exact .inr ⟨u, a, by rw [Function.update_of_ne hut, hu]⟩
    cases op with
    | add k =>
      rcases List.mem_append.mp hg with hg | hg
      · exact hkeep hg
      · obtain rfl := List.mem_singleton.mp hg
        exact .inr ⟨t, b.event, by simp [enter, addAssoc_backed hstd hb]⟩
    | _ => exact hkeep hg
  | @run t pc hpc _ =>
    have hkeep : g ∈ s.shared.hHandleQueue → (∀ a, pc ≠ .addSetApp g a) →
        s.shared.hasSet b.event = true ∨
        ∃ u a, Function.update s.thread t (exec config s.shared pc).2 u = .addSetApp g a := by
      intro hg hother
      rcases hr g hg b hb with hset | ⟨u, a, hu⟩
      · exact .inl hset
      · have hut : u ≠ t := by
          rintro rfl
          exact hother a (hpc.symm.trans hu)
        exact .inr ⟨u, a, by rw [Function.update_of_ne hut, hu]⟩
    cases pc with
    | addSetApp k hAssoc =>
      by_cases hkg : k = g
      · subst hkg
        have hassoc := hi.adding t k hAssoc (by rw [hpc]; rfl)
        rw [addAssoc_backed hstd hb] at hassoc
        cases hassoc
        exact .inl (by simp [exec])
      · rcases hkeep hg (by simp [hkg]) with hset | hwill
        · left
          simp only [exec]
          by_cases heq : b.event = hAssoc
          · rw [heq, Function.update_self]
          · rw [Function.update_of_ne heq, hset]
        · exact .inr hwill
    | _ => exact hkeep hg (by simp)
  | other => exact hr g hg b hb

end Registered

end CoreAndroid.Waitset
