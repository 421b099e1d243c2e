import CoreAndroid.Waitset.Registration

/-! No event is lost: while the waiting thread is blocked with an empty pipe, a ready
member has a thread on the way that will write to the pipe. -/
namespace CoreAndroid.Waitset

variable {config : Config} {Tid : Type} [DecidableEq Tid] {s s' : State Tid}

section Flagged

def Kept (config : Config) (s : State Tid) : Prop :=
  ∀ o, config.core.handleType o = .fssmbOverlapped →
    let q := config.core.overlappedWaitQ o
    s.shared.world.items q ≠ 0 →
      Represented config s.shared q ∨ ∀ h ∈ s.shared.hHandleQueue, Respects config q h

def Ahead (config : Config) (s : State Tid) (q : Handle) : Prop :=
  Represented config s.shared q ∧
    ∀ i h, s.shared.hHandleQueue[i]? = some h → OnQueue config q h → ¬ Passed s.waiter i

/-- The event of the wait queue of an SMB overlapped is signalled while the queue has
items, unless a thread is about to set it or the wait, which took the signal, comes to the
queue again before it blocks. -/
def Flagged (config : Config) (s : State Tid) : Prop :=
  ∀ o, config.core.handleType o = .fssmbOverlapped →
    let q := config.core.overlappedWaitQ o
    s.shared.world.items q ≠ 0 →
      s.shared.world.signalled (config.core.waitqEvent q) = true ∨
      (∃ t, s.thread t = .setStore (config.core.waitqEvent q)) ∨ Ahead config s q

theorem reset_other {w : World} {e e' : Handle} (hne : e ≠ e') (h : w.signalled e = true) :
    (w.reset e').signalled e = true := by
  simpa [World.reset, Function.update_of_ne hne] using h

theorem WaiterEffect.items {core : Core} {build : Build} {hHandleQueue : List Handle}
    {w w' : World} {pc pc' : WaiterPc}
    (h : WaiterEffect core build hHandleQueue w pc w' pc') : w'.items = w.items := by
  cases h with
  | rest _ hitem => exact hitem
  | _ => rfl

theorem Kept.step (hk : Kept config s) (h : Effect config s s') : Kept config s' := by
  intro o ho q hitems
  cases h with
  | wait hw => exact hk o ho (by rwa [← hw.items])
  | @call t op hidle hok =>
    cases op with
    | put q' =>
      by_cases hqq : q = q'
      · exact hqq ▸ hok o ho hqq
      · exact hk o ho (by simpa [enter, World.put, Function.update_of_ne hqq] using hitems)
    | add k =>
      rcases hk o ho hitems with ⟨g, hg, hon⟩ | hrespects
      · exact .inl ⟨g, List.mem_append_left _ hg, hon⟩
      · rcases hok.2 o ho hitems with ⟨g, hg, hon⟩ | hadded
        · exact .inl ⟨g, List.mem_append_left _ hg, hon⟩
        · right
          intro h hh
          rcases List.mem_append.mp hh with hh | hh
          · exact hrespects h hh
          · rwa [List.mem_singleton.mp hh]
    | _ => exact hk o ho hitems
  | @run t pc => cases pc <;> exact hk o ho hitems
  | other _ _ hitem => exact hk o ho (hitem q hitems)

omit [DecidableEq Tid] in
theorem Flagged.wait (hf : Flagged config s) (hi : Shape config s) (hkept : Kept config s)
    {w : World} {pc : WaiterPc}
    (h : WaiterEffect config.core config.build s.shared.hHandleQueue s.shared.world s.waiter w pc) :
    Flagged config { s with shared := { s.shared with world := w }, waiter := pc } := by
  intro o ho q hitems
  obtain ⟨shared, waiter, thread⟩ := s
  dsimp only at *
  have hold := hf o ho
  have hmember := hkept o ho
  dsimp only at hold hmember
  cases h with
  | rest hsig hitem hpass =>
    rw [hitem] at hitems
    rw [hsig]
    rcases hold hitems with hflag | hset | ⟨hmem, -⟩
    · exact .inl hflag
    · exact .inr (.inl hset)
    · exact .inr (.inr ⟨hmem, fun i _ _ _ => hpass i⟩)
  | find hget hevent =>
    rcases hold hitems with hflag | hset | ⟨hmem, -⟩
    · exact .inl hflag
    · exact .inr (.inl hset)
    · exact .inr (.inr ⟨hmem, fun _ _ _ _ => not_false⟩)
  | @scanReset g =>
    obtain ⟨hg, hevent⟩ := hi.found _ rfl
    rcases hmember hitems with hmem | hrespects
    · exact .inr (.inr ⟨hmem, fun _ _ _ _ => not_false⟩)
    · have hne : config.core.waitqEvent q ≠ g := by
        rintro rfl
        cases hrespects _ hg _ (backing_event hevent) rfl
      rcases hold hitems with hflag | hset | ⟨hmem, -⟩
      · exact .inl (reset_other hne hflag)
      · exact .inr (.inl hset)
      · exact .inr (.inr ⟨hmem, fun _ _ _ _ => not_false⟩)
  | @pollReset eventQueue el _ hpass =>
    by_cases heq : config.core.waitqEvent q = el.hEvent
    · have hmem : Represented config shared q := by
        rcases hmember hitems with hmem | hrespects
        · exact hmem
        · obtain ⟨hassoc, b, hb, hev⟩ := hi.known el List.mem_cons_self
          exact ⟨_, hassoc, b, hb, hrespects _ hassoc b hb (hev.trans heq.symm)⟩
      exact .inr (.inr ⟨hmem, fun i _ _ _ => hpass i⟩)
    · rcases hold hitems with hflag | hset | ⟨hmem, -⟩
      · exact .inl (reset_other heq hflag)
      · exact .inr (.inl hset)
      · exact .inr (.inr ⟨hmem, fun i _ _ _ => hpass i⟩)
  | @pass place scan g hget hunready =>
    rcases hold hitems with hflag | hset | ⟨hmem, hahead⟩
    · exact .inl hflag
    · exact .inr (.inl hset)
    · refine .inr (.inr ⟨hmem, ?_⟩)
      intro i k hk hon hpassed
      rcases Nat.lt_succ_iff_lt_or_eq.mp hpassed with hlt | rfl
      · exact hahead i k hk hon hlt
      · rw [hget] at hk
        cases hk
        obtain ⟨b, hb, hq⟩ := hon
        have hno := hunready b hb
        simp only [Backing.ready, hq, World.waitqEmpty, Bool.not_eq_false',
          decide_eq_true_eq] at hno
        exact hitems hno
  | @poll place scan hend =>
    rcases hold hitems with hflag | hset | ⟨⟨g, hg, hon⟩, hahead⟩
    · exact .inl hflag
    · exact .inr (.inl hset)
    · -- every member was passed
      exfalso
      obtain ⟨i, hi', hget⟩ := List.mem_iff_getElem.mp hg
      have hsome : shared.hHandleQueue[i]? = some g := by rw [List.getElem?_eq_getElem hi', hget]
      refine hahead i g hsome hon ?_
      change i < place
      by_contra hge
      have hplace : place < shared.hHandleQueue.length :=
        Nat.lt_of_le_of_lt (Nat.le_of_not_lt hge) hi'
      have hnull := hend _ (List.getElem?_eq_getElem hplace)
      exact hi.nonnull _ (List.getElem_mem hplace) hnull

omit [DecidableEq Tid] in
theorem Shape.passed_end (hi : Shape config s) {i : Nat} (hpassed : Passed s.waiter i)
    (hend : s.shared.hHandleQueue.length ≤ i) (j : Nat) : Passed s.waiter j := by
  obtain ⟨shared, waiter, thread⟩ := s
  cases waiter with
  | scan place scan =>
    have hplace := hi.place place scan rfl
    have hlt : i < place := hpassed
    dsimp only at hplace hend
    omega
  | poll => trivial
  | _ => cases hpassed

omit [DecidableEq Tid] in
theorem Ahead.append {q : Handle} (ha : Ahead config s q) (hi : Shape config s) (k : Handle)
    (thread : Tid → Pc) :
    Ahead config
      { s with
        shared := { s.shared with hHandleQueue := s.shared.hHandleQueue ++ [k] }
        thread := thread } q := by
  obtain ⟨⟨g, hg, hon⟩, hahead⟩ := ha
  refine ⟨⟨g, List.mem_append_left _ hg, hon⟩, ?_⟩
  intro i h hget hh hpassed
  by_cases hlt : i < s.shared.hHandleQueue.length
  · exact hahead i h (by rwa [List.getElem?_append_left hlt] at hget) hh hpassed
  · obtain ⟨j, hj⟩ := List.mem_iff_getElem?.mp hg
    exact hahead j g hj hon (hi.passed_end hpassed (Nat.le_of_not_lt hlt) j)

theorem Flagged.step (hf : Flagged config s) (hi : Shape config s) (hk : Kept config s)
    (h : Effect config s s') : Flagged config s' := by
  cases h with
  | wait hw => exact hf.wait hi hk hw
  | @call t op hidle _ =>
    intro o ho q hitems
    have hset : ∀ {pc}, (∃ u, s.thread u = .setStore (config.core.waitqEvent q)) →
        ∃ u, Function.update s.thread t pc u = .setStore (config.core.waitqEvent q) := by
      rintro pc ⟨u, hu⟩
      have hut : u ≠ t := by
        rintro rfl
        rw [hidle] at hu
        cases hu
      exact ⟨u, by rw [Function.update_of_ne hut, hu]⟩
    cases op with
    | put q' =>
      by_cases hqq : q = q'
      · exact .inr (.inl ⟨t, by simp [enter, hqq]⟩)
      · have hsame : s.shared.world.items q ≠ 0 := by
          simpa [enter, World.put, Function.update_of_ne hqq] using hitems
        rcases hf o ho hsame with hflag | hwill | hahead
        · exact .inl hflag
        · exact .inr (.inl (hset hwill))
        · exact .inr (.inr hahead)
    | add k =>
      rcases hf o ho hitems with hflag | hwill | hahead
      · exact .inl hflag
      · exact .inr (.inl (hset hwill))
      · exact .inr (.inr (hahead.append hi k _))
    | _ =>
      rcases hf o ho hitems with hflag | hwill | hahead
      · exact .inl hflag
      · exact .inr (.inl (hset hwill))
      · exact .inr (.inr hahead)
  | @run t pc hpc _ =>
    intro o ho q hitems
    have hset : ∀ {pc'}, pc ≠ .setStore (config.core.waitqEvent q) →
        (∃ u, s.thread u = .setStore (config.core.waitqEvent q)) →
        ∃ u, Function.update s.thread t pc' u = .setStore (config.core.waitqEvent q) := by
      rintro pc' hother ⟨u, hu⟩
      have hut : u ≠ t := by
        rintro rfl
        exact hother (hpc.symm.trans hu)
      exact ⟨u, by rw [Function.update_of_ne hut, hu]⟩
    cases pc with
    | setStore e =>
      by_cases heq : config.core.waitqEvent q = e
      · exact .inl (by simp [exec, World.set, heq])
      · rcases hf o ho hitems with hflag | hwill | hahead
        · left
          simpa [exec, World.set, Function.update_of_ne heq] using hflag
        · exact .inr (.inl (hset (by simpa using Ne.symm heq) hwill))
        · exact .inr (.inr hahead)
    | resetStore e =>
      have hne : config.core.waitqEvent q ≠ e := by
        rintro rfl
        exact hi.plain t _ hpc ⟨o, _, backing_smb ho, by simp, rfl⟩
      rcases hf o ho hitems with hflag | hwill | hahead
      · exact .inl (reset_other hne hflag)
      · exact .inr (.inl (hset (by simp) hwill))
      · exact .inr (.inr hahead)
    | _ =>
      rcases hf o ho hitems with hflag | hwill | hahead
      · exact .inl hflag
      · exact .inr (.inl (hset (by simp) hwill))
      · exact .inr (.inr hahead)
  | other hsig _ hitem =>
    intro o ho q hitems
    rcases hf o ho (hitem _ hitems) with hflag | hwill | hahead
    · exact .inl (by rw [← hflag]; exact congrFun hsig _)
    · exact .inr (.inl hwill)
    · exact .inr (.inr hahead)

end Flagged

section Heard

/-- The thread has not yet come to the point where it writes to the pipe about this
member, or leaves that to the thread that adds it. -/
def Signals (h : Handle) (b : Backing) : Pc → Prop
  | .setStore hEvent | .setGetWaitSet hEvent | .setSignal hEvent => hEvent = b.event
  | .addSetApp g _ | .addTest g _ | .addSignal g _ => g = h
  | _ => False

/-- With an empty pipe, a ready member that the wait has passed is about to be told of. -/
def Heard (config : Config) (s : State Tid) : Prop :=
  s.shared.world.pipe = [] → ∀ i h b, s.shared.hHandleQueue[i]? = some h →
    Passed s.waiter i → backing config.core config.build h = some b →
    b.ready s.shared.world = true → ∃ t, Signals h b (s.thread t)

omit [DecidableEq Tid] in
theorem Heard.wait (hh : Heard config s) (hi : Shape config s) {w : World} {pc : WaiterPc}
    (h : WaiterEffect config.core config.build s.shared.hHandleQueue s.shared.world s.waiter w pc) :
    Heard config { s with shared := { s.shared with world := w }, waiter := pc } := by
  intro hempty i g b hget hpassed hb hready
  obtain ⟨shared, waiter, thread⟩ := s
  dsimp only at *
  cases h with
  | rest _ _ hpass => exact absurd hpassed (hpass i)
  | pollReset hpass => exact absurd hpassed (hpass i)
  | find | scanReset => cases hpassed
  | @pass place scan k hk hunready =>
    rcases Nat.lt_succ_iff_lt_or_eq.mp hpassed with hlt | rfl
    · exact hh hempty i g b hget hlt hb hready
    · rw [hget] at hk
      cases hk
      rw [hunready b hb] at hready
      cases hready
  | @poll place scan hend =>
    refine hh hempty i g b hget ?_ hb hready
    change i < place
    by_contra hge
    have hlt : i < shared.hHandleQueue.length := (List.getElem?_eq_some_iff.mp hget).1
    have hplace : place < shared.hHandleQueue.length :=
      Nat.lt_of_le_of_lt (Nat.le_of_not_lt hge) hlt
    exact hi.nonnull _ (List.getElem_mem hplace) (hend _ (List.getElem?_eq_getElem hplace))

theorem ready_of_set {w : World} {e : Handle} {b : Backing} (hne : e ≠ b.event)
    (h : b.ready (w.set e) = true) : b.ready w = true := by
  unfold Backing.ready at h ⊢
  split at h
  · exact h
  · simpa [World.set, Function.update_of_ne (Ne.symm hne)] using h

theorem ready_of_reset {w : World} {e : Handle} {b : Backing} (h : b.ready (w.reset e) = true) :
    b.ready w = true := by
  unfold Backing.ready at h ⊢
  split at h
  · exact h
  · by_cases heq : b.event = e
    · simp [World.reset, heq] at h
    · simpa [World.reset, Function.update_of_ne heq] using h

theorem ready_of_put {w : World} {q : Handle} {b : Backing} (hne : b.queue ≠ some q)
    (h : b.ready (w.put q) = true) : b.ready w = true := by
  unfold Backing.ready at h ⊢
  split at h
  · rename_i q' hq'
    have hqq : q' ≠ q := by
      rintro rfl
      exact hne hq'
    simpa [World.waitqEmpty, World.put, Function.update_of_ne hqq] using h
  · exact h

theorem Heard.run (hstd : Standard config) (hcap : 0 < config.capacity) (hh : Heard config s)
    (hi : Shape config s) (hr : Registered config s) (hf : Flagged config s) {t : Tid} {pc : Pc}
    (hpc : s.thread t = pc) :
    Heard config
      { s with
        shared := (exec config s.shared pc).1
        thread := Function.update s.thread t (exec config s.shared pc).2 } := by
  intro hempty i h b hget hpassed hb hready
  -- a signal of another thread is still to come
  have hother : ∀ {u pc'}, u ≠ t → Signals h b (s.thread u) →
      ∃ u, Signals h b (Function.update s.thread t pc' u) := by
    intro u pc' hut hu
    exact ⟨u, by rwa [Function.update_of_ne hut]⟩
  have hown : ∀ {pc'}, Signals h b pc' → ∃ u, Signals h b (Function.update s.thread t pc' u) :=
    fun hsig => ⟨t, by rwa [Function.update_self]⟩
  have hkeep : ∀ {pc'}, (Signals h b pc → Signals h b pc') → (∃ u, Signals h b (s.thread u)) →
      ∃ u, Signals h b (Function.update s.thread t pc' u) := by
    rintro pc' hsame ⟨u, hu⟩
    by_cases hut : u = t
    · subst hut
      exact hown (hsame (hpc ▸ hu))
    · exact hother hut hu
  cases pc with
  | idle => exact hkeep id (hh hempty i h b hget hpassed hb hready)
  | setStore e =>
    by_cases heq : e = b.event
    · exact hown heq
    · exact hkeep id (hh hempty i h b hget hpassed hb (ready_of_set heq hready))
  | setGetWaitSet e =>
    have hwill := hh hempty i h b hget hpassed hb hready
    simp only [exec]
    split
    · exact hkeep id hwill
    · rename_i hno
      by_cases heq : e = b.event
      · rcases hr h (List.mem_of_getElem? hget) b hb with hset | ⟨u, a, hu⟩
        · exact absurd (heq ▸ hset) hno
        · have hut : u ≠ t := by
            rintro rfl
            rw [hpc] at hu
            cases hu
          exact hother hut (by rw [hu]; rfl)
      · exact hkeep (fun hsig => absurd hsig heq) hwill
  | setSignal e | addSignal g a | wakeSignal =>
    exact absurd hempty (signal_ne_nil hcap _ _)
  | setUnlock e | testRead e =>
    exact hkeep id (hh hempty i h b hget hpassed hb hready)
  | resetStore e =>
    exact hkeep id (hh hempty i h b hget hpassed hb (ready_of_reset hready))
  | addSetApp g a => exact hkeep id (hh hempty i h b hget hpassed hb hready)
  | addTest g a =>
    have hwill := hh hempty i h b hget hpassed hb hready
    simp only [exec]
    split
    · exact hkeep id hwill
    · rename_i hno
      by_cases hgh : g = h
      · subst hgh
        have hassoc := hi.adding t g a (by rw [hpc]; rfl)
        rw [addAssoc_backed hstd hb] at hassoc
        cases hassoc
        rcases addTest_backed (w := s.shared.world) hb with ⟨ho, htest⟩ | htest
        · -- the event of an SMB overlapped is down although its wait queue has items
          rw [backing_smb ho] at hb
          cases hb
          have hitems : s.shared.world.items (config.core.overlappedWaitQ g) ≠ 0 := by
            simpa [exec, Backing.ready, World.waitqEmpty] using hready
          rcases hf g ho hitems with hflag | ⟨u, hu⟩ | ⟨-, hahead⟩
          · exact absurd (htest.trans hflag) hno
          · have hut : u ≠ t := by
              rintro rfl
              rw [hpc] at hu
              cases hu
            exact hother hut (by rw [hu]; rfl)
          · exact absurd hpassed (hahead i g hget ⟨_, backing_smb ho, rfl⟩)
        · exact absurd (htest.trans hready) hno
      · exact hkeep (fun hsig => absurd hsig hgh) hwill

theorem Heard.call (hstd : Standard config) (hh : Heard config s) {t : Tid} {op : Op}
    (hidle : s.thread t = .idle) :
    Heard config
      { s with
        shared := (enter config s.shared op).1
        thread := Function.update s.thread t (enter config s.shared op).2 } := by
  intro hempty i h b hget hpassed hb hready
  have hown : ∀ {pc'}, Signals h b pc' → ∃ u, Signals h b (Function.update s.thread t pc' u) :=
    fun hsig => ⟨t, by rwa [Function.update_self]⟩
  have hkeep : ∀ {pc'}, (∃ u, Signals h b (s.thread u)) →
      ∃ u, Signals h b (Function.update s.thread t pc' u) := by
    rintro pc' ⟨u, hu⟩
    have hut : u ≠ t := by
      rintro rfl
      rw [hidle] at hu
      exact hu
    exact ⟨u, by rwa [Function.update_of_ne hut]⟩
  cases op with
  | put q =>
    by_cases hq : b.queue = some q
    · exact hown (backing_queue hb hq).symm
    · exact hkeep (hh hempty i h b hget hpassed hb (ready_of_put hq hready))
  | add k =>
    by_cases hlt : i < s.shared.hHandleQueue.length
    · have hsame := (List.getElem?_append_left hlt).symm.trans hget
      exact hkeep (hh hempty i h b hsame hpassed hb hready)
    · have hk : h = k := by
        have hget' := (List.getElem?_append_right (Nat.le_of_not_lt hlt)).symm.trans hget
        exact (List.mem_singleton.mp (List.mem_of_getElem? hget'))
      subst hk
      exact ⟨t, by simp [enter, addAssoc_backed hstd hb, Signals]⟩
  | _ => exact hkeep (hh hempty i h b hget hpassed hb hready)

theorem Heard.step (hstd : Standard config) (hcap : 0 < config.capacity) (hh : Heard config s)
    (hi : Shape config s) (hr : Registered config s) (hf : Flagged config s)
    (h : Effect config s s') : Heard config s' := by
  cases h with
  | wait hw => exact hh.wait hi hw
  | call hidle => exact hh.call hstd hidle
  | run hpc => exact hh.run hstd hcap hi hr hf hpc
  | @other w hsig hpipe hitem =>
    intro hempty i h b hget hpassed hb hready
    refine hh (hpipe ▸ hempty) i h b hget hpassed hb ?_
    unfold Backing.ready at hready ⊢
    split at hready
    · rename_i q hq
      simp only [World.waitqEmpty, Bool.not_eq_true', decide_eq_false_iff_not] at hready ⊢
      exact hitem q hready
    · rwa [← hsig]

end Heard

structure Inv (config : Config) (s : State Tid) : Prop where
  shape : Shape config s
  registered : Registered config s
  kept : Kept config s
  flagged : Flagged config s
  heard : Heard config s

omit [DecidableEq Tid] in
theorem Created.inv (h : Created config s) : Inv config s where
  shape := h.shape
  registered := by simp [Registered, h.members]
  kept := by simp [Kept, h.members]
  flagged o ho hitems := .inl (h.queues o ho hitems)
  heard _ i g b hget := by simp [h.members] at hget

theorem inv_reach (hstd : Standard config) (hcap : 0 < config.capacity)
    (h : (system config).ReachWhere (Allowed config) s) : Inv config s := by
  apply h.invariant
  · exact fun s hs => hs.inv
  · intro s a s' _ hi hok hs
    have heff := step_effect hok hs
    exact ⟨hi.shape.step heff, hi.registered.step hstd hi.shape heff, hi.kept.step heff,
      hi.flagged.step hi.shape hi.kept heff,
      hi.heard.step hstd hcap hi.shape hi.registered hi.flagged heff⟩

def Busy (h : Handle) (b : Backing) : Pc → Prop
  | .setStore hEvent | .setGetWaitSet hEvent | .setSignal hEvent | .setUnlock hEvent =>
      hEvent = b.event
  | .addSetApp g _ | .addTest g _ | .addSignal g _ => g = h
  | _ => False

theorem busy_of_signals {h : Handle} {b : Backing} {pc : Pc} (hs : Signals h b pc) :
    Busy h b pc := by
  cases pc with
  | setUnlock => cases hs
  | _ => exact hs

/-- While the wait is blocked, each ready member has a thread in a call about it. -/
def NoneLost (config : Config) (s : State Tid) : Prop :=
  Blocked s.shared.world s.waiter → ∀ h ∈ s.shared.hHandleQueue, ∀ b,
    backing config.core config.build h = some b → b.ready s.shared.world = true →
      ∃ t, Busy h b (s.thread t)

omit [DecidableEq Tid] in
theorem Inv.noneLost (hi : Inv config s) : NoneLost config s := by
  rintro ⟨⟨scan, hpoll⟩, hempty⟩ h hh b hb hready
  obtain ⟨i, hget⟩ := List.mem_iff_getElem?.mp hh
  have hpassed : Passed s.waiter i := by
    rw [hpoll]
    trivial
  obtain ⟨t, ht⟩ := hi.heard hempty i h b hget hpassed hb hready
  exact ⟨t, busy_of_signals ht⟩

/-- No event is lost: while the waiting thread is blocked in the poll with an empty pipe,
no event-backed member is ready unless a thread has not finished its call about it. -/
theorem no_event_lost (config : Config) (hstd : Standard config) (hcap : 0 < config.capacity)
    (s : State Tid) (h : (system config).ReachWhere (Allowed config) s)
    (hblocked : Blocked s.shared.world s.waiter) :
    ∀ g ∈ s.shared.hHandleQueue, ∀ b, backing config.core config.build g = some b →
      b.ready s.shared.world = true → ∃ t, Busy g b (s.thread t) :=
  (inv_reach hstd hcap h).noneLost hblocked

section Empty

/-- The steps of others when items come to members only. -/
def MembersOnly (config : Config) (s : State Tid) : Action Tid → Prop
  | .call _ (.reset hEvent) => ¬ BacksQueue config hEvent
  | .call _ (.put hWaitQ) => Represented config s.shared hWaitQ
  | .call _ (.add h) => h ≠ handleNull
  | _ => True

def emptySystem (config : Config) : Machine (State Tid) (Action Tid) where
  init s := Created config s ∧ ∀ q, s.shared.world.items q = 0
  step := step config

theorem members_step {a : Action Tid} (h : step config s a = some s') {g : Handle}
    (hg : g ∈ s.shared.hHandleQueue) : g ∈ s'.shared.hHandleQueue := by
  cases a with
  | wait answer =>
    obtain ⟨_, -, rfl⟩ := Option.map_eq_some_iff.mp h
    exact hg
  | call t op =>
    obtain ⟨-, h⟩ := Option.ite_none_right_eq_some.mp h
    cases h
    cases op with
    | add k => exact List.mem_append_left _ hg
    | _ => exact hg
  | run t =>
    obtain ⟨-, h⟩ := Option.ite_none_left_eq_some.mp h
    cases h
    cases s.thread t <;> exact hg
  | take | pass =>
    cases h
    exact hg

theorem exec_items (config : Config) (sh : Shared) (pc : Pc) :
    (exec config sh pc).1.world.items = sh.world.items := by
  cases pc <;> rfl

theorem items_step {a : Action Tid} (h : step config s a = some s') {q : Handle}
    (hq : s'.shared.world.items q ≠ 0) :
    s.shared.world.items q ≠ 0 ∨ ∃ t, a = .call t (.put q) := by
  cases a with
  | wait answer =>
    obtain ⟨⟨w, pc⟩, hw, rfl⟩ := Option.map_eq_some_iff.mp h
    exact .inl ((waiter_effect hw).items ▸ hq)
  | call t op =>
    obtain ⟨-, h⟩ := Option.ite_none_right_eq_some.mp h
    cases h
    cases op with
    | put q' =>
      by_cases hqq : q = q'
      · exact .inr ⟨t, by rw [hqq]⟩
      · exact .inl (by simpa [enter, World.put, hqq] using hq)
    | _ => exact .inl hq
  | run t =>
    obtain ⟨-, h⟩ := Option.ite_none_left_eq_some.mp h
    cases h
    have hexec := exec_items config s.shared (s.thread t)
    exact .inl (hexec ▸ hq)
  | take q' =>
    cases h
    left
    by_cases hqq : q = q'
    · subst hqq
      simp only [Function.update_self] at hq
      omega
    · simpa [hqq] using hq
  | pass =>
    cases h
    exact .inl hq

theorem allowed_of_membersOnly (h : (emptySystem config).ReachWhere (MembersOnly config) s) :
    (system config).ReachWhere (Allowed config) s ∧
      ∀ q, s.shared.world.items q ≠ 0 → Represented config s.shared q := by
  induction h with
  | init hs => exact ⟨.init hs.1, fun q hq => absurd (hs.2 q) hq⟩
  | @step s s' a _ hok hs ih =>
    obtain ⟨hreach, hitems⟩ := ih
    have hallowed : Allowed config s a := by
      cases a with
      | call t op =>
        cases op with
        | reset e => exact hok
        | put q => exact fun o _ ho => .inl hok
        | add k => exact ⟨hok, fun o _ hne => .inl (hitems _ hne)⟩
        | _ => trivial
      | _ => trivial
    have hstep : step config s a = some s' := hs
    refine ⟨hreach.step hallowed hstep, fun q hq => ?_⟩
    have hbefore : Represented config s.shared q := by
      rcases items_step hstep hq with hold | ⟨t, rfl⟩
      · exact hitems q hold
      · exact hok
    obtain ⟨g, hg, hon⟩ := hbefore
    exact ⟨g, members_step hstep hg, hon⟩

/-- So no event is lost from empty wait queues on, if items come to members only. -/
theorem none_lost_from_empty (config : Config) (hstd : Standard config)
    (hcap : 0 < config.capacity) (s : State Tid)
    (h : (emptySystem config).ReachWhere (MembersOnly config) s) : NoneLost config s :=
  (inv_reach hstd hcap (allowed_of_membersOnly h).1).noneLost

end Empty

def oneOverlapped : Config where
  core :=
    { handleType := fun h =>
        if h = 5 then .waitQueue else if h = 6 then .fssmbOverlapped
        else if h = 7 then .event else .other
      waitqEvent := fun _ => 7
      overlappedWaitQ := fun _ => 5
      overlappedEvent := fun _ => 7
      resolverOverlappedEvent := id
      androidOverlappedEvent := id
      fileIsAndroid := fun _ => false
      fileFsHandle := id
      androidFd := fun h => h
      socketImpl := id
      eventType := fun _ => .auto
      maxSchedWait := 1000 }
  build := ⟨false, false⟩
  pipeFile := 9
  capacity := 1

def quietSet : State (Fin 2) where
  shared :=
    { world := fewWaits
      hHandleQueue := []
      hasSet := fun _ => false }
  waiter := .outside handleNull
  thread := fun _ => .idle

def addThenBlock : List (Action (Fin 2)) :=
  [.call 0 (.add 6), .run 0, .run 0, .wait noAnswer, .wait noAnswer, .wait noAnswer,
    .wait noAnswer]

theorem addThenBlock_allowed : ∀ a ∈ addThenBlock, ∀ s, Allowed oneOverlapped s a := by
  have hadd : ∀ s : State (Fin 2), Allowed oneOverlapped s (.call 0 (.add 6)) := by
    intro s
    refine ⟨by decide, fun o _ _ => .inr ?_⟩
    rintro b ⟨⟩ _
    rfl
  exact List.forall_mem_cons.mpr ⟨hadd, by simp [Allowed]⟩

theorem no_event_lost_put : ∃ s : State (Fin 2), Blocked s.shared.world s.waiter ∧
    (⟨7, some 5⟩ : Backing).ready s.shared.world = true ∧
    ∃ t, Busy 6 ⟨7, some 5⟩ (s.thread t) := by
  have hrun : ((system oneOverlapped).run quietSet addThenBlock).map (fun s =>
      (s.waiter.atPoll, s.shared.world.pipe, s.shared.hHandleQueue, decide (s.thread 1 = .idle))) =
      some (true, [], [6], true) := by decide
  obtain ⟨s, hs, hlast⟩ := Option.map_eq_some_iff.mp hrun
  simp only [Prod.mk.injEq, decide_eq_true_eq] at hlast
  obtain ⟨hpoll, hempty, hmembers, hidle⟩ := hlast
  have hinit : (system oneOverlapped).ReachWhere (Allowed oneOverlapped) quietSet :=
    .init ⟨rfl, rfl, rfl, rfl, fun _ _ hitems => absurd rfl hitems⟩
  have hmember : 6 ∈ s.shared.hHandleQueue := by simp [hmembers]
  have hput : Allowed oneOverlapped s (.call 1 (.put 5)) :=
    fun _ _ _ => .inl ⟨6, hmember, ⟨7, some 5⟩, rfl, rfl⟩
  have hreach := (hinit.run addThenBlock_allowed hs).step hput (if_pos hidle)
  have hblocked := blocked_of_atPoll hpoll hempty
  have hready : (⟨7, some 5⟩ : Backing).ready (s.shared.world.put 5) = true := by
    simp [Backing.ready, World.waitqEmpty, World.put]
  have htold := no_event_lost oneOverlapped ⟨fun _ _ => rfl⟩ Nat.one_pos _ hreach hblocked 6
    hmember ⟨7, some 5⟩ rfl hready
  refine ⟨_, ?_, ?_, htold⟩
  · exact hblocked
  · exact hready

end CoreAndroid.Waitset
