import CoreAndroid.Lib.Progress
import CoreAndroid.Waitset.NoLostEvent

/-! The wait gets on: each call returns after a bounded number of steps, and while a member
is ready and nobody else is in a call, the waiting thread comes to be told of a member. -/
namespace CoreAndroid.Waitset
open Machine (LeadsTo)

def remaining (len : Nat) (w : World) : WaiterPc → Nat
  | .outside _ => 0
  | .scanReset _ => 1
  | .pollRead _ => 3 * w.pipe.length + 1
  | .pollReset _ _ => 3 * w.pipe.length + 2
  | .pollTest _ _ => 3 * w.pipe.length + 3
  | .poll _ => 3 * w.pipe.length + 2
  | .scan place _ => (len - place) + 3 * w.pipe.length + 3
  | .purge => len + 4 * w.pipe.length + 4

section Falls
variable {core : Core} {build : Build} {hHandleQueue : List Handle} {pipeFile : Int}
  {answer : PollAnswer} {w w' : World} {pc pc' : WaiterPc}

theorem remaining_afterElement (len : Nat) (w : World) (eventQueue : List EventElement)
    (el : EventElement) :
    remaining len w (afterElement eventQueue el) ≤ 3 * w.pipe.length + 1 := by
  unfold afterElement
  split
  · exact Nat.le_refl _
  · exact Nat.zero_le _

theorem waiter_falls (hcall : ∀ h, pc ≠ .outside h)
    (h : waiterStep core build hHandleQueue pipeFile answer w pc = some (w', pc')) :
    remaining hHandleQueue.length w' pc' < remaining hHandleQueue.length w pc := by
  cases pc with
  | outside g => exact absurd rfl (hcall g)
  | purge =>
    simp only [waiterStep] at h
    split at h
    · cases h
      simp only [remaining]
      omega
    · rename_i hpipe
      cases h
      simp only [remaining, hpipe, List.length_cons]
      omega
  | scan place scan =>
    simp only [waiterStep] at h
    split at h
    · cases h
      simp only [remaining]
      omega
    · rename_i g hplace
      have hlt : place < hHandleQueue.length := (List.getElem?_eq_some_iff.mp hplace).1
      split at h
      · cases h
        simp only [remaining]
        omega
      · split at h <;> cases h <;> simp only [remaining] <;> omega
  | scanReset g =>
    cases h
    exact Nat.one_pos
  | poll scan =>
    obtain ⟨-, h⟩ := Option.ite_none_right_eq_some.mp h
    split at h <;> cases h <;> simp only [remaining] <;> omega
  | pollRead eventQueue =>
    simp only [waiterStep] at h
    split at h
    · cases h
      exact Nat.succ_pos _
    · rename_i hEvent pipe hpipe
      have hlength : w.pipe.length = pipe.length + 1 := by rw [hpipe, List.length_cons]
      split at h
      · cases h
        exact Nat.succ_pos _
      · split at h <;> cases h <;> simp only [remaining, hlength] <;> omega
  | pollTest eventQueue el =>
    have hafter := remaining_afterElement hHandleQueue.length w eventQueue el
    simp only [waiterStep] at h
    split at h
    · split at h
      · cases h
        exact Nat.lt_succ_self _
      · cases h
        exact hafter.trans_lt (by simp [remaining])
    · cases h
      simp [remaining]
  | pollReset eventQueue el =>
    cases h
    exact Nat.lt_succ_of_le (remaining_afterElement _ _ _ _)

theorem waiterStep_isSome (hpoll : ∀ scan, pc = .poll scan → answer.fits w = true) :
    (waiterStep core build hHandleQueue pipeFile answer w pc).isSome = true := by
  cases pc with
  | outside | scanReset | pollReset => rfl
  | purge =>
    simp only [waiterStep]
    split <;> rfl
  | scan place scan =>
    simp only [waiterStep]
    split
    · rfl
    · split
      · rfl
      · split <;> rfl
  | poll scan =>
    simp only [waiterStep, hpoll scan rfl, if_true]
    split <;> rfl
  | pollRead eventQueue =>
    simp only [waiterStep]
    split
    · rfl
    · split
      · rfl
      · split <;> rfl
  | pollTest eventQueue el =>
    simp only [waiterStep]
    split
    · split <;> rfl
    · rfl

end Falls

variable {config : Config} {Tid : Type} [DecidableEq Tid] {s t : State Tid}

def ByWaiter : Action Tid → Prop
  | .wait _ => True
  | _ => False

def ByPipe : Action Tid → Prop
  | .wait answer => 0 < answer.pollCount ∧ answer.revents 0 ≠ 0
  | _ => False

def Told (s : State Tid) : Prop :=
  ∃ h ∈ s.shared.hHandleQueue, h ≠ handleNull ∧ s.waiter = .outside h

def ReadyMember (config : Config) (s : State Tid) : Prop :=
  ∃ h ∈ s.shared.hHandleQueue, ∃ b, backing config.core config.build h = some b ∧
    b.ready s.shared.world = true

/-- Nobody is in a call, and some member is ready. -/
structure Pending (config : Config) (s : State Tid) : Prop where
  reach : (system config).ReachWhere (Allowed config) s
  quiet : ∀ t, s.thread t = .idle
  ready : ReadyMember config s

theorem wait_step {answer : PollAnswer} (h : (system config).step s (.wait answer) = some t) :
    ∃ w pc, waiterStep config.core config.build s.shared.hHandleQueue config.pipeFile answer
        s.shared.world s.waiter = some (w, pc) ∧
      t = { s with shared := { s.shared with world := w }, waiter := pc } := by
  obtain ⟨⟨w, pc⟩, hw, rfl⟩ := Option.map_eq_some_iff.mp h
  exact ⟨w, pc, hw, rfl⟩

omit [DecidableEq Tid] in
theorem ReadyMember.of_same (hr : ReadyMember config s) {w : World} {pc : WaiterPc}
    (hsig : w.signalled = s.shared.world.signalled) (hitem : w.items = s.shared.world.items) :
    ReadyMember config { s with shared := { s.shared with world := w }, waiter := pc } := by
  obtain ⟨h, hh, b, hb, hready⟩ := hr
  refine ⟨h, hh, b, hb, ?_⟩
  simpa only [Backing.ready, World.waitqEmpty, hsig, hitem] using hready

theorem Pending.wait (hstd : Standard config) (hcap : 0 < config.capacity)
    (hp : Pending config s) {answer : PollAnswer}
    (h : (system config).step s (.wait answer) = some t) : Told t ∨ Pending config t := by
  have hshape := (inv_reach hstd hcap hp.reach).shape
  have hreach : (system config).ReachWhere (Allowed config) t :=
    hp.reach.step (a := .wait answer) trivial h
  obtain ⟨w, pc, hw, rfl⟩ := wait_step h
  have hkeep : w.signalled = s.shared.world.signalled → w.items = s.shared.world.items →
      Pending config { s with shared := { s.shared with world := w }, waiter := pc } :=
    fun hsig hitem => ⟨hreach, hp.quiet, hp.ready.of_same hsig hitem⟩
  cases hpc : s.waiter with
  | scanReset g =>
    rw [hpc] at hw
    cases hw
    have hg := (hshape.found g hpc).1
    exact .inl ⟨g, hg, hshape.nonnull g hg, rfl⟩
  | pollReset eventQueue el =>
    rw [hpc] at hw
    cases hw
    have hel := (hshape.known el (by simp [hpc, WaiterPc.elements])).1
    have hnonnull := hshape.nonnull _ hel
    exact .inl ⟨el.hAssoc, hel, hnonnull, if_neg hnonnull⟩
  | _ =>
    right
    have heff := waiter_effect hw
    rw [hpc] at heff
    cases heff <;> first | exact hkeep ‹_› ‹_› | exact hkeep rfl rfl

theorem Pending.pipe (hstd : Standard config) (hcap : 0 < config.capacity)
    (hp : Pending config s) {scan : Scan} (hpoll : s.waiter = .poll scan) :
    s.shared.world.pipe ≠ [] := by
  intro hempty
  obtain ⟨h, hh, b, hb, hready⟩ := hp.ready
  obtain ⟨i, hget⟩ := List.mem_iff_getElem?.mp hh
  have hpassed : Passed s.waiter i := by
    rw [hpoll]
    trivial
  obtain ⟨u, hu⟩ := (inv_reach hstd hcap hp.reach).heard hempty i h b hget hpassed hb hready
  rw [hp.quiet u] at hu
  exact hu

def pipeAnswer : PollAnswer := ⟨1, fun _ => 1⟩

theorem pipeAnswer_fits {w : World} (h : w.pipe ≠ []) : pipeAnswer.fits w = true := by
  simp [PollAnswer.fits, pipeAnswer, h]

theorem wait_enabled {answer : PollAnswer}
    (hpoll : ∀ scan, s.waiter = .poll scan → answer.fits s.shared.world = true) :
    ∃ t, (system config).step s (.wait answer) = some t := by
  have hsome : (waiterStep config.core config.build s.shared.hHandleQueue config.pipeFile answer
      s.shared.world s.waiter).isSome = true := waiterStep_isSome hpoll
  obtain ⟨r, hr⟩ := Option.isSome_iff_exists.mp hsome
  exact ⟨_, Option.map_eq_some_iff.mpr ⟨r, hr, rfl⟩⟩

theorem Pending.sure (hstd : Standard config) (hcap : 0 < config.capacity)
    (hp : Pending config s) : ∃ a t, ByPipe a ∧ (system config).step s a = some t := by
  obtain ⟨t, ht⟩ := wait_enabled fun _ hpoll => pipeAnswer_fits (hp.pipe hstd hcap hpoll)
  exact ⟨.wait pipeAnswer, t, ⟨Int.one_pos, by decide⟩, ht⟩

/-- The scan has yet to come to a ready member. -/
def Looking (config : Config) (s : State Tid) : Prop :=
  match s.waiter with
  | .purge | .scanReset _ => True
  | .scan place _ => ∃ i h b, place ≤ i ∧ s.shared.hHandleQueue[i]? = some h ∧
      backing config.core config.build h = some b ∧ b.ready s.shared.world = true
  | _ => False

theorem Looking.wait (hstd : Standard config) (hcap : 0 < config.capacity)
    (hl : Looking config s) (hp : Pending config s) {answer : PollAnswer}
    (hstep : (system config).step s (.wait answer) = some t) : Told t ∨ Looking config t := by
  have hshape := (inv_reach hstd hcap hp.reach).shape
  obtain ⟨w, pc, hw, rfl⟩ := wait_step hstep
  cases hpc : s.waiter with
  | purge =>
    right
    rw [hpc] at hw
    simp only [waiterStep] at hw
    split at hw
    · cases hw
      obtain ⟨h, hh, b, hb, hready⟩ := hp.ready
      obtain ⟨i, hget⟩ := List.mem_iff_getElem?.mp hh
      exact ⟨i, h, b, Nat.zero_le i, hget, hb, hready⟩
    · cases hw
      trivial
  | scanReset g =>
    rw [hpc] at hw
    cases hw
    have hg := (hshape.found g hpc).1
    exact .inl ⟨g, hg, hshape.nonnull g hg, rfl⟩
  | scan place scan =>
    simp only [Looking, hpc] at hl
    obtain ⟨i, h, b, hle, hget, hb, hready⟩ := hl
    have hplace : place < s.shared.hHandleQueue.length :=
      hle.trans_lt (List.getElem?_eq_some_iff.mp hget).1
    obtain ⟨g, hg⟩ : ∃ g, s.shared.hHandleQueue[place]? = some g :=
      ⟨_, List.getElem?_eq_getElem hplace⟩
    have hmem := List.mem_of_getElem? hg
    have hnonnull := hshape.nonnull g hmem
    -- the ready member itself is not passed
    have hnext : (∀ resets, look config.core config.build s.shared.world g ≠ .ready resets) →
        place + 1 ≤ i := by
      intro hunready
      refine Nat.lt_of_le_of_ne hle ?_
      rintro rfl
      rw [hg] at hget
      cases hget
      rw [unready_of_look hb hunready] at hready
      cases hready
    rw [hpc] at hw
    simp only [waiterStep, hg, hnonnull, if_false] at hw
    cases hlook : look config.core config.build s.shared.world g with
    | ready resets =>
      cases resets with
      | true =>
        simp only [hlook] at hw
        cases hw
        exact .inr trivial
      | false =>
        simp only [hlook] at hw
        cases hw
        exact .inl ⟨g, hmem, hnonnull, rfl⟩
    | _ =>
      simp only [hlook] at hw
      cases hw
      exact .inr ⟨i, h, b, hnext (by simp [hlook]), hget, hb, hready⟩
  | _ => simp [Looking, hpc] at hl

def callRank (s : State Tid) : Nat :=
  remaining s.shared.hHandleQueue.length s.shared.world s.waiter

theorem callRank_falls {a : Action Tid} (ha : ByWaiter a) (hcall : ∀ g, s.waiter ≠ .outside g)
    (h : (system config).step s a = some t) : callRank t < callRank s := by
  cases a with
  | wait answer =>
    obtain ⟨w, pc, hw, rfl⟩ := wait_step h
    exact waiter_falls hcall hw
  | _ => exact ha.elim

theorem wait_returns (config : Config) (s : State Tid) :
    (system config).LeadsTo ByWaiter ByWaiter (fun t => ∃ g, t.waiter = .outside g) s := by
  refine LeadsTo.of_rank (fun _ => True) callRank ?_ ?_ trivial
  · intro s _ _
    obtain ⟨answer, hfits⟩ : ∃ answer : PollAnswer, answer.fits s.shared.world = true := by
      by_cases hempty : s.shared.world.pipe = []
      · exact ⟨noAnswer, by simp [PollAnswer.fits, noAnswer, hempty]⟩
      · exact ⟨pipeAnswer, pipeAnswer_fits hempty⟩
    have hwait : ∃ t, (system config).step s (.wait answer) = some t :=
      wait_enabled fun _ _ => hfits
    obtain ⟨t, ht⟩ := hwait
    exact ⟨.wait answer, t, trivial, ht⟩
  · intro s a t _ hgoal ha ht
    exact ⟨trivial, callRank_falls ha (fun g hg => hgoal ⟨g, hg⟩) ht⟩

theorem Pending.call (hstd : Standard config) (hcap : 0 < config.capacity)
    (hp : Pending config s) :
    (system config).LeadsTo ByPipe ByWaiter
      (fun t => Told t ∨ Pending config t ∧ ∃ g, t.waiter = .outside g) s := by
  refine LeadsTo.of_rank (fun t => Told t ∨ Pending config t) callRank ?_ ?_ (.inr hp)
  · rintro s (htold | hp) hgoal
    · exact absurd (.inl htold) hgoal
    · exact hp.sure hstd hcap
  · rintro s a t (htold | hp) hgoal ha ht
    · exact absurd (.inl htold) hgoal
    · refine ⟨?_, callRank_falls ha (fun g hg => hgoal (.inr ⟨hp, g, hg⟩)) ht⟩
      cases a with
      | wait answer => exact hp.wait hstd hcap ht
      | _ => exact ha.elim

theorem Looking.told (hstd : Standard config) (hcap : 0 < config.capacity)
    (hl : Looking config s) (hp : Pending config s) :
    (system config).LeadsTo ByPipe ByWaiter Told s := by
  refine LeadsTo.of_rank (fun t => Told t ∨ Pending config t ∧ Looking config t) callRank ?_ ?_
    (.inr ⟨hp, hl⟩)
  · rintro s (htold | ⟨hp, -⟩) hgoal
    · exact absurd htold hgoal
    · exact hp.sure hstd hcap
  · rintro s a t (htold | ⟨hp, hl⟩) hgoal ha ht
    · exact absurd htold hgoal
    · have hcall : ∀ g, s.waiter ≠ .outside g := by
        intro g hg
        simp [Looking, hg] at hl
      refine ⟨?_, callRank_falls ha hcall ht⟩
      cases a with
      | wait answer =>
        rcases hp.wait hstd hcap ht with htold | hpending
        · exact .inl htold
        · exact (hl.wait hstd hcap hp ht).imp_right fun hlooking => ⟨hpending, hlooking⟩
      | _ => exact ha.elim

theorem Pending.outside (hstd : Standard config) (hcap : 0 < config.capacity)
    (hp : Pending config s) {g : Handle} (hg : s.waiter = .outside g) :
    (system config).LeadsTo ByPipe ByWaiter Told s := by
  refine .step (hp.sure hstd hcap) ?_
  intro a t ha ht
  cases a with
  | wait answer =>
    rcases hp.wait hstd hcap ht with htold | hpending
    · exact .here htold
    · refine Looking.told hstd hcap ?_ hpending
      obtain ⟨w, pc, hw, rfl⟩ := wait_step ht
      rw [hg] at hw
      cases hw
      trivial
  | _ => exact ha.elim

/-- While nobody else is in a call and an event-backed member is ready, the waiting thread
comes to be told of a member. It needs no timeout and no socket for that: wherever it
stands, it can go on with the messages in its pipe alone. -/
theorem ready_member_told (config : Config) (hstd : Standard config)
    (hcap : 0 < config.capacity) (s : State Tid)
    (h : (system config).ReachWhere (Allowed config) s) (hquiet : ∀ t, s.thread t = .idle)
    (hready : ReadyMember config s) : (system config).LeadsTo ByPipe ByWaiter Told s := by
  have hp : Pending config s := ⟨h, hquiet, hready⟩
  refine (hp.call hstd hcap).trans ?_
  rintro t (htold | ⟨hpending, g, hg⟩)
  · exact .here htold
  · exact hpending.outside hstd hcap hg

theorem ready_member_told_put : ∃ s : State (Fin 2), s.waiter.atPoll = true ∧
    (system oneOverlapped).LeadsTo ByPipe ByWaiter Told s := by
  have hrun : ((system oneOverlapped).run quietSet addThenBlock).map (fun s =>
      (s.shared.hHandleQueue,
        ((system oneOverlapped).run s [.call 1 (.put 5), .run 1, .run 1, .run 1, .run 1]).map
          fun t => (t.waiter.atPoll, t.shared.hHandleQueue, t.shared.world.items 5,
            decide (∀ u, t.thread u = .idle)))) =
      some ([6], some (true, [6], 1, true)) := by decide
  obtain ⟨s, hs, hlast⟩ := Option.map_eq_some_iff.mp hrun
  simp only [Prod.mk.injEq] at hlast
  obtain ⟨hmembers, hput⟩ := hlast
  obtain ⟨t, ht, hlast⟩ := Option.map_eq_some_iff.mp hput
  simp only [Prod.mk.injEq, decide_eq_true_eq] at hlast
  obtain ⟨hpoll, hmember, hitems, hquiet⟩ := hlast
  obtain ⟨u, hu, ht⟩ := Option.bind_eq_some_iff.mp ht
  have hinit : (system oneOverlapped).ReachWhere (Allowed oneOverlapped) quietSet :=
    .init ⟨rfl, rfl, rfl, rfl, fun _ _ hitems => absurd rfl hitems⟩
  have hallowed : Allowed oneOverlapped s (.call 1 (.put 5)) :=
    fun _ _ _ => .inl ⟨6, by simp [hmembers], ⟨7, some 5⟩, rfl, rfl⟩
  have hreach := ((hinit.run addThenBlock_allowed hs).step hallowed hu).run
    (by simp [Allowed]) ht
  have hready : ReadyMember oneOverlapped t :=
    ⟨6, by simp [hmember], ⟨7, some 5⟩, rfl, by simp [Backing.ready, World.waitqEmpty, hitems]⟩
  exact ⟨t, hpoll,
    ready_member_told oneOverlapped ⟨fun _ _ => rfl⟩ Nat.one_pos t hreach hquiet hready⟩

end CoreAndroid.Waitset
