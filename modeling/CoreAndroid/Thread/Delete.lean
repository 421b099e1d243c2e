import CoreAndroid.Lib.Machine
import CoreAndroid.Thread.Record
import CoreAndroid.Waitset.Waiter

/-! A thread that waits on its set until it is to be deleted, and the threads that ask
for that. -/
namespace CoreAndroid.Thread
open Waitset (Core Build World WaiterPc PollAnswer waiterStep Blocked ofcWaitsetSignalImpl
  ofcWaitsetWakeImpl)

structure Config where
  core : Core
  build : Build
  hSet : Handle
  pipeFile : Int
  capacity : Nat

inductive LoopPc where
  | register -- about to call `ofc_thread_set_waitset_impl`
  | test -- about to call `ofc_thread_is_deleting_impl`
  | wait (pc : WaiterPc)
  | finished

structure LoopState (Tid : Type) where
  record : AndroidThread
  world : World
  hHandleQueue : List Handle
  loop : LoopPc
  call : Tid → CallPc
  deleted : Bool -- a call of `ofc_thread_delete_impl` has completed after the registration

inductive LoopAction (Tid : Type) where
  | loop (answer : PollAnswer) -- the next step of the looping thread
  | delete (t : Tid) -- a call of `ofc_thread_delete_impl`
  | run (t : Tid)
  | message (hEvent : Handle) -- a message about an event of the set
  -- whatever else happens to the members of the set
  | other (world : World) (hHandleQueue : List Handle)

variable (config : Config) {Tid : Type} [DecidableEq Tid]

def afterWait : WaiterPc → LoopPc
  | .outside _ => .test
  | pc => .wait pc

def loopStep (s : LoopState Tid) (answer : PollAnswer) : LoopPc → Option (LoopState Tid)
  | .register =>
      some { s with record := { s.record with waitSet := config.hSet }, loop := .test }
  | .test =>
      some { s with
        loop := if s.record.deleteMe then .finished else .wait (.outside handleNull) }
  | .wait pc =>
      (waiterStep config.core config.build s.hHandleQueue config.pipeFile answer s.world pc).map
        fun (w, pc) => { s with world := w, loop := afterWait pc }
  | .finished => none

def wakeAt (s : LoopState Tid) (pc : CallPc) : World :=
  if pc = .deleteWake ∧ s.record.waitSet = config.hSet
  then { s.world with pipe := ofcWaitsetWakeImpl config.capacity s.world.pipe }
  else s.world

def callStep (s : LoopState Tid) (t : Tid) : CallPc → Option (LoopState Tid)
  | .idle => none
  | .unlock _ =>
      some { s with
        call := Function.update s.call t .idle
        deleted := s.deleted || s.record.waitSet ≠ handleNull }
  -- the record is there as long as its thread loops
  | .lock op => some { s with call := Function.update s.call t op.locked }
  | pc =>
      let (record, next) := access s.record pc
      some { s with
        record := record
        world := wakeAt config s pc
        call := Function.update s.call t next }

def loopSystem : Machine (LoopState Tid) (LoopAction Tid) where
  init s := s.record.waitSet = handleNull ∧ s.record.deleteMe = false ∧ s.loop = .register ∧
    (∀ t, s.call t = .idle) ∧ s.deleted = false
  step s
    | .loop answer => loopStep config s answer s.loop
    | .delete t =>
        if s.call t = .idle then some { s with call := Function.update s.call t (.lock .delete) }
        else none
    | .run t => callStep config s t (s.call t)
    | .message hEvent =>
        some { s with world :=
          { s.world with pipe := ofcWaitsetSignalImpl config.capacity hEvent s.world.pipe } }
    | .other world hHandleQueue =>
        some { s with world := { world with pipe := s.world.pipe }, hHandleQueue := hHandleQueue }

/-- Between a false test and the end of the purge: the wait will discard what the pipe
holds. -/
def LoopPc.discards : LoopPc → Bool
  | .wait (.outside _) | .wait .purge => true
  | _ => false

/-- No delete writes its wake while the loop is about to discard it. -/
def Timely (s : LoopState Tid) : LoopAction Tid → Prop
  | .run t => s.call t = .deleteWake → s.loop.discards = false
  | _ => True

/-- The loop comes to the test before it blocks. -/
def Awake : LoopPc → List Handle → Prop
  | .wait (.outside _), _ | .wait .purge, _ => False
  | .wait (.scan _ _), pipe | .wait (.scanReset _), pipe | .wait (.poll _), pipe => pipe ≠ []
  | _, _ => True

/-- Some delete has written its wake, or found that there is no set to wake. -/
def Told (s : LoopState Tid) : Prop := s.deleted = true ∨ ∃ t ret, s.call t = .unlock ret

def OfDelete : CallPc → Prop
  | .idle | .lock .delete | .deleteStore | .deleteTest | .deleteWake | .unlock _ => True
  | _ => False

structure LoopInv (config : Config) (s : LoopState Tid) : Prop where
  calls : ∀ t, OfDelete (s.call t)
  unregistered : s.loop = .register → s.record.waitSet = handleNull
  registered : s.loop ≠ .register → s.record.waitSet = config.hSet
  marked : (Told s ∨ ∃ t, s.call t = .deleteTest ∨ s.call t = .deleteWake) →
    s.record.deleteMe = true
  awake : Told s → Awake s.loop s.world.pipe

variable {config}

theorem awake_wait {hHandleQueue : List Handle} {answer : PollAnswer} {w w' : World}
    {pc pc' : WaiterPc}
    (h : waiterStep config.core config.build hHandleQueue config.pipeFile answer w pc =
      some (w', pc'))
    (ha : Awake (.wait pc) w.pipe) : Awake (afterWait pc') w'.pipe := by
  cases pc with
  | outside | purge => exact ha.elim
  | scan place scan =>
    simp only [waiterStep] at h
    split at h
    · cases h
      exact ha
    · split at h
      · cases h
        exact ha
      · split at h <;> cases h
        · exact ha
        · trivial
        · exact ha
  | scanReset g =>
    cases h
    trivial
  | poll scan =>
    obtain ⟨-, h⟩ := Option.ite_none_right_eq_some.mp h
    split at h <;> cases h <;> trivial
  | pollRead eventQueue =>
    simp only [waiterStep] at h
    split at h
    · cases h
      trivial
    · split at h
      · cases h
        trivial
      · split at h <;> cases h <;> trivial
  | pollTest eventQueue el =>
    simp only [waiterStep] at h
    split at h
    · split at h <;> cases h
      · trivial
      · unfold Waitset.afterElement
        split <;> trivial
    · cases h
      trivial
  | pollReset eventQueue el =>
    cases h
    unfold Waitset.afterElement
    split <;> trivial

theorem awake_signal {capacity : Nat} (hEvent : Handle) {pc : LoopPc} {pipe : List Handle}
    (hcap : 0 < capacity) (ha : pc.discards = false) :
    Awake pc (ofcWaitsetSignalImpl capacity hEvent pipe) := by
  have hne := Waitset.signal_ne_nil hcap hEvent pipe
  unfold Awake
  split
  · cases ha
  · cases ha
  · exact hne
  · exact hne
  · exact hne
  · trivial

variable {s s' : LoopState Tid}

omit [DecidableEq Tid] in
theorem LoopInv.loop (hi : LoopInv config s) {answer : PollAnswer}
    (h : loopStep config s answer s.loop = some s') : LoopInv config s' := by
  obtain ⟨hcalls, hunreg, hreg, hmarked, hawake⟩ := hi
  cases hloop : s.loop with
  | register =>
    rw [hloop] at h
    cases h
    exact ⟨hcalls, by simp, fun _ => rfl, hmarked, fun _ => trivial⟩
  | test =>
    rw [hloop] at h
    cases h
    refine ⟨hcalls, ?_, fun _ => hreg (by simp [hloop]), hmarked, ?_⟩
    · intro hno
      dsimp only at hno
      split at hno <;> cases hno
    · intro htold
      have hdelete : s.record.deleteMe = true := hmarked (.inl htold)
      simp [hdelete, Awake]
  | wait pc =>
    rw [hloop] at h
    obtain ⟨⟨w, pc'⟩, hw, rfl⟩ := Option.map_eq_some_iff.mp h
    have hset : s.record.waitSet = config.hSet := hreg (by simp [hloop])
    refine ⟨hcalls, ?_, fun _ => hset, hmarked, ?_⟩
    · intro hno
      dsimp only [afterWait] at hno
      split at hno <;> cases hno
    · intro htold
      exact awake_wait hw (hloop ▸ hawake htold)
  | finished =>
    rw [hloop] at h
    cases h

theorem calls_update {call : Tid → CallPc} {t : Tid} {next : CallPc}
    (h : ∀ u, OfDelete (call u)) (hnext : OfDelete next) (u : Tid) :
    OfDelete (Function.update call t next u) := by
  by_cases hut : u = t
  · subst hut
    rwa [Function.update_self]
  · rw [Function.update_of_ne hut]
    exact h u

theorem exists_of_update {P : CallPc → Prop} {call : Tid → CallPc} {t : Tid} {next : CallPc}
    (hnext : ¬ P next) (h : ∃ u, P (Function.update call t next u)) : ∃ u, P (call u) := by
  obtain ⟨u, hu⟩ := h
  by_cases hut : u = t
  · subst hut
    rw [Function.update_self] at hu
    exact absurd hu hnext
  · rw [Function.update_of_ne hut] at hu
    exact ⟨u, hu⟩

theorem told_of_update {record : AndroidThread} {world : World} {t : Tid} {next : CallPc}
    (hnext : ∀ ret, next ≠ .unlock ret)
    (h : Told { s with
      record := record, world := world, call := Function.update s.call t next }) : Told s := by
  rcases h with hdeleted | hcall
  · exact .inl hdeleted
  · refine .inr (exists_of_update (P := fun pc => ∃ ret, pc = .unlock ret) ?_ hcall)
    rintro ⟨ret, hret⟩
    exact hnext ret hret

theorem LoopInv.call (hset : config.hSet ≠ handleNull) (hcap : 0 < config.capacity)
    (hi : LoopInv config s) {t : Tid} (hok : s.call t = .deleteWake → s.loop.discards = false)
    (h : callStep config s t (s.call t) = some s') : LoopInv config s' := by
  obtain ⟨hcalls, hunreg, hreg, hmarked, hawake⟩ := hi
  have hpending : ∀ {next}, next ≠ .deleteTest ∧ next ≠ .deleteWake →
      (∃ u, Function.update s.call t next u = .deleteTest ∨
        Function.update s.call t next u = .deleteWake) →
      ∃ u, s.call u = .deleteTest ∨ s.call u = .deleteWake := fun hnext =>
    exists_of_update (P := fun pc => pc = .deleteTest ∨ pc = .deleteWake) (not_or.mpr hnext)
  have hnull : s.record.waitSet = handleNull → s.loop = .register := by
    intro hw
    by_contra hno
    exact hset ((hreg hno).symm.trans hw)
  have hcall := hcalls t
  cases ht : s.call t with
  | idle =>
    rw [ht] at h
    cases h
  | lock op =>
    rw [ht] at h hcall
    cases op with
    | delete =>
      cases h
      refine ⟨calls_update hcalls trivial, hunreg, hreg, ?_, ?_⟩
      · rintro (htold | hcall)
        · exact hmarked (.inl (told_of_update (by simp [Op.locked]) htold))
        · exact hmarked (.inr (hpending (by simp [Op.locked]) hcall))
      · exact fun htold => hawake (told_of_update (by simp [Op.locked]) htold)
    | _ => exact hcall.elim
  | deleteStore =>
    rw [ht] at h
    cases h
    refine ⟨calls_update hcalls trivial, hunreg, hreg, fun _ => rfl, ?_⟩
    exact fun htold => hawake (told_of_update (by simp) htold)
  | deleteTest =>
    have hdelete : s.record.deleteMe = true := hmarked (.inr ⟨t, .inl ht⟩)
    rw [ht] at h
    cases h
    by_cases hw : s.record.waitSet = handleNull
    · refine ⟨calls_update hcalls (by simp [hw, OfDelete]), hunreg, hreg,
        fun _ => hdelete, ?_⟩
      intro _
      dsimp only
      rw [hnull hw]
      trivial
    · refine ⟨calls_update hcalls (by simp [hw, OfDelete]), hunreg, hreg,
        fun _ => hdelete, ?_⟩
      exact fun htold => hawake (told_of_update (by simp [hw]) htold)
  | deleteWake =>
    have hdelete : s.record.deleteMe = true := hmarked (.inr ⟨t, .inr ht⟩)
    rw [ht] at h
    cases h
    refine ⟨calls_update hcalls trivial, hunreg, hreg, fun _ => hdelete, ?_⟩
    intro _
    by_cases hloop : s.loop = .register
    · dsimp only
      rw [hloop]
      trivial
    · simp only [wakeAt, hreg hloop, and_self, if_true]
      exact awake_signal handleNull hcap (hok ht)
  | unlock ret =>
    have htold : Told s := .inr ⟨t, ret, ht⟩
    rw [ht] at h
    cases h
    exact ⟨calls_update hcalls trivial, hunreg, hreg, fun _ => hmarked (.inl htold),
      fun _ => hawake htold⟩
  | _ =>
    rw [ht] at hcall
    exact hcall.elim

theorem loop_inv_reach (hset : config.hSet ≠ handleNull) (hcap : 0 < config.capacity)
    (h : (loopSystem config).ReachWhere Timely s) : LoopInv config s := by
  apply h.invariant
  · rintro s ⟨hwaitSet, _, hloop, hcall, hdeleted⟩
    have htold : ¬ Told s := by
      rintro (hd | ⟨t, ret, ht⟩)
      · simp [hdeleted] at hd
      · simp [hcall] at ht
    refine ⟨by simp [hcall, OfDelete], fun _ => hwaitSet, fun hno => absurd hloop hno, ?_,
      fun hd => absurd hd htold⟩
    rintro (hd | ⟨t, ht⟩)
    · exact absurd hd htold
    · simp [hcall] at ht
  · intro s a s' _ hi hok hs
    cases a with
    | loop answer => exact hi.loop hs
    | delete t =>
      obtain ⟨hidle, hs⟩ := Option.ite_none_right_eq_some.mp hs
      cases hs
      refine ⟨calls_update hi.calls trivial, hi.unregistered, hi.registered, ?_, ?_⟩
      · rintro (htold | hcall)
        · exact hi.marked (.inl (told_of_update (by simp) htold))
        · exact hi.marked (.inr (exists_of_update
            (P := fun pc => pc = .deleteTest ∨ pc = .deleteWake) (by simp) hcall))
      · exact fun htold => hi.awake (told_of_update (by simp) htold)
    | run t => exact hi.call hset hcap hok hs
    | message hEvent =>
      cases hs
      refine ⟨hi.calls, hi.unregistered, hi.registered, hi.marked, ?_⟩
      intro htold
      have ha := hi.awake htold
      cases hd : s.loop.discards with
      | false => exact awake_signal hEvent hcap hd
      | true =>
        exfalso
        unfold LoopPc.discards at hd
        split at hd
        · rename_i hloop
          rw [hloop] at ha
          exact ha
        · rename_i hloop
          rw [hloop] at ha
          exact ha
        · cases hd
    | other world hHandleQueue =>
      cases hs
      exact ⟨hi.calls, hi.unregistered, hi.registered, hi.marked, hi.awake⟩

/-- No delete request is lost, in every run in which no delete writes its wake between a
false test of the looping thread and the end of the purge that follows. -/
theorem no_delete_lost (config : Config) (hset : config.hSet ≠ handleNull)
    (hcap : 0 < config.capacity) (s : LoopState Tid)
    (h : (loopSystem config).ReachWhere Timely s) (hdeleted : s.deleted = true) :
    ∀ pc, s.loop = .wait pc → ¬ Blocked s.world pc := by
  rintro pc hloop ⟨⟨scan, rfl⟩, hempty⟩
  have ha := (loop_inv_reach hset hcap h).awake (.inl hdeleted)
  rw [hloop] at ha
  exact ha hempty

instance (s : LoopState Tid) : (a : LoopAction Tid) → Decidable (Timely s a)
  | .run _ => inferInstanceAs (Decidable (_ → _))
  | .loop _ | .delete _ | .message _ | .other _ _ => inferInstanceAs (Decidable True)

def emptySet : Config := ⟨Waitset.fewHandles, ⟨false, false⟩, 8, 9, 1⟩

def aboutToLoop : LoopState Unit where
  record := ⟨false, .join, handleNull⟩
  world := Waitset.fewWaits
  hHandleQueue := []
  loop := .register
  call _ := .idle
  deleted := false

theorem aboutToLoop_init : (loopSystem emptySet).init aboutToLoop :=
  ⟨rfl, rfl, rfl, fun _ => rfl, rfl⟩

def oneDelete : List (LoopAction Unit) :=
  [.delete (), .run (), .run (), .run (), .run (), .run ()]

def loops (n : Nat) : List (LoopAction Unit) := List.replicate n (.loop Waitset.noAnswer)

theorem no_delete_lost_blocked : ∃ s : LoopState Unit, s.deleted = true ∧
    ∀ pc, s.loop = .wait pc → ¬ Blocked s.world pc := by
  have hrun : ((loopSystem emptySet).runWhere Timely aboutToLoop (loops 5 ++ oneDelete)).map
      (fun s => s.deleted) = some true := by decide
  obtain ⟨s, hs, hdeleted⟩ := Option.map_eq_some_iff.mp hrun
  exact ⟨s, hdeleted, no_delete_lost emptySet (by decide) (by decide) s
    (Machine.ReachWhere.runWhere (.init aboutToLoop_init) hs) hdeleted⟩

def LoopPc.atPoll : LoopPc → Bool
  | .wait pc => pc.atPoll
  | _ => false

/-- A delete that comes between the test and the purge. -/
theorem delete_lost : ¬ ∀ s : LoopState Unit, (loopSystem emptySet).Reach s →
    s.deleted = true → ∀ pc, s.loop = .wait pc → ¬ Blocked s.world pc := by
  intro hall
  have hrun : ((loopSystem emptySet).run aboutToLoop (loops 2 ++ oneDelete ++ loops 4)).map
      (fun s => (s.deleted, s.loop.atPoll, s.world.pipe)) = some (true, true, []) := by decide
  obtain ⟨s, hs, hlast⟩ := Option.map_eq_some_iff.mp hrun
  simp only [Prod.mk.injEq] at hlast
  obtain ⟨hdeleted, hpoll, hempty⟩ := hlast
  have hreach := Machine.Reach.run (.init aboutToLoop_init) hs
  cases hloop : s.loop with
  | wait pc =>
    rw [hloop] at hpoll
    exact hall s hreach hdeleted pc hloop (Waitset.blocked_of_atPoll hpoll hempty)
  | _ =>
    rw [hloop] at hpoll
    cases hpoll

end CoreAndroid.Thread
