import CoreAndroid.Thread.Delete
import CoreAndroid.Waitset.Progress

/-! A thread that has been told to go ends its loop: it comes to the test of its mark without a
timeout, and starts no further wait. -/
namespace CoreAndroid.Thread
open Machine (LeadsTo)
open Waitset (PollAnswer remaining waiterStep waiter_falls waiterStep_isSome pipeAnswer
  pipeAnswer_fits)

variable {config : Config} {Tid : Type} [DecidableEq Tid] {s s' : LoopState Tid}

def ByLoop : LoopAction Tid → Prop
  | .loop _ => True
  | _ => False

def ByWake : LoopAction Tid → Prop
  | .loop answer => 0 < answer.pollCount ∧ answer.revents 0 ≠ 0
  | _ => False

/-- The thread is marked for deletion, and a delete has told the loop. -/
structure Leaving (config : Config) (s : LoopState Tid) : Prop where
  inv : LoopInv config s
  deleted : s.deleted = true

def loopRank (s : LoopState Tid) : Nat :=
  match s.loop with
  | .finished => 0
  | .test => 1
  | .register => 2
  | .wait pc => remaining s.hHandleQueue.length s.world pc + 2

omit [DecidableEq Tid] in
theorem deleted_loop {answer : PollAnswer} (h : loopStep config s answer s.loop = some s') :
    s'.deleted = s.deleted := by
  cases hloop : s.loop with
  | register | test =>
    rw [hloop] at h
    cases h
    rfl
  | wait pc =>
    rw [hloop] at h
    obtain ⟨r, -, rfl⟩ := Option.map_eq_some_iff.mp h
    rfl
  | finished =>
    rw [hloop] at h
    cases h

omit [DecidableEq Tid] in
theorem Leaving.loop (hl : Leaving config s) {answer : PollAnswer}
    (h : loopStep config s answer s.loop = some s') : Leaving config s' :=
  ⟨hl.inv.loop h, (deleted_loop h).trans hl.deleted⟩

omit [DecidableEq Tid] in
theorem Leaving.falls (hl : Leaving config s) {answer : PollAnswer}
    (h : loopStep config s answer s.loop = some s') : loopRank s' < loopRank s := by
  have hawake := hl.inv.awake (.inl hl.deleted)
  have hmarked : s.record.deleteMe = true := hl.inv.marked (.inl (.inl hl.deleted))
  unfold loopRank
  cases hloop : s.loop with
  | register =>
    rw [hloop] at h
    cases h
    exact Nat.one_lt_two
  | test =>
    rw [hloop] at h
    cases h
    simp [hmarked]
  | wait pc =>
    rw [hloop] at h hawake
    obtain ⟨⟨w, pc'⟩, hw, rfl⟩ := Option.map_eq_some_iff.mp h
    have hcall : ∀ g, pc ≠ .outside g := by
      rintro g rfl
      exact hawake
    have hfalls := waiter_falls hcall hw
    cases pc' with
    | outside g =>
      simp only [afterWait]
      omega
    | _ =>
      simp only [afterWait]
      omega
  | finished =>
    rw [hloop] at h
    cases h

omit [DecidableEq Tid] in
theorem Leaving.enabled (hl : Leaving config s) (hrun : s.loop ≠ .finished) :
    ∃ t, loopStep config s pipeAnswer s.loop = some t := by
  have hawake := hl.inv.awake (.inl hl.deleted)
  cases hloop : s.loop with
  | register => exact ⟨_, rfl⟩
  | test => exact ⟨_, rfl⟩
  | wait pc =>
    rw [hloop] at hawake
    have hsome : (waiterStep config.core config.build s.hHandleQueue config.pipeFile pipeAnswer
        s.world pc).isSome = true := by
      apply waiterStep_isSome
      rintro scan rfl
      exact pipeAnswer_fits hawake
    obtain ⟨r, hr⟩ := Option.isSome_iff_exists.mp hsome
    exact ⟨_, Option.map_eq_some_iff.mpr ⟨r, hr, rfl⟩⟩
  | finished => exact absurd hloop hrun

/-- After a delete the loop ends, whatever the kernel answers, and it needs nothing from the
kernel but the message in its pipe; in every run in which no delete writes its wake between a
false test of the looping thread and the end of the purge that follows. -/
theorem deleted_loop_ends (config : Config) (hset : config.hSet ≠ handleNull)
    (hcap : 0 < config.capacity) (s : LoopState Tid)
    (h : (loopSystem config).ReachWhere Timely s) (hdeleted : s.deleted = true) :
    (loopSystem config).LeadsTo ByWake ByLoop (fun t => t.loop = .finished) s := by
  refine LeadsTo.of_rank (Leaving config) loopRank ?_ ?_ ⟨loop_inv_reach hset hcap h, hdeleted⟩
  · intro s hl hrun
    obtain ⟨t, ht⟩ := hl.enabled hrun
    exact ⟨.loop pipeAnswer, t, ⟨Int.one_pos, by decide⟩, ht⟩
  · intro s a t hl _ ha ht
    cases a with
    | loop answer => exact ⟨hl.loop ht, hl.falls ht⟩
    | _ => exact ha.elim

theorem deleted_loop_ends_blocked : ∃ s : LoopState Unit, s.loop.atPoll = true ∧
    (loopSystem emptySet).LeadsTo ByWake ByLoop (fun t => t.loop = .finished) s := by
  have hrun : ((loopSystem emptySet).runWhere Timely aboutToLoop (loops 5 ++ oneDelete)).map
      (fun s => (s.loop.atPoll, s.deleted)) = some (true, true) := by decide
  obtain ⟨s, hs, hlast⟩ := Option.map_eq_some_iff.mp hrun
  simp only [Prod.mk.injEq] at hlast
  obtain ⟨hpoll, hdeleted⟩ := hlast
  exact ⟨s, hpoll, deleted_loop_ends emptySet (by decide) (by decide) s
    (Machine.ReachWhere.runWhere (.init aboutToLoop_init) hs) hdeleted⟩

end CoreAndroid.Thread
