import CoreAndroid.Lib.Machine
import CoreAndroid.Thread.Record

/-! The life of a thread record: the creator, the launched thread, one thread that waits
for it, and any number of calls that find the record through its handle. -/
namespace CoreAndroid.Thread

/-- Where the creator stands in `ofc_thread_create_impl`. -/
inductive CreatorPc where
  | start (detachstate : DetachState)
  | spawn -- the record is filled and has its handle; `pthread_create` is next
  | failDestroy
  | failFree
  | readHandle
  | done
  deriving DecidableEq, Repr

/-- Where the launched thread stands in `ofc_thread_launch`. -/
inductive LaunchPc where
  | notStarted
  | run
  | storeRet
  | notify
  | test
  | destroy
  | free
  | returned
  deriving DecidableEq, Repr

/-- Where the one thread that calls `ofc_thread_wait_impl` stands. -/
inductive JoinPc where
  | idle
  | lock
  | test
  | readThread
  | join
  | destroy
  | free
  | finished
  deriving DecidableEq, Repr

def LaunchPc.tested : LaunchPc → Bool
  | .destroy | .free | .returned => true
  | _ => false

def JoinPc.holds : JoinPc → Bool
  | .idle | .lock | .finished => false
  | _ => true

def JoinPc.joins : JoinPc → Bool
  | .readThread | .join | .destroy | .free => true
  | _ => false

structure LifeState (Tid : Type) where
  record : AndroidThread
  handleLive : Bool -- `ofc_handle_lock` returns the record
  released : Nat -- how often `ofc_free` was called on the record
  touched : Bool -- the record was read or written after it was released
  creator : CreatorPc
  launched : LaunchPc
  waiter : JoinPc
  call : Tid → CallPc

inductive LifeAction (Tid : Type) where
  | creator (ok : Bool) -- the next step of the creator; `ofc_malloc` and `pthread_create` may fail
  | launched
  | startWait
  | waiter
  | call (t : Tid) (op : Op)
  | run (t : Tid)

variable {Tid : Type} [DecidableEq Tid]

def LifeState.touch (s : LifeState Tid) : LifeState Tid :=
  { s with touched := s.touched || s.released ≠ 0 }

def LifeState.release (s : LifeState Tid) : LifeState Tid :=
  { s with released := s.released + 1 }

def creatorStep (s : LifeState Tid) (ok : Bool) : CreatorPc → Option (LifeState Tid)
  | .start detachstate =>
      some (if ok then
        { s with record := ⟨false, detachstate, handleNull⟩, handleLive := true, creator := .spawn }
      else { s with creator := .done })
  | .spawn =>
      some (if ok then { s with launched := .run, creator := .readHandle }
      else { s with creator := .failDestroy })
  | .failDestroy => some { s.touch with handleLive := false, creator := .failFree }
  | .failFree => some { s.release with creator := .done }
  | .readHandle => some { s.touch with creator := .done }
  | .done => none

def launchStep (s : LifeState Tid) : LaunchPc → Option (LifeState Tid)
  | .notStarted => none
  | .run => some { s.touch with launched := .storeRet }
  | .storeRet => some { s.touch with launched := .notify }
  | .notify => some { s.touch with launched := .test }
  | .test =>
      some { s.touch with
        launched := if s.record.detachstate = .detach then .destroy else .returned }
  | .destroy => some { s.touch with handleLive := false, launched := .free }
  | .free => some { s.release with launched := .returned }
  | .returned => none

def joinStep (s : LifeState Tid) : JoinPc → Option (LifeState Tid)
  | .idle => none
  | .lock => some { s with waiter := if s.handleLive then .test else .finished }
  | .test =>
      some { s.touch with
        waiter := if s.record.detachstate = .join then .readThread else .finished }
  | .readThread => some { s.touch with waiter := .join }
  | .join => if s.launched = .returned then some { s with waiter := .destroy } else none
  | .destroy => some { s.touch with handleLive := false, waiter := .free }
  | .free => some { s.release with waiter := .finished }
  | .finished => none

def lifeCallStep (s : LifeState Tid) (t : Tid) : CallPc → Option (LifeState Tid)
  | .idle => none
  | .lock op =>
      some { s with call := Function.update s.call t (if s.handleLive then op.locked else .idle) }
  | .unlock _ => some { s with call := Function.update s.call t .idle }
  | pc =>
      let (record, next) := access s.record pc
      some { s.touch with record := record, call := Function.update s.call t next }

def LifeState.published (s : LifeState Tid) : Bool := s.launched ≠ .notStarted

def lifeSystem (Tid : Type) [DecidableEq Tid] : Machine (LifeState Tid) (LifeAction Tid) where
  init s := s.handleLive = false ∧ s.released = 0 ∧ s.touched = false ∧
    (∃ detachstate, s.creator = .start detachstate) ∧ s.launched = .notStarted ∧
    s.waiter = .idle ∧ ∀ t, s.call t = .idle
  step s
    | .creator ok => creatorStep s ok s.creator
    | .launched => launchStep s s.launched
    | .startWait =>
        if s.published ∧ (s.waiter = .idle ∨ s.waiter = .finished)
        then some { s with waiter := .lock } else none
    | .waiter => joinStep s s.waiter
    | .call t op =>
        if s.published ∧ s.call t = .idle
        then some { s with call := Function.update s.call t (.lock op) } else none
    | .run t => lifeCallStep s t (s.call t)

/-- The record is released when nobody else is still using it, and a detach turns
`OFC_THREAD_JOIN` around only while the launched thread and the waiting call have both
still to test it, or have both done so. -/
def Orderly (s : LifeState Tid) : LifeAction Tid → Prop
  | .launched =>
      s.launched = .free →
        s.creator = .done ∧ s.waiter.holds = false ∧ ∀ t, (s.call t).holds = false
  | .waiter => s.waiter = .free → s.creator = .done ∧ ∀ t, (s.call t).holds = false
  | .run t =>
      s.call t = .detachStore → s.record.detachstate = .join → s.launched.tested = s.waiter.joins
  | _ => True

/-- The launched thread has returned and every started call has finished. -/
structure Quiescent (s : LifeState Tid) : Prop where
  creator : s.creator = .done
  launched : s.launched = .returned
  waiter : s.waiter = .idle ∨ s.waiter = .finished
  call : ∀ t, s.call t = .idle

structure LifeInv (s : LifeState Tid) : Prop where
  early : s.launched = .notStarted → s.waiter = .idle ∧ ∀ t, s.call t = .idle
  creating : s.creator ≠ .done → s.creator ≠ .readHandle → s.launched = .notStarted
  handled : s.creator = .spawn ∨ s.creator = .failDestroy → s.handleLive = true
  once : s.released ≤ 1
  untouched : s.touched = false
  gone : s.released ≠ 0 → s.creator = .done ∧ (s.launched = .notStarted ∨ s.launched = .returned) ∧
    s.waiter.holds = false ∧ (∀ t, (s.call t).holds = false) ∧ s.handleLive = false
  destroyed : s.creator = .failFree ∨ s.launched = .free ∨ s.waiter = .free → s.handleLive = false
  dead : s.launched ≠ .notStarted → s.handleLive = false →
    s.released ≠ 0 ∨ s.launched = .free ∨ s.waiter = .free
  frees : s.launched = .destroy ∨ s.launched = .free →
    s.record.detachstate = .detach ∧ s.waiter.joins = false
  joins : s.waiter.joins = true → s.launched.tested = false → s.record.detachstate = .join
  joined : s.waiter = .destroy ∨ s.waiter = .free → s.launched = .returned
  settled : s.launched = .returned → s.released = 0 →
    s.waiter.joins = true ∨ s.record.detachstate = .join ∧ s.waiter ≠ .finished
  finished : s.waiter = .finished → s.released = 0 → s.record.detachstate = .detach

variable {s s' : LifeState Tid}

theorem holds_update {call : Tid → CallPc} {t : Tid} {next : CallPc}
    (h : ∀ u, (call u).holds = false) (hnext : next.holds = false) (u : Tid) :
    (Function.update call t next u).holds = false := by
  by_cases hut : u = t
  · subst hut
    rwa [Function.update_self]
  · rw [Function.update_of_ne hut]
    exact h u

omit [DecidableEq Tid] in
theorem touch_eq (h : s.released = 0) : s.touch = s := by
  obtain ⟨record, handleLive, released, touched, creator, launched, waiter, call⟩ := s
  dsimp only at h
  subst h
  simp [LifeState.touch]

omit [DecidableEq Tid] in
theorem LifeInv.released_of_creator (hi : LifeInv s) (h : s.creator ≠ .done) : s.released = 0 := by
  by_contra hgone
  exact h (hi.gone hgone).1

omit [DecidableEq Tid] in
theorem LifeInv.released_of_launched (hi : LifeInv s)
    (h : s.launched ≠ .notStarted ∧ s.launched ≠ .returned) : s.released = 0 := by
  by_contra hgone
  rcases (hi.gone hgone).2.1 with hl | hl
  · exact h.1 hl
  · exact h.2 hl

omit [DecidableEq Tid] in
theorem LifeInv.released_of_waiter (hi : LifeInv s) (h : s.waiter.holds = true) :
    s.released = 0 := by
  by_contra hgone
  rw [(hi.gone hgone).2.2.1] at h
  cases h

omit [DecidableEq Tid] in
theorem LifeInv.released_of_call (hi : LifeInv s) {t : Tid} (h : (s.call t).holds = true) :
    s.released = 0 := by
  by_contra hgone
  rw [(hi.gone hgone).2.2.2.1 t] at h
  cases h

omit [DecidableEq Tid] in
theorem LifeInv.released_of_live (hi : LifeInv s) (h : s.handleLive = true) :
    s.released = 0 := by
  by_contra hgone
  rw [(hi.gone hgone).2.2.2.2] at h
  cases h

omit [DecidableEq Tid] in
theorem LifeInv.creator (hi : LifeInv s) {ok : Bool} (h : creatorStep s ok s.creator = some s') :
    LifeInv s' := by
  cases hpc : s.creator with
  | start detachstate =>
    have hzero := hi.released_of_creator (by simp [hpc])
    have hstart := hi.creating (by simp [hpc]) (by simp [hpc])
    obtain ⟨hidle, -⟩ := hi.early hstart
    rw [hpc] at h
    cases ok <;> cases h
    · exact { hi with
        creating := by simp
        handled := by simp
        gone := by simp [hzero]
        destroyed := by simp [hstart, hidle] }
    · exact { hi with
        creating := fun _ _ => hstart
        handled := fun _ => rfl
        gone := by simp [hzero]
        destroyed := by simp [hstart, hidle]
        dead := by simp
        frees := by simp [hstart]
        joins := by simp [hidle, JoinPc.joins]
        settled := by simp [hstart]
        finished := by simp [hidle] }
  | spawn =>
    have hzero := hi.released_of_creator (by simp [hpc])
    have hstart := hi.creating (by simp [hpc]) (by simp [hpc])
    have hlive := hi.handled (.inl hpc)
    obtain ⟨hidle, -⟩ := hi.early hstart
    rw [hpc] at h
    cases ok <;> cases h
    · exact { hi with
        creating := fun _ _ => hstart
        handled := fun _ => hlive
        gone := by simp [hzero]
        destroyed := by simp [hstart, hidle] }
    · exact { hi with
        early := by simp
        creating := by simp
        handled := by simp
        gone := by simp [hzero]
        destroyed := by simp [hidle]
        dead := by simp [hlive]
        frees := by simp
        joins := by simp [hidle, JoinPc.joins]
        joined := by simp [hidle]
        settled := by simp }
  | failDestroy =>
    have hzero := hi.released_of_creator (by simp [hpc])
    have hstart := hi.creating (by simp [hpc]) (by simp [hpc])
    rw [hpc, creatorStep, touch_eq hzero] at h
    cases h
    exact { hi with
      creating := fun _ _ => hstart
      handled := by simp
      gone := by simp [hzero]
      destroyed := fun _ => rfl
      dead := fun hne => absurd hstart hne }
  | failFree =>
    have hzero := hi.released_of_creator (by simp [hpc])
    have hstart := hi.creating (by simp [hpc]) (by simp [hpc])
    have hdead := hi.destroyed (.inl hpc)
    obtain ⟨hidle, hcalls⟩ := hi.early hstart
    rw [hpc] at h
    cases h
    exact { hi with
      creating := by simp
      handled := by simp
      once := by simp [LifeState.release, hzero]
      gone := fun _ => ⟨rfl, .inl hstart, by simp [LifeState.release, hidle, JoinPc.holds],
        by simp [LifeState.release, hcalls, CallPc.holds], hdead⟩
      destroyed := fun _ => hdead
      dead := fun hne => absurd hstart hne
      settled := by simp [LifeState.release, hstart]
      finished := by simp [LifeState.release, hidle] }
  | readHandle =>
    have hzero := hi.released_of_creator (by simp [hpc])
    rw [hpc, creatorStep, touch_eq hzero] at h
    cases h
    exact { hi with
      creating := by simp
      handled := by simp
      gone := by simp [hzero]
      destroyed := fun hd => hi.destroyed (by simpa [hpc] using hd) }
  | done =>
    rw [hpc] at h
    cases h

omit [DecidableEq Tid] in
theorem LifeInv.launch (hi : LifeInv s)
    (hok : s.launched = .free → s.creator = .done ∧ s.waiter.holds = false ∧
      ∀ t, (s.call t).holds = false)
    (h : launchStep s s.launched = some s') : LifeInv s' := by
  -- the creator has done what it does before the launched thread starts
  have hcreated : s.launched ≠ .notStarted → ∀ {next : LaunchPc}, s.creator ≠ .done →
      s.creator ≠ .readHandle → next = .notStarted :=
    fun hne _ h₁ h₂ => absurd (hi.creating h₁ h₂) hne
  cases hpc : s.launched with
  | notStarted | returned =>
    rw [hpc] at h
    cases h
  | run | storeRet | notify =>
    have hzero := hi.released_of_launched (by simp [hpc])
    rw [hpc, launchStep, touch_eq hzero] at h
    cases h
    exact { hi with
      early := by simp
      creating := hcreated (by simp [hpc])
      gone := by simp [hzero]
      destroyed := fun hd => hi.destroyed (by simpa [hpc] using hd)
      dead := fun _ hl => by simpa [hpc] using hi.dead (by simp [hpc]) hl
      frees := by simp
      joins := fun hj _ => hi.joins hj (by simp [hpc, LaunchPc.tested])
      joined := fun hj => absurd (hi.joined hj) (by simp [hpc])
      settled := by simp }
  | test =>
    have hzero := hi.released_of_launched (by simp [hpc])
    have hwaiter : s.waiter.joins = true → s.record.detachstate = .join :=
      fun hj => hi.joins hj (by simp [hpc, LaunchPc.tested])
    have hnone : s.handleLive = true := by
      cases hl : s.handleLive with
      | true => rfl
      | false =>
        have hd := hi.dead (by simp [hpc]) hl
        have hfree : s.waiter = .free := by simpa [hpc, hzero] using hd
        exact absurd (hi.joined (.inr hfree)) (by simp [hpc])
    rw [hpc, launchStep, touch_eq hzero] at h
    cases h
    cases hstate : s.record.detachstate with
    | detach =>
      exact { hi with
        early := by simp
        creating := hcreated (by simp [hpc])
        gone := by simp [hzero]
        destroyed := fun hd => hi.destroyed (by simpa [hpc, hstate] using hd)
        dead := by simp [hnone]
        frees := by
          intro _
          refine ⟨hstate, ?_⟩
          cases hj : s.waiter.joins with
          | false => rfl
          | true => exact absurd (hstate.symm.trans (hwaiter hj)) (by simp)
        joins := by simp [hstate, LaunchPc.tested]
        joined := fun hj => absurd (hi.joined hj) (by simp [hpc])
        settled := by simp [hstate] }
    | join =>
      have hunfinished : s.waiter ≠ .finished := by
        intro hf
        have hdetach := hi.finished hf hzero
        rw [hstate] at hdetach
        cases hdetach
      exact { hi with
        early := by simp
        creating := hcreated (by simp [hpc])
        gone := by simp [hzero]
        destroyed := fun hd => hi.destroyed (by simpa [hpc, hstate] using hd)
        dead := by simp [hnone]
        frees := by simp [hstate]
        joins := by simp [hstate, LaunchPc.tested]
        joined := by simp
        settled := fun _ _ => .inr ⟨hstate, hunfinished⟩ }
  | destroy =>
    have hzero := hi.released_of_launched (by simp [hpc])
    rw [hpc, launchStep, touch_eq hzero] at h
    cases h
    exact { hi with
      early := by simp
      creating := hcreated (by simp [hpc])
      handled := fun hc => by
        have hnot := hi.creating (by rintro hd; simp [hd] at hc) (by rintro hd; simp [hd] at hc)
        simp [hpc] at hnot
      gone := by simp [hzero]
      destroyed := fun _ => rfl
      dead := fun _ _ => .inr (.inl rfl)
      frees := fun _ => hi.frees (.inl hpc)
      joins := by simp [LaunchPc.tested]
      joined := fun hj => absurd (hi.joined hj) (by simp [hpc])
      settled := by simp }
  | free =>
    have hzero := hi.released_of_launched (by simp [hpc])
    have hdead := hi.destroyed (.inr (.inl hpc))
    obtain ⟨hdone, hwaiter, hcalls⟩ := hok hpc
    rw [hpc] at h
    cases h
    exact { hi with
      early := by simp
      creating := hcreated (by simp [hpc])
      once := by simp [LifeState.release, hzero]
      gone := fun _ => ⟨hdone, .inr rfl, hwaiter, hcalls, hdead⟩
      destroyed := fun _ => hdead
      dead := fun _ _ => .inl (Nat.succ_ne_zero _)
      frees := by simp
      joins := by simp [LaunchPc.tested]
      joined := fun _ => rfl
      settled := fun _ h => absurd h (Nat.succ_ne_zero _)
      finished := fun _ h => absurd h (Nat.succ_ne_zero _) }

omit [DecidableEq Tid] in
theorem LifeInv.dead_record (hi : LifeInv s) (hstarted : s.launched ≠ .notStarted)
    (hl : s.handleLive = false) (hzero : s.released = 0) (hwaiter : s.waiter ≠ .free) :
    s.launched = .free := by
  rcases hi.dead hstarted hl with hgone | hfree | hfree
  · exact absurd hzero hgone
  · exact hfree
  · exact absurd hfree hwaiter

omit [DecidableEq Tid] in
theorem LifeInv.join (hi : LifeInv s)
    (hok : s.waiter = .free → s.creator = .done ∧ ∀ t, (s.call t).holds = false)
    (h : joinStep s s.waiter = some s') : LifeInv s' := by
  have hstarted : s.waiter ≠ .idle → s.launched ≠ .notStarted := by
    intro hne hl
    exact hne (hi.early hl).1
  have hearly : s.waiter ≠ .idle → ∀ {next : JoinPc}, s.launched = .notStarted →
      next = .idle ∧ ∀ t, s.call t = .idle := fun hne _ hl => absurd hl (hstarted hne)
  cases hpc : s.waiter with
  | idle | finished =>
    rw [hpc] at h
    cases h
  | lock =>
    rw [hpc] at h
    dsimp only [joinStep] at h
    by_cases hl : s.handleLive = true
    · rw [if_pos hl] at h
      cases h
      have hzero := hi.released_of_live hl
      exact { hi with
        early := hearly (by simp [hpc])
        gone := by simp [hzero]
        destroyed := fun hd => hi.destroyed (by simpa [hpc] using hd)
        dead := fun _ hno => by simp [hl] at hno
        frees := fun hf => ⟨(hi.frees hf).1, by simp [JoinPc.joins]⟩
        joins := by simp [JoinPc.joins]
        joined := by simp
        settled := fun hret hzero => by
          have hs := hi.settled hret hzero
          simp only [hpc, JoinPc.joins, Bool.false_eq_true, false_or] at hs
          exact .inr ⟨hs.1, by simp⟩
        finished := by simp }
    · rw [if_neg hl] at h
      cases h
      have hl : s.handleLive = false := by simpa using hl
      have hfree : s.released = 0 → s.launched = .free := fun hzero =>
        hi.dead_record (hstarted (by simp [hpc])) hl hzero (by simp [hpc])
      exact { hi with
        early := hearly (by simp [hpc])
        gone := fun hgone => by simpa [hpc, JoinPc.holds] using hi.gone hgone
        destroyed := fun _ => hl
        dead := fun hne hno => by simpa [hpc] using hi.dead hne hno
        frees := fun hf => ⟨(hi.frees hf).1, by simp [JoinPc.joins]⟩
        joins := by simp [JoinPc.joins]
        joined := by simp
        settled := fun hret hzero => by
          rw [hfree hzero] at hret
          cases hret
        finished := fun _ hzero => (hi.frees (.inr (hfree hzero))).1 }
  | test =>
    have hzero := hi.released_of_waiter (by simp [hpc, JoinPc.holds])
    rw [hpc, joinStep, touch_eq hzero] at h
    cases h
    have hdead : s.launched ≠ .notStarted → s.handleLive = false → s.launched = .free :=
      fun hne hl => hi.dead_record hne hl hzero (by simp [hpc])
    cases hstate : s.record.detachstate with
    | join =>
      exact { hi with
        early := hearly (by simp [hpc])
        gone := by simp [hzero]
        destroyed := fun hd => hi.destroyed (by simpa [hpc, hstate] using hd)
        dead := fun hne hl => .inr (.inl (hdead hne hl))
        frees := fun hf => absurd (hstate.symm.trans (hi.frees hf).1) (by simp)
        joins := fun _ _ => hstate
        joined := by simp
        settled := fun _ _ => .inl rfl
        finished := by simp }
    | detach =>
      exact { hi with
        early := hearly (by simp [hpc])
        gone := by simp [hzero]
        destroyed := fun hd => hi.destroyed (by simpa [hpc, hstate] using hd)
        dead := fun hne hl => .inr (.inl (hdead hne hl))
        frees := fun _ => ⟨hstate, by simp [JoinPc.joins]⟩
        joins := by simp [JoinPc.joins]
        joined := by simp
        settled := fun hret hzero => by
          have hs := hi.settled hret hzero
          simp [hpc, hstate, JoinPc.joins] at hs
        finished := fun _ _ => hstate }
  | readThread =>
    have hzero := hi.released_of_waiter (by simp [hpc, JoinPc.holds])
    rw [hpc, joinStep, touch_eq hzero] at h
    cases h
    exact { hi with
      early := hearly (by simp [hpc])
      gone := by simp [hzero]
      destroyed := fun hd => hi.destroyed (by simpa [hpc] using hd)
      dead := fun hne hl => .inr (.inl (hi.dead_record hne hl hzero (by simp [hpc])))
      frees := fun hf => by simpa [hpc, JoinPc.joins] using hi.frees hf
      joins := fun _ => hi.joins (by simp [hpc, JoinPc.joins])
      joined := by simp
      settled := fun _ _ => .inl rfl
      finished := by simp }
  | join =>
    have hzero := hi.released_of_waiter (by simp [hpc, JoinPc.holds])
    rw [hpc] at h
    obtain ⟨hret, h⟩ := Option.ite_none_right_eq_some.mp h
    cases h
    exact { hi with
      early := hearly (by simp [hpc])
      gone := by simp [hzero]
      destroyed := fun hd => hi.destroyed (by simpa [hpc] using hd)
      dead := fun hne hl => .inr (.inl (hi.dead_record hne hl hzero (by simp [hpc])))
      frees := fun hf => by simpa [hpc, JoinPc.joins] using hi.frees hf
      joins := fun _ => hi.joins (by simp [hpc, JoinPc.joins])
      joined := fun _ => hret
      settled := fun _ _ => .inl rfl
      finished := by simp }
  | destroy =>
    have hzero := hi.released_of_waiter (by simp [hpc, JoinPc.holds])
    have hret := hi.joined (.inl hpc)
    rw [hpc, joinStep, touch_eq hzero] at h
    cases h
    exact { hi with
      early := hearly (by simp [hpc])
      handled := fun hc => by
        have hnot := hi.creating (by rintro hd; simp [hd] at hc) (by rintro hd; simp [hd] at hc)
        simp [hret] at hnot
      gone := by simp [hzero]
      destroyed := fun _ => rfl
      dead := fun _ _ => .inr (.inr rfl)
      frees := fun hf => by simp [hret] at hf
      joins := fun _ => hi.joins (by simp [hpc, JoinPc.joins])
      joined := fun _ => hret
      settled := fun _ _ => .inl rfl
      finished := by simp }
  | free =>
    have hzero := hi.released_of_waiter (by simp [hpc, JoinPc.holds])
    have hret := hi.joined (.inr hpc)
    have hdead := hi.destroyed (.inr (.inr hpc))
    obtain ⟨hdone, hcalls⟩ := hok hpc
    rw [hpc] at h
    cases h
    exact { hi with
      early := hearly (by simp [hpc])
      once := by simp [LifeState.release, hzero]
      gone := fun _ => ⟨hdone, .inr hret, rfl, hcalls, hdead⟩
      destroyed := fun _ => hdead
      dead := fun _ _ => .inl (Nat.succ_ne_zero _)
      frees := fun hf => by simp [LifeState.release, hret] at hf
      joins := by simp [JoinPc.joins]
      joined := by simp
      settled := fun _ h => absurd h (Nat.succ_ne_zero _)
      finished := fun _ h => absurd h (Nat.succ_ne_zero _) }

omit [DecidableEq Tid] in
theorem LifeInv.startWait (hi : LifeInv s) (hstarted : s.launched ≠ .notStarted)
    (hout : s.waiter = .idle ∨ s.waiter = .finished) : LifeInv { s with waiter := .lock } := by
  have hnotFree : s.waiter ≠ .free := by rcases hout with hw | hw <;> simp [hw]
  have hnotJoining : s.waiter.joins = false := by
    rcases hout with hw | hw <;> simp [hw, JoinPc.joins]
  exact { hi with
    early := fun hl => absurd hl hstarted
    gone := fun hgone => by
      obtain ⟨hdone, hl, -, hrest⟩ := hi.gone hgone
      exact ⟨hdone, hl, rfl, hrest⟩
    destroyed := fun hd => hi.destroyed (by simpa [hnotFree] using hd)
    dead := fun hne hl => by simpa [hnotFree] using hi.dead hne hl
    frees := fun hf => ⟨(hi.frees hf).1, rfl⟩
    joins := by simp [JoinPc.joins]
    joined := by simp
    settled := fun hret hzero => by
      have hs := hi.settled hret hzero
      simp only [hnotJoining, Bool.false_eq_true, false_or] at hs
      exact .inr ⟨hs.1, by simp⟩
    finished := by simp }

theorem LifeInv.free_call (hi : LifeInv s) {t : Tid} {next : CallPc}
    (hstarted : s.launched ≠ .notStarted) (hnext : next.holds = true → s.released = 0) :
    LifeInv { s with call := Function.update s.call t next } := by
  exact { hi with
    early := fun hl => absurd hl hstarted
    gone := fun hgone => by
      obtain ⟨hdone, hl, hw, hcalls, hdead⟩ := hi.gone hgone
      refine ⟨hdone, hl, hw, holds_update hcalls ?_, hdead⟩
      cases hh : next.holds with
      | false => rfl
      | true => exact absurd (hnext hh) hgone }

omit [DecidableEq Tid] in
theorem LifeInv.detach (hi : LifeInv s)
    (hok : s.record.detachstate = .join → s.launched.tested = s.waiter.joins) :
    LifeInv { s with record := { s.record with detachstate := .detach } } := by
  exact { hi with
    frees := fun hf => ⟨rfl, (hi.frees hf).2⟩
    joins := fun hj ht => by
      have hjoin := hi.joins hj ht
      have heq := hok hjoin
      rw [hj, ht] at heq
      cases heq
    settled := fun hret hzero => by
      rcases hi.settled hret hzero with hj | ⟨hjoin, -⟩
      · exact .inl hj
      · have heq := hok hjoin
        rw [hret] at heq
        exact .inl heq.symm
    finished := fun _ _ => rfl }

omit [DecidableEq Tid] in
theorem LifeInv.write (hi : LifeInv s) (record : AndroidThread)
    (hsame : record.detachstate = s.record.detachstate) :
    LifeInv { s with record := record } := by
  exact { hi with
    frees := fun hf => ⟨hsame.trans (hi.frees hf).1, (hi.frees hf).2⟩
    joins := fun hj ht => hsame.trans (hi.joins hj ht)
    settled := fun hret hzero => by simpa only [hsame] using hi.settled hret hzero
    finished := fun hf hzero => hsame.trans (hi.finished hf hzero) }

theorem lifeCallStep_held {t : Tid} {pc : CallPc} (hheld : pc.holds = true) :
    lifeCallStep s t pc = some { s.touch with
      record := (access s.record pc).1
      call := Function.update s.call t (access s.record pc).2 } := by
  cases pc with
  | idle | lock | unlock => cases hheld
  | _ => rfl

omit [DecidableEq Tid] in
theorem LifeInv.access (hi : LifeInv s) {pc : CallPc}
    (hok : pc = .detachStore → s.record.detachstate = .join →
      s.launched.tested = s.waiter.joins) :
    LifeInv { s with record := (access s.record pc).1 } := by
  cases pc with
  | detachStore => exact hi.detach (hok rfl)
  | deleteStore | setWaitset waitSet => exact hi.write _ rfl
  | _ => exact hi

theorem LifeInv.call (hi : LifeInv s) {t : Tid}
    (hok : s.call t = .detachStore → s.record.detachstate = .join →
      s.launched.tested = s.waiter.joins)
    (h : lifeCallStep s t (s.call t) = some s') : LifeInv s' := by
  have hstarted : s.call t ≠ .idle → s.launched ≠ .notStarted := by
    intro hne hl
    exact hne ((hi.early hl).2 t)
  by_cases hheld : (s.call t).holds = true
  · have hzero := hi.released_of_call hheld
    have hbusy : s.call t ≠ .idle := by
      intro hidle
      rw [hidle] at hheld
      cases hheld
    rw [lifeCallStep_held hheld, touch_eq hzero] at h
    cases h
    exact (hi.access hok).free_call (hstarted hbusy) fun _ => hzero
  cases hpc : s.call t with
  | idle =>
    rw [hpc] at h
    cases h
  | lock op =>
    rw [hpc] at h
    cases h
    refine hi.free_call (hstarted (by simp [hpc])) ?_
    cases hl : s.handleLive with
    | true => exact fun _ => hi.released_of_live hl
    | false => simp [CallPc.holds]
  | unlock ret =>
    rw [hpc] at h
    cases h
    exact hi.free_call (hstarted (by simp [hpc])) (by simp [CallPc.holds])
  | _ =>
    rw [hpc] at hheld
    exact absurd rfl hheld

theorem life_inv_reach (h : (lifeSystem Tid).ReachWhere Orderly s) : LifeInv s := by
  apply h.invariant
  · rintro s ⟨hl, hzero, htouched, ⟨detachstate, hstart⟩, hnot, hidle, hcalls⟩
    constructor <;> simp [hl, hzero, htouched, hstart, hnot, hidle, hcalls, JoinPc.joins]
  · intro s a s' _ hi hok hs
    cases a with
    | creator ok => exact hi.creator hs
    | launched => exact hi.launch hok hs
    | startWait =>
      obtain ⟨⟨hpub, hout⟩, hs⟩ := Option.ite_none_right_eq_some.mp hs
      cases hs
      exact hi.startWait (by simpa [LifeState.published] using hpub) hout
    | waiter => exact hi.join hok hs
    | call t op =>
      obtain ⟨⟨hpub, -⟩, hs⟩ := Option.ite_none_right_eq_some.mp hs
      cases hs
      exact hi.free_call (by simpa [LifeState.published] using hpub) (by simp [CallPc.holds])
    | run t => exact hi.call hok hs

/-- The record is released at most once and not touched afterwards, and it is released
when all calls are over if the thread was detached or waited for, in every run whose
releases and detaches are orderly. -/
theorem record_released_once (s : LifeState Tid) (h : (lifeSystem Tid).ReachWhere Orderly s) :
    s.released ≤ 1 ∧ s.touched = false ∧
      (Quiescent s → s.record.detachstate = .detach ∨ s.waiter = .finished → s.released = 1) := by
  have hi := life_inv_reach h
  refine ⟨hi.once, hi.untouched, ?_⟩
  intro hq hover
  by_contra hne
  have honce := hi.once
  have hzero : s.released = 0 := by omega
  have hnotJoining : s.waiter.joins = false := by
    rcases hq.waiter with hw | hw <;> simp [hw, JoinPc.joins]
  rcases hi.settled hq.launched hzero with hj | ⟨hjoin, hunfinished⟩
  · rw [hnotJoining] at hj
    cases hj
  · rcases hover with hdetach | hfinished
    · rw [hjoin] at hdetach
      cases hdetach
    · exact hunfinished hfinished

instance {n : Nat} (s : LifeState (Fin n)) : (a : LifeAction (Fin n)) → Decidable (Orderly s a)
  | .launched | .waiter | .run _ => inferInstanceAs (Decidable (_ → _))
  | .creator _ | .startWait | .call _ _ => inferInstanceAs (Decidable True)

def aboutToCreate (detachstate : DetachState) : LifeState (Fin 1) :=
  ⟨⟨false, .join, handleNull⟩, false, 0, false, .start detachstate, .notStarted, .idle,
    fun _ => .idle⟩

theorem aboutToCreate_init (detachstate : DetachState) :
    (lifeSystem (Fin 1)).init (aboutToCreate detachstate) :=
  ⟨rfl, rfl, rfl, ⟨detachstate, rfl⟩, rfl, rfl, fun _ => rfl⟩

def created : List (LifeAction (Fin 1)) := [.creator true, .creator true, .creator true]

def launchedJoin : List (LifeAction (Fin 1)) := [.launched, .launched, .launched, .launched]

def detachCall : List (LifeAction (Fin 1)) :=
  [.call 0 .detach, .run 0, .run 0, .run 0, .run 0]

theorem record_released_join : ∃ s : LifeState (Fin 1), Quiescent s ∧ s.waiter = .finished ∧
    s.released = 1 := by
  have hrun : ((lifeSystem (Fin 1)).runWhere Orderly (aboutToCreate .join)
      (created ++ launchedJoin ++ .startWait :: List.replicate 6 .waiter)).map
      (fun s => (s.creator, s.launched, s.waiter, s.call 0)) =
      some (.done, .returned, .finished, .idle) := by decide
  obtain ⟨s, hs, hlast⟩ := Option.map_eq_some_iff.mp hrun
  simp only [Prod.mk.injEq] at hlast
  obtain ⟨hcreator, hlaunched, hwaiter, hcall⟩ := hlast
  have hq : Quiescent s := by
    refine ⟨hcreator, hlaunched, .inr hwaiter, ?_⟩
    intro t
    rwa [Subsingleton.elim t 0]
  have hreach := Machine.ReachWhere.runWhere (.init (aboutToCreate_init .join)) hs
  exact ⟨s, hq, hwaiter, (record_released_once s hreach).2.2 hq (.inr hwaiter)⟩

/-- A detached thread is gone before its creator reads the handle; a detach during a join
has the record released twice; a detach after the thread has returned leaves it behind. -/
theorem record_misused :
    (¬ ∀ s : LifeState (Fin 1), (lifeSystem (Fin 1)).Reach s → s.touched = false) ∧
    (¬ ∀ s : LifeState (Fin 1), (lifeSystem (Fin 1)).Reach s → s.released ≤ 1) ∧
    ¬ ∀ s : LifeState (Fin 1), (lifeSystem (Fin 1)).Reach s → Quiescent s →
      s.record.detachstate = .detach → s.released = 1 := by
  have hearly : ((lifeSystem (Fin 1)).run (aboutToCreate .detach)
      ([.creator true, .creator true] ++ List.replicate 6 .launched ++ [.creator true])).map
      (fun s => s.touched) = some true := by decide
  have htwice : ((lifeSystem (Fin 1)).run (aboutToCreate .join)
      (created ++ [.startWait, .waiter, .waiter, .waiter] ++ detachCall ++
        List.replicate 6 .launched ++ [.waiter, .waiter, .waiter])).map
      (fun s => s.released) = some 2 := by decide
  have hnever : ((lifeSystem (Fin 1)).run (aboutToCreate .join)
      (created ++ launchedJoin ++ detachCall)).map
      (fun s => (s.creator, s.launched, s.waiter, s.call 0, s.record.detachstate, s.released)) =
      some (.done, .returned, .idle, .idle, .detach, 0) := by decide
  refine ⟨?_, ?_, ?_⟩
  · intro hall
    obtain ⟨s, hs, hlast⟩ := Option.map_eq_some_iff.mp hearly
    have huntouched := hall s (Machine.Reach.run (.init (aboutToCreate_init _)) hs)
    rw [hlast] at huntouched
    cases huntouched
  · intro hall
    obtain ⟨s, hs, hlast⟩ := Option.map_eq_some_iff.mp htwice
    have honce := hall s (Machine.Reach.run (.init (aboutToCreate_init _)) hs)
    omega
  · intro hall
    obtain ⟨s, hs, hlast⟩ := Option.map_eq_some_iff.mp hnever
    simp only [Prod.mk.injEq] at hlast
    obtain ⟨hcreator, hlaunched, hwaiter, hcall, hdetach, hreleased⟩ := hlast
    have hq : Quiescent s := by
      refine ⟨hcreator, hlaunched, .inl hwaiter, ?_⟩
      intro t
      rwa [Subsingleton.elim t 0]
    have hone := hall s (Machine.Reach.run (.init (aboutToCreate_init _)) hs) hq hdetach
    omega

end CoreAndroid.Thread
