import CoreAndroid.Lib.Monitor
import CoreAndroid.Lib.Progress
import Mathlib.Algebra.Order.BigOperators.Group.Finset
import Mathlib.Data.Fintype.Basic

/-! Threads under one mutex with one condition variable come to rest if no new call begins:
no schedule gets stuck before every thread is out of its call or asleep. -/
namespace Monitor
variable {Tid Val Pc Op : Type} [DecidableEq Tid]

def Action.isRun : Action Tid Op → Bool
  | .run _ => true
  | _ => false

def Action.isCall : Action Tid Op → Bool
  | .call _ _ => true
  | _ => false

/-- A rank on the program points that each instruction lowers. A wait leaves room for the
wake-up and for taking the mutex back. -/
def Falling (code : Pc → Instr Val Pc Op) (rank : Pc → Nat) : Prop :=
  ∀ pc, match code pc with
    | .call _ => True
    | .lock next | .unlock next | .broadcast next => rank next < rank pc
    | .exec run => ∀ v, rank (run v).2 < rank pc
    | .wait next => rank next + 2 < rank pc

def Thread.rank (rank : Pc → Nat) : Thread Pc → Nat
  | .running pc => rank pc
  | .woken pc => rank pc + 1
  | .asleep pc => rank pc + 2

def Thread.Rests (code : Pc → Instr Val Pc Op) : Thread Pc → Prop
  | .running pc => ∃ enter, code pc = .call enter
  | .asleep _ => True
  | .woken _ => False

def Settled (code : Pc → Instr Val Pc Op) (P : Val → Prop) (s : State Tid Val Pc) : Prop :=
  (∀ t, (s.thread t).Rests code) ∧ (P s.val → ∀ t pc, s.thread t ≠ .asleep pc)

variable {code : Pc → Instr Val Pc Op} {P : Val → Prop} {mk : Marks Pc} {rank : Pc → Nat}
  {s s' : State Tid Val Pc} {a : Action Tid Op}

theorem wake_rank_le (th : Thread Pc) : th.wake.rank rank ≤ th.rank rank := by
  cases th with
  | asleep pc => exact Nat.le_succ _
  | running pc | woken pc => exact Nat.le_refl _

theorem Step.others_rank (h : Step code s a s') {u : Tid} (hu : u ≠ a.tid) :
    (s'.thread u).rank rank ≤ (s.thread u).rank rank := by
  cases h with
  | @broadcast t =>
    have hut : u ≠ t := hu
    simpa [hut] using wake_rank_le (s.thread u)
  | @call t | @lock t | @unlock t | @exec t | @wait t | @resume t | @spurious t =>
    have hut : u ≠ t := hu
    simp [hut]

theorem Step.own_rank (hf : Falling code rank) (h : Step code s a s') (ha : a.isCall = false) :
    (s'.thread a.tid).rank rank < (s.thread a.tid).rank rank := by
  cases h with
  | call => cases ha
  | @lock t pc next ht hc | @unlock t pc next ht hc | @wait t pc next ht hc
  | @broadcast t pc next ht hc =>
    have hpc := hf pc
    rw [hc] at hpc
    simpa [Action.tid, ht, Thread.rank] using hpc
  | @exec t pc run ht hc =>
    have hpc := hf pc
    rw [hc] at hpc
    simpa [Action.tid, ht, Thread.rank] using hpc s.val
  | @resume t pc ht | @spurious t pc ht => simp [Action.tid, ht, Thread.rank]

theorem Step.falls [Fintype Tid] (hf : Falling code rank) (h : Step code s a s')
    (ha : a.isCall = false) :
    ∑ t, (s'.thread t).rank rank < ∑ t, (s.thread t).rank rank := by
  refine Finset.sum_lt_sum ?_ ⟨a.tid, Finset.mem_univ _, h.own_rank hf ha⟩
  intro u _
  by_cases hu : u = a.tid
  · exact hu ▸ (h.own_rank hf ha).le
  · exact h.others_rank hu

omit [DecidableEq Tid] in
theorem outside_of_call (hd : Disciplined code P mk) {pc : Pc} {enter : Op → Val → Val × Pc}
    (hc : code pc = .call enter) : mk.inside pc = false := by
  have hs := hd.sound pc
  rw [hc] at hs
  exact hs.1

omit [DecidableEq Tid] in
theorem Inv.free_of_rests (hi : Inv mk P s) (hd : Disciplined code P mk)
    (hr : ∀ t, (s.thread t).Rests code) : s.holder = none := by
  cases hheld : s.holder with
  | none => rfl
  | some u =>
    exfalso
    have hu := hr u
    cases hth : s.thread u with
    | running pc =>
      rw [hth] at hu
      obtain ⟨enter, hc⟩ := hu
      have hin := (hi.owner u pc hth).mpr hheld
      rw [outside_of_call hd hc] at hin
      cases hin
    | asleep pc => exact (hi.parked u pc (.inl hth)).1 hheld
    | woken pc => rwa [hth] at hu

omit [DecidableEq Tid] in
theorem Inv.settled (hi : Inv mk P s) (hd : Disciplined code P mk)
    (hr : ∀ t, (s.thread t).Rests code) : Settled code P s :=
  ⟨hr, fun hP => hi.no_sleeper hd (hi.free_of_rests hd hr) hP⟩

theorem Inv.holder_runs (hi : Inv mk P s) (hd : Disciplined code P mk) {t : Tid}
    (hheld : s.holder = some t) : ∃ s', Monitor.step code s (.run t) = some s' := by
  cases ht : s.thread t with
  | running pc =>
    have hin := (hi.owner t pc ht).mpr hheld
    have hs := hd.sound pc
    simp only [Monitor.step, ht]
    cases hc : code pc with
    | call enter =>
      rw [outside_of_call hd hc] at hin
      cases hin
    | lock next =>
      rw [hc] at hs
      rw [hs.1] at hin
      cases hin
    | unlock next | wait next => simp [exec, hheld]
    | exec run | broadcast next => exact ⟨_, rfl⟩
  | asleep pc => exact absurd hheld (hi.parked t pc (.inl ht)).1
  | woken pc => exact absurd hheld (hi.parked t pc (.inr ht)).1

theorem Inv.free_runs (hi : Inv mk P s) (hd : Disciplined code P mk) {t : Tid}
    (hfree : s.holder = none) (ht : ¬ (s.thread t).Rests code) :
    ∃ s', Monitor.step code s (.run t) = some s' := by
  cases hth : s.thread t with
  | running pc =>
    have hout : mk.inside pc ≠ true := by
      intro hin
      have hheld := (hi.owner t pc hth).mp hin
      rw [hfree] at hheld
      cases hheld
    have hs := hd.sound pc
    simp only [Monitor.step, hth]
    cases hc : code pc with
    | call enter =>
      rw [hth] at ht
      exact absurd ⟨enter, hc⟩ ht
    | lock next => simp [exec, hfree]
    | unlock next | wait next =>
      rw [hc] at hs
      exact absurd hs.1 hout
    | exec run | broadcast next => exact ⟨_, rfl⟩
  | asleep pc =>
    rw [hth] at ht
    exact absurd trivial ht
  | woken pc => simp [Monitor.step, hth, hfree]

/-- No deadlock: some thread can go on unless all are at rest. -/
theorem Inv.runs (hi : Inv mk P s) (hd : Disciplined code P mk) (hs : ¬ Settled code P s) :
    ∃ t s', Monitor.step code s (.run t) = some s' := by
  cases hheld : s.holder with
  | some t => exact ⟨t, hi.holder_runs hd hheld⟩
  | none =>
    by_contra hstuck
    refine hs (hi.settled hd fun t => ?_)
    by_contra ht
    exact hstuck ⟨t, hi.free_runs hd hheld ht⟩

theorem Inv.settles [Fintype Tid] {init : State Tid Val Pc → Prop} (hi : Inv mk P s)
    (hd : Disciplined code P mk) (hf : Falling code rank) :
    (machine code init).LeadsTo (fun a => a.isRun = true) (fun a => a.isCall = false)
      (Settled code P) s := by
  refine Machine.LeadsTo.of_rank (Inv mk P) (fun s => ∑ t, (s.thread t).rank rank) ?_ ?_ hi
  · intro s hi hs
    obtain ⟨t, s', h⟩ := hi.runs hd hs
    exact ⟨.run t, s', rfl, h⟩
  · intro s a s' hi _ ha h
    have hstep := step_spec h
    exact ⟨hi.step hd hstep, hstep.falls hf ha⟩

end Monitor
