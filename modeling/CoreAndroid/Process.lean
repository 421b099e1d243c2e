import CoreAndroid.Handle
import CoreAndroid.Lib.Machine

/-! The processes of process_android.c: a handle holds the number of a process that was started
through two forks, and a signal is sent to the number that the handle gives back. -/
namespace CoreAndroid.Process

inductive Forked where
  | failed
  | child (pid : Int32) (hpos : 0 < pid)

/-- The live handles with what `ofc_handle_create` was given to hold. -/
structure Handles where
  context : Handle → Option UInt64

inductive Act where
  | lock (hProcess : Handle) (context : UInt64) -- `ofc_handle_lock`, with what it returns
  | unlock (hProcess : Handle)
  | destroy (hProcess : Handle)
  | kill (pid : Int32) (signal : Nat)
  deriving DecidableEq, Repr

section Source

def invalidHandle : Handle := 0xffffffffffffffff

def exitSuccess : Int := 0
def sigterm : Nat := 15

def toContext (pid : Int32) : UInt64 := pid.toInt64.toUInt64
def toPid (context : UInt64) : Int32 := context.toInt64.toInt32

/-- The first child: what it leaves in `pid2`, which it shares with its parent, and how it
exits. If the second fork fails then `ofc_process_crash_impl` ends it before it sets `pid2`. -/
def firstChild : Forked → Int32 × Int
  | .failed => (0, exitSuccess)
  | .child pidt _ => (pidt, 0)

/-- The handle, `pid2` and the handles that `ofc_process_exec_impl` leaves, unless it ends the
process. `waitpid` is what the parent finds in `ret` for the exit of the first child. -/
def ofcProcessExecImpl (vfork fork : Forked) (waitpid : Int → Int) (hNew : Handle)
    (s : Handles) : Option (Handle × Int32 × Handles) :=
  match vfork with
  | .failed => none
  | .child _ _ =>
      let (pid2, status) := firstChild fork
      let ret := waitpid status
      if ret = 0 then
        some (hNew, pid2, ⟨Function.update s.context hNew (some (toContext pid2))⟩)
      else some (invalidHandle, pid2, s)

def Handles.lock (s : Handles) (hProcess : Handle) : UInt64 := (s.context hProcess).getD 0

def ofcProcessGetIdImpl (hProcess : Handle) (s : Handles) : Int32 × List Act :=
  let pid := toPid (s.lock hProcess)
  (pid, .lock hProcess (s.lock hProcess) :: if pid ≠ 0 then [.unlock hProcess] else [])

def ofcProcessTermImpl (hProcess : Handle) (s : Handles) : List Act × Handles :=
  let pid := toPid (s.lock hProcess)
  ([.lock hProcess (s.lock hProcess), .kill pid sigterm, .destroy hProcess, .unlock hProcess],
    ⟨Function.update s.context hProcess none⟩)

end Source

section Runs

inductive Call where
  | exec (vfork fork : Forked) (waitpid : Int → Int) (hNew : Handle)
  | getId (hProcess : Handle)
  | term (hProcess : Handle)

structure System extends Handles where
  -- the process number that `ofc_process_exec_impl` stored in a live handle
  stored : Handle → Option Int32

def Grantable (s : Handles) (hNew : Handle) : Prop :=
  s.context hNew = none ∧ hNew ≠ handleNull ∧ hNew ≠ invalidHandle

instance (s : Handles) (hNew : Handle) : Decidable (Grantable s hNew) :=
  inferInstanceAs (Decidable (_ ∧ _))

def system : Machine System Call where
  init s := s = ⟨⟨fun _ => none⟩, fun _ => none⟩
  step s
    | .exec vfork fork waitpid hNew =>
        if Grantable s.toHandles hNew then
          (ofcProcessExecImpl vfork fork waitpid hNew s.toHandles).map fun (h, pid2, handles) =>
            ⟨handles, if h = hNew then Function.update s.stored hNew (some pid2) else s.stored⟩
        else none
    | .getId _ => some s
    | .term hProcess =>
        some ⟨(ofcProcessTermImpl hProcess s.toHandles).2,
          Function.update s.stored hProcess none⟩

/-- A call on a handle: whether it is to end the process, what was stored in the handle if it
is live, and what the call did. -/
structure CallRecord where
  isTerm : Bool
  hProcess : Handle
  stored : Option Int32
  acts : List Act
  deriving DecidableEq

def callRecords (s : System) : Call → List CallRecord
  | .exec .. => []
  | .getId hProcess => [⟨false, hProcess, s.stored hProcess,
    (ofcProcessGetIdImpl hProcess s.toHandles).2⟩]
  | .term hProcess => [⟨true, hProcess, s.stored hProcess,
    (ofcProcessTermImpl hProcess s.toHandles).1⟩]

def recorded : Machine (System × List CallRecord) Call := system.record callRecords

def killed (acts : List Act) : List (Int32 × Nat) :=
  acts.filterMap fun
    | .kill pid signal => some (pid, signal)
    | _ => none

def destroyed (acts : List Act) : List Handle :=
  acts.filterMap fun
    | .destroy hProcess => some hProcess
    | _ => none

/-- Before an act that needs it the handle was locked with success. -/
def LockedFirst (acts : List Act) : Prop :=
  ∀ before act after hProcess, acts = before ++ act :: after →
    act = .unlock hProcess ∨ act = .destroy hProcess →
      ∃ context ≠ 0, .lock hProcess context ∈ before

/-- A call sends one signal at most, to the positive number in the live handle that it ends. -/
structure ProperCall (r : CallRecord) : Prop where
  live : r.isTerm = true → ∀ pid, r.stored = some pid →
    killed r.acts = [(pid, sigterm)] ∧ destroyed r.acts = [r.hProcess]
  dead : r.isTerm = true → r.stored = none → killed r.acts = []
  positive : ∀ pid signal, (pid, signal) ∈ killed r.acts → 0 < pid
  locked : LockedFirst r.acts

/-- Processes are only ended through a live handle from an `ofc_process_exec_impl` whose second
fork succeeded. -/
def EndsStarted (p : System × List CallRecord) : Call → Prop
  | .term hProcess => ∃ pid ∈ p.1.stored hProcess, 0 < pid
  | _ => True

instance (p : System × List CallRecord) : DecidablePred (EndsStarted p) := fun call =>
  match call with
  | .term hProcess => inferInstanceAs (Decidable (∃ pid ∈ p.1.stored hProcess, 0 < pid))
  | .exec .. | .getId _ => inferInstanceAs (Decidable True)

end Runs

section Proofs

theorem toPid_toContext (pid : Int32) : toPid (toContext pid) = pid := by
  simp [toPid, toContext]

theorem context_ne_zero {context : UInt64} (h : toPid context ≠ 0) : context ≠ 0 := by
  rintro rfl
  exact h rfl

theorem lockedFirst_lock {hProcess : Handle} {context : UInt64} {acts : List Act}
    (hacts : ∀ act ∈ acts, ∀ g, act = .unlock g ∨ act = .destroy g → g = hProcess ∧ context ≠ 0) :
    LockedFirst (.lock hProcess context :: acts) := by
  intro before act after g hsplit hneeds
  cases before with
  | nil =>
    cases hsplit
    rcases hneeds with hact | hact <;> cases hact
  | cons first before =>
    obtain ⟨rfl, rfl⟩ := List.cons_eq_cons.mp hsplit
    obtain ⟨rfl, hcontext⟩ := hacts act (by simp) g hneeds
    exact ⟨context, hcontext, List.mem_cons_self⟩

def Faithful (s : System) : Prop := ∀ h, s.context h = (s.stored h).map toContext

theorem Faithful.step {s t : System} {call : Call} (hf : Faithful s)
    (h : system.step s call = some t) : Faithful t := by
  cases call with
  | exec vfork fork waitpid hNew =>
    obtain ⟨⟨hfree, -, hvalid⟩, h⟩ := Option.ite_none_right_eq_some.mp h
    obtain ⟨⟨g, pid2, handles⟩, hexec, rfl⟩ := Option.map_eq_some_iff.mp h
    unfold ofcProcessExecImpl at hexec
    cases vfork with
    | failed => cases hexec
    | child pid hpos =>
      dsimp only at hexec
      split at hexec <;> cases hexec
      · intro g
        by_cases hg : g = hNew
        · simp [hg]
        · simpa [hg] using hf g
      · intro g
        simpa [Ne.symm hvalid] using hf g
  | getId hProcess =>
    cases h
    exact hf
  | term hProcess =>
    cases h
    intro g
    by_cases hg : g = hProcess
    · simp [ofcProcessTermImpl, hg]
    · simpa [ofcProcessTermImpl, hg] using hf g

theorem getId_proper (hProcess : Handle) (stored : Option Int32) (s : Handles) :
    ProperCall ⟨false, hProcess, stored, (ofcProcessGetIdImpl hProcess s).2⟩ := by
  unfold ofcProcessGetIdImpl
  dsimp only
  split
  · rename_i hpid
    refine ⟨nofun, nofun, by simp [killed], lockedFirst_lock ?_⟩
    intro act hact g hneeds
    obtain rfl := List.mem_singleton.mp hact
    rcases hneeds with hneeds | hneeds <;> cases hneeds
    exact ⟨rfl, context_ne_zero hpid⟩
  · refine ⟨nofun, nofun, by simp [killed], lockedFirst_lock ?_⟩
    intro act hact
    cases hact

theorem term_proper_iff {s : System} (hf : Faithful s) (hProcess : Handle) :
    ProperCall ⟨true, hProcess, s.stored hProcess,
        (ofcProcessTermImpl hProcess s.toHandles).1⟩ ↔
      ∃ pid ∈ s.stored hProcess, 0 < pid := by
  have hkilled : killed (ofcProcessTermImpl hProcess s.toHandles).1 =
      [(toPid (s.lock hProcess), sigterm)] := rfl
  cases hstored : s.stored hProcess with
  | none =>
    refine iff_of_false ?_ (by simp)
    intro hproper
    have hnone := hproper.dead rfl rfl
    rw [hkilled] at hnone
    cases hnone
  | some pid =>
    have hlock : s.lock hProcess = toContext pid := by
      rw [Handles.lock, hf hProcess, hstored]
      rfl
    rw [hlock, toPid_toContext] at hkilled
    constructor
    · intro hproper
      exact ⟨pid, rfl, hproper.positive pid sigterm (by simp [hkilled])⟩
    · rintro ⟨pid', hpid, hpos⟩
      cases hpid
      have hcontext : toContext pid ≠ 0 := by
        apply context_ne_zero
        rw [toPid_toContext]
        rintro rfl
        exact absurd hpos (by decide)
      refine ⟨?_, nofun, ?_, lockedFirst_lock ?_⟩
      · rintro - pid' hpid
        cases hpid
        exact ⟨hkilled, rfl⟩
      · intro pid' signal hmem
        rw [hkilled, List.mem_singleton] at hmem
        cases hmem
        exact hpos
      · intro act hact g hneeds
        rw [hlock]
        refine ⟨?_, hcontext⟩
        simp only [List.mem_cons, List.not_mem_nil, or_false] at hact
        rcases hact with rfl | rfl | rfl <;> rcases hneeds with hneeds | hneeds <;> cases hneeds <;>
          rfl

end Proofs

def noProcesses : System := ⟨⟨fun _ => none⟩, fun _ => none⟩

/-- A run signals only processes of its own exactly if every process is ended through a live
handle, from a start whose second fork succeeded. -/
theorem signals_own_iff {calls : List Call} {t : System} {records : List CallRecord}
    (hr : recorded.run (noProcesses, []) calls = some (t, records)) :
    (∀ r ∈ records, ProperCall r) ↔ recorded.Each EndsStarted (noProcesses, []) calls := by
  have hstart : Faithful noProcesses := fun _ => rfl
  refine (Machine.record_forall_iff (by simp) hr).trans ?_
  refine Machine.each_congr (fun p => Faithful p.1) ?_ ?_ hstart calls
  · intro p call q hf hstep
    exact hf.step (Machine.record_step hstep).1
  · intro p call hf
    cases call with
    | exec vfork fork waitpid hNew => simp [callRecords, EndsStarted]
    | getId hProcess =>
      simp only [callRecords, List.mem_singleton, forall_eq, EndsStarted, iff_true]
      exact getId_proper hProcess _ _
    | term hProcess =>
      simp only [callRecords, List.mem_singleton, forall_eq, EndsStarted]
      exact term_proper_iff hf hProcess

def startSeven : Call := .exec (.child 6 (by decide)) (.child 7 (by decide)) id 1

theorem signals_own_once : ∃ (t : System) (records : List CallRecord),
    recorded.run (noProcesses, []) [startSeven, .getId 1, .term 1, .getId 1] = some (t, records) ∧
      ∀ r ∈ records, ProperCall r := by
  have hrun : (recorded.runWhere EndsStarted (noProcesses, [])
      [startSeven, .getId 1, .term 1, .getId 1]).isSome := by decide
  obtain ⟨⟨t, records⟩, hs⟩ := Option.isSome_iff_exists.mp hrun
  have hr := Machine.run_of_runWhere hs
  exact ⟨t, records, hr, (signals_own_iff hr).mpr (Machine.each_of_runWhere hs)⟩

/-- The second end of the same process signals the whole process group. -/
theorem signals_group : ∃ (t : System) (records : List CallRecord),
    recorded.run (noProcesses, []) [startSeven, .term 1, .term 1] = some (t, records) ∧
      ⟨true, 1, none, [.lock 1 0, .kill 0 sigterm, .destroy 1, .unlock 1]⟩ ∈ records ∧
      ¬ ∀ r ∈ records, ProperCall r := by
  have hrun : (recorded.run (noProcesses, []) [startSeven, .term 1, .term 1]).map Prod.snd =
      some [⟨true, 1, some 7, [.lock 1 7, .kill 7 sigterm, .destroy 1, .unlock 1]⟩,
        ⟨true, 1, none, [.lock 1 0, .kill 0 sigterm, .destroy 1, .unlock 1]⟩] := by decide
  obtain ⟨⟨t, records⟩, hs, hrecords⟩ := Option.map_eq_some_iff.mp hrun
  have hgroup : ⟨true, 1, none, [.lock 1 0, .kill 0 sigterm, .destroy 1, .unlock 1]⟩ ∈ records := by
    dsimp only at hrecords
    rw [hrecords]
    exact List.mem_cons_of_mem _ List.mem_cons_self
  refine ⟨t, records, hs, hgroup, ?_⟩
  intro hproper
  have hnone := (hproper _ hgroup).dead rfl rfl
  cases hnone

end CoreAndroid.Process
