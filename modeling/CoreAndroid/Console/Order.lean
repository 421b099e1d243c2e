import CoreAndroid.Console.Threads

/-! What the log file holds after any number of threads have written to it. The log is opened
without a lock, so nothing is promised about a thread that reads `g_fd` while another one opens
the log. -/
namespace CoreAndroid.Console
variable {Tid : Type}

section Spec

/-- A call that was made, an `open` that succeeded, or a text that was written to a descriptor,
which is the text of the call itself or one that comes from opening the log. -/
inductive LogEvent (Tid : Type) where
  | called (t : Tid) (obuf : List UInt8)
  | opened (t : Tid) (fd : Int)
  | wrote (t : Tid) (fd : Int) (own : Bool) (obuf : List UInt8)

def LogCall.event (t : Tid) (call : LogCall) : LogEvent Tid := .called t call.obuf

def taskEvents (env : TextEnv) (t : Tid) : List Task → List (LogEvent Tid)
  | .writeTo fd obuf :: rest => [.wrote t fd rest.isEmpty obuf]
  | .openNew attempt :: _ =>
      if env.openFile attempt < 0 then [] else [.opened t (env.openFile attempt)]
  | _ => []

def logEvents (env : TextEnv) (s : Writers Tid) : WriterAction Tid → List (LogEvent Tid)
  | .call t call => [call.event t]
  | .run t _ => taskEvents env t (s.tasks t)

def LogEvent.openedFd : LogEvent Tid → Option Int
  | .opened _ fd => some fd
  | _ => none

def opened (events : List (LogEvent Tid)) : List Int := events.filterMap LogEvent.openedFd

def LogEvent.sentTo (fd : Int) : LogEvent Tid → List UInt8
  | .wrote _ d _ obuf => if d = fd then obuf else []
  | .called .. | .opened .. => []

def sent (fd : Int) (events : List (LogEvent Tid)) : List UInt8 := events.flatMap (·.sentTo fd)

def SentOnly (ok : Int → Prop) (events : List (LogEvent Tid)) : Prop :=
  ∀ t fd own obuf, .wrote t fd own obuf ∈ events → ok fd

def LogEvent.calledBy [DecidableEq Tid] (t : Tid) : LogEvent Tid → Option (List UInt8)
  | .called u obuf => if u = t then some obuf else none
  | .wrote .. | .opened .. => none

def LogEvent.writtenFor [DecidableEq Tid] (t : Tid) : LogEvent Tid → Option (List UInt8)
  | .wrote u _ true obuf => if u = t then some obuf else none
  | _ => none

def Task.obuf : Task → Option (List UInt8)
  | .stdout obuf | .fstat obuf | .console obuf | .write obuf | .writeTo _ obuf => some obuf
  | _ => none

def pending (tasks : List Task) : List (List UInt8) := (tasks.getLast?.bind Task.obuf).toList

def Task.opens : Task → Bool
  | .openLog | .testOld _ | .closeOld _ | .openNew _ | .store _ | .testNew | .toStdout => true
  | .closeLog | .nextIx => true
  | _ => false

def Task.reads : Task → Bool
  | .stdout _ | .fstat _ | .console _ | .write _ => true
  | _ => false

def Opening (s : Writers Tid) (t : Tid) : Prop := ∃ task ∈ (s.tasks t).head?, task.opens = true

/-- A thread reads `g_fd` only while no other thread opens the log. -/
def Unraced (s : Writers Tid) : WriterAction Tid → Prop
  | .call .. => True
  | .run t _ => ∀ task ∈ (s.tasks t).head?, task.reads = true → ∀ u, ¬ Opening s u

/-- The log was never opened. -/
structure Closed (log : TextLog) (events : List (LogEvent Tid)) : Prop where
  never : opened events = []
  shut : log.files.Shut
  sentOnly : SentOnly (· = stdoutFileno) events

/-- The log was opened once and is open, and its file holds all that was written to it. -/
structure Open (log : TextLog) (fd : Int) (events : List (LogEvent Tid)) : Prop where
  once : opened events = [fd]
  valid : 0 ≤ fd
  ne_stdout : fd ≠ stdoutFileno
  single : log.files.Single fd log.ix (sent fd events)
  sentOnly : SentOnly (fun d => d = stdoutFileno ∨ d = fd) events

def Settled (log : TextLog) (events : List (LogEvent Tid)) : Prop :=
  log.gFd = stdoutFileno ∧ Closed log events ∨ Open log log.gFd events

end Spec

section Local
variable {env : TextEnv} {log log' : TextLog} {events events' : List (LogEvent Tid)} {task : Task}

def Knows (log : TextLog) (events : List (LogEvent Tid)) : Task → Prop
  | .openLog | .testOld _ | .openNew _ => log.gFd = stdoutFileno ∧ Closed log events
  | .store fd => log.gFd = stdoutFileno ∧ (fd < 0 ∧ Closed log events ∨ Open log fd events)
  | .testNew => log.gFd < 0 ∧ Closed log events ∨ Open log log.gFd events
  | .toStdout => log.gFd < 0 ∧ Closed log events
  | .writeTo fd _ => fd = stdoutFileno ∨ Open log fd events
  | .closeLog | .nextIx | .closeOld _ => False
  | _ => True

def Task.calm : Task → Bool
  | .console _ | .dumpLibs | .callback _ | .write _ => true
  | _ => false

theorem knows_of_calm (h : task.calm = true) : Knows log events task := by
  cases task with
  | console | dumpLibs | callback | write => trivial
  | _ => cases h

theorem opens_of_calm (h : task.calm = true) : task.opens = false := by
  cases task with
  | console | dumpLibs | callback | write => rfl
  | _ => cases h

theorem Closed.not_open {fd : Int} (h : Closed log events) : ¬ Open log fd events := by
  intro hopen
  have hfd := hopen.single.fds
  rw [h.shut fd] at hfd
  cases hfd

theorem Closed.of_same (h : Closed log events) (hfiles : log'.files = log.files) :
    Closed log' events :=
  ⟨h.never, hfiles ▸ h.shut, h.sentOnly⟩

theorem Open.of_same {fd : Int} (h : Open log fd events) (hfiles : log'.files = log.files)
    (hix : log'.ix = log.ix) : Open log' fd events :=
  ⟨h.once, h.valid, h.ne_stdout, hfiles ▸ hix ▸ h.single, h.sentOnly⟩

structure Stepped (log : TextLog) (events : List (LogEvent Tid)) (task : Task) (log' : TextLog)
    (events' : List (LogEvent Tid)) (tasks : List Task) : Prop where
  calm : ∀ next ∈ tasks.tail, next.calm = true
  knows : ∀ next ∈ tasks.head?, Knows log' events' next
  opens : ∀ next ∈ tasks.head?, next.opens = true → task.opens = true ∨ task.reads = true
  keeps : ∀ fd, Open log fd events → Open log' fd events'
  quiet : task.opens = false → log'.gFd = log.gFd ∧ (Closed log events → Closed log' events')
  settles : task.opens = true → (∀ next ∈ tasks.head?, next.opens = false) → Settled log' events'

theorem stepped_same {tasks : List Task} (hgFd : log'.gFd = log.gFd)
    (hfiles : log'.files = log.files) (hix : log'.ix = log.ix)
    (hcalm : ∀ next ∈ tasks.tail, next.calm = true)
    (hknows : ∀ next ∈ tasks.head?, Knows log' events next)
    (hopens : ∀ next ∈ tasks.head?, next.opens = true → task.opens = true ∨ task.reads = true)
    (hsettles : task.opens = true → (∀ next ∈ tasks.head?, next.opens = false) →
      Settled log' events) : Stepped log events task log' events tasks where
  calm := hcalm
  knows := hknows
  opens := hopens
  keeps _ h := h.of_same hfiles hix
  quiet _ := ⟨hgFd, fun h => h.of_same hfiles⟩
  settles := hsettles

theorem writeTo_stepped {t : Tid} {fd : Int} {own : Bool} {obuf : List UInt8}
    (hknows : Knows log events (.writeTo fd obuf)) :
    Stepped log events (.writeTo fd obuf) { log with files := log.files.write 0 fd obuf }
      (events ++ [.wrote t fd own obuf]) [] := by
  have hsent (d : Int) : sent d (events ++ [.wrote t fd own obuf]) =
      sent d events ++ if fd = d then obuf else [] := by
    rw [sent, List.flatMap_append, List.flatMap_singleton]
    rfl
  have hopened : opened (events ++ [.wrote t fd own obuf]) = opened events := by
    simp [opened, LogEvent.openedFd]
  have honly {ok : Int → Prop} (hok : ok fd) (h : SentOnly ok events) :
      SentOnly ok (events ++ [.wrote t fd own obuf]) := by
    intro u d own' obuf' hmem
    rcases List.mem_append.mp hmem with hmem | hmem
    · exact h u d own' obuf' hmem
    · cases List.mem_singleton.mp hmem
      exact hok
  refine ⟨by simp, by simp, by simp, ?_, fun _ => ⟨rfl, ?_⟩, by simp [Task.opens]⟩
  · intro d h
    rcases hknows with rfl | hopen
    · -- standard output is not the log
      have hne : stdoutFileno ≠ d := h.ne_stdout.symm
      have hnone := h.single.others stdoutFileno hne
      refine ⟨hopened.trans h.once, h.valid, h.ne_stdout, ?_, honly (.inl rfl) h.sentOnly⟩
      rw [Files.write_unopened hnone, hsent, if_neg hne, List.append_nil]
      exact h.single
    · have heq : fd = d := by
        by_contra hne
        have hnone := h.single.others fd hne
        rw [hopen.single.fds] at hnone
        cases hnone
      subst heq
      refine ⟨hopened.trans h.once, h.valid, h.ne_stdout, ?_, honly (.inr rfl) h.sentOnly⟩
      rw [hsent, if_pos rfl]
      exact h.single.write 0 obuf
  · intro h
    rcases hknows with rfl | hopen
    · refine ⟨hopened.trans h.never, ?_, honly rfl h.sentOnly⟩
      dsimp only
      rw [Files.write_unopened (h.shut _)]
      exact h.shut
    · exact absurd hopen h.not_open

theorem test_stepped {obuf : List UInt8} {tasks : List Task} (htask : task.reads = true)
    (hquiet : task.opens = false) (hsettled : Settled log events)
    (hknows : ∀ next ∈ tasks.head?, Knows log events next ∧ next.opens = false)
    (hcalm : ∀ next ∈ tasks.tail, next.calm = true) :
    Stepped log events task log events
      (if log.gFd = stdoutFileno then [.openLog, .write obuf] else tasks) := by
  by_cases hstuck : log.gFd = stdoutFileno
  · rw [if_pos hstuck]
    have hclosed : Closed log events := by
      rcases hsettled with ⟨-, hclosed⟩ | hopen
      · exact hclosed
      · exact absurd hstuck hopen.ne_stdout
    refine stepped_same rfl rfl rfl ?_ ?_ ?_ ?_
    · simp [Task.calm]
    · simpa [Knows] using ⟨hstuck, hclosed⟩
    · exact fun _ _ _ => .inr htask
    · simp [hquiet]
  · rw [if_neg hstuck]
    refine stepped_same rfl rfl rfl hcalm (fun next hnext => (hknows next hnext).1) ?_ ?_
    · intro next hnext hopens
      rw [(hknows next hnext).2] at hopens
      cases hopens
    · simp [hquiet]

theorem openNew_stepped {t : Tid} {attempt : Nat} (b : Bool) (rest : List Task)
    (hopen : env.openFile attempt ≠ stdoutFileno) (hknows : Knows log events (.openNew attempt)) :
    Stepped log events (.openNew attempt) (taskStep env b log (.openNew attempt)).1
      (events ++ taskEvents env t (.openNew attempt :: rest))
      (taskStep env b log (.openNew attempt)).2 := by
  obtain ⟨hstuck, hclosed⟩ := hknows
  refine ⟨by simp [taskStep], ?_, fun _ _ _ => .inl rfl, ?_, by simp [Task.opens],
    by simp [taskStep, Task.opens]⟩
  · have hnext : Knows { log with
        files := log.files.openTrunc (env.openFile attempt) log.ix }
        (events ++ taskEvents env t (.openNew attempt :: rest))
        (.store (env.openFile attempt)) := by
      refine ⟨hstuck, ?_⟩
      dsimp only [taskEvents]
      by_cases hfd : env.openFile attempt < 0
      · rw [if_pos hfd, List.append_nil, Files.openTrunc, if_pos hfd]
        exact .inl ⟨hfd, hclosed⟩
      · rw [if_neg hfd]
        have hsent : sent (env.openFile attempt)
            (events ++ [.opened t (env.openFile attempt)]) = [] := by
          refine List.flatMap_eq_nil_iff.mpr ?_
          rintro (⟨u, obuf⟩ | ⟨u, fd⟩ | ⟨u, fd, own, obuf⟩) hmem
          · rfl
          · rfl
          · have hfd : fd = stdoutFileno := hclosed.sentOnly u fd own obuf (by simpa using hmem)
            exact if_neg (hfd ▸ hopen.symm)
        refine .inr ⟨?_, not_lt.mp hfd, hopen, ?_, ?_⟩
        · have hnever : events.filterMap LogEvent.openedFd = [] := hclosed.never
          simp [opened, hnever, LogEvent.openedFd]
        · rw [hsent]
          exact hclosed.shut.openTrunc (not_lt.mp hfd)
        · intro u fd own obuf hmem
          exact .inl (hclosed.sentOnly u fd own obuf (by simpa using hmem))
    simpa [taskStep] using hnext
  · exact fun fd h => absurd h hclosed.not_open

theorem task_stepped (b : Bool) (hknows : Knows log events task)
    (hreads : task.reads = true → Settled log events)
    (hwrites : ∀ fd obuf, task ≠ .writeTo fd obuf) (hopens : ∀ attempt, task ≠ .openNew attempt) :
    Stepped log events task (taskStep env b log task).1 events (taskStep env b log task).2 := by
  cases task with
  | stdout obuf =>
    exact test_stepped rfl rfl (hreads rfl) (by simp [Knows, Task.opens]) (by simp)
  | fstat obuf =>
    have hret : ¬ ((if b then 0 else -1 : Int) > 0) := by cases b <;> decide
    simp only [taskStep, hret, false_and, if_false]
    exact stepped_same rfl rfl rfl (by simp) (by simp [Knows]) (by simp [Task.opens])
      (by simp [Task.opens])
  | closeLog | nextIx | closeOld => exact hknows.elim
  | console obuf =>
    exact test_stepped rfl rfl (hreads rfl) (by simp [Knows, Task.opens]) (by simp)
  | openLog =>
    obtain ⟨hstuck, hclosed⟩ := hknows
    have hclosed : Closed { log with opens := log.opens + 1 } events := hclosed.of_same rfl
    dsimp only [taskStep]
    split
    · exact stepped_same rfl rfl rfl (by simp) (by simpa [Knows] using ⟨hstuck, hclosed⟩)
        (fun _ _ _ => .inl rfl) (by simp [Task.opens])
    · exact stepped_same rfl rfl rfl (by simp) (by simp) (by simp)
        (fun _ _ => .inl ⟨hstuck, hclosed⟩)
  | testOld attempt =>
    obtain ⟨hstuck, hclosed⟩ := hknows
    simp only [taskStep, ne_eq, hstuck, not_true_eq_false, if_false]
    exact stepped_same rfl rfl rfl (by simp) (by simpa [Knows] using ⟨hstuck, hclosed⟩)
      (fun _ _ _ => .inl rfl) (by simp [Task.opens])
  | openNew attempt => exact absurd rfl (hopens attempt)
  | store fd =>
    have hnext : Knows { log with gFd := fd } events .testNew := by
      obtain ⟨-, ⟨hfd, hclosed⟩ | hopened⟩ := hknows
      · exact .inl ⟨hfd, hclosed.of_same rfl⟩
      · exact .inr (hopened.of_same rfl rfl)
    exact ⟨by simp [taskStep], by simpa [taskStep] using hnext, fun _ _ _ => .inl rfl,
      fun fd h => h.of_same rfl rfl, by simp [Task.opens], by simp [taskStep, Task.opens]⟩
  | testNew =>
    dsimp only [taskStep]
    split
    · rename_i hfd
      have hclosed : Closed log events := by
        rcases hknows with ⟨-, hclosed⟩ | hopened
        · exact hclosed
        · exact absurd hfd (not_lt.mpr hopened.valid)
      exact stepped_same rfl rfl rfl (by simp) (by simpa [Knows] using ⟨hfd, hclosed⟩)
        (fun _ _ _ => .inl rfl) (by simp [Task.opens])
    · rename_i hfd
      have hopened : Open log log.gFd events := by
        rcases hknows with ⟨hbad, -⟩ | hopened
        · exact absurd hbad hfd
        · exact hopened
      exact stepped_same rfl rfl rfl (by simp [Task.calm]) (by simp [Knows])
        (fun _ _ _ => .inl rfl) (fun _ _ => .inr hopened)
  | toStdout =>
    have hclosed : Closed { log with gFd := stdoutFileno } events := hknows.2.of_same rfl
    exact ⟨by simp [taskStep, Task.calm], by simp [taskStep, Knows], fun _ _ _ => .inl rfl,
      fun fd h => h.of_same rfl rfl, by simp [Task.opens], fun _ _ => .inl ⟨rfl, hclosed⟩⟩
  | dumpLibs =>
    have hcalm : ∀ next ∈ (env.phdrs log.dumps).map Task.callback, next.calm = true := by
      intro next hnext
      obtain ⟨info, -, rfl⟩ := List.mem_map.mp hnext
      rfl
    have hhead : ∀ next ∈ ((env.phdrs log.dumps).map Task.callback).head?, next.calm = true :=
      fun next hnext => hcalm next (List.mem_of_mem_head? hnext)
    refine stepped_same rfl rfl rfl (fun next hnext => hcalm next (List.mem_of_mem_tail hnext))
      (fun next hnext => knows_of_calm (hhead next hnext)) ?_ (by simp [Task.opens])
    intro next hnext hopens
    rw [opens_of_calm (hhead next hnext)] at hopens
    cases hopens
  | callback info =>
    dsimp only [taskStep]
    split
    · exact stepped_same rfl rfl rfl (by simp) (by simp [Knows]) (by simp [Task.opens])
        (by simp [Task.opens])
    · split
      · exact stepped_same rfl rfl rfl (by simp) (by simp [Knows]) (by simp [Task.opens])
          (by simp [Task.opens])
      · exact stepped_same rfl rfl rfl (by simp) (by simp) (by simp) (by simp [Task.opens])
  | write obuf =>
    have hnext : Knows log events (.writeTo log.gFd obuf) := by
      rcases hreads rfl with ⟨hstuck, -⟩ | hopened
      · exact .inl hstuck
      · exact .inr hopened
    exact stepped_same rfl rfl rfl (by simp [taskStep]) (by simpa [taskStep] using hnext)
      (by simp [taskStep, Task.opens]) (by simp [Task.opens])
  | writeTo fd obuf => exact absurd rfl (hwrites fd obuf)

theorem Knows.keeps (h : Knows log events task) (hquiet : task.opens = false)
    (hkeeps : ∀ fd, Open log fd events → Open log' fd events') : Knows log' events' task := by
  cases task with
  | writeTo fd obuf => exact h.imp_right (hkeeps fd)
  | stdout | fstat | console | dumpLibs | callback | write => trivial
  | _ => cases hquiet

theorem Knows.mono (h : Knows log events task) (hgFd : log'.gFd = log.gFd)
    (hclosed : Closed log events → Closed log' events')
    (hkeeps : ∀ fd, Open log fd events → Open log' fd events') : Knows log' events' task := by
  cases task with
  | openLog | testOld | openNew | toStdout => exact ⟨hgFd ▸ h.1, hclosed h.2⟩
  | store fd => exact ⟨hgFd ▸ h.1, h.2.imp (And.imp_right hclosed) (hkeeps fd)⟩
  | testNew =>
    unfold Knows
    rw [hgFd]
    exact h.imp (And.imp_right hclosed) (hkeeps _)
  | writeTo fd obuf => exact h.imp_right (hkeeps fd)
  | stdout | fstat | console | dumpLibs | callback | write => trivial
  | closeLog | nextIx | closeOld => exact h

theorem Knows.status (h : Knows log events task) (hopens : task.opens = true) :
    Closed log events ∨ ∃ fd, Open log fd events := by
  cases task with
  | openLog | testOld | openNew | toStdout => exact .inl h.2
  | store fd => exact h.2.imp And.right fun h => ⟨fd, h⟩
  | testNew => exact h.imp And.right fun h => ⟨_, h⟩
  | closeLog | nextIx | closeOld => exact h.elim
  | _ => cases hopens

theorem Settled.mono (h : Settled log events) (hgFd : log'.gFd = log.gFd)
    (hclosed : Closed log events → Closed log' events')
    (hkeeps : ∀ fd, Open log fd events → Open log' fd events') : Settled log' events' := by
  unfold Settled
  rw [hgFd]
  exact h.imp (And.imp_right hclosed) (hkeeps _)

end Local

section Threads
variable [DecidableEq Tid] {env : TextEnv} {s s' : Writers Tid} {events : List (LogEvent Tid)}
  {t u : Tid}

/-- At most one thread opens the log, and every thread knows what it relies on. -/
structure OrderInv (s : Writers Tid) (events : List (LogEvent Tid)) : Prop where
  calm : ∀ t, ∀ task ∈ (s.tasks t).tail, task.calm = true
  knows : ∀ t, ∀ task ∈ (s.tasks t).head?, Knows s.log events task
  alone : ∀ t u, Opening s t → Opening s u → t = u
  settled : (∀ t, ¬ Opening s t) → Settled s.log events

def Writers.after (s : Writers Tid) (t : Tid) (log : TextLog) (tasks : List Task) : Writers Tid :=
  { log, tasks := Function.update s.tasks t tasks }

theorem after_tasks_self (log : TextLog) (tasks : List Task) :
    (s.after t log tasks).tasks t = tasks :=
  Function.update_self ..

theorem after_tasks_of_ne (log : TextLog) (tasks : List Task) (h : u ≠ t) :
    (s.after t log tasks).tasks u = s.tasks u :=
  Function.update_of_ne h ..

theorem opening_after_of_ne (log : TextLog) (tasks : List Task) (h : u ≠ t) :
    Opening (s.after t log tasks) u ↔ Opening s u := by
  unfold Opening
  rw [after_tasks_of_ne log tasks h]

theorem OrderInv.stepped (hi : OrderInv s events) {task : Task} {rest tasks : List Task}
    {log : TextLog} {events' : List (LogEvent Tid)} (htasks : s.tasks t = task :: rest)
    (hstep : Stepped s.log events task log events' tasks)
    (hreads : task.reads = true → ∀ u, ¬ Opening s u) :
    OrderInv (s.after t log (tasks ++ rest)) events' := by
  have hrest : ∀ next ∈ rest, next.calm = true := by
    intro next hnext
    exact hi.calm t next (by rwa [htasks])
  have hhead : ∀ next ∈ (tasks ++ rest).head?, next ∈ tasks.head? ∨ next.calm = true := by
    cases tasks with
    | nil => exact fun next hnext => .inr (hrest next (List.mem_of_mem_head? hnext))
    | cons => exact fun next hnext => .inl hnext
  have hself : Opening s t ↔ task.opens = true := by
    simp [Opening, htasks]
  have hafter : Opening (s.after t log (tasks ++ rest)) t →
      task.opens = true ∨ task.reads = true := by
    rintro ⟨next, hnext, hopens⟩
    rw [after_tasks_self] at hnext
    rcases hhead next hnext with hnext | hcalm
    · exact hstep.opens next hnext hopens
    · rw [opens_of_calm hcalm] at hopens
      cases hopens
  have halone : ∀ u ≠ t, Opening s u → ¬ Opening (s.after t log (tasks ++ rest)) t := by
    intro u hut hu ht
    rcases hafter ht with hopens | hread
    · exact hut (hi.alone u t hu (hself.mpr hopens))
    · exact hreads hread u hu
  constructor
  · intro u
    by_cases hut : u = t
    · subst hut
      rw [after_tasks_self]
      cases tasks with
      | nil => exact fun next hnext => hrest next (List.mem_of_mem_tail hnext)
      | cons =>
        intro next hnext
        rcases List.mem_append.mp hnext with hnext | hnext
        · exact hstep.calm next hnext
        · exact hrest next hnext
    · rw [after_tasks_of_ne log _ hut]
      exact hi.calm u
  · intro u
    by_cases hut : u = t
    · subst hut
      rw [after_tasks_self]
      intro next hnext
      rcases hhead next hnext with hnext | hcalm
      · exact hstep.knows next hnext
      · exact knows_of_calm hcalm
    · rw [after_tasks_of_ne log _ hut]
      intro next hnext
      have hknows := hi.knows u next hnext
      cases hopens : next.opens with
      | false => exact hknows.keeps hopens hstep.keeps
      | true =>
        -- the other thread opens the log, so this one does not
        have hquiet : task.opens = false := by
          by_contra hno
          have ht := hself.mpr (by simpa using hno)
          exact hut (hi.alone u t ⟨next, hnext, hopens⟩ ht)
        obtain ⟨hgFd, hclosed⟩ := hstep.quiet hquiet
        exact hknows.mono hgFd hclosed hstep.keeps
  · intro u v hu hv
    by_cases hut : u = t
    · by_cases hvt : v = t
      · rw [hut, hvt]
      · rw [hut] at hu
        exact absurd hu (halone v hvt ((opening_after_of_ne log _ hvt).mp hv))
    · have hu := (opening_after_of_ne log _ hut).mp hu
      by_cases hvt : v = t
      · rw [hvt] at hv
        exact absurd hv (halone u hut hu)
      · exact hi.alone u v hu ((opening_after_of_ne log _ hvt).mp hv)
  · intro hnone
    cases hopens : task.opens with
    | true =>
      refine hstep.settles hopens ?_
      intro next hnext
      by_contra hno
      refine hnone t ⟨next, ?_, by simpa using hno⟩
      rw [after_tasks_self]
      exact List.mem_head?_append_of_mem_head? hnext
    | false =>
      have hbefore : ∀ u, ¬ Opening s u := by
        intro u hu
        by_cases hut : u = t
        · rw [hut, hself, hopens] at hu
          cases hu
        · exact hnone u ((opening_after_of_ne log _ hut).mpr hu)
      obtain ⟨hgFd, hclosed⟩ := hstep.quiet hopens
      exact (hi.settled hbefore).mono hgFd hclosed hstep.keeps

omit [DecidableEq Tid] in
theorem sentOnly_called {ok : Int → Prop} {obuf : List UInt8} (h : SentOnly ok events) :
    SentOnly ok (events ++ [.called t obuf]) := by
  intro u fd own obuf' hmem
  exact h u fd own obuf' (by simpa using hmem)

omit [DecidableEq Tid] in
theorem Closed.called {log : TextLog} {obuf : List UInt8} (h : Closed log events) :
    Closed log (events ++ [.called t obuf]) :=
  ⟨by simpa [opened, LogEvent.openedFd] using h.never, h.shut, sentOnly_called h.sentOnly⟩

omit [DecidableEq Tid] in
theorem Open.called {log : TextLog} {fd : Int} {obuf : List UInt8} (h : Open log fd events) :
    Open log fd (events ++ [.called t obuf]) := by
  have honce : opened (events ++ [.called t obuf]) = [fd] := by
    rw [← h.once]
    simp [opened, LogEvent.openedFd]
  refine ⟨honce, h.valid, h.ne_stdout, ?_, sentOnly_called h.sentOnly⟩
  have hsent : sent fd (events ++ [.called t obuf]) = sent fd events := by
    simp [sent, LogEvent.sentTo]
  rw [hsent]
  exact h.single

theorem OrderInv.call (hi : OrderInv s events) (hidle : s.tasks t = []) (call : LogCall) :
    OrderInv (s.after t s.log [call.task]) (events ++ [call.event t]) := by
  have hfresh : Knows s.log (events ++ [call.event t]) call.task ∧ call.task.opens = false := by
    cases call <;> exact ⟨trivial, rfl⟩
  have hopening : ∀ u, Opening (s.after t s.log [call.task]) u ↔ Opening s u := by
    intro u
    by_cases hut : u = t
    · subst hut
      simp [Opening, after_tasks_self, hidle, hfresh.2]
    · exact opening_after_of_ne _ _ hut
  constructor
  · intro u
    by_cases hut : u = t
    · simp [hut, after_tasks_self]
    · rw [after_tasks_of_ne _ _ hut]
      exact hi.calm u
  · intro u next hnext
    by_cases hut : u = t
    · subst hut
      rw [after_tasks_self] at hnext
      cases hnext
      exact hfresh.1
    · rw [after_tasks_of_ne _ _ hut] at hnext
      exact (hi.knows u next hnext).mono rfl Closed.called fun _ => Open.called
  · intro u v hu hv
    exact hi.alone u v ((hopening u).mp hu) ((hopening v).mp hv)
  · intro hnone
    have hbefore : ∀ u, ¬ Opening s u := fun u hu => hnone u ((hopening u).mpr hu)
    exact (hi.settled hbefore).mono rfl Closed.called fun _ => Open.called

omit [DecidableEq Tid] in
theorem taskEvents_eq_nil {task : Task} (rest : List Task)
    (hwrites : ∀ fd obuf, task ≠ .writeTo fd obuf) (hopens : ∀ attempt, task ≠ .openNew attempt) :
    taskEvents env t (task :: rest) = [] := by
  cases task with
  | writeTo fd obuf => exact absurd rfl (hwrites fd obuf)
  | openNew attempt => exact absurd rfl (hopens attempt)
  | _ => rfl

theorem run_cases {b : Bool} (h : (writers env).step s (.run t b) = some s') :
    ∃ task rest, s.tasks t = task :: rest ∧
      s' = s.after t (taskStep env b s.log task).1 ((taskStep env b s.log task).2 ++ rest) := by
  obtain ⟨⟨log, tasks⟩, hworker, rfl⟩ := Option.map_eq_some_iff.mp h
  cases htasks : s.tasks t with
  | nil =>
    rw [htasks] at hworker
    cases hworker
  | cons task rest =>
    rw [htasks] at hworker
    cases hworker
    exact ⟨task, rest, rfl, rfl⟩

theorem call_cases {call : LogCall} (h : (writers env).step s (.call t call) = some s') :
    s.tasks t = [] ∧ s' = s.after t s.log [call.task] := by
  obtain ⟨hidle, hs'⟩ := Option.ite_none_right_eq_some.mp h
  cases hs'
  exact ⟨hidle, rfl⟩

theorem OrderInv.step (hopen : ∀ attempt, env.openFile attempt ≠ stdoutFileno)
    (hi : OrderInv s events) {a : WriterAction Tid} (hok : Unraced s a)
    (h : (writers env).step s a = some s') : OrderInv s' (events ++ logEvents env s a) := by
  cases a with
  | call t call =>
    obtain ⟨hidle, rfl⟩ := call_cases h
    exact hi.call hidle call
  | run t b =>
    obtain ⟨task, rest, htasks, rfl⟩ := run_cases h
    have hmem : task ∈ (s.tasks t).head? := by rw [htasks]; rfl
    have hknows := hi.knows t task hmem
    have hreads : task.reads = true → ∀ u, ¬ Opening s u := hok task hmem
    refine hi.stepped htasks ?_ hreads
    dsimp only [logEvents]
    rw [htasks]
    by_cases hwrites : ∃ fd obuf, task = .writeTo fd obuf
    · obtain ⟨fd, obuf, rfl⟩ := hwrites
      exact writeTo_stepped hknows
    · have hwrites : ∀ fd obuf, task ≠ .writeTo fd obuf := fun fd obuf h => hwrites ⟨fd, obuf, h⟩
      by_cases hopens : ∃ attempt, task = .openNew attempt
      · obtain ⟨attempt, rfl⟩ := hopens
        exact openNew_stepped b rest (hopen attempt) hknows
      · have hopens : ∀ attempt, task ≠ .openNew attempt := fun attempt h => hopens ⟨attempt, h⟩
        rw [taskEvents_eq_nil rest hwrites hopens, List.append_nil]
        exact task_stepped b hknows (fun h => hi.settled (hreads h)) hwrites hopens

/-- Each thread has written the texts of its calls, in order, apart from the call under way. -/
structure Owes (s : Writers Tid) (events : List (LogEvent Tid)) : Prop where
  last : ∀ t, s.tasks t ≠ [] → pending (s.tasks t) ≠ []
  calls : ∀ t, events.filterMap (·.calledBy t) =
    events.filterMap (·.writtenFor t) ++ pending (s.tasks t)

theorem pending_append (tasks : List Task) {rest : List Task} (h : rest ≠ []) :
    pending (tasks ++ rest) = pending rest := by
  rw [pending, List.getLast?_append_of_ne_nil _ h, pending]

theorem taskStep_pending (env : TextEnv) (b : Bool) (log : TextLog) {task : Task}
    {obuf : List UInt8}
    (h : task.obuf = some obuf) :
    (∃ fd, task = .writeTo fd obuf) ∨
      (∀ fd text, task ≠ .writeTo fd text) ∧ pending (taskStep env b log task).2 = [obuf] := by
  cases task with
  | writeTo fd text =>
    cases h
    exact .inl ⟨fd, rfl⟩
  | stdout | fstat | console =>
    cases h
    dsimp only [taskStep]
    split <;> exact .inr ⟨nofun, rfl⟩
  | write =>
    cases h
    exact .inr ⟨nofun, rfl⟩
  | _ => cases h

theorem taskEvents_called (t u : Tid) (tasks : List Task) :
    (taskEvents env t tasks).filterMap (·.calledBy u) = [] := by
  unfold taskEvents
  split
  · rfl
  · split <;> rfl
  · rfl

theorem taskEvents_of_ne (hut : u ≠ t) (tasks : List Task) :
    (taskEvents env t tasks).filterMap (·.writtenFor u) = [] := by
  unfold taskEvents
  split
  · rename_i rest
    cases rest with
    | nil => simp [LogEvent.writtenFor, hut.symm]
    | cons => rfl
  · split <;> rfl
  · rfl

theorem taskEvents_nested {task : Task} {rest : List Task} (h : rest ≠ []) :
    (taskEvents env t (task :: rest)).filterMap (·.writtenFor u) = [] := by
  cases rest with
  | nil => exact absurd rfl h
  | cons =>
    cases task with
    | openNew attempt =>
      dsimp only [taskEvents]
      split <;> rfl
    | _ => rfl

theorem Owes.after (ho : Owes s events) {log : TextLog} {tasks : List Task}
    {new : List (LogEvent Tid)} (hlast : tasks ≠ [] → pending tasks ≠ [])
    (hself : (events ++ new).filterMap (·.calledBy t) =
      (events ++ new).filterMap (·.writtenFor t) ++ pending tasks)
    (hothers : ∀ u ≠ t, new.filterMap (·.calledBy u) = [] ∧ new.filterMap (·.writtenFor u) = []) :
    Owes (s.after t log tasks) (events ++ new) := by
  constructor
  · intro u
    by_cases hut : u = t
    · subst hut
      rwa [after_tasks_self]
    · rw [after_tasks_of_ne _ _ hut]
      exact ho.last u
  · intro u
    by_cases hut : u = t
    · subst hut
      rwa [after_tasks_self]
    · obtain ⟨hcalled, hwritten⟩ := hothers u hut
      rw [after_tasks_of_ne _ _ hut, List.filterMap_append, List.filterMap_append, hcalled,
        hwritten, List.append_nil, List.append_nil]
      exact ho.calls u

theorem Owes.step (ho : Owes s events) {a : WriterAction Tid}
    (h : (writers env).step s a = some s') : Owes s' (events ++ logEvents env s a) := by
  cases a with
  | call t call =>
    obtain ⟨hidle, rfl⟩ := call_cases h
    have hpending : pending [call.task] = [call.obuf] := by cases call <;> rfl
    have hcalls := ho.calls t
    rw [hidle] at hcalls
    refine ho.after (by simp [hpending]) ?_ ?_
    · rw [List.filterMap_append, List.filterMap_append, hpending, hcalls]
      simp [logEvents, LogCall.event, LogEvent.calledBy, LogEvent.writtenFor, pending]
    · intro u hut
      simp [logEvents, LogCall.event, LogEvent.calledBy, LogEvent.writtenFor, hut.symm]
  | run t b =>
    obtain ⟨task, rest, htasks, rfl⟩ := run_cases h
    have hcalls := ho.calls t
    have hlast := ho.last t (by simp [htasks])
    rw [htasks] at hcalls hlast
    dsimp only [logEvents]
    rw [htasks]
    have hothers : ∀ u ≠ t, (taskEvents env t (task :: rest)).filterMap (·.calledBy u) = [] ∧
        (taskEvents env t (task :: rest)).filterMap (·.writtenFor u) = [] :=
      fun u hut => ⟨taskEvents_called t u _, taskEvents_of_ne hut _⟩
    by_cases hrest : rest = []
    · subst hrest
      obtain ⟨obuf, hobuf⟩ : ∃ obuf, task.obuf = some obuf := by
        refine Option.ne_none_iff_exists'.mp fun hnone => hlast ?_
        simp [pending, hnone]
      have hpending : pending [task] = [obuf] := by simp [pending, hobuf]
      rw [hpending] at hcalls
      rcases taskStep_pending env b s.log hobuf with ⟨fd, rfl⟩ | ⟨hwrites, hkept⟩
      · refine ho.after (by simp [taskStep]) ?_ hothers
        rw [List.filterMap_append, List.filterMap_append, taskEvents_called, List.append_nil,
          hcalls]
        simp [taskEvents, LogEvent.writtenFor, taskStep, pending]
      · have hopens : ∀ attempt, task ≠ .openNew attempt := by
          rintro attempt rfl
          cases hobuf
        rw [taskEvents_eq_nil [] hwrites hopens] at hothers ⊢
        refine ho.after ?_ ?_ hothers
        · simp [hkept]
        · rw [List.append_nil, List.append_nil, hkept]
          exact hcalls
    · have hkept : pending ((taskStep env b s.log task).2 ++ rest) = pending (task :: rest) := by
        rw [pending_append _ hrest, ← List.singleton_append, pending_append _ hrest]
      refine ho.after (fun _ => hkept ▸ hlast) ?_ hothers
      rw [List.filterMap_append, List.filterMap_append, taskEvents_called,
        taskEvents_nested hrest, List.append_nil, List.append_nil, hkept]
      exact hcalls

omit [DecidableEq Tid] in
theorem order_init (hgFd : s.log.gFd = stdoutFileno) (hshut : s.log.files.Shut)
    (hidle : ∀ t, s.tasks t = []) : OrderInv s [] where
  calm t := by simp [hidle]
  knows t := by simp [hidle]
  alone t := by simp [Opening, hidle]
  settled _ := .inl ⟨hgFd, rfl, hshut, fun _ _ _ _ hmem => absurd hmem List.not_mem_nil⟩

theorem owes_init (hidle : ∀ t, s.tasks t = []) : Owes s [] where
  last t := by simp [hidle]
  calls t := by simp [hidle, pending]

def InOrder (s : Writers Tid × List (LogEvent Tid)) : Prop := OrderInv s.1 s.2 ∧ Owes s.1 s.2

/-- However the threads interleave, as long as none reads `g_fd` while another one opens the log:
at most one open has succeeded and the log was not closed, its file holds all that was written
to it, whole and in order, `g_fd` is its descriptor once no thread opens it, and each thread has
written the texts of its calls once, in order, apart from the call that is under way. -/
theorem log_in_order (hopen : ∀ attempt, env.openFile attempt ≠ stdoutFileno)
    {s : Writers Tid × List (LogEvent Tid)}
    (h : ((writers env).record (logEvents env)).ReachWhere (fun s a => Unraced s.1 a) s) :
    (Closed s.1.log s.2 ∨ ∃ fd, Open s.1.log fd s.2) ∧
      ((∀ t, ¬ Opening s.1 t) → Settled s.1.log s.2) ∧
      ∀ t, s.2.filterMap (·.calledBy t) =
        s.2.filterMap (·.writtenFor t) ++ pending (s.1.tasks t) := by
  have hinv : InOrder s := by
    refine h.invariant ?_ ?_
    · rintro ⟨s, events⟩ ⟨⟨hgFd, hshut, hidle⟩, hevents⟩
      dsimp only at hevents hidle
      subst hevents
      exact ⟨order_init hgFd hshut hidle, owes_init hidle⟩
    · intro s a s' _ hi hok hstep
      obtain ⟨hstep, hevents⟩ := Machine.record_step hstep
      unfold InOrder
      rw [hevents]
      exact ⟨hi.1.step hopen hok hstep, hi.2.step hstep⟩
  obtain ⟨hi, ho⟩ := hinv
  refine ⟨?_, hi.settled, ho.calls⟩
  by_cases hopening : ∃ t, Opening s.1 t
  · obtain ⟨t, task, htask, hopens⟩ := hopening
    exact (hi.knows t task htask).status hopens
  · rcases hi.settled (not_exists.mp hopening) with ⟨-, hclosed⟩ | hopened
    · exact .inl hclosed
    · exact .inr ⟨_, hopened⟩

end Threads

section Pair

def quietPair : Writers Bool where
  log := unopenedLog
  tasks _ := []

instance (s : Writers Bool) : ∀ a, Decidable (Unraced s a)
  | .call .. => inferInstanceAs (Decidable True)
  | .run t _ => inferInstanceAs (Decidable (∀ task ∈ (s.tasks t).head?, task.reads = true →
      ∀ u, ¬ ∃ task ∈ (s.tasks u).head?, task.opens = true))

def inTurn : List (WriterAction Bool) :=
  .call false (.console [97]) :: List.replicate 12 (.run false true) ++
    .call true (.stdout [98]) :: List.replicate 4 (.run true true)

def atOnce : List (WriterAction Bool) :=
  [.call false (.console [97]), .call true (.console [98]), .run false true, .run true true] ++
    List.replicate 11 (.run false true) ++ List.replicate 12 (.run true true)

abbrev recordedPair : Machine (Writers Bool × List (LogEvent Bool)) (WriterAction Bool) :=
  (writers plainEnv).record (logEvents plainEnv)

theorem log_in_order_inTurn : ∃ s, recordedPair.ReachWhere (fun s a => Unraced s.1 a) s ∧
    s.1.log.files.text 0 = [79, 70, 97, 98] ∧
      (Closed s.1.log s.2 ∨ ∃ fd, Open s.1.log fd s.2) := by
  have hrun : (recordedPair.runWhere (fun s a => Unraced s.1 a) (quietPair, []) inTurn).map
      (fun s => s.1.log.files.text 0) = some [79, 70, 97, 98] := by decide
  obtain ⟨s, hr, htext⟩ := Option.map_eq_some_iff.mp hrun
  have hinit : recordedPair.init (quietPair, []) := ⟨⟨rfl, fun _ => rfl, fun _ => rfl⟩, rfl⟩
  have hreach := Machine.ReachWhere.runWhere (.init hinit) hr
  have hopen : ∀ attempt, plainEnv.openFile attempt ≠ stdoutFileno := by
    intro attempt hstd
    have hsum : (3 : Int) + attempt = 1 := hstd
    omega
  exact ⟨s, hreach, htext, (log_in_order hopen hreach).1⟩

-- the thread that comes second empties the file, and the text of the first one is lost
example : ((writers plainEnv).run quietPair atOnce).map (fun s => s.log.files.text 0) =
    some [79, 70, 98] := by decide

end Pair

end CoreAndroid.Console
