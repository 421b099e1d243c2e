import CoreAndroid.Console.Return
import CoreAndroid.Lib.Files
import CoreAndroid.Lib.Simulation

/-! The log of console_android.c with its texts, under any number of threads. What a thread
still has to do is a stack of tasks, and each task that reads or writes `g_fd` or calls the
kernel is a step. -/
namespace CoreAndroid.Console

structure TextEnv where
  configDir : Nat → Bool
  openFile : Nat → Int
  phdrs : Nat → List PhdrInfo
  substr : String → String → Int
  banner : List UInt8
  line : String → UInt64 → List UInt8

structure TextLog where
  gFd : Int
  ix : Nat
  coreLoadAddr : UInt64
  smbLoadAddr : UInt64
  opens : Nat
  dumps : Nat
  files : Files Nat UInt8
  rotations : List (Nat × Nat)

inductive Task where
  | stdout (obuf : List UInt8) -- `ofc_write_stdout_impl`
  | fstat (obuf : List UInt8)
  | closeLog
  | nextIx
  | console (obuf : List UInt8) -- `ofc_write_console_impl`
  | openLog -- `open_log`
  | testOld (attempt : Nat)
  | closeOld (attempt : Nat)
  | openNew (attempt : Nat)
  | store (fd : Int)
  | testNew
  | toStdout
  | dumpLibs -- `ofc_process_dump_libs_impl`
  | callback (info : PhdrInfo)
  | write (obuf : List UInt8) -- `write` reads `g_fd`, and then writes
  | writeTo (fd : Int) (obuf : List UInt8)

inductive LogCall where
  | stdout (obuf : List UInt8)
  | log (level : Nat) (obuf : List UInt8)
  | console (obuf : List UInt8)

def LogCall.task : LogCall → Task
  | .stdout obuf | .log _ obuf => .stdout obuf
  | .console obuf => .console obuf

section Steps
variable (env : TextEnv)

def taskStep (fstatSucceeds : Bool) (log : TextLog) : Task → TextLog × List Task
  | .stdout obuf =>
      (log, if log.gFd = stdoutFileno then [.openLog, .write obuf] else [.fstat obuf])
  | .fstat obuf =>
      let ret : Int := if fstatSucceeds then 0 else -1
      let stSize := (log.files.fds log.gFd).elim 0 fun (file, _) => (log.files.text file).length
      (log, if ret > 0 ∧ stSize > maxSize then [.closeLog, .nextIx, .openLog, .write obuf]
        else [.write obuf])
  | .closeLog => ({ log with files := log.files.close log.gFd }, [])
  | .nextIx =>
      let ix := (log.ix + 1) % 2
      ({ log with ix := ix, rotations := log.rotations ++ [(log.ix, ix)] }, [])
  | .console obuf =>
      (log, if log.gFd = stdoutFileno then [.openLog, .write obuf] else [.write obuf])
  | .openLog =>
      ({ log with opens := log.opens + 1 },
        if env.configDir log.opens then [.testOld log.opens] else [])
  | .testOld attempt =>
      (log, if log.gFd ≠ stdoutFileno then [.closeOld attempt] else [.openNew attempt])
  | .closeOld attempt => ({ log with files := log.files.close log.gFd }, [.openNew attempt])
  | .openNew attempt =>
      ({ log with files := log.files.openTrunc (env.openFile attempt) log.ix },
        [.store (env.openFile attempt)])
  | .store fd => ({ log with gFd := fd }, [.testNew])
  | .testNew => (log, if log.gFd < 0 then [.toStdout] else [.console env.banner, .dumpLibs])
  | .toStdout => ({ log with gFd := stdoutFileno }, [.console env.banner, .dumpLibs])
  | .dumpLibs => ({ log with dumps := log.dumps + 1 }, (env.phdrs log.dumps).map .callback)
  | .callback info =>
      if env.substr "libof_core_jni" info.dlpiName ≥ 0 then
        ({ log with coreLoadAddr := info.dlpiAddr },
          [.console (env.line "libof_core_jni" info.dlpiAddr)])
      else if env.substr "libof_smb_jni" info.dlpiName ≥ 0 then
        ({ log with smbLoadAddr := info.dlpiAddr },
          [.console (env.line "libof_smb_jni" info.dlpiAddr)])
      else (log, [])
  | .write obuf => (log, [.writeTo log.gFd obuf])
  | .writeTo fd obuf => ({ log with files := log.files.write 0 fd obuf }, [])

/-- One thread by itself; an action says whether `fstat` succeeds. -/
def worker : Machine (TextLog × List Task) Bool where
  init _ := True
  step
    | (_, []), _ => none
    | (log, task :: rest), fstatSucceeds =>
        let (log, tasks) := taskStep env fstatSucceeds log task
        some (log, tasks ++ rest)

variable (Tid : Type) [DecidableEq Tid]

structure Writers where
  log : TextLog
  tasks : Tid → List Task

inductive WriterAction where
  | call (t : Tid) (call : LogCall)
  | run (t : Tid) (fstatSucceeds : Bool)

variable {Tid}

/-- Any number of threads that call the functions of the log. -/
def writers : Machine (Writers Tid) (WriterAction Tid) where
  init s := s.log.gFd = stdoutFileno ∧ s.log.files.Shut ∧ ∀ t, s.tasks t = []
  step s
    | .call t call =>
        if s.tasks t = [] then some { s with tasks := Function.update s.tasks t [call.task] }
        else none
    | .run t fstatSucceeds =>
        ((worker env).step (s.log, s.tasks t) fstatSucceeds).map fun (log, tasks) =>
          { log, tasks := Function.update s.tasks t tasks }

end Steps

/-! A thread that is left alone does what the functions of the log do to the lengths. -/

section Lengths

def TextEnv.lengths (env : TextEnv) : Env :=
  { configDir := env.configDir
    openFile := env.openFile
    phdrs := env.phdrs
    substr := env.substr
    banner := env.banner.length
    line := fun name addr => (env.line name addr).length }

def TextLog.lengths (log : TextLog) : Log :=
  { gFd := log.gFd
    ix := log.ix
    coreLoadAddr := log.coreLoadAddr
    smbLoadAddr := log.smbLoadAddr
    opens := log.opens
    dumps := log.dumps
    disk := { size := fun file => (log.files.text file).length, fds := log.files.fds }
    rotations := log.rotations }

def LogCall.lengths (fstatSucceeds : Bool) : LogCall → ConsoleCall
  | .stdout obuf => .stdout fstatSucceeds obuf.length
  | .log level obuf => .log level fstatSucceeds obuf.length
  | .console obuf => .console obuf.length

def LogCall.obuf : LogCall → List UInt8
  | .stdout obuf | .log _ obuf | .console obuf => obuf

structure TextEnv.Speaks (env : TextEnv) : Prop where
  banner : env.banner ≠ []
  line : ∀ name addr, env.line name addr ≠ []

variable {env : TextEnv} {log : TextLog} {rest : List Task}

theorem length_update (text : Nat → List UInt8) (file : Nat) (bytes : List UInt8) :
    (fun f => (Function.update text file bytes f).length) =
      fun f => if f = file then bytes.length else (text f).length := by
  funext f
  by_cases hf : f = file
  · rw [hf, Function.update_self, if_pos rfl]
  · rw [Function.update_of_ne hf, if_neg hf]

theorem openTrunc_lengths (log : TextLog) (fd : Int) :
    { log with files := log.files.openTrunc fd log.ix }.lengths =
      { log.lengths with disk := log.lengths.disk.openTrunc fd log.ix } := by
  by_cases hfd : fd < 0
  · simp only [TextLog.lengths, Files.openTrunc, Disk.openTrunc, if_pos hfd]
  · simp only [TextLog.lengths, Files.openTrunc, Disk.openTrunc, if_neg hfd, length_update,
      List.length_nil]
    congr
    funext d
    exact Function.update_apply ..

theorem close_lengths (log : TextLog) :
    { log with files := log.files.close log.gFd }.lengths =
      { log.lengths with disk := log.lengths.disk.close log.gFd } := by
  simp only [TextLog.lengths, Files.close, Disk.close]
  congr
  funext d
  exact Function.update_apply ..

theorem write_lengths (log : TextLog) {obuf : List UInt8} (hobuf : obuf ≠ []) :
    { log with files := log.files.write 0 log.gFd obuf }.lengths =
      log.lengths.write obuf.length := by
  have hobuf : ¬ obuf.isEmpty = true := by simpa using hobuf
  unfold Log.write Disk.write Files.write TextLog.lengths
  cases hfd : log.files.fds log.gFd with
  | none => simp only [hfd]
  | some place =>
    obtain ⟨file, offset⟩ := place
    simp only [hfd, if_neg hobuf, length_update, Files.put_length]
    congr
    · funext f
      by_cases hf : f = file
      · rw [hf]
      · rw [if_neg hf, if_neg hf]
    · funext d
      exact Function.update_apply ..

/-- The thread comes from its tasks on the one log to its tasks on the other. -/
abbrev Works (env : TextEnv) (log : TextLog) (tasks : List Task) (log' : TextLog)
    (tasks' : List Task) : Prop :=
  (worker env).Comes (log, tasks) (log', tasks')

theorem works_task {task : Task} {log' : TextLog} {tasks' : List Task}
    (h : Works env (taskStep env true log task).1 ((taskStep env true log task).2 ++ rest)
      log' tasks') : Works env log (task :: rest) log' tasks' :=
  Machine.Comes.head (a := true) rfl h

def Does (env : TextEnv) (task : Task) (f : Log → Option Log) : Prop :=
  ∀ log log' rest, f log.lengths = some log' →
    ∃ after, after.lengths = log' ∧ Works env log (task :: rest) after rest

theorem write_does {obuf : List UInt8} (hobuf : obuf ≠ []) :
    Does env (.write obuf) fun log => some (log.write obuf.length) := by
  intro log log' rest h
  cases h
  exact ⟨_, write_lengths log hobuf, works_task (works_task (Machine.Comes.refl _))⟩

def DoesConsole (env : TextEnv) (writeConsole : Writer) : Prop :=
  ∀ obuf ≠ [], Does env (.console obuf) (writeConsole obuf.length)

variable {writeConsole : Writer}

theorem callback_does (henv : env.Speaks) (hw : DoesConsole env writeConsole)
    (info : PhdrInfo) : Does env (.callback info)
      (processDumpLibsCallback env.lengths writeConsole · info) := by
  intro log log' rest h
  dsimp only [processDumpLibsCallback, TextEnv.lengths] at h
  by_cases hcore : env.substr "libof_core_jni" info.dlpiName ≥ 0
  · rw [if_pos hcore] at h
    obtain ⟨after, hafter, hworks⟩ := hw _ (henv.line _ _)
      { log with coreLoadAddr := info.dlpiAddr } log' rest h
    refine ⟨after, hafter, works_task ?_⟩
    simp only [taskStep, if_pos hcore]
    exact hworks
  · rw [if_neg hcore] at h
    by_cases hsmb : env.substr "libof_smb_jni" info.dlpiName ≥ 0
    · rw [if_pos hsmb] at h
      obtain ⟨after, hafter, hworks⟩ := hw _ (henv.line _ _)
        { log with smbLoadAddr := info.dlpiAddr } log' rest h
      refine ⟨after, hafter, works_task ?_⟩
      simp only [taskStep, if_neg hcore, if_pos hsmb]
      exact hworks
    · rw [if_neg hsmb] at h
      cases h
      refine ⟨log, rfl, works_task ?_⟩
      simp only [taskStep, if_neg hcore, if_neg hsmb]
      exact .refl _

theorem callbacks_do (henv : env.Speaks) (hw : DoesConsole env writeConsole)
    (infos : List PhdrInfo) (log : TextLog) (rest : List Task) {log' : Log}
    (h : infos.foldlM (processDumpLibsCallback env.lengths writeConsole) log.lengths = some log') :
    ∃ after, after.lengths = log' ∧ Works env log (infos.map .callback ++ rest) after rest := by
  induction infos generalizing log with
  | nil =>
    cases h
    exact ⟨log, rfl, .refl _⟩
  | cons info infos ih =>
    rw [List.foldlM_cons] at h
    obtain ⟨mid, hmid, h⟩ := Option.bind_eq_some_iff.mp h
    obtain ⟨log, rfl, hfirst⟩ := callback_does henv hw info log mid _ hmid
    obtain ⟨after, hafter, hrest⟩ := ih log h
    exact ⟨after, hafter, hfirst.trans hrest⟩

theorem dump_does (henv : env.Speaks) (hw : DoesConsole env writeConsole) :
    Does env .dumpLibs (ofcProcessDumpLibsImpl env.lengths writeConsole) := by
  intro log log' rest h
  obtain ⟨after, hafter, hworks⟩ := callbacks_do henv hw (env.phdrs log.dumps)
    { log with dumps := log.dumps + 1 } rest h
  exact ⟨after, hafter, works_task hworks⟩

def TextLog.reopen (env : TextEnv) (attempt : Nat) (log : TextLog) : TextLog :=
  let log := if log.gFd ≠ stdoutFileno then { log with files := log.files.close log.gFd } else log
  let log :=
    { log with
      gFd := env.openFile attempt
      files := log.files.openTrunc (env.openFile attempt) log.ix }
  if log.gFd < 0 then { log with gFd := stdoutFileno } else log

theorem reopen_lengths (attempt : Nat) (log : TextLog) :
    (log.reopen env attempt).lengths = reopen env.lengths attempt log.lengths := by
  have hopened (log : TextLog) :
      { log with
        gFd := env.openFile attempt
        files := log.files.openTrunc (env.openFile attempt) log.ix }.lengths =
      { log.lengths with
        gFd := env.openFile attempt
        disk := log.lengths.disk.openTrunc (env.openFile attempt) log.lengths.ix } :=
    congrArg (fun l : Log => { l with gFd := env.openFile attempt }) (openTrunc_lengths log _)
  have hnew (log : TextLog) :
      (if log.gFd < 0 then { log with gFd := stdoutFileno } else log).lengths =
        if log.lengths.gFd < 0 then { log.lengths with gFd := stdoutFileno } else log.lengths :=
    apply_ite TextLog.lengths ..
  have hclosed : (if log.gFd ≠ stdoutFileno then { log with files := log.files.close log.gFd }
      else log).lengths = if log.lengths.gFd ≠ stdoutFileno then
        { log.lengths with disk := log.lengths.disk.close log.lengths.gFd } else log.lengths :=
    (apply_ite TextLog.lengths ..).trans (if_congr Iff.rfl (close_lengths log) rfl)
  refine (hnew _).trans ?_
  rw [hopened, hclosed]
  rfl

theorem reopen_works (attempt : Nat) (log : TextLog) (rest : List Task) :
    Works env log (.testOld attempt :: rest) (log.reopen env attempt)
      (.console env.banner :: .dumpLibs :: rest) := by
  have hclose : Works env log (.testOld attempt :: rest)
      (if log.gFd ≠ stdoutFileno then { log with files := log.files.close log.gFd } else log)
      (.openNew attempt :: rest) := by
    refine works_task ?_
    dsimp only [taskStep]
    by_cases hold : log.gFd ≠ stdoutFileno
    · rw [if_pos hold, if_pos hold]
      exact works_task (.refl _)
    · rw [if_neg hold, if_neg hold]
      exact .refl _
  refine hclose.trans (works_task (works_task (works_task ?_)))
  dsimp only [taskStep, TextLog.reopen, List.cons_append, List.nil_append]
  by_cases hbad : env.openFile attempt < 0
  · rw [if_pos hbad, if_pos hbad]
    exact works_task (.refl _)
  · rw [if_neg hbad, if_neg hbad]
    exact .refl _

theorem openLog_does (henv : env.Speaks) (hw : DoesConsole env writeConsole) :
    Does env .openLog (openLog env.lengths writeConsole) := by
  intro log log' rest h
  have htest : Works env log (.openLog :: rest) { log with opens := log.opens + 1 }
      ((if env.configDir log.opens then [.testOld log.opens] else []) ++ rest) :=
    works_task (.refl _)
  unfold openLog at h
  by_cases hdir : env.configDir log.opens = true
  · rw [if_pos hdir] at htest
    rw [if_pos (show env.lengths.configDir log.lengths.opens = true from hdir)] at h
    obtain ⟨mid, hbanner, hdump⟩ := Option.bind_eq_some_iff.mp h
    let counted : TextLog := { log with opens := log.opens + 1 }
    rw [show { log.lengths with opens := log.lengths.opens + 1 } = counted.lengths from rfl,
      ← reopen_lengths] at hbanner
    obtain ⟨spoken, rfl, hfirst⟩ := hw _ henv.banner _ mid (.dumpLibs :: rest) hbanner
    obtain ⟨after, hafter, hrest⟩ := dump_does henv hw spoken log' rest hdump
    have hreopen := htest.trans (reopen_works log.opens counted rest)
    exact ⟨after, hafter, (hreopen.trans hfirst).trans hrest⟩
  · rw [if_neg hdir] at htest
    rw [if_neg (show ¬ env.lengths.configDir log.lengths.opens = true from hdir)] at h
    cases h
    exact ⟨{ log with opens := log.opens + 1 }, rfl, htest⟩

theorem console_does (henv : env.Speaks) (depth : Nat) :
    DoesConsole env (ofcWriteConsoleImpl env.lengths depth) := by
  induction depth with
  | zero =>
    intro obuf _ log log' rest h
    cases h
  | succ depth ih =>
    intro obuf hobuf log log' rest h
    unfold ofcWriteConsoleImpl at h
    obtain ⟨mid, hmid, hwrite⟩ := Option.map_eq_some_iff.mp h
    have htest : Works env log (.console obuf :: rest) log
        ((if log.gFd = stdoutFileno then [.openLog, .write obuf] else [.write obuf]) ++ rest) :=
      works_task (.refl _)
    by_cases hstuck : log.gFd = stdoutFileno
    · rw [if_pos hstuck] at htest
      rw [if_pos (show log.lengths.gFd = stdoutFileno from hstuck)] at hmid
      obtain ⟨opened, rfl, hopen⟩ := openLog_does henv ih log mid (.write obuf :: rest) hmid
      obtain ⟨after, hafter, hlast⟩ :=
        write_does hobuf opened log' rest (congrArg some hwrite)
      exact ⟨after, hafter, (htest.trans hopen).trans hlast⟩
    · rw [if_neg hstuck] at htest
      rw [if_neg (show ¬ log.lengths.gFd = stdoutFileno from hstuck)] at hmid
      cases hmid
      obtain ⟨after, hafter, hlast⟩ := write_does hobuf log log' rest (congrArg some hwrite)
      exact ⟨after, hafter, htest.trans hlast⟩

theorem stdout_does (henv : env.Speaks) (depth : Nat) (fstatSucceeds : Bool)
    {obuf : List UInt8} (hobuf : obuf ≠ []) :
    Does env (.stdout obuf) (ofcWriteStdoutImpl env.lengths depth fstatSucceeds obuf.length) := by
  intro log log' rest h
  rw [ofcWriteStdoutImpl_eq] at h
  obtain ⟨mid, hmid, hwrite⟩ := Option.map_eq_some_iff.mp h
  have htest : Works env log (.stdout obuf :: rest) log
      ((if log.gFd = stdoutFileno then [.openLog, .write obuf] else [.fstat obuf]) ++ rest) :=
    works_task (.refl _)
  by_cases hstuck : log.gFd = stdoutFileno
  · rw [if_pos hstuck] at htest
    rw [if_pos (show log.lengths.gFd = stdoutFileno from hstuck)] at hmid
    obtain ⟨opened, rfl, hopen⟩ :=
      openLog_does henv (console_does henv depth) log mid (.write obuf :: rest) hmid
    obtain ⟨after, hafter, hlast⟩ := write_does hobuf opened log' rest (congrArg some hwrite)
    exact ⟨after, hafter, (htest.trans hopen).trans hlast⟩
  · rw [if_neg hstuck] at htest
    rw [if_neg (show ¬ log.lengths.gFd = stdoutFileno from hstuck)] at hmid
    cases hmid
    have hfstat : Works env log (.fstat obuf :: rest) log (.write obuf :: rest) :=
      works_task (.refl _)
    obtain ⟨after, hafter, hlast⟩ := write_does hobuf log log' rest (congrArg some hwrite)
    exact ⟨after, hafter, (htest.trans hfstat).trans hlast⟩

/-- A thread that nobody disturbs does to the lengths what the function does that it calls:
its tasks come to an end with the texts where the function leaves their lengths. -/
theorem call_alone (henv : env.Speaks) (depth : Nat) (fstatSucceeds : Bool) (call : LogCall)
    (hobuf : call.obuf ≠ []) (log : TextLog) {log' : Log}
    (h : (call.lengths fstatSucceeds).perform env.lengths depth log.lengths = some log') :
    ∃ after, after.lengths = log' ∧ Works env log [call.task] after [] := by
  cases call with
  | stdout obuf | log level obuf => exact stdout_does henv depth fstatSucceeds hobuf log log' [] h
  | console obuf => exact console_does henv depth obuf hobuf log log' [] h

end Lengths

def plainEnv : TextEnv where
  configDir _ := true
  openFile attempt := 3 + attempt
  phdrs _ := []
  substr _ _ := -1
  banner := [79, 70]
  line _ _ := [76]

def unopenedLog : TextLog where
  gFd := stdoutFileno
  ix := 0
  coreLoadAddr := 0
  smbLoadAddr := 0
  opens := 0
  dumps := 0
  files := { text := fun _ => [], fds := fun _ => none }
  rotations := []

theorem call_alone_unopened : ∃ after : TextLog, after.gFd = 3 ∧
    (after.files.text 0).length = 3 ∧ Works plainEnv unopenedLog [.console [97]] after [] := by
  have hperform : (((LogCall.console [97]).lengths true).perform plainEnv.lengths 2
      unopenedLog.lengths).map (fun log => (log.gFd, log.disk.size 0)) = some (3, 3) := by decide
  obtain ⟨log', hlog, hfields⟩ := Option.map_eq_some_iff.mp hperform
  obtain ⟨after, rfl, hworks⟩ := call_alone ⟨by decide, fun _ _ => List.cons_ne_nil _ _⟩ 2 true
    (.console [97]) (by decide) unopenedLog hlog
  simp only [Prod.mk.injEq] at hfields
  exact ⟨after, hfields.1, hfields.2, hworks⟩

end CoreAndroid.Console
