import CoreAndroid.Console.Return
import CoreAndroid.Lib.Machine
import Mathlib.Algebra.GroupWithZero.Nat
import Mathlib.Algebra.Order.BigOperators.Group.List

/-! How large the log grows. The test before a rotation never succeeds, so one file takes
everything that is written. -/
namespace CoreAndroid.Console

section Spec
variable (env : Env)

/-- The directory and the file can always be opened, and standard output, which is never
closed, is given out once at most. -/
structure Env.Opening : Prop where
  configDir : ∀ attempt, env.configDir attempt = true
  openFile : ∀ attempt, 0 ≤ env.openFile attempt
  once : ∀ attempt attempt', env.openFile attempt = stdoutFileno →
    env.openFile attempt' = stdoutFileno → attempt = attempt'

def Env.dumpLength (dump : Nat) : Nat := ((env.phdrs dump).map env.lineLength).sum

/-- What `open_log` writes into a fresh file. A file that is opened as standard output is opened
again for the banner, and gets a second one. -/
def Env.openingText : Nat :=
  if env.openFile 0 = stdoutFileno
  then env.banner + env.dumpLength 0 + env.banner + env.dumpLength 1
  else env.banner + env.dumpLength 0

/-- Neither file is larger than the limit and a message, and rotations alternate. -/
structure Bounded (maxLen : Nat) (log : Log) : Prop where
  size : ∀ file < 2, log.disk.size file ≤ maxSize + maxLen
  alternate : ∀ r ∈ log.rotations, r.1 < 2 ∧ r.2 = 1 - r.1

structure Unopened (log : Log) : Prop where
  gFd : log.gFd = stdoutFileno
  ix : log.ix = 0
  opens : log.opens = 0
  dumps : log.dumps = 0
  rotations : log.rotations = []

def ConsoleCall.len : ConsoleCall → Nat
  | .stdout _ len | .log _ _ len | .console len => len

def logging (depth : Nat) : Machine Log ConsoleCall where
  init := Unopened
  step log call := call.perform env depth log

end Spec

section Grown
variable {env : Env} {start log : Log} {n : Nat}

/-- The log is open, and its file holds what was written since the start. -/
structure Grown (start : Log) (n : Nat) (log : Log) : Prop where
  gFd : log.gFd ≠ stdoutFileno
  fds : log.disk.fds log.gFd = some (start.ix, n)
  size : log.disk.size start.ix = n
  others : ∀ file, file ≠ start.ix → log.disk.size file = start.disk.size file
  rotations : log.rotations = start.rotations

theorem Grown.write (h : Grown start n log) (len : Nat) :
    Grown start (n + len) (log.write len) := by
  have hdisk : (log.write len).disk =
      { size := fun f => if f = start.ix then max (log.disk.size f) (n + len) else log.disk.size f
        fds := fun d => if d = log.gFd then some (start.ix, n + len) else log.disk.fds d } := by
    unfold Log.write Disk.write
    simp only [h.fds]
  constructor
  · exact h.gFd
  · rw [hdisk]
    exact if_pos rfl
  · rw [hdisk]
    simp [h.size]
  · intro file hfile
    rw [hdisk]
    simp [hfile, h.others file hfile]
  · exact h.rotations

theorem console_grown (depth len : Nat) (h : Grown start n log) :
    ofcWriteConsoleImpl env (depth + 1) len log = some (log.write len) := by
  unfold ofcWriteConsoleImpl
  rw [if_neg h.gFd, Option.map_some]

def Adds (start : Log) (k : Nat) (log : Log) (result : Option Log) : Prop :=
  ∀ n, Grown start n log →
    ∃ log', result = some log' ∧ Grown start (n + k) log' ∧ log'.dumps = log.dumps

theorem callback_adds (depth : Nat) (info : PhdrInfo) (log : Log) :
    Adds start (env.lineLength info) log
      (processDumpLibsCallback env (ofcWriteConsoleImpl env (depth + 1)) log info) := by
  intro n h
  rw [callback_eq]
  split
  · obtain ⟨core, smb, hload⟩ := load_eq env info log
    have hlog : Grown start n (env.load info log) := by
      rw [hload]
      exact { h with }
    refine ⟨_, console_grown depth _ hlog, hlog.write _, ?_⟩
    rw [write_dumps, hload]
  · rename_i hother
    rw [lineLength_eq_zero env info hother]
    exact ⟨log, rfl, h, rfl⟩

theorem fold_adds (depth : Nat) (infos : List PhdrInfo) (log : Log) :
    Adds start (infos.map env.lineLength).sum log
      (infos.foldlM (processDumpLibsCallback env (ofcWriteConsoleImpl env (depth + 1))) log) := by
  induction infos generalizing log with
  | nil => exact fun n h => ⟨log, rfl, h, rfl⟩
  | cons info infos ih =>
    intro n h
    obtain ⟨mid, hmid, hgrown, hdumps⟩ := callback_adds depth info log n h
    obtain ⟨log', hlog', hgrown', hdumps'⟩ := ih mid _ hgrown
    refine ⟨log', ?_, ?_, hdumps'.trans hdumps⟩
    · rw [List.foldlM_cons, hmid]
      exact hlog'
    · rwa [List.map_cons, List.sum_cons, ← Nat.add_assoc]

theorem dump_grown (env : Env) (depth : Nat) (h : Grown start n log) :
    ∃ log', ofcProcessDumpLibsImpl env (ofcWriteConsoleImpl env (depth + 1)) log = some log' ∧
      Grown start (n + env.dumpLength log.dumps) log' ∧ log'.dumps = log.dumps + 1 := by
  have hlog : Grown start n { log with dumps := log.dumps + 1 } := { h with }
  obtain ⟨log', hlog', hgrown, hdumps⟩ := fold_adds depth (env.phdrs log.dumps) _ n hlog
  exact ⟨log', hlog', hgrown, hdumps⟩

end Grown

section Open
variable {env : Env} {start log : Log} {n : Nat}

theorem Grown.of_start {start' : Log} (h : Grown start' n log) (hix : start'.ix = start.ix)
    (hothers : ∀ file, file ≠ start.ix → start'.disk.size file = start.disk.size file)
    (hrotations : start'.rotations = start.rotations) : Grown start n log := by
  constructor
  · exact h.gFd
  · rw [← hix]
    exact h.fds
  · rw [← hix]
    exact h.size
  · intro file hfile
    rw [h.others file (hix ▸ hfile), hothers file hfile]
  · exact h.rotations.trans hrotations

def Log.fresh (log : Log) (fd : Int) : Log :=
  { log with
    gFd := fd
    opens := log.opens + 1
    disk :=
      { size := fun f => if f = log.ix then 0 else log.disk.size f
        fds := fun d => if d = fd then some (log.ix, 0) else log.disk.fds d } }

theorem fresh_grown (log : Log) {fd : Int} (hfd : fd ≠ stdoutFileno) : Grown log 0 (log.fresh fd) :=
  ⟨hfd, if_pos rfl, if_pos rfl, fun _ hfile => if_neg hfile, rfl⟩

theorem openLog_eq (henv : env.Opening) (hstuck : log.gFd = stdoutFileno)
    (writeConsole : Writer) :
    openLog env writeConsole log =
      (writeConsole env.banner (log.fresh (env.openFile log.opens))).bind
        (ofcProcessDumpLibsImpl env writeConsole) := by
  have hfd : ¬ env.openFile log.opens < 0 := not_lt.mpr (henv.openFile log.opens)
  unfold openLog reopen Disk.openTrunc
  simp only [henv.configDir, if_true, hstuck, ne_eq, not_true_eq_false, if_false, hfd]
  rfl

theorem openLog_grown (henv : env.Opening) (hstuck : log.gFd = stdoutFileno)
    (hopen : env.openFile log.opens ≠ stdoutFileno) (depth : Nat) :
    ∃ log', openLog env (ofcWriteConsoleImpl env (depth + 1)) log = some log' ∧
      Grown log (env.banner + env.dumpLength log.dumps) log' ∧ log'.dumps = log.dumps + 1 := by
  have hfresh := fresh_grown log hopen
  rw [openLog_eq henv hstuck, console_grown depth env.banner hfresh, Option.bind_some]
  obtain ⟨log', hlog', hgrown, hdumps⟩ := dump_grown env depth (hfresh.write env.banner)
  rw [Nat.zero_add] at hgrown
  exact ⟨log', hlog', hgrown, hdumps⟩

theorem unopened_grown (henv : env.Opening) (h : Unopened log) (depth : Nat) :
    ∃ log', openLog env (ofcWriteConsoleImpl env (depth + 2)) log = some log' ∧
      Grown log env.openingText log' := by
  unfold Env.openingText
  by_cases hstd : env.openFile 0 = stdoutFileno
  · -- the banner finds the file open as standard output, and opens it again
    have hfirst : env.openFile log.opens = stdoutFileno := by rw [h.opens, hstd]
    have hstuck : (log.fresh (env.openFile log.opens)).gFd = stdoutFileno := hfirst
    have hsecond : env.openFile (log.fresh (env.openFile log.opens)).opens ≠ stdoutFileno := by
      intro hagain
      have hsame := henv.once _ _ hagain hfirst
      exact absurd hsame (Nat.succ_ne_self log.opens)
    obtain ⟨mid, hmid, hgrown, hdumps⟩ := openLog_grown henv hstuck hsecond depth
    have hgrown' : Grown log (env.banner + env.dumpLength 0) mid := by
      rw [show (log.fresh (env.openFile log.opens)).dumps = 0 from h.dumps] at hgrown
      exact hgrown.of_start rfl (fun file hfile => if_neg hfile) rfl
    obtain ⟨log', hlog', hgrown'', -⟩ := dump_grown env (depth + 1) (hgrown'.write env.banner)
    refine ⟨log', ?_, ?_⟩
    · rw [openLog_eq henv h.gFd, ofcWriteConsoleImpl, if_pos hstuck, hmid, Option.map_some,
        Option.bind_some]
      exact hlog'
    · rw [if_pos hstd]
      have hdump : (mid.write env.banner).dumps = 1 := by
        rw [write_dumps, hdumps]
        exact congrArg (· + 1) h.dumps
      rwa [hdump] at hgrown''
  · obtain ⟨log', hlog', hgrown, -⟩ :=
      openLog_grown henv h.gFd (by rwa [h.opens]) (depth + 1)
    rw [h.dumps] at hgrown
    rw [if_neg hstd]
    exact ⟨log', hlog', hgrown⟩

end Open

section Runs
variable {env : Env} {start log : Log} {n depth : Nat} {call : ConsoleCall}

theorem perform_eq (env : Env) (depth : Nat) (call : ConsoleCall) (log : Log) :
    ∃ d ≥ depth, call.perform env (depth + 1) log =
      (if log.gFd = stdoutFileno then openLog env (ofcWriteConsoleImpl env d) log
        else some log).map fun log => log.write call.len := by
  cases call with
  | stdout fstatSucceeds len =>
    exact ⟨depth + 1, Nat.le_succ depth, ofcWriteStdoutImpl_eq env _ fstatSucceeds len log⟩
  | log level fstatSucceeds len =>
    exact ⟨depth + 1, Nat.le_succ depth, ofcWriteStdoutImpl_eq env _ fstatSucceeds len log⟩
  | console len => exact ⟨depth, le_rfl, rfl⟩

theorem Grown.perform (hg : Grown start n log) (call : ConsoleCall) :
    ∃ log', (logging env (depth + 1)).step log call = some log' ∧
      Grown start (n + call.len) log' := by
  obtain ⟨d, -, hcall⟩ := perform_eq env depth call log
  rw [if_neg hg.gFd] at hcall
  exact ⟨log.write call.len, hcall, hg.write call.len⟩

theorem Unopened.perform (henv : env.Opening) (hs : Unopened log) (call : ConsoleCall) :
    ∃ log', (logging env (depth + 3)).step log call = some log' ∧
      Grown log (env.openingText + call.len) log' := by
  obtain ⟨d, hd, hcall⟩ := perform_eq env (depth + 2) call log
  obtain ⟨k, rfl⟩ := Nat.exists_eq_add_of_le' (le_trans (Nat.le_add_left 2 depth) hd)
  obtain ⟨mid, hmid, hgrown⟩ := unopened_grown henv hs k
  rw [if_pos hs.gFd, hmid] at hcall
  exact ⟨mid.write call.len, hcall, hgrown.write call.len⟩

theorem Grown.run (hg : Grown start n log) (calls : List ConsoleCall) :
    ∃ t, (logging env (depth + 1)).run log calls = some t := by
  induction calls generalizing n log with
  | nil => exact ⟨log, rfl⟩
  | cons call calls ih =>
    obtain ⟨mid, hmid, hgrown⟩ := hg.perform call
    obtain ⟨t, ht⟩ := ih hgrown
    exact ⟨t, Option.bind_eq_some_iff.mpr ⟨mid, hmid, ht⟩⟩

variable {maxLen : Nat}

theorem Grown.bounded_iff (hg : Grown start n log) (hix : start.ix = 0)
    (hother : start.disk.size 1 ≤ maxSize + maxLen) (hrotations : start.rotations = []) :
    Bounded maxLen log ↔ n ≤ maxSize + maxLen := by
  have hzero : log.disk.size 0 = n := hix ▸ hg.size
  have hone : log.disk.size 1 = start.disk.size 1 := hg.others 1 (by simp [hix])
  constructor
  · intro hb
    have hsize := hb.size 0 Nat.zero_lt_two
    rwa [hzero] at hsize
  · intro hn
    constructor
    · intro file hfile
      have hcases : file = 0 ∨ file = 1 := by omega
      rcases hcases with rfl | rfl
      · rwa [hzero]
      · rwa [hone]
    · intro r hr
      rw [hg.rotations, hrotations] at hr
      cases hr

theorem Grown.always_iff {calls : List ConsoleCall} (hg : Grown start n log)
    (hix : start.ix = 0) (hother : start.disk.size 1 ≤ maxSize + maxLen)
    (hrotations : start.rotations = []) (hn : n ≤ maxSize + maxLen) :
    (logging env (depth + 1)).Always (Bounded maxLen) log calls ↔
      n + (calls.map ConsoleCall.len).sum ≤ maxSize + maxLen := by
  have hbounded : Bounded maxLen log := (hg.bounded_iff hix hother hrotations).mpr hn
  induction calls generalizing n log with
  | nil => exact iff_of_true hbounded (by simpa using hn)
  | cons call calls ih =>
    obtain ⟨mid, hmid, hgrown⟩ := hg.perform call
    have honly := Machine.step_unique hmid
    have hnext := hgrown.bounded_iff hix hother hrotations
    rw [List.map_cons, List.sum_cons, ← Nat.add_assoc]
    constructor
    · rintro ⟨-, hrest⟩
      have hmidBounded := (hrest mid hmid).head
      exact (ih hgrown (hnext.mp hmidBounded) hmidBounded).mp (hrest mid hmid)
    · intro hsum
      have hmidBounded := hnext.mpr (le_trans (Nat.le_add_right _ _) hsum)
      refine ⟨hbounded, ?_⟩
      intro v hv
      rw [honly v hv]
      exact (ih hgrown (hnext.mp hmidBounded) hmidBounded).mpr hsum

/-- Every call comes back. After every call the log is within its bound exactly as long as all
that was written since it was opened is, since no file is ever left for the other, and as long as
that other file was when the first call opened the log. -/
theorem log_bounded_iff (calls : List ConsoleCall) (depth : Nat) (henv : env.Opening)
    (hopening : env.openingText ≤ maxSize) (hlen : ∀ call ∈ calls, call.len ≤ maxLen)
    (hstart : Unopened start) :
    (∃ t, (logging env (depth + 3)).run start calls = some t) ∧
      ((logging env (depth + 3)).AfterEach (Bounded maxLen) start calls ↔
        (calls ≠ [] → start.disk.size 1 ≤ maxSize + maxLen) ∧
          env.openingText + (calls.map ConsoleCall.len).sum ≤ maxSize + maxLen) := by
  cases calls with
  | nil =>
    have hsum : env.openingText ≤ maxSize + maxLen := le_trans hopening (Nat.le_add_right _ _)
    exact ⟨⟨start, rfl⟩, iff_of_true trivial ⟨fun hne => absurd rfl hne, hsum⟩⟩
  | cons call calls =>
    obtain ⟨mid, hmid, hgrown⟩ := hstart.perform henv call
    obtain ⟨t, ht⟩ := hgrown.run calls
    refine ⟨⟨t, Option.bind_eq_some_iff.mpr ⟨mid, hmid, ht⟩⟩, ?_⟩
    have hnext : env.openingText + call.len ≤ maxSize + maxLen :=
      Nat.add_le_add hopening (hlen call List.mem_cons_self)
    rw [List.map_cons, List.sum_cons, ← Nat.add_assoc, Machine.afterEach_cons calls hmid]
    constructor
    · intro hall
      have hother : start.disk.size 1 ≤ maxSize + maxLen := by
        have hsize := hall.head.size 1 Nat.one_lt_two
        rwa [hgrown.others 1 (by simp [hstart.ix])] at hsize
      exact ⟨fun _ => hother,
        (hgrown.always_iff hstart.ix hother hstart.rotations hnext).mp hall⟩
    · rintro ⟨hother, hsum⟩
      exact (hgrown.always_iff hstart.ix (hother (List.cons_ne_nil call calls))
        hstart.rotations hnext).mpr hsum

end Runs

def openFiles : Env := { noFile with openFile := fun attempt => 3 + attempt }

theorem openFiles_opening : openFiles.Opening := by
  constructor
  · exact fun _ => rfl
  · intro attempt
    exact Int.add_nonneg (by decide) (Int.natCast_nonneg attempt)
  · intro attempt attempt' hstd hstd'
    have hsum : (3 : Int) + attempt = 1 := hstd
    omega

def mebibyte : ConsoleCall := .stdout true 1048576

theorem log_bounded_twice :
    (∃ t, (logging openFiles 3).run freshLog [mebibyte, mebibyte] = some t) ∧
      (logging openFiles 3).AfterEach (Bounded 1048576) freshLog [mebibyte, mebibyte] := by
  have hbounded := log_bounded_iff [mebibyte, mebibyte] 0 openFiles_opening (by decide)
    (by decide : ∀ call ∈ [mebibyte, mebibyte], call.len ≤ 1048576)
    (⟨rfl, rfl, rfl, rfl, rfl⟩ : Unopened freshLog)
  exact ⟨hbounded.1, hbounded.2.mpr ⟨fun _ => Nat.zero_le _, by decide⟩⟩

/-- The log is not rotated when it passes two mebibytes, nor later. -/
theorem log_unbounded : ∃ t,
    (logging openFiles 3).run freshLog [mebibyte, mebibyte, mebibyte, mebibyte] = some t ∧
      t.disk.size 0 = 4 * 1048576 + 40 ∧ t.rotations = [] ∧
      ¬ (logging openFiles 3).AfterEach (Bounded 1048576) freshLog
        [mebibyte, mebibyte, mebibyte, mebibyte] := by
  have hrun : ((logging openFiles 3).run freshLog [mebibyte, mebibyte, mebibyte, mebibyte]).map
      (fun t => (t.disk.size 0, t.rotations)) = some (4 * 1048576 + 40, []) := by decide
  obtain ⟨t, hr, ht⟩ := Option.map_eq_some_iff.mp hrun
  simp only [Prod.mk.injEq] at ht
  refine ⟨t, hr, ht.1, ht.2, ?_⟩
  intro hall
  have hstart : Bounded 1048576 freshLog := ⟨fun _ _ => Nat.zero_le _, fun _ hr => nomatch hr⟩
  have hsize := ((Machine.always_iff_afterEach.mpr ⟨hstart, hall⟩).last hr).size 0 Nat.zero_lt_two
  rw [ht.1] at hsize
  revert hsize
  decide

end CoreAndroid.Console
