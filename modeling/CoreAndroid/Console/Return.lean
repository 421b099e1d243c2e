import CoreAndroid.Console.Impl
import CoreAndroid.Lib.Fuel
import Mathlib.Algebra.BigOperators.Group.Finset.Basic
import Mathlib.Data.Nat.Count

/-! When a call that writes to the log comes back. While the log is not open every line that is
written makes an attempt to open it. An attempt that finds no directory disposes of the line; one
that finds a directory and no file leaves the line's work to a banner and a dump. -/
namespace CoreAndroid.Console

section Spec
variable (env : Env)

def Env.Opens (attempt : Nat) : Prop :=
  env.configDir attempt = true ∧ 0 ≤ env.openFile attempt ∧ env.openFile attempt ≠ stdoutFileno

def Env.Fails (attempt : Nat) : Prop := env.configDir attempt = false

/-- The attempt finds a directory, and `g_fd` stays at standard output. -/
def Env.Sticks (attempt : Nat) : Prop := ¬ env.Fails attempt ∧ ¬ env.Opens attempt

instance : DecidablePred env.Fails := fun _ => inferInstanceAs (Decidable (_ = _))
instance : DecidablePred env.Opens := fun _ => inferInstanceAs (Decidable (_ ∧ _))
instance : DecidablePred env.Sticks := fun _ => inferInstanceAs (Decidable (_ ∧ _))

def Env.matched (info : PhdrInfo) : Bool :=
  env.substr "libof_core_jni" info.dlpiName ≥ 0 || env.substr "libof_smb_jni" info.dlpiName ≥ 0

def Env.lineLength (info : PhdrInfo) : Nat :=
  if env.substr "libof_core_jni" info.dlpiName ≥ 0 then env.line "libof_core_jni" info.dlpiAddr
  else if env.substr "libof_smb_jni" info.dlpiName ≥ 0 then
    env.line "libof_smb_jni" info.dlpiAddr
  else 0

def Env.load (info : PhdrInfo) (log : Log) : Log :=
  if env.substr "libof_core_jni" info.dlpiName ≥ 0 then
    { log with coreLoadAddr := info.dlpiAddr }
  else if env.substr "libof_smb_jni" info.dlpiName ≥ 0 then
    { log with smbLoadAddr := info.dlpiAddr }
  else log

def Env.lines (dump k : Nat) : Nat :=
  ∑ j ∈ Finset.range k, (env.phdrs (dump + j)).countP env.matched

def Env.failures (attempt n : Nat) : Nat := Nat.count (fun i => env.Fails (attempt + i)) n
def Env.stickings (attempt n : Nat) : Nat := Nat.count (fun i => env.Sticks (attempt + i)) n

/-- At some attempt the log is opened, or there were more attempts without a directory than
lines in the dumps for those with a directory and no file. -/
def Settles (attempt dump : Nat) : Prop :=
  ∃ n, env.Opens (attempt + n) ∨
    env.lines dump (env.stickings attempt n) < env.failures attempt n

/-- `n` attempts are enough for `w` lines and `p` dumps that are still to be written. -/
def Ends (attempt dump w p n : Nat) : Prop :=
  (∃ i < n, env.Opens (attempt + i)) ∨
    w + env.lines dump (p + env.stickings attempt n) ≤ env.failures attempt n

end Spec

section Count
variable {env : Env} {attempt dump w p n : Nat}

theorem count_shift (P : Nat → Prop) [DecidablePred P] (n : Nat) :
    Nat.count (fun i => P (attempt + i)) (n + 1) =
      Nat.count (fun i => P (attempt + 1 + i)) n + if P attempt then 1 else 0 := by
  rw [Nat.count_succ']
  simp only [Nat.add_zero, Nat.add_assoc, Nat.add_comm 1]

theorem opens_shift (hopens : ¬ env.Opens attempt) :
    (∃ i < n + 1, env.Opens (attempt + i)) ↔ ∃ i < n, env.Opens (attempt + 1 + i) := by
  rw [Nat.exists_lt_succ_left]
  simp only [Nat.add_zero, hopens, false_or, Nat.add_assoc, Nat.add_comm 1]

theorem Env.lines_succ (k : Nat) :
    env.lines dump (k + 1) =
      env.lines (dump + 1) k + (env.phdrs dump).countP env.matched := by
  unfold Env.lines
  rw [Finset.sum_range_succ']
  simp only [Nat.add_zero, Nat.add_assoc, Nat.add_comm 1]

theorem ends_of_opens (hopens : env.Opens attempt) : Ends env attempt dump w p (n + 1) :=
  .inl ⟨0, Nat.succ_pos n, hopens⟩

theorem ends_fails (hfails : env.Fails attempt) :
    Ends env attempt dump (w + 1) p (n + 1) ↔ Ends env (attempt + 1) dump w p n := by
  have hopens : ¬ env.Opens attempt := fun h => by
    rw [Env.Fails, h.1] at hfails
    cases hfails
  have hsticks : ¬ env.Sticks attempt := fun h => h.1 hfails
  unfold Ends Env.failures Env.stickings
  rw [opens_shift hopens, count_shift, count_shift, if_pos hfails, if_neg hsticks]
  simp only [Nat.add_zero]
  exact or_congr_right (by omega)

theorem ends_sticks (hsticks : env.Sticks attempt) :
    Ends env attempt dump w p (n + 1) ↔ Ends env (attempt + 1) dump w (p + 1) n := by
  unfold Ends Env.failures Env.stickings
  rw [opens_shift hsticks.2, count_shift, count_shift, if_pos hsticks, if_neg hsticks.1]
  have hcount : p + (Nat.count (fun i => env.Sticks (attempt + 1 + i)) n + 1) =
      p + 1 + Nat.count (fun i => env.Sticks (attempt + 1 + i)) n := by omega
  simp only [hcount, Nat.add_zero]

theorem ends_dump :
    Ends env attempt dump w (p + 1) n ↔
      Ends env attempt (dump + 1) (w + (env.phdrs dump).countP env.matched) p n := by
  unfold Ends
  have hcount : p + 1 + env.stickings attempt n = p + env.stickings attempt n + 1 := by omega
  rw [hcount, Env.lines_succ]
  exact or_congr_right (by omega)

theorem not_ends_zero : ¬ Ends env attempt dump (w + 1) p 0 := by
  rintro (⟨i, hi, -⟩ | hle)
  · exact absurd hi (Nat.not_lt_zero i)
  · simp [Env.failures] at hle

theorem settles_iff_ends : Settles env attempt dump ↔ ∃ n, Ends env attempt dump 1 0 n := by
  unfold Settles Ends
  simp only [Nat.zero_add, Nat.add_comm 1, Nat.succ_le_iff]
  constructor
  · rintro ⟨n, hopens | hlt⟩
    · exact ⟨n + 1, .inl ⟨n, Nat.lt_succ_self n, hopens⟩⟩
    · exact ⟨n, .inr hlt⟩
  · rintro ⟨n, ⟨i, -, hopens⟩ | hle⟩
    · exact ⟨i, .inl hopens⟩
    · exact ⟨n, .inr hle⟩

end Count

section Callback
variable (env : Env) (info : PhdrInfo) (log : Log)

theorem callback_eq (writeConsole : Writer) :
    processDumpLibsCallback env writeConsole log info =
      if env.matched info then writeConsole (env.lineLength info) (env.load info log)
      else some log := by
  unfold processDumpLibsCallback Env.matched Env.lineLength Env.load
  by_cases hcore : env.substr "libof_core_jni" info.dlpiName ≥ 0
  · simp only [hcore, if_true, decide_true, Bool.true_or]
  · by_cases hsmb : env.substr "libof_smb_jni" info.dlpiName ≥ 0
    · simp only [hcore, hsmb, if_true, if_false, decide_true, Bool.or_true]
    · simp [hcore, hsmb]

theorem lineLength_eq_zero (hother : ¬ env.matched info = true) : env.lineLength info = 0 := by
  simp only [Env.matched, Bool.or_eq_true, decide_eq_true_eq, not_or] at hother
  rw [Env.lineLength, if_neg hother.1, if_neg hother.2]

theorem load_eq : ∃ core smb,
    env.load info log = { log with coreLoadAddr := core, smbLoadAddr := smb } := by
  unfold Env.load
  split
  · exact ⟨_, _, rfl⟩
  · split
    · exact ⟨_, _, rfl⟩
    · exact ⟨_, _, rfl⟩

end Callback

section Reopen
variable {env : Env} {log : Log} {attempt : Nat}

theorem write_dumps (log : Log) (len : Nat) : (log.write len).dumps = log.dumps := rfl

theorem reopen_gFd (attempt : Nat) (log : Log) :
    (reopen env attempt log).gFd =
      if env.openFile attempt < 0 then stdoutFileno else env.openFile attempt := by
  unfold reopen
  dsimp only
  split <;> split <;> rfl

theorem reopen_opens (attempt : Nat) (log : Log) :
    (reopen env attempt log).opens = log.opens := by
  unfold reopen
  dsimp only
  split <;> split <;> rfl

theorem reopen_dumps (attempt : Nat) (log : Log) :
    (reopen env attempt log).dumps = log.dumps := by
  unfold reopen
  dsimp only
  split <;> split <;> rfl

theorem sticks_iff_reopen (hdir : env.configDir attempt = true) :
    env.Sticks attempt ↔ (reopen env attempt log).gFd = stdoutFileno := by
  rw [reopen_gFd]
  simp only [Env.Sticks, Env.Fails, Env.Opens, hdir, Bool.true_eq_false, not_false_eq_true,
    true_and]
  split <;> omega

end Reopen

section Spends
variable {env : Env}

def CanEnd (env : Env) (log : Log) (w p : Nat) : Prop :=
  log.gFd = stdoutFileno → ∃ n, Ends env log.opens log.dumps w p n

def Spends (env : Env) (k q : Nat) (log log' : Log) : Prop :=
  ∀ w p, CanEnd env log' w p → CanEnd env log (w + k) (p + q)

theorem Spends.trans {k k' q q' : Nat} {log log' log'' : Log} (h : Spends env k q log log')
    (h' : Spends env k' q' log' log'') : Spends env (k + k') (q + q') log log'' := by
  intro w p hend
  have hfirst := h _ _ (h' w p hend)
  rwa [Nat.add_assoc, Nat.add_assoc, Nat.add_comm k' k, Nat.add_comm q' q] at hfirst

def SpendsLine (env : Env) (writeConsole : Writer) : Prop :=
  ∀ len log log', writeConsole len log = some log' → Spends env 1 0 log log'

variable {writeConsole : Writer}

theorem canEnd_load {info : PhdrInfo} {log : Log} {w p : Nat} :
    CanEnd env (env.load info log) w p ↔ CanEnd env log w p := by
  obtain ⟨core, smb, hload⟩ := load_eq env info log
  rw [hload]
  exact Iff.rfl

theorem callback_spends (hw : SpendsLine env writeConsole) {log log' : Log} {info : PhdrInfo}
    (h : processDumpLibsCallback env writeConsole log info = some log') :
    Spends env (if env.matched info then 1 else 0) 0 log log' := by
  intro w p hend
  rw [callback_eq] at h
  split at h
  · rename_i hmatched
    rw [if_pos hmatched]
    exact canEnd_load.mp (hw _ _ _ h w p hend)
  · rename_i hother
    cases h
    rw [if_neg hother]
    exact hend

theorem fold_spends (hw : SpendsLine env writeConsole) {infos : List PhdrInfo} {log log' : Log}
    (h : infos.foldlM (processDumpLibsCallback env writeConsole) log = some log') :
    Spends env (infos.countP env.matched) 0 log log' := by
  induction infos generalizing log with
  | nil =>
    cases h
    exact fun w p hend => hend
  | cons info infos ih =>
    obtain ⟨mid, hmid, hrest⟩ := Option.bind_eq_some_iff.mp h
    have hboth := (callback_spends hw hmid).trans (ih hrest)
    rwa [List.countP_cons, Nat.add_comm (infos.countP env.matched)]

theorem dump_spends (hw : SpendsLine env writeConsole) {log log' : Log}
    (h : ofcProcessDumpLibsImpl env writeConsole log = some log') : Spends env 0 1 log log' := by
  intro w p hend hstuck
  obtain ⟨n, hn⟩ := fold_spends hw h w p hend hstuck
  exact ⟨n, ends_dump.mpr hn⟩

theorem openLog_spends (hw : SpendsLine env writeConsole) {log log' : Log}
    (h : openLog env writeConsole log = some log') : Spends env 1 0 log log' := by
  intro w p hend hstuck
  unfold openLog at h
  split at h
  · rename_i hdir
    obtain ⟨mid, hbanner, hdump⟩ := Option.bind_eq_some_iff.mp h
    have hwork := (hw _ _ _ hbanner).trans (dump_spends hw hdump) w p hend
    by_cases hsticks : env.Sticks log.opens
    · obtain ⟨n, hn⟩ := hwork ((sticks_iff_reopen hdir).mp hsticks)
      rw [reopen_opens, reopen_dumps] at hn
      exact ⟨n + 1, (ends_sticks hsticks).mpr hn⟩
    · have hopens : env.Opens log.opens := by
        by_contra hno
        exact hsticks ⟨by simp [Env.Fails, hdir], hno⟩
      exact ⟨1, ends_of_opens hopens⟩
  · rename_i hdir
    cases h
    obtain ⟨n, hn⟩ := hend hstuck
    exact ⟨n + 1, (ends_fails (by simpa [Env.Fails] using hdir)).mpr hn⟩

theorem console_spends (depth : Nat) : SpendsLine env (ofcWriteConsoleImpl env depth) := by
  induction depth with
  | zero =>
    intro len log log' h
    cases h
  | succ depth ih =>
    intro len log log' h w p hend hstuck
    obtain ⟨mid, hmid, rfl⟩ := Option.map_eq_some_iff.mp h
    rw [if_pos hstuck] at hmid
    exact openLog_spends ih hmid w p hend hstuck

end Spends

section Below
variable {env : Env} {f g : Writer}

theorem callback_below (h : ∀ len, Below (f len) (g len)) (info : PhdrInfo) :
    Below (processDumpLibsCallback env f · info) (processDumpLibsCallback env g · info) := by
  simp only [callback_eq]
  exact Below.ite _ ((h _).comp _) (Below.refl _)

theorem dump_below (h : ∀ len, Below (f len) (g len)) :
    Below (ofcProcessDumpLibsImpl env f) (ofcProcessDumpLibsImpl env g) :=
  fun log => Below.foldlM (callback_below h) (env.phdrs log.dumps) _

theorem openLog_below (h : ∀ len, Below (f len) (g len)) :
    Below (openLog env f) (openLog env g) :=
  Below.ite _ (((h env.banner).comp _).bind (dump_below h)) (Below.refl _)

theorem console_below {depth depth' : Nat} (hle : depth ≤ depth') (len : Nat) :
    Below (ofcWriteConsoleImpl env depth len) (ofcWriteConsoleImpl env depth' len) := by
  refine Below.of_le (F := fun depth => ofcWriteConsoleImpl env depth len) ?_ hle
  intro n
  induction n generalizing len with
  | zero => exact nofun
  | succ n ih => exact (Below.ite _ (openLog_below ih) (Below.refl _)).map _

end Below

section Returns
variable {env : Env} {n : Nat}

def Continues (env : Env) (n w p : Nat) (log : Log) : Prop :=
  log.gFd = stdoutFileno → ∃ k ≤ n, Ends env log.opens log.dumps w p k

theorem Continues.mono {n' w p : Nat} {log : Log} (h : Continues env n w p log) (hle : n ≤ n') :
    Continues env n' w p log := by
  intro hstuck
  obtain ⟨k, hk, hends⟩ := h hstuck
  exact ⟨k, hk.trans hle, hends⟩

/-- Where a line can be written in `n` attempts, its writer comes back. -/
def ComesBack (env : Env) (n : Nat) : Prop :=
  ∀ len log w p, Continues env n (w + 1) p log →
    ∃ depth log', ofcWriteConsoleImpl env depth len log = some log' ∧ Continues env n w p log'

theorem continues_load {info : PhdrInfo} {log : Log} {w p : Nat} :
    Continues env n w p (env.load info log) ↔ Continues env n w p log := by
  obtain ⟨core, smb, hload⟩ := load_eq env info log
  rw [hload]
  exact Iff.rfl

theorem callback_comesBack (hw : ComesBack env n) {info : PhdrInfo} {log : Log} {w p : Nat}
    (h : Continues env n (w + if env.matched info then 1 else 0) p log) :
    ∃ depth log', processDumpLibsCallback env (ofcWriteConsoleImpl env depth) log info =
      some log' ∧ Continues env n w p log' := by
  simp only [callback_eq]
  split at h
  · rename_i hmatched
    simp only [hmatched, if_true]
    exact hw _ _ w p (continues_load.mpr h)
  · rename_i hother
    simp only [hother]
    exact ⟨0, log, rfl, h⟩

theorem fold_comesBack (hw : ComesBack env n) {infos : List PhdrInfo} {log : Log} {w p : Nat}
    (h : Continues env n (w + infos.countP env.matched) p log) :
    ∃ depth log', infos.foldlM (processDumpLibsCallback env (ofcWriteConsoleImpl env depth)) log =
      some log' ∧ Continues env n w p log' := by
  induction infos generalizing log with
  | nil => exact ⟨0, log, rfl, h⟩
  | cons info infos ih =>
    rw [List.countP_cons, ← Nat.add_assoc] at h
    obtain ⟨depth, mid, hmid, hnext⟩ := callback_comesBack hw h
    obtain ⟨depth', log', hrest, hend⟩ := ih hnext
    refine ⟨max depth depth', log', ?_, hend⟩
    have hfirst :
        processDumpLibsCallback env (ofcWriteConsoleImpl env (max depth depth')) log info =
          some mid :=
      callback_below (console_below (le_max_left depth depth')) info log mid hmid
    rw [List.foldlM_cons, hfirst]
    exact Below.foldlM (callback_below (console_below (le_max_right depth depth'))) infos mid log'
      hrest

theorem dump_comesBack (hw : ComesBack env n) {log : Log} {w p : Nat}
    (h : Continues env n w (p + 1) log) :
    ∃ depth log', ofcProcessDumpLibsImpl env (ofcWriteConsoleImpl env depth) log = some log' ∧
      Continues env n w p log' := by
  apply fold_comesBack hw
  intro hstuck
  obtain ⟨k, hk, hends⟩ := h hstuck
  exact ⟨k, hk, ends_dump.mp hends⟩

theorem openLog_comesBack (hw : ∀ m < n, ComesBack env m) {log : Log} {w p : Nat}
    (hstuck : log.gFd = stdoutFileno) (h : Continues env n (w + 1) p log) :
    ∃ depth log', openLog env (ofcWriteConsoleImpl env depth) log = some log' ∧
      Continues env n w p log' := by
  obtain ⟨k, hk, hends⟩ := h hstuck
  cases k with
  | zero => exact absurd hends not_ends_zero
  | succ m =>
    have hm : m < n := hk
    unfold openLog
    split
    · rename_i hdir
      have hbanner : Continues env m (w + 1) (p + 1)
          (reopen env log.opens { log with opens := log.opens + 1 }) := by
        intro hstill
        have hsticks := (sticks_iff_reopen hdir).mpr hstill
        rw [reopen_opens, reopen_dumps]
        exact ⟨m, le_refl m, (ends_sticks hsticks).mp hends⟩
      obtain ⟨depth, mid, hmid, hdump⟩ := hw m hm env.banner _ w (p + 1) hbanner
      obtain ⟨depth', log', hlog', hend⟩ := dump_comesBack (hw m hm) hdump
      refine ⟨max depth depth', log', ?_, hend.mono hm.le⟩
      rw [console_below (le_max_left depth depth') env.banner _ mid hmid]
      exact dump_below (console_below (le_max_right depth depth')) mid log' hlog'
    · rename_i hdir
      refine ⟨0, _, rfl, fun _ => ⟨m, hm.le, ?_⟩⟩
      exact (ends_fails (by simpa [Env.Fails] using hdir)).mp hends

theorem comesBack (n : Nat) : ComesBack env n := by
  induction n using Nat.strong_induction_on with
  | _ n ih =>
    intro len log w p h
    by_cases hstuck : log.gFd = stdoutFileno
    · obtain ⟨depth, log', hopen, hend⟩ := openLog_comesBack ih hstuck h
      refine ⟨depth + 1, log'.write len, ?_, hend⟩
      simp only [ofcWriteConsoleImpl, if_pos hstuck, hopen, Option.map_some]
    · refine ⟨1, log.write len, ?_, fun hstill => absurd hstill hstuck⟩
      simp only [ofcWriteConsoleImpl, if_neg hstuck, Option.map_some]

theorem opened_iff (log : Log) :
    (∃ depth, (if log.gFd = stdoutFileno then openLog env (ofcWriteConsoleImpl env depth) log
      else some log).isSome = true) ↔
      (log.gFd = stdoutFileno → Settles env log.opens log.dumps) := by
  rw [settles_iff_ends]
  by_cases hstuck : log.gFd = stdoutFileno
  · simp only [hstuck, if_true, forall_const, Option.isSome_iff_exists]
    constructor
    · rintro ⟨depth, log', hopen⟩
      have hdone : CanEnd env log' 0 0 := fun _ => ⟨0, .inr (by simp [Env.lines, Env.stickings])⟩
      exact openLog_spends (console_spends depth) hopen 0 0 hdone hstuck
    · rintro ⟨n, hends⟩
      obtain ⟨depth, log', hopen, -⟩ := openLog_comesBack (fun m _ => comesBack m) hstuck
        (fun _ => ⟨n, le_refl n, hends⟩)
      exact ⟨depth, log', hopen⟩
  · simp [hstuck]

end Returns

inductive ConsoleCall where
  | stdout (fstatSucceeds : Bool) (len : Nat)
  | log (level : Nat) (fstatSucceeds : Bool) (len : Nat)
  | console (len : Nat)
  deriving DecidableEq

def ConsoleCall.perform (env : Env) (depth : Nat) (log : Log) : ConsoleCall → Option Log
  | .stdout fstatSucceeds len => ofcWriteStdoutImpl env depth fstatSucceeds len log
  | .log level fstatSucceeds len => ofcWriteLogImpl env depth level fstatSucceeds len log
  | .console len => ofcWriteConsoleImpl env depth len log

/-- A call comes back exactly if the log is open already, or the attempts to open it settle. -/
theorem returns_iff_settles (env : Env) (call : ConsoleCall) (log : Log) :
    (∃ depth, (call.perform env depth log).isSome = true) ↔
      (log.gFd = stdoutFileno → Settles env log.opens log.dumps) := by
  rw [← opened_iff]
  cases call with
  | stdout fstatSucceeds len =>
    simp only [ConsoleCall.perform, ofcWriteStdoutImpl_eq, Option.isSome_map]
  | log level fstatSucceeds len =>
    simp only [ConsoleCall.perform, ofcWriteLogImpl, ofcWriteStdoutImpl_eq, Option.isSome_map]
  | console len =>
    constructor
    · rintro ⟨depth, h⟩
      cases depth with
      | zero => cases h
      | succ depth => exact ⟨depth, by simpa only [ConsoleCall.perform, ofcWriteConsoleImpl,
          Option.isSome_map] using h⟩
    · rintro ⟨depth, h⟩
      exact ⟨depth + 1, by simpa only [ConsoleCall.perform, ofcWriteConsoleImpl,
        Option.isSome_map] using h⟩

def noFile : Env where
  configDir _ := true
  openFile _ := -1
  phdrs _ := []
  substr _ _ := -1
  banner := 40
  line _ _ := 50

def freshLog : Log where
  gFd := stdoutFileno
  ix := 0
  coreLoadAddr := 0
  smbLoadAddr := 0
  opens := 0
  dumps := 0
  disk := ⟨fun _ => 0, fun _ => none⟩
  rotations := []

theorem noFile_openLog {writeConsole : Writer}
    (hw : ∀ len log, log.gFd = stdoutFileno → writeConsole len log = none) (log : Log) :
    openLog noFile writeConsole log = none := by
  have hdir : noFile.configDir log.opens = true := rfl
  unfold openLog
  rw [if_pos hdir, hw _ _ (reopen_gFd _ _)]
  rfl

theorem noFile_console (depth len : Nat) (log : Log) (hstuck : log.gFd = stdoutFileno) :
    ofcWriteConsoleImpl noFile depth len log = none := by
  induction depth generalizing len log with
  | zero => rfl
  | succ depth ih =>
    unfold ofcWriteConsoleImpl
    rw [if_pos hstuck, noFile_openLog ih]
    rfl

theorem noFile_never_returns (call : ConsoleCall) (depth : Nat) :
    call.perform noFile depth freshLog = none := by
  have hstuck : freshLog.gFd = stdoutFileno := rfl
  have hstdout : ∀ fstatSucceeds len,
      ofcWriteStdoutImpl noFile depth fstatSucceeds len freshLog = none := by
    intro fstatSucceeds len
    rw [ofcWriteStdoutImpl_eq, if_pos hstuck, noFile_openLog (noFile_console depth)]
    rfl
  cases call with
  | stdout fstatSucceeds len => exact hstdout fstatSucceeds len
  | log level fstatSucceeds len => exact hstdout fstatSucceeds len
  | console len => exact noFile_console depth len freshLog hstuck

theorem logging_not_always_back :
    ¬ ∀ (env : Env) (call : ConsoleCall) (log : Log),
      ∃ depth, (call.perform env depth log).isSome = true := by
  intro hall
  obtain ⟨depth, hsome⟩ := hall noFile (.console 10) freshLog
  rw [noFile_never_returns] at hsome
  cases hsome

end CoreAndroid.Console
