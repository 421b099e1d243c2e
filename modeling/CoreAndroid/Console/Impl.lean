/-! The log of console_android.c. Writing to it opens it if it is not open, and opening it writes
to it, also through the dump of the libraries in process_android.c. The texts are represented by
their lengths. -/
namespace CoreAndroid.Console

structure PhdrInfo where
  dlpiName : String
  dlpiAddr : UInt64

/-- What the kernel and the core library answer, call by call, and the lengths of the texts. -/
structure Env where
  configDir : Nat → Bool -- `ofc_get_config_dir` succeeds
  openFile : Nat → Int -- what `open` returns after a call of `ofc_get_config_dir`
  phdrs : Nat → List PhdrInfo
  substr : String → String → Int -- `ofc_substr`
  banner : Nat
  line : String → UInt64 → Nat

/-- The log files by number, and which of them a descriptor writes to, from which offset. -/
structure Disk where
  size : Nat → Nat
  fds : Int → Option (Nat × Nat)

namespace Disk

def openTrunc (disk : Disk) (fd : Int) (file : Nat) : Disk :=
  if fd < 0 then disk
  else
    { size := fun f => if f = file then 0 else disk.size f
      fds := fun d => if d = fd then some (file, 0) else disk.fds d }

def close (disk : Disk) (fd : Int) : Disk :=
  { disk with fds := fun d => if d = fd then none else disk.fds d }

def write (disk : Disk) (fd : Int) (len : Nat) : Disk :=
  match disk.fds fd with
  | none => disk
  | some (file, offset) =>
      { size := fun f => if f = file then max (disk.size f) (offset + len) else disk.size f
        fds := fun d => if d = fd then some (file, offset + len) else disk.fds d }

/-- `fstat`, which succeeds or not, with `st_size`. -/
def fstat (disk : Disk) (fd : Int) (succeeds : Bool) : Int × Nat :=
  if succeeds then (0, (disk.fds fd).elim 0 fun (file, _) => disk.size file) else (-1, 0)

end Disk

structure Log where
  gFd : Int
  ix : Nat
  coreLoadAddr : UInt64
  smbLoadAddr : UInt64
  opens : Nat -- the calls of `ofc_get_config_dir` so far
  dumps : Nat -- the calls of `dl_iterate_phdr` so far
  disk : Disk
  -- the rotations so far, each with the file numbers before and after it
  rotations : List (Nat × Nat)

def stdoutFileno : Int := 1
def maxSize : Nat := 2 * 1024 * 1024

def Log.write (log : Log) (len : Nat) : Log := { log with disk := log.disk.write log.gFd len }

section Nested
variable (env : Env)

abbrev Writer := Nat → Log → Option Log

def processDumpLibsCallback (writeConsole : Writer) (log : Log) (info : PhdrInfo) : Option Log :=
  if env.substr "libof_core_jni" info.dlpiName ≥ 0 then
    writeConsole (env.line "libof_core_jni" info.dlpiAddr)
      { log with coreLoadAddr := info.dlpiAddr }
  else if env.substr "libof_smb_jni" info.dlpiName ≥ 0 then
    writeConsole (env.line "libof_smb_jni" info.dlpiAddr) { log with smbLoadAddr := info.dlpiAddr }
  else some log

def ofcProcessDumpLibsImpl (writeConsole : Writer) (log : Log) : Option Log :=
  (env.phdrs log.dumps).foldlM (processDumpLibsCallback env writeConsole)
    { log with dumps := log.dumps + 1 }

def reopen (attempt : Nat) (log : Log) : Log :=
  let log :=
    if log.gFd ≠ stdoutFileno then { log with disk := log.disk.close log.gFd } else log
  let log :=
    { log with
      gFd := env.openFile attempt
      disk := log.disk.openTrunc (env.openFile attempt) log.ix }
  if log.gFd < 0 then { log with gFd := stdoutFileno } else log

def openLog (writeConsole : Writer) (log : Log) : Option Log :=
  if env.configDir log.opens then
    (writeConsole env.banner (reopen env log.opens { log with opens := log.opens + 1 })).bind
      (ofcProcessDumpLibsImpl env writeConsole)
  else some { log with opens := log.opens + 1 }

/-- There is no result if more calls are nested than `depth` allows. -/
def ofcWriteConsoleImpl : Nat → Nat → Log → Option Log
  | 0, _, _ => none
  | depth + 1, len, log =>
      (if log.gFd = stdoutFileno then openLog env (ofcWriteConsoleImpl depth) log
        else some log).map fun log => log.write len

end Nested

section Calls
variable (env : Env) (depth : Nat)

def ofcWriteStdoutImpl (fstatSucceeds : Bool) (len : Nat) (log : Log) : Option Log :=
  let opened :=
    if log.gFd = stdoutFileno then openLog env (ofcWriteConsoleImpl env depth) log
    else
      let (ret, stSize) := log.disk.fstat log.gFd fstatSucceeds
      if ret > 0 then
        if stSize > maxSize then
          let ix := (log.ix + 1) % 2
          openLog env (ofcWriteConsoleImpl env depth)
            { log with
              disk := log.disk.close log.gFd
              ix := ix
              rotations := log.rotations ++ [(log.ix, ix)] }
        else some log
      else some log
  opened.map fun log => log.write len

def ofcWriteLogImpl (_level : Nat) (fstatSucceeds : Bool) (len : Nat) (log : Log) : Option Log :=
  ofcWriteStdoutImpl env depth fstatSucceeds len log

end Calls

/-- `fstat` does not return more than 0, so `ofc_write_stdout_impl` never rotates. -/
theorem ofcWriteStdoutImpl_eq (env : Env) (depth : Nat) (fstatSucceeds : Bool) (len : Nat)
    (log : Log) :
    ofcWriteStdoutImpl env depth fstatSucceeds len log =
      (if log.gFd = stdoutFileno then openLog env (ofcWriteConsoleImpl env depth) log
        else some log).map fun log => log.write len := by
  unfold ofcWriteStdoutImpl
  dsimp only
  have hfstat : ¬ (log.disk.fstat log.gFd fstatSucceeds).1 > 0 := by
    cases fstatSucceeds <;> simp [Disk.fstat]
  rw [if_neg hfstat]

end CoreAndroid.Console
