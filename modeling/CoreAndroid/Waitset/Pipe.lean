import CoreAndroid.Lib.Bytes
import CoreAndroid.Lib.Framing
import CoreAndroid.Lib.Simulation
import CoreAndroid.Waitset.Impl

/-! The pipe of a wait set as the kernel keeps it, a buffer of bytes, and the functions of
waitset_android.c that write and read it. On it they do what they do on the queue of
handles that the wait is modelled with. -/
namespace CoreAndroid.Waitset

def handleFraming (size : Nat) (hsize : 0 < size) : Framing Handle UInt8 where
  size := size
  encode := LittleEndian.store size
  decode := LittleEndian.load
  size_pos := hsize
  encode_length := LittleEndian.store_length size

theorem handleFraming_fits {size : Nat} {hsize : 0 < size} {h : Handle} (hh : h < 256 ^ size) :
    (handleFraming size hsize).Fits h :=
  LittleEndian.load_store_of_lt hh

section Bytes
variable (f : Framing Handle UInt8)

/-- The purge: `while (read (...) > 0) ;`. A read of an empty pipe fails. -/
def purgeBytes (bytes : List UInt8) : List UInt8 :=
  if 0 < (f.read bytes).1.length then purgeBytes (f.read bytes).2 else (f.read bytes).2
termination_by bytes.length
decreasing_by
  have hsize := f.size_pos
  simp only [Framing.read, List.length_take, List.length_drop] at *
  omega

/-- `PollEvent` on the bytes in the pipe. The loop ends on a wake, on a handle to report, or
on a read of another length than `sizeof (OFC_HANDLE)`. -/
def pollEventBytes (core : Core) (eventQueue : List EventElement) (bytes : List UInt8)
    (signalled : Handle → Bool) : Handle × List UInt8 × (Handle → Bool) :=
  let rest := (f.read bytes).2
  if (f.read bytes).1.length = f.size then
    let hEvent := f.decode (f.read bytes).1
    if hEvent = handleNull then (handleNull, rest, signalled)
    else
      match eventQueue.find? fun eventElement => eventElement.hEvent = hEvent with
      | none => pollEventBytes core eventQueue rest signalled
      | some eventElement =>
          if signalled hEvent then
            let signalled :=
              if core.eventType hEvent = .auto
              then Function.update signalled hEvent false
              else signalled
            if eventElement.hAssoc = handleNull
            then pollEventBytes core eventQueue rest signalled
            else (eventElement.hAssoc, rest, signalled)
          else pollEventBytes core eventQueue rest signalled
  else (handleNull, rest, signalled)
termination_by bytes.length
decreasing_by
  all_goals
    have hsize := f.size_pos
    simp only [Framing.read, List.length_take, List.length_drop] at *
    omega

theorem purgeBytes_frames (pipe : List Handle) : purgeBytes f (f.frames pipe) = [] := by
  induction pipe with
  | nil =>
    rw [purgeBytes]
    simp [Framing.read]
  | cons hEvent pipe ih =>
    rw [purgeBytes, f.read_frames]
    simp [f.encode_length, f.size_pos, ih]

theorem pollEventBytes_frames (core : Core) (eventQueue : List EventElement)
    {pipe : List Handle} (hfits : ∀ hEvent ∈ pipe, f.Fits hEvent) (signalled : Handle → Bool) :
    let polled := pollEvent core eventQueue pipe signalled
    pollEventBytes f core eventQueue (f.frames pipe) signalled =
      (polled.1, f.frames polled.2.1, polled.2.2) := by
  induction pipe generalizing signalled with
  | nil =>
    have hsize := f.size_pos.ne
    rw [pollEventBytes]
    simp [Framing.read, pollEvent, hsize]
  | cons hEvent pipe ih =>
    obtain ⟨hhead, hpipe⟩ := List.forall_mem_cons.mp hfits
    have hdecode : f.decode (f.encode hEvent) = hEvent := hhead
    rw [pollEventBytes, f.read_frames, pollEvent]
    simp only [List.head?_cons, Option.elim_some, List.tail_cons, f.encode_length, if_true,
      hdecode, ih hpipe]
    by_cases hnull : hEvent = handleNull
    · simp only [if_pos hnull]
    · simp only [if_neg hnull]
      cases eventQueue.find? fun eventElement => eventElement.hEvent = hEvent with
      | none => rfl
      | some el =>
        dsimp only
        by_cases hsignalled : signalled hEvent = true
        · simp only [if_pos hsignalled]
          by_cases hassoc : el.hAssoc = handleNull
          · simp only [if_pos hassoc]
          · simp only [if_neg hassoc]
        · simp only [if_neg hsignalled]

inductive PipeOp where
  | signal (hEvent : Handle)
  | read
  deriving DecidableEq, Repr

def pipeBytes (room : Nat) : Machine (List UInt8) PipeOp where
  init bytes := bytes = []
  step bytes
    | .signal hEvent => some (f.write room hEvent bytes)
    | .read => some (f.read bytes).2

def readBlock (bytes : List UInt8) : PipeOp → List (List UInt8)
  | .signal _ => []
  | .read => [(f.read bytes).1]

def pipeHandles (capacity : Nat) : Machine (List Handle) PipeOp where
  init pipe := pipe = []
  step pipe
    | .signal hEvent => some (ofcWaitsetSignalImpl capacity hEvent pipe)
    | .read => some pipe.tail

def readHandle (pipe : List Handle) : PipeOp → List (Option Handle)
  | .signal _ => []
  | .read => [pipe.head?]

/-- The bytes are those of the handles, and each read of the one got what the read of the
other got. -/
structure SamePipe (s : List UInt8 × List (List UInt8)) (t : List Handle × List (Option Handle)) :
    Prop where
  bytes : s.1 = f.frames t.1
  reads : s.2 = t.2.map fun read => read.elim [] f.encode
  fits : ∀ hEvent ∈ t.1, f.Fits hEvent

def PipeOp.Fits : PipeOp → Prop
  | .signal hEvent => f.Fits hEvent
  | .read => True

variable {f}

theorem SamePipe.step {room : Nat} {s s' : List UInt8 × List (List UInt8)}
    {t : List Handle × List (Option Handle)} {op : PipeOp} (h : SamePipe f s t) (hop : op.Fits f)
    (hs : ((pipeBytes f room).record (readBlock f)).step s op = some s') :
    ∃ t', ((pipeHandles (room / f.size)).record readHandle).step t op = some t' ∧
      SamePipe f s' t' := by
  obtain ⟨bytes, blocks⟩ := s
  obtain ⟨pipe, read⟩ := t
  obtain ⟨hbytes, hreads, hfits⟩ := h
  dsimp only at hbytes hreads hfits
  subst hbytes hreads
  cases op with
  | signal hEvent =>
    cases hs
    refine ⟨_, rfl, ?_⟩
    refine ⟨f.write_frames room hEvent pipe, by simp [readBlock, readHandle], ?_⟩
    intro h hh
    simp only [ofcWaitsetSignalImpl] at hh
    split at hh
    · rcases List.mem_append.mp hh with hh | hh
      · exact hfits h hh
      · exact List.mem_singleton.mp hh ▸ hop
    · exact hfits h hh
  | read =>
    cases hs
    refine ⟨_, rfl, ?_⟩
    refine ⟨by simp [f.read_frames], by simp [readBlock, readHandle, f.read_frames], ?_⟩
    exact fun h hh => hfits h (List.mem_of_mem_tail hh)

end Bytes

/-- The pipe of bytes refines the queue of handles, over every run of signals and reads:
it holds whole handles, a read gets the handle that the queue gives or finds nothing, and
the purge and `PollEvent` leave in it what they leave in the queue. -/
theorem pipe_refines_queue (size : Nat) (hsize : 0 < size) (room : Nat) (as : List PipeOp)
    (hfits : ∀ hEvent, .signal hEvent ∈ as → hEvent < 256 ^ size) (bytes : List UInt8)
    (blocks : List (List UInt8))
    (hr : ((pipeBytes (handleFraming size hsize) room).record
      (readBlock (handleFraming size hsize))).run ([], []) as = some (bytes, blocks)) :
    ∃ pipe read, ((pipeHandles (room / size)).record readHandle).run ([], []) as =
        some (pipe, read) ∧
      bytes = (handleFraming size hsize).frames pipe ∧
      blocks = read.map (fun h => h.elim [] (LittleEndian.store size)) ∧
      (bytes = [] ↔ pipe = []) ∧
      purgeBytes (handleFraming size hsize) bytes = [] ∧
      ∀ core eventQueue signalled,
        let polled := pollEvent core eventQueue pipe signalled
        pollEventBytes (handleFraming size hsize) core eventQueue bytes signalled =
          (polled.1, (handleFraming size hsize).frames polled.2.1, polled.2.2) := by
  have hops : ∀ op ∈ as, PipeOp.Fits (handleFraming size hsize) op := by
    intro op hop
    cases op with
    | signal hEvent => exact handleFraming_fits (hfits hEvent hop)
    | read => trivial
  have hstart : SamePipe (handleFraming size hsize) ([], []) ([], []) :=
    ⟨rfl, rfl, List.forall_mem_nil _⟩
  obtain ⟨⟨pipe, read⟩, hrun, hbytes, hreads, hpipe⟩ :=
    Machine.run_simulates (fun s t op s' h hop hs => h.step hop hs) hstart hops hr
  dsimp only at hbytes hreads hpipe
  subst hbytes
  exact ⟨pipe, read, hrun, rfl, hreads, Framing.frames_eq_nil _, purgeBytes_frames _ pipe,
    fun core eventQueue signalled => pollEventBytes_frames _ core eventQueue hpipe signalled⟩

def signalTwice : List PipeOp := [.signal 258, .signal 3, .read, .read]

theorem pipe_refines_queue_signalTwice : ∃ bytes blocks,
    ((pipeBytes (handleFraming 4 (by decide)) 6).record
      (readBlock (handleFraming 4 (by decide)))).run ([], []) signalTwice =
        some (bytes, blocks) ∧ blocks = [[2, 1, 0, 0], []] ∧
    ∃ pipe read, ((pipeHandles (6 / 4)).record readHandle).run ([], []) signalTwice =
      some (pipe, read) ∧ (bytes = [] ↔ pipe = []) := by
  have hrun : ((pipeBytes (handleFraming 4 (by decide)) 6).record
      (readBlock (handleFraming 4 (by decide)))).run ([], []) signalTwice =
        some ([], [[2, 1, 0, 0], []]) := by decide
  obtain ⟨pipe, read, hhandles, -, -, hempty, -⟩ :=
    pipe_refines_queue 4 (by decide) 6 signalTwice (by simp [signalTwice]) _ _ hrun
  exact ⟨_, _, hrun, rfl, pipe, read, hhandles, hempty⟩

end CoreAndroid.Waitset
