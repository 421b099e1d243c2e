import CoreAndroid.Lib.Bytes
import CoreAndroid.Socket.Closed

/-! A stream between two socket handles, as the callers of `ofc_socket_impl_send` and
`ofc_socket_impl_recv` see it through what the calls return. The kernel carries the bytes;
what it answers is part of the steps. -/
namespace CoreAndroid.Socket

section Send

def ofcSocketImplSend (hSocket : Handle) (len : UInt64) (send : Int → Int → Answer)
    (s : Sockets) : UInt64 :=
  match s.impl hSocket with
  | none => toSize (-1)
  | some sock =>
    let (status, errno) := send sock.socket.val (toInt len)
    if status = -1 ∧ errno = eagain then 0
    else if status ≥ 0 then toSize status
    else toSize (-1)

end Send

structure Stream where
  sender : Sockets
  receiver : Sockets
  inFlight : List UInt8 -- the bytes that the kernel has taken and not yet delivered
  shut : Bool -- the sending end is shut down
  sent : List UInt8
  received : List UInt8

inductive Transfer where
  | send (buf : List UInt8) (len : UInt64) (answer : Answer)
  | recv (buf : List UInt8) (len : UInt64) (answer : Answer)
  | shutdown

/-- The most bytes that the kernel moves for a length: it is given an `int`, and takes a negative
one for more than it moves at a time, which is less than 2 GiB. -/
def atMost (len : UInt64) : Int := if 0 ≤ toInt len then toInt len else 2 ^ 31 - 1

/-- What the kernel may answer to a `send`: it takes bytes from the front of the buffer, or
fails. -/
def SendFits (s : Stream) (buf : List UInt8) (len : UInt64) (answer : Answer) : Bool :=
  buf.length = len.toNat && -1 ≤ answer.1 && answer.1 ≤ atMost len &&
    (!s.shut || answer.1 = -1)

/-- What the kernel may answer to a `recv`: it delivers the oldest bytes in flight, tells that
there will be none, or fails. -/
def RecvFits (s : Stream) (buf : List UInt8) (len : UInt64) (answer : Answer) : Bool :=
  buf.length = len.toNat && -1 ≤ answer.1 && answer.1 ≤ atMost len &&
    answer.1 ≤ s.inFlight.length &&
    (answer.1 ≠ 0 || toInt len = 0 || s.inFlight.isEmpty && s.shut)

theorem atMost_lt (len : UInt64) : atMost len < 2 ^ 31 := by
  unfold atMost
  split
  · exact toInt_lt len
  · decide

def countSent (buf : List UInt8) (ret : UInt64) : List UInt8 :=
  if ret = toSize (-1) then [] else buf.take ret.toNat

variable (hSend hRecv : Handle)

def Stream.send (s : Stream) (buf : List UInt8) (len : UInt64) (answer : Answer) : Stream :=
  { s with
    inFlight := s.inFlight ++ buf.take answer.1.toNat
    sent := s.sent ++ countSent buf (ofcSocketImplSend hSend len (fun _ _ => answer) s.sender) }

def Stream.recv (s : Stream) (buf : List UInt8) (len : UInt64) (answer : Answer) : Stream :=
  let returned := ofcSocketImplRecv hRecv len (fun _ _ => answer) s.receiver
  let buf := overwrite buf 0 (s.inFlight.take answer.1.toNat)
  { s with
    receiver := returned.2
    inFlight := s.inFlight.drop answer.1.toNat
    received := s.received ++ buf.take returned.1.toNat }

def Stream.step (s : Stream) : Transfer → Option Stream
  | .send buf len answer =>
      if SendFits s buf len answer then some (s.send hSend buf len answer) else none
  | .recv buf len answer =>
      if RecvFits s buf len answer then some (s.recv hRecv buf len answer) else none
  | .shutdown => some { s with shut := true }

structure Connected (s : Stream) : Prop where
  sender : (s.sender.impl hSend).isSome = true
  receiver : ∃ sock, s.receiver.impl hRecv = some sock ∧ sock.remoteClosed = .put false
  inFlight : s.inFlight = []
  shut : s.shut = false
  sent : s.sent = []
  received : s.received = []

def stream : Machine Stream Transfer where
  init := Connected hSend hRecv
  step := Stream.step hSend hRecv

section Counts
variable {buf : List UInt8} {len : UInt64} {answer : Answer} {h : Handle} {sock : SocketImpl}

theorem countSent_send {k : Sockets} (hl : (k.impl h).isSome = true) (hlow : -1 ≤ answer.1)
    (hhigh : answer.1 ≤ atMost len) :
    countSent buf (ofcSocketImplSend h len (fun _ _ => answer) k) =
      buf.take answer.1.toNat := by
  obtain ⟨sock, hl⟩ := Option.isSome_iff_exists.mp hl
  obtain ⟨status, errno⟩ := answer
  have hint := atMost_lt len
  dsimp only at hlow hhigh
  simp only [ofcSocketImplSend, hl]
  by_cases hfail : status = -1
  · subst hfail
    by_cases hagain : errno = eagain
    · simp [hagain, countSent]
    · simp [hagain, countSent]
  · have hnonneg : 0 ≤ status := by omega
    have hnat := toSize_toNat hnonneg (by omega)
    have herror : toSize status ≠ toSize (-1) := by
      intro heq
      have hmax : (toSize (-1)).toNat = 2 ^ 64 - 1 := by decide
      rw [heq, hmax] at hnat
      omega
    simp [hfail, hnonneg, countSent, herror, hnat]

theorem recv_ret {k : Sockets} (hl : k.impl h = some sock) (hlow : -1 ≤ answer.1)
    (hhigh : answer.1 ≤ atMost len) :
    (ofcSocketImplRecv h len (fun _ _ => answer) k).1.toNat = answer.1.toNat := by
  obtain ⟨status, errno⟩ := answer
  have hint := atMost_lt len
  dsimp only at hlow hhigh
  simp only [ofcSocketImplRecv, hl]
  by_cases hread : status > 0
  · have hnot : ¬ (status = -1 ∧ errno = eagain) := by omega
    rw [if_neg hnot, if_pos hread]
    exact toSize_toNat hread.le (by omega)
  · have hzero : status.toNat = 0 := by omega
    by_cases hagain : status = -1 ∧ errno = eagain
    · simp [hagain]
    · simp [hagain, hread, hzero]

theorem overwrite_take {delivered : List UInt8} {n : Nat} (hn : delivered.length = n) :
    (overwrite buf 0 delivered).take n = delivered := by
  simp [overwrite, ← hn]

end Counts

section Runs
variable {hSend hRecv} {s t : Stream} {transfer : Transfer}

structure Carried (hSend hRecv : Handle) (s : Stream) : Prop where
  sender : (s.sender.impl hSend).isSome = true
  receiver : ∃ sock, s.receiver.impl hRecv = some sock
  bytes : s.sent = s.received ++ s.inFlight

theorem recv_impl {k : Sockets} {h : Handle} {sock : SocketImpl} (hl : k.impl h = some sock)
    (len : UInt64) (answer : Answer) :
    (ofcSocketImplRecv h len (fun _ _ => answer) k).2.impl h =
      some (if marks answer then { sock with remoteClosed := .put true } else sock) := by
  rw [recv_sockets hl]
  split
  · simp [Sockets.modify, hl]
  · exact hl

theorem Carried.step (hc : Carried hSend hRecv s)
    (h : (stream hSend hRecv).step s transfer = some t) : Carried hSend hRecv t := by
  obtain ⟨hsender, ⟨sock, hl⟩, hbytes⟩ := hc
  cases transfer with
  | send buf len answer =>
    obtain ⟨hfits, h⟩ := Option.ite_none_right_eq_some.mp h
    obtain rfl := Option.some.inj h
    simp only [SendFits, Bool.and_eq_true, decide_eq_true_eq] at hfits
    obtain ⟨⟨⟨-, hlow⟩, hhigh⟩, -⟩ := hfits
    refine ⟨hsender, ⟨sock, hl⟩, ?_⟩
    simp only [Stream.send, countSent_send hsender hlow hhigh, hbytes, List.append_assoc]
  | recv buf len answer =>
    obtain ⟨hfits, h⟩ := Option.ite_none_right_eq_some.mp h
    obtain rfl := Option.some.inj h
    simp only [RecvFits, Bool.and_eq_true, decide_eq_true_eq] at hfits
    obtain ⟨⟨⟨⟨-, hlow⟩, hhigh⟩, hflight⟩, -⟩ := hfits
    refine ⟨hsender, ⟨_, recv_impl hl len answer⟩, ?_⟩
    have hlength : (s.inFlight.take answer.1.toNat).length = answer.1.toNat := by
      rw [List.length_take]
      omega
    simp only [Stream.recv, recv_ret hl hlow hhigh, overwrite_take hlength, hbytes,
      List.append_assoc, List.take_append_drop]
  | shutdown =>
    obtain rfl := Option.some.inj h
    exact ⟨hsender, ⟨sock, hl⟩, hbytes⟩

/-- A read asks for a byte at least, and fails with nothing but `EAGAIN`. -/
def Plain (_ : Stream) : Transfer → Bool
  | .recv _ len answer => toInt len ≠ 0 && (answer.1 ≠ -1 || answer.2 = eagain)
  | _ => true

/-- A socket is marked closed only when its stream has ended with nothing in flight. -/
def Drained (hRecv : Handle) (s : Stream) : Prop :=
  ∀ sock, s.receiver.impl hRecv = some sock → sock.remoteClosed.val = true →
    s.shut = true ∧ s.inFlight = []

theorem Drained.step (hd : Drained hRecv s) (hc : Carried hSend hRecv s)
    (hplain : Plain s transfer = true) (h : (stream hSend hRecv).step s transfer = some t) :
    Drained hRecv t := by
  cases transfer with
  | send buf len answer =>
    obtain ⟨hfits, h⟩ := Option.ite_none_right_eq_some.mp h
    obtain rfl := Option.some.inj h
    intro sock hl hmark
    obtain ⟨hshut, hempty⟩ := hd sock hl hmark
    simp only [SendFits, Bool.and_eq_true, Bool.or_eq_true, Bool.not_eq_true',
      decide_eq_true_eq] at hfits
    have hfail : answer.1 = -1 := hfits.2.resolve_left (by simp [hshut])
    exact ⟨hshut, by simp [Stream.send, hempty, hfail]⟩
  | recv buf len answer =>
    obtain ⟨hfits, h⟩ := Option.ite_none_right_eq_some.mp h
    obtain rfl := Option.some.inj h
    obtain ⟨old, hold⟩ := hc.receiver
    intro sock hl hmark
    have hnew := (recv_impl hold len answer).symm.trans hl
    by_cases hmarks : marks answer = true
    · -- only the end of the stream marks the socket
      simp only [RecvFits, Plain, marks, Bool.and_eq_true, Bool.or_eq_true, Bool.not_eq_true',
        Bool.and_eq_false_iff, decide_eq_true_eq, decide_eq_false_iff_not,
        List.isEmpty_iff] at hfits hplain hmarks
      obtain ⟨⟨⟨⟨-, hlow⟩, -⟩, -⟩, hend⟩ := hfits
      have hzero : answer.1 = 0 := by omega
      have hended : s.inFlight = [] ∧ s.shut = true := by
        rcases hend with (hne | hnone) | hended
        · exact absurd hzero hne
        · omega
        · exact hended
      exact ⟨hended.2, by simp [Stream.recv, hended.1]⟩
    · rw [if_neg hmarks] at hnew
      injection hnew with hnew
      obtain ⟨hshut, hempty⟩ := hd old hold (by rw [hnew, hmark])
      exact ⟨hshut, by simp [Stream.recv, hempty]⟩
  | shutdown =>
    obtain rfl := Option.some.inj h
    exact fun sock hl hmark => ⟨rfl, (hd sock hl hmark).2⟩

/-- By what the calls return, every byte sent is received or on its way, in order and once,
over every run of sends and receives. If the reads ask for bytes and meet no error but
`EAGAIN`, the socket passes for closed although `getpeername` succeeds only when the receiver has
all. -/
theorem stream_delivers (hSend hRecv : Handle) :
    (∀ s, (stream hSend hRecv).Reach s → s.sent = s.received ++ s.inFlight) ∧
    ∀ s, (stream hSend hRecv).ReachWhere (fun s transfer => Plain s transfer = true) s →
      ∀ getpeername : Int → Int,
        (∀ sock, s.receiver.impl hRecv = some sock → getpeername sock.socket.val ≠ -1) →
        (ofcSocketImplConnected hRecv getpeername s.receiver).1 = false →
        s.received = s.sent ∧ s.shut = true := by
  have hcarried : ∀ s, (stream hSend hRecv).Reach s → Carried hSend hRecv s := by
    intro s h
    apply h.invariant
    · rintro s ⟨hsender, ⟨sock, hl, -⟩, hflight, -, hsent, hreceived⟩
      exact ⟨hsender, ⟨sock, hl⟩, by simp [hflight, hsent, hreceived]⟩
    · exact fun s transfer t _ hc hs => hc.step hs
  refine ⟨fun s h => (hcarried s h).bytes, ?_⟩
  intro s h getpeername hpeer hclosed
  have hc := hcarried s h.reach
  have hd : Drained hRecv s := by
    apply h.invariant
    · rintro s ⟨-, ⟨sock, hl, hopen⟩, -⟩ sock' hl' hmark
      rw [hl] at hl'
      injection hl' with hl'
      rw [← hl', hopen] at hmark
      cases hmark
    · exact fun s transfer t hr hd hplain hs => hd.step (hcarried s hr.reach) hplain hs
  obtain ⟨sock, hl⟩ := hc.receiver
  have hmark : sock.remoteClosed.val = true := by
    cases hopen : sock.remoteClosed.val with
    | true => rfl
    | false => simp [ofcSocketImplConnected, Sockets.look, hl, hopen, hpeer sock hl] at hclosed
  obtain ⟨hshut, hempty⟩ := hd sock hl hmark
  exact ⟨by rw [hc.bytes, hempty, List.append_nil], hshut⟩

def newPair : Stream where
  sender := ⟨fun h => if h = 1 then some (memoryOf 0) else none, fun _ => true⟩
  receiver :=
    { impl := fun h => if h = 2 then some { memoryOf 0 with remoteClosed := .put false } else none
      opened := fun _ => true }
  inFlight := []
  shut := false
  sent := []
  received := []

def threeBytes : List Transfer :=
  [.send [7, 8, 9] 3 (3, 0), .recv [0, 0] 2 (2, 0), .shutdown, .recv [0, 0] 2 (1, 0),
    .recv [0, 0] 2 (0, 0)]

theorem stream_delivers_threeBytes : ∃ s : Stream, s.sent = [7, 8, 9] ∧
    s.sent = s.received ++ s.inFlight ∧ s.received = s.sent ∧ s.shut = true := by
  have hrun : ((stream 1 2).runWhere (fun s transfer => Plain s transfer = true) newPair
      threeBytes).map (fun s =>
        (s.sent, (ofcSocketImplConnected 2 (fun _ => 0) s.receiver).1)) =
      some ([7, 8, 9], false) := by decide
  obtain ⟨s, hs, hlast⟩ := Option.map_eq_some_iff.mp hrun
  injection hlast with hsent hclosed
  have hinit : Connected 1 2 newPair := ⟨rfl, ⟨_, rfl, rfl⟩, rfl, rfl, rfl, rfl⟩
  have hreach := Machine.ReachWhere.runWhere (.init hinit) hs
  exact ⟨s, hsent, (stream_delivers 1 2).1 s hreach.reach,
    (stream_delivers 1 2).2 s hreach (fun _ => 0) (fun _ _ => by decide) hclosed⟩

end Runs

end CoreAndroid.Socket
