import CoreAndroid.Socket.Run
import Mathlib.Data.List.Forall2
import Mathlib.Data.Option.Basic

/-! Which fields of a record the program has written, over sequences of socket calls,
and what the reporting calls owe to the memory they were given. -/
namespace CoreAndroid.Socket
open Reading

/-- The reads of `ofc_socket_impl_get_event` and `ofc_socket_impl_test` come after the
field was set: the handle was created, or the field was set since it was accepted. -/
def Prepared (s : System) : Call → Prop
  | .getEvent h => (s.impl h).isSome → enabledSince h s.past
  | .test h => (s.impl h).isSome → eventSetSince h s.past
  | _ => True

/-- The fields of a record that the calls so far have written. -/
structure Written (past : List Deed) (h : Handle) (sock : SocketImpl) : Prop where
  socket : sock.socket.written = true
  remoteClosed : sock.remoteClosed.written = true
  events : sock.events.written = enabledSince h past
  revents : sock.revents.written = eventSetSince h past

def AllWritten (s : System) : Prop := ∀ h sock, s.impl h = some sock → Written s.past h sock

variable {s t : System} {call : Call}

theorem Fresh.allWritten (h : Fresh s) : AllWritten s := by
  intro g sock hg
  rw [h.impl] at hg
  cases hg

theorem created_written {family socktype mem socket sock} (past : List Deed) (h : Handle)
    (hsock : createdSocket family socktype mem socket = some sock) :
    Written (.created h :: past) h sock := by
  obtain ⟨mem, -, hsock⟩ := Option.bind_eq_some_iff.mp hsock
  cases family <;> obtain ⟨-, hsock⟩ := Option.ite_none_left_eq_some.mp hsock <;>
    injection hsock with hsock <;> subst hsock <;>
    constructor <;> simp [Cell.put, enabledSince, eventSetSince]

theorem accepted_written {listener mem : SocketImpl} {accept sock} (past : List Deed) (h : Handle)
    (hsock : acceptedSocket listener mem accept = some sock) :
    Written (.accepted h :: past) h sock := by
  obtain ⟨-, hsock⟩ := Option.ite_none_right_eq_some.mp hsock
  injection hsock with hsock
  subst hsock
  constructor <;> simp [Cell.put, Cell.junk, SocketImpl.fresh, enabledSince, eventSetSince]

theorem AllWritten.update {past : List Deed} {h : Handle} {new : Option SocketImpl}
    (hw : AllWritten s) (hnew : ∀ sock, new = some sock → Written past h sock)
    (henabled : ∀ g, g ≠ h → enabledSince g past = enabledSince g s.past)
    (hset : ∀ g, g ≠ h → eventSetSince g past = eventSetSince g s.past) :
    ∀ g sock, Function.update s.impl h new g = some sock → Written past g sock := by
  intro g sock hg
  rcases live_update hg with ⟨rfl, hwritten⟩ | ⟨hgh, hkept⟩
  · exact hnew sock hwritten
  · have hold := hw g sock hkept
    exact ⟨hold.socket, hold.remoteClosed, hold.events.trans (henabled g hgh).symm,
      hold.revents.trans (hset g hgh).symm⟩

theorem AllWritten.step (hw : AllWritten s) (hs : system.step s call = some t) :
    AllWritten t := by
  obtain ⟨-, -, he⟩ := step_spec hs
  cases he with
  | @create _ _ _ _ h sock hsock =>
    apply hw.update
    · rintro _ ⟨⟩
      exact created_written s.past h hsock
    · exact fun g hne => by simp [enabledSince, Ne.symm hne]
    · exact fun g hne => by simp [eventSetSince, Ne.symm hne]
  | @accept _ _ _ _ h sock _ hsock =>
    apply hw.update
    · rintro _ ⟨⟩
      exact accepted_written s.past h hsock
    · exact fun g hne => by simp [enabledSince, Ne.symm hne]
    · exact fun g hne => by simp [eventSetSince, Ne.symm hne]
  | @close h sock hl =>
    intro g i hg
    have hold := hw g i hg
    exact ⟨hold.socket, hold.remoteClosed, hold.events, hold.revents⟩
  | destroy =>
    refine hw.update ?_ (fun _ _ => rfl) (fun _ _ => rfl)
    rintro _ ⟨⟩
  | @recv h _ _ sock hl =>
    refine hw.update ?_ (fun _ _ => rfl) (fun _ _ => rfl)
    rintro _ ⟨⟩
    have hold := hw h sock hl
    exact ⟨hold.socket, rfl, hold.events, hold.revents⟩
  | @enable h _ sock hl =>
    apply hw.update
    · rintro _ ⟨⟩
      have hold := hw h sock hl
      exact ⟨hold.socket, hold.remoteClosed, by simp [Cell.put, enabledSince], hold.revents⟩
    · exact fun g hne => by simp [enabledSince, Ne.symm hne]
    · exact fun _ _ => rfl
  | @setEvent h _ sock hl =>
    apply hw.update
    · rintro _ ⟨⟩
      have hold := hw h sock hl
      exact ⟨hold.socket, hold.remoteClosed, hold.events, by simp [Cell.put, eventSetSince]⟩
    · exact fun _ _ => rfl
    · exact fun g hne => by simp [eventSetSince, Ne.symm hne]
  | report => exact hw
  | nothing => exact hw

theorem unsetReads_eq_zero_iff (hw : AllWritten s) :
    unsetReads s.toSockets call = 0 ↔ Prepared s call := by
  cases call with
  | getEvent h =>
    cases hl : s.impl h with
    | none => simp [unsetReads, ofcSocketImplGetEvent, Sockets.look, Prepared, hl]
    | some sock =>
      simp [unsetReads, ofcSocketImplGetEvent, Sockets.look, Prepared, hl, Cell.unset_eq_zero,
        (hw h sock hl).events]
  | getFd h =>
    cases hl : s.impl h with
    | none => simp [unsetReads, ofcSocketImplGetFd, Sockets.look, Prepared, hl]
    | some sock =>
      simp [unsetReads, ofcSocketImplGetFd, Sockets.look, Prepared, hl, Cell.unset_eq_zero,
        (hw h sock hl).socket]
  | test h =>
    cases hl : s.impl h with
    | none => simp [unsetReads, ofcSocketImplTest, Sockets.look, Prepared, hl]
    | some sock =>
      simp [unsetReads, ofcSocketImplTest, Sockets.look, Prepared, hl, Cell.unset_eq_zero,
        (hw h sock hl).revents, (hw h sock hl).remoteClosed]
  | connected h getpeername =>
    cases hl : s.impl h with
    | none => simp [unsetReads, ofcSocketImplConnected, Sockets.look, Prepared, hl]
    | some sock =>
      have hclosed := (hw h sock hl).remoteClosed
      cases hv : sock.remoteClosed.val <;>
        simp [unsetReads, ofcSocketImplConnected, Sockets.look, Prepared, hl, Cell.unset_eq_zero,
          (hw h sock hl).socket, hclosed, hv]
  | _ => exact iff_of_true rfl trivial

theorem unset_step (hs : system.step s call = some t) :
    t.unset = s.unset + unsetReads s.toSockets call := by
  obtain ⟨-, -, he⟩ := step_spec hs
  cases he with
  | report => rfl
  | nothing _ hzero => rw [hzero]; rfl
  | _ => rfl

structure Clean (s : System) : Prop where
  written : AllWritten s
  unset : s.unset = 0

theorem Fresh.clean (h : Fresh s) : Clean s := ⟨h.allWritten, h.unset⟩

theorem Clean.step (hc : Clean s) (hok : Prepared s call) (hs : system.step s call = some t) :
    Clean t := by
  refine ⟨hc.written.step hs, ?_⟩
  rw [unset_step hs, hc.unset, (unsetReads_eq_zero_iff hc.written).mpr hok]

theorem Clean.reads_unset (hc : Clean s) (hno : ¬ Prepared s call)
    (hs : system.step s call = some t) : t.unset ≠ 0 := by
  rw [unset_step hs, hc.unset, Nat.zero_add]
  exact mt (unsetReads_eq_zero_iff hc.written).mp hno

section TwoRuns

/-- The fields that some call reads later agree; two of them are always written. -/
structure SocketImpl.Agree (i j : SocketImpl) : Prop where
  socket : i.socket = j.socket
  remoteClosed : i.remoteClosed = j.remoteClosed
  events : i.events.Agree j.events
  revents : i.revents.Agree j.revents

structure System.Agree (s s' : System) : Prop where
  impl : ∀ h, Option.Rel SocketImpl.Agree (s.impl h) (s'.impl h)
  opened : s.opened = s'.opened
  past : s.past = s'.past
  reports : s.reports = s'.reports

/-- The same call with memory of other content. -/
inductive SameButMemory : Call → Call → Prop
  | create {family socktype socket hNew} (mem mem' : SocketImpl) :
      SameButMemory (.create family socktype (some mem) socket hNew)
        (.create family socktype (some mem') socket hNew)
  | accept {h accept hNew} (mem mem' : SocketImpl) :
      SameButMemory (.accept h mem accept hNew) (.accept h mem' accept hNew)
  | same (call : Call) : SameButMemory call call

theorem respects_events : Respects SocketImpl.Agree (field (·.events)) :=
  respects_field fun _ _ h => h.events

theorem respects_revents : Respects SocketImpl.Agree (field (·.revents)) :=
  respects_field fun _ _ h => h.revents

theorem respects_socket : Respects SocketImpl.Agree (field (·.socket)) :=
  respects_field fun _ _ h => Cell.agree_of_eq h.socket

theorem respects_remoteClosed : Respects SocketImpl.Agree (field (·.remoteClosed)) :=
  respects_field fun _ _ h => Cell.agree_of_eq h.remoteClosed

variable {s' : System} {call' : Call}

theorem System.Agree.lock (ha : s.Agree s') (h : Handle) :
    (s.impl h = none ∧ s'.impl h = none) ∨
    ∃ i j, s.impl h = some i ∧ s'.impl h = some j ∧ i.Agree j := by
  have himpl := ha.impl h
  generalize s.impl h = i at himpl ⊢
  generalize s'.impl h = j at himpl ⊢
  cases himpl with
  | none => exact .inl ⟨rfl, rfl⟩
  | some hij => exact .inr ⟨_, _, rfl, rfl, hij⟩

theorem System.Agree.report (ha : s.Agree s') {α : Type} {h : Handle} {none : α}
    {read : Reading SocketImpl α} (report : α → Report) (hr : Respects SocketImpl.Agree read)
    (hzero : (s.look h none read).2 = 0) :
    (s.report (s.look h none read) report).Agree (s'.report (s'.look h none read) report) := by
  have heq : s'.look h none read = s.look h none read := by
    unfold Sockets.look at hzero ⊢
    obtain ⟨hi, hj⟩ | ⟨i, j, hi, hj, hij⟩ := ha.lock h
    · rw [hi, hj]
    · rw [hi] at hzero ⊢
      rw [hj]
      exact hr i j hij hzero
  rw [heq]
  exact ⟨ha.impl, ha.opened, ha.past, congrArg (report _ :: ·) ha.reports⟩

theorem agree_update (ha : s.Agree s') (h : Handle) {i j : Option SocketImpl}
    (hij : Option.Rel SocketImpl.Agree i j) (g : Handle) :
    Option.Rel SocketImpl.Agree (Function.update s.impl h i g) (Function.update s'.impl h j g) := by
  by_cases hgh : g = h
  · subst hgh
    rwa [Function.update_self, Function.update_self]
  · rw [Function.update_of_ne hgh, Function.update_of_ne hgh]
    exact ha.impl g

theorem created_agree (family socktype mem mem' socket) :
    Option.Rel SocketImpl.Agree (createdSocket family socktype (some mem) socket)
      (createdSocket family socktype (some mem') socket) := by
  cases family <;> simp only [createdSocket, Option.bind_some] <;> split <;>
    first
    | exact .none
    | exact .some ⟨rfl, rfl, Cell.put_agree _, Cell.put_agree _⟩

theorem accepted_agree {i j : SocketImpl} (hij : i.Agree j) (mem mem' accept) :
    Option.Rel SocketImpl.Agree (acceptedSocket i mem accept) (acceptedSocket j mem' accept) := by
  simp only [acceptedSocket, hij.socket]
  split
  · exact .some ⟨rfl, rfl, Cell.junk_agree _ _, Cell.junk_agree _ _⟩
  · exact .none

@[refl] theorem SocketImpl.Agree.refl (i : SocketImpl) : i.Agree i :=
  ⟨rfl, rfl, Cell.agree_of_eq rfl, Cell.agree_of_eq rfl⟩

theorem rel_refl (i : Option SocketImpl) : Option.Rel SocketImpl.Agree i i := by
  cases i with
  | none => exact .none
  | some i => exact .some (.refl i)

theorem System.Agree.give (ha : s.Agree s') (h : Handle) {i j : SocketImpl} (hij : i.Agree j)
    (deed : Handle → Deed) :
    ({ s with toSockets := s.give h i, past := s.noteNew h deed } : System).Agree
      { s' with toSockets := s'.give h j, past := s'.noteNew h deed } where
  impl := agree_update ha h (.some hij)
  opened := by simp [Sockets.give, hij.socket, ha.opened]
  past := by simp [System.noteNew, ha.past]
  reports := ha.reports

theorem agree_create (ha : s.Agree s') {family socktype mem mem' socket} (h : Handle)
    (hrel : Option.Rel SocketImpl.Agree (createdSocket family socktype mem socket)
      (createdSocket family socktype mem' socket)) :
    (perform s (.create family socktype mem socket h)).Agree
      (perform s' (.create family socktype mem' socket h)) := by
  simp only [perform, ofcSocketImplCreate]
  generalize createdSocket family socktype mem socket = i at hrel ⊢
  generalize createdSocket family socktype mem' socket = j at hrel ⊢
  cases hrel with
  | none => exact ⟨ha.impl, ha.opened, ha.past, ha.reports⟩
  | some hij => exact ha.give h hij .created

theorem agree_accept (ha : s.Agree s') (g : Handle) (mem mem' : SocketImpl) (accept : Int → Int)
    (h : Handle) :
    (perform s (.accept g mem accept h)).Agree (perform s' (.accept g mem' accept h)) := by
  simp only [perform, ofcSocketImplAccept]
  obtain ⟨hi, hj⟩ | ⟨i, j, hi, hj, hij⟩ := ha.lock g
  · simp only [hi, hj]
    exact ⟨ha.impl, ha.opened, ha.past, ha.reports⟩
  · have hrel := accepted_agree hij mem mem' accept
    simp only [hi, hj]
    generalize acceptedSocket i mem accept = x at hrel ⊢
    generalize acceptedSocket j mem' accept = y at hrel ⊢
    cases hrel with
    | none => exact ⟨ha.impl, ha.opened, ha.past, ha.reports⟩
    | some hxy => exact ha.give h hxy .accepted

theorem System.Agree.modify (ha : s.Agree s') (h : Handle) (write : SocketImpl → SocketImpl)
    (hwrite : ∀ i j, i.Agree j → (write i).Agree (write j)) {past past' : List Deed}
    (hpast : past = past') :
    ({ s with toSockets := s.modify h write, past := past } : System).Agree
      { s' with toSockets := s'.modify h write, past := past' } := by
  unfold Sockets.modify
  obtain ⟨hi, hj⟩ | ⟨i, j, hi, hj, hij⟩ := ha.lock h
  · rw [hi, hj]
    exact ⟨ha.impl, ha.opened, hpast, ha.reports⟩
  · rw [hi, hj]
    exact ⟨agree_update ha h (.some (hwrite i j hij)), ha.opened, hpast, ha.reports⟩

theorem System.Agree.note (ha : s.Agree s') (h : Handle) (deed : Handle → Deed) :
    s.note h deed = s'.note h deed := by
  obtain ⟨hi, hj⟩ | ⟨i, j, hi, hj, -⟩ := ha.lock h <;> simp [System.note, hi, hj, ha.past]

theorem agree_perform (ha : s.Agree s') (hc : SameButMemory call call')
    (hzero : unsetReads s.toSockets call = 0) : (perform s call).Agree (perform s' call') := by
  cases hc with
  | create mem mem' => exact agree_create ha _ (created_agree _ _ mem mem' _)
  | accept mem mem' => exact agree_accept ha _ mem mem' _ _
  | same =>
    cases call with
    | create family socktype mem socket h => exact agree_create ha h (rel_refl _)
    | accept g mem accept h => exact agree_accept ha g mem mem accept h
    | close h =>
      have hpast := ha.note h .closed
      simp only [perform, ofcSocketImplClose]
      obtain ⟨hi, hj⟩ | ⟨i, j, hi, hj, hij⟩ := ha.lock h
      · simp only [hi, hj]
        exact ⟨ha.impl, ha.opened, hpast, ha.reports⟩
      · simp only [hi, hj]
        exact ⟨ha.impl, by rw [hij.socket, ha.opened], hpast, ha.reports⟩
    | destroy h =>
      simp only [perform, ofcSocketImplDestroy]
      obtain ⟨hi, hj⟩ | ⟨i, j, hi, hj, hij⟩ := ha.lock h
      · simp only [hi, hj]
        exact ha
      · simp only [hi, hj]
        exact ⟨agree_update ha h .none, ha.opened, ha.past, ha.reports⟩
    | recv h len recv =>
      have hwrite := ha.modify h (fun sock => { sock with remoteClosed := .put true })
        (fun i j hij => ⟨hij.socket, rfl, hij.events, hij.revents⟩) ha.past
      simp only [perform, ofcSocketImplRecv]
      obtain ⟨hi, hj⟩ | ⟨i, j, hi, hj, hij⟩ := ha.lock h
      · simp only [hi, hj]
        exact ha
      · simp only [hi, hj, hij.socket]
        split
        · exact ha
        · split
          · exact ha
          · exact hwrite
    | enable h type =>
      exact ha.modify h (fun sock => { sock with events := .put (eventMask type) })
        (fun i j hij => ⟨hij.socket, hij.remoteClosed, Cell.put_agree _, hij.revents⟩)
        (ha.note h .enabled)
    | setEvent h revents =>
      exact ha.modify h (fun sock => { sock with revents := .put revents })
        (fun i j hij => ⟨hij.socket, hij.remoteClosed, hij.events, Cell.put_agree _⟩)
        (ha.note h .eventSet)
    | getEvent h => exact ha.report _ respects_events hzero
    | getFd h => exact ha.report _ respects_socket hzero
    | test h =>
      refine ha.report _ (respects_bind respects_remoteClosed fun remoteClosed => ?_) hzero
      exact respects_bind respects_revents fun revents => respects_pure _
    | connected h getpeername =>
      refine ha.report _ (respects_bind respects_remoteClosed fun remoteClosed => ?_) hzero
      cases remoteClosed with
      | true => exact respects_pure _
      | false => exact respects_bind respects_socket fun socket => respects_pure _
    | passOn h => exact ha

theorem given_agree (ha : s.Agree s') (hc : SameButMemory call call') :
    Option.Rel (fun p q => p.1 = q.1 ∧ p.2.Agree q.2)
      (given s.toSockets call) (given s'.toSockets call') := by
  have hmap : ∀ (h : Handle) {i j : Option SocketImpl}, Option.Rel SocketImpl.Agree i j →
      Option.Rel (fun p q => p.1 = q.1 ∧ p.2.Agree q.2) (i.map (h, ·)) (j.map (h, ·)) := by
    intro h i j hij
    cases hij with
    | none => exact .none
    | some hij => exact .some ⟨rfl, hij⟩
  have haccept : ∀ (g h : Handle) (mem mem' : SocketImpl) (accept : Int → Int),
      Option.Rel (fun p q => p.1 = q.1 ∧ p.2.Agree q.2)
        (given s.toSockets (.accept g mem accept h))
        (given s'.toSockets (.accept g mem' accept h)) := by
    intro g h mem mem' accept
    simp only [given]
    obtain ⟨hi, hj⟩ | ⟨i, j, hi, hj, hij⟩ := ha.lock g
    · rw [hi, hj]
      exact .none
    · rw [hi, hj]
      exact hmap h (accepted_agree hij mem mem' accept)
  cases hc with
  | create mem mem' => exact hmap _ (created_agree _ _ mem mem' _)
  | accept mem mem' => exact haccept _ _ mem mem' _
  | same =>
    cases call with
    | create => exact hmap _ (rel_refl _)
    | accept => exact haccept _ _ _ _ _
    | _ => exact .none

theorem agree_grantable (ha : s.Agree s') (hc : SameButMemory call call') :
    Grantable s'.toSockets call' = Grantable s.toSockets call := by
  have hrel := given_agree ha hc
  unfold Grantable
  generalize given s.toSockets call = p at hrel ⊢
  generalize given s'.toSockets call' = q at hrel ⊢
  cases hrel with
  | none => rfl
  | @some p q hpq =>
    obtain ⟨h, i⟩ := p
    obtain ⟨h', j⟩ := q
    obtain ⟨rfl, hij⟩ := hpq
    have hfd : i.socket = j.socket := hij.socket
    obtain ⟨hk, hl⟩ | ⟨k, l, hk, hl, -⟩ := ha.lock h <;> simp [hk, hl, hfd, ha.opened]

theorem agree_run {calls calls' : List Call} (ha : s.Agree s') (hw : Clean s)
    (hsame : List.Forall₂ SameButMemory calls calls') (hok : system.Each Prepared s calls)
    (hr : system.run s calls = some t) : ∃ t', system.run s' calls' = some t' ∧ t.Agree t' := by
  induction hsame generalizing s s' with
  | nil =>
    injection hr with hr
    exact ⟨s', rfl, hr ▸ ha⟩
  | cons hc _ ih =>
    obtain ⟨u, hu, hr⟩ := Option.bind_eq_some_iff.mp hr
    obtain ⟨hprep, hrest⟩ := hok
    obtain ⟨hg, rfl, -⟩ := step_spec hu
    have hzero := (unsetReads_eq_zero_iff hw.written).mpr hprep
    obtain ⟨t', ht', hagree⟩ := ih (agree_perform ha hc hzero) (hw.step hprep hu) (hrest _ hu) hr
    refine ⟨t', ?_, hagree⟩
    simp only [Machine.run, system, agree_grantable ha hc, hg, if_true, Option.bind_some]
    exact ht'

end TwoRuns

/-- No unset field is read exactly in the runs in which `ofc_socket_impl_get_event` and
`ofc_socket_impl_test` on an accepted socket wait for the field to be set, and such a
run reports the same whatever the allocated memory holds. -/
theorem reads_prepared_iff {calls : List Call} (hs : Fresh s) (hr : system.run s calls = some t) :
    (system.Always (fun u => u.unset = 0) s calls ↔ system.Each Prepared s calls) ∧
    (system.Each Prepared s calls → ∀ calls', List.Forall₂ SameButMemory calls calls' →
      ∃ t', system.run s calls' = some t' ∧ t'.reports = t.reports) := by
  constructor
  · exact Machine.always_iff_each (fun _ => Clean.unset) (fun _ _ _ => Clean.step)
      (fun _ _ _ => Clean.reads_unset) hs.clean hr
  · intro hok calls' hsame
    have ha : s.Agree s := ⟨fun h => rel_refl _, rfl, rfl, rfl⟩
    obtain ⟨t', ht', hagree⟩ := agree_run ha hs.clean hsame hok hr
    exact ⟨t', ht', hagree.reports.symm⟩

def enableAccepted (content : UInt16) : List Call :=
  [.create .ip .stream (some (memoryOf content)) (fun _ _ _ => 3) 1,
   .accept 1 (memoryOf content) (fun _ => 4) 2,
   .enable 2 ⟨true, false, false, false, true, false⟩,
   .getEvent 2]

theorem reads_prepared_enableAccepted : ∃ t,
    system.run noSockets (enableAccepted 7) = some t ∧
    (system.Always (fun u => u.unset = 0) noSockets (enableAccepted 7) ↔
      system.Each Prepared noSockets (enableAccepted 7)) := by
  have hrun : (system.run noSockets (enableAccepted 7)).isSome := by decide
  obtain ⟨t, ht⟩ := Option.isSome_iff_exists.mp hrun
  exact ⟨t, ht, (reads_prepared_iff noSockets_fresh ht).1⟩

def askAccepted (content : UInt16) : List Call :=
  [.create .ip .stream (some (memoryOf content)) (fun _ _ _ => 3) 1,
   .accept 1 (memoryOf content) (fun _ => 4) 2,
   .getEvent 2]

theorem askAccepted_same (content content' : UInt16) :
    List.Forall₂ SameButMemory (askAccepted content) (askAccepted content') :=
  .cons (.create _ _) (.cons (.accept _ _) (.cons (.same _) .nil))

/-- The accepted socket answers with whatever its memory held. -/
theorem reads_unset_askAccepted :
    (¬ ∀ (s t : System) (calls : List Call), Fresh s → system.run s calls = some t →
      t.unset = 0) ∧
    ¬ ∀ (s t t' : System) (calls calls' : List Call), Fresh s → system.run s calls = some t →
      List.Forall₂ SameButMemory calls calls' → system.run s calls' = some t' →
      t'.reports = t.reports := by
  have hrun : (system.run noSockets (askAccepted 0)).map (fun t => (t.unset, t.reports)) =
      some (1, [.event 2 0]) := by decide
  have hrun' : (system.run noSockets (askAccepted 9)).map (fun t => t.reports) =
      some [.event 2 9] := by decide
  obtain ⟨t, ht, hlast⟩ := Option.map_eq_some_iff.mp hrun
  obtain ⟨t', ht', hlast'⟩ := Option.map_eq_some_iff.mp hrun'
  injection hlast with hunset hreports
  constructor
  · intro hall
    have hzero := hall _ t _ noSockets_fresh ht
    omega
  · intro hall
    have hsame := hall _ t t' _ _ noSockets_fresh ht (askAccepted_same 0 9) ht'
    rw [hreports, hlast'] at hsame
    revert hsame
    decide

end CoreAndroid.Socket
