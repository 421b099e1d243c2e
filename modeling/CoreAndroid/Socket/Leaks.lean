import CoreAndroid.Socket.Isolation

/-! Which open descriptors the program can still close, over sequences of socket calls. -/
namespace CoreAndroid.Socket

def Held (s : System) (fd : Int) : Prop :=
  ∃ g sock, s.impl g = some sock ∧ sock.socket.val = fd

def HeldElsewhere (s : System) (h : Handle) (fd : Int) : Prop :=
  ∃ g sock, g ≠ h ∧ s.impl g = some sock ∧ sock.socket.val = fd

/-- Every descriptor that is open was so before the first call, or a live handle holds it. -/
def NoLeak (before : Int → Bool) (s : System) : Prop :=
  ∀ fd, s.opened fd = true → before fd = true ∨ Held s fd

/-- A handle is destroyed with its descriptor closed, or one that is not lost with it. -/
def ClosedFirst (before : Int → Bool) (s : System) : Call → Prop
  | .destroy h => ∀ sock, s.impl h = some sock → s.opened sock.socket.val = true →
      before sock.socket.val = true ∨ HeldElsewhere s h sock.socket.val
  | _ => True

variable {s t : System} {call : Call} {before : Int → Bool}

theorem NoLeak.write (hn : NoLeak before s) {h : Handle} {sock new : SocketImpl}
    {past : List Deed} (hl : s.impl h = some sock) (hfd : new.socket.val = sock.socket.val) :
    NoLeak before { s with impl := Function.update s.impl h (some new), past := past } := by
  intro fd hopen
  refine (hn fd hopen).imp_right ?_
  rintro ⟨g, held, hg, hheld⟩
  by_cases hgh : g = h
  · subst hgh
    rw [hl] at hg
    injection hg with hg
    exact ⟨g, new, by simp, by rw [hfd, hg, hheld]⟩
  · exact ⟨g, held, by simp [hgh, hg], hheld⟩

theorem NoLeak.give (hn : NoLeak before s) {h : Handle} {sock : SocketImpl} {past : List Deed}
    (hfree : s.impl h = none) :
    NoLeak before { s with toSockets := s.give h sock, past := past } := by
  intro fd hopen
  by_cases hfd : fd = sock.socket.val
  · exact .inr ⟨h, sock, by simp [Sockets.give], hfd.symm⟩
  · simp only [Sockets.give, Function.update_of_ne hfd] at hopen
    refine (hn fd hopen).imp_right ?_
    rintro ⟨g, held, hg, hheld⟩
    have hgh : g ≠ h := by
      rintro rfl
      rw [hfree] at hg
      cases hg
    exact ⟨g, held, by simp [Sockets.give, hgh, hg], hheld⟩

theorem NoLeak.step (hn : NoLeak before s) (hok : ClosedFirst before s call)
    (hs : system.step s call = some t) : NoLeak before t := by
  obtain ⟨hg, -, he⟩ := step_spec hs
  cases he with
  | @create family socktype mem socket h sock hsock =>
    have hgiven : given s.toSockets (.create family socktype mem socket h) = some (h, sock) := by
      simp [given, hsock]
    exact hn.give (Grantable.given hg hgiven).1
  | @accept g listener mem accept h sock hl hsock =>
    have hgiven : given s.toSockets (.accept g mem accept h) = some (h, sock) := by
      simp [given, hl, hsock]
    exact hn.give (Grantable.given hg hgiven).1
  | @close h sock hl =>
    intro fd hopen
    by_cases hfd : fd = sock.socket.val
    · simp [hfd] at hopen
    · exact hn fd (by simpa [hfd] using hopen)
  | @destroy h sock hl =>
    intro fd hopen
    rcases hn fd hopen with hbefore | ⟨g, held, hgl, hheld⟩
    · exact .inl hbefore
    · by_cases hgh : g = h
      · subst hgh
        rw [hl] at hgl
        injection hgl with hgl
        subst hgl hheld
        refine (hok sock hl hopen).imp_right ?_
        rintro ⟨k, other, hkg, hk, hother⟩
        exact ⟨k, other, by simp [hkg, hk], hother⟩
      · exact .inr ⟨g, held, by simp [hgh, hgl], hheld⟩
  | recv hl | enable hl | setEvent hl => exact hn.write hl rfl
  | report => exact hn
  | nothing => exact hn

theorem leak_of_destroy (hno : ¬ ClosedFirst before s call) (hs : system.step s call = some t) :
    ¬ NoLeak before t := by
  obtain ⟨-, ht, -⟩ := step_spec hs
  cases call with
  | destroy h =>
    simp only [ClosedFirst, not_forall, not_or] at hno
    obtain ⟨sock, hl, hopen, hbefore, hlost⟩ := hno
    intro hn
    have hstill : t.opened sock.socket.val = true := by
      simpa [ht, perform, ofcSocketImplDestroy, hl] using hopen
    rcases hn _ hstill with hbefore' | ⟨g, held, hg, hheld⟩
    · exact hbefore hbefore'
    · refine hlost ⟨g, held, ?_⟩
      simp only [ht, perform, ofcSocketImplDestroy, hl] at hg
      rcases live_update hg with ⟨-, hnone⟩ | ⟨hgh, hold⟩
      · cases hnone
      · exact ⟨hgh, hold, hheld⟩
  | _ => exact absurd trivial hno

/-- No descriptor that the calls open is ever lost, in the runs in which a handle is destroyed
only after its descriptor was closed or while another handle holds it, and in no other run. -/
theorem descriptors_kept_iff {calls : List Call} (hr : system.run s calls = some t) :
    system.Always (NoLeak s.opened) s calls ↔ system.Each (ClosedFirst s.opened) s calls := by
  have hstart : NoLeak s.opened s := fun fd hopen => .inl hopen
  exact Machine.always_iff_each (fun _ hn => hn) (fun _ _ _ hn hok h => hn.step hok h)
    (fun _ _ _ _ hno h => leak_of_destroy hno h) hstart hr

def destroyOpen : List Call :=
  [createAt 1 3, .close 1, .destroy 1, createAt 2 4, .destroy 2]

theorem descriptors_kept_destroyOpen : ∃ t, system.run noSockets destroyOpen = some t ∧
    t.opened 4 = true ∧
    (system.Always (NoLeak noSockets.opened) noSockets destroyOpen ↔
      system.Each (ClosedFirst noSockets.opened) noSockets destroyOpen) := by
  have hrun : (system.run noSockets destroyOpen).map (fun t => t.opened 4) = some true := by
    decide
  obtain ⟨t, ht, hopen⟩ := Option.map_eq_some_iff.mp hrun
  exact ⟨t, ht, hopen, descriptors_kept_iff ht⟩

end CoreAndroid.Socket
