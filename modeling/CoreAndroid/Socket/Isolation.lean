import CoreAndroid.Socket.Run

/-! Which handle a descriptor belongs to, over sequences of socket calls. -/
namespace CoreAndroid.Socket

/-- A call through the handle acts on the open descriptor. -/
def ActsOn (s : Sockets) (h : Handle) (fd : Int) : Prop :=
  ∃ sock, s.impl h = some sock ∧ sock.socket.val = fd ∧ s.opened fd = true

/-- No open descriptor is acted on through two handles. -/
def Isolated (s : System) : Prop :=
  ∀ g h fd, ActsOn s.toSockets g fd → ActsOn s.toSockets h fd → g = h

/-- A descriptor that the kernel hands out is not the number of a live handle whose
descriptor was closed. -/
def FreshFd (s : System) (call : Call) : Prop :=
  ∀ h sock, given s.toSockets call = some (h, sock) →
    ∀ g stale, s.impl g = some stale → closedSince g s.past = true →
      stale.socket.val ≠ sock.socket.val

structure Owned (s : System) : Prop where
  distinct : ∀ {g h i j}, s.impl g = some i → s.impl h = some j →
    i.socket.val = j.socket.val → g = h
  opened : ∀ {h i}, s.impl h = some i → closedSince h s.past = false →
    s.opened i.socket.val = true

theorem Fresh.owned {s : System} (h : Fresh s) : Owned s where
  distinct hg := by
    rw [h.impl] at hg
    cases hg
  opened hg := by
    rw [h.impl] at hg
    cases hg

variable {s t : System} {call : Call}

theorem Owned.isolated (ho : Owned s) : Isolated s := by
  rintro g h fd ⟨i, hi, hifd, _⟩ ⟨j, hj, hjfd, _⟩
  exact ho.distinct hi hj (hifd.trans hjfd.symm)

theorem Owned.write (ho : Owned s) {h : Handle} {sock new : SocketImpl} {past : List Deed}
    (hl : s.impl h = some sock) (hfd : new.socket.val = sock.socket.val)
    (hpast : ∀ g, closedSince g past = closedSince g s.past) :
    Owned { s with impl := Function.update s.impl h (some new), past := past } := by
  have hold : ∀ {g i}, Function.update s.impl h (some new) g = some i →
      ∃ i', s.impl g = some i' ∧ i'.socket.val = i.socket.val := by
    intro g i hg
    rcases live_update hg with ⟨rfl, hnew⟩ | ⟨-, hold⟩
    · injection hnew with hnew
      exact ⟨sock, hl, hnew ▸ hfd.symm⟩
    · exact ⟨i, hold, rfl⟩
  constructor
  · intro g k i j hi hj hij
    obtain ⟨i', hi', hii⟩ := hold hi
    obtain ⟨j', hj', hjj⟩ := hold hj
    exact ho.distinct hi' hj' (by rw [hii, hij, hjj])
  · intro g i hi hc
    obtain ⟨i', hi', hii⟩ := hold hi
    have hc' : closedSince g s.past = false := (hpast g).symm.trans hc
    exact hii ▸ ho.opened hi' hc'

theorem Owned.close (ho : Owned s) {h : Handle} {sock : SocketImpl} (hl : s.impl h = some sock) :
    Owned { s with
      opened := Function.update s.opened sock.socket.val false
      past := .closed h :: s.past } := by
  constructor
  · exact ho.distinct
  · intro g i hi hc
    simp only [closedSince, Bool.or_eq_false_iff, decide_eq_false_iff_not] at hc
    obtain ⟨hne, hc⟩ := hc
    have hfd : i.socket.val ≠ sock.socket.val := fun heq => hne (ho.distinct hl hi heq.symm)
    change Function.update s.opened sock.socket.val false i.socket.val = true
    rw [Function.update_of_ne hfd]
    exact ho.opened hi hc

theorem Owned.destroy (ho : Owned s) (h : Handle) :
    Owned { s with impl := Function.update s.impl h none } := by
  have hold : ∀ {g i}, Function.update s.impl h none g = some i → s.impl g = some i := by
    intro g i hg
    rcases live_update hg with ⟨-, hnew⟩ | ⟨-, hold⟩
    · cases hnew
    · exact hold
  constructor
  · intro g k i j hi hj hij
    exact ho.distinct (hold hi) (hold hj) hij
  · intro g i hi hc
    exact ho.opened (hold hi) hc

theorem Owned.give (ho : Owned s) {h : Handle} {sock : SocketImpl} {past : List Deed}
    (hfd : s.opened sock.socket.val = false)
    (hfresh : ∀ g stale, s.impl g = some stale → closedSince g s.past = true →
      stale.socket.val ≠ sock.socket.val)
    (hpast : ∀ g, g ≠ h → closedSince g past = closedSince g s.past) :
    Owned { s with toSockets := s.give h sock, past := past } := by
  have hother : ∀ {g i}, g ≠ h → s.impl g = some i → i.socket.val ≠ sock.socket.val := by
    intro g i _ hi
    cases hc : closedSince g s.past with
    | true => exact hfresh g i hi hc
    | false =>
      have hopen := ho.opened hi hc
      intro heq
      rw [heq, hfd] at hopen
      cases hopen
  constructor
  · intro g k i j hi hj hij
    by_cases hg : g = h <;> by_cases hk : k = h <;>
      simp only [Sockets.give, hg, hk, Function.update_self, ne_eq, not_false_eq_true,
        Function.update_of_ne, Option.some.injEq] at hi hj ⊢
    · exact absurd (hi ▸ hij.symm) (hother hk hj)
    · exact absurd (hj ▸ hij) (hother hg hi)
    · exact ho.distinct hi hj hij
  · intro g i hi hc
    by_cases hg : g = h
    · simp only [Sockets.give, hg, Function.update_self, Option.some.injEq] at hi ⊢
      rw [hi, Function.update_self]
    · simp only [Sockets.give, Function.update_of_ne hg] at hi ⊢
      rw [Function.update_of_ne (hother hg hi)]
      exact ho.opened hi ((hpast g hg).symm.trans hc)

theorem Owned.step (ho : Owned s) (hok : FreshFd s call) (hs : system.step s call = some t) :
    Owned t := by
  obtain ⟨hg, -, he⟩ := step_spec hs
  cases he with
  | @create family socktype mem socket h sock hsock =>
    have hgiven : given s.toSockets (.create family socktype mem socket h) = some (h, sock) := by
      simp [given, hsock]
    refine ho.give (Grantable.given hg hgiven).2 (hok h sock hgiven) ?_
    intro g hne
    simp [closedSince, Ne.symm hne]
  | @accept g listener mem accept h sock hl hsock =>
    have hgiven : given s.toSockets (.accept g mem accept h) = some (h, sock) := by
      simp [given, hl, hsock]
    refine ho.give (Grantable.given hg hgiven).2 (hok h sock hgiven) ?_
    intro g hne
    simp [closedSince, Ne.symm hne]
  | close hl => exact ho.close hl
  | destroy => exact ho.destroy _
  | recv hl => exact ho.write hl rfl fun _ => rfl
  | enable hl => exact ho.write hl rfl fun _ => rfl
  | setEvent hl => exact ho.write hl rfl fun _ => rfl
  | report => exact ⟨ho.distinct, ho.opened⟩
  | nothing => exact ho

theorem not_isolated_give {h g : Handle} {sock stale : SocketImpl} {past : List Deed}
    (hfree : s.impl h = none) (hg : s.impl g = some stale)
    (heq : stale.socket.val = sock.socket.val) :
    ¬ Isolated { s with toSockets := s.give h sock, past := past } := by
  have hne : g ≠ h := by
    rintro rfl
    rw [hfree] at hg
    cases hg
  intro hiso
  apply hne
  apply hiso g h sock.socket.val
  · exact ⟨stale, by simp [Sockets.give, hne, hg], heq, by simp [Sockets.give]⟩
  · exact ⟨sock, by simp [Sockets.give], rfl, by simp [Sockets.give]⟩

theorem not_isolated_of_stale (hstale : ¬ FreshFd s call) (hs : system.step s call = some t) :
    ¬ Isolated t := by
  obtain ⟨hg, -, he⟩ := step_spec hs
  simp only [FreshFd, ne_eq, not_forall, not_not] at hstale
  obtain ⟨h, sock, hgiven, g, stale, hlive, -, heq⟩ := hstale
  have hfree := (Grantable.given hg hgiven).1
  cases he with
  | create hsock =>
    simp only [given, hsock, Option.map_some, Option.some.injEq, Prod.mk.injEq] at hgiven
    obtain ⟨rfl, rfl⟩ := hgiven
    exact not_isolated_give hfree hlive heq
  | accept hl hsock =>
    simp only [given, hl, hsock, Option.bind_some, Option.map_some, Option.some.injEq,
      Prod.mk.injEq] at hgiven
    obtain ⟨rfl, rfl⟩ := hgiven
    exact not_isolated_give hfree hlive heq
  | report hnone | nothing hnone =>
    rw [hnone] at hgiven
    cases hgiven
  | _ => cases hgiven

/-- No open descriptor is ever acted on through two handles exactly in the runs in
which the kernel never hands out the number of a live handle that was closed. -/
theorem descriptors_isolated_iff {calls : List Call} (hs : Fresh s)
    (hr : system.run s calls = some t) :
    system.Always Isolated s calls ↔ system.Each FreshFd s calls :=
  Machine.always_iff_each (fun _ => Owned.isolated) (fun _ _ _ => Owned.step)
    (fun _ _ _ _ => not_isolated_of_stale) hs.owned hr

def createAt (hNew : Handle) (fd : Int) : Call :=
  .create .ip .stream (some (memoryOf 0)) (fun _ _ _ => fd) hNew

theorem descriptors_isolated_reopen : ∃ t,
    system.run noSockets [createAt 1 3, .close 1, .destroy 1, createAt 2 3] = some t ∧
    (system.Always Isolated noSockets [createAt 1 3, .close 1, .destroy 1, createAt 2 3] ↔
      system.Each FreshFd noSockets [createAt 1 3, .close 1, .destroy 1, createAt 2 3]) := by
  have hrun : (system.run noSockets [createAt 1 3, .close 1, .destroy 1, createAt 2 3]).isSome := by
    decide
  obtain ⟨t, ht⟩ := Option.isSome_iff_exists.mp hrun
  exact ⟨t, ht, descriptors_isolated_iff noSockets_fresh ht⟩

/-- The first handle is closed and not destroyed when the second gets its number. -/
theorem descriptors_shared : ¬ ∀ (s t : System) (calls : List Call), Fresh s →
    system.run s calls = some t → system.Always Isolated s calls := by
  intro hall
  have hrun : (system.run noSockets [createAt 1 3, .close 1, createAt 2 3]).map
      (fun t => ((t.impl 1).map (·.socket.val), (t.impl 2).map (·.socket.val), t.opened 3)) =
      some (some 3, some 3, true) := by decide
  obtain ⟨t, ht, hlast⟩ := Option.map_eq_some_iff.mp hrun
  simp only [Prod.mk.injEq, Option.map_eq_some_iff] at hlast
  obtain ⟨⟨i, hi, hifd⟩, ⟨j, hj, hjfd⟩, hopen⟩ := hlast
  have hiso := (hall _ t _ noSockets_fresh ht).last ht
  have heq := hiso 1 2 3 ⟨i, hi, hifd, hopen⟩ ⟨j, hj, hjfd, hopen⟩
  cases heq

end CoreAndroid.Socket
