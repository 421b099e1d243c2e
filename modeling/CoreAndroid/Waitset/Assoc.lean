import CoreAndroid.Waitset.NoLostEvent

/-! Events that change hands. `ofc_waitset_set_assoc_impl` gives the event behind a handle to a
set without a look at it, and `ofc_waitset_add_impl` may be called for another set. An event
tells the last set that it was given to, and no other. -/
namespace CoreAndroid.Waitset

variable {config : Config} {Tid : Type} [DecidableEq Tid] {s s' : State Tid}

section Source

/-- The event that `ofc_waitset_set_assoc_impl` gives the set to. An event that is a member by
itself stays where it is. -/
def assocEvent (core : Core) (build : Build) (h : Handle) : Option Handle :=
  match core.handleType h with
  | .waitQueue => some (core.waitqEvent h)
  | .fsresolverOverlapped =>
      if build.resolverFs then some (core.resolverOverlappedEvent h) else none
  | .fsandroidOverlapped =>
      if build.fsAndroid then some (core.androidOverlappedEvent h) else none
  | .fssmbOverlapped => some (core.overlappedEvent h)
  | .waitSet | .sched | .app | .thread | .pipe | .mailslot | .fswin32File | .fsandroidFile
  | .queue | .other | .event | .file | .socket | .timer => none

inductive AssocAction (Tid : Type) where
  | base (a : Action Tid)
  -- `ofc_waitset_set_assoc_impl`, with this set or with another one
  | setAssoc (h : Handle) (here : Bool)
  -- `ofc_waitset_add_impl` for another set. Its test and its signal are not of this set
  | addElsewhere (h : Handle)

def State.setApp (s : State Tid) (here : Bool) : Option Handle → State Tid
  | some hAssoc =>
      { s with shared :=
        { s.shared with hasSet := Function.update s.shared.hasSet hAssoc here } }
  | none => s

variable (config)

def assocSystem : Machine (State Tid) (AssocAction Tid) where
  init := Created config
  step s
    | .base a => step config s a
    | .setAssoc h here => some (s.setApp here (assocEvent config.core config.build h))
    | .addElsewhere h => some (s.setApp false (addAssoc config.core config.build h))

end Source

section Spec
variable (config)

def BehindMember (s : Shared) (hEvent : Handle) : Prop :=
  ∃ h ∈ s.hHandleQueue, ∃ b, backing config.core config.build h = some b ∧ b.event = hEvent

def Used (s : State Tid) : AssocAction Tid → Prop
  | .base a => Allowed config s a
  | _ => True

/-- The set is used as before, and no event behind a member is given to another set. -/
def KeepsEvents (s : State Tid) : AssocAction Tid → Prop
  | .base a => Allowed config s a
  | .setAssoc h here => here = true ∨ ∀ hAssoc ∈ assocEvent config.core config.build h,
      ¬ BehindMember config s.shared hAssoc
  | .addElsewhere h => ∀ hAssoc ∈ addAssoc config.core config.build h,
      ¬ BehindMember config s.shared hAssoc

/-- The wait is blocked, nobody is in a call and no member is ready. -/
structure Asleep (s : State Tid) : Prop where
  blocked : Blocked s.shared.world s.waiter
  quiet : ∀ t, s.thread t = .idle
  unready : ∀ h ∈ s.shared.hHandleQueue, ∀ b, backing config.core config.build h = some b →
    b.ready s.shared.world = false

/-- Each event behind a member has this set. -/
def Given (s : State Tid) : Prop :=
  ∀ h ∈ s.shared.hHandleQueue, ∀ b, backing config.core config.build h = some b →
    s.shared.hasSet b.event = true

end Spec

section Safe

structure Standing (config : Config) (s : State Tid) : Prop where
  shape : Shape config s
  kept : Kept config s
  flagged : Flagged config s

theorem Standing.step (hi : Standing config s) (h : Effect config s s') : Standing config s' :=
  ⟨hi.shape.step h, hi.kept.step h, hi.flagged.step hi.shape hi.kept h⟩

theorem Inv.step (hstd : Standard config) (hcap : 0 < config.capacity) (hi : Inv config s)
    (h : Effect config s s') : Inv config s' where
  shape := hi.shape.step h
  registered := hi.registered.step hstd hi.shape h
  kept := hi.kept.step h
  flagged := hi.flagged.step hi.shape hi.kept h
  heard := hi.heard.step hstd hcap hi.shape hi.registered hi.flagged h

omit [DecidableEq Tid] in
theorem Standing.setApp (hi : Standing config s) (here : Bool) (event : Option Handle) :
    Standing config (s.setApp here event) := by
  cases event with
  | none => exact hi
  | some hAssoc =>
    obtain ⟨⟨hnonnull, hplace, hfound, hknown, hplain, hadding⟩, hkept, hflagged⟩ := hi
    exact ⟨⟨hnonnull, hplace, hfound, hknown, hplain, hadding⟩, hkept, hflagged⟩

omit [DecidableEq Tid] in
theorem Inv.setApp (hi : Inv config s) {here : Bool} {event : Option Handle}
    (hok : here = true ∨ ∀ hAssoc ∈ event, ¬ BehindMember config s.shared hAssoc) :
    Inv config (s.setApp here event) := by
  obtain ⟨hshape, hkept, hflagged⟩ :=
    (Standing.mk hi.shape hi.kept hi.flagged).setApp here event
  cases event with
  | none => exact hi
  | some hAssoc =>
    refine ⟨hshape, ?_, hkept, hflagged, hi.heard⟩
    intro h hh b hb
    rcases hi.registered h hh b hb with hset | hwill
    · left
      by_cases hsame : b.event = hAssoc
      · have hhere : here = true :=
          hok.resolve_right fun hfree => hfree hAssoc rfl ⟨h, hh, b, hb, hsame⟩
        simp [State.setApp, hsame, hhere]
      · simpa [State.setApp, Function.update_of_ne hsame] using hset
    · exact .inr hwill

theorem Inv.assoc (hstd : Standard config) (hcap : 0 < config.capacity) (hi : Inv config s)
    {a : AssocAction Tid} (hok : KeepsEvents config s a)
    (h : (assocSystem config).step s a = some s') : Inv config s' := by
  cases a with
  | base a => exact hi.step hstd hcap (step_effect hok h)
  | setAssoc g here =>
    obtain rfl := Option.some.inj h
    exact hi.setApp hok
  | addElsewhere g =>
    obtain rfl := Option.some.inj h
    exact hi.setApp (.inr hok)

theorem standing_reach (h : (assocSystem config).ReachWhere (Used config) s) :
    Standing config s := by
  apply h.invariant
  · exact fun s hs => ⟨hs.inv.shape, hs.inv.kept, hs.inv.flagged⟩
  · intro s a s' _ hi hok hs
    cases a with
    | base a => exact hi.step (step_effect hok hs)
    | setAssoc g here =>
      obtain rfl := Option.some.inj hs
      exact hi.setApp here _
    | addElsewhere g =>
      obtain rfl := Option.some.inj hs
      exact hi.setApp false _

omit [DecidableEq Tid] in
theorem Standing.inv (hi : Standing config s) (hasleep : Asleep config s)
    (hgiven : Given config s) : Inv config s where
  shape := hi.shape
  registered h hh b hb := .inl (hgiven h hh b hb)
  kept := hi.kept
  flagged := hi.flagged
  heard _ i h b hget _ hb hready := by
    rw [hasleep.unready h (List.mem_of_getElem? hget) b hb] at hready
    cases hready

end Safe

section Lost

def Backing.rouse (b : Backing) : Op :=
  match b.queue with
  | some q => .put q
  | none => .set b.event

def Backing.rousing (t : Tid) (b : Backing) : List (AssocAction Tid) :=
  [.base (.call t b.rouse), .base (.run t), .base (.run t), .base (.run t)]

theorem roused (t : Tid) {h : Handle} {b : Backing}
    (hb : backing config.core config.build h = some b) (hidle : s.thread t = .idle)
    (hgone : s.shared.hasSet b.event = false) :
    ∃ s', (assocSystem config).run s (b.rousing t) = some s' ∧ s'.waiter = s.waiter ∧
      s'.thread = s.thread ∧ s'.shared.hHandleQueue = s.shared.hHandleQueue ∧
      s'.shared.world.pipe = s.shared.world.pipe ∧ b.ready s'.shared.world = true := by
  have hthread : Function.update s.thread t .idle = s.thread := by
    rw [← hidle, Function.update_eq_self]
  unfold Backing.rousing Backing.rouse
  cases hq : b.queue with
  | none =>
    refine ⟨{ s with shared := { s.shared with world := s.shared.world.set b.event } }, ?_, rfl,
      rfl, rfl, rfl, by simp [Backing.ready, hq, World.set]⟩
    simp [Machine.run, assocSystem, step, hidle, enter, exec, hgone, hthread]
  | some q =>
    have hevent := backing_queue hb hq
    refine ⟨{ s with shared := { s.shared with world := (s.shared.world.put q).set b.event } }, ?_,
      rfl, rfl, rfl, rfl, by simp [Backing.ready, hq, World.set, World.put, World.waitqEmpty]⟩
    rw [hevent] at hgone
    simp [Machine.run, assocSystem, step, hidle, enter, exec, hgone, hthread, hevent]

theorem rousing_keepsEvents {h : Handle} {b : Backing} (t : Tid)
    (hh : h ∈ s.shared.hHandleQueue) (hb : backing config.core config.build h = some b) :
    (assocSystem config).Each (KeepsEvents config) s (b.rousing t) := by
  have hcall : Allowed config s (.call t b.rouse) := by
    unfold Backing.rouse
    cases hq : b.queue with
    | none => exact trivial
    | some q => exact fun o _ _ => .inl ⟨h, hh, b, hb, hq⟩
  refine ⟨hcall, ?_⟩
  simp [Machine.Each, KeepsEvents, Allowed]

theorem Asleep.given (t : Tid) (hasleep : Asleep config s)
    (hkept : ∀ as s', (assocSystem config).Each (KeepsEvents config) s as →
      (assocSystem config).run s as = some s' → NoneLost config s') : Given config s := by
  intro h hh b hb
  by_contra hgone
  obtain ⟨s', hrun, hwaiter, hthread, hmembers, hpipe, hready⟩ :=
    roused t hb (hasleep.quiet t) (Bool.eq_false_of_not_eq_true hgone)
  have hblocked : Blocked s'.shared.world s'.waiter := by
    obtain ⟨hpoll, hempty⟩ := hasleep.blocked
    exact ⟨hwaiter ▸ hpoll, hpipe.trans hempty⟩
  have hnone := hkept (b.rousing t) s' (rousing_keepsEvents t hh hb) hrun
  obtain ⟨u, hu⟩ := hnone hblocked h (hmembers ▸ hh) b hb hready
  rw [hthread, hasleep.quiet u] at hu
  exact hu

/-- While no event behind a member is given to another set, no event is lost, whatever else is
given to any set. The condition is needed: of a wait that sleeps, no event will be lost
exactly if the events behind all members have this set. -/
theorem events_kept_iff (config : Config) (hstd : Standard config) (hcap : 0 < config.capacity) :
    (∀ s : State Tid, (assocSystem config).ReachWhere (KeepsEvents config) s → NoneLost config s) ∧
    ∀ (_ : Tid) (s : State Tid), (assocSystem config).ReachWhere (Used config) s →
      Asleep config s →
        ((∀ as s', (assocSystem config).Each (KeepsEvents config) s as →
          (assocSystem config).run s as = some s' → NoneLost config s') ↔ Given config s) := by
  have hstep : ∀ (s : State Tid) a s', Inv config s → KeepsEvents config s a →
      (assocSystem config).step s a = some s' → Inv config s' :=
    fun s a s' hi hok hs => hi.assoc hstd hcap hok hs
  constructor
  · intro s h
    have hi : Inv config s := by
      apply h.invariant
      · exact fun s hs => Created.inv hs
      · exact fun s a s' _ hi hok hs => hstep s a s' hi hok hs
    exact hi.noneLost
  · intro t s h hasleep
    refine ⟨hasleep.given t, ?_⟩
    intro hgiven as s' heach hrun
    have hi := (standing_reach h).inv hasleep hgiven
    exact (heach.keeps hstep hi hrun).noneLost

theorem events_kept_overlapped : ∃ s s' : State (Fin 2),
    (assocSystem oneOverlapped).step s (.setAssoc 6 false) = some s' ∧
    (∀ as t, (assocSystem oneOverlapped).Each (KeepsEvents oneOverlapped) s as →
      (assocSystem oneOverlapped).run s as = some t → NoneLost oneOverlapped t) ∧
    ¬ ∀ as t, (assocSystem oneOverlapped).Each (KeepsEvents oneOverlapped) s' as →
      (assocSystem oneOverlapped).run s' as = some t → NoneLost oneOverlapped t := by
  have hrun : ((assocSystem oneOverlapped).run quietSet (addThenBlock.map .base)).map (fun s =>
      (s.waiter.atPoll, s.shared.world.pipe, s.shared.hHandleQueue, s.shared.world.items 5,
        s.shared.hasSet 7, decide (∀ t, s.thread t = .idle))) =
      some (true, [], [6], 0, true, true) := by decide
  obtain ⟨s, hs, hlast⟩ := Option.map_eq_some_iff.mp hrun
  simp only [Prod.mk.injEq, decide_eq_true_eq] at hlast
  obtain ⟨hpoll, hempty, hmembers, hitems, hset, hquiet⟩ := hlast
  have hstd : Standard oneOverlapped := ⟨fun _ _ => rfl⟩
  have hused : ∀ a ∈ addThenBlock.map .base, ∀ s, Used oneOverlapped s a := by
    intro a ha s
    obtain ⟨b, hb, rfl⟩ := List.mem_map.mp ha
    exact addThenBlock_allowed b hb s
  have hinit : (assocSystem oneOverlapped).ReachWhere (Used oneOverlapped) quietSet :=
    .init ⟨rfl, rfl, rfl, rfl, fun _ _ hitems => absurd rfl hitems⟩
  have hreach := hinit.run hused hs
  have hmember : ∀ h ∈ s.shared.hHandleQueue, ∀ b,
      backing oneOverlapped.core oneOverlapped.build h = some b → b = ⟨7, some 5⟩ := by
    intro h hh b hb
    obtain rfl : h = 6 := by simpa [hmembers] using hh
    exact (Option.some.inj hb).symm
  have hasleep : Asleep oneOverlapped s := by
    refine ⟨blocked_of_atPoll hpoll hempty, hquiet, ?_⟩
    intro h hh b hb
    simp [hmember h hh b hb, Backing.ready, World.waitqEmpty, hitems]
  have hgiven : Given oneOverlapped s := by
    intro h hh b hb
    simpa [hmember h hh b hb] using hset
  have htaken : (assocSystem oneOverlapped).step s (.setAssoc 6 false) =
      some (s.setApp false (some 7)) := rfl
  refine ⟨s, s.setApp false (some 7), htaken, ?_, ?_⟩
  · exact ((events_kept_iff oneOverlapped hstd Nat.one_pos).2 0 s hreach hasleep).mpr hgiven
  · have hgone : ¬ Given oneOverlapped (s.setApp false (some 7)) := by
      intro hgiven
      have hseven := hgiven 6 (by simp [State.setApp, hmembers]) ⟨7, some 5⟩ rfl
      simp [State.setApp] at hseven
    have hfree : Used oneOverlapped s (.setAssoc 6 false) := trivial
    have hreach' := hreach.step hfree htaken
    have hasleep' : Asleep oneOverlapped (s.setApp false (some 7)) :=
      ⟨hasleep.blocked, hasleep.quiet, hasleep.unready⟩
    exact fun hkept => hgone
      (((events_kept_iff oneOverlapped hstd Nat.one_pos).2 0 _ hreach' hasleep').mp hkept)

end Lost

end CoreAndroid.Waitset
