import CoreAndroid.Lib.Machine
import CoreAndroid.Lib.RecursiveMutex

/-! The locks of lock_android.c: recursive mutexes, of which `ofc_lock_impl` does not look at what
locking returns. In a build with `OFC_STACK_TRACE` a lock has a note of its last caller. -/
namespace CoreAndroid.Lock

section Source

structure Config (Site : Type) where
  limit : Nat -- how often one thread may lock a mutex
  stackTrace : Bool -- `OFC_STACK_TRACE` is defined
  relativeAddr : Site → Site -- `ofc_process_relative_addr`

inductive Op where
  | tryLock
  | lock
  | unlock
  deriving DecidableEq

/-- Where a thread stands in a call that was made at a site. -/
inductive Pc (Site : Type) where
  | outside
  | tryLock (site : Site) -- at `pthread_mutex_trylock`
  | lock (site : Site) -- at `pthread_mutex_lock`
  | noteLock (site : Site) -- the mutex was locked, and the note of the caller is next
  | noteUnlock (site : Site)
  | unlock -- at `pthread_mutex_unlock`
  deriving DecidableEq

structure State (Tid Site : Type) where
  mutexLock : RecursiveMutex Tid
  caller : Option Site
  pc : Tid → Pc Site
  told : Tid → Nat -- how often a thread was told that it has the lock, less its unlocks
  writer : Option Tid -- who wrote the note

inductive Action (Tid Site : Type) where
  | call (t : Tid) (op : Op) (site : Site)
  | run (t : Tid)

variable {Tid Site : Type} [DecidableEq Tid] (config : Config Site)

def Op.start (site : Site) : Op → Pc Site
  | .tryLock => .tryLock site
  | .lock => .lock site
  | .unlock => if config.stackTrace then .noteUnlock site else .unlock

def locked (site : Site) : Pc Site := if config.stackTrace then .noteLock site else .outside

def threadStep (s : State Tid Site) (t : Tid) : Pc Site → Option (State Tid Site)
  | .outside => none
  | .tryLock site =>
      let (mutexLock, ok) := s.mutexLock.tryLock config.limit t
      some (if ok then
        { s with
          mutexLock
          pc := Function.update s.pc t (locked config site)
          told := Function.update s.told t (s.told t + 1) }
      else { s with mutexLock, pc := Function.update s.pc t .outside })
  | .lock site =>
      -- the result is not looked at
      (s.mutexLock.lock config.limit t).map fun (mutexLock, _) =>
        { s with
          mutexLock
          pc := Function.update s.pc t (locked config site)
          told := Function.update s.told t (s.told t + 1) }
  | .noteLock site =>
      some { s with
        caller := some (config.relativeAddr site)
        writer := some t
        pc := Function.update s.pc t .outside }
  | .noteUnlock site =>
      some { s with
        caller := some (config.relativeAddr site)
        writer := some t
        pc := Function.update s.pc t .unlock }
  | .unlock =>
      some { s with
        mutexLock := s.mutexLock.unlock t
        pc := Function.update s.pc t .outside
        told := Function.update s.told t (s.told t - 1) }

def system : Machine (State Tid Site) (Action Tid Site) where
  init s := s.mutexLock = ⟨none⟩ ∧ s.caller = none ∧ s.writer = none ∧
    ∀ t, s.pc t = .outside ∧ s.told t = 0
  step s
    | .call t op site =>
        match s.pc t with
        | .outside => some { s with pc := Function.update s.pc t (op.start config site) }
        | _ => none
    | .run t => threadStep config s t (s.pc t)

end Source

section Spec
variable {Tid Site : Type} [DecidableEq Tid] (config : Config Site)

/-- The threads that were told that they have the lock hold the mutex, as often as they were
told, and there is one such thread at most. -/
structure Exclusive (s : State Tid Site) : Prop where
  told : s.told = s.mutexLock.depth
  one : ∀ t u, s.told t ≠ 0 → s.told u ≠ 0 → t = u

/-- A call of `ofc_lock_impl` by a thread that has the lock already does not meet the limit. -/
def WithinLimit (s : State Tid Site) : Action Tid Site → Prop
  | .call .. => True
  | .run t => ∀ site, s.pc t = .lock site → s.mutexLock.depth t ≠ 0 →
      s.mutexLock.depth t < config.limit

def Pc.noting : Pc Site → Prop
  | .noteLock _ => True
  | _ => False

/-- The note of the last caller was written by the thread that has the lock. -/
def Noted (s : State Tid Site) : Prop :=
  ∀ t, s.told t ≠ 0 → ¬ (s.pc t).noting → s.writer = some t

/-- An unlock writes its note only if no other thread has the lock with its note written. -/
def OwnNote (s : State Tid Site) : Action Tid Site → Prop
  | .call .. => True
  | .run t => ∀ site, s.pc t = .noteUnlock site → ∀ u, u ≠ t → s.told u ≠ 0 → (s.pc u).noting

end Spec

section Exclusion
variable {Tid Site : Type} [DecidableEq Tid] {config : Config Site} {s s' : State Tid Site}
  {t : Tid}

theorem exclusive_of_told (h : s.told = s.mutexLock.depth) : Exclusive s := by
  refine ⟨h, ?_⟩
  intro t u ht hu
  rw [h] at ht hu
  exact RecursiveMutex.depth_unique ht hu

theorem withinLimit_of_pc (h : ∀ site, s.pc t ≠ .lock site) :
    WithinLimit config s (.run t) :=
  fun site hpc => absurd hpc (h site)

theorem told_step_iff (hs : s.told = s.mutexLock.depth)
    (h : threadStep config s t (s.pc t) = some s') :
    s'.told = s'.mutexLock.depth ↔ WithinLimit config s (.run t) := by
  cases hpc : s.pc t with
  | outside =>
    rw [hpc] at h
    cases h
  | tryLock site =>
    refine iff_of_true ?_ (withinLimit_of_pc (by simp [hpc]))
    rw [hpc] at h
    have hdepth := RecursiveMutex.tryLock_depth config.limit s.mutexLock t
    dsimp only [threadStep] at h
    by_cases hok : (s.mutexLock.tryLock config.limit t).2 = true
    · rw [if_pos hok] at h hdepth
      cases h
      exact hdepth ▸ hs ▸ rfl
    · rw [if_neg hok] at h hdepth
      cases h
      exact hs.trans hdepth.symm
  | lock site =>
    rw [hpc] at h
    obtain ⟨⟨mutexLock, ok⟩, hlock, rfl⟩ := Option.map_eq_some_iff.mp h
    have hdepth := RecursiveMutex.lock_depth hlock
    have hwithin : WithinLimit config s (.run t) ↔
        (s.mutexLock.depth t ≠ 0 → s.mutexLock.depth t < config.limit) := by
      constructor
      · exact fun hall => hall site hpc
      · exact fun hall _ _ => hall
    rw [hwithin]
    dsimp only
    split at hdepth
    · rename_i hlimit
      exact iff_of_true (hdepth.2 ▸ hs ▸ rfl) hlimit
    · rename_i hlimit
      obtain ⟨-, rfl⟩ := hdepth
      refine iff_of_false ?_ hlimit
      intro hsame
      have ht := congrFun hsame t
      rw [Function.update_self, ← hs] at ht
      exact Nat.succ_ne_self _ ht
  | noteLock site | noteUnlock site =>
    refine iff_of_true ?_ (withinLimit_of_pc (by simp [hpc]))
    rw [hpc] at h
    cases h
    exact hs
  | unlock =>
    refine iff_of_true ?_ (withinLimit_of_pc (by simp [hpc]))
    rw [hpc] at h
    cases h
    dsimp only
    rw [RecursiveMutex.unlock_depth, hs]

theorem call_step {op : Op} {site : Site} (h : (system config).step s (.call t op site) = some s') :
    s.pc t = .outside ∧ s' = { s with pc := Function.update s.pc t (op.start config site) } := by
  dsimp only [system] at h
  split at h
  · rename_i hpc
    cases h
    exact ⟨hpc, rfl⟩
  · cases h

theorem told_iff_withinLimit (hs : s.told = s.mutexLock.depth) {a : Action Tid Site}
    (h : (system config).step s a = some s') :
    s'.told = s'.mutexLock.depth ↔ WithinLimit config s a := by
  cases a with
  | call t op site =>
    obtain ⟨-, rfl⟩ := call_step h
    exact iff_of_true hs trivial
  | run t => exact told_step_iff hs h

theorem told_init (h : (system config).init s) : s.told = s.mutexLock.depth := by
  obtain ⟨hfree, -, -, hidle⟩ := h
  funext t
  rw [hfree]
  exact (hidle t).2

/-- Along every run one thread at most has the lock, and holds the mutex as often as it was
told, exactly if no thread locks the lock past the limit through `ofc_lock_impl`. -/
theorem lock_exclusive_iff {start : State Tid Site} (hstart : (system config).init start)
    {as : List (Action Tid Site)} {s : State Tid Site}
    (hr : (system config).run start as = some s) :
    (system config).Always Exclusive start as ↔
      (system config).Each (WithinLimit config) start as := by
  have hinit : Exclusive start := exclusive_of_told (told_init hstart)
  refine Machine.always_iff_each (fun s hs => hs) ?_ ?_ hinit hr
  · exact fun s a s' hs hok hstep =>
      exclusive_of_told ((told_iff_withinLimit hs.told hstep).mpr hok)
  · exact fun s a s' hs hno hstep hex => hno ((told_iff_withinLimit hs.told hstep).mp hex.told)

end Exclusion

section Note
variable {Tid Site : Type} [DecidableEq Tid] {config : Config Site} {s s' : State Tid Site}
  {t u : Tid}

structure NoteInv (s : State Tid Site) : Prop where
  told : s.told = s.mutexLock.depth
  noting : ∀ t, (s.pc t).noting → s.told t ≠ 0
  noted : Noted s

structure NoteStep (s s' : State Tid Site) (t : Tid) : Prop where
  others : ∀ u, u ≠ t → s'.pc u = s.pc u ∧ s'.told u = s.told u
  noting : (s'.pc t).noting → s'.told t ≠ 0
  keeps : s'.told t ≠ 0 → ¬ (s'.pc t).noting → s'.writer = some t ∨
    s'.writer = s.writer ∧ s.told t ≠ 0 ∧ ¬ (s.pc t).noting
  writes : s'.writer = s.writer ∨ (s.pc t).noting ∨ ∃ site, s.pc t = .noteUnlock site

theorem noteStep_of_update {pc : Pc Site} {told : Nat} (hpc : s'.pc = Function.update s.pc t pc)
    (htold : s'.told = Function.update s.told t told) (hnoting : pc.noting → told ≠ 0)
    (hkeeps : told ≠ 0 → ¬ pc.noting → s'.writer = some t ∨
      s'.writer = s.writer ∧ s.told t ≠ 0 ∧ ¬ (s.pc t).noting)
    (hwrites : s'.writer = s.writer ∨ (s.pc t).noting ∨ ∃ site, s.pc t = .noteUnlock site) :
    NoteStep s s' t := by
  refine ⟨?_, ?_, ?_, hwrites⟩
  · intro u hut
    rw [hpc, htold, Function.update_of_ne hut, Function.update_of_ne hut]
    exact ⟨rfl, rfl⟩
  · rwa [hpc, htold, Function.update_self, Function.update_self]
  · rwa [hpc, htold, Function.update_self, Function.update_self]

theorem locked_noting (htrace : config.stackTrace = true) (site : Site) :
    (locked config site).noting := by
  rw [locked, if_pos htrace]
  trivial

theorem noteStep_run (htrace : config.stackTrace = true)
    (h : threadStep config s t (s.pc t) = some s') : NoteStep s s' t := by
  cases hpc : s.pc t with
  | outside =>
    rw [hpc] at h
    cases h
  | tryLock site =>
    rw [hpc] at h
    dsimp only [threadStep] at h
    by_cases hok : (s.mutexLock.tryLock config.limit t).2 = true
    · rw [if_pos hok] at h
      cases h
      exact noteStep_of_update rfl rfl (fun _ => Nat.succ_ne_zero _)
        (fun _ hno => absurd (locked_noting htrace site) hno) (.inl rfl)
    · rw [if_neg hok] at h
      cases h
      exact noteStep_of_update rfl (Function.update_eq_self t _).symm (fun hno => hno.elim)
        (fun hne _ => .inr ⟨rfl, hne, hpc ▸ id⟩) (.inl rfl)
  | lock site =>
    rw [hpc] at h
    obtain ⟨⟨mutexLock, ok⟩, -, rfl⟩ := Option.map_eq_some_iff.mp h
    exact noteStep_of_update rfl rfl (fun _ => Nat.succ_ne_zero _)
      (fun _ hno => absurd (locked_noting htrace site) hno) (.inl rfl)
  | noteLock site =>
    rw [hpc] at h
    cases h
    exact noteStep_of_update rfl (Function.update_eq_self t _).symm (fun hno => hno.elim)
      (fun _ _ => .inl rfl) (.inr (.inl (hpc ▸ trivial)))
  | noteUnlock site =>
    rw [hpc] at h
    cases h
    exact noteStep_of_update rfl (Function.update_eq_self t _).symm (fun hno => hno.elim)
      (fun _ _ => .inl rfl) (.inr (.inr ⟨site, hpc⟩))
  | unlock =>
    rw [hpc] at h
    cases h
    exact noteStep_of_update rfl rfl (fun hno => hno.elim)
      (fun hne _ => .inr ⟨rfl, fun hzero => hne (by rw [hzero]), hpc ▸ id⟩) (.inl rfl)

theorem noteStep_call (htrace : config.stackTrace = true) {op : Op} {site : Site}
    (h : (system config).step s (.call t op site) = some s') : NoteStep s s' t := by
  obtain ⟨hpc, rfl⟩ := call_step h
  have hstart : ¬ (op.start config site).noting := by
    cases op with
    | tryLock | lock => exact id
    | unlock =>
      rw [Op.start, if_pos htrace]
      exact id
  exact noteStep_of_update rfl (Function.update_eq_self t _).symm (fun hno => absurd hno hstart)
    (fun hne _ => .inr ⟨rfl, hne, hpc ▸ id⟩) (.inl rfl)

theorem NoteInv.step (hi : NoteInv s) (hstep : NoteStep s s' t)
    (htold : s'.told = s'.mutexLock.depth)
    (hown : ∀ site, s.pc t = .noteUnlock site → ∀ u, u ≠ t → s.told u ≠ 0 → (s.pc u).noting) :
    NoteInv s' := by
  refine ⟨htold, ?_, ?_⟩
  · intro u hu
    by_cases hut : u = t
    · subst hut
      exact hstep.noting hu
    · obtain ⟨hpc, hsame⟩ := hstep.others u hut
      rw [hpc] at hu
      rw [hsame]
      exact hi.noting u hu
  · intro u hne hno
    by_cases hut : u = t
    · subst hut
      rcases hstep.keeps hne hno with hwriter | ⟨hwriter, hne, hno⟩
      · exact hwriter
      · exact hwriter.trans (hi.noted u hne hno)
    · obtain ⟨hpc, hsame⟩ := hstep.others u hut
      rw [hsame] at hne
      rw [hpc] at hno
      rcases hstep.writes with hwriter | hnoting | ⟨site, hpc⟩
      · exact hwriter.trans (hi.noted u hne hno)
      · exact absurd ((exclusive_of_told hi.told).one u t hne (hi.noting t hnoting)) hut
      · exact absurd (hown site hpc u hut hne) hno

theorem not_noted_of_foreign {site : Site} (hpc : s.pc t = .noteUnlock site)
    (h : threadStep config s t (s.pc t) = some s') (hut : u ≠ t) (hne : s.told u ≠ 0)
    (hno : ¬ (s.pc u).noting) : ¬ Noted s' := by
  rw [hpc] at h
  cases h
  intro hnoted
  have hwriter := hnoted u hne (by dsimp only; rwa [Function.update_of_ne hut])
  injection hwriter with hwriter
  exact hut hwriter.symm

/-- In a build with the notes, one thread at most has the lock and the note is its own, in every
state of a run, exactly if no thread locks past the limit and no unlock writes its note while
another thread has the lock. -/
theorem lock_noted_iff (htrace : config.stackTrace = true) {start : State Tid Site}
    (hstart : (system config).init start) {as : List (Action Tid Site)} {s : State Tid Site}
    (hr : (system config).run start as = some s) :
    (system config).Always (fun s => Exclusive s ∧ Noted s) start as ↔
      (system config).Each (fun s a => WithinLimit config s a ∧ OwnNote s a) start as := by
  have hinit : NoteInv start := by
    refine ⟨told_init hstart, ?_, ?_⟩
    · intro t hnoting
      rw [(hstart.2.2.2 t).1] at hnoting
      exact hnoting.elim
    · exact fun t hne _ => absurd (hstart.2.2.2 t).2 hne
  refine Machine.always_iff_each ?_ ?_ ?_ hinit hr
  · exact fun s hi => ⟨exclusive_of_told hi.told, hi.noted⟩
  · rintro s a s' hi ⟨hlimit, hown⟩ hstep
    have htold := (told_iff_withinLimit hi.told hstep).mpr hlimit
    cases a with
    | call t op site =>
      have hnot : ∀ site, s.pc t ≠ .noteUnlock site := by
        intro site hpc
        rw [(call_step hstep).1] at hpc
        cases hpc
      exact hi.step (noteStep_call htrace hstep) htold fun site hpc => absurd hpc (hnot site)
    | run t => exact hi.step (noteStep_run htrace hstep) htold hown
  · rintro s a s' hi hno hstep ⟨hex, hnoted⟩
    have hlimit := (told_iff_withinLimit hi.told hstep).mp hex.told
    cases a with
    | call t op site => exact hno ⟨hlimit, trivial⟩
    | run t =>
      refine hno ⟨hlimit, ?_⟩
      intro site hpc u hut hne
      by_contra hnone
      exact not_noted_of_foreign hpc hstep hut hne hnone hnoted

end Note

section Pair

def twice : Config Nat := { limit := 2, stackTrace := true, relativeAddr := id }

def unlockedPair : State Bool Nat :=
  { mutexLock := ⟨none⟩, caller := none, pc := fun _ => .outside, told := fun _ => 0,
    writer := none }

instance (s : State Bool Nat) : ∀ a, Decidable (WithinLimit twice s a)
  | .call .. => inferInstanceAs (Decidable True)
  | .run t =>
      match h : s.pc t with
      | .lock site => decidable_of_iff (s.mutexLock.depth t ≠ 0 → s.mutexLock.depth t < 2)
          ⟨fun hall _ _ => hall, fun hall => hall site h⟩
      | .outside | .tryLock _ | .noteLock _ | .noteUnlock _ | .unlock =>
          isTrue fun site hpc => by rw [h] at hpc; cases hpc

instance : DecidablePred (@Pc.noting Nat)
  | .noteLock _ => isTrue trivial
  | .outside | .tryLock _ | .lock _ | .noteUnlock _ | .unlock => isFalse id

instance (s : State Bool Nat) : ∀ a, Decidable (OwnNote s a)
  | .call .. => inferInstanceAs (Decidable True)
  | .run t =>
      match h : s.pc t with
      | .noteUnlock site => decidable_of_iff (∀ u, u ≠ t → s.told u ≠ 0 → (s.pc u).noting)
          ⟨fun hall _ _ => hall, fun hall => hall site h⟩
      | .outside | .tryLock _ | .lock _ | .noteLock _ | .unlock =>
          isTrue fun site hpc => by rw [h] at hpc; cases hpc

def whole (t : Bool) (op : Op) (site : Nat) : List (Action Bool Nat) :=
  [.call t op site, .run t, .run t]

def nested : List (Action Bool Nat) :=
  whole false .lock 10 ++ [.call true .tryLock 20, .run true] ++ whole false .lock 11 ++
    whole false .unlock 12 ++ whole false .unlock 13 ++ whole true .lock 21

theorem lock_exclusive_nested : ∃ s, (system twice).run unlockedPair nested = some s ∧
    (system twice).Always Exclusive unlockedPair nested := by
  have hinit : (system twice).init unlockedPair := ⟨rfl, rfl, rfl, fun _ => ⟨rfl, rfl⟩⟩
  have hsome : ((system twice).runWhere (WithinLimit twice) unlockedPair nested).isSome = true := by
    decide
  obtain ⟨s, hs⟩ := Option.isSome_iff_exists.mp hsome
  have hr := Machine.run_of_runWhere hs
  exact ⟨s, hr, (lock_exclusive_iff hinit hr).mpr (Machine.each_of_runWhere hs)⟩

-- after three locks through `ofc_lock_impl` two unlocks let the other thread in
example : ((system twice).run unlockedPair
    (whole false .lock 10 ++ whole false .lock 11 ++ whole false .lock 12 ++
      whole false .unlock 13 ++ whole false .unlock 14 ++ whole true .lock 20)).map
    (fun s => (s.told false, s.told true)) = some (1, 1) := by decide

theorem lock_noted_nested : ∃ s, (system twice).run unlockedPair nested = some s ∧
    (system twice).Always (fun s => Exclusive s ∧ Noted s) unlockedPair nested := by
  have hinit : (system twice).init unlockedPair := ⟨rfl, rfl, rfl, fun _ => ⟨rfl, rfl⟩⟩
  have hsome : ((system twice).runWhere (fun s a => WithinLimit twice s a ∧ OwnNote s a)
      unlockedPair nested).isSome = true := by
    decide
  obtain ⟨s, hs⟩ := Option.isSome_iff_exists.mp hsome
  have hr := Machine.run_of_runWhere hs
  exact ⟨s, hr, (lock_noted_iff rfl hinit hr).mpr (Machine.each_of_runWhere hs)⟩

end Pair

end CoreAndroid.Lock
