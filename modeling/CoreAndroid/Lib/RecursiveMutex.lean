import Mathlib.Logic.Function.Basic

/-! Mutexes that their owner may lock again, up to a limit, and that are free when they have been
unlocked as often. -/

structure RecursiveMutex (Tid : Type) where
  held : Option (Tid × Nat) -- the owner, and how often it has locked the mutex after the first time

namespace RecursiveMutex
variable {Tid : Type} [DecidableEq Tid]

def depth (m : RecursiveMutex Tid) (t : Tid) : Nat :=
  match m.held with
  | none => 0
  | some (u, nested) => if u = t then nested + 1 else 0

/-- What a lock returns if it does not wait: past the limit it fails and changes nothing. -/
def lock (limit : Nat) (m : RecursiveMutex Tid) (t : Tid) : Option (RecursiveMutex Tid × Bool) :=
  match m.held with
  | none => some (⟨some (t, 0)⟩, true)
  | some (u, nested) =>
      if u = t then
        if nested + 1 < limit then some (⟨some (t, nested + 1)⟩, true) else some (m, false)
      else none

def tryLock (limit : Nat) (m : RecursiveMutex Tid) (t : Tid) : RecursiveMutex Tid × Bool :=
  (m.lock limit t).getD (m, false)

/-- An unlock by a thread that does not hold the mutex fails and changes nothing. -/
def unlock (m : RecursiveMutex Tid) (t : Tid) : RecursiveMutex Tid :=
  match m.held with
  | none => m
  | some (u, nested) => if u = t then ⟨if nested = 0 then none else some (u, nested - 1)⟩ else m

section Depth
variable {limit : Nat} {m m' : RecursiveMutex Tid} {t u : Tid}

theorem depth_free (t : Tid) : (⟨none⟩ : RecursiveMutex Tid).depth t = 0 := rfl

theorem depth_held (u : Tid) (nested : Nat) :
    (⟨some (u, nested)⟩ : RecursiveMutex Tid).depth =
      Function.update (fun _ => 0) u (nested + 1) := by
  funext t
  by_cases h : u = t
  · rw [← h, Function.update_self]
    exact if_pos rfl
  · rw [Function.update_of_ne (Ne.symm h)]
    exact if_neg h

omit [DecidableEq Tid] in
theorem free_or_held (m : RecursiveMutex Tid) :
    m = ⟨none⟩ ∨ ∃ u nested, m = ⟨some (u, nested)⟩ := by
  obtain ⟨_ | ⟨u, nested⟩⟩ := m
  · exact .inl rfl
  · exact .inr ⟨u, nested, rfl⟩

theorem depth_unique (ht : m.depth t ≠ 0) (hu : m.depth u ≠ 0) : t = u := by
  obtain rfl | ⟨v, nested, rfl⟩ := m.free_or_held
  · exact absurd (depth_free t) ht
  · have howner : ∀ t, (⟨some (v, nested)⟩ : RecursiveMutex Tid).depth t ≠ 0 → t = v := by
      intro t h
      by_contra hne
      rw [depth_held, Function.update_of_ne hne] at h
      exact h rfl
    exact (howner t ht).trans (howner u hu).symm

theorem lock_depth {ok : Bool} (h : m.lock limit t = some (m', ok)) :
    if m.depth t ≠ 0 → m.depth t < limit
    then ok = true ∧ m'.depth = Function.update m.depth t (m.depth t + 1)
    else ok = false ∧ m' = m := by
  obtain rfl | ⟨u, nested, rfl⟩ := m.free_or_held
  · cases h
    rw [if_pos fun hne => absurd (depth_free t) hne]
    exact ⟨rfl, depth_held t 0⟩
  · by_cases hut : u = t
    · subst hut
      have hdepth : (⟨some (u, nested)⟩ : RecursiveMutex Tid).depth u = nested + 1 := by
        rw [depth_held, Function.update_self]
      simp only [lock, if_true] at h
      by_cases hlimit : nested + 1 < limit
      · rw [if_pos hlimit] at h
        cases h
        rw [hdepth, if_pos fun _ => hlimit, depth_held, depth_held, Function.update_idem]
        exact ⟨rfl, rfl⟩
      · rw [if_neg hlimit] at h
        cases h
        rw [hdepth, if_neg fun hall => hlimit (hall (Nat.succ_ne_zero _))]
        exact ⟨rfl, rfl⟩
    · simp only [lock, if_neg hut] at h
      cases h

theorem tryLock_depth (limit : Nat) (m : RecursiveMutex Tid) (t : Tid) :
    (m.tryLock limit t).1.depth =
      if (m.tryLock limit t).2 then Function.update m.depth t (m.depth t + 1) else m.depth := by
  unfold tryLock
  cases hlock : m.lock limit t with
  | none => rfl
  | some result =>
    obtain ⟨m', ok⟩ := result
    have hdepth := lock_depth hlock
    split at hdepth
    · obtain ⟨rfl, hdepth⟩ := hdepth
      exact hdepth
    · obtain ⟨rfl, rfl⟩ := hdepth
      rfl

theorem unlock_depth (m : RecursiveMutex Tid) (t : Tid) :
    (m.unlock t).depth = Function.update m.depth t (m.depth t - 1) := by
  obtain rfl | ⟨u, nested, rfl⟩ := m.free_or_held
  · exact (Function.update_eq_self t _).symm
  · by_cases hut : u = t
    · subst hut
      simp only [unlock, if_true]
      by_cases hzero : nested = 0
      · rw [if_pos hzero, hzero, depth_held, Function.update_self, Function.update_idem]
        exact (Function.update_eq_self u _).symm
      · rw [if_neg hzero, depth_held, depth_held, Function.update_self, Function.update_idem,
          Nat.sub_add_cancel (Nat.one_le_iff_ne_zero.mpr hzero), Nat.add_sub_cancel]
    · simp only [unlock, if_neg hut]
      have hzero : (⟨some (u, nested)⟩ : RecursiveMutex Tid).depth t = 0 := if_neg hut
      rw [hzero, Nat.zero_sub, ← hzero, Function.update_eq_self]

end Depth

end RecursiveMutex
