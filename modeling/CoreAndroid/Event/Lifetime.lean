import CoreAndroid.Lib.Lifetime
import CoreAndroid.Event.Progress

/-! The life of an event from `ofc_event_create_impl` to `ofc_event_destroy_impl`, and the event
that one thread signals once and another one waits for and destroys. -/
namespace CoreAndroid.Event
open Monitor

/-- The calls that find the record of an event, and `ofc_event_destroy_impl`, which destroys the
condition variable, the mutex and its attributes before it releases the record. -/
def object : Object AndroidEvent Pc Op where
  code := code
  uses
    | .idle | .waitReturn => false
    | _ => true
  teardown := 3

abbrev EventLife (Tid : Type) := Lifetime Tid AndroidEvent Pc

def lifetime (Tid : Type) [DecidableEq Tid] (eventType : EventType) :
    Machine (EventLife Tid) (LifeAction Tid Op) :=
  object.lifetime fun monitor => monitor = created eventType

theorem object_sound : object.Sound where
  enters {pc enter} hc := by
    cases pc <;> cases hc
    refine ⟨rfl, ?_⟩
    rintro (_ | _ | _ | _) e <;> rfl
  stays {pc} hout := by
    cases pc with
    | idle => exact .inl ⟨_, rfl⟩
    | waitReturn => exact .inr ⟨_, rfl, fun _ => rfl⟩
    | _ => cases hout

variable {Tid : Type} [DecidableEq Tid]

/-- The calls on an event never hold on to a record that is released, and it is released once,
in the runs in which each destroy releases the record while no other call has it and is followed
by no call on the handle until `ofc_handle_destroy`, and in no other run. -/
theorem no_dangling_iff (eventType : EventType) {s t : EventLife Tid}
    {calls : List (LifeAction Tid Op)} (hs : (lifetime Tid eventType).init s)
    (hr : (lifetime Tid eventType).run s calls = some t) :
    (lifetime Tid eventType).Always object.Safe s calls ↔
      (lifetime Tid eventType).Each object.Alone s calls := by
  obtain ⟨monitor, -, rfl⟩ := hs
  exact Object.safe_iff_alone object_sound (Object.fresh_inv monitor) hr

def destroyedInTest : List (LifeAction Bool Op) :=
  [.act (.call false .test), .destroy true, .goOn true, .goOn true, .goOn true, .goOn true,
    .act (.run false)]

theorem no_dangling_destroyedInTest : ∃ t : EventLife Bool,
    (lifetime Bool .auto).run (Object.fresh (created .auto)) destroyedInTest = some t ∧
    t.touched = true ∧
    ((lifetime Bool .auto).Always object.Safe (Object.fresh (created .auto)) destroyedInTest ↔
      (lifetime Bool .auto).Each object.Alone (Object.fresh (created .auto))
        destroyedInTest) := by
  have hrun : ((lifetime Bool .auto).run (Object.fresh (created .auto))
      destroyedInTest).map (·.touched) = some true := by decide
  obtain ⟨t, ht, htouched⟩ := Option.map_eq_some_iff.mp hrun
  exact ⟨t, ht, htouched, no_dangling_iff .auto ⟨_, rfl, rfl⟩ ht⟩

section OneShot

def answer : Pc → Option Bool
  | .testUnlock ret => some ret
  | .waitReturn => some true
  | _ => none

def absent : Op → Bool
  | .test | .wait => true
  | .set | .reset => false

def toldAfter (owner : Tid) (s : EventLife Tid) (told : Bool) : LifeAction Tid Op → Bool
  | .act (.call t op) => if t = owner then !s.live && absent op else told
  | .act (.run t) =>
      match s.monitor.thread t with
      | .running pc => if t = owner then (answer pc).getD told else told
      | _ => told
  | _ => told

/-- One thread sets the event, and does so once. Another one makes the other calls, without
spurious wake-ups, and destroys the event after it was told that it is signalled. -/
def OneShot (signaller owner : Tid) (s : EventLife Tid) (told : Bool) :
    LifeAction Tid Op → Prop
  | .act (.call t op) => t = signaller ∧ op = .set ∧ s.monitor.val.sets = 0 ∨ t = owner ∧ op ≠ .set
  | .act (.spurious _) => False
  | .destroy t => t = owner ∧ told = true
  | _ => True

def sets : Pc → Bool
  | .idle | .setLock | .setSignal | .setBroadcast | .setWaitSet | .setUnlock => true
  | _ => false

def early : Pc → Bool
  | .setLock | .setSignal => true
  | _ => false

def knows : Pc → Bool
  | .waitClear | .waitUnlock | .waitReturn | .testUnlock true => true
  | _ => false

def Stored (signaller : Tid) (m : EventState Tid) : Prop :=
  m.val.sets ≠ 0 ∧ ∃ pc, m.thread signaller = .running pc ∧ early pc = false

def Done (signaller : Tid) (m : EventState Tid) : Prop :=
  m.val.sets ≠ 0 ∧ m.thread signaller = .running .idle

structure Handing (signaller owner : Tid) (m : EventState Tid) (told : Bool) : Prop where
  inv : Inv marks (fun e => e.signalled = true) m
  parked : ParkedAt code m
  setter : ∃ pc, m.thread signaller = .running pc ∧ sets pc = true ∧
    (pc ≠ .idle → m.val.sets ≠ 0)
  waiter : ∀ pc, m.thread owner = .running pc → pc = .idle ∨ sets pc = false
  others : ∀ t, t ≠ signaller → t ≠ owner → m.thread t = .running .idle
  raised : m.val.signalled = true → Stored signaller m
  woken : ∀ pc, m.thread owner = .woken pc → Stored signaller m
  learned : ∀ pc, m.thread owner = .running pc → knows pc = true → Done signaller m
  told : told = true → Done signaller m

variable {signaller owner : Tid} {m m' : EventState Tid} {told : Bool}

omit [DecidableEq Tid] in
theorem Handing.done (h : Handing signaller owner m told) (hs : Stored signaller m)
    (hfree : m.holder ≠ some signaller) : Done signaller m := by
  obtain ⟨hsets, pc, hpc, hearly⟩ := hs
  obtain ⟨pc', hpc', hset, -⟩ := h.setter
  cases hpc.symm.trans hpc'
  have hout : marks.inside pc = false := by
    cases hin : marks.inside pc with
    | false => rfl
    | true => exact absurd ((h.inv.owner signaller pc hpc).mp hin) hfree
  refine ⟨hsets, ?_⟩
  cases pc with
  | idle => exact hpc
  | setLock | setSignal => cases hearly
  | setBroadcast | setWaitSet | setUnlock => cases hout
  | _ => cases hset

omit [DecidableEq Tid] in
theorem Done.stored (h : Done signaller m) : Stored signaller m := ⟨h.1, .idle, h.2, rfl⟩

omit [DecidableEq Tid] in
theorem created_handing (eventType : EventType) :
    Handing signaller owner (created eventType) false where
  inv := start_inv _ _ rfl disciplined
  parked u pc h := by
    simp [created, start] at h
  setter := ⟨.idle, rfl, rfl, fun h => absurd rfl h⟩
  waiter pc h := by
    injection h with h
    exact .inl h.symm
  others _ _ _ := rfl
  raised h := by cases h
  woken pc h := by cases h
  learned pc h hk := by
    injection h with h
    subst h
    cases hk
  told h := by cases h

theorem knows_of_answer {pc : Pc} (h : answer pc = some true) : knows pc = true := by
  cases pc with
  | testUnlock ret =>
    obtain rfl := Option.some_inj.mp h
    rfl
  | waitReturn => rfl
  | _ => cases h

theorem exec_spec {pc : Pc} {run : AndroidEvent → AndroidEvent × Pc} (hc : code pc = .exec run)
    (hset : sets pc = false) (e : AndroidEvent) :
    ((run e).1.sets = e.sets ∧ ((run e).1.signalled = true → e.signalled = true)) ∧
    ((run e).2 = .idle ∨ sets (run e).2 = false) ∧ (knows (run e).2 = true →
      knows pc = true ∨ marks.inside pc = true ∧ e.signalled = true) := by
  cases pc with
  | setSignal | setWaitSet => cases hset
  | resetStore =>
    cases hc
    exact ⟨⟨rfl, nofun⟩, .inr rfl, nofun⟩
  | testRead =>
    cases hc
    refine ⟨⟨rfl, id⟩, .inr rfl, fun hk => .inr ⟨rfl, ?_⟩⟩
    cases hup : e.signalled with
    | true => rfl
    | false => simp [hup, knows] at hk
  | waitTest =>
    cases hc
    refine ⟨⟨rfl, id⟩, .inr ?_, fun hk => .inr ⟨rfl, ?_⟩⟩
    · cases hup : e.signalled <;> simp [hup, sets]
    · cases hup : e.signalled with
      | true => rfl
      | false => simp [hup, knows] at hk
  | waitClear =>
    cases hc
    refine ⟨⟨rfl, fun hup => ?_⟩, .inr rfl, fun _ => .inl rfl⟩
    by_cases hauto : e.eventType = .auto
    · simp [hauto] at hup
    · simpa [hauto] using hup
  | waitReturn =>
    cases hc
    exact ⟨⟨rfl, id⟩, .inl rfl, nofun⟩
  | _ => cases hc

theorem Handing.sets_on (h : Handing signaller owner m told) (hne : signaller ≠ owner)
    (hs : Step code m (.run signaller) m') {pc : Pc}
    (hpc : m'.thread signaller = .running pc) (hset : sets pc = true)
    (hval : m'.val.sets ≠ 0) (hearly : early pc = false) : Handing signaller owner m' told where
  inv := h.inv.step disciplined hs
  parked := hs.parkedAt h.parked
  setter := ⟨pc, hpc, hset, fun _ => hval⟩
  waiter pc hpc := h.waiter pc ((hs.others hne.symm).mp hpc)
  others t ht ho := (hs.others ht).mpr (h.others t ht ho)
  raised _ := ⟨hval, pc, hpc, hearly⟩
  woken _ _ := ⟨hval, pc, hpc, hearly⟩
  learned pc' hpc' hk := by
    have hdone := h.learned pc' ((hs.others hne.symm).mp hpc') hk
    have hcall := Object.not_atCall_of_run hs
    simp [hdone.2, Thread.atCall, code] at hcall
  told ht := by
    have hdone := h.told ht
    have hcall := Object.not_atCall_of_run hs
    simp [hdone.2, Thread.atCall, code] at hcall

theorem Handing.run_signaller (h : Handing signaller owner m told) (hne : signaller ≠ owner)
    (hs : Step code m (.run signaller) m') : Handing signaller owner m' told := by
  obtain ⟨pc₀, hpc₀, hset, hstarted⟩ := h.setter
  cases id hs with
  | @lock _ pc next ht hc =>
    cases ht.symm.trans hpc₀
    cases pc₀ <;> cases hc <;> try cases hset
    -- the flag is not raised yet
    have hnot : ¬ Stored signaller m := by
      rintro ⟨-, pc, hpc, hearly⟩
      cases ht.symm.trans hpc
      cases hearly
    exact {
      inv := h.inv.step disciplined hs
      parked := hs.parkedAt h.parked
      setter := ⟨.setSignal, goto_same .., rfl, fun _ => hstarted nofun⟩
      waiter := fun pc hpc => h.waiter pc ((hs.others hne.symm).mp hpc)
      others := fun t ht ho => (hs.others ht).mpr (h.others t ht ho)
      raised := fun hup => absurd (h.raised hup) hnot
      woken := fun pc hw => absurd (h.woken pc (by simpa [hne.symm] using hw)) hnot
      learned := fun pc hpc hk =>
        absurd (h.learned pc ((hs.others hne.symm).mp hpc) hk).stored hnot
      told := fun htold => absurd (h.told htold).stored hnot }
  | @unlock _ pc next ht hc =>
    cases ht.symm.trans hpc₀
    cases pc₀ <;> cases hc <;> try cases hset
    exact h.sets_on hne hs (goto_same ..) rfl (hstarted nofun) rfl
  | @broadcast _ pc next ht hc =>
    cases ht.symm.trans hpc₀
    cases pc₀ <;> cases hc
    have hpc : Function.update (fun u => (m.thread u).wake) signaller (.running .setWaitSet)
        signaller = Thread.running Pc.setWaitSet := Function.update_self ..
    exact h.sets_on hne hs hpc rfl (hstarted nofun) rfl
  | @exec _ pc run ht hc =>
    cases ht.symm.trans hpc₀
    cases pc₀ <;> cases hc <;> try cases hset
    · exact h.sets_on hne hs (goto_same ..) rfl (hstarted nofun) rfl
    · exact h.sets_on hne hs (goto_same ..) rfl (hstarted nofun) rfl
  | @wait _ pc next ht hc =>
    cases ht.symm.trans hpc₀
    cases pc₀ <;> cases hc
    cases hset
  | resume ht => cases ht.symm.trans hpc₀

theorem Handing.waits_on (h : Handing signaller owner m told) (hne : signaller ≠ owner)
    {a : Action Tid Op} (hs : Step code m a m') (ha : a.tid = owner)
    (hsets : m'.val.sets = m.val.sets)
    (hup : m'.val.signalled = true → m.val.signalled = true)
    (hpc : ∀ pc, m'.thread owner = .running pc →
      (pc = .idle ∨ sets pc = false) ∧ (knows pc = true → Done signaller m))
    (hawake : ∀ pc, m'.thread owner ≠ .woken pc) {told' : Bool}
    (htold : told' = true → Done signaller m) : Handing signaller owner m' told' := by
  subst ha
  have hsame {pc : Pc} : m'.thread signaller = .running pc ↔ m.thread signaller = .running pc :=
    hs.others hne
  have hdone (hd : Done signaller m) : Done signaller m' :=
    ⟨fun hzero => hd.1 (hsets ▸ hzero), hsame.mpr hd.2⟩
  obtain ⟨pc₀, hpc₀, hset, hstarted⟩ := h.setter
  exact {
    inv := h.inv.step disciplined hs
    parked := hs.parkedAt h.parked
    setter := ⟨pc₀, hsame.mpr hpc₀, hset, fun hne => hsets ▸ hstarted hne⟩
    waiter := fun pc hpc' => (hpc pc hpc').1
    others := fun t ht ho => (hs.others ho).mpr (h.others t ht ho)
    raised := fun hraised => by
      obtain ⟨hz, pc, hpc, hearly⟩ := h.raised (hup hraised)
      exact ⟨fun hzero => hz (hsets ▸ hzero), pc, hsame.mpr hpc, hearly⟩
    woken := fun pc hw => absurd hw (hawake pc)
    learned := fun pc hpc' hk => hdone ((hpc pc hpc').2 hk)
    told := fun ht => hdone (htold ht) }

theorem Handing.run_owner (h : Handing signaller owner m told) (hne : signaller ≠ owner)
    (hs : Step code m (.run owner) m') {told' : Bool}
    (htold : told' = true →
      told = true ∨ ∃ pc, m.thread owner = .running pc ∧ answer pc = some true) :
    Handing signaller owner m' told' := by
  have htold : told' = true → Done signaller m := by
    intro ht
    rcases htold ht with ht | ⟨pc, hpc, hanswer⟩
    · exact h.told ht
    · exact h.learned pc hpc (knows_of_answer hanswer)
  -- in the mutex the owner keeps the other thread out
  have hinside {pc : Pc} (hpc : m.thread owner = .running pc) (hin : marks.inside pc = true)
      (hup : m.val.signalled = true) : Done signaller m := by
    refine h.done (h.raised hup) ?_
    rw [(h.inv.owner owner pc hpc).mp hin]
    exact fun heq => hne (Option.some_inj.mp heq).symm
  cases id hs with
  | @lock _ pc next ht hc =>
    have hw := h.waiter pc ht
    refine h.waits_on hne hs rfl rfl id ?_ (by simp) htold
    cases pc <;> cases hc <;> simp_all [sets, knows]
  | @unlock _ pc next ht hc =>
    have hw := h.waiter pc ht
    refine h.waits_on hne hs rfl rfl id ?_ (by simp) htold
    cases pc <;> cases hc <;> simp_all [sets, knows]
    exact h.learned _ ht rfl
  | @exec _ pc run ht hc =>
    have hset : sets pc = false := by
      rcases h.waiter pc ht with rfl | hset
      · cases hc
      · exact hset
    obtain ⟨⟨hsets, hup⟩, hpc, hknows⟩ := exec_spec hc hset m.val
    refine h.waits_on hne hs rfl hsets hup ?_ (by simp) htold
    intro pc' hpc'
    simp only [goto_same, Thread.running.injEq] at hpc'
    subst hpc'
    refine ⟨hpc, fun hk => ?_⟩
    rcases hknows hk with hold | ⟨hin, hraised⟩
    · exact h.learned pc ht hold
    · exact hinside ht hin hraised
  | @wait _ pc next ht hc => exact h.waits_on hne hs rfl rfl id (by simp) (by simp) htold
  | @broadcast _ pc next ht hc =>
    have hw := h.waiter pc ht
    cases pc <;> cases hc
    simp [sets] at hw
  | @resume _ pc ht hfree =>
    refine h.waits_on hne hs rfl rfl id ?_ (by simp) htold
    intro pc' hpc'
    simp only [goto_same, Thread.running.injEq] at hpc'
    subst hpc'
    obtain rfl := parked_eq h.parked (.inr ht)
    exact ⟨.inr rfl, fun _ => h.done (h.woken _ ht) (by simp [hfree])⟩

theorem Handing.calls (h : Handing signaller owner m told) (hne : signaller ≠ owner) {t : Tid}
    {op : Op} (hs : Step code m (.call t op) m')
    (hok : t = signaller ∧ op = .set ∧ m.val.sets = 0 ∨ t = owner ∧ op ≠ .set) :
    Handing signaller owner m' (if t = owner then false else told) := by
  cases id hs with
  | @call _ _ pc enter ht hc =>
    obtain rfl := idle_of_call hc
    cases hc
    rcases hok with ⟨rfl, rfl, hzero⟩ | ⟨rfl, hset⟩
    · rw [if_neg hne]
      have hnot : ¬ Stored t m := fun hstored => hstored.1 hzero
      exact {
        inv := h.inv.step disciplined hs
        parked := hs.parkedAt h.parked
        setter := ⟨.setLock, goto_same .., rfl, fun _ => Nat.succ_ne_zero _⟩
        waiter := fun pc hpc => h.waiter pc ((hs.others hne.symm).mp hpc)
        others := fun u hu ho => (hs.others hu).mpr (h.others u hu ho)
        raised := fun hup => absurd (h.raised hup) hnot
        woken := fun pc hw => absurd (h.woken pc (by simpa [hne.symm] using hw)) hnot
        learned := fun pc hpc hk =>
          absurd (h.learned pc ((hs.others hne.symm).mp hpc) hk).stored hnot
        told := fun htold => absurd (h.told htold).stored hnot }
    · rw [if_pos rfl]
      refine h.waits_on hne hs rfl ?_ ?_ ?_ (by simp) nofun
      · cases op <;> first | rfl | exact absurd rfl hset
      · cases op <;> exact id
      · cases op <;> simp [enter, sets, knows] at hset ⊢

/-- The record of an event that is signalled once. -/
structure HandedOver (signaller owner : Tid) (s : EventLife Tid) (told : Bool) : Prop where
  handing : Handing signaller owner s.monitor told
  life : object.LifeInv s
  destroyer : ∀ t, s.destroy t ≠ .idle → t = owner ∧ told = true
  gone : s.released ≠ 0 → Done signaller s.monitor ∧
    (s.live = true → s.destroy owner = .unpublish)
  released : s.live = false ∨ s.destroy owner = .unpublish → s.released ≠ 0

variable {s s' : EventLife Tid}

theorem HandedOver.alone (h : HandedOver signaller owner s told) (hne : signaller ≠ owner)
    {a : LifeAction Tid Op} (hok : OneShot signaller owner s told a)
    (hs : object.step s a = some s') : object.Alone s a := by
  -- the owner is not in its destroy when it begins something else
  have howner (hidle : s.destroy owner = .idle) (hl : s.live = true) : s.released = 0 := by
    by_contra hr
    have hpc := (h.gone hr).2 hl
    rw [hidle] at hpc
    cases hpc
  cases a with
  | act a =>
    cases a with
    | call t op =>
      obtain ⟨hidle, -⟩ := Option.ite_none_right_eq_some.mp hs
      intro hl
      rcases hok with ⟨-, -, hzero⟩ | ⟨rfl, -⟩
      · by_contra hr
        exact (h.gone hr).1.1 hzero
      · exact howner hidle hl
    | run t | spurious t => trivial
  | destroy t =>
    obtain ⟨rfl, -⟩ := hok
    obtain ⟨⟨hidle, -⟩, -⟩ := Option.ite_none_right_eq_some.mp hs
    exact howner hidle
  | goOn t =>
    intro hpc u hu
    obtain ⟨rfl, htold⟩ := h.destroyer t (by simp [hpc])
    have hidle : s.destroy u = .idle := by
      by_contra hbusy
      exact hu (h.destroyer u hbusy).1
    have hthread : s.monitor.thread u = .running .idle := by
      by_cases hus : u = signaller
      · exact hus ▸ (h.handing.told htold).2
      · exact h.handing.others u hus hu
    simp [Object.holds, hthread, hidle, Thread.uses, object, DestroyPc.uses]

omit [DecidableEq Tid] in
theorem Handing.tell (h : Handing signaller owner m told) {told' : Bool}
    (htold : told' = true → Done signaller m) : Handing signaller owner m told' :=
  { h with told := htold }

theorem sets_step {a : Action Tid Op} (hs : Step code m a m') :
    m'.val.sets = m.val.sets ∨ ∃ t, a = .call t .set ∧ m'.val.sets = m.val.sets + 1 := by
  cases hs with
  | @call t op pc enter ht hc =>
    obtain rfl := idle_of_call hc
    cases hc
    cases op with
    | set => exact .inr ⟨t, rfl, rfl⟩
    | reset | test | wait => exact .inl rfl
  | @exec t pc run ht hc => cases pc <;> cases hc <;> exact .inl rfl
  | _ => exact .inl rfl

theorem Done.step (h : Done signaller m) {a : Action Tid Op} (hs : Step code m a m')
    (hne : signaller ≠ a.tid) : Done signaller m' := by
  refine ⟨?_, (hs.others hne).mpr h.2⟩
  rcases sets_step hs with hsame | ⟨t, -, hmore⟩
  · exact hsame ▸ h.1
  · exact hmore ▸ Nat.succ_ne_zero _

theorem HandedOver.run (h : HandedOver signaller owner s told) (hne : signaller ≠ owner) {t : Tid}
    (hs : Step code s.monitor (.run t) m) :
    HandedOver signaller owner { s with monitor := m }
      (toldAfter owner s told (.act (.run t))) := by
  have hidle : s.destroy t = .idle := by
    by_contra hbusy
    have hcall := h.life.busy t hbusy
    rw [show object.code = code from rfl, Object.not_atCall_of_run hs] at hcall
    cases hcall
  have hrun : t = signaller ∨ t = owner := by
    by_contra hother
    obtain ⟨hs', ho'⟩ := not_or.mp hother
    have hcall := Object.not_atCall_of_run hs
    simp [h.handing.others t hs' ho', Thread.atCall, code] at hcall
  have hlife : object.LifeInv { s with monitor := m } := by
    refine h.life.monitor hs hidle fun hr => ?_
    have hout := h.life.safe.gone hr t
    simp only [Object.holds, hidle, DestroyPc.uses, Bool.or_false] at hout
    exact object_sound.run_out hs hout
  rcases hrun with rfl | rfl
  · have htold : toldAfter owner s told (.act (.run t)) = told := by
      obtain ⟨pc, hpc, -⟩ := h.handing.setter
      simp [toldAfter, hpc, hne]
    rw [htold]
    have hnot : ¬ Done t s.monitor := by
      intro hd
      have hcall := Object.not_atCall_of_run hs
      simp [hd.2, Thread.atCall, code] at hcall
    exact ⟨h.handing.run_signaller hne hs, hlife, h.destroyer,
      fun hr => absurd (h.gone hr).1 hnot, h.released⟩
  · refine ⟨h.handing.run_owner hne hs ?_, hlife, ?_,
      fun hr => ⟨(h.gone hr).1.step hs hne, (h.gone hr).2⟩, h.released⟩
    · intro htold
      cases hpc : s.monitor.thread t with
      | running pc =>
        simp only [toldAfter, hpc, if_true] at htold
        cases hanswer : answer pc with
        | none => exact .inl (by simpa [hanswer] using htold)
        | some ret => exact .inr ⟨pc, rfl, by simpa [hanswer] using htold⟩
      | asleep pc | woken pc => exact .inl (by simpa [toldAfter, hpc] using htold)
    · intro u hu
      obtain ⟨rfl, -⟩ := h.destroyer u hu
      exact absurd hidle hu

theorem HandedOver.call (h : HandedOver signaller owner s told) (hne : signaller ≠ owner) {t : Tid}
    {op : Op} (hok : OneShot signaller owner s told (.act (.call t op)))
    (hs : object.step s (.act (.call t op)) = some s') :
    HandedOver signaller owner s' (toldAfter owner s told (.act (.call t op))) := by
  have hlife := h.life.step object_sound (h.alone hne hok hs) hs
  obtain ⟨hidle, hs⟩ := Option.ite_none_right_eq_some.mp hs
  obtain ⟨m, hm, rfl⟩ := Option.map_eq_some_iff.mp hs
  by_cases hl : s.live = true
  · have htold : toldAfter owner s told (.act (.call t op)) =
        if t = owner then false else told := by
      simp [toldAfter, hl]
    rw [if_pos hl] at hlife ⊢
    rw [htold]
    refine ⟨h.handing.calls hne (step_spec hm) hok, hlife, ?_, ?_, h.released⟩
    · intro u hu
      obtain ⟨rfl, hold⟩ := h.destroyer u hu
      have hut : t ≠ u := by
        rintro rfl
        exact hu hidle
      exact ⟨rfl, by rw [if_neg hut, hold]⟩
    · intro hr
      obtain ⟨hdone, hpc⟩ := h.gone hr
      refine ⟨hdone.step (step_spec hm) ?_, hpc⟩
      rcases hok with ⟨-, -, hzero⟩ | ⟨rfl, -⟩
      · exact absurd hzero hdone.1
      · exact hne
  · rw [if_neg hl] at hlife ⊢
    have hl : s.live = false := by simpa using hl
    have hdone := (h.gone (h.released (.inl hl))).1
    refine ⟨h.handing.tell fun _ => hdone, hlife, ?_, h.gone, h.released⟩
    intro u hu
    obtain ⟨rfl, hold⟩ := h.destroyer u hu
    have hut : t ≠ u := by
      rintro rfl
      exact hu hidle
    exact ⟨rfl, by simp [toldAfter, hut, hold]⟩

theorem HandedOver.destroys (h : HandedOver signaller owner s told) (hne : signaller ≠ owner)
    {t : Tid} (hok : OneShot signaller owner s told (.destroy t))
    (hs : object.step s (.destroy t : LifeAction Tid Op) = some s') :
    HandedOver signaller owner s' told := by
  have hlife := h.life.step object_sound (h.alone hne hok hs) hs
  obtain ⟨rfl, htold⟩ := hok
  obtain ⟨⟨hidle, -⟩, hs⟩ := Option.ite_none_right_eq_some.mp hs
  cases hs
  refine ⟨h.handing, hlife, ?_, ?_, ?_⟩
  · intro u hu
    by_cases hut : u = t
    · exact ⟨hut, htold⟩
    · exact h.destroyer u (by simpa [Function.update_of_ne hut] using hu)
  · intro hr
    refine ⟨(h.gone hr).1, fun hl => ?_⟩
    have hpc := (h.gone hr).2 hl
    rw [hidle] at hpc
    cases hpc
  · rintro (hl | hpc)
    · exact h.released (.inl hl)
    · by_cases hl : s.live = true
      · simp [hl] at hpc
      · simp [hl] at hpc

theorem HandedOver.goesOn (h : HandedOver signaller owner s told) (hne : signaller ≠ owner)
    {t : Tid} (hs : object.step s (.goOn t : LifeAction Tid Op) = some s') :
    HandedOver signaller owner s' told := by
  have hok : OneShot signaller owner s told (.goOn t) := trivial
  have hlife := h.life.step object_sound (h.alone hne hok hs) hs
  have hbusy : s.destroy t ≠ .idle := by
    intro hidle
    rw [Object.step, hidle] at hs
    cases hs
  obtain ⟨rfl, htold⟩ := h.destroyer t hbusy
  have hdone := h.handing.told htold
  have hdestroyer (pc : DestroyPc) (u : Tid)
      (hu : Function.update s.destroy t pc u ≠ .idle) : u = t ∧ told = true := by
    by_cases hut : u = t
    · exact ⟨hut, htold⟩
    · exact h.destroyer u (by simpa [Function.update_of_ne hut] using hu)
  rw [Object.step] at hs
  cases hpc : s.destroy t with
  | idle => exact absurd hpc hbusy
  | teardown left =>
    rw [hpc] at hs
    cases left with
    | zero =>
      cases hs
      exact ⟨h.handing, hlife, hdestroyer _,
        fun _ => ⟨hdone, fun _ => Function.update_self ..⟩, fun _ => Nat.succ_ne_zero _⟩
    | succ left =>
      rw [Object.destroyStep, Object.use_eq h.life.safe] at hs
      cases hs
      have hzero : s.released = 0 := by
        by_contra hr
        have hheld := h.life.safe.gone hr t
        simp [Object.holds, hpc, DestroyPc.uses] at hheld
      refine ⟨h.handing, hlife, hdestroyer _, fun hr => absurd hzero hr, ?_⟩
      rintro (hl | hunpublish)
      · exact h.released (.inl hl)
      · simp at hunpublish
  | unpublish =>
    have hr := h.released (.inr hpc)
    rw [hpc] at hs
    cases hs
    exact ⟨h.handing, hlife, hdestroyer _, fun _ => ⟨hdone, fun hl => by cases hl⟩,
      fun _ => hr⟩

theorem HandedOver.step (h : HandedOver signaller owner s told) (hne : signaller ≠ owner)
    {a : LifeAction Tid Op} (hok : OneShot signaller owner s told a)
    (hs : object.step s a = some s') :
    HandedOver signaller owner s' (toldAfter owner s told a) := by
  cases a with
  | act a =>
    cases a with
    | call t op => exact h.call hne hok hs
    | run t =>
      obtain ⟨m, hm, rfl⟩ := Option.map_eq_some_iff.mp hs
      rw [Object.use_eq h.life.safe]
      exact h.run hne (step_spec hm)
    | spurious t => exact hok.elim
  | destroy t => exact h.destroys hne hok hs
  | goOn t => exact h.goesOn hne hs

omit [DecidableEq Tid] in
theorem fresh_handedOver (eventType : EventType) :
    HandedOver signaller owner (Object.fresh (created eventType)) false where
  handing := created_handing eventType
  life := Object.fresh_inv _
  destroyer _ h := absurd rfl h
  gone h := absurd rfl h
  released h := by rcases h with h | h <;> cases h

end OneShot

end CoreAndroid.Event
