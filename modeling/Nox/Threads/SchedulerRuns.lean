import Nox.Threads.Scheduler

/-!
# Runs of the scheduler

Every thread and machine of a group is on one of the two lists or runs, and a thread comes out of
`co_block` with an event that has been woken.  Who runs may be on the ready list at the same time:
with an event that has been woken already, or as a machine that has taken its action.
-/

namespace Nox.Threads

open Lib

section Lists

/-! ## The functions on the lists -/

variable {T : Type} [DecidableEq T] {n : NodeLists RunList T} {place : T → Option RunList} {t : T}

omit [DecidableEq T] in
theorem none_of_flags (h : n.Shows place)
    (hflags : ¬(n.flag .block t || n.flag .ready t) = true) : place t = none := by
  rw [Bool.or_eq_true, not_or, h.flag, h.flag] at hflags
  cases hplace : place t with
  | none => rfl
  | some l =>
    cases l with
    | ready => exact absurd hplace hflags.2
    | block => exact absurd hplace hflags.1

theorem makeReady_keeps (h : n.Shows place) (t : T) :
    Keeps Stop.undefined (fun n' => place t = none ∧
      n'.Shows (Function.update place t (some .ready))) (makeReady n t) :=
  Keeps.ite (fun _ => Keeps.throws nofun) fun hflags =>
    Keeps.ok ⟨none_of_flags h hflags, h.insert (none_of_flags h hflags) _⟩

theorem makeBlocking_keeps (h : n.Shows place) (t : T) :
    Keeps Stop.undefined (fun n' => place t = none ∧
      n'.Shows (Function.update place t (some .block))) (makeBlocking n t) :=
  Keeps.ite (fun _ => Keeps.throws nofun) fun hflags =>
    Keeps.ok ⟨none_of_flags h hflags, h.insert (none_of_flags h hflags) _⟩

theorem makeReady_eq (h : n.Shows place) (hnone : place t = none) :
    makeReady n t = .ok (n.insert .ready t) := by
  rw [makeReady, h.flag_eq_false (l := .block) (by simp [hnone]),
    h.flag_eq_false (l := .ready) (by simp [hnone])]
  rfl

/-- A thread that is on one of the lists is taken from it, and nothing changes else. -/
theorem removeFromLists_eq (h : n.Shows place) (t : T) (flags : List RunList) :
    (∃ l ∈ flags, place t = some l ∧ ∃ n', removeFromLists n t flags = .ok (true, n') ∧
        n'.Shows (Function.update place t none)) ∨
      (∀ l ∈ flags, place t ≠ some l) ∧ removeFromLists n t flags = .ok (false, n) := by
  by_cases hany : ∃ l ∈ flags, place t = some l
  · obtain ⟨l, hl, hplace⟩ := hany
    refine .inl ⟨l, hl, hplace, ?_⟩
    have hcond : flags.any (n.flag · t) = true :=
      List.any_eq_true.mpr ⟨l, hl, (h.flag l t).mpr hplace⟩
    have hlist : (if n.flag .ready t then .ready else .block) = l := by
      cases l with
      | ready => rw [if_pos ((h.flag .ready t).mpr hplace)]
      | block =>
        rw [if_neg]
        rw [h.flag, hplace]
        nofun
    obtain ⟨n', herase, hshows⟩ := h.erase hplace hl
    refine ⟨_, ?_, hshows⟩
    rw [removeFromLists, if_pos hcond, hlist, herase]
  · have hnone : ∀ l ∈ flags, place t ≠ some l := fun l hl hplace => hany ⟨l, hl, hplace⟩
    refine .inr ⟨hnone, if_neg ?_⟩
    intro hcond
    obtain ⟨l, hl, hflag⟩ := List.any_eq_true.mp hcond
    exact hnone l hl ((h.flag l t).mp hflag)

/-- Whatever list the thread of an event is on, it is ready when the event has been woken. -/
theorem doEventWake_eq (h : n.Shows place) (t : T) :
    ∃ n', doEventWake n t = .ok n' ∧ n'.Shows (Function.update place t (some .ready)) := by
  unfold doEventWake
  rcases removeFromLists_eq h t [.block] with ⟨l, hl, hplace, n', hremove, hshows⟩ | ⟨hne, hremove⟩
  · have hnone : Function.update place t none t = none := Function.update_self ..
    have hflag := hshows.flag_eq_false (l := .ready) (x := t) (by rw [hnone]; nofun)
    refine ⟨n'.insert .ready t, ?_, ?_⟩
    · rw [hremove, ok_bind]
      simp only [hflag, Bool.not_false, if_true]
      exact makeReady_eq hshows hnone
    · have hinsert := hshows.insert hnone .ready
      rwa [Function.update_idem] at hinsert
  · rw [hremove, ok_bind]
    by_cases hready : place t = some .ready
    · have hflag := (h.flag .ready t).mpr hready
      refine ⟨n, ?_, ?_⟩
      · simp only [hflag, Bool.not_true, Bool.false_eq_true, if_false]
        rfl
      · rwa [← hready, Function.update_eq_self]
    · have hflag := h.flag_eq_false hready
      have hnone : place t = none := by
        cases hplace : place t with
        | none => rfl
        | some l =>
          cases l with
          | ready => exact absurd hplace hready
          | block => exact absurd hplace (hne .block List.mem_cons_self)
      refine ⟨n.insert .ready t, ?_, h.insert hnone .ready⟩
      simp only [hflag, Bool.not_false, if_true]
      exact makeReady_eq h hnone

/-- Any number of events is woken. -/
theorem foldlM_doEventWake (h : n.Shows place) (ts : List T) :
    ∃ n', ts.foldlM doEventWake n = .ok n' ∧
      n'.Shows fun t => if t ∈ ts then some .ready else place t := by
  induction ts generalizing n place with
  | nil => exact ⟨n, rfl, by simpa using h⟩
  | cons t ts ih =>
    obtain ⟨n₁, hwake, hshows⟩ := doEventWake_eq h t
    obtain ⟨n', hrest, hshows'⟩ := ih hshows
    refine ⟨n', by rw [List.foldlM_cons, hwake, ok_bind, hrest], ?_⟩
    convert hshows' using 2 with u
    by_cases hu : u = t
    · subst hu
      simp
    · simp [hu]

end Lists

section Events

/-! ## Events that have been woken -/

variable {T Q V : Type} {s s' : CoGroup T Q V} {t u : T}

/-- An event that the thread has registered since it last came out of `co_block` has been woken. -/
def CoGroup.WasWoken (s : CoGroup T Q V) (t : T) : Prop := ∃ e ∈ s.waits.events t, e.wq = none

theorem CoGroup.WasWoken.congr (h : s.WasWoken t) (hevents : s'.waits.events t = s.waits.events t) :
    s'.WasWoken t := by
  unfold CoGroup.WasWoken
  rwa [hevents]

variable [DecidableEq T] [DecidableEq Q] [DecidableEq V] {w : Waits T Q V} {q : Q}

theorem WaitOp.wakes_eq {op : WaitOp T Q V} (h : op.isWake = true) (w : Waits T Q V) :
    ∃ q retval k, w.exec op = w.wakeFirst q retval k ∧ op.wakes w.queue = (w.queue q).take k := by
  cases op with
  | wake1 q retval => exact ⟨q, retval, 1, rfl, rfl⟩
  | wakeN q retval maxWake => exact ⟨q, retval, maxWake, rfl, rfl⟩
  | wakeAll q retval => exact ⟨q, retval, _, rfl, List.take_length.symm⟩
  | _ => cases h

theorem exists_woken_wakeFirst {retval : Int} {k : Nat} (h : ∃ e ∈ w.events t, e.wq = none) :
    ∃ e ∈ (w.wakeFirst q retval k).events t, e.wq = none := by
  obtain ⟨e, he, hwq⟩ := h
  obtain ⟨i, hi⟩ := List.mem_iff_getElem?.mp he
  have hget := w.getElem?_wakeFirst (t := t) (i := i) q retval k
  rw [hi, Option.map_some] at hget
  refine ⟨_, List.mem_of_getElem? hget, ?_⟩
  split
  · rfl
  · exact hwq

theorem woken_of_mem_wakes {retval : Int} {k i : Nat} (hw : w.Sound)
    (h : (t, i) ∈ (w.queue q).take k) : ∃ e ∈ (w.wakeFirst q retval k).events t, e.wq = none := by
  obtain ⟨e, he, -⟩ := (hw.mem_iff q (t, i)).mp (List.mem_of_mem_take h)
  have hget := w.getElem?_wakeFirst (t := t) (i := i) q retval k
  rw [he, Option.map_some, if_pos h] at hget
  exact ⟨_, List.mem_of_getElem? hget, rfl⟩

theorem events_wakeFirst_nil {retval : Int} {k : Nat} (h : w.events t = []) :
    (w.wakeFirst q retval k).events t = [] := by
  have hlength := w.length_wakeFirst (t := t) q retval k
  rw [h] at hlength
  exact List.eq_nil_of_length_eq_zero hlength

end Events

section Invariant

/-! ## The invariant -/

/-- Where a thread may be listed, by where it is. -/
def Phase.Allows (current woken : Prop) (place : Option RunList) : Phase → Prop
  | .start | .yielding => place = some .ready
  | .running => current ∧ (place = none ∨ place = some .ready ∧ woken)
  | .blocking => place = some .block ∨ place = some .ready ∧ woken
  | .polling => current ∧ woken ∧ (place = none ∨ place = some .ready)
  | .blockYielding => place = some .ready ∧ woken
  | .returning => current ∧ woken ∧ place = none

/-- Where a machine may be listed. -/
def FsmAllows (running acted woken : Prop) (place : Option RunList) : Prop :=
  (running → ¬acted → place = none ∨ place = some .ready ∧ woken) ∧ (¬running → place ≠ none)

variable {T Q V : Type}

/-- What is known of a thread or a machine, in the group or not. -/
def CoGroup.Knows (isFsm : T → Bool) (s : CoGroup T Q V) (place : T → Option RunList) (t : T) :
    Prop :=
  if s.member t then
    if isFsm t then FsmAllows (t ∈ s.fsms) (s.fsmAction t = true) (s.WasWoken t) (place t)
    else (s.phase t).Allows (t = s.current) (s.WasWoken t) (place t)
  else s.waits.events t = [] ∧ place t = none

/-- The lists show these places, and these are what is known of all. -/
structure CoGroup.Good (isFsm : T → Bool) (s : CoGroup T Q V) (place : T → Option RunList) :
    Prop where
  shows : s.lists.Shows place
  sound : s.waits.Sound
  current : s.member s.current = true ∧ isFsm s.current = false
  nodup : s.fsms.Nodup
  fsms : ∀ f ∈ s.fsms, s.member f = true ∧ isFsm f = true
  code : s.fsms ≠ [] → s.phase s.current ≠ .polling ∧ s.phase s.current ≠ .returning
  knows : ∀ t, s.Knows isFsm place t

variable {isFsm : T → Bool} {s s' : CoGroup T Q V} {place place' : T → Option RunList} {t u f : T}

theorem CoGroup.Knows.member (h : s.Knows isFsm place t) (hplace : place t ≠ none) :
    s.member t = true := by
  cases hmember : s.member t with
  | true => rfl
  | false =>
    rw [Knows, hmember] at h
    exact absurd h.2 hplace

theorem CoGroup.Knows.thread (h : s.Knows isFsm place t) (hmember : s.member t = true)
    (hfsm : isFsm t = false) : (s.phase t).Allows (t = s.current) (s.WasWoken t) (place t) := by
  rwa [Knows, hmember, hfsm] at h

theorem CoGroup.Knows.fsm (h : s.Knows isFsm place t) (hmember : s.member t = true)
    (hfsm : isFsm t = true) :
    FsmAllows (t ∈ s.fsms) (s.fsmAction t = true) (s.WasWoken t) (place t) := by
  rwa [Knows, hmember, hfsm] at h

theorem CoGroup.knows_of_thread (hfsm : isFsm t = false)
    (h : (s.phase t).Allows (t = s.current) (s.WasWoken t) (place t)) (hmember : s.member t = true) :
    s.Knows isFsm place t := by
  rwa [Knows, hmember, hfsm]

theorem CoGroup.knows_of_fsm (hfsm : isFsm t = true)
    (h : FsmAllows (t ∈ s.fsms) (s.fsmAction t = true) (s.WasWoken t) (place t))
    (hmember : s.member t = true) : s.Knows isFsm place t := by
  rwa [Knows, hmember, hfsm]

theorem CoGroup.knows_of_gone (hmember : s.member t = false) (hevents : s.waits.events t = [])
    (hplace : place t = none) : s.Knows isFsm place t := by
  rw [Knows, hmember]
  exact ⟨hevents, hplace⟩

/-- Nothing that concerns a thread or machine is different. -/
structure CoGroup.Same (s s' : CoGroup T Q V) (place place' : T → Option RunList) (t : T) :
    Prop where
  member : s'.member t = s.member t
  phase : s'.phase t = s.phase t
  fsms : t ∈ s'.fsms ↔ t ∈ s.fsms
  action : s'.fsmAction t = s.fsmAction t
  events : s'.waits.events t = s.waits.events t
  place : place' t = place t

theorem CoGroup.Knows.same (h : s.Knows isFsm place t) (hsame : s.Same s' place place' t)
    (hcurrent : t = s'.current ↔ t = s.current) : s'.Knows isFsm place' t := by
  unfold Knows WasWoken at h ⊢
  rw [hsame.member, hsame.phase, hsame.action, hsame.events, hsame.place]
  simp only [hsame.fsms, hcurrent]
  exact h

/-- A step that concerns one thread or machine, and leaves it to the same thread who runs. -/
theorem CoGroup.Good.change (h : s.Good isFsm place) (t : T)
    (hsame : ∀ u, u ≠ t → s.Same s' place place' u) (hcurrent : s'.current = s.current)
    (hshows : s'.lists.Shows place') (hsound : s'.waits.Sound) (hnodup : s'.fsms.Nodup)
    (hmember : s'.member s.current = true) (hfsms : t ∈ s'.fsms → s'.member t = true ∧ isFsm t = true)
    (hcode : s'.fsms ≠ [] → s'.phase s.current ≠ .polling ∧ s'.phase s.current ≠ .returning)
    (hknows : s'.Knows isFsm place' t) : s'.Good isFsm place' where
  shows := hshows
  sound := hsound
  current := by
    rw [hcurrent]
    exact ⟨hmember, h.current.2⟩
  nodup := hnodup
  fsms := by
    intro f hf
    by_cases hft : f = t
    · subst hft
      exact hfsms hf
    · have hold := h.fsms f ((hsame f hft).fsms.mp hf)
      exact ⟨(hsame f hft).member.trans hold.1, hold.2⟩
  code := by
    rw [hcurrent]
    exact hcode
  knows := by
    intro u
    by_cases hut : u = t
    · subst hut
      exact hknows
    · exact (h.knows u).same (hsame u hut) (by rw [hcurrent])

/-- One that leaves the group as it is, but for lists, events and the action of a machine. -/
theorem CoGroup.Good.relist (h : s.Good isFsm place) (t : T) (hmember : s'.member = s.member)
    (hphase : s'.phase = s.phase) (hfsms : s'.fsms = s.fsms) (hcurrent : s'.current = s.current)
    (hothers : ∀ u, u ≠ t → s'.fsmAction u = s.fsmAction u ∧
      s'.waits.events u = s.waits.events u ∧ place' u = place u)
    (hshows : s'.lists.Shows place') (hsound : s'.waits.Sound)
    (hknows : s'.Knows isFsm place' t) : s'.Good isFsm place' := by
  refine h.change t (fun u hu => ?_) hcurrent hshows hsound ?_ ?_ ?_ ?_ hknows
  · obtain ⟨haction, hevents, hplace⟩ := hothers u hu
    exact ⟨by rw [hmember], by rw [hphase], by rw [hfsms], haction, hevents, hplace⟩
  · rw [hfsms]
    exact h.nodup
  · rw [hmember]
    exact h.current.1
  · rw [hfsms, hmember]
    exact h.fsms t
  · rw [hfsms, hphase]
    exact h.code

end Invariant

section Registering

/-! ## Events -/

variable {T Q V : Type} {isFsm : T → Bool} {s s' : CoGroup T Q V} {place : T → Option RunList} {t : T}

theorem Phase.Allows.mono {p : Phase} {current woken woken' : Prop} {l : Option RunList}
    (h : p.Allows current woken l) (hwoken : woken → woken') : p.Allows current woken' l := by
  cases p with
  | start => exact h
  | yielding => exact h
  | running => exact ⟨h.1, h.2.imp_right fun hready => ⟨hready.1, hwoken hready.2⟩⟩
  | blocking => exact h.imp_right fun hready => ⟨hready.1, hwoken hready.2⟩
  | polling => exact ⟨h.1, hwoken h.2.1, h.2.2⟩
  | blockYielding => exact ⟨h.1, hwoken h.2⟩
  | returning => exact ⟨h.1, hwoken h.2.1, h.2.2⟩

theorem FsmAllows.mono {running acted woken woken' : Prop} {l : Option RunList}
    (h : FsmAllows running acted woken l) (hwoken : woken → woken') :
    FsmAllows running acted woken' l :=
  ⟨fun hrunning hacted => (h.1 hrunning hacted).imp_right fun hready =>
    ⟨hready.1, hwoken hready.2⟩, h.2⟩

/-- A thread whose event is woken becomes ready, unless it has come out of `co_block`. -/
theorem Phase.Allows.wake {p : Phase} {current woken woken' : Prop} {l : Option RunList}
    (h : p.Allows current woken l) (hwoken : woken') (hp : p ≠ .returning) :
    p.Allows current woken' (some .ready) := by
  cases p with
  | start => exact rfl
  | yielding => exact rfl
  | running => exact ⟨h.1, .inr ⟨rfl, hwoken⟩⟩
  | blocking => exact .inr ⟨rfl, hwoken⟩
  | polling => exact ⟨h.1, hwoken, .inr rfl⟩
  | blockYielding => exact ⟨rfl, hwoken⟩
  | returning => exact absurd rfl hp

theorem FsmAllows.wake {running acted woken' : Prop} (hwoken : woken') :
    FsmAllows running acted woken' (some .ready) :=
  ⟨fun _ _ => .inr ⟨rfl, hwoken⟩, fun _ => nofun⟩

/-- The group is well, wherever its members are listed. -/
def CoGroup.Well (isFsm : T → Bool) (s : CoGroup T Q V) : Prop := ∃ place, s.Good isFsm place

/-- Who runs is in the group. -/
theorem CoGroup.Good.member_coSelf (h : s.Good isFsm place) : s.member s.coSelf = true := by
  unfold coSelf
  cases hfsms : s.fsms with
  | nil => exact h.current.1
  | cons f fsms => exact (h.fsms f (by rw [hfsms]; exact List.mem_cons_self)).1

/-- A thread that runs is the current one. -/
theorem CoGroup.Good.coSelf_eq (h : s.Good isFsm place) (hfsm : isFsm s.coSelf = false) :
    s.coSelf = s.current := by
  unfold coSelf at hfsm ⊢
  cases hfsms : s.fsms with
  | nil => rfl
  | cons f fsms =>
    have hf := (h.fsms f (by rw [hfsms]; exact List.mem_cons_self)).2
    rw [hfsms] at hfsm
    exact absurd (hf.symm.trans hfsm) nofun

theorem CoGroup.Good.inCode (h : s.Good isFsm place) (hcode : s.InCode) :
    s.phase s.current ≠ .polling ∧ s.phase s.current ≠ .returning :=
  hcode.elim h.code id

/-- More events of one thread. -/
theorem CoGroup.Good.register (h : s.Good isFsm place) (hmember : s.member t = true)
    {w : Waits T Q V} (hsound : w.Sound) (hothers : ∀ u, u ≠ t → w.events u = s.waits.events u)
    (hwoken : s.WasWoken t → ∃ e ∈ w.events t, e.wq = none) :
    { s with waits := w }.Good isFsm place := by
  refine h.relist t rfl rfl rfl rfl (fun u hu => ⟨rfl, hothers u hu, rfl⟩) h.shows hsound ?_
  have hknows := h.knows t
  cases hfsm : isFsm t with
  | true => exact CoGroup.knows_of_fsm hfsm ((hknows.fsm hmember hfsm).mono hwoken) hmember
  | false => exact CoGroup.knows_of_thread hfsm ((hknows.thread hmember hfsm).mono hwoken) hmember

variable [DecidableEq T] [DecidableEq Q] [DecidableEq V]

theorem CoGroup.Good.wait (h : s.Good isFsm place) (q : Q) (retvalp : Option V) :
    { s with waits := s.waits.wait s.coSelf q retvalp }.Good isFsm place := by
  refine h.register h.member_coSelf (h.sound.wait _ _ _) (fun u hu => ?_) ?_
  · rw [Waits.events_wait, Function.update_of_ne hu]
  · rintro ⟨e, he, hwq⟩
    rw [Waits.events_wait, Function.update_self]
    exact ⟨e, List.mem_append_left _ he, hwq⟩

theorem CoGroup.Good.immediateWake (h : s.Good isFsm place) (hcode : s.InCode) (retval : Int)
    (retvalp : Option V) :
    Keeps Stop.undefined (CoGroup.Well isFsm) (s.immediateWake retval retvalp) := by
  have hwoken : ∃ e ∈ (s.waits.immediateWake s.coSelf retval retvalp).events s.coSelf,
      e.wq = none := by
    rw [Waits.events_immediateWake, Function.update_self]
    exact ⟨_, List.mem_append_right _ List.mem_cons_self, rfl⟩
  have hgood : { s with waits := s.waits.immediateWake s.coSelf retval retvalp }.Good isFsm place := by
    refine h.register h.member_coSelf (h.sound.immediateWake _ _ _) (fun u hu => ?_) fun _ => hwoken
    rw [Waits.events_immediateWake, Function.update_of_ne hu]
  refine Keeps.ite (fun _ => Keeps.throws nofun) fun _ => ?_
  cases hready : s.ready s.coSelf with
  | true => exact Keeps.ok ⟨place, hgood⟩
  | false =>
    refine Keeps.bind (makeReady_keeps h.shows s.coSelf) fun lists ⟨hnone, hlists⟩ => ?_
    refine Keeps.ok ⟨_, hgood.relist s.coSelf rfl rfl rfl rfl
      (fun u hu => ⟨rfl, rfl, Function.update_of_ne hu _ _⟩) hlists hgood.sound ?_⟩
    have hknows := hgood.knows s.coSelf
    have hmember := h.member_coSelf
    have hplace : Function.update place s.coSelf (some .ready) s.coSelf = some .ready :=
      Function.update_self ..
    cases hfsm : isFsm s.coSelf with
    | true =>
      refine CoGroup.knows_of_fsm hfsm ?_ hmember
      rw [hplace]
      exact FsmAllows.wake hwoken
    | false =>
      refine CoGroup.knows_of_thread hfsm ?_ hmember
      rw [hplace]
      refine (hknows.thread hmember hfsm).wake hwoken fun hp => ?_
      rw [h.coSelf_eq hfsm] at hp
      exact (h.inCode hcode).2 hp

/-- Events of any number of threads are woken, all of which are ready then. -/
theorem CoGroup.Good.wake_eq (h : s.Good isFsm place) (hreturning : s.phase s.current ≠ .returning)
    {op : WaitOp T Q V} (hwake : op.isWake = true) (hvalid : op.Valid) :
    ∃ s', s.wake op = .ok s' ∧
      s'.Good isFsm fun t => if t ∈ (op.wakes s.waits.queue).map (·.1) then some .ready
        else place t := by
  obtain ⟨q, retval, k, hexec, hwakes⟩ := WaitOp.wakes_eq hwake s.waits
  obtain ⟨lists, hlists, hshows⟩ := foldlM_doEventWake h.shows ((op.wakes s.waits.queue).map (·.1))
  refine ⟨{ s with waits := s.waits.exec op, lists }, ?_, hshows, h.sound.exec op, h.current,
    h.nodup, h.fsms, h.code, fun t => ?_⟩
  · rw [wake, hwake, if_neg (by simp), if_neg (not_not.mpr hvalid), hlists]
    rfl
  have hknows := h.knows t
  cases hmember : s.member t with
  | false =>
    rw [Knows, hmember] at hknows
    have hnot : t ∉ (op.wakes s.waits.queue).map (·.1) := by
      rw [hwakes]
      rintro ht
      obtain ⟨r, hr, rfl⟩ := List.mem_map.mp ht
      obtain ⟨e, he, -⟩ := (h.sound.mem_iff q r).mp (List.mem_of_mem_take hr)
      rw [hknows.1] at he
      cases he
    rw [Knows, hmember, if_neg hnot, hexec]
    exact ⟨events_wakeFirst_nil hknows.1, hknows.2⟩
  | true =>
    have hmono (hwoken : s.WasWoken t) : ∃ e ∈ (s.waits.exec op).events t, e.wq = none := by
      rw [hexec]
      exact exists_woken_wakeFirst hwoken
    have hset (ht : t ∈ (op.wakes s.waits.queue).map (·.1)) :
        ∃ e ∈ (s.waits.exec op).events t, e.wq = none := by
      rw [hwakes] at ht
      obtain ⟨⟨t, j⟩, hr, rfl⟩ := List.mem_map.mp ht
      rw [hexec]
      exact woken_of_mem_wakes h.sound hr
    cases hfsm : isFsm t with
    | true =>
      refine knows_of_fsm hfsm ?_ hmember
      split
      · next ht => exact FsmAllows.wake (hset ht)
      · exact (hknows.fsm hmember hfsm).mono hmono
    | false =>
      refine knows_of_thread hfsm ?_ hmember
      split
      · next ht =>
        refine (hknows.thread hmember hfsm).wake (hset ht) fun hp => ?_
        have hthread := hknows.thread hmember hfsm
        rw [hp] at hthread
        rw [hthread.1] at hp
        exact hreturning hp
      · exact (hknows.thread hmember hfsm).mono hmono

theorem CoGroup.Good.wake (h : s.Good isFsm place) (hreturning : s.phase s.current ≠ .returning)
    (op : WaitOp T Q V) : Keeps Stop.undefined (CoGroup.Well isFsm) (s.wake op) := by
  by_cases hwake : op.isWake = true
  · by_cases hvalid : op.Valid
    · obtain ⟨s', hs', hgood⟩ := h.wake_eq hreturning hwake hvalid
      rw [hs']
      exact Keeps.ok ⟨_, hgood⟩
    · rw [CoGroup.wake, hwake, if_neg (by simp), if_pos hvalid]
      exact Keeps.throws nofun
  · rw [CoGroup.wake, if_pos (by simpa using hwake)]
    exact Keeps.throws nofun

end Registering

section Moves

/-! ## The current thread -/

variable {T Q V : Type} [DecidableEq T] {isFsm : T → Bool} {s s' : CoGroup T Q V}
  {place place' : T → Option RunList} {n : NodeLists RunList T} {t : T}

/-- The thread that runs goes on elsewhere, and no machine runs. -/
theorem CoGroup.Good.moves (h : s.Good isFsm place) (hfsms : s.fsms = []) {w : Waits T Q V}
    {p : Phase} (hothers : ∀ u, u ≠ s.current →
      w.events u = s.waits.events u ∧ place' u = place u) (hshows : n.Shows place')
    (hsound : w.Sound) (hallows : p.Allows True (∃ e ∈ w.events s.current, e.wq = none)
      (place' s.current)) :
    ({ s with waits := w, lists := n }.setPhase s.current p).Good isFsm place' := by
  refine h.change s.current (fun u hu => ?_) rfl hshows hsound h.nodup h.current.1
    (h.fsms s.current) (fun hcode => absurd hfsms hcode) ?_
  · obtain ⟨hevents, hplace⟩ := hothers u hu
    exact ⟨rfl, Function.update_of_ne hu _ _, Iff.rfl, rfl, hevents, hplace⟩
  · refine CoGroup.knows_of_thread h.current.2 ?_ h.current.1
    have hphase : (Function.update s.phase s.current p) s.current = p := Function.update_self ..
    change ((Function.update s.phase s.current p) s.current).Allows (s.current = s.current)
      (∃ e ∈ w.events s.current, e.wq = none) (place' s.current)
    rwa [hphase, eq_true (rfl : s.current = s.current)]

omit [DecidableEq T] in
/-- What is known of the thread that has the processor. -/
theorem CoGroup.Good.allows (h : s.Good isFsm place) :
    (s.phase s.current).Allows True (s.WasWoken s.current) (place s.current) := by
  have hallows := (h.knows s.current).thread h.current.1 h.current.2
  rwa [eq_true (rfl : s.current = s.current)] at hallows

/-- `co_yield` returns at once when no one is ready; else the thread becomes ready. -/
theorem CoGroup.Good.coYield (h : s.Good isFsm place) (hfsms : s.fsms = []) {p done : Phase}
    (hdone : place s.current ≠ some .ready →
      done.Allows True (s.WasWoken s.current) (place s.current))
    (hp : p.Allows True (s.WasWoken s.current) (some .ready)) :
    Keeps Stop.undefined (CoGroup.Well isFsm) (s.coYield p done) := by
  refine Keeps.ite (fun hnil => ?_) fun _ => ?_
  · exact Keeps.ok ⟨place, h.moves hfsms (fun _ _ => ⟨rfl, rfl⟩) h.shows h.sound
      (hdone (h.shows.ne_of_nil hnil _))⟩
  cases hready : s.ready s.current with
  | true =>
    have hplace := (h.shows.flag .ready s.current).mp hready
    refine Keeps.ok ⟨place, h.moves hfsms (fun _ _ => ⟨rfl, rfl⟩) h.shows h.sound ?_⟩
    rw [hplace]
    exact hp
  | false =>
    refine Keeps.bind (makeReady_keeps h.shows s.current) fun lists ⟨_, hlists⟩ => ?_
    refine Keeps.ok ⟨_, h.moves hfsms (fun u hu => ⟨rfl, Function.update_of_ne hu _ _⟩) hlists
      h.sound ?_⟩
    rw [Function.update_self]
    exact hp

/-- A thread that blocks is not ready, or has an event that has been woken. -/
theorem CoGroup.Good.coBlock (h : s.Good isFsm place) (hfsms : s.fsms = [])
    (hrunning : s.phase s.current = .running) :
    Keeps Stop.undefined (CoGroup.Well isFsm) s.coBlock := by
  have hallows := h.allows
  rw [hrunning] at hallows
  unfold CoGroup.coBlock
  rcases removeFromLists_eq h.shows s.current [.ready] with
    ⟨l, hl, hplace, n', hremove, hshows⟩ | ⟨hne, hremove⟩
  · rw [hremove, ok_bind]
    refine Keeps.ok ⟨_, h.moves hfsms (fun u hu => ⟨rfl, Function.update_of_ne hu _ _⟩) hshows
      h.sound ?_⟩
    rw [Function.update_self]
    refine ⟨trivial, ?_, .inl rfl⟩
    rcases hallows.2 with hnone | hready
    · exact absurd (hplace.symm.trans hnone) nofun
    · exact hready.2
  · rw [hremove, ok_bind]
    refine Keeps.bind (makeBlocking_keeps h.shows s.current) fun lists ⟨_, hlists⟩ => ?_
    refine Keeps.ok ⟨_, h.moves hfsms (fun u hu => ⟨rfl, Function.update_of_ne hu _ _⟩) hlists
      h.sound ?_⟩
    rw [Function.update_self]
    exact .inl rfl

/-- The end of `co_block` is reached with an event that has been woken, and on no list. -/
theorem CoGroup.Good.blockReturn_eq (h : s.Good isFsm place) (hfsms : s.fsms = [])
    (hreturning : s.phase s.current = .returning) :
    s.WasWoken s.current ∧ s.blockReturn =
      .ok ({ s with waits := s.waits.cancelEvents s.current }.setPhase s.current .running) ∧
      ({ s with waits := s.waits.cancelEvents s.current }.setPhase s.current .running).Good isFsm
        place := by
  have hallows := h.allows
  rw [hreturning] at hallows
  obtain ⟨-, hwoken, hplace⟩ := hallows
  refine ⟨hwoken, ?_, ?_⟩
  · have hblocking : s.blocking s.current = false :=
      h.shows.flag_eq_false (by rw [hplace]; nofun)
    have hready : s.ready s.current = false := h.shows.flag_eq_false (by rw [hplace]; nofun)
    change (if (s.blocking s.current || s.ready s.current) = true then _ else _) = _
    rw [hblocking, hready]
    rfl
  · refine h.moves hfsms (fun u hu => ⟨Function.update_of_ne hu _ _, rfl⟩) h.shows
      (h.sound.cancelEvents _) ⟨trivial, .inl hplace⟩

end Moves

section Machines

/-! ## Machines -/

variable {T Q V : Type} [DecidableEq T] {isFsm : T → Bool} {s s' : CoGroup T Q V}
  {place place' : T → Option RunList} {n : NodeLists RunList T} {t f : T}

/-- Whatever list a thread is on, it is on none of these afterwards. -/
theorem removeFromLists_keeps (h : n.Shows place) (t : T) (flags : List RunList) :
    Keeps Stop.undefined (fun p => ∃ place' : T → Option RunList, p.2.Shows place' ∧
      (∀ u, u ≠ t → place' u = place u) ∧ ∀ l ∈ flags, place' t ≠ some l)
      (removeFromLists n t flags) := by
  rcases removeFromLists_eq h t flags with ⟨l, hl, hplace, n', hremove, hshows⟩ | ⟨hne, hremove⟩
  · rw [hremove]
    refine Keeps.ok ⟨_, hshows, fun u hu => Function.update_of_ne hu _ _, fun l _ => ?_⟩
    rw [Function.update_self]
    nofun
  · rw [hremove]
    exact Keeps.ok ⟨place, h, fun _ _ => rfl, hne⟩

omit [DecidableEq T] in
theorem eq_none_of_both (h : ∀ l ∈ [RunList.ready, RunList.block], place t ≠ some l) :
    place t = none := by
  cases hplace : place t with
  | none => rfl
  | some l =>
    refine absurd hplace (h l ?_)
    cases l <;> simp

/-- A new thread or machine is ready. -/
theorem CoGroup.Good.create (h : s.Good isFsm place) (thread : T) :
    Keeps Stop.undefined (CoGroup.Well isFsm) (s.create thread) := by
  refine Keeps.ite (fun _ => Keeps.throws nofun) fun hmember => ?_
  have hnotin : thread ∉ s.fsms := fun hmem => hmember (h.fsms thread hmem).1
  have hne : s.current ≠ thread := by
    rintro rfl
    exact hmember h.current.1
  refine Keeps.bind (makeReady_keeps h.shows thread) fun lists ⟨_, hlists⟩ => ?_
  refine Keeps.ok ⟨_, h.change thread (fun u hu => ?_) rfl hlists h.sound h.nodup ?_
    (fun hmem => absurd hmem hnotin) (fun hcode => ?_) ?_⟩
  · exact ⟨Function.update_of_ne hu _ _, Function.update_of_ne hu _ _, Iff.rfl,
      Function.update_of_ne hu _ _, rfl, Function.update_of_ne hu _ _⟩
  · dsimp only
    rw [Function.update_of_ne hne]
    exact h.current.1
  · dsimp only
    rw [Function.update_of_ne hne]
    exact h.code hcode
  · have hplace : Function.update place thread (some .ready) thread = some .ready :=
      Function.update_self ..
    cases hfsm : isFsm thread with
    | true =>
      refine CoGroup.knows_of_fsm hfsm ⟨fun hmem => absurd hmem hnotin, fun _ => ?_⟩
        (Function.update_self ..)
      rw [hplace]
      nofun
    | false =>
      refine CoGroup.knows_of_thread hfsm ?_ (Function.update_self ..)
      dsimp only
      rw [hplace, Function.update_self]
      exact rfl

/-- A machine of the group that does not run passes the assertions on it. -/
theorem CoGroup.dormant_of_not (h : ¬(!s.member f || !isFsm f || s.fsms.contains f) = true) :
    s.member f = true ∧ isFsm f = true ∧ f ∉ s.fsms := by
  simp only [Bool.or_eq_true, Bool.not_eq_true', List.contains_iff_mem, not_or,
    Bool.not_eq_false] at h
  exact ⟨h.1.1, h.1.2, h.2⟩

/-- A machine that is on no list is called. -/
theorem CoGroup.Good.runFsm (h : s.Good isFsm place) (hshows : n.Shows place')
    (hothers : ∀ u, u ≠ f → place' u = place u) (hplace : place' f = none)
    (hcode : s.phase s.current ≠ .polling ∧ s.phase s.current ≠ .returning) :
    Keeps Stop.undefined (CoGroup.Well isFsm) ({ s with lists := n }.runFsm isFsm f) := by
  refine Keeps.ite (fun _ => Keeps.throws nofun) fun hcond => ?_
  obtain ⟨hmember, hfsm, hnotin⟩ := CoGroup.dormant_of_not hcond
  refine Keeps.ok ⟨place', h.change f (fun u hu => ?_) rfl hshows (h.sound.cancelEvents f)
    (List.nodup_cons.mpr ⟨hnotin, h.nodup⟩) h.current.1 (fun _ => ⟨hmember, hfsm⟩)
    (fun _ => hcode) ?_⟩
  · exact ⟨rfl, rfl, List.mem_cons.trans (or_iff_right hu), Function.update_of_ne hu _ _,
      Function.update_of_ne hu _ _, hothers u hu⟩
  · exact CoGroup.knows_of_fsm hfsm
      ⟨fun _ _ => .inl hplace, fun hnot => absurd List.mem_cons_self hnot⟩ hmember

/-- `co_fsm_run`, of a machine on any list -/
theorem CoGroup.Good.fsmRun (h : s.Good isFsm place) (hshows : n.Shows place')
    (hothers : ∀ u, u ≠ f → place' u = place u)
    (hcode : s.phase s.current ≠ .polling ∧ s.phase s.current ≠ .returning) :
    Keeps Stop.undefined (CoGroup.Well isFsm) ({ s with lists := n }.fsmRun isFsm f) := by
  refine Keeps.bind (removeFromLists_keeps hshows f [.ready, .block]) ?_
  rintro ⟨removed, lists⟩ ⟨place₁, hlists, hrest, hnone⟩
  exact h.runFsm hlists (fun u hu => (hrest u hu).trans (hothers u hu)) (eq_none_of_both hnone) hcode

omit [DecidableEq T] in
/-- A machine that does not run is put on a list. -/
theorem CoGroup.Good.listed (h : s.Good isFsm place) (hmember : s.member f = true)
    (hfsm : isFsm f = true) (hnotin : f ∉ s.fsms) (hshows : n.Shows place')
    (hothers : ∀ u, u ≠ f → place' u = place u) (hplace : place' f ≠ none) :
    { s with lists := n }.Good isFsm place' :=
  h.relist f rfl rfl rfl rfl (fun u hu => ⟨rfl, rfl, hothers u hu⟩) hshows h.sound
    (CoGroup.knows_of_fsm hfsm ⟨fun hmem => absurd hmem hnotin, fun _ => hplace⟩ hmember)

theorem CoGroup.Good.fsmWake (h : s.Good isFsm place) (f : T) :
    Keeps Stop.undefined (CoGroup.Well isFsm) (s.fsmWake isFsm f) := by
  refine Keeps.ite (fun _ => Keeps.throws nofun) fun hcond => ?_
  obtain ⟨hmember, hfsm, hnotin⟩ := CoGroup.dormant_of_not hcond
  refine Keeps.ite (fun _ => ?_) fun _ => Keeps.ok ⟨place, h⟩
  refine Keeps.bind (removeFromLists_keeps h.shows f [.block]) ?_
  rintro ⟨removed, lists⟩ ⟨place₁, hlists, hrest, -⟩
  refine Keeps.bind (makeReady_keeps hlists f) fun lists' ⟨_, hlists'⟩ => ?_
  refine Keeps.ok ⟨_, h.listed hmember hfsm hnotin hlists' (fun u hu => ?_) ?_⟩
  · rw [Function.update_of_ne hu]
    exact hrest u hu
  · rw [Function.update_self]
    nofun

theorem CoGroup.Good.fsmKill (h : s.Good isFsm place) (f : T) :
    Keeps Stop.undefined (CoGroup.Well isFsm) (s.fsmKill isFsm f) := by
  refine Keeps.ite (fun _ => Keeps.throws nofun) fun hcond => ?_
  obtain ⟨hmember, hfsm, hnotin⟩ := CoGroup.dormant_of_not hcond
  have hne : s.current ≠ f := by
    rintro rfl
    exact absurd (h.current.2.symm.trans hfsm) nofun
  refine Keeps.bind (removeFromLists_keeps h.shows f [.ready, .block]) ?_
  rintro ⟨removed, lists⟩ ⟨place₁, hlists, hrest, hnone⟩
  refine Keeps.ok ⟨place₁, h.change f (fun u hu => ?_) rfl hlists (h.sound.cancelEvents f) h.nodup
    ?_ (fun hmem => absurd hmem hnotin) h.code ?_⟩
  · exact ⟨Function.update_of_ne hu _ _, rfl, Iff.rfl, rfl, Function.update_of_ne hu _ _, hrest u hu⟩
  · dsimp only
    rw [Function.update_of_ne hne]
    exact h.current.1
  · exact CoGroup.knows_of_gone (Function.update_self ..) (Function.update_self ..)
      (eq_none_of_both hnone)

/-- The machine that runs takes its action. -/
theorem CoGroup.Good.fsmActs (h : s.Good isFsm place) :
    Keeps Stop.undefined (fun p => p.2.Good isFsm place ∧ p.1 ∈ p.2.fsms ∧
      p.2.fsmAction p.1 = true) s.fsmActs := by
  unfold CoGroup.fsmActs
  cases hfsms : s.fsms with
  | nil => exact Keeps.throws nofun
  | cons f fsms =>
    refine Keeps.ite (fun _ => Keeps.throws nofun) fun _ => ?_
    have hmem : f ∈ s.fsms := by
      rw [hfsms]
      exact List.mem_cons_self
    obtain ⟨hmember, hfsm⟩ := h.fsms f hmem
    refine Keeps.ok ⟨?_, List.mem_cons_self, Function.update_self ..⟩
    refine h.relist f rfl rfl hfsms.symm rfl (fun u hu => ⟨Function.update_of_ne hu _ _, rfl, rfl⟩)
      h.shows h.sound (CoGroup.knows_of_fsm hfsm ⟨fun _ hacted => ?_, ?_⟩ hmember)
    · exact absurd (Function.update_self ..) hacted
    · exact fun hnot => absurd List.mem_cons_self hnot

omit [DecidableEq T] in
/-- A machine that has taken its action may be on any list. -/
theorem CoGroup.Good.acted (h : s.Good isFsm place) (hmem : f ∈ s.fsms)
    (hacted : s.fsmAction f = true) (hshows : n.Shows place')
    (hothers : ∀ u, u ≠ f → place' u = place u) : { s with lists := n }.Good isFsm place' := by
  obtain ⟨hmember, hfsm⟩ := h.fsms f hmem
  exact h.relist f rfl rfl rfl rfl (fun u hu => ⟨rfl, rfl, hothers u hu⟩) hshows h.sound
    (CoGroup.knows_of_fsm hfsm ⟨fun _ hnot => absurd hacted hnot, fun hnot => absurd hmem hnot⟩
      hmember)

theorem CoGroup.Good.fsmBlock (h : s.Good isFsm place) :
    Keeps Stop.undefined (CoGroup.Well isFsm) s.fsmBlock := by
  refine Keeps.bind h.fsmActs ?_
  rintro ⟨f, s₁⟩ ⟨hgood, hmem, hacted⟩
  refine Keeps.ite (fun _ => ?_) fun _ => Keeps.ok ⟨place, hgood⟩
  refine Keeps.bind (makeBlocking_keeps hgood.shows f) fun lists ⟨_, hlists⟩ => ?_
  exact Keeps.ok ⟨_, hgood.acted hmem hacted hlists fun u hu => Function.update_of_ne hu _ _⟩

theorem CoGroup.Good.fsmYield (h : s.Good isFsm place) :
    Keeps Stop.undefined (CoGroup.Well isFsm) s.fsmYield := by
  refine Keeps.bind h.fsmActs ?_
  rintro ⟨f, s₁⟩ ⟨hgood, hmem, hacted⟩
  refine Keeps.bind (makeReady_keeps hgood.shows f) fun lists ⟨_, hlists⟩ => ?_
  exact Keeps.ok ⟨_, hgood.acted hmem hacted hlists fun u hu => Function.update_of_ne hu _ _⟩

theorem CoGroup.Good.fsmExit (h : s.Good isFsm place) :
    Keeps Stop.undefined (CoGroup.Well isFsm) s.fsmExit := by
  refine Keeps.bind h.fsmActs ?_
  rintro ⟨f, s₁⟩ ⟨hgood, -, -⟩
  exact Keeps.ok ⟨place, hgood.shows, hgood.sound, hgood.current, hgood.nodup, hgood.fsms,
    hgood.code, hgood.knows⟩

theorem CoGroup.Good.fsmRest (h : s.Good isFsm place) :
    Keeps Stop.undefined (CoGroup.Well isFsm) s.fsmRest :=
  Keeps.ite (fun _ => Keeps.throws nofun) fun _ => h.fsmBlock

/-- A machine that returns is on a list or deleted. -/
theorem CoGroup.Good.fsmReturn (h : s.Good isFsm place) :
    Keeps Stop.undefined (CoGroup.Well isFsm) s.fsmReturn := by
  unfold CoGroup.fsmReturn
  cases hfsms : s.fsms with
  | nil => exact Keeps.throws nofun
  | cons f fsms =>
    have hnodup := h.nodup
    have hcode := h.code (by rw [hfsms]; nofun)
    rw [hfsms, List.nodup_cons] at hnodup
    obtain ⟨hmember, hfsm⟩ := h.fsms f (by rw [hfsms]; exact List.mem_cons_self)
    have hrest (u : T) (hu : u ≠ f) : u ∈ fsms ↔ u ∈ s.fsms := by
      rw [hfsms, List.mem_cons]
      exact (or_iff_right hu).symm
    have hne : s.current ≠ f := by
      rintro rfl
      exact absurd (h.current.2.symm.trans hfsm) nofun
    refine Keeps.ite (fun _ => Keeps.throws nofun) fun _ => Keeps.ite (fun _ => ?_) fun _ => ?_
    · refine Keeps.ite (fun _ => Keeps.throws nofun) fun hcond => ?_
      simp only [Bool.or_eq_true, decide_eq_true_eq, not_or, ne_eq, not_not] at hcond
      obtain ⟨⟨hready, hblocking⟩, hevents⟩ := hcond
      have hnone : place f = none := none_of_flags h.shows (by
        rw [Bool.or_eq_true, not_or]
        exact ⟨hblocking, hready⟩)
      refine Keeps.ok ⟨place, h.change f (fun u hu => ?_) rfl h.shows h.sound hnodup.2 ?_
        (fun hmem => absurd hmem hnodup.1) (fun _ => hcode) ?_⟩
      · exact ⟨Function.update_of_ne hu _ _, rfl, hrest u hu, rfl, rfl, rfl⟩
      · dsimp only
        rw [Function.update_of_ne hne]
        exact h.current.1
      · exact CoGroup.knows_of_gone (Function.update_self ..) hevents hnone
    · refine Keeps.ite (fun hcond => ?_) fun _ => Keeps.throws nofun
      refine Keeps.ok ⟨place, h.change f (fun u hu => ?_) rfl h.shows h.sound hnodup.2 h.current.1
        (fun hmem => absurd hmem hnodup.1) (fun _ => hcode)
        (CoGroup.knows_of_fsm hfsm ⟨fun hmem => absurd hmem hnodup.1, fun _ hnone => ?_⟩ hmember)⟩
      · exact ⟨rfl, rfl, hrest u hu, rfl, rfl, rfl⟩
      · rw [Bool.or_eq_true] at hcond
        rcases hcond with hready | hblocking
        · exact absurd (((h.shows.flag .ready f).mp hready).symm.trans hnone) nofun
        · exact absurd (((h.shows.flag .block f).mp hblocking).symm.trans hnone) nofun

end Machines

section Steps

/-! ## Steps and runs -/

variable {T Q V : Type} [DecidableEq T] [DecidableEq Q] [DecidableEq V] {isFsm : T → Bool}
  {s s' : CoGroup T Q V} {place : T → Option RunList}
  {history : List (CoGroup T Q V × CoOp T Q V)} {t : T}

/-- The thread that is taken from the ready list goes on from where it was. -/
theorem Phase.Allows.scheduled {p : Phase} {current woken : Prop}
    (h : p.Allows current woken (some .ready)) (hschedule : current → p.inSchedule = true) :
    p.scheduled.Allows True woken none := by
  cases p with
  | start => exact ⟨trivial, .inl rfl⟩
  | yielding => exact ⟨trivial, .inl rfl⟩
  | running => exact absurd (hschedule h.1) nofun
  | blocking =>
    rcases h with hblock | hready
    · cases hblock
    · exact ⟨trivial, hready.2, rfl⟩
  | polling => exact absurd (hschedule h.1) nofun
  | blockYielding => exact ⟨trivial, h.2, rfl⟩
  | returning => exact absurd h.2.2 nofun

/-- Who does not have the processor does not need it. -/
theorem Phase.Allows.waits {p : Phase} {current current' woken : Prop} {l : Option RunList}
    (h : p.Allows current woken l) (hschedule : current → p.inSchedule = true) :
    p.Allows current' woken l := by
  cases p with
  | start => exact h
  | yielding => exact h
  | running => exact absurd (hschedule h.1) nofun
  | blocking => exact h
  | polling => exact absurd (hschedule h.1) nofun
  | blockYielding => exact h
  | returning => exact absurd (hschedule h.1) nofun

omit [DecidableEq Q] [DecidableEq V] in
theorem CoGroup.Good.schedule (h : s.Good isFsm place) (hfsms : s.fsms = [])
    (hschedule : (s.phase s.current).inSchedule = true) :
    Keeps Stop.undefined (CoGroup.Well isFsm) (s.schedule isFsm) := by
  have hcode : s.phase s.current ≠ .polling ∧ s.phase s.current ≠ .returning := by
    constructor <;> intro hp <;> rw [hp] at hschedule <;> cases hschedule
  have hin {u : T} (hu : u = s.current) : (s.phase u).inSchedule = true := by
    rw [hu]
    exact hschedule
  unfold CoGroup.schedule
  cases hlist : s.lists.list .ready with
  | nil => exact Keeps.throws nofun
  | cons p rest =>
    obtain ⟨i, next⟩ := p
    obtain ⟨hplace, hshows⟩ :=
      h.shows.popFront hlist (List.mem_cons_self : RunList.ready ∈ [RunList.ready])
    refine Keeps.ite (fun _ => ?_) fun hfsm => ?_
    · exact h.fsmRun hshows (fun u hu => Function.update_of_ne hu _ _) hcode
    have hmember := (h.knows next).member (by rw [hplace]; nofun)
    have hthread : isFsm next = false := by simpa using hfsm
    have hnext := (h.knows next).thread hmember hthread
    rw [hplace] at hnext
    refine Keeps.ok ⟨_, hshows, h.sound, ⟨hmember, hthread⟩, h.nodup, h.fsms,
      fun hne => absurd hfsms hne, fun u => ?_⟩
    by_cases hu : u = next
    · subst hu
      refine CoGroup.knows_of_thread hthread ?_ hmember
      change (Function.update s.phase u (s.phase u).scheduled u).Allows (u = u) (s.WasWoken u)
        (Function.update place u none u)
      rw [Function.update_self, Function.update_self, eq_true (rfl : u = u)]
      exact hnext.scheduled hin
    · have hphase : Function.update s.phase next (s.phase next).scheduled u = s.phase u :=
        Function.update_of_ne hu _ _
      have hplace' : Function.update place next none u = place u := Function.update_of_ne hu _ _
      have hknows := h.knows u
      unfold CoGroup.Knows at hknows ⊢
      change if s.member u = true then
          if isFsm u = true then FsmAllows (u ∈ s.fsms) (s.fsmAction u = true) (s.WasWoken u)
            (Function.update place next none u)
          else (Function.update s.phase next (s.phase next).scheduled u).Allows (u = next)
            (s.WasWoken u) (Function.update place next none u)
        else s.waits.events u = [] ∧ Function.update place next none u = none
      rw [hphase, hplace']
      split
      · next hmemberu =>
        rw [if_pos hmemberu] at hknows
        split
        · next hfsmu => rwa [if_pos hfsmu] at hknows
        · next hfsmu =>
          rw [if_neg hfsmu] at hknows
          exact hknows.waits hin
      · next hmemberu => rwa [if_neg hmemberu] at hknows

/-- A step leaves the group well, and uses no iterator wrongly. -/
theorem CoGroup.Good.step (h : s.Good isFsm place) (op : CoOp T Q V) :
    Keeps Stop.undefined (CoGroup.Well isFsm) (s.step isFsm op) := by
  cases op with
  | create thread => exact Keeps.ite (fun _ => h.create thread) fun _ => Keeps.throws nofun
  | wait q retvalp =>
    exact Keeps.ite (fun _ => Keeps.ok ⟨place, h.wait q retvalp⟩) fun _ => Keeps.throws nofun
  | immediateWake retval retvalp =>
    exact Keeps.ite (fun hcode => h.immediateWake hcode retval retvalp) fun _ => Keeps.throws nofun
  | wake op =>
    refine Keeps.ite (fun hwho => h.wake ?_ op) fun _ => Keeps.throws nofun
    rcases hwho with hcode | hpolling
    · exact (h.inCode hcode).2
    · rw [hpolling]
      nofun
  | coYield =>
    refine Keeps.ite (fun ⟨hfsms, hrunning⟩ => ?_) fun _ => Keeps.throws nofun
    have hallows := h.allows
    rw [hrunning] at hallows
    exact h.coYield hfsms (fun hne => ⟨trivial, .inl (hallows.2.resolve_right fun hready =>
      hne hready.1)⟩) rfl
  | coBlock =>
    exact Keeps.ite (fun ⟨hfsms, hrunning⟩ => h.coBlock hfsms hrunning) fun _ => Keeps.throws nofun
  | fsmRun f =>
    exact Keeps.ite (fun hcode => h.fsmRun h.shows (fun _ _ => rfl) (h.inCode hcode))
      fun _ => Keeps.throws nofun
  | fsmWake f => exact Keeps.ite (fun _ => h.fsmWake f) fun _ => Keeps.throws nofun
  | fsmKill f => exact Keeps.ite (fun _ => h.fsmKill f) fun _ => Keeps.throws nofun
  | fsmBlock => exact h.fsmBlock
  | fsmRest => exact h.fsmRest
  | fsmYield => exact h.fsmYield
  | fsmExit => exact h.fsmExit
  | fsmReturn => exact h.fsmReturn
  | polled =>
    refine Keeps.ite (fun ⟨hfsms, hpolling⟩ => ?_) fun _ => Keeps.throws nofun
    have hallows := h.allows
    rw [hpolling] at hallows
    exact h.coYield hfsms (fun hne => ⟨trivial, hallows.2.1, hallows.2.2.resolve_right hne⟩)
      ⟨rfl, hallows.2.1⟩
  | schedule =>
    exact Keeps.ite (fun ⟨hfsms, hschedule⟩ => h.schedule hfsms hschedule)
      fun _ => Keeps.throws nofun
  | blockReturn =>
    refine Keeps.ite (fun ⟨hfsms, hreturning⟩ => ?_) fun _ => Keeps.throws nofun
    obtain ⟨-, hreturn, hgood⟩ := h.blockReturn_eq hfsms hreturning
    rw [hreturn]
    exact Keeps.ok ⟨place, hgood⟩

omit [DecidableEq Q] [DecidableEq V] in
theorem CoGroup.good_init (thread : T) (vars : V → Int) (h : isFsm thread = false) :
    (CoGroup.init thread vars : CoGroup T Q V).Good isFsm fun _ => none where
  shows := NodeLists.shows_empty
  sound := Waits.sound_init vars
  current := ⟨decide_eq_true rfl, h⟩
  nodup := List.nodup_nil
  fsms := nofun
  code := fun hne => absurd rfl hne
  knows := by
    intro t
    by_cases ht : t = thread
    · subst ht
      exact CoGroup.knows_of_thread h ⟨rfl, .inl rfl⟩ (decide_eq_true rfl)
    · exact CoGroup.knows_of_gone (decide_eq_false ht) rfl rfl

theorem CoGroup.Run.well (h : CoGroup.Run isFsm history s) : s.Well isFsm := by
  induction h with
  | init thread vars hthread => exact ⟨_, CoGroup.good_init thread vars hthread⟩
  | step _ hstep ih =>
    obtain ⟨place, hgood⟩ := ih
    exact (hgood.step _).2 _ hstep

end Steps

end Nox.Threads
