import Mathlib.Algebra.BigOperators.Group.Finset.Piecewise
import Mathlib.Algebra.Order.BigOperators.Group.Finset
import Nox.Poll.Loop

/-!
# Safety of the poll loop

Whatever callbacks do and however threads are scheduled, only one thread acts as the polling
thread, no pollable is called after its removal, and nodes are freed once, when no thread is
in a callback of theirs.  The invariant counts for each node the threads that are there.
-/

namespace Nox.Poll

open Lib (Node RefList Reaches runs bump bump_of_ne bump_self)

section Holders

/-! ## The holders of a node -/

variable {m : Nat}

def Place.held (q : Place) (id : Nat) : Nat := if q.node = some id then 1 else 0

/-- How many threads hold a node. -/
def holders (place : Thread m → Place) (id : Nat) : Nat := ∑ t, (place t).held id

theorem holders_update (place : Thread m → Place) (t : Thread m) (q : Place) (id : Nat) :
    holders (Function.update place t q) id + (place t).held id =
      holders place id + q.held id := by
  have hmap : (fun u => (Function.update place t q u).held id) =
      Function.update (fun u => (place u).held id) t (q.held id) := by
    funext u
    by_cases hu : u = t
    · rw [hu, Function.update_self, Function.update_self]
    · rw [Function.update_of_ne hu, Function.update_of_ne hu]
  unfold holders
  rw [hmap, Finset.sum_update_of_mem (Finset.mem_univ t),
    ← Finset.add_sum_erase _ _ (Finset.mem_univ t), Finset.sdiff_singleton_eq_erase]
  omega

variable {place : Thread m → Place} {t : Thread m} {q : Place} {id : Nat}

/-- A thread that moves between places without a node holds nothing before and after. -/
theorem holders_same (hplace : (place t).node = q.node) :
    holders (Function.update place t q) = holders place := by
  funext id
  have hupdate := holders_update place t q id
  rw [Place.held, Place.held, hplace] at hupdate
  exact Nat.add_right_cancel hupdate

theorem holders_take (hplace : (place t).node = none) (hq : q.node = some id) :
    holders (Function.update place t q) = bump (holders place) id := by
  funext i
  have hupdate := holders_update place t q i
  rw [Place.held, Place.held, hplace, hq] at hupdate
  by_cases hi : i = id
  · rw [hi, bump_self]
    rw [hi, if_neg (Option.some_ne_none id).symm, if_pos rfl] at hupdate
    omega
  · rw [bump_of_ne hi]
    rw [if_neg (Option.some_ne_none i).symm, if_neg (by simpa using Ne.symm hi)] at hupdate
    omega

theorem holders_drop (hplace : (place t).node = some id) (hq : q.node = none) :
    holders place = bump (holders (Function.update place t q)) id := by
  have hnone : (Function.update place t q t).node = none := by rw [Function.update_self, hq]
  have htake := holders_take hnone hplace
  rwa [Function.update_idem, Function.update_eq_self] at htake

theorem holders_pos (h : (place t).node = some id) : 0 < holders place id := by
  have hone : (place t).held id = 1 := if_pos h
  have hle := Finset.single_le_sum (f := fun u => (place u).held id)
    (fun _ _ => Nat.zero_le _) (Finset.mem_univ t)
  exact Nat.lt_of_lt_of_le (hone ▸ Nat.one_pos) hle

theorem exists_of_holders_pos (h : 0 < holders place id) : ∃ t, (place t).node = some id := by
  obtain ⟨t, -, ht⟩ := Finset.exists_ne_zero_of_sum_ne_zero (Nat.ne_of_gt h)
  refine ⟨t, ?_⟩
  by_contra hne
  exact ht (if_neg hne)

end Holders

section Invariant

variable {P : Type} [DecidableEq P] {m : Nat}

/-! ## The invariant -/

/-- A place where only the polling thread can be, with this semaphore. -/
def Place.acts (wakeup : Nat) : Place → Prop
  | polling _ hook _ => hook = true
  | yielding | waiting _ | blocked => True
  | dormant => 0 < wakeup
  | outside | running => False

/-- Nothing was called that was not in the set. -/
def CallsPresent : List (Event P) → Prop
  | [] => True
  | .polled p :: history | .waited p :: history =>
    present p history = true ∧ CallsPresent history
  | .added _ :: history | .removed _ :: history => CallsPresent history

namespace PollLoop

/-- The thread acts as the polling thread. -/
def Acts (s : PollLoop P m) (t : Thread m) : Prop := (s.place t).acts (s.wakeup t)

structure Inv (s : PollLoop P m) : Prop where
  counted : s.pollables.Counted (holders s.place)
  live : ∀ id p, s.pollables.Live id p → id = s.position p ∧ present p s.history = true
  listed : ∀ p, present p s.history = true → s.pollables.Live (s.position p) p
  acts : ∀ t, s.Acts t → s.pollingThread = some t
  nodup : s.dormantThreads.Nodup
  asleep : ∀ t ∈ s.dormantThreads, s.place t = .dormant ∧ s.wakeup t = 0
  semaphore : ∀ t, s.wakeup t ≤ 1 ∧ (s.place t ≠ .dormant → s.wakeup t = 0)
  outside : ∀ t, s.place t = .outside →
    t = Fin.last m ∧ ∀ u, u ≠ t → s.place u = .dormant ∧ s.wakeup u = 0
  calls : CallsPresent s.history
  fault : s.fault = false

variable {s : PollLoop P m} {t : Thread m}

omit [DecidableEq P] in
theorem acts_goTo_of_ne {q : Place} {u : Thread m} (hu : u ≠ t) :
    (s.goTo t q).Acts u ↔ s.Acts u := by
  have hplace : (s.goTo t q).place u = s.place u := Function.update_of_ne hu ..
  rw [Acts, hplace]
  exact Iff.rfl

omit [DecidableEq P] in
theorem not_acts_running (h : s.place t = .running) : ¬ s.Acts t := by
  rw [Acts, h]
  exact id

/-- A thread that runs goes to another place, with its list and history. -/
theorem Inv.moved (h : s.Inv) (hrun : s.place t = .running) {q : Place}
    (hq : q ≠ .outside) (hpoll : s.pollingThread = some t) {pollables : RefList P}
    (hcounted : pollables.Counted (holders (Function.update s.place t q)))
    (hlive : ∀ id p, pollables.Live id p ↔ s.pollables.Live id p) {history : List (Event P)}
    (hpresent : ∀ p, present p history = present p s.history) (hcalls : CallsPresent history) :
    ({ s with pollables, history }.goTo t q).Inv := by
  have hplace {u : Thread m} (hu : u ≠ t) : Function.update s.place t q u = s.place u :=
    Function.update_of_ne hu ..
  refine ⟨hcounted, fun id p hl => ?_, fun p hp => ?_, fun u hacts => ?_, h.nodup,
    fun u hu => ?_, fun u => ⟨(h.semaphore u).1, fun hne => ?_⟩, fun u hu => ?_, hcalls,
    h.fault⟩
  · dsimp only [goTo]
    rw [hpresent]
    exact h.live id p ((hlive id p).mp hl)
  · dsimp only [goTo] at hp ⊢
    rw [hpresent] at hp
    exact (hlive _ p).mpr (h.listed p hp)
  · by_cases hu : u = t
    · exact hu ▸ hpoll
    · exact h.acts u ((acts_goTo_of_ne hu).mp hacts)
  · obtain ⟨hdormant, hzero⟩ := h.asleep u hu
    have hne : u ≠ t := fun heq => by rw [heq, hrun] at hdormant; cases hdormant
    exact ⟨(hplace hne).trans hdormant, hzero⟩
  · by_cases hu : u = t
    · refine (h.semaphore u).2 ?_
      rw [hu, hrun]
      exact fun h => nomatch h
    · exact (h.semaphore u).2 fun hdormant => hne ((hplace hu).trans hdormant)
  · by_cases hut : u = t
    · subst hut
      exact absurd ((Function.update_self ..).symm.trans hu) hq
    · have hdormant := ((h.outside u ((hplace hut).symm.trans hu)).2 t (Ne.symm hut)).1
      rw [hrun] at hdormant
      cases hdormant

/-- A thread takes the node of a pollable it calls. -/
theorem Inv.calls_next (h : s.Inv) (hrun : s.place t = .running)
    (hpoll : s.pollingThread = some t) {id : Nat} {p : P} (hid : id ∈ s.pollables.ids)
    (hlive : s.pollables.Live id p) {q : Place} (hq : q.node = some id) {e : Event P}
    (he : e = .polled p ∨ e = .waited p) :
    ({ s with pollables := s.pollables.acquire id, history := e :: s.history }.goTo t q).Inv := by
  have hin : q ≠ .outside := fun h => by rw [h] at hq; cases hq
  have hnode : (s.place t).node = none := by rw [hrun]; rfl
  have hpresent := (h.live id p hlive).2
  refine h.moved hrun hin hpoll ?_ (fun _ _ => RefList.live_acquire) (fun p' => ?_) ?_
  · rw [holders_take hnode hq]
    exact h.counted.acquire hid
  · rcases he with rfl | rfl <;> rfl
  · rcases he with rfl | rfl <;> exact ⟨hpresent, h.calls⟩

/-- A thread goes on to a place without a node. -/
theorem Inv.goes (h : s.Inv) (hrun : s.place t = .running) (hpoll : s.pollingThread = some t)
    {q : Place} (hin : q ≠ .outside) (hq : q.node = none) : (s.goTo t q).Inv := by
  have hnode : (s.place t).node = q.node := by rw [hrun, hq]; rfl
  refine h.moved hrun hin hpoll ?_ (fun _ _ => Iff.rfl) (fun _ => rfl) h.calls
  rw [holders_same hnode]
  exact h.counted

theorem Inv.waitPollables (h : s.Inv) (hrun : s.place t = .running)
    (hpoll : s.pollingThread = some t) {rest : List Nat} (hrest : rest ⊆ s.pollables.ids) :
    (s.waitPollables t rest).Inv := by
  unfold PollLoop.waitPollables
  rcases RefList.seek_spec h.counted hrest with hseek | ⟨id, p, hseek, hid, hlive⟩
  · rw [hseek]
    exact h.goes hrun hpoll (fun h => nomatch h) rfl
  · rw [hseek]
    exact h.calls_next hrun hpoll hid hlive rfl (.inr rfl)

theorem Inv.serviceRest (h : s.Inv) (hrun : s.place t = .running)
    (hpoll : s.pollingThread = some t) (progress : Bool) {rest : List Nat}
    (hrest : rest ⊆ s.pollables.ids) : (s.serviceRest t progress rest).Inv := by
  unfold PollLoop.serviceRest
  rcases RefList.seek_spec h.counted hrest with hseek | ⟨id, p, hseek, hid, hlive⟩
  · rw [hseek]
    dsimp only
    split_ifs
    · exact h.goes hrun hpoll (fun h => nomatch h) rfl
    · exact h.waitPollables hrun hpoll (List.Subset.refl _)
  · rw [hseek]
    exact h.calls_next hrun hpoll hid hlive rfl (.inl rfl)

theorem Inv.servicePollables (h : s.Inv) (hrun : s.place t = .running)
    (hpoll : s.pollingThread = some t) : (s.servicePollables t).Inv := by
  unfold PollLoop.servicePollables
  rw [if_pos hpoll]
  exact h.serviceRest hrun hpoll false (List.Subset.refl _)

/-- A thread without the role goes to sleep. -/
theorem Inv.sleeps (h : s.Inv) (hrun : s.place t = .running) :
    ({ s with dormantThreads := t :: s.dormantThreads }.goTo t .dormant).Inv := by
  have hzero : s.wakeup t = 0 := (h.semaphore t).2 (by rw [hrun]; exact fun h => nomatch h)
  have hnode : (s.place t).node = Place.dormant.node := by rw [hrun]; rfl
  have hself : Function.update s.place t .dormant t = .dormant := Function.update_self ..
  have hplace {u : Thread m} (hu : u ≠ t) : Function.update s.place t .dormant u = s.place u :=
    Function.update_of_ne hu ..
  have hnot : t ∉ s.dormantThreads := fun hmem => by
    have hdormant := (h.asleep t hmem).1
    rw [hrun] at hdormant
    cases hdormant
  refine ⟨?_, h.live, h.listed, fun u hacts => ?_, List.nodup_cons.mpr ⟨hnot, h.nodup⟩,
    fun u hu => ?_, fun u => ⟨(h.semaphore u).1, fun hne => ?_⟩, fun u hu => ?_, h.calls,
    h.fault⟩
  · dsimp only [goTo]
    rw [holders_same hnode]
    exact h.counted
  · by_cases hu : u = t
    · subst hu
      have hwoken : Place.acts (s.wakeup u) (Function.update s.place u .dormant u) := hacts
      rw [hself, hzero] at hwoken
      exact absurd hwoken (Nat.lt_irrefl 0)
    · exact h.acts u ((acts_goTo_of_ne hu).mp hacts)
  · rcases List.mem_cons.mp hu with rfl | hu
    · exact ⟨hself, hzero⟩
    · have hne : u ≠ t := fun heq => hnot (heq ▸ hu)
      exact ⟨(hplace hne).trans (h.asleep u hu).1, (h.asleep u hu).2⟩
  · by_cases hu : u = t
    · exact hu ▸ hzero
    · exact (h.semaphore u).2 fun hdormant => hne ((hplace hu).trans hdormant)
  · by_cases hut : u = t
    · subst hut
      exact nomatch hself.symm.trans hu
    · have hdormant := ((h.outside u ((hplace hut).symm.trans hu)).2 t (Ne.symm hut)).1
      rw [hrun] at hdormant
      cases hdormant

theorem Inv.pollThreadMain (h : s.Inv) (hrun : s.place t = .running) :
    (s.pollThreadMain t).Inv := by
  unfold PollLoop.pollThreadMain
  split_ifs with hpoll
  · exact h.sleeps hrun
  · exact h.servicePollables hrun (not_not.mp hpoll)

/-! ## The acts -/

/-- A thread that is not asleep runs again, and may have let go of its node. -/
theorem Inv.runs (h : s.Inv) (hawake : s.place t ≠ .dormant ∨ 0 < s.wakeup t)
    {pollables : RefList P}
    (hcounted : pollables.Counted (holders (Function.update s.place t .running)))
    (hlive : ∀ id p, pollables.Live id p ↔ s.pollables.Live id p) :
    ({ s with pollables, wakeup := Function.update s.wakeup t 0 }.goTo t .running).Inv := by
  have hplace {u : Thread m} (hu : u ≠ t) :
      Function.update s.place t .running u = s.place u := Function.update_of_ne hu ..
  have hwakeup {u : Thread m} (hu : u ≠ t) : Function.update s.wakeup t 0 u = s.wakeup u :=
    Function.update_of_ne hu ..
  have hself : Function.update s.place t .running t = .running := Function.update_self ..
  have hzero : Function.update s.wakeup t 0 t = 0 := Function.update_self ..
  refine ⟨hcounted, fun id p hl => h.live id p ((hlive id p).mp hl),
    fun p hp => (hlive _ p).mpr (h.listed p hp), fun u hacts => ?_, h.nodup, fun u hu => ?_,
    fun u => ?_, fun u hu => ?_, h.calls, h.fault⟩
  · by_cases hu : u = t
    · subst hu
      exact absurd hacts (not_acts_running hself)
    · refine h.acts u ?_
      have hsame : Place.acts (Function.update s.wakeup t 0 u)
        (Function.update s.place t .running u) := hacts
      rwa [hplace hu, hwakeup hu] at hsame
  · obtain ⟨hdormant, hslept⟩ := h.asleep u hu
    have hne : u ≠ t := fun heq => by
      subst heq
      exact hawake.elim (fun hne => hne hdormant) fun hpos => absurd hslept hpos.ne'
    exact ⟨(hplace hne).trans hdormant, (hwakeup hne).trans hslept⟩
  · by_cases hu : u = t
    · subst hu
      exact ⟨hzero.trans_le (Nat.zero_le 1), fun _ => hzero⟩
    · dsimp only [goTo]
      rw [hplace hu, hwakeup hu]
      exact h.semaphore u
  · by_cases hut : u = t
    · subst hut
      exact nomatch hself.symm.trans hu
    · obtain ⟨hdormant, hslept⟩ := (h.outside u ((hplace hut).symm.trans hu)).2 t (Ne.symm hut)
      exact hawake.elim (fun hne => absurd hdormant hne) fun hpos => absurd hslept hpos.ne'

theorem Inv.wakeup_same (h : s.Inv) (hdormant : s.place t ≠ .dormant) :
    Function.update s.wakeup t 0 = s.wakeup := by
  rw [← (h.semaphore t).2 hdormant]
  exact Function.update_eq_self t s.wakeup

/-- A thread that was not asleep runs again. -/
theorem Inv.resumes (h : s.Inv) (hdormant : s.place t ≠ .dormant)
    (hnode : (s.place t).node = none) : (s.goTo t .running).Inv := by
  have hcounted := h.counted
  rw [← holders_same (t := t) (q := .running) hnode] at hcounted
  have hruns := h.runs (.inl hdormant) hcounted fun _ _ => Iff.rfl
  rwa [h.wakeup_same hdormant] at hruns

/-- The role can be taken when nobody acts in it. -/
theorem Inv.takesRole (h : s.Inv) (hnobody : ∀ u, ¬ s.Acts u) (t : Thread m) :
    ({ s with pollingThread := some t }).Inv :=
  ⟨h.counted, h.live, h.listed, fun u hacts => absurd hacts (hnobody u), h.nodup, h.asleep,
    h.semaphore, h.outside, h.calls, h.fault⟩

/-- A callback of a node has returned. -/
theorem Inv.returns (h : s.Inv) {id : Nat} (hnode : (s.place t).node = some id) :
    ({ s with pollables := s.pollables.release id }.goTo t .running).Inv := by
  have hdormant : s.place t ≠ .dormant := fun heq => by rw [heq] at hnode; cases hnode
  have hcounted := h.counted
  rw [holders_drop (q := .running) hnode rfl] at hcounted
  have hruns := h.runs (.inl hdormant) hcounted.release
    fun _ _ => RefList.live_release h.counted
  rwa [h.wakeup_same hdormant] at hruns

theorem Inv.pollReturned (h : s.Inv) {id : Nat} (hnode : (s.place t).node = some id)
    (progress : Bool) : (s.pollReturned t id progress).Inv := by
  have hreturns := h.returns hnode
  have hrun : ({ s with pollables := s.pollables.release id }.goTo t .running).place t =
      .running := Function.update_self ..
  unfold PollLoop.pollReturned
  dsimp only
  split_ifs with hpoll hsome
  · exact hreturns.serviceRest hrun hpoll progress (h.counted.after_subset_release id)
  · exact hreturns.pollThreadMain hrun
  · have hnone := Option.not_isSome_iff_eq_none.mp hsome
    have hnobody : ∀ u, ¬ ({ s with pollables := s.pollables.release id }.goTo t
        .running).Acts u := fun u hacts => nomatch hnone.symm.trans (hreturns.acts u hacts)
    exact (hreturns.takesRole hnobody t).goes hrun rfl (fun h => nomatch h) rfl

theorem Inv.waitReturned (h : s.Inv) {id : Nat} (hplace : s.place t = .waiting id) :
    (s.waitReturned t id).Inv := by
  have hnode : (s.place t).node = some id := by rw [hplace]; rfl
  have hpoll := h.acts t (by rw [Acts, hplace]; trivial)
  exact (h.returns hnode).waitPollables (Function.update_self ..) hpoll
    (h.counted.after_subset_release id)

theorem Inv.awake (h : s.Inv) (hplace : s.place t = .dormant) (hwoken : s.wakeup t ≠ 0) :
    (s.awake t).Inv := by
  have hpos := Nat.pos_of_ne_zero hwoken
  have hpoll := h.acts t (by rw [Acts, hplace]; exact hpos)
  have hnode : (s.place t).node = Place.running.node := by rw [hplace]; rfl
  have hone : s.wakeup t - 1 = 0 := Nat.sub_eq_zero_of_le (h.semaphore t).1
  have hcounted := h.counted
  rw [← holders_same hnode] at hcounted
  unfold PollLoop.awake
  rw [hone]
  exact (h.runs (.inr hpos) hcounted fun _ _ => Iff.rfl).servicePollables
    (Function.update_self ..) hpoll

/-- The main thread enters the loop: all the others are asleep. -/
theorem Inv.enters (h : s.Inv) (hplace : s.place t = .outside) :
    (({ s with pollingThread := some t }.goTo t .running).pollThreadMain t).Inv := by
  have hnobody : ∀ u, ¬ s.Acts u := fun u hacts => by
    by_cases hu : u = t
    · subst hu
      rw [Acts, hplace] at hacts
      exact hacts
    · obtain ⟨hdormant, hslept⟩ := (h.outside t hplace).2 u hu
      rw [Acts, hdormant, hslept] at hacts
      exact absurd hacts (Nat.lt_irrefl 0)
  have hdormant : s.place t ≠ .dormant := by rw [hplace]; exact fun h => nomatch h
  have hnode : (s.place t).node = none := by rw [hplace]; rfl
  exact ((h.takesRole hnobody t).resumes hdormant hnode).pollThreadMain (Function.update_self ..)

/-- The role is given to a thread that is asleep, if there is one. -/
theorem Inv.appoints (h : s.Inv) (hnobody : ∀ u, ¬ s.Acts u)
    (hinside : ∀ u, s.place u ≠ .outside) {id : Nat}
    (hid : id ∈ s.pollables.ids) : (s.appointPollingThread id).Inv := by
  have hcounted := h.counted.rotate hid
  have hlive : ∀ i p, (s.pollables.rotate id).Live i p ↔ s.pollables.Live i p :=
    fun _ _ => RefList.live_rotate
  unfold appointPollingThread
  dsimp only
  split
  · next u dormantThreads hdormantThreads =>
    have hnodup := h.nodup
    have hasleep := h.asleep
    rw [hdormantThreads] at hnodup hasleep
    obtain ⟨hu, hnodup⟩ := List.nodup_cons.mp hnodup
    obtain ⟨hdormant, hslept⟩ := hasleep u List.mem_cons_self
    have hone : Function.update s.wakeup u (s.wakeup u + 1) u = 1 := by
      rw [Function.update_self, hslept]
    have hwakeup {v : Thread m} (hv : v ≠ u) :
        Function.update s.wakeup u (s.wakeup u + 1) v = s.wakeup v := Function.update_of_ne hv ..
    refine ⟨hcounted, fun i p hl => h.live i p ((hlive i p).mp hl),
      fun p hp => (hlive _ p).mpr (h.listed p hp), fun v hacts => ?_, hnodup, fun v hv => ?_,
      fun v => ?_, fun v hv => ?_, h.calls, h.fault⟩
    · by_cases hvu : v = u
      · exact congrArg some hvu.symm
      · have hsame : Place.acts (Function.update s.wakeup u (s.wakeup u + 1) v) (s.place v) :=
          hacts
        rw [hwakeup hvu] at hsame
        exact absurd hsame (hnobody v)
    · have hvu : v ≠ u := fun heq => hu (heq ▸ hv)
      dsimp only
      rw [hwakeup hvu]
      exact hasleep v (List.mem_cons_of_mem u hv)
    · by_cases hvu : v = u
      · subst hvu
        exact ⟨hone.le, fun hne => absurd hdormant hne⟩
      · dsimp only
        rw [hwakeup hvu]
        exact h.semaphore v
    · exact absurd hv (hinside v)
  · refine ⟨hcounted, fun i p hl => h.live i p ((hlive i p).mp hl),
      fun p hp => (hlive _ p).mpr (h.listed p hp), fun v hacts => absurd hacts (hnobody v),
      h.nodup, h.asleep, h.semaphore, h.outside, h.calls, h.fault⟩

/-- The callback of the polling thread blocks, which hands over the role. -/
theorem Inv.blocks (h : s.Inv) {id : Nat} {progress : Bool}
    (hplace : s.place t = .polling id true progress) :
    ((s.goTo t (.polling id false progress)).appointPollingThread id).Inv := by
  have hpoll := h.acts t (by rw [Acts, hplace]; rfl)
  have hself : Function.update s.place t (.polling id false progress) t =
      .polling id false progress := Function.update_self ..
  have hother {u : Thread m} (hu : u ≠ t) :
      Function.update s.place t (.polling id false progress) u = s.place u :=
    Function.update_of_ne hu ..
  have hnode : (s.place t).node = (Place.polling id false progress).node := by
    rw [hplace]
    rfl
  have hid : id ∈ s.pollables.ids := h.counted.held id (holders_pos hnode)
  have hnobody : ∀ u, ¬ (s.goTo t (.polling id false progress)).Acts u := fun u hacts => by
    by_cases hu : u = t
    · subst hu
      have hhook : Place.acts (s.wakeup u)
        (Function.update s.place u (.polling id false progress) u) := hacts
      rw [hself] at hhook
      cases hhook
    · exact hu (Option.some.inj ((h.acts u ((acts_goTo_of_ne hu).mp hacts)).symm.trans hpoll))
  have hinside : ∀ u, Function.update s.place t (.polling id false progress) u ≠ .outside := by
    intro u hu
    by_cases hut : u = t
    · subst hut
      exact nomatch hself.symm.trans hu
    · have hdormant := ((h.outside u ((hother hut).symm.trans hu)).2 t (Ne.symm hut)).1
      rw [hplace] at hdormant
      cases hdormant
  have hblocked : (s.goTo t (.polling id false progress)).Inv := by
    refine ⟨?_, h.live, h.listed, fun u hacts => absurd hacts (hnobody u), h.nodup,
      fun u hu => ?_, fun u => ⟨(h.semaphore u).1, fun hne => ?_⟩,
      fun u hu => absurd hu (hinside u), h.calls, h.fault⟩
    · dsimp only [goTo]
      rw [holders_same hnode]
      exact h.counted
    · have hne : u ≠ t := fun heq => by
        have hdormant := (h.asleep u hu).1
        rw [heq, hplace] at hdormant
        cases hdormant
      exact ⟨(hother hne).trans (h.asleep u hu).1, (h.asleep u hu).2⟩
    · by_cases hu : u = t
      · refine (h.semaphore u).2 ?_
        rw [hu, hplace]
        exact fun h => nomatch h
      · exact (h.semaphore u).2 fun hdormant => hne ((hother hu).trans hdormant)
  exact hblocked.appoints hnobody hinside hid

theorem Inv.addPollable (h : s.Inv) {p : P} (hp : ¬ present p s.history = true) :
    (s.addPollable p).Inv := by
  have hfresh : ∀ i q, s.pollables.Live i q → q ≠ p := fun i q hl heq =>
    hp (heq ▸ (h.live i q hl).2)
  refine ⟨h.counted.insert p, fun i q hl => ?_, fun q hq => ?_, h.acts, h.nodup, h.asleep,
    h.semaphore, h.outside, h.calls, h.fault⟩
  · dsimp only [PollLoop.addPollable, present]
    rcases RefList.live_insert.mp hl with hl | ⟨rfl, rfl⟩
    · obtain ⟨hi, hpresent⟩ := h.live i q hl
      rw [Function.update_of_ne (hfresh i q hl), hpresent, Bool.or_true]
      exact ⟨hi, rfl⟩
    · rw [Function.update_self, decide_eq_true rfl, Bool.true_or]
      exact ⟨rfl, rfl⟩
  · dsimp only [PollLoop.addPollable] at hq ⊢
    by_cases hqp : q = p
    · subst hqp
      rw [Function.update_self]
      exact RefList.live_insert.mpr (.inr ⟨rfl, rfl⟩)
    · rw [present, decide_eq_false (Ne.symm hqp), Bool.false_or] at hq
      rw [Function.update_of_ne hqp]
      exact RefList.live_insert.mpr (.inl (h.listed q hq))

theorem Inv.removePollable (h : s.Inv) {p : P} (hp : present p s.history = true) :
    (s.removePollable p).Inv := by
  have hlive := h.listed p hp
  refine ⟨h.counted.remove hlive, fun i q hl => ?_, fun q hq => ?_, h.acts, h.nodup, h.asleep,
    h.semaphore, h.outside, h.calls, h.fault⟩
  · obtain ⟨hl, hne⟩ := (RefList.live_remove h.counted hlive).mp hl
    obtain ⟨hi, hpresent⟩ := h.live i q hl
    have hpq : p ≠ q := fun heq => hne (heq ▸ hi)
    dsimp only [PollLoop.removePollable, present]
    rw [hpresent, decide_eq_true hpq]
    exact ⟨hi, rfl⟩
  · dsimp only [PollLoop.removePollable] at hq ⊢
    rw [present, Bool.and_eq_true, decide_eq_true_iff] at hq
    have hq' := h.listed q hq.2
    refine (RefList.live_remove h.counted hlive).mpr ⟨hq', fun heq => hq.1 ?_⟩
    rw [heq] at hq'
    exact h.counted.live_unique hlive hq'

/-! ## Runs -/

theorem inv_init (position : P → Nat) : (init position : PollLoop P m).Inv := by
  have hplace (t : Thread m) : ((init position : PollLoop P m).place t).node = none := by
    dsimp only [init]
    split_ifs <;> rfl
  have hnone : holders (init position : PollLoop P m).place = fun _ => 0 := by
    funext id
    exact Finset.sum_eq_zero fun t _ => if_neg (by rw [hplace]; exact nofun)
  refine ⟨hnone ▸ RefList.counted_empty, fun _ _ hl => ?_, fun _ hp => (nomatch hp),
    fun t hacts => ?_, ?_, fun t ht => ?_, fun _ => ⟨Nat.zero_le 1, fun _ => rfl⟩,
    fun t ht => ?_, trivial, rfl⟩
  · obtain ⟨n, hn, -⟩ := hl
    exact nomatch hn
  · rw [Acts] at hacts
    dsimp only [init] at hacts
    split_ifs at hacts
    · exact hacts.elim
    · exact absurd hacts (Nat.lt_irrefl 0)
  · exact List.nodup_reverse.mpr
      ((List.nodup_finRange m).map (Fin.castSucc_injective m))
  · obtain ⟨i, -, rfl⟩ := List.mem_map.mp (List.mem_reverse.mp ht)
    exact ⟨if_neg (Fin.castSucc_ne_last i), rfl⟩
  · dsimp only [init] at ht
    split_ifs at ht with hlast
    exact ⟨hlast, fun u hu => ⟨if_neg (hlast ▸ hu), rfl⟩⟩

theorem Inv.step (h : s.Inv) {s' : PollLoop P m} {act : Act P m}
    (hstep : s.step act = some s') : s'.Inv := by
  cases act with
  | run =>
    dsimp only [PollLoop.step] at hstep
    split_ifs at hstep with hplace
    cases hstep
    exact h.enters hplace
  | addPollable p =>
    dsimp only [PollLoop.step] at hstep
    split_ifs at hstep with hp
    cases hstep
    exact h.addPollable hp
  | removePollable p =>
    dsimp only [PollLoop.step] at hstep
    split_ifs at hstep with hp
    cases hstep
    exact h.removePollable hp
  | block t =>
    dsimp only [PollLoop.step] at hstep
    split at hstep
    · next hplace =>
      cases hstep
      exact h.blocks hplace
    · cases hstep
      exact h
    · cases hstep
  | polled t work =>
    dsimp only [PollLoop.step] at hstep
    split at hstep
    · next hplace =>
      cases hstep
      exact h.pollReturned (by rw [hplace]; rfl) _
    · cases hstep
  | waited t =>
    dsimp only [PollLoop.step] at hstep
    split at hstep
    · next hplace =>
      cases hstep
      exact h.waitReturned hplace
    · cases hstep
  | resume t =>
    dsimp only [PollLoop.step] at hstep
    split at hstep
    · next hplace =>
      split_ifs at hstep with hwoken
      cases hstep
      exact h.awake hplace hwoken
    · next hplace =>
      cases hstep
      have hpoll := h.acts t (by rw [Acts, hplace]; trivial)
      exact (h.resumes (by rw [hplace]; exact nofun) (by rw [hplace]; rfl)).servicePollables
        (Function.update_self ..) hpoll
    · next hplace =>
      cases hstep
      exact (h.resumes (by rw [hplace]; exact nofun) (by rw [hplace]; rfl)).pollThreadMain
        (Function.update_self ..)
    · cases hstep

/-- What clients and the loop itself rely on.  A node is freed when it has been removed and
the last thread has left it: until then a thread is in a callback of it. -/
structure Safe (s : PollLoop P m) : Prop where
  onePoller : ∀ t u, s.Acts t → s.Acts u → t = u
  calls : CallsPresent s.history
  freedOnce : (s.pollables.freed ++ s.pollables.ids).Perm (List.range s.pollables.made)
  notFreed : ∀ t id, (s.place t).node = some id → id ∈ s.pollables.ids
  removed : ∀ n ∈ s.pollables.nodes, n.item = none → ∃ t, (s.place t).node = some n.id
  assertions : s.pollables.misuse = false ∧ s.fault = false

theorem safe_of_reached {position : P → Nat}
    (h : Reaches step (fun _ _ => True) (init position) s) : s.Safe := by
  have hinv : s.Inv := h.invariant (inv_init position) fun _ _ _ hs _ hstep => hs.step hstep
  refine ⟨fun t u ht hu => ?_, hinv.calls, hinv.counted.accounted, fun t id hnode => ?_,
    fun n hn hnone => ?_, hinv.counted.used, hinv.fault⟩
  · exact Option.some.inj ((hinv.acts t ht).symm.trans (hinv.acts u hu))
  · exact hinv.counted.held id (holders_pos hnode)
  · have hrefs := hinv.counted.removed n hn hnone
    rw [hinv.counted.refs n hn] at hrefs
    exact exists_of_holders_pos hrefs

/-- A pollable that two threads are polling is removed by one of them, and its node is freed
when the other one returns. -/
theorem safe_removed_twice_polled : ∃ s : PollLoop Nat 1,
    runs step (fun _ _ => True) (init fun _ => 0)
      [.addPollable 0, .run, .block 1, .resume 0, .removePollable 0, .polled 0 false,
        .polled 1 true] = some s ∧
      s.pollables.freed = [0] ∧ s.Safe := by
  obtain ⟨s, hs, hfreed⟩ : ∃ s : PollLoop Nat 1,
      runs step (fun _ _ => True) (init fun _ => 0)
        [.addPollable 0, .run, .block 1, .resume 0, .removePollable 0, .polled 0 false,
          .polled 1 true] = some s ∧ s.pollables.freed = [0] := ⟨_, rfl, rfl⟩
  exact ⟨s, hs, hfreed, safe_of_reached (Reaches.init.runs hs)⟩

end PollLoop

end Invariant

end Nox.Poll
