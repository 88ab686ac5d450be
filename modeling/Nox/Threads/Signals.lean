import Mathlib.Logic.Function.Basic

/-!
# Signal groups

`Signal_group`: the handler of its signals writes sets of signals to a pipe, from which
`try_dequeue` reads them.  The handler may run between any two steps of the main program, also
while another handler runs, and whoever finds the pipe full reads from it himself.
-/

namespace Nox.Threads

section Sets

/-! ## Sets of signals -/

/-- `NSIG` -/
def nSig : Nat := 65

/-- `Sigset` -/
abbrev Sigset := Nat → Bool

namespace Sigset

/-- `sigset_t` has these signals only; the functions on it report an error for others. -/
def Valid (n : Nat) : Prop := 0 < n ∧ n < nSig

instance (n : Nat) : Decidable (Valid n) := inferInstanceAs (Decidable (_ ∧ _))

/-- `Sigset::contains`: `sigismember` returns -1 for what is no signal. -/
def contains (ss : Sigset) (n : Nat) : Bool := if Valid n then ss n else true

def add (ss : Sigset) (n : Nat) : Sigset := if Valid n then Function.update ss n true else ss

def remove (ss : Sigset) (n : Nat) : Sigset := if Valid n then Function.update ss n false else ss

/-- `Sigset::operator|=` -/
def union (ss rhs : Sigset) : Sigset := fun n => ss n || (decide (Valid n) && rhs n)

/-- `Sigset::scan` -/
def scan (ss : Sigset) (start : Nat) : Nat :=
  ((List.range' start (nSig - start)).find? ss.contains).getD (max start nSig)

end Sigset

end Sets

section Model

/-! ## Model -/

/-- In `Signal_group_impl::write`: before it writes to the pipe, or before it reads from it. -/
inductive Writing
  | write (ss : Sigset)
  | drain (ss : Sigset)

/-- Where the main program is: `dequeue` is `try_dequeue` before it reads from the pipe, and
`returns` before it returns a signal, while it writes back the others. -/
inductive MainPc
  | idle
  | add (sig : Nat)
  | remove (sig : Nat)
  | dequeue
  | returns (sig : Nat) (w : Writing)

/-- A group with its pipe, the handlers that run, and the signals whose handler knows of it. -/
structure SignalGroup where
  pipe : List Sigset
  handlers : List Writing
  main : MainPc
  handled : Nat → Bool
  signals : Sigset

/-- What happens: a signal is delivered, the handler or the main program goes on, or the main
program calls a function. -/
inductive SignalEvent
  | deliver (sig : Nat)
  | handler
  | main
  | addSignal (sig : Nat) (default : Bool)
  | removeSignal (sig : Nat)
  | tryDequeue

/-- What is told of a run. -/
inductive SignalNote
  | delivered (sig : Nat)
  | removed (sig : Nat)
  | returned (sig : Nat)
  deriving DecidableEq

namespace SignalGroup

/-- `Signal_group::Signal_group` -/
def init : SignalGroup := ⟨[], [], .idle, fun _ => false, fun _ => false⟩

/-- A step of `Signal_group_impl::write`, on a pipe for so many sets. -/
def writeStep (cap : Nat) (pipe : List Sigset) : Writing → List Sigset × Option Writing
  | .write ss => if pipe.length < cap then (pipe ++ [ss], none) else (pipe, some (.drain ss))
  | .drain ss =>
    match pipe with
    | [] => ([], some (.write ss))
    | raw :: pipe => (pipe, some (.write (ss.union raw)))

/-- The inner loop of `try_dequeue`: the signal it finds, and the signals that are left. -/
def takeSignal (signals : Sigset) : Nat → Sigset → Option (Nat × Sigset)
  | 0, _ => none
  | fuel + 1, ss =>
    let sig := ss.scan 1
    if sig = 0 then none
    else
      let ss := ss.remove sig
      if signals.contains sig then some (sig, ss) else takeSignal signals fuel ss

/-- A step of the main program. -/
def mainStep (cap : Nat) (s : SignalGroup) : Option (SignalGroup × List SignalNote) :=
  match s.main with
  | .idle => none
  | .add sig => some ({ s with main := .idle, signals := s.signals.add sig }, [])
  | .remove sig => some ({ s with main := .idle, signals := s.signals.remove sig }, [])
  | .dequeue =>
    match s.pipe with
    | [] => some ({ s with main := .idle }, [.returned 0])
    | raw :: pipe =>
      match takeSignal s.signals nSig (Sigset.union (fun _ => false) raw) with
      | none => some ({ s with pipe }, [])
      | some (sig, ss) =>
        if ss.scan (sig + 1) ≠ 0 then
          some ({ s with pipe, main := .returns sig (.write ss) }, [.returned sig])
        else some ({ s with pipe, main := .idle }, [.returned sig])
  | .returns sig w =>
    match writeStep cap s.pipe w with
    | (pipe, none) => some ({ s with pipe, main := .idle }, [])
    | (pipe, some w) => some ({ s with pipe, main := .returns sig w }, [])

/-- A step, and what is told of it. -/
def step (cap : Nat) (s : SignalGroup) : SignalEvent → Option (SignalGroup × List SignalNote)
  | .deliver sig =>
    if Sigset.Valid sig ∧ s.handled sig then
      some ({ s with handlers := .write (Sigset.add (fun _ => false) sig) :: s.handlers },
        [.delivered sig])
    else none
  | .handler =>
    match s.handlers with
    | [] => none
    | w :: handlers =>
      match writeStep cap s.pipe w with
      | (pipe, none) => some ({ s with pipe, handlers }, [])
      | (pipe, some w) => some ({ s with pipe, handlers := w :: handlers }, [])
  | .main => if s.handlers = [] then s.mainStep cap else none
  | .addSignal sig default =>
    match s.handlers, s.main with
    | [], .idle =>
      if Sigset.Valid sig ∧ ¬s.signals.contains sig ∧ default then
        some ({ s with handled := Function.update s.handled sig true, main := .add sig }, [])
      else some (s, [])
    | _, _ => none
  | .removeSignal sig =>
    match s.handlers, s.main with
    | [], .idle =>
      if Sigset.Valid sig ∧ s.signals.contains sig then
        some ({ s with handled := Function.update s.handled sig false, main := .remove sig },
          [.removed sig])
      else some (s, [])
    | _, _ => none
  | .tryDequeue =>
    match s.handlers, s.main with
    | [], .idle => some ({ s with main := .dequeue }, [])
    | _, _ => none

/-- The states of runs, with all that has been told of them, the last first. -/
inductive Reached (cap : Nat) : SignalGroup → List SignalNote → Prop
  | init : Reached cap init []
  | step {s l e s' n} : Reached cap s l → s.step cap e = some (s', n) → Reached cap s' (n ++ l)

end SignalGroup

/-- A signal has been delivered, and neither returned nor removed from the group since. -/
def Owed (sig : Nat) : List SignalNote → Prop
  | [] => False
  | .delivered n :: l => n = sig ∨ Owed sig l
  | .removed n :: l | .returned n :: l => n ≠ sig ∧ Owed sig l

end Model

section Scans

/-! ## Scans -/

namespace Sigset

variable {ss rhs signals : Sigset} {n sig start : Nat}

theorem contains_of_valid (h : Valid n) : ss.contains n = ss n := if_pos h

theorem remove_of_ne (h : n ≠ sig) : ss.remove sig n = ss n := by
  unfold remove
  split
  · exact Function.update_of_ne h _ _
  · rfl

theorem remove_self (h : Valid n) : ss.remove n n = false := by
  rw [remove, if_pos h, Function.update_self]

theorem union_of_valid (h : Valid n) : ss.union rhs n = (ss n || rhs n) := by
  simp [union, h]

/-- `scan` finds the least signal, and `NSIG` if there is none. -/
theorem scan_spec (hstart : 0 < start) (hlt : start ≤ nSig) :
    start ≤ ss.scan start ∧ ss.scan start ≤ nSig ∧
      (ss.scan start < nSig → ss (ss.scan start) = true) ∧
      ∀ n, start ≤ n → n < ss.scan start → ss n = false := by
  have hvalid {n : Nat} (hn : start ≤ n) (hn' : n < nSig) : Valid n :=
    ⟨Nat.lt_of_lt_of_le hstart hn, hn'⟩
  unfold scan
  cases hfind : (List.range' start (nSig - start)).find? ss.contains with
  | none =>
    rw [List.find?_range'_eq_none] at hfind
    rw [Option.getD_none, Nat.max_eq_right hlt]
    refine ⟨hlt, Nat.le_refl _, fun h => absurd h (Nat.lt_irrefl _), fun n hn hn' => ?_⟩
    simpa [contains_of_valid (hvalid hn hn')] using hfind n hn (by omega)
  | some i =>
    obtain ⟨hcontains, hmem, hbefore⟩ := List.find?_range'_eq_some.mp hfind
    rw [List.mem_range'_1] at hmem
    rw [Option.getD_some]
    have hi : i < nSig := by omega
    refine ⟨hmem.1, Nat.le_of_lt hi, fun _ => ?_, fun n hn hn' => ?_⟩
    · rwa [contains_of_valid (hvalid hmem.1 hi)] at hcontains
    · simpa [contains_of_valid (hvalid hn (Nat.lt_trans hn' hi))] using hbefore n hn hn'

/-- The end of its loop is no zero. -/
theorem scan_ne_zero (hstart : 0 < start) : ss.scan start ≠ 0 := by
  unfold scan
  cases hfind : (List.range' start (nSig - start)).find? ss.contains with
  | none =>
    have hmax := Nat.le_max_left start nSig
    rw [Option.getD_none]
    omega
  | some i =>
    obtain ⟨-, hmem, -⟩ := List.find?_range'_eq_some.mp hfind
    rw [List.mem_range'_1] at hmem
    rw [Option.getD_some]
    omega

end Sigset

namespace SignalGroup

open Sigset

variable {signals ss ss' : Sigset} {sig : Nat}

/-- A signal of the group is taken from a set, or `NSIG`; the signals before it are dropped, and
those behind it are left. -/
structure Taken (signals ss : Sigset) (sig : Nat) (ss' : Sigset) : Prop where
  pos : 0 < sig
  le : sig ≤ nSig
  signal : sig < nSig → ss sig = true ∧ signals sig = true
  dropped : ∀ n, 0 < n → n < sig → ss n = true → signals n = false
  left : ∀ n, Valid n → ss' n = (ss n && decide (sig < n))

/-- The loop finds a signal, or what it takes for one, before it runs out of signals. -/
theorem takeSignal_spec (fuel k : Nat) (hk : 0 < k) (hfuel : nSig < k + fuel) (hle : k ≤ nSig)
    (hbelow : ∀ n, 0 < n → n < k → ss n = false) :
    ∃ sig ss', takeSignal signals fuel ss = some (sig, ss') ∧ k ≤ sig ∧
      Taken signals ss sig ss' := by
  induction fuel generalizing k ss with
  | zero => omega
  | succ fuel ih =>
    have hscan := @scan_spec ss 1 Nat.one_pos (by decide)
    obtain ⟨hone, hend, hmem, hleast⟩ := hscan
    generalize hsig : ss.scan 1 = sig at hone hend hmem hleast
    have hks : k ≤ sig := by
      refine Nat.le_of_not_lt fun hlt => ?_
      have hin := hmem (by omega)
      rw [hbelow sig hone hlt] at hin
      cases hin
    have hzero : sig ≠ 0 := by omega
    simp only [takeSignal, hsig, if_neg hzero]
    have hleft (n : Nat) (hn : Valid n) : ss.remove sig n = (ss n && decide (sig < n)) := by
      rcases Nat.lt_trichotomy n sig with hlt | rfl | hgt
      · rw [remove_of_ne (Nat.ne_of_lt hlt), hleast n hn.1 hlt]
        rfl
      · simp [remove_self hn]
      · simp [remove_of_ne (Nat.ne_of_gt hgt), hgt]
    by_cases hgroup : signals.contains sig = true
    · rw [if_pos hgroup]
      refine ⟨sig, ss.remove sig, rfl, hks, hone, hend, fun hlt => ⟨hmem hlt, ?_⟩,
        fun n hn hlt hin => ?_, hleft⟩
      · rwa [contains_of_valid ⟨hone, hlt⟩] at hgroup
      · rw [hleast n hn hlt] at hin
        cases hin
    · rw [if_neg hgroup]
      have hlt : sig < nSig := by
        refine Nat.lt_of_le_of_ne hend fun heq => hgroup ?_
        rw [heq]
        rfl
      have hnot : signals sig = false := by
        simpa [contains_of_valid ⟨hone, hlt⟩] using hgroup
      obtain ⟨sig', ss', htake, hle', htaken⟩ := @ih (ss.remove sig) (sig + 1)
        (Nat.succ_pos sig) (by omega) hlt fun n hn hn' => by
          have hvalid : Valid n := ⟨hn, by omega⟩
          rw [hleft n hvalid]
          simp [Nat.not_lt.mpr (Nat.le_of_lt_succ hn')]
      refine ⟨sig', ss', htake, by omega, htaken.pos, htaken.le, fun hlt' => ?_,
        fun n hn hn' hin => ?_, fun n hn => ?_⟩
      · obtain ⟨hin, hs⟩ := htaken.signal hlt'
        rw [remove_of_ne (by omega)] at hin
        exact ⟨hin, hs⟩
      · by_cases hns : n = sig
        · exact hns ▸ hnot
        · exact htaken.dropped n hn hn' (by rwa [remove_of_ne hns])
      · rw [htaken.left n hn, hleft n hn]
        by_cases hsn : sig' < n
        · simp [hsn, (by omega : sig < n)]
        · simp [hsn]

/-- A set that has been read is scanned to its first signal of the group, and not back to zero. -/
theorem exists_taken (signals raw : Sigset) :
    ∃ sig ss, takeSignal signals nSig (Sigset.union (fun _ => false) raw) = some (sig, ss) ∧
      Taken signals (Sigset.union (fun _ => false) raw) sig ss ∧ ss.scan (sig + 1) ≠ 0 := by
  obtain ⟨sig, ss, htake, -, htaken⟩ := @takeSignal_spec signals _ nSig 1 Nat.one_pos
    (by omega) (by decide) fun n hn hn' => by omega
  exact ⟨sig, ss, htake, htaken, scan_ne_zero (Nat.succ_pos sig)⟩

end SignalGroup

end Scans

section Delivery

/-! ## Delivery -/

/-- The set that is to be written. -/
def Writing.set : Writing → Sigset
  | .write ss | .drain ss => ss

def MainPc.copies (n : Nat) : MainPc → Nat
  | .returns _ w => (w.set n).toNat
  | _ => 0

theorem countP_cons_toNat {α : Type} (p : α → Bool) (a : α) (l : List α) :
    (a :: l).countP p = (p a).toNat + l.countP p := by
  rw [List.countP_cons]
  cases p a <;> simp [Nat.add_comm]

namespace SignalGroup

open Sigset

variable {cap n : Nat} {s s' : SignalGroup} {l : List SignalNote} {notes : List SignalNote}

/-- In how many sets a signal is. -/
def copies (s : SignalGroup) (n : Nat) : Nat :=
  s.pipe.countP (· n) + s.handlers.countP (·.set n) + s.main.copies n

/-- A signal that is owed is in some set, and none is in more sets than it has been delivered and
not returned. -/
structure Inv (s : SignalGroup) (l : List SignalNote) : Prop where
  owed : ∀ n, Owed n l → 0 < s.copies n
  handled : ∀ n, Owed n l → s.handled n = true
  grouped : ∀ n, s.handled n = true → Valid n ∧ (s.signals n = true ∨ s.main = .add n)
  removing : ∀ n, s.main = .remove n → s.handled n = false
  counted : ∀ n, Valid n → l.count (.returned n) + s.copies n ≤ l.count (.delivered n)

theorem inv_init : Inv init [] where
  owed := fun _ h => h.elim
  handled := fun _ h => h.elim
  grouped := fun _ h => (nomatch h)
  removing := fun _ _ => rfl
  counted := fun _ _ => Nat.le_refl _

/-- In how many sets a signal is that is written. -/
def copiesOf (pipe : List Sigset) (w : Option Writing) (n : Nat) : Nat :=
  pipe.countP (· n) + (w.elim false (·.set n)).toNat

/-- A write leaves each signal in some set, and in no more sets. -/
theorem writeStep_copies (pipe : List Sigset) (w : Writing) (hn : Valid n) :
    copiesOf (writeStep cap pipe w).1 (writeStep cap pipe w).2 n ≤ copiesOf pipe (some w) n ∧
      (0 < copiesOf pipe (some w) n →
        0 < copiesOf (writeStep cap pipe w).1 (writeStep cap pipe w).2 n) := by
  cases w with
  | write ss =>
    by_cases hroom : pipe.length < cap
    · simp [writeStep, hroom, copiesOf, Writing.set, List.countP_append, countP_cons_toNat]
    · simp [writeStep, hroom, copiesOf, Writing.set]
  | drain ss =>
    cases pipe with
    | nil => simp [writeStep, copiesOf, Writing.set]
    | cons raw pipe =>
      simp only [writeStep, copiesOf, Writing.set, Option.elim_some, countP_cons_toNat,
        union_of_valid hn]
      cases ss n <;> cases raw n <;>
        simp only [Bool.or_true, Bool.or_false, Bool.toNat_true, Bool.toNat_false] <;> omega

theorem Inv.deliver (h : s.Inv l) {sig : Nat} (hvalid : Valid sig)
    (hhandled : s.handled sig = true) :
    Inv { s with handlers := .write (add (fun _ => false) sig) :: s.handlers }
      (.delivered sig :: l) := by
  have hset (n : Nat) : (Writing.write (add (fun _ => false) sig)).set n = decide (n = sig) := by
    simp only [Writing.set, add, if_pos hvalid]
    by_cases hn : n = sig <;> simp [hn]
  have hcopies (n : Nat) : copies
      { s with handlers := .write (add (fun _ => false) sig) :: s.handlers } n =
      s.copies n + (decide (n = sig)).toNat := by
    simp only [copies, countP_cons_toNat, hset]
    omega
  refine ⟨fun n howed => ?_, fun n howed => ?_, h.grouped, h.removing, fun n hn => ?_⟩
  · rw [hcopies]
    rcases howed with rfl | howed
    · simp
    · exact Nat.add_pos_left (h.owed n howed) _
  · rcases howed with rfl | howed
    · exact hhandled
    · exact h.handled n howed
  · have hle := h.counted n hn
    rw [hcopies, List.count_cons_of_ne (by simp), List.count_cons]
    by_cases hns : n = sig
    · simp only [hns, beq_self_eq_true, if_true, decide_true, Bool.toNat_true] at hle ⊢
      omega
    · simpa [hns, Ne.symm hns] using hle

/-- The sets change, but not what is owed. -/
theorem Inv.congr (h : s.Inv l) (hhandled : s'.handled = s.handled)
    (hsignals : s'.signals = s.signals) (hadd : ∀ n, s.main = .add n → s'.main = .add n)
    (hremove : ∀ n, s'.main = .remove n → s.main = .remove n)
    (hcopies : ∀ n, Valid n → s'.copies n ≤ s.copies n ∧ (0 < s.copies n → 0 < s'.copies n)) :
    s'.Inv l := by
  refine ⟨fun n howed => ?_, fun n howed => ?_, fun n hn => ?_, fun n hn => ?_, fun n hn => ?_⟩
  · exact (hcopies n (h.grouped n (h.handled n howed)).1).2 (h.owed n howed)
  · rw [hhandled]
    exact h.handled n howed
  · rw [hhandled] at hn
    rw [hsignals]
    exact ⟨(h.grouped n hn).1, (h.grouped n hn).2.imp_right (hadd n)⟩
  · rw [hhandled]
    exact h.removing n (hremove n hn)
  · exact Nat.le_trans (Nat.add_le_add_left (hcopies n hn).1 _) (h.counted n hn)

theorem Inv.handler (h : s.Inv l) {w : Writing} {w' : Option Writing} {handlers : List Writing}
    {pipe : List Sigset} (hhandlers : s.handlers = w :: handlers)
    (hw : writeStep cap s.pipe w = (pipe, w')) :
    Inv { s with pipe, handlers := w'.toList ++ handlers } l := by
  refine h.congr rfl rfl (fun _ => id) (fun _ => id) fun n hn => ?_
  have hwrite := @writeStep_copies cap n s.pipe w hn
  simp only [hw] at hwrite
  have hbefore : s.copies n = copiesOf s.pipe (some w) n + handlers.countP (·.set n) +
      s.main.copies n := by
    simp only [copies, copiesOf, hhandlers, countP_cons_toNat, Option.elim_some]
    omega
  have hafter : copies { s with pipe, handlers := w'.toList ++ handlers } n =
      copiesOf pipe w' n + handlers.countP (·.set n) + s.main.copies n := by
    cases w' <;> simp [copies, copiesOf, countP_cons_toNat, Nat.add_assoc]
  rw [hafter, hbefore]
  omega

/-- The main program writes back the signals it does not return. -/
theorem Inv.returns (h : s.Inv l) {w : Writing} {w' : Option Writing} {sig : Nat}
    {pipe : List Sigset} (hmain : s.main = .returns sig w)
    (hw : writeStep cap s.pipe w = (pipe, w')) :
    Inv { s with pipe, main := w'.elim .idle (.returns sig) } l := by
  refine h.congr rfl rfl (fun n hadd => ?_) (fun n hremove => ?_) fun n hn => ?_
  · rw [hmain] at hadd
    cases hadd
  · cases w' <;> cases hremove
  · have hwrite := @writeStep_copies cap n s.pipe w hn
    simp only [hw] at hwrite
    have hbefore : s.copies n = copiesOf s.pipe (some w) n + s.handlers.countP (·.set n) := by
      simp only [copies, copiesOf, hmain, MainPc.copies, Option.elim_some]
      omega
    have hafter : copies { s with pipe, main := w'.elim .idle (.returns sig) } n =
        copiesOf pipe w' n + s.handlers.countP (·.set n) := by
      cases w' <;> simp only [copies, copiesOf, MainPc.copies, Option.elim_none, Option.elim_some,
        Bool.toNat_false] <;> omega
    rw [hafter, hbefore]
    omega

/-- `try_dequeue` takes a signal from the set it has read, and goes on with those left. -/
theorem Inv.taken (h : s.Inv l) {raw ss : Sigset} {pipe : List Sigset} {sig : Nat} {main : MainPc}
    (hmain : s.main = .dequeue) (hpipe : s.pipe = raw :: pipe)
    (htaken : Taken s.signals (Sigset.union (fun _ => false) raw) sig ss)
    (hremove : ∀ n, main ≠ .remove n) (hcopies : ∀ n, Valid n → main.copies n = (ss n).toNat) :
    Inv { s with pipe, main } (.returned sig :: l) := by
  have hraw (n : Nat) (hn : Valid n) : Sigset.union (fun _ => false) raw n = raw n := by
    simp [union_of_valid hn]
  have hbefore (n : Nat) : s.copies n = (raw n).toNat + pipe.countP (· n) +
      s.handlers.countP (·.set n) := by
    simp only [copies, hmain, hpipe, MainPc.copies, countP_cons_toNat]
    omega
  have hafter (n : Nat) (hn : Valid n) : copies { s with pipe, main } n =
      (raw n && decide (sig < n)).toNat + pipe.countP (· n) + s.handlers.countP (·.set n) := by
    simp only [copies, hcopies n hn, htaken.left n hn, hraw n hn]
    omega
  have hgrouped (n : Nat) (hn : s.handled n = true) : Valid n ∧ s.signals n = true := by
    obtain ⟨hvalid, hin | hadd⟩ := h.grouped n hn
    · exact ⟨hvalid, hin⟩
    · rw [hmain] at hadd
      cases hadd
  refine ⟨fun n howed => ?_, fun n howed => h.handled n howed.2,
    fun n hn => ⟨(hgrouped n hn).1, Or.inl (hgrouped n hn).2⟩,
    fun n hn => absurd hn (hremove n), fun n hn => ?_⟩
  · obtain ⟨hne, howed⟩ := howed
    obtain ⟨hn, hin⟩ := hgrouped n (h.handled n howed)
    have hpos := h.owed n howed
    rw [hbefore] at hpos
    rw [hafter n hn]
    cases hset : raw n with
    | false => simpa [hset] using hpos
    | true =>
      have hlt : sig < n := by
        refine Nat.lt_of_le_of_ne (Nat.le_of_not_lt fun hlt => ?_) hne
        rw [htaken.dropped n hn.1 hlt (by rw [hraw n hn, hset])] at hin
        cases hin
      rw [Bool.true_and, decide_eq_true hlt, Bool.toNat_true]
      omega
  · have hle := h.counted n hn
    rw [hbefore] at hle
    rw [hafter n hn, List.count_cons, List.count_cons_of_ne (by simp)]
    by_cases hns : sig = n
    · subst hns
      have hset : raw sig = true := by
        rw [← hraw sig hn]
        exact (htaken.signal hn.2).1
      simp only [hset, Bool.toNat_true] at hle
      simp only [hset, Nat.lt_irrefl, decide_false, Bool.and_false, Bool.toNat_false,
        beq_self_eq_true, if_true]
      omega
    · have hsame : (raw n && decide (sig < n)).toNat ≤ (raw n).toNat := by
        cases raw n <;> simp
        cases decide (sig < n) <;> simp
      simp only [beq_iff_eq, SignalNote.returned.injEq, if_neg hns]
      omega

/-- The main program changes the signals of the group. -/
theorem Inv.changed (h : s.Inv l) {signals : Sigset} (hmain : ∀ n, s.main.copies n = 0)
    (hsignals : ∀ n, s.handled n = true → signals n = true) :
    Inv { s with main := .idle, signals } l := by
  have hcopies (n : Nat) : copies { s with main := .idle, signals } n = s.copies n := by
    simp only [copies, hmain n]
    rfl
  refine ⟨fun n howed => ?_, h.handled, fun n hn => ⟨(h.grouped n hn).1, Or.inl (hsignals n hn)⟩,
    fun n hn => (nomatch hn), fun n hn => ?_⟩
  · rw [hcopies]
    exact h.owed n howed
  · rw [hcopies]
    exact h.counted n hn

/-- A call that finds no signal returns none. -/
theorem Inv.returned_zero (h : s.Inv l) : s.Inv (.returned 0 :: l) := by
  refine ⟨fun n howed => h.owed n howed.2, fun n howed => h.handled n howed.2, h.grouped,
    h.removing, fun n hn => ?_⟩
  have hne : SignalNote.returned 0 ≠ .returned n := fun heq => by
    cases heq
    exact Nat.lt_irrefl 0 hn.1
  rw [List.count_cons_of_ne hne, List.count_cons_of_ne (by simp)]
  exact h.counted n hn

theorem Inv.mainStep (h : s.Inv l) (hs : s.mainStep cap = some (s', notes)) :
    s'.Inv (notes ++ l) := by
  cases hmain : s.main with
  | idle => simp [SignalGroup.mainStep, hmain] at hs
  | add sig =>
    simp only [SignalGroup.mainStep, hmain, Option.some.injEq, Prod.mk.injEq] at hs
    obtain ⟨rfl, rfl⟩ := hs
    refine h.changed (fun n => by rw [hmain]; rfl) fun n hn => ?_
    obtain ⟨hvalid, hin | hadd⟩ := h.grouped n hn
    · by_cases hns : n = sig
      · rw [hns] at hvalid ⊢
        simp [Sigset.add, hvalid]
      · simp only [Sigset.add]
        split
        · rwa [Function.update_of_ne hns]
        · exact hin
    · rw [hmain] at hadd
      cases hadd
      simp [Sigset.add, hvalid]
  | remove sig =>
    simp only [SignalGroup.mainStep, hmain, Option.some.injEq, Prod.mk.injEq] at hs
    obtain ⟨rfl, rfl⟩ := hs
    refine h.changed (fun n => by rw [hmain]; rfl) fun n hn => ?_
    have hns : n ≠ sig := by
      rintro rfl
      rw [h.removing n hmain] at hn
      cases hn
    obtain ⟨-, hin | hadd⟩ := h.grouped n hn
    · rwa [remove_of_ne hns]
    · rw [hmain] at hadd
      cases hadd
  | dequeue =>
    cases hpipe : s.pipe with
    | nil =>
      simp only [SignalGroup.mainStep, hmain, hpipe, Option.some.injEq, Prod.mk.injEq] at hs
      obtain ⟨rfl, rfl⟩ := hs
      have hgrouped (n : Nat) (hn : s.handled n = true) : s.signals n = true := by
        obtain ⟨-, hin | hadd⟩ := h.grouped n hn
        · exact hin
        · rw [hmain] at hadd
          cases hadd
      have hinv := (h.changed (fun n => by rw [hmain]; rfl) hgrouped).returned_zero
      rwa [hpipe] at hinv
    | cons raw pipe =>
      obtain ⟨sig, ss, htake, htaken, hscan⟩ := exists_taken s.signals raw
      simp only [SignalGroup.mainStep, hmain, hpipe, htake, if_pos hscan, Option.some.injEq,
        Prod.mk.injEq] at hs
      obtain ⟨rfl, rfl⟩ := hs
      exact h.taken hmain hpipe htaken (fun n => (nomatch ·)) fun n hn => rfl
  | returns sig w =>
    cases hw : writeStep cap s.pipe w with
    | mk pipe w' =>
      have hinv := h.returns hmain hw
      cases w' <;>
        (simp only [SignalGroup.mainStep, hmain, hw, Option.some.injEq, Prod.mk.injEq] at hs
         obtain ⟨rfl, rfl⟩ := hs
         exact hinv)

/-- `add_signal` lets the handler know of the group. -/
theorem Inv.addSignal (h : s.Inv l) {sig : Nat} (hvalid : Valid sig) (hmain : s.main = .idle) :
    Inv { s with handled := Function.update s.handled sig true, main := .add sig } l := by
  have hhandled (n : Nat) (hn : s.handled n = true) :
      Function.update s.handled sig true n = true := by
    by_cases hns : n = sig
    · rw [hns, Function.update_self]
    · rwa [Function.update_of_ne hns]
  refine ⟨fun n howed => ?_, fun n howed => hhandled n (h.handled n howed), fun n hn => ?_,
    fun n hn => (nomatch hn), fun n hn => ?_⟩
  · simpa [copies, hmain, MainPc.copies] using h.owed n howed
  · by_cases hns : n = sig
    · exact ⟨hns ▸ hvalid, Or.inr (by rw [hns])⟩
    · dsimp only at hn
      rw [Function.update_of_ne hns] at hn
      obtain ⟨hvalid, hin | hadd⟩ := h.grouped n hn
      · exact ⟨hvalid, Or.inl hin⟩
      · rw [hmain] at hadd
        cases hadd
  · simpa [copies, hmain, MainPc.copies] using h.counted n hn

/-- `remove_signal` withdraws the handler's knowledge of the group. -/
theorem Inv.removeSignal (h : s.Inv l) {sig : Nat} (hmain : s.main = .idle) :
    Inv { s with handled := Function.update s.handled sig false, main := .remove sig }
      (.removed sig :: l) := by
  have hhandled (n : Nat) (hn : Function.update s.handled sig false n = true) :
      s.handled n = true := by
    by_cases hns : n = sig
    · rw [hns, Function.update_self] at hn
      cases hn
    · rwa [Function.update_of_ne hns] at hn
  refine ⟨fun n howed => ?_, fun n howed => ?_, fun n hn => ?_, fun n hn => ?_, fun n hn => ?_⟩
  · simpa [copies, hmain, MainPc.copies] using h.owed n howed.2
  · dsimp only
    rw [Function.update_of_ne (Ne.symm howed.1)]
    exact h.handled n howed.2
  · obtain ⟨hvalid, hin | hadd⟩ := h.grouped n (hhandled n hn)
    · exact ⟨hvalid, Or.inl hin⟩
    · rw [hmain] at hadd
      cases hadd
  · cases hn
    exact Function.update_self ..
  · rw [List.count_cons_of_ne (by simp), List.count_cons_of_ne (by simp)]
    simpa [copies, hmain, MainPc.copies] using h.counted n hn

/-- A call begins. -/
theorem Inv.tryDequeue (h : s.Inv l) (hmain : s.main = .idle) :
    Inv { s with main := .dequeue } l := by
  refine h.congr rfl rfl (fun n hadd => ?_) (fun n hremove => (nomatch hremove)) fun n hn => ?_
  · rw [hmain] at hadd
    cases hadd
  · simp [copies, hmain, MainPc.copies]

/-- Functions are called while nothing runs. -/
theorem of_call {e : SignalEvent} (he : e ≠ .handler) (he' : e ≠ .main)
    (hdeliver : ∀ sig, e ≠ .deliver sig) (hs : s.step cap e = some (s', notes)) :
    s.handlers = [] ∧ s.main = .idle := by
  cases e with
  | deliver sig => exact absurd rfl (hdeliver sig)
  | handler => exact absurd rfl he
  | main => exact absurd rfl he'
  | addSignal | removeSignal | tryDequeue =>
    simp only [SignalGroup.step] at hs
    split at hs
    · exact ⟨‹_›, ‹_›⟩
    · cases hs

theorem Inv.step {e : SignalEvent} (h : s.Inv l) (hs : s.step cap e = some (s', notes)) :
    s'.Inv (notes ++ l) := by
  cases e with
  | deliver sig =>
    simp only [SignalGroup.step] at hs
    split at hs
    · rename_i hsig
      cases hs
      exact h.deliver hsig.1 hsig.2
    · cases hs
  | handler =>
    cases hhandlers : s.handlers with
    | nil => simp [SignalGroup.step, hhandlers] at hs
    | cons w handlers =>
      cases hw : writeStep cap s.pipe w with
      | mk pipe w' =>
        have hinv := h.handler hhandlers hw
        cases w' <;>
          (simp only [SignalGroup.step, hhandlers, hw, Option.some.injEq, Prod.mk.injEq] at hs
           obtain ⟨rfl, rfl⟩ := hs
           exact hinv)
  | main =>
    simp only [SignalGroup.step] at hs
    split at hs
    · exact h.mainStep hs
    · cases hs
  | addSignal sig default =>
    obtain ⟨hhandlers, hmain⟩ := of_call (e := .addSignal sig default) nofun nofun nofun hs
    simp only [SignalGroup.step, hhandlers, hmain] at hs
    split at hs
    · rename_i hsig
      cases hs
      have hinv := h.addSignal hsig.1 hmain
      rwa [hhandlers] at hinv
    · cases hs
      exact h
  | removeSignal sig =>
    obtain ⟨hhandlers, hmain⟩ := of_call (e := .removeSignal sig) nofun nofun nofun hs
    simp only [SignalGroup.step, hhandlers, hmain] at hs
    split at hs
    · cases hs
      have hinv := @Inv.removeSignal s _ h sig hmain
      rwa [hhandlers] at hinv
    · cases hs
      exact h
  | tryDequeue =>
    obtain ⟨hhandlers, hmain⟩ := of_call (e := .tryDequeue) nofun nofun nofun hs
    simp only [SignalGroup.step, hhandlers, hmain] at hs
    cases hs
    have hinv := h.tryDequeue hmain
    rwa [hhandlers] at hinv

theorem Reached.inv (h : Reached cap s l) : s.Inv l := by
  induction h with
  | init => exact inv_init
  | step _ hs ih => exact ih.step hs

/-- A write never fills the pipe beyond its room. -/
theorem length_writeStep {pipe : List Sigset} (w : Writing) (h : pipe.length ≤ cap) :
    (writeStep cap pipe w).1.length ≤ cap := by
  cases w with
  | write ss =>
    by_cases hroom : pipe.length < cap
    · simp only [writeStep, if_pos hroom, List.length_append, List.length_singleton]
      exact hroom
    · simpa only [writeStep, if_neg hroom] using h
  | drain ss =>
    cases pipe with
    | nil => exact h
    | cons raw pipe => exact Nat.le_of_succ_le h

theorem length_pipe_mainStep (h : s.pipe.length ≤ cap)
    (hs : s.mainStep cap = some (s', notes)) : s'.pipe.length ≤ cap := by
  cases hmain : s.main with
  | idle => simp [SignalGroup.mainStep, hmain] at hs
  | add | remove =>
    simp only [SignalGroup.mainStep, hmain] at hs
    cases hs
    exact h
  | dequeue =>
    cases hpipe : s.pipe with
    | nil =>
      simp only [SignalGroup.mainStep, hmain, hpipe] at hs
      cases hs
      exact Nat.zero_le cap
    | cons raw pipe =>
      simp only [SignalGroup.mainStep, hmain, hpipe] at hs
      rw [hpipe] at h
      split at hs
      · cases hs
        exact Nat.le_of_succ_le h
      · split at hs <;> cases hs <;> exact Nat.le_of_succ_le h
  | returns sig w =>
    have hlength := length_writeStep w h
    cases hw : writeStep cap s.pipe w with
    | mk pipe w' =>
      rw [hw] at hlength
      simp only [SignalGroup.mainStep, hmain, hw] at hs
      cases w' <;> cases hs <;> exact hlength

theorem length_pipe_step {e : SignalEvent} (h : s.pipe.length ≤ cap)
    (hs : s.step cap e = some (s', notes)) : s'.pipe.length ≤ cap := by
  cases e with
  | handler =>
    cases hhandlers : s.handlers with
    | nil => simp [SignalGroup.step, hhandlers] at hs
    | cons w handlers =>
      have hlength := length_writeStep w h
      cases hw : writeStep cap s.pipe w with
      | mk pipe w' =>
        rw [hw] at hlength
        simp only [SignalGroup.step, hhandlers, hw] at hs
        cases w' <;> cases hs <;> exact hlength
  | main =>
    simp only [SignalGroup.step] at hs
    split at hs
    · exact length_pipe_mainStep h hs
    · cases hs
  | deliver =>
    simp only [SignalGroup.step] at hs
    split at hs <;> cases hs
    exact h
  | addSignal | removeSignal =>
    simp only [SignalGroup.step] at hs
    split at hs
    · split at hs <;> cases hs <;> exact h
    · cases hs
  | tryDequeue =>
    simp only [SignalGroup.step] at hs
    split at hs <;> cases hs
    exact h

theorem Reached.length_pipe (h : Reached cap s l) : s.pipe.length ≤ cap := by
  induction h with
  | init => exact Nat.zero_le cap
  | step _ hs ih => exact length_pipe_step ih hs

end SignalGroup

end Delivery

end Nox.Threads
