import Nox.Classify.Answers
import Mathlib.Data.Finset.Card
import Mathlib.Order.Interval.Finset.Nat

/-!
# Rule identifiers

`get_id` walks from the counter to the last id and once more from 1.  Whatever ids
are in use, the walk ends; from a counter other than 0 it finds a free id unless
there is none (`getId_searches`).  The counter is never 0 (`run_getId`).
-/

namespace Nox.Classify

section Walk

/-! ## The walk, round by round -/

/-- What the loop of `get_id` comes to within `n` rounds; nothing while it still
runs. -/
def getIdRounds (used : Nat → Bool) : Nat → Bool → Nat → Option (Option Nat × Nat)
  | 0, _, _ => none
  | n + 1, loop, counter =>
    if used counter then
      if counter = 2 ^ 32 - 1 then
        if loop then some (none, counter) else getIdRounds used n true 1
      else getIdRounds used n loop (counter + 1)
    else some (some counter, counter)

/-- The rounds the walk has before it at most. -/
def roundsLeft (loop : Bool) (counter : Nat) : Nat :=
  (if loop then 0 else 2 ^ 32) + (2 ^ 32 - counter)

/-- The walk ends, whether or not the ids it meets are in use. -/
theorem getIdRounds_eq {used : Nat → Bool} {n : Nat} {loop : Bool} {counter : Nat}
    (hlt : counter < 2 ^ 32) (hn : roundsLeft loop counter ≤ n) :
    getIdRounds used n loop counter = some (getIdLoop used n loop counter) := by
  unfold roundsLeft at hn
  induction n generalizing loop counter with
  | zero => omega
  | succ n ih =>
    rw [getIdRounds, getIdLoop]
    split
    · split
      · split
        · rfl
        · next hloop =>
          apply ih (by omega)
          rw [if_neg hloop] at hn
          rw [if_pos rfl]
          omega
      · apply ih (by omega)
        omega
    · rfl

/-- More rounds than there are to go make no difference. -/
theorem getIdLoop_fuel {used : Nat → Bool} {n m : Nat} {loop : Bool} {counter : Nat}
    (hlt : counter < 2 ^ 32) (hn : roundsLeft loop counter ≤ n) (hm : roundsLeft loop counter ≤ m) :
    getIdLoop used n loop counter = getIdLoop used m loop counter := by
  unfold roundsLeft at hn hm
  induction n generalizing loop counter m with
  | zero => omega
  | succ n ih =>
    obtain _ | m := m
    · omega
    rw [getIdLoop, getIdLoop]
    split
    · split
      · split
        · rfl
        · next hloop =>
          rw [if_neg hloop] at hn hm
          apply ih (by omega) <;> rw [if_pos rfl] <;> omega
      · apply ih (by omega) <;> omega
    · rfl

/-- The id found is the one the counter stops at. -/
theorem getIdLoop_counter {used : Nat → Bool} {fuel : Nat} {loop : Bool} {counter id c : Nat}
    (h : getIdLoop used fuel loop counter = (some id, c)) : id = c := by
  induction fuel generalizing loop counter with
  | zero => cases h
  | succ fuel ih =>
    rw [getIdLoop] at h
    split at h
    · split at h
      · split at h
        · cases h
        · exact ih h
      · exact ih h
    · cases h
      rfl

theorem getId_id_range {used : Nat → Bool} {counter id : Nat} (hpos : 1 ≤ counter)
    (hlt : counter < 2 ^ 32) (h : (getId used counter).1 = some id) : 1 ≤ id ∧ id < 2 ^ 32 := by
  have hrange : 1 ≤ (getIdLoop used (2 ^ 33) false counter).2 ∧
      (getIdLoop used (2 ^ 33) false counter).2 < 2 ^ 32 := getIdLoop_range hpos hlt
  unfold getId at h
  split at h
  · cases h
  · next hloop =>
    cases h
    rw [hloop] at hrange
    rw [getIdLoop_counter hloop]
    exact hrange

end Walk

section Search

/-! ## The search -/

/-- The 32-bit ids in use. -/
def liveIds (used : Nat → Bool) : Finset Nat :=
  (Finset.range (2 ^ 32)).filter fun id => used id

/-- With fewer than all nonzero ids in use, one is free. -/
theorem exists_free {used : Nat → Bool} (h : (liveIds used).card < 2 ^ 32 - 1) :
    ∃ id, 1 ≤ id ∧ id < 2 ^ 32 ∧ used id = false := by
  by_contra hno
  have hsub : Finset.Ico 1 (2 ^ 32) ⊆ liveIds used := by
    intro id hid
    obtain ⟨h1, h2⟩ := Finset.mem_Ico.mp hid
    refine Finset.mem_filter.mpr ⟨Finset.mem_range.mpr h2, ?_⟩
    by_contra hfree
    exact hno ⟨id, h1, h2, Bool.not_eq_true _ ▸ hfree⟩
  have hcard := Finset.card_le_card hsub
  rw [Nat.card_Ico] at hcard
  omega

/-- What `get_id` does from a counter, with the ids of `used` in use. -/
structure Searches (used : Nat → Bool) (counter : Nat) : Prop where
  ends : ∃ n r, (∀ m, n ≤ m → getIdRounds used m false counter = some r) ∧
    r = getIdLoop used (2 ^ 33) false counter
  finds : (liveIds used).card < 2 ^ 32 - 1 → ∃ id, (getId used counter).1 = some id
  fresh : ∀ id, (getId used counter).1 = some id → 1 ≤ id ∧ id < 2 ^ 32 ∧ used id = false
  throws : (getId used counter).1 = none ↔ ∀ id, 1 ≤ id → id < 2 ^ 32 → used id = true
  next : 1 ≤ (getId used counter).2 ∧ (getId used counter).2 < 2 ^ 32

theorem getId_ends (used : Nat → Bool) {counter : Nat} (hlt : counter < 2 ^ 32) :
    ∃ n r, (∀ m, n ≤ m → getIdRounds used m false counter = some r) ∧
      r = getIdLoop used (2 ^ 33) false counter := by
  have hleft : roundsLeft false counter ≤ 2 ^ 33 := by
    rw [roundsLeft, if_neg (by simp)]
    omega
  refine ⟨2 ^ 33, _, fun m hm => ?_, rfl⟩
  rw [getIdRounds_eq hlt (hleft.trans hm), getIdLoop_fuel hlt (hleft.trans hm) hleft]

theorem getId_eq_none {used : Nat → Bool} {counter : Nat} (hpos : 1 ≤ counter)
    (hlt : counter < 2 ^ 32) :
    (getId used counter).1 = none ↔ ∀ id, 1 ≤ id → id < 2 ^ 32 → used id = true := by
  constructor
  · intro hnone id h1 h2
    by_contra hfree
    have hsome := getId_isSome hpos hlt h1 h2 (Bool.not_eq_true _ ▸ hfree)
    rw [hnone] at hsome
    cases hsome
  · intro hall
    cases hid : (getId used counter).1 with
    | none => rfl
    | some id =>
      obtain ⟨h1, h2⟩ := getId_id_range hpos hlt hid
      have hunused := getId_unused hid
      rw [hall id h1 h2] at hunused
      cases hunused

theorem getId_searches (used : Nat → Bool) {counter : Nat} (hpos : 1 ≤ counter)
    (hlt : counter < 2 ^ 32) : Searches used counter where
  ends := getId_ends used hlt
  finds := fun hcard => by
    obtain ⟨id, h1, h2, hfree⟩ := exists_free hcard
    exact Option.isSome_iff_exists.mp (getId_isSome hpos hlt h1 h2 hfree)
  fresh := fun id hid =>
    have hrange := getId_id_range hpos hlt hid
    ⟨hrange.1, hrange.2, getId_unused hid⟩
  throws := getId_eq_none hpos hlt
  next := getId_range hpos hlt

/-- A counter of 0 would be returned while no rule has that id. -/
theorem getId_zero :
    (getId (fun _ => false) 0).1 = some 0 ∧ ¬ Searches (fun _ => false) 0 := by
  have hzero : (getId (fun _ => false) 0).1 = some 0 := rfl
  refine ⟨hzero, fun h => ?_⟩
  exact absurd (h.fresh 0 hzero).1 (Nat.not_succ_le_zero 0)

end Search

section Rules

/-! ## Adding rules -/

variable {Expr Data Action : Type}

/-- A rule that is added takes no other's place. -/
theorem Classifier.addRule_keeps (I : Interface Expr Data) (s : Classifier Expr Action)
    (priority : Nat) (expr : Expr) (action : Action) {r : Nat} {rule : Rule Expr Action}
    (h : s.rules r = some rule) : (s.addRule I priority expr action).2.rules r = some rule := by
  unfold Classifier.addRule
  split
  · exact h
  · next id counter hid =>
    have hunused := getId_unused (congrArg Prod.fst hid)
    have hne : r ≠ id := by
      rintro rfl
      rw [h] at hunused
      cases hunused
    dsimp only
    rw [Function.update_of_ne hne]
    exact h

/-- What `get_id` does from every counter it can have, and in every state the
operations lead to. -/
theorem run_getId (I : Interface Expr Data) (forced : Option (Nat × Nat))
    (ls : List (Label Expr Action Data)) :
    (∀ (used : Nat → Bool) (counter : Nat), 1 ≤ counter → counter < 2 ^ 32 →
      Searches used counter) ∧
    ∃ s, (Classifier.start forced).run I ls = some s ∧ 1 ≤ s.idCounter ∧ s.idCounter < 2 ^ 32 ∧
      Searches (fun id => (s.rules id).isSome) s.idCounter ∧
      ∀ priority expr action r rule, s.rules r = some rule →
        (s.addRule I priority expr action).2.rules r = some rule := by
  refine ⟨fun used counter hpos hlt => getId_searches used hpos hlt, ?_⟩
  obtain ⟨s, hs, hinv, -⟩ := (inv_start (I := I) forced).run ls
  exact ⟨s, hs, hinv.counter.1, hinv.counter.2, getId_searches _ hinv.counter.1 hinv.counter.2,
    fun priority expr action r rule h => s.addRule_keeps I priority expr action h⟩

/-- Two rules, the second of them for an id that is free again. -/
theorem packetExprs_getId :
    Searches (fun id => id == 1) (2 ^ 32 - 1) ∧
      ∃ s, (Classifier.start none).run packetExprs
        [.addRule 5 (.ofDlType 2048) (), .deleteRule 1, .addRule 3 (.ofDlType 2054) ()] = some s ∧
      Searches (fun id => (s.rules id).isSome) s.idCounter := by
  obtain ⟨hall, s, hs, -, -, hsearch, -⟩ := run_getId packetExprs none
    [.addRule 5 (.ofDlType 2048) (), .deleteRule 1, .addRule 3 (.ofDlType 2054) ()]
  exact ⟨hall _ _ (by omega) (by omega), s, hs, hsearch⟩

end Rules

end Nox.Classify
