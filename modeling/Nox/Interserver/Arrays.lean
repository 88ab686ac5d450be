import Nox.Interserver.SharedCounts

/-!
# The arrays of one object

Every creator of `Actions` and of `Instruction` grows the array of its object and puts an entry
into the last slot.  `CreateSetMplsTTL` grows it by no slot, and `CreateCopyTTL` writes through
the slot before it points anywhere; with the others alone the array has a slot for every entry
(`capacity_iff`).
-/

namespace Nox.Interserver

open Ofl
open Lib (SlotArray)

section Objects

/-! ## An object -/

variable {κ α : Type}

/-- An object after calls; the constructors make room for one entry. -/
def ArrayObject.after (push : SlotArray.Push α) (entry : κ → Option α) (calls : List κ) :
    Option (ArrayObject α) :=
  calls.foldlM (ArrayObject.call push entry) (0, .malloc 1)

/-- Each of the calls stays inside the array, and leaves all entries that are counted assigned. -/
def StaysInside (push : SlotArray.Push α) (entry : κ → Option α) (calls : List κ) : Prop :=
  ∀ k, ∃ s, ArrayObject.after push entry (calls.take k) = some s ∧ (s.2.entries s.1).isSome

end Objects

section Capacity

/-! ## Capacity -/

variable {κ α : Type} {push : SlotArray.Push α} {entry : κ → Option α}

/-- The calls that are refused put nothing into the array. -/
theorem after_eq_fill (calls : List κ) :
    ArrayObject.after push entry calls = SlotArray.fill push (calls.filterMap entry) := by
  rw [ArrayObject.after, SlotArray.fill, List.foldlM_filterMap]
  congr 1
  funext s k
  unfold ArrayObject.call
  cases entry k with
  | none => rfl
  | some a => rfl

/-- Calls stay inside the array when each entry can be stored. -/
theorem staysInside_iff {ok : α → Prop} (hpush : SlotArray.Stores push ok) (calls : List κ) :
    StaysInside push entry calls ↔ ∀ k ∈ calls, ∀ a, entry k = some a → ok a := by
  constructor
  · intro h k hk a ha
    obtain ⟨s, hs, -⟩ := h calls.length
    rw [List.take_length, after_eq_fill] at hs
    rcases SlotArray.fill_spec hpush (calls.filterMap entry) with ⟨-, -, -, hall⟩ | ⟨hnone, -⟩
    · exact hall a (List.mem_filterMap.mpr ⟨k, hk, ha⟩)
    · rw [hnone] at hs
      cases hs
  · intro h k
    rw [after_eq_fill]
    rcases SlotArray.fill_spec hpush ((calls.take k).filterMap entry) with
      ⟨array, hfill, hentries, -⟩ | ⟨-, a, ha, hnot⟩
    · exact ⟨_, hfill, by rw [hentries]; rfl⟩
    · obtain ⟨c, hc, hentry⟩ := List.mem_filterMap.mp ha
      exact absurd (h c (List.mem_of_mem_take hc) a hentry) hnot

/-- The arrays of both classes are large enough exactly without the two creators. -/
theorem capacity_iff (calls : List ActionCreator) (calls' : List InstructionCreator) :
    StaysInside createAction ActionCreator.entry calls ∧
        StaysInside createInstruction (some ∘ InstructionCreator.entry) calls' ↔
      ∀ call ∈ calls, call.Sound := by
  rw [staysInside_iff createAction_stores, staysInside_iff createInstruction_stores]
  constructor
  · rintro ⟨h, -⟩ call hcall
    exact call.sound_iff.mp (h call hcall)
  · intro h
    exact ⟨fun call hcall => call.sound_iff.mpr (h call hcall), fun _ _ _ _ => trivial⟩

/-- The first call already writes behind the array, or through a slot that points nowhere. -/
theorem first_call_outside :
    ¬ StaysInside createAction ActionCreator.entry [.setMplsTTL 64] ∧
      ¬ StaysInside createAction ActionCreator.entry [.copyTTL .copyTtlIn] := by
  constructor
  · intro h
    obtain ⟨s, hs, -⟩ := h 1
    cases hs
  · intro h
    obtain ⟨s, hs, -⟩ := h 1
    cases hs

end Capacity

end Nox.Interserver
