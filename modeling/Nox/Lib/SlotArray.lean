import Nox.Lib.Appends

/-!
# Arrays of pointers

An array of pointers that is grown by hand: `malloc` gives it slots that point nowhere, `realloc`
keeps those that fit and adds more of them, and a pointer is stored in a slot it has.  Entries are
stored one behind the other with a function of the user, which may fail for some of them.
-/

namespace Nox.Lib

section Arrays

/-! ## Arrays -/

/-- The slots of an array, with what they point to. -/
structure SlotArray (α : Type) where
  slots : List (Option α)

namespace SlotArray

variable {α : Type}

def malloc (n : Nat) : SlotArray α := ⟨List.replicate n none⟩

def realloc (m : SlotArray α) (n : Nat) : SlotArray α :=
  ⟨m.slots.take n ++ List.replicate (n - m.slots.length) none⟩

/-- What a slot points to. -/
def load (m : SlotArray α) (i : Nat) : Option α := m.slots[i]?.join

/-- Behind the last slot there is nothing to store to. -/
def store (m : SlotArray α) (i : Nat) (a : α) : Option (SlotArray α) :=
  if i < m.slots.length then some ⟨m.slots.set i (some a)⟩ else none

/-- What the first `n` slots point to. -/
def entries (m : SlotArray α) (n : Nat) : Option (List α) := (List.range n).mapM m.load

/-- A slot more, if the array has not its first slot only. -/
def grow (m : SlotArray α) (n : Nat) : SlotArray α := if n ≠ 0 then m.realloc (n + 1) else m

/-- The first slots point to these. -/
def Holds (m : SlotArray α) (l : List α) : Prop := m.slots.take l.length = l.map some

/-- The array has a slot for each entry, and a free one when there are none. -/
structure Full (m : SlotArray α) (l : List α) : Prop where
  holds : m.Holds l
  length : m.slots.length = max 1 l.length
  free : m.load l.length = none

/-- A function that stores an entry behind those there are. -/
abbrev Push (α : Type) := Nat → SlotArray α → α → Option (SlotArray α)

/-- The array with its count when these are stored. -/
def fill (push : Push α) (l : List α) : Option (Nat × SlotArray α) :=
  l.foldlM (fun s a => (push s.1 s.2 a).map fun m => (s.1 + 1, m)) (0, malloc 1)

/-- When the entries are stored the array has those that some elements stand for, one for each. -/
def FilledFor {β : Type} (push : Push α) (R : β → α → Prop) (bs : List β) (l : List α) : Prop :=
  ∃ m as, fill push l = some (bs.length, m) ∧ m.entries bs.length = some as ∧ List.Forall₂ R bs as

end SlotArray

end Arrays

section Entries

/-! ## What an array holds -/

namespace SlotArray

variable {α : Type} {m m' : SlotArray α} {l : List α} {n : Nat} {a : α}

theorem holds_nil : m.Holds [] := rfl

theorem Holds.length_le (h : m.Holds l) : l.length ≤ m.slots.length := by
  have hlength := congrArg List.length h
  rw [List.length_take, List.length_map] at hlength
  omega

theorem length_realloc : (m.realloc n).slots.length = n := by
  simp only [realloc, List.length_append, List.length_take, List.length_replicate]
  omega

/-- Growing keeps what the array holds. -/
theorem Holds.realloc (h : m.Holds l) (hn : l.length ≤ n) : (m.realloc n).Holds l := by
  have hle := h.length_le
  unfold Holds SlotArray.realloc
  rw [List.take_append_of_le_length (by rw [List.length_take]; omega), List.take_take,
    Nat.min_eq_left hn]
  exact h

theorem load_of_length_le (h : m.slots.length ≤ n) : m.load n = none := by
  rw [load, List.getElem?_eq_none h]
  rfl

/-- A slot that has been added points nowhere. -/
theorem load_realloc (h : m.slots.length ≤ n) (k : Nat) : (m.realloc k).load n = none := by
  unfold load SlotArray.realloc
  rw [List.getElem?_append_right (by rw [List.length_take]; omega)]
  cases hget : (List.replicate (k - m.slots.length) (none : Option α))[n -
      (m.slots.take k).length]? with
  | none => rfl
  | some o =>
    obtain ⟨-, hnone⟩ := List.mem_replicate.mp (List.mem_of_getElem? hget)
    rw [hnone]
    rfl

/-- A pointer behind those there are. -/
theorem Holds.store (h : m.Holds l) (hlt : l.length < m.slots.length) (a : α) :
    ∃ m', m.store l.length a = some m' ∧ m'.Holds (l ++ [a]) ∧
      m'.slots.length = m.slots.length := by
  refine ⟨⟨m.slots.set l.length (some a)⟩, if_pos hlt, ?_, List.length_set⟩
  unfold Holds at h ⊢
  rw [List.length_append, List.length_singleton, List.take_add_one, List.take_set_of_le (by omega), h,
    List.getElem?_set_self hlt, List.map_append]
  rfl

theorem load_eq_some : m.load n = some a ↔ m.slots[n]? = some (some a) := by
  unfold load
  cases m.slots[n]? <;> simp

theorem holds_iff_load : m.Holds l ↔ ∀ i (h : i < l.length), m.load i = some l[i] := by
  constructor
  · intro h i hi
    have hget := congrArg (·[i]?) h
    simp only [List.getElem?_take, if_pos hi, List.getElem?_map, List.getElem?_eq_getElem hi] at hget
    exact load_eq_some.mpr hget
  · intro h
    refine List.ext_getElem? fun i => ?_
    rw [List.getElem?_take, List.getElem?_map]
    by_cases hi : i < l.length
    · rw [if_pos hi, load_eq_some.mp (h i hi), List.getElem?_eq_getElem hi]
      rfl
    · rw [if_neg hi, List.getElem?_eq_none (Nat.le_of_not_lt hi)]
      rfl

/-- What is read of an array is what it holds. -/
theorem entries_eq_some_iff : m.entries n = some l ↔ l.length = n ∧ m.Holds l := by
  rw [entries, mapM_eq_some_iff, List.forall₂_iff_get, holds_iff_load]
  constructor
  · rintro ⟨hlength, h⟩
    rw [List.length_range] at hlength
    refine ⟨hlength.symm, fun i hi => ?_⟩
    simpa using h i (by simpa [hlength] using hi) hi
  · rintro ⟨hlength, h⟩
    refine ⟨by rw [List.length_range, hlength], fun i _ hi => ?_⟩
    simpa using h i hi

end SlotArray

end Entries

section Filling

/-! ## Filling an array -/

namespace SlotArray

variable {α β : Type} {m m' : SlotArray α} {l l' : List α} {a : α}

theorem full_malloc : Full (malloc 1 : SlotArray α) [] := ⟨holds_nil, rfl, rfl⟩

/-- The array has a slot for one entry more. -/
theorem Full.grow (h : m.Full l) :
    (m.grow l.length).Holds l ∧ (m.grow l.length).slots.length = l.length + 1 := by
  unfold SlotArray.grow
  split
  · exact ⟨h.holds.realloc (Nat.le_succ _), length_realloc⟩
  · next hzero =>
    rw [not_not] at hzero
    exact ⟨h.holds, by rw [h.length, hzero]; rfl⟩

/-- The last slot takes an entry. -/
theorem Holds.full_of_store (h : m.Holds l) (hlength : m.slots.length = l.length + 1) (a : α) :
    ∃ m', m.store l.length a = some m' ∧ m'.Full (l ++ [a]) := by
  obtain ⟨m', hstore, hholds, hsame⟩ := h.store (by omega) a
  have hone : (l ++ [a]).length = l.length + 1 := List.length_append
  exact ⟨m', hstore, hholds, by omega, load_of_length_le (by omega)⟩

/-- The slot that is added is free. -/
theorem Full.load_grow (h : m.Full l) : (m.grow l.length).load l.length = none := by
  unfold SlotArray.grow
  split
  · next hne => exact load_realloc (by rw [h.length]; omega) _
  · exact h.free

variable {push : Push α} {ok : α → Prop}

/-- What a function does that stores some entries and fails for the others. -/
def Stores (push : Push α) (ok : α → Prop) : Prop :=
  ∀ m l a, Full m l → (ok a ∧ ∃ m', push l.length m a = some m' ∧ m'.Full (l ++ [a])) ∨
    ¬ok a ∧ push l.length m a = none

theorem foldlM_push (hpush : Stores push ok) (h : m.Full l) :
    (∃ m', l'.foldlM (fun s a => (push s.1 s.2 a).map fun m => (s.1 + 1, m)) (l.length, m) =
        some ((l ++ l').length, m') ∧ m'.Full (l ++ l') ∧ ∀ a ∈ l', ok a) ∨
    l'.foldlM (fun s a => (push s.1 s.2 a).map fun m => (s.1 + 1, m)) (l.length, m) = none ∧
      ∃ a ∈ l', ¬ok a := by
  induction l' generalizing l m with
  | nil => exact Or.inl ⟨m, by simp, by simpa using h, by simp⟩
  | cons a l' ih =>
    rcases hpush m l a h with ⟨ha, m₁, hstore, hfull⟩ | ⟨ha, hnone⟩
    · have hone : (l ++ [a]).length = l.length + 1 := List.length_append
      have hih := ih hfull
      rw [hone, List.append_assoc, List.singleton_append] at hih
      simp only [List.foldlM_cons, hstore, Option.map_some, Option.bind_eq_bind, Option.bind_some]
      rcases hih with ⟨m', hfold, hfull', hall⟩ | ⟨hfold, b, hb, hnot⟩
      · exact Or.inl ⟨m', hfold, hfull', List.forall_mem_cons.mpr ⟨ha, hall⟩⟩
      · exact Or.inr ⟨hfold, b, List.mem_cons_of_mem a hb, hnot⟩
    · exact Or.inr ⟨by simp [hnone], a, List.mem_cons_self, ha⟩

/-- The array holds the entries when each of them is stored, and there is none otherwise. -/
theorem fill_spec (hpush : Stores push ok) (l : List α) :
    (∃ m, fill push l = some (l.length, m) ∧ m.entries l.length = some l ∧ ∀ a ∈ l, ok a) ∨
    fill push l = none ∧ ∃ a ∈ l, ¬ok a := by
  rcases foldlM_push hpush full_malloc with ⟨m, hfold, hfull, hall⟩ | hnone
  · exact Or.inl ⟨m, hfold, entries_eq_some_iff.mpr ⟨rfl, hfull.holds⟩, hall⟩
  · exact Or.inr hnone

theorem filledFor_iff (hpush : Stores push ok) {R : β → α → Prop} {bs : List β} :
    FilledFor push R bs l ↔ List.Forall₂ (fun b a => ok a ∧ R b a) bs l := by
  rcases fill_spec hpush l with ⟨m, hfill, hentries, hall⟩ | ⟨hnone, a, ha, hnot⟩
  · constructor
    · rintro ⟨m', as, hfill', hentries', hrel⟩
      rw [hfill, Option.some.injEq, Prod.mk.injEq] at hfill'
      obtain ⟨hlength, rfl⟩ := hfill'
      rw [← hlength, hentries] at hentries'
      cases hentries'
      exact List.forall₂_iff_zip.mpr ⟨hrel.length_eq, fun {b a} hmem =>
        ⟨hall a (List.of_mem_zip hmem).2, (List.forall₂_iff_zip.mp hrel).2 hmem⟩⟩
    · intro hrel
      rw [← hrel.length_eq] at hfill hentries
      exact ⟨m, l, hfill, hentries, hrel.imp fun _ _ h => h.2⟩
  · constructor
    · rintro ⟨m', as, hfill', -⟩
      rw [hnone] at hfill'
      cases hfill'
    · intro hrel
      obtain ⟨i, hi, rfl⟩ := List.mem_iff_getElem.mp ha
      exact absurd (hrel.get (by rw [hrel.length_eq]; exact hi) hi).1 hnot

end SlotArray

end Filling

end Nox.Lib
