import Mathlib.Data.List.Basic

/-!
# Lists of records in memory

Records lie one behind the other, each with its own length.  A reader counts them first,
then goes through the memory a second time and reads as many as it counted.  The second
pass visits the records the first one saw (`unpackAll_eq`), so what it reads is told record
by record (`unpackEach_forall_iff`).
-/

namespace Nox.Records

variable {α β ε : Type}

section Layouts

/-! ## Counting -/

/-- A record begins as long as `step` cells are announced; `size` reads its length off its
own cells, and a length below `least` is refused. -/
structure Layout (β ε : Type) where
  step : Nat
  least : Nat
  size : List β → Except ε Nat
  least_pos : 0 < least

namespace Layout

variable (L : Layout β ε)

/-- The number of records in the next `len` cells. -/
def count (bad : ε) (data : List β) (len : Nat) : Except ε Nat :=
  if L.step ≤ len then
    match L.size data with
    | .error e => .error e
    | .ok n =>
      if len < n ∨ n < L.least then .error bad
      else do return (← count bad (data.drop n) (len - n)) + 1
  else .ok 0
termination_by len
decreasing_by
  have := L.least_pos
  omega

/-- The memory from each record on. -/
def starts (data : List β) (len : Nat) : List (List β) :=
  if L.step ≤ len then
    match L.size data with
    | .error _ => []
    | .ok n =>
      if len < n ∨ n < L.least then [] else data :: starts (data.drop n) (len - n)
  else []
termination_by len
decreasing_by
  have := L.least_pos
  omega

variable {L} {bad : ε} {data : List β} {len n : Nat}

theorem starts_of_lt (h : len < L.step) : L.starts data len = [] := by
  rw [starts, if_neg (by omega)]

theorem starts_cons (hstep : L.step ≤ len) (hsize : L.size data = .ok n) (hle : n ≤ len)
    (hleast : L.least ≤ n) : L.starts data len = data :: L.starts (data.drop n) (len - n) := by
  rw [starts, if_pos hstep, hsize]
  exact if_neg (by omega)

theorem count_of_lt (h : len < L.step) : L.count bad data len = .ok 0 := by
  rw [count, if_neg (by omega)]

theorem count_cons (hstep : L.step ≤ len) (hsize : L.size data = .ok n) (hle : n ≤ len)
    (hleast : L.least ≤ n) :
    L.count bad data len = (L.count bad (data.drop n) (len - n)).map (· + 1) := by
  rw [count, if_pos hstep, hsize]
  dsimp only
  rw [if_neg (by omega)]
  cases L.count bad (data.drop n) (len - n) <;> rfl

theorem count_error {e : ε} (hstep : L.step ≤ len) (hsize : L.size data = .error e) :
    L.count bad data len = .error e := by
  rw [count, if_pos hstep, hsize]

theorem count_refused (hstep : L.step ≤ len) (hsize : L.size data = .ok n)
    (h : len < n ∨ n < L.least) : L.count bad data len = .error bad := by
  rw [count, if_pos hstep, hsize]
  exact if_pos h

/-- What a successful count found at the front. -/
theorem count_ok_cases {c : Nat} (h : L.count bad data len = .ok c) :
    (len < L.step ∧ c = 0) ∨
      ∃ n c', L.step ≤ len ∧ L.size data = .ok n ∧ n ≤ len ∧ L.least ≤ n ∧ c = c' + 1 ∧
        L.count bad (data.drop n) (len - n) = .ok c' := by
  rw [count] at h
  split at h
  · next hstep =>
    split at h
    · cases h
    next n hsize =>
    split at h
    · cases h
    next hfits =>
    cases hrest : L.count bad (data.drop n) (len - n) with
    | error e => rw [hrest] at h; cases h
    | ok c' =>
      rw [hrest] at h
      cases h
      exact .inr ⟨n, c', hstep, hsize, by omega, by omega, rfl, hrest⟩
  · cases h
    exact .inl ⟨by omega, rfl⟩

/-- The count is the number of the records. -/
theorem length_starts {c : Nat} (h : L.count bad data len = .ok c) :
    (L.starts data len).length = c := by
  induction c generalizing data len with
  | zero =>
    rcases count_ok_cases h with ⟨hlt, -⟩ | ⟨_, _, -, -, -, -, hc, -⟩
    · rw [starts_of_lt hlt, List.length_nil]
    · cases hc
  | succ c ih =>
    rcases count_ok_cases h with ⟨-, hc⟩ | ⟨n, c', hstep, hsize, hle, hleast, hc, hrest⟩
    · cases hc
    · cases hc
      rw [starts_cons hstep hsize hle hleast, List.length_cons, ih hrest]

end Layout

end Layouts

section Reading

/-! ## Reading -/

/-- Reads as many records as were counted; `unpack` is given the number of those that
follow, and takes from the cells that remain. -/
def unpackAll (size : List β → Except ε Nat)
    (unpack : Nat → List β → Nat → Except ε (α × Nat)) :
    Nat → List β → Nat → Except ε (List α × Nat)
  | 0, _, len => .ok ([], len)
  | n + 1, src, len => do
    let (x, len) ← unpack n src len
    let k ← size src
    let (xs, len) ← unpackAll size unpack n (src.drop k) len
    return (x :: xs, len)

/-- The same over the records themselves. -/
def unpackEach (unpack : Nat → List β → Nat → Except ε (α × Nat)) :
    List (List β) → Nat → Except ε (List α × Nat)
  | [], len => .ok ([], len)
  | r :: rs, len => do
    let (x, len) ← unpack rs.length r len
    let (xs, len) ← unpackEach unpack rs len
    return (x :: xs, len)

variable {L : Layout β ε} {unpack : Nat → List β → Nat → Except ε (α × Nat)} {bad : ε}

/-- The second pass visits what the first one counted. -/
theorem unpackAll_eq {data : List β} {announced len c : Nat}
    (h : L.count bad data announced = .ok c) :
    unpackAll L.size unpack c data len = unpackEach unpack (L.starts data announced) len := by
  induction c generalizing data announced len with
  | zero =>
    rw [List.length_eq_zero_iff.mp (Layout.length_starts h)]
    rfl
  | succ c ih =>
    rcases Layout.count_ok_cases h with ⟨-, hc⟩ | ⟨n, c', hstep, hsize, hle, hleast, hc, hrest⟩
    · cases hc
    · cases hc
      rw [Layout.starts_cons hstep hsize hle hleast, unpackAll, unpackEach,
        Layout.length_starts hrest]
      refine bind_congr fun p => ?_
      rw [hsize]
      change (unpackAll L.size unpack c (data.drop n) p.2 >>= _) = _
      rw [ih hrest]

/-- How reading the first record goes on with the others. -/
theorem unpackEach_cons_ok {r : List β} {rs : List (List β)} {len rest : Nat} {ys : List α}
    (h : unpackEach unpack (r :: rs) len = .ok (ys, rest)) :
    ∃ x xs l, ys = x :: xs ∧ unpack rs.length r len = .ok (x, l) ∧
      unpackEach unpack rs l = .ok (xs, rest) := by
  rw [unpackEach] at h
  cases hx : unpack rs.length r len with
  | error e => rw [hx] at h; cases h
  | ok p =>
    obtain ⟨x, l⟩ := p
    rw [hx] at h
    simp only [bind, Except.bind] at h
    cases hxs : unpackEach unpack rs l with
    | error e => rw [hxs] at h; cases h
    | ok q =>
      obtain ⟨xs, l'⟩ := q
      rw [hxs] at h
      cases h
      exact ⟨x, xs, l, rfl, rfl, hxs⟩

/-- A property of what is read is one of the records, where it is for each record. -/
theorem unpackEach_forall_iff {P : List β → Prop} {Q : α → Prop}
    (hone : ∀ n r l x l', unpack n r l = .ok (x, l') → (Q x ↔ P r)) {rs : List (List β)}
    {len rest : Nat} {xs : List α} (h : unpackEach unpack rs len = .ok (xs, rest)) :
    (∀ x ∈ xs, Q x) ↔ ∀ r ∈ rs, P r := by
  induction rs generalizing len xs with
  | nil =>
    cases h
    simp
  | cons r rs ih =>
    obtain ⟨x, xs', l, rfl, hx, hxs⟩ := unpackEach_cons_ok h
    rw [List.forall_mem_cons, List.forall_mem_cons, hone _ _ _ _ _ hx, ih hxs]

end Reading

end Nox.Records
