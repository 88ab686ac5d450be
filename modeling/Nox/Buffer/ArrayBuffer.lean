import Nox.Lib.Bytes

/-!
# Array buffers

An `Array_buffer` is a window of `size` bytes from `data` on in an array of `capacity` bytes.  As
long as a capacity fits a `size_t` and `new` finds the memory, the operations do on the bytes of
the window what they are for, and the window stays inside the array (`behaves_iff`).
-/

namespace Nox.Buffer

section Definitions

/-! ## Buffers -/

/-- `data` is the distance of `m_data` from `base`; `block` is the array at `base`. -/
structure ArrayBuffer where
  block : Bytes
  capacity : Nat
  data : Nat
  size : Nat
  deriving DecidableEq, Repr

/-- The operations.  `mem` is what the array would contain that `new` returns; there is none
where it throws. -/
inductive BufferOp
  | pull (n : UInt64)
  | tryPull (n : UInt64)
  | trim (n : UInt64)
  | push (n : UInt64) (mem : Option (Nat → UInt8))
  | put (n : UInt64) (mem : Option (Nat → UInt8))

/-- What a call comes back with; pointers by their distance from `base`. -/
inductive Returned
  | nothing
  | null
  | pointer (offset : Nat)
  | badAlloc
  deriving DecidableEq, Repr

def sizeMod : Nat := 2 ^ 64

namespace ArrayBuffer

/-- The bytes of the window. -/
def content (b : ArrayBuffer) : Bytes := (b.block.drop b.data).take b.size

/-- A buffer that has taken possession of an array, or allocated it. -/
def ofArray (block : Bytes) : ArrayBuffer := ⟨block, block.length, 0, block.length⟩

/-- The new array with the content copied to `off`; none where the copy would read or write
outside of the arrays. -/
def copied (b : ArrayBuffer) (capacity off : Nat) (mem : Nat → UInt8) : Option Bytes :=
  let array := (List.range capacity).map mem
  if (b.size = 0 ∨ off + b.size ≤ capacity) ∧ b.data + b.size ≤ b.block.length then
    some (array.take off ++ b.content ++ array.drop (off + b.size))
  else none

def pull (b : ArrayBuffer) (n : UInt64) : ArrayBuffer × Returned :=
  ({ b with data := b.data + n.toNat, size := b.size - n.toNat }, .pointer b.data)

def tryPull (b : ArrayBuffer) (n : UInt64) : ArrayBuffer × Returned :=
  if b.size < n.toNat then (b, .null) else b.pull n

def trim (b : ArrayBuffer) (n : UInt64) : ArrayBuffer × Returned :=
  ({ b with size := n.toNat }, .nothing)

/-- `push`: the capacity is increased before `new` is called. -/
def push (b : ArrayBuffer) (n : UInt64) (mem : Option (Nat → UInt8)) :
    Option (ArrayBuffer × Returned) :=
  let headroom := b.data
  let size := (b.size + n.toNat) % sizeMod
  if headroom ≥ n.toNat then
    some ({ b with data := b.data - n.toNat, size := size }, .pointer (b.data - n.toNat))
  else
    let capacity := (b.capacity + (n.toNat - headroom)) % sizeMod
    match mem with
    | none => some ({ b with capacity := capacity }, .badAlloc)
    | some mem => (b.copied capacity n.toNat mem).map fun block =>
      (⟨block, capacity, 0, size⟩, .pointer 0)

/-- `put`: the array grows to twice its size at least. -/
def put (b : ArrayBuffer) (n : UInt64) (mem : Option (Nat → UInt8)) :
    Option (ArrayBuffer × Returned) :=
  let tailroom := b.capacity - (b.data + b.size)
  let size := (b.size + n.toNat) % sizeMod
  if tailroom < n.toNat then
    let headroom := b.data
    let capacity := (b.capacity + max b.capacity (n.toNat - tailroom)) % sizeMod
    match mem with
    | none => some ({ b with capacity := capacity }, .badAlloc)
    | some mem => (b.copied capacity headroom mem).map fun block =>
      (⟨block, capacity, headroom, size⟩, .pointer (headroom + b.size))
  else some ({ b with size := size }, .pointer (b.data + b.size))

/-- A call; none where it accesses memory outside of the arrays. -/
def step (b : ArrayBuffer) : BufferOp → Option (ArrayBuffer × Returned)
  | .pull n => some (b.pull n)
  | .tryPull n => some (b.tryPull n)
  | .trim n => some (b.trim n)
  | .push n mem => b.push n mem
  | .put n mem => b.put n mem

/-- The assertions at the head of the operations. -/
def Allowed (b : ArrayBuffer) : BufferOp → Prop
  | .pull n => n.toNat ≤ b.size
  | .trim n => n.toNat ≤ b.size
  | _ => True

end ArrayBuffer

end Definitions

section Purpose

/-! ## What buffers are for -/

/-- The operations on byte sequences. -/
def Changes : BufferOp → Bytes → Bytes → Prop
  | .pull n, c, c' => c' = c.drop n.toNat
  | .tryPull n, c, c' => c' = if c.length < n.toNat then c else c.drop n.toNat
  | .trim n, c, c' => c' = c.take n.toNat
  | .push n _, c, c' => c'.length = n.toNat + c.length ∧ c'.drop n.toNat = c
  | .put n _, c, c' => c'.length = c.length + n.toNat ∧ c'.take c.length = c

/-- The first byte dropped, or the first byte added. -/
def Points : BufferOp → ArrayBuffer → ArrayBuffer → Returned → Prop
  | .pull _, b, _, r => r = .pointer b.data
  | .tryPull n, b, _, r => r = if b.size < n.toNat then .null else .pointer b.data
  | .trim _, _, _, r => r = .nothing
  | .push _ _, _, b', r => r = .pointer b'.data
  | .put _ _, b, b', r => r = .pointer (b'.data + b.size)

namespace ArrayBuffer

/-- The window is inside the array, which has the capacity. -/
def Inside (b : ArrayBuffer) : Prop :=
  b.block.length = b.capacity ∧ b.data + b.size ≤ b.capacity

/-- A call that does what it is for. -/
def Does (b : ArrayBuffer) (op : BufferOp) (b' : ArrayBuffer) (r : Returned) : Prop :=
  Changes op b.content b'.content ∧ Points op b b' r ∧ b'.Inside

/-- As long as the preconditions hold, every call does what it is for. -/
def Behaves : ArrayBuffer → List BufferOp → Prop
  | b, [] => b.Inside
  | b, op :: ops => b.Inside ∧
    (b.Allowed op → ∃ b' r, b.step op = some (b', r) ∧ b.Does op b' r ∧ b'.Behaves ops)

/-- There is room, or the new capacity is a `size_t` and there is memory for it. -/
def Fits (b : ArrayBuffer) : BufferOp → Prop
  | .push n mem => n.toNat ≤ b.data ∨
    b.capacity + (n.toNat - b.data) < sizeMod ∧ mem.isSome
  | .put n mem => n.toNat ≤ b.capacity - (b.data + b.size) ∨
    b.capacity + max b.capacity (n.toNat - (b.capacity - (b.data + b.size))) < sizeMod ∧ mem.isSome
  | _ => True

/-- As long as the preconditions hold, every call fits. -/
def AllFit : ArrayBuffer → List BufferOp → Prop
  | _, [] => True
  | b, op :: ops => b.Allowed op → b.Fits op ∧ ∀ b' r, b.step op = some (b', r) → b'.AllFit ops

end ArrayBuffer

end Purpose

section Windows

/-! ## Windows -/

namespace ArrayBuffer

variable {b b' : ArrayBuffer} {op : BufferOp} {r : Returned}

/-- A window inside its array, which is one that can be allocated. -/
structure Lawful (b : ArrayBuffer) : Prop where
  inside : b.Inside
  capacity_lt : b.capacity < sizeMod

theorem lawful_ofArray {block : Bytes} (h : block.length < sizeMod) : (ofArray block).Lawful where
  inside := ⟨rfl, Nat.le_of_eq (Nat.zero_add _)⟩
  capacity_lt := h

theorem Inside.content_length (h : b.Inside) : b.content.length = b.size := by
  have hinside := h.2
  rw [content, List.length_take, List.length_drop, h.1]
  omega

/-- The copy is in the middle of the new array. -/
theorem copied_eq (h : b.Inside) (capacity off : Nat) (mem : Nat → UInt8)
    (hoff : off + b.size ≤ capacity) :
    ∃ A D : Bytes, A.length = off ∧ (A ++ b.content ++ D).length = capacity ∧
      b.copied capacity off mem = some (A ++ b.content ++ D) := by
  have hblock : b.data + b.size ≤ b.block.length := by
    rw [h.1]
    exact h.2
  have harray : ((List.range capacity).map mem).length = capacity := by simp
  refine ⟨((List.range capacity).map mem).take off,
    ((List.range capacity).map mem).drop (off + b.size), ?_, ?_, if_pos ⟨.inr hoff, hblock⟩⟩
  · rw [List.length_take, harray]
    omega
  · rw [List.length_append, List.length_append, List.length_take, List.length_drop, harray,
      h.content_length]
    omega

/-- What is copied somewhere else without a room for it is nothing. -/
theorem copied_fits {capacity off : Nat} {mem : Nat → UInt8} {block : Bytes}
    (h : b.copied capacity off mem = some block) : b.size = 0 ∨ off + b.size ≤ capacity := by
  unfold copied at h
  split at h
  · next hfits => exact hfits.1
  · cases h

theorem drop_content (n : Nat) :
    b.content.drop n = (b.block.drop (b.data + n)).take (b.size - n) := by
  rw [content, List.drop_take, List.drop_drop]

end ArrayBuffer

end Windows

section Steps

/-! ## Steps -/

namespace ArrayBuffer

variable {b b' : ArrayBuffer} {op : BufferOp} {r : Returned}

theorem pull_does (h : b.Inside) {n : UInt64} (hn : n.toNat ≤ b.size) :
    (b.pull n).1.content = b.content.drop n.toNat ∧ (b.pull n).1.Inside := by
  have hinside := h.2
  refine ⟨?_, h.1, ?_⟩
  · rw [drop_content]
    rfl
  · simp only [pull]
    omega

/-- What is pushed into the head room. -/
theorem content_push {n : Nat} (hn : n ≤ b.data) :
    (ArrayBuffer.mk b.block b.capacity (b.data - n) (b.size + n)).content.drop n = b.content := by
  rw [drop_content]
  dsimp only
  rw [Nat.sub_add_cancel hn, Nat.add_sub_cancel]
  rfl

theorem push_does (h : b.Lawful) {n : UInt64} {mem : Option (Nat → UInt8)}
    (hfits : b.Fits (.push n mem)) :
    ∃ b' r, b.push n mem = some (b', r) ∧ b.Does (.push n mem) b' r := by
  obtain ⟨hblock, hinside⟩ := h.inside
  have hlt := h.capacity_lt
  have hcontent := h.inside.content_length
  unfold push
  dsimp only
  split
  · next hroom =>
    have hsize : (b.size + n.toNat) % sizeMod = b.size + n.toNat := Nat.mod_eq_of_lt (by omega)
    have hnew : (ArrayBuffer.mk b.block b.capacity (b.data - n.toNat)
        (b.size + n.toNat)).Inside := ⟨hblock, by dsimp only; omega⟩
    rw [hsize]
    refine ⟨_, _, rfl, ⟨?_, content_push hroom⟩, rfl, hnew⟩
    rw [hnew.content_length, hcontent]
    exact Nat.add_comm _ _
  · next hroom =>
    obtain ⟨hcapacity, hmem⟩ := hfits.resolve_left fun hle => hroom hle
    obtain ⟨mem, rfl⟩ := Option.isSome_iff_exists.mp hmem
    have hsize : (b.size + n.toNat) % sizeMod = b.size + n.toNat := Nat.mod_eq_of_lt (by omega)
    obtain ⟨A, D, hA, hlength, hcopied⟩ := copied_eq h.inside
      (b.capacity + (n.toNat - b.data)) n.toNat mem (by omega)
    have hnew : (ArrayBuffer.mk (A ++ b.content ++ D) (b.capacity + (n.toNat - b.data)) 0
        (b.size + n.toNat)).Inside := ⟨hlength, by dsimp only; omega⟩
    dsimp only
    rw [Nat.mod_eq_of_lt hcapacity, hsize, hcopied]
    refine ⟨_, _, rfl, ⟨?_, ?_⟩, rfl, hnew⟩
    · rw [hnew.content_length, hcontent]
      exact Nat.add_comm _ _
    · rw [drop_content]
      dsimp only
      rw [Nat.zero_add, Nat.add_sub_cancel, ← hA, List.append_assoc, List.drop_left, ← hcontent,
        List.take_left]

theorem put_does (h : b.Lawful) {n : UInt64} {mem : Option (Nat → UInt8)}
    (hfits : b.Fits (.put n mem)) :
    ∃ b' r, b.put n mem = some (b', r) ∧ b.Does (.put n mem) b' r := by
  obtain ⟨hblock, hinside⟩ := h.inside
  have hlt := h.capacity_lt
  have hcontent := h.inside.content_length
  unfold put
  dsimp only
  split
  · next hroom =>
    obtain ⟨hcapacity, hmem⟩ := hfits.resolve_left (Nat.not_le_of_lt hroom)
    obtain ⟨mem, rfl⟩ := Option.isSome_iff_exists.mp hmem
    have hsize : (b.size + n.toNat) % sizeMod = b.size + n.toNat := Nat.mod_eq_of_lt (by omega)
    obtain ⟨A, D, hA, hlength, hcopied⟩ := copied_eq h.inside
      (b.capacity + max b.capacity (n.toNat - (b.capacity - (b.data + b.size)))) b.data mem
      (by omega)
    have hnew : (ArrayBuffer.mk (A ++ b.content ++ D)
        (b.capacity + max b.capacity (n.toNat - (b.capacity - (b.data + b.size)))) b.data
        (b.size + n.toNat)).Inside := ⟨hlength, by dsimp only; omega⟩
    dsimp only
    rw [Nat.mod_eq_of_lt hcapacity, hsize, hcopied]
    refine ⟨_, _, rfl, ⟨?_, ?_⟩, rfl, hnew⟩
    · rw [hnew.content_length, hcontent]
    · rw [hcontent, content, List.take_take, Nat.min_eq_left (Nat.le_add_right _ _)]
      dsimp only
      rw [← hA, List.append_assoc, List.drop_left, ← hcontent, List.take_left]
  · next hroom =>
    have hsize : (b.size + n.toNat) % sizeMod = b.size + n.toNat := Nat.mod_eq_of_lt (by omega)
    have hnew : (ArrayBuffer.mk b.block b.capacity b.data (b.size + n.toNat)).Inside :=
      ⟨hblock, by dsimp only; omega⟩
    rw [hsize]
    refine ⟨_, _, rfl, ⟨?_, ?_⟩, rfl, hnew⟩
    · rw [hnew.content_length, hcontent]
    · rw [hcontent, content, List.take_take, Nat.min_eq_left (Nat.le_add_right _ _)]
      rfl

/-- A call that fits does what it is for. -/
theorem step_does (h : b.Lawful) (hallowed : b.Allowed op) (hfits : b.Fits op) :
    ∃ b' r, b.step op = some (b', r) ∧ b.Does op b' r := by
  cases op with
  | pull n =>
    obtain ⟨hcontent, hinside⟩ := pull_does h.inside hallowed
    exact ⟨_, _, rfl, hcontent, rfl, hinside⟩
  | tryPull n =>
    by_cases hn : b.size < n.toNat
    · refine ⟨b, .null, ?_, ?_, (if_pos hn).symm, h.inside⟩
      · rw [step, tryPull, if_pos hn]
      · rw [Changes, h.inside.content_length, if_pos hn]
    · obtain ⟨hcontent, hinside⟩ := pull_does h.inside (Nat.le_of_not_lt hn)
      refine ⟨(b.pull n).1, (b.pull n).2, ?_, ?_, (if_neg hn).symm, hinside⟩
      · rw [step, tryPull, if_neg hn]
      · rw [Changes, h.inside.content_length, if_neg hn]
        exact hcontent
  | trim n =>
    have hn : n.toNat ≤ b.size := hallowed
    have hinside := h.inside.2
    refine ⟨_, _, rfl, ?_, rfl, h.inside.1, ?_⟩
    · rw [Changes, content, content, List.take_take, Nat.min_eq_left hn]
    · dsimp only
      omega
  | push n mem => exact push_does h hfits
  | put n mem => exact put_does h hfits

theorem step_capacity_lt (h : b.capacity < sizeMod) (hs : b.step op = some (b', r)) :
    b'.capacity < sizeMod := by
  have hmod (a : Nat) : a % sizeMod < sizeMod := Nat.mod_lt a (Nat.two_pow_pos 64)
  cases op with
  | pull n | trim n =>
    cases hs
    exact h
  | tryPull n =>
    rw [step, tryPull] at hs
    split at hs
    · cases hs
      exact h
    · cases hs
      exact h
  | push n mem =>
    simp only [step, push] at hs
    split at hs
    · cases hs
      exact h
    · cases mem with
      | none =>
        cases hs
        exact hmod _
      | some mem =>
        obtain ⟨block, -, heq⟩ := Option.map_eq_some_iff.mp hs
        cases heq
        exact hmod _
  | put n mem =>
    simp only [step, put] at hs
    split at hs
    · cases mem with
      | none =>
        cases hs
        exact hmod _
      | some mem =>
        obtain ⟨block, -, heq⟩ := Option.map_eq_some_iff.mp hs
        cases heq
        exact hmod _
    · cases hs
      exact h

/-- With a capacity that has wrapped around, or without memory, `push` does not do what it is
for. -/
theorem fits_of_push (h : b.Lawful) {n : UInt64} {mem : Option (Nat → UInt8)}
    (hs : b.push n mem = some (b', r)) (hdoes : b.Does (.push n mem) b' r) :
    b.Fits (.push n mem) := by
  obtain ⟨hblock, hinside⟩ := h.inside
  have hlt := h.capacity_lt
  have hn : n.toNat < 2 ^ 64 := n.toNat_lt
  simp only [push] at hs
  split at hs
  · next hroom => exact Or.inl hroom
  · next hroom =>
    cases mem with
    | none =>
      cases hs
      exact nomatch hdoes.2.1
    | some mem =>
      obtain ⟨block, hcopied, heq⟩ := Option.map_eq_some_iff.mp hs
      cases heq
      refine Or.inr ⟨?_, rfl⟩
      by_contra hwrap
      obtain ⟨-, -, -, hnew⟩ := hdoes
      have hcopy := copied_fits hcopied
      simp only [sizeMod] at *
      omega

theorem fits_of_put (h : b.Lawful) {n : UInt64} {mem : Option (Nat → UInt8)}
    (hs : b.put n mem = some (b', r)) (hdoes : b.Does (.put n mem) b' r) :
    b.Fits (.put n mem) := by
  obtain ⟨hblock, hinside⟩ := h.inside
  have hlt := h.capacity_lt
  have hn : n.toNat < 2 ^ 64 := n.toNat_lt
  simp only [put] at hs
  split at hs
  · next hroom =>
    cases mem with
    | none =>
      cases hs
      exact nomatch hdoes.2.1
    | some mem =>
      obtain ⟨block, hcopied, heq⟩ := Option.map_eq_some_iff.mp hs
      cases heq
      refine Or.inr ⟨?_, rfl⟩
      by_contra hwrap
      obtain ⟨⟨hlength, -⟩, -, hnew⟩ := hdoes
      rw [hnew.content_length, h.inside.content_length] at hlength
      have hend := hnew.2
      simp only [sizeMod] at *
      omega
  · next hroom => exact Or.inl (Nat.le_of_not_lt hroom)

/-- Only a call that fits does what it is for. -/
theorem fits_of_does (h : b.Lawful) (hs : b.step op = some (b', r)) (hdoes : b.Does op b' r) :
    b.Fits op := by
  cases op with
  | push n mem => exact fits_of_push h hs hdoes
  | put n mem => exact fits_of_put h hs hdoes
  | _ => trivial

theorem Lawful.behaves_iff_allFit (h : b.Lawful) (ops : List BufferOp) : b.Behaves ops ↔ b.AllFit ops := by
  induction ops generalizing b with
  | nil => exact iff_of_true h.inside trivial
  | cons op ops ih =>
    have hnext {b' r} (hs : b.step op = some (b', r)) (hdoes : b.Does op b' r) : b'.Lawful :=
      ⟨hdoes.2.2, step_capacity_lt h.capacity_lt hs⟩
    constructor
    · rintro ⟨-, hrest⟩ hallowed
      obtain ⟨b', r, hs, hdoes, hbehaves⟩ := hrest hallowed
      refine ⟨fits_of_does h hs hdoes, fun b'' r' hs' => ?_⟩
      rw [hs] at hs'
      cases hs'
      exact (ih (hnext hs hdoes)).mp hbehaves
    · intro hall
      refine ⟨h.inside, fun hallowed => ?_⟩
      obtain ⟨hfits, hrest⟩ := hall hallowed
      obtain ⟨b', r, hs, hdoes⟩ := step_does h hallowed hfits
      exact ⟨b', r, hs, hdoes, (ih (hnext hs hdoes)).mpr (hrest b' r hs)⟩

end ArrayBuffer

end Steps

section Runs

/-! ## Runs -/

/-- From an array on, buffers behave exactly as long as what is asked for fits. -/
theorem behaves_iff (block : Bytes) (h : block.length < 2 ^ 64) (ops : List BufferOp) :
    (ArrayBuffer.ofArray block).Behaves ops ↔ (ArrayBuffer.ofArray block).AllFit ops :=
  (ArrayBuffer.lawful_ofArray h).behaves_iff_allFit ops

/-- A byte is pulled, and two are put behind the others. -/
theorem behaves_pull_put :
    (ArrayBuffer.ofArray [1, 2, 3]).Behaves [.pull 1, .put 2 (some fun _ => 0)] := by
  refine (behaves_iff [1, 2, 3] (by decide) _).mpr fun _ => ⟨trivial, ?_⟩
  rintro b r ⟨⟩
  exact fun _ => ⟨Or.inr ⟨by decide, rfl⟩, fun _ _ _ => trivial⟩

/-- The new array would have the capacity 0. -/
theorem push_wraps :
    ¬ (ArrayBuffer.ofArray [7]).Behaves [.push 0xffffffffffffffff (some fun _ => 0)] := by
  rintro ⟨-, h⟩
  obtain ⟨b', r, hs, -⟩ := h trivial
  have hnone :
      (ArrayBuffer.ofArray [7]).step (.push 0xffffffffffffffff (some fun _ => 0)) = none := by
    decide +kernel
  rw [hnone] at hs
  cases hs

end Runs

end Nox.Buffer
