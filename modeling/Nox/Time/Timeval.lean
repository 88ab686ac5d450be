import Mathlib.Algebra.Order.Ring.Int
import Mathlib.Tactic.SplitIfs

/-!
# Times

The arithmetic of `timeval` and `timespec`, with a `long` and a `time_t` of 64 bits.  What exceeds
them is undefined.
-/

namespace Nox.Time

section Model

/-! ## Times and milliseconds -/

def longMax : Int := 2 ^ 63 - 1

def longMin : Int := -2 ^ 63

def InLong (n : Int) : Prop := longMin ≤ n ∧ n ≤ longMax

instance (n : Int) : Decidable (InLong n) := inferInstanceAs (Decidable (_ ∧ _))

/-- The result of an operation on `long`s. -/
def long (n : Int) : Option Int := if InLong n then some n else none

structure Timeval where
  sec : Int
  usec : Int
  deriving DecidableEq

structure Timespec where
  sec : Int
  nsec : Int
  deriving DecidableEq

namespace Timeval

def compare (x y : Timeval) : Int :=
  if x.sec ≠ y.sec then if x.sec < y.sec then -1 else 1
  else if x.usec ≠ y.usec then if x.usec < y.usec then -1 else 1
  else 0

/-- `operator+`, by `operator+=` -/
def add (x y : Timeval) : Option Timeval := do
  let sec ← long (x.sec + y.sec)
  let usec ← long (x.usec + y.usec)
  if usec ≥ 1000000 then return ⟨← long (sec + 1), ← long (usec - 1000000)⟩
  else return ⟨sec, usec⟩

/-- `operator-`, by `operator-=` -/
def sub (x y : Timeval) : Option Timeval :=
  if x.compare y ≤ 0 then some ⟨0, 0⟩
  else if x.usec ≥ y.usec then do
    let usec ← long (x.usec - y.usec)
    return ⟨← long (x.sec - y.sec), usec⟩
  else do
    let usec ← long (1000000 + x.usec)
    let usec ← long (usec - y.usec)
    let sec ← long (x.sec - y.sec)
    return ⟨← long (sec - 1), usec⟩

def toMs (x : Timeval) : Option Int :=
  if x.sec ≥ longMax.tdiv 1000 - 999 then some longMax
  else if x.sec ≤ longMin.tdiv 1000 + 999 then some longMin
  else do
    let ms ← long (x.sec * 1000)
    let usec ← long (x.usec + 500)
    if x.sec ≥ 0 then long (ms + usec.tdiv 1000) else long (ms - usec.tdiv 1000)

/-- For a count that is not negative and for one that is.  Its remainder is not positive then. -/
def ofMs (ms : Int) : Timeval :=
  if ms ≥ 0 then
    if ms.tdiv 1000 < longMax then ⟨ms.tdiv 1000, ms.tmod 1000 * 1000⟩ else ⟨longMax, 0⟩
  else if ms.tdiv 1000 > longMin then ⟨ms.tdiv 1000, -(ms.tmod 1000) * 1000⟩
  else ⟨longMin, 0⟩

end Timeval

namespace Timespec

def toMs (x : Timespec) : Option Int :=
  if x.sec ≥ longMax.tdiv 1000 - 999 then some longMax
  else if x.sec ≤ longMin.tdiv 1000 + 999 then some longMin
  else do
    let ms ← long (x.sec * 1000)
    if x.nsec ≥ 0 then
      let nsec ← long (x.nsec + 500000)
      long (ms + nsec.tdiv 1000000)
    else
      let nsec ← long (x.nsec - 500000)
      long (ms + nsec.tdiv 1000000)

def ofMs (ms : Int) : Option Timespec :=
  if ms ≥ 0 then
    if ms.tdiv 1000 < longMax then some ⟨ms.tdiv 1000, ms.tmod 1000 * 1000000⟩
    else some ⟨longMax, 0⟩
  else do
    let ms ← long (ms - 999)
    if ms.tdiv 1000 > longMin then return ⟨ms.tdiv 1000, -(ms.tmod 1000) * 1000000⟩
    else return ⟨longMin, 0⟩

end Timespec

end Model

section Meaning

/-! ## What times denote -/

theorem long_of_inLong {n : Int} (h : InLong n) : long n = some n := if_pos h

namespace Timeval

/-- The count of microseconds. -/
def micros (x : Timeval) : Int := x.sec * 1000000 + x.usec

/-- A time that is not negative, with less than a second of microseconds. -/
structure Normal (x : Timeval) : Prop where
  sec_nonneg : 0 ≤ x.sec
  sec_le : x.sec ≤ longMax
  usec_nonneg : 0 ≤ x.usec
  usec_lt : x.usec < 1000000

/-- A time with less than a second of microseconds, which may be negative. -/
structure Proper (x : Timeval) : Prop where
  usec_nonneg : 0 ≤ x.usec
  usec_lt : x.usec < 1000000

variable {x y s : Timeval}

theorem Normal.proper (h : x.Normal) : x.Proper := ⟨h.usec_nonneg, h.usec_lt⟩

/-- Times are compared as what they denote. -/
theorem Proper.compare_iff (hx : x.Proper) (hy : y.Proper) :
    (x.compare y < 0 ↔ x.micros < y.micros) ∧ (x.compare y = 0 ↔ x.micros = y.micros) := by
  have hx₀ := hx.usec_nonneg
  have hx₁ := hx.usec_lt
  have hy₀ := hy.usec_nonneg
  have hy₁ := hy.usec_lt
  unfold compare micros
  split_ifs <;> constructor <;> constructor <;> intro h <;>
    first | omega | exact h.elim

theorem Normal.compare_iff (hx : x.Normal) (hy : y.Normal) :
    (x.compare y < 0 ↔ x.micros < y.micros) ∧ (x.compare y = 0 ↔ x.micros = y.micros) :=
  hx.proper.compare_iff hy.proper

/-- A sum that is defined is proper, and denotes the sum. -/
theorem Proper.add (hx : x.Proper) (hy : y.Proper) (h : x.add y = some s) :
    s.Proper ∧ s.micros = x.micros + y.micros := by
  have hlong {n m : Int} (h : long n = some m) : n = m := by
    unfold long at h
    split_ifs at h
    exact Option.some.inj h
  obtain ⟨hx₀, hx₁⟩ := hx
  obtain ⟨hy₀, hy₁⟩ := hy
  unfold Timeval.add at h
  obtain ⟨sec, hsec, h⟩ := Option.bind_eq_some_iff.mp h
  obtain ⟨usec, husec, h⟩ := Option.bind_eq_some_iff.mp h
  have hsec := hlong hsec
  have husec := hlong husec
  split_ifs at h with hcarry
  · obtain ⟨next, hnext, h⟩ := Option.bind_eq_some_iff.mp h
    obtain ⟨rest, hrest, h⟩ := Option.bind_eq_some_iff.mp h
    have hnext := hlong hnext
    have hrest := hlong hrest
    cases h
    refine ⟨⟨?_, ?_⟩, ?_⟩
    · show 0 ≤ rest
      omega
    · show rest < 1000000
      omega
    · simp only [micros]
      omega
  · cases h
    refine ⟨⟨?_, ?_⟩, ?_⟩
    · show 0 ≤ usec
      omega
    · show usec < 1000000
      omega
    · simp only [micros]
      omega

theorem Normal.compare_le_iff (hx : x.Normal) (hy : y.Normal) :
    x.compare y ≤ 0 ↔ x.micros ≤ y.micros := by
  obtain ⟨hlt, heq⟩ := hx.compare_iff hy
  omega

/-- A normal time is told by its microseconds. -/
theorem Normal.ext (hx : x.Normal) (hy : y.Normal) (h : x.micros = y.micros) : x = y := by
  obtain ⟨sec, usec⟩ := x
  obtain ⟨sec', usec'⟩ := y
  have hx₀ := hx.usec_nonneg
  have hx₁ := hx.usec_lt
  have hy₀ := hy.usec_nonneg
  have hy₁ := hy.usec_lt
  simp only [micros, mk.injEq] at *
  omega

/-- A sum that fits is normal, and denotes the sum. -/
theorem Normal.add (hx : x.Normal) (hy : y.Normal)
    (hfits : x.micros + y.micros < (longMax + 1) * 1000000) :
    ∃ s, x.add y = some s ∧ s.Normal ∧ s.micros = x.micros + y.micros := by
  obtain ⟨hx₀, hx₁, hx₂, hx₃⟩ := hx
  obtain ⟨hy₀, hy₁, hy₂, hy₃⟩ := hy
  unfold micros longMax at hfits
  have hsec : long (x.sec + y.sec) = some (x.sec + y.sec) :=
    long_of_inLong (by unfold InLong longMin longMax; omega)
  have husec : long (x.usec + y.usec) = some (x.usec + y.usec) :=
    long_of_inLong (by unfold InLong longMin longMax; omega)
  simp only [Timeval.add, hsec, husec, Option.bind_eq_bind, Option.bind_some]
  by_cases hcarry : x.usec + y.usec ≥ 1000000
  · have hnext : long (x.sec + y.sec + 1) = some (x.sec + y.sec + 1) :=
      long_of_inLong (by unfold InLong longMin longMax; omega)
    have hrest : long (x.usec + y.usec - 1000000) = some (x.usec + y.usec - 1000000) :=
      long_of_inLong (by unfold InLong longMin longMax; omega)
    rw [if_pos hcarry, hnext, hrest]
    refine ⟨_, rfl, ⟨?_, ?_, ?_, ?_⟩, ?_⟩ <;> simp only [micros, longMax] <;> omega
  · rw [if_neg hcarry]
    refine ⟨_, rfl, ⟨?_, ?_, ?_, ?_⟩, ?_⟩ <;> simp only [micros, longMax] <;> omega

/-- One that does not is undefined. -/
theorem Normal.add_eq_none (hx : x.Normal) (hy : y.Normal)
    (hexceeds : (longMax + 1) * 1000000 ≤ x.micros + y.micros) : x.add y = none := by
  obtain ⟨hx₀, hx₁, hx₂, hx₃⟩ := hx
  obtain ⟨hy₀, hy₁, hy₂, hy₃⟩ := hy
  unfold micros longMax at hexceeds
  have husec : long (x.usec + y.usec) = some (x.usec + y.usec) :=
    long_of_inLong (by unfold InLong longMin longMax; omega)
  by_cases hfits : InLong (x.sec + y.sec)
  · have hcarry : x.usec + y.usec ≥ 1000000 := by
      unfold InLong longMin longMax at hfits
      omega
    have hnext : long (x.sec + y.sec + 1) = none :=
      if_neg (by unfold InLong longMin longMax at *; omega)
    simp only [Timeval.add, long_of_inLong hfits, husec, Option.bind_eq_bind, Option.bind_some,
      if_pos hcarry, hnext, Option.bind_none]
  · have hnone : long (x.sec + y.sec) = none := if_neg hfits
    simp only [Timeval.add, hnone, Option.bind_eq_bind, Option.bind_none]

/-- A difference is floored at zero. -/
theorem Normal.sub (hx : x.Normal) (hy : y.Normal) :
    ∃ d, x.sub y = some d ∧ d.Normal ∧ d.micros = max 0 (x.micros - y.micros) := by
  have hcompare := hx.compare_le_iff hy
  obtain ⟨hx₀, hx₁, hx₂, hx₃⟩ := hx
  obtain ⟨hy₀, hy₁, hy₂, hy₃⟩ := hy
  unfold longMax at hx₁ hy₁
  unfold Timeval.sub
  by_cases hle : x.compare y ≤ 0
  · rw [if_pos hle]
    have hmicros := hcompare.mp hle
    refine ⟨_, rfl, ⟨Int.le_refl 0, by decide, Int.le_refl 0, by decide⟩, ?_⟩
    rw [max_eq_left (by omega)]
    rfl
  · have hmicros : y.micros < x.micros := not_le.mp fun h => hle (hcompare.mpr h)
    rw [if_neg hle, max_eq_right (by omega)]
    unfold micros at hmicros
    have hsec : long (x.sec - y.sec) = some (x.sec - y.sec) :=
      long_of_inLong (by unfold InLong longMin longMax; omega)
    by_cases husec : x.usec ≥ y.usec
    · have hrest : long (x.usec - y.usec) = some (x.usec - y.usec) :=
        long_of_inLong (by unfold InLong longMin longMax; omega)
      simp only [if_pos husec, hsec, hrest, Option.bind_eq_bind, Option.bind_some]
      refine ⟨_, rfl, ⟨?_, ?_, ?_, ?_⟩, ?_⟩ <;> simp only [micros, longMax] <;> omega
    · have hborrow : long (1000000 + x.usec) = some (1000000 + x.usec) :=
        long_of_inLong (by unfold InLong longMin longMax; omega)
      have hrest : long (1000000 + x.usec - y.usec) = some (1000000 + x.usec - y.usec) :=
        long_of_inLong (by unfold InLong longMin longMax; omega)
      have hbefore : long (x.sec - y.sec - 1) = some (x.sec - y.sec - 1) :=
        long_of_inLong (by unfold InLong longMin longMax; omega)
      simp only [if_neg husec, hborrow, hrest, hsec, hbefore, Option.bind_eq_bind, Option.bind_some]
      refine ⟨_, rfl, ⟨?_, ?_, ?_, ?_⟩, ?_⟩ <;> simp only [micros, longMax] <;> omega

end Timeval

end Meaning

section Milliseconds

/-! ## Milliseconds -/

/-- No conversion saturates. -/
def Unsaturated (ms : Int) : Prop :=
  ∀ sec ∈ [ms.tdiv 1000, (ms - 999).tdiv 1000],
    longMin.tdiv 1000 + 999 < sec ∧ sec < longMax.tdiv 1000 - 999

instance (ms : Int) : Decidable (Unsaturated ms) := inferInstanceAs (Decidable (∀ _ ∈ _, _ ∧ _))

theorem longMax_tdiv : longMax.tdiv 1000 = 9223372036854775 := by decide

theorem longMin_tdiv : longMin.tdiv 1000 = -9223372036854775 := by decide

/-- Division and remainder of a count that is not negative. -/
theorem tdiv_tmod_of_nonneg {n : Int} (h : 0 ≤ n) : n.tdiv 1000 = n / 1000 ∧
    n.tmod 1000 = n % 1000 := ⟨Int.tdiv_eq_ediv_of_nonneg h, Int.tmod_eq_emod_of_nonneg h⟩

/-- Those of one that is not positive go towards zero. -/
theorem tdiv_tmod_of_nonpos {n : Int} (h : n ≤ 0) : n.tdiv 1000 = -(-n / 1000) ∧
    n.tmod 1000 = -(-n % 1000) := by
  obtain ⟨m, rfl⟩ : ∃ m, n = -m := ⟨-n, (neg_neg n).symm⟩
  obtain ⟨hdiv, hmod⟩ := tdiv_tmod_of_nonneg (n := m) (by omega)
  rw [Int.neg_tdiv, Int.neg_tmod, hdiv, hmod, neg_neg]
  exact ⟨rfl, rfl⟩

theorem Unsaturated.bounds {ms : Int} (h : Unsaturated ms) :
    -9223372036854000000 < ms ∧ ms < 9223372036854000000 := by
  obtain ⟨hlow, hhigh⟩ := h _ List.mem_cons_self
  rw [longMax_tdiv] at hhigh
  rw [longMin_tdiv] at hlow
  rcases Int.le_total 0 ms with hms | hms
  · rw [(tdiv_tmod_of_nonneg hms).1] at hhigh
    omega
  · rw [(tdiv_tmod_of_nonpos hms).1] at hlow
    omega

/-- The seconds are not so many that the conversion saturates. -/
def Room (sec : Int) : Prop := longMin.tdiv 1000 + 999 < sec ∧ sec < longMax.tdiv 1000 - 999

theorem Room.inLong {sec r : Int} (h : Room sec) (hlow : -1000 < r) (hhigh : r < 1000) :
    long (sec * 1000 + r) = some (sec * 1000 + r) := by
  unfold Room at h
  rw [longMax_tdiv, longMin_tdiv] at h
  refine long_of_inLong ?_
  unfold InLong longMin longMax
  omega

theorem Timeval.toMs_eq {sec r : Int} (h : Room sec) (hr : 0 ≤ r) (hlt : r < 1000) :
    Timeval.toMs ⟨sec, r * 1000⟩ =
      some (if sec ≥ 0 then sec * 1000 + r else sec * 1000 - r) := by
  have hms := h.inLong (r := 0) (by decide) (by decide)
  have husec : long (r * 1000 + 500) = some (r * 1000 + 500) :=
    long_of_inLong (by unfold InLong longMin longMax; omega)
  have hround : (r * 1000 + 500).tdiv 1000 = r := by
    rw [(tdiv_tmod_of_nonneg (by omega)).1]
    omega
  have hadd := h.inLong (by omega) hlt
  have hsub : long (sec * 1000 - r) = some (sec * 1000 - r) :=
    h.inLong (r := -r) (by omega) (by omega)
  rw [Int.add_zero] at hms
  unfold Timeval.toMs
  dsimp only
  rw [if_neg (not_le.mpr h.2), if_neg (not_le.mpr h.1)]
  simp only [hms, husec, hround, hadd, hsub, Option.bind_eq_bind, Option.bind_some]
  split_ifs <;> rfl

theorem Timespec.toMs_eq {sec r : Int} (h : Room sec) (hr : 0 ≤ r) (hlt : r < 1000) :
    Timespec.toMs ⟨sec, r * 1000000⟩ = some (sec * 1000 + r) := by
  have hms := h.inLong (r := 0) (by decide) (by decide)
  have hnsec : long (r * 1000000 + 500000) = some (r * 1000000 + 500000) :=
    long_of_inLong (by unfold InLong longMin longMax; omega)
  have hround : (r * 1000000 + 500000).tdiv 1000000 = r := by
    rw [Int.tdiv_eq_ediv_of_nonneg (by omega)]
    omega
  have hadd := h.inLong (by omega) hlt
  rw [Int.add_zero] at hms
  unfold Timespec.toMs
  dsimp only
  rw [if_neg (not_le.mpr h.2), if_neg (not_le.mpr h.1)]
  simp only [hms, Option.bind_eq_bind, Option.bind_some]
  rw [if_pos (by omega)]
  simp only [hnsec, hround, hadd, Option.bind_some]

/-- A count that is negative comes back unless it is less than a second: the sign is that of the
seconds. -/
theorem Timeval.toMs_ofMs_iff {ms : Int} (h : Unsaturated ms) :
    (Timeval.ofMs ms).toMs = some ms ↔ 0 ≤ ms ∨ ms ≤ -1000 := by
  have hroom : Room (ms.tdiv 1000) := h _ List.mem_cons_self
  have hbounds := h.bounds
  unfold Timeval.ofMs
  by_cases hms : 0 ≤ ms
  · obtain ⟨hdiv, hmod⟩ := tdiv_tmod_of_nonneg hms
    rw [hdiv] at hroom ⊢
    rw [if_pos hms, if_pos (by unfold longMax; omega), hmod,
      Timeval.toMs_eq hroom (by omega) (by omega), if_pos (by omega)]
    simp only [Option.some.injEq]
    omega
  · obtain ⟨hdiv, hmod⟩ := tdiv_tmod_of_nonpos (n := ms) (by omega)
    rw [hdiv] at hroom ⊢
    rw [if_neg hms, if_pos (by unfold longMin; omega), hmod, neg_neg,
      Timeval.toMs_eq hroom (by omega) (by omega)]
    simp only [Option.some.injEq]
    split_ifs <;> omega

/-- No negative count comes back from a `timespec`: its remainder has the wrong sign. -/
theorem Timespec.toMs_ofMs_iff {ms : Int} (h : Unsaturated ms) :
    (Timespec.ofMs ms).bind Timespec.toMs = some ms ↔ 0 ≤ ms := by
  have hbounds := h.bounds
  unfold Timespec.ofMs
  by_cases hms : 0 ≤ ms
  · have hroom : Room (ms.tdiv 1000) := h _ List.mem_cons_self
    obtain ⟨hdiv, hmod⟩ := tdiv_tmod_of_nonneg hms
    rw [hdiv] at hroom ⊢
    rw [if_pos hms, if_pos (by unfold longMax; omega), hmod, Option.bind_some,
      Timespec.toMs_eq hroom (by omega) (by omega)]
    simp only [Option.some.injEq]
    omega
  · have hroom : Room ((ms - 999).tdiv 1000) := h _ (List.mem_cons_of_mem _ List.mem_cons_self)
    have hlong : long (ms - 999) = some (ms - 999) :=
      long_of_inLong (by unfold InLong longMin longMax; omega)
    obtain ⟨hdiv, hmod⟩ := tdiv_tmod_of_nonpos (n := ms - 999) (by omega)
    rw [hdiv] at hroom
    simp only [if_neg hms, hlong, Option.bind_eq_bind, Option.bind_some, hdiv, hmod, neg_neg]
    rw [if_pos (by unfold longMin; omega)]
    have hms' := Timespec.toMs_eq (r := -(ms - 999) % 1000) hroom (by omega) (by omega)
    change Timespec.toMs _ = some ms ↔ _
    rw [hms']
    simp only [Option.some.injEq]
    omega

end Milliseconds

section Arithmetic

/-! ## The arithmetic as a whole -/

/-- Sums and differences of two times are right, they are compared as what they denote, and a count
of milliseconds comes back from both kinds of times. -/
structure TimesRight (x y : Timeval) (ms : Int) : Prop where
  add : ∃ s, x.add y = some s ∧ s.Normal ∧ s.micros = x.micros + y.micros ∧ s.sub y = some x
  sub : ∃ d, x.sub y = some d ∧ d.micros = max 0 (x.micros - y.micros)
  compare_lt : x.compare y < 0 ↔ x.micros < y.micros
  compare_eq : x.compare y = 0 ↔ x.micros = y.micros
  timeval : (Timeval.ofMs ms).toMs = some ms
  timespec : (Timespec.ofMs ms).bind Timespec.toMs = some ms

/-- The arithmetic is right when the seconds of the sum fit and the count is not negative. -/
theorem timesRight_iff {x y : Timeval} {ms : Int} (hx : x.Normal) (hy : y.Normal)
    (hms : Unsaturated ms) : TimesRight x y ms ↔
      (x.micros + y.micros) / 1000000 ≤ longMax ∧ 0 ≤ ms := by
  constructor
  · intro h
    refine ⟨?_, (Timespec.toMs_ofMs_iff hms).mp h.timespec⟩
    by_contra hexceeds
    obtain ⟨s, hs, -⟩ := h.add
    rw [hx.add_eq_none hy (by omega)] at hs
    cases hs
  · rintro ⟨hfits, hnonneg⟩
    obtain ⟨s, hs, hnormal, hmicros⟩ := hx.add hy (by omega)
    obtain ⟨d, hd, hdnormal, hdmicros⟩ := hnormal.sub hy
    have hxmicros : 0 ≤ x.micros := by
      have hsec := hx.sec_nonneg
      have husec := hx.usec_nonneg
      unfold Timeval.micros
      omega
    have hback : d = x := hdnormal.ext hx (by
      rw [hdmicros, hmicros, Int.add_sub_cancel, max_eq_right hxmicros])
    obtain ⟨d', hd', -, hdmicros'⟩ := hx.sub hy
    obtain ⟨hlt, heq⟩ := hx.compare_iff hy
    exact ⟨⟨s, hs, hnormal, hmicros, hback ▸ hd⟩, ⟨d', hd', hdmicros'⟩, hlt, heq,
      (Timeval.toMs_ofMs_iff hms).mpr (.inl hnonneg), (Timespec.toMs_ofMs_iff hms).mpr hnonneg⟩

/-- A carry, a borrow and half a second. -/
theorem timesRight_iff_half : TimesRight ⟨0, 1⟩ ⟨0, 999999⟩ 500 ↔
    ((1 : Int) + 999999) / 1000000 ≤ longMax ∧ (0 : Int) ≤ 500 :=
  timesRight_iff ⟨by decide, by decide, by decide, by decide⟩
    ⟨by decide, by decide, by decide, by decide⟩ (by decide)

/-- A millisecond before zero comes back as one after it, and from a `timespec` as a second before
zero. -/
theorem negative_milliseconds : Unsaturated (-1) ∧
    (Timeval.ofMs (-1)).toMs = some 1 ∧ (Timespec.ofMs (-1)).bind Timespec.toMs = some (-1000) := by
  decide

end Arithmetic

end Nox.Time
