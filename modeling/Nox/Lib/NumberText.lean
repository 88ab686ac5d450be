import Nox.Lib.Binary32
import Nox.Lib.JsonLex

/-!
# Printed numbers are read back

What is printed for an integer, and for a decimal number in the format `%g`, is a
numeral, and it is read as the number it was printed for.
-/

namespace Nox.Lib

open Lib.Json

section Digits

/-! ## Digits -/

theorem allDigits_toDigits (n : Nat) : AllDigits (Nat.toDigits 10 n) :=
  ⟨Nat.toDigits_ne_nil, fun _ hc => Nat.isDigit_of_mem_toDigits (by decide) (by decide) hc⟩

theorem head_toDigits {n : Nat} (h : (Nat.toDigits 10 n).head? = some '0') : n = 0 := by
  induction n using Nat.strong_induction_on with
  | _ n ih =>
    rcases Nat.lt_or_ge n 10 with hlt | hge
    · rw [Nat.toDigits_of_lt_base hlt] at h
      exact Nat.digitChar_eq_zero.mp (Option.some.inj h)
    · rw [Nat.toDigits_of_base_le (by decide) hge,
        List.head?_append_of_ne_nil _ Nat.toDigits_ne_nil] at h
      have hzero := ih (n / 10) (by omega) h
      omega

theorem length_toDigits_zero {n : Nat} (h : n = 0) : (Nat.toDigits 10 n).length = 1 := by
  subst h
  rfl

/-- A numeral is no name. -/
theorem wordToken_text {n : Numeral} (h : n.Valid) : wordToken n.text = some
    (if n.isInteger then
      .integer (if n.value.neg then -(n.value.digits : Int) else n.value.digits)
    else .float n.value) := by
  have hname : ∀ w : List Char, (∀ c, w.head? = some c → c ≠ '-' ∧ c.isDigit = false) →
      n.text ≠ w := by
    rintro w hw rfl
    cases hneg : n.neg with
    | true => exact (hw '-' (by simp [Numeral.text, hneg])).1 rfl
    | false =>
      cases hint : n.int with
      | nil => exact h.int.1 hint
      | cons c cs =>
        have hc := h.int.2 c (by rw [hint]; exact List.mem_cons_self)
        have hfalse := (hw c (by simp [Numeral.text, hneg, hint])).2
        rw [hc] at hfalse
        cases hfalse
  unfold wordToken
  rw [if_neg (hname _ fun c hc => by cases hc; decide),
    if_neg (hname _ fun c hc => by cases hc; decide),
    if_neg (hname _ fun c hc => by cases hc; decide), readNumeral_text h]
  rfl

end Digits

section Integers

/-! ## Integers -/

/-- How an integer is written. -/
def integerNumeral (n : Int) : Numeral where
  neg := decide (n < 0)
  int := Nat.toDigits 10 n.natAbs
  frac := none
  exp := none

theorem integerNumeral_valid (n : Int) : (integerNumeral n).Valid where
  int := allDigits_toDigits _
  zero := fun h => length_toDigits_zero (head_toDigits h)
  frac := nofun
  exp := nofun

theorem integerNumeral_text (n : Int) : (integerNumeral n).text = (toString n).toList := by
  rw [Int.toString_eq_repr, Int.repr_eq_if]
  by_cases h : 0 ≤ n
  · have habs : n.natAbs = n.toNat := by omega
    have hneg : ¬n < 0 := by omega
    rw [if_pos h, Nat.toList_repr]
    simp [Numeral.text, integerNumeral, habs, hneg]
  · have habs : n.natAbs = (-n).toNat := by omega
    have hneg : n < 0 := by omega
    rw [if_neg h, String.toList_append, Nat.toList_repr]
    simp [Numeral.text, integerNumeral, habs, hneg]

/-- An integer is read as it was printed. -/
theorem wordToken_integer (n : Int) : wordToken (toString n).toList = some (.integer n) := by
  rw [← integerNumeral_text, wordToken_text (integerNumeral_valid n)]
  have hdigits : (integerNumeral n).value.digits = n.natAbs := by
    simp [Numeral.value, integerNumeral]
  have hinteger : (integerNumeral n).isInteger = true := rfl
  have hneg : (integerNumeral n).value.neg = decide (n < 0) := rfl
  rw [if_pos hinteger, hdigits, hneg]
  congr 2
  by_cases h : n < 0
  · rw [if_pos (by simpa using h)]
    omega
  · rw [if_neg (by simpa using h)]
    omega

end Integers

section Decimals

/-! ## Decimal numbers -/

theorem allDigits_expDigits (n : Nat) : AllDigits (expDigits n) := by
  unfold expDigits
  split
  · refine ⟨List.cons_ne_nil _ _, fun c hc => ?_⟩
    rcases List.mem_cons.mp hc with rfl | hc
    · decide
    · exact (allDigits_toDigits n).2 c hc
  · exact allDigits_toDigits n

theorem ofDigitChars_expDigits (n : Nat) : Nat.ofDigitChars 10 (expDigits n) 0 = n := by
  unfold expDigits
  split
  · rw [Nat.ofDigitChars_cons]
    exact Nat.ofDigitChars_ten_toDigits
  · exact Nat.ofDigitChars_ten_toDigits

theorem firstExp_eq (d : Decimal) :
    Decimal.firstExp d = d.exp + (Nat.toDigits 10 d.digits).length - 1 :=
  rfl

/-- The shapes of a number in the format `%g`. -/
theorem decimalNumeral_cases (d : Decimal) {ds : List Char} (hds : Nat.toDigits 10 d.digits = ds)
    {x : Int} (hx : Decimal.firstExp d = x) :
    d.digits = 0 ∧ decimalNumeral d = ⟨d.neg, ['0'], none, none⟩ ∨
      d.digits ≠ 0 ∧ (x < -4 ∨ 6 ≤ x) ∧ decimalNumeral d =
        ⟨d.neg, ds.take 1, if ds.length = 1 then none else some (ds.drop 1),
          some (decide (x < 0), expDigits x.natAbs)⟩ ∨
      d.digits ≠ 0 ∧ 0 ≤ d.exp ∧ x < 6 ∧ decimalNumeral d =
        ⟨d.neg, ds ++ List.replicate d.exp.toNat '0', none, none⟩ ∨
      d.digits ≠ 0 ∧ d.exp < 0 ∧ 0 ≤ x ∧ x < 6 ∧ decimalNumeral d =
        ⟨d.neg, ds.take (x.toNat + 1), some (ds.drop (x.toNat + 1)), none⟩ ∨
      d.digits ≠ 0 ∧ d.exp < 0 ∧ x < 0 ∧ decimalNumeral d =
        ⟨d.neg, ['0'], some (List.replicate ((-x).toNat - 1) '0' ++ ds), none⟩ := by
  unfold decimalNumeral
  simp only [hds, hx]
  split
  · next hzero => exact .inl ⟨hzero, rfl⟩
  · next hzero =>
    right
    split
    · next h => exact .inl ⟨hzero, h, rfl⟩
    · next h =>
      split
      · next hexp => exact .inr (.inl ⟨hzero, hexp, by omega, rfl⟩)
      · next hexp =>
        split
        · next hfirst => exact .inr (.inr (.inl ⟨hzero, by omega, hfirst, by omega, rfl⟩))
        · next hfirst => exact .inr (.inr (.inr ⟨hzero, by omega, by omega, rfl⟩))

theorem Json.AllDigits.take {ds : List Char} (h : AllDigits ds) {n : Nat} (hn : 0 < n) :
    AllDigits (ds.take n) := by
  refine ⟨fun hnil => ?_, fun c hc => h.2 c (List.mem_of_mem_take hc)⟩
  have hlength := congrArg List.length hnil
  have hpos := List.length_pos_of_ne_nil h.1
  rw [List.length_take, List.length_nil] at hlength
  omega

theorem Json.AllDigits.drop {ds : List Char} (h : AllDigits ds) {n : Nat} (hn : n < ds.length) :
    AllDigits (ds.drop n) := by
  refine ⟨fun hnil => ?_, fun c hc => h.2 c (List.mem_of_mem_drop hc)⟩
  have hlength := congrArg List.length hnil
  rw [List.length_drop, List.length_nil] at hlength
  omega

theorem isDigit_zeros {n : Nat} {c : Char} (hc : c ∈ List.replicate n '0') :
    c.isDigit = true := by
  rw [List.eq_of_mem_replicate hc]
  decide

theorem decimalNumeral_valid (d : Decimal) : (decimalNumeral d).Valid := by
  have hds := allDigits_toDigits d.digits
  have hx := firstExp_eq d
  have hhead : d.digits ≠ 0 → (Nat.toDigits 10 d.digits).head? ≠ some '0' := fun hne h =>
    hne (head_toDigits h)
  have hzero : AllDigits ['0'] := ⟨List.cons_ne_nil _ _, fun c hc => by
    rw [List.mem_singleton.mp hc]
    decide⟩
  generalize hdigits : Nat.toDigits 10 d.digits = ds at hds hx hhead
  have hpos := List.length_pos_of_ne_nil hds.1
  rcases decimalNumeral_cases d hdigits rfl with ⟨-, h⟩ | ⟨-, -, h⟩ | ⟨hne, hexp, hlt, h⟩ |
    ⟨hne, hexp, hge, hlt, h⟩ | ⟨-, hexp, hneg, h⟩
  · rw [h]
    exact ⟨hzero, fun _ => rfl, nofun, nofun⟩
  · rw [h]
    refine ⟨hds.take Nat.one_pos, fun _ => ?_, fun fs hfs => ?_, fun e he => ?_⟩
    · rw [List.length_take]
      omega
    · simp only at hfs
      split at hfs
      · cases hfs
      · cases hfs
        exact hds.drop (by omega)
    · cases he
      exact allDigits_expDigits _
  · rw [h]
    refine ⟨⟨fun hnil => hds.1 (List.append_eq_nil_iff.mp hnil).1, fun c hc => ?_⟩, fun hlead => ?_,
      nofun, nofun⟩
    · rcases List.mem_append.mp hc with hc | hc
      · exact hds.2 c hc
      · exact isDigit_zeros hc
    · simp only at hlead
      rw [List.head?_append_of_ne_nil _ hds.1] at hlead
      exact absurd hlead (hhead hne)
  · rw [h]
    refine ⟨hds.take (Nat.succ_pos _), fun hlead => ?_, fun fs hfs => ?_, nofun⟩
    · simp only at hlead
      rw [List.head?_take] at hlead
      exact absurd (by simpa using hlead) (hhead hne)
    · cases hfs
      exact hds.drop (by omega)
  · rw [h]
    refine ⟨hzero, fun _ => rfl, fun fs hfs => ?_, nofun⟩
    cases hfs
    refine ⟨fun hnil => hds.1 (List.append_eq_nil_iff.mp hnil).2, fun c hc => ?_⟩
    rcases List.mem_append.mp hc with hc | hc
    · exact isDigit_zeros hc
    · exact hds.2 c hc

/-- A numeral that is no integer is read as its value. -/
theorem token_float {n : Numeral} {d : Decimal} (hint : n.isInteger = false) (hneg : n.neg = d.neg)
    (hdigits : Nat.ofDigitChars 10 (n.int ++ n.frac.getD []) 0 = d.digits)
    (hexp : n.value.exp = d.exp) :
    (if n.isInteger then
      Token.integer (if n.value.neg then -(n.value.digits : Int) else n.value.digits)
    else .float n.value) = .float d := by
  have hvalue : n.value = d := by
    obtain ⟨neg, digits, exp⟩ := d
    show (⟨n.neg, Nat.ofDigitChars 10 (n.int ++ n.frac.getD []) 0, n.value.exp⟩ : Decimal) = _
    rw [hneg, hdigits, hexp]
  rw [hint, hvalue]
  rfl

/-- The number printed is an integer below a million. -/
def PrintsInteger (d : Decimal) : Prop :=
  d.digits = 0 ∨ 0 ≤ d.exp ∧ Decimal.firstExp d < 6

instance (d : Decimal) : Decidable (PrintsInteger d) :=
  inferInstanceAs (Decidable (_ ∨ _))

/-- A decimal number is read as it was printed, unless it was printed as an integer. -/
theorem wordToken_decimal (d : Decimal) : ∃ t, wordToken (decimalNumeral d).text = some t ∧
    (PrintsInteger d → ∃ n, t = .integer n) ∧ (¬PrintsInteger d → t = .float d) := by
  have hx := firstExp_eq d
  have hof : Nat.ofDigitChars 10 (Nat.toDigits 10 d.digits) 0 = d.digits :=
    Nat.ofDigitChars_ten_toDigits
  refine ⟨_, wordToken_text (decimalNumeral_valid d), ?_⟩
  generalize hdigits : Nat.toDigits 10 d.digits = ds at hx hof
  have hpos : 0 < ds.length := by
    rw [← hdigits]
    exact Nat.length_toDigits_pos
  rcases decimalNumeral_cases d hdigits rfl with ⟨hzero, h⟩ | ⟨hne, hsci, h⟩ |
    ⟨hne, hexp, hlt, h⟩ | ⟨hne, hexp, hge, hlt, h⟩ | ⟨hne, hexp, hneg, h⟩
  · rw [h]
    exact ⟨fun _ => ⟨_, rfl⟩, fun hnot => absurd (.inl hzero) hnot⟩
  · rw [h]
    refine ⟨fun hint => ?_, fun _ => ?_⟩
    · rcases hint with hint | hint
      · exact absurd hint hne
      · omega
    · have hsplit : ds.take 1 ++ (if ds.length = 1 then none else some (ds.drop 1)).getD [] = ds ∧
          ((if ds.length = 1 then none else some (ds.drop 1)).getD []).length + 1 = ds.length := by
        split
        · next hone =>
          simp [List.take_of_length_le (Nat.le_of_eq hone), hone]
        · simp only [Option.getD_some, List.take_append_drop, List.length_drop, true_and]
          omega
      apply token_float
      · simp [Numeral.isInteger]
      · rfl
      · rw [hsplit.1, hof]
      · simp only [Numeral.value, Option.elim_some, ofDigitChars_expDigits]
        split
        · next hneg =>
          have hneg := of_decide_eq_true hneg
          omega
        · next hneg =>
          have hneg := of_decide_eq_false (Bool.eq_false_iff.mpr hneg)
          omega
  · rw [h]
    exact ⟨fun _ => ⟨_, rfl⟩, fun hnot => absurd (.inr ⟨hexp, hlt⟩) hnot⟩
  · rw [h]
    refine ⟨fun hint => ?_, fun _ => ?_⟩
    · rcases hint with hint | hint
      · exact absurd hint hne
      · omega
    · apply token_float
      · rfl
      · rfl
      · simp only [Option.getD_some, List.take_append_drop, hof]
      · simp only [Numeral.value, Option.elim_none, Option.getD_some, List.length_drop]
        omega
  · rw [h]
    refine ⟨fun hint => ?_, fun _ => ?_⟩
    · rcases hint with hint | hint
      · exact absurd hint hne
      · omega
    · apply token_float
      · rfl
      · rfl
      · simp only [Option.getD_some, List.singleton_append]
        rw [Nat.ofDigitChars_cons, Nat.ofDigitChars_append, Nat.ofDigitChars_replicate_zero]
        exact hof
      · simp only [Numeral.value, Option.elim_none, Option.getD_some, List.length_append,
          List.length_replicate]
        omega

end Decimals

end Nox.Lib
