import Mathlib.Data.BitVec
import Mathlib.Tactic.LinearCombination

/-!
# Invertible bit mixing steps

The integer hash functions of chained tables are built from steps of three
kinds: subtracting or adding a shifted copy, and xoring with a shifted copy.
Every such step is injective, so a composition of them loses no information.
-/

namespace Nox.BitMix

variable {w : Nat}

/-- A word fixed by a proper left shift is zero. -/
theorem eq_zero_of_eq_shiftLeft {d : BitVec w} {k : Nat} (hk : 0 < k) (h : d = d <<< k) :
    d = 0#w := by
  have hbit : ∀ i, d.getLsbD i = false := by
    intro i
    induction i using Nat.strongRecOn with
    | _ i ih =>
      rw [h, BitVec.getLsbD_shiftLeft]
      by_cases hik : i < k
      · simp [hik]
      · simp [ih (i - k) (by omega)]
  exact BitVec.eq_of_getLsbD_eq fun i _ => by simp [hbit i]

theorem sub_shiftLeft_injective {k : Nat} (hk : 0 < k) :
    Function.Injective fun x : BitVec w => x - x <<< k := by
  intro x y h
  simp only [BitVec.shiftLeft_eq_mul_twoPow] at h
  have hd : x - y = (x - y) <<< k := by
    rw [BitVec.shiftLeft_eq_mul_twoPow]
    linear_combination h
  exact sub_eq_zero.mp (eq_zero_of_eq_shiftLeft hk hd)

theorem xor_shiftLeft_injective {k : Nat} (hk : 0 < k) :
    Function.Injective fun x : BitVec w => x ^^^ x <<< k := by
  intro x y h
  have hbit : ∀ i, x.getLsbD i = y.getLsbD i := by
    intro i
    induction i using Nat.strongRecOn with
    | _ i ih =>
      have hi := congrArg (fun v : BitVec w => v.getLsbD i) h
      simp only [BitVec.getLsbD_xor, BitVec.getLsbD_shiftLeft] at hi
      by_cases hik : i < k
      · simpa [hik] using hi
      · rw [ih (i - k) (by omega)] at hi
        exact Bool.xor_left_inj.mp hi
  exact BitVec.eq_of_getLsbD_eq fun i _ => hbit i

theorem xor_ushiftRight_injective {k : Nat} (hk : 0 < k) :
    Function.Injective fun x : BitVec w => x ^^^ x >>> k := by
  intro x y h
  -- the top bits are copied, so the induction runs from the most significant bit down
  have hbit : ∀ j i, w ≤ i + j → x.getLsbD i = y.getLsbD i := by
    intro j
    induction j with
    | zero =>
      intro i hi
      rw [BitVec.getLsbD_of_ge x i (by omega), BitVec.getLsbD_of_ge y i (by omega)]
    | succ j ih =>
      intro i hi
      have hb := congrArg (fun v : BitVec w => v.getLsbD i) h
      simp only [BitVec.getLsbD_xor, BitVec.getLsbD_ushiftRight] at hb
      rw [ih (k + i) (by omega)] at hb
      exact Bool.xor_left_inj.mp hb
  exact BitVec.eq_of_getLsbD_eq fun i _ => hbit w i (by omega)

end Nox.BitMix
