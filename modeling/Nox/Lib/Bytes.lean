import Mathlib.Data.List.TakeDrop
import Mathlib.Tactic.Ring

/-!
# Words and bytes

Fixed-width unsigned words as natural numbers, and their little-endian and
big-endian byte strings.  The host is little-endian: storing a word of `k`
bytes writes `leBytes k`, loading reads `leNat`, and the byte swap `hton k`
turns the host representation into the network one and back.
-/

namespace Nox

abbrev Bytes := List UInt8

/-! ## Little endian -/

/-- The `k` bytes of `n mod 256 ^ k`, least significant first. -/
def leBytes : Nat → Nat → Bytes
  | 0, _ => []
  | k + 1, n => UInt8.ofNat n :: leBytes k (n / 256)

/-- The number a little-endian byte string denotes. -/
def leNat : Bytes → Nat
  | [] => 0
  | b :: bs => b.toNat + 256 * leNat bs

@[simp] theorem leBytes_length (k n : Nat) : (leBytes k n).length = k := by
  induction k generalizing n with
  | zero => rfl
  | succ k ih => simp [leBytes, ih]

theorem leNat_lt (bs : Bytes) : leNat bs < 256 ^ bs.length := by
  induction bs with
  | nil => simp [leNat]
  | cons b bs ih =>
    have hb : b.toNat < 256 := b.toNat_lt
    simp only [leNat, List.length_cons, pow_succ]
    omega

theorem leNat_leBytes (k n : Nat) : leNat (leBytes k n) = n % 256 ^ k := by
  induction k generalizing n with
  | zero => simp [leBytes, leNat, Nat.mod_one]
  | succ k ih =>
    simp only [leBytes, leNat, ih]
    rw [show (UInt8.ofNat n).toNat = n % 256 from rfl, pow_succ, Nat.mul_comm (256 ^ k) 256,
      Nat.mod_mul]

theorem leNat_leBytes_of_lt {k n : Nat} (h : n < 256 ^ k) : leNat (leBytes k n) = n := by
  rw [leNat_leBytes, Nat.mod_eq_of_lt h]

@[simp] theorem leBytes_leNat (bs : Bytes) : leBytes bs.length (leNat bs) = bs := by
  induction bs with
  | nil => rfl
  | cons b bs ih =>
    have hb : b.toNat < 256 := b.toNat_lt
    have hdiv : (b.toNat + 256 * leNat bs) / 256 = leNat bs := by omega
    have hhead : UInt8.ofNat (b.toNat + 256 * leNat bs) = b := by
      apply UInt8.toNat_inj.mp
      rw [UInt8.toNat_ofNat']
      omega
    simp [leBytes, leNat, hdiv, hhead, ih]

theorem leBytes_leNat_of_length {k : Nat} {bs : Bytes} (h : bs.length = k) :
    leBytes k (leNat bs) = bs := by
  subst h
  exact leBytes_leNat bs

/-! ## Network order -/

/-- The big-endian bytes of a word. -/
def beBytes (k n : Nat) : Bytes := (leBytes k n).reverse

/-- The number a big-endian byte string denotes. -/
def beNat (bs : Bytes) : Nat := leNat bs.reverse

/-- `htons`, `htonl`, `hton64` and their inverses on a little-endian host. -/
def hton (k n : Nat) : Nat := leNat (leBytes k n).reverse

@[simp] theorem beBytes_length (k n : Nat) : (beBytes k n).length = k := by
  simp [beBytes]

theorem beNat_beBytes_of_lt {k n : Nat} (h : n < 256 ^ k) : beNat (beBytes k n) = n := by
  simp [beNat, beBytes, leNat_leBytes_of_lt h]

/-- Swapping and storing a word writes its network representation. -/
theorem leBytes_hton (k n : Nat) : leBytes k (hton k n) = beBytes k n := by
  rw [hton, beBytes, leBytes_leNat_of_length (by simp)]

theorem leBytes_hton_leNat {k : Nat} {bs : Bytes} (h : bs.length = k) :
    leBytes k (hton k (leNat bs)) = bs.reverse := by
  rw [leBytes_hton, beBytes, leBytes_leNat_of_length h]

theorem hton_lt (k n : Nat) : hton k n < 256 ^ k := by
  simpa [hton] using leNat_lt (leBytes k n).reverse

theorem hton_hton {k n : Nat} (h : n < 256 ^ k) : hton k (hton k n) = n := by
  rw [hton, leBytes_hton, beBytes, List.reverse_reverse, leNat_leBytes_of_lt h]

end Nox
