import Mathlib.Data.Nat.ModEq

/-!
# Transaction ids

`openflow_pack::get_xid` and `allocate_openflow_xid`, each with its counter of 32 bits.  The ids
below 256 are reserved.  Of the methods of `get_xid` the one that is configured returns to zero
when its counter has reached `2^31`, where the other one that counts returns to 256, and so it
returns the reserved ids in every round.
-/

namespace Nox.Openflow

section Model

/-! ## The counters -/

/-- `OPENFLOW_PACK_MIN_XID` -/
def openflowPackMinXid : UInt32 := 256

/-- `OPENFLOW_PACK_XID_METHOD_*` -/
inductive XidMethod
  | increment
  | random
  | privspace

/-- `OPENFLOW_PACK_XID_METHOD` -/
def openflowPackXidMethod : XidMethod := .privspace

/-- `openflow_pack::get_xid`: the id and the counter then.  `value` is what `rand_uint32` gives
when the loop over it ends. -/
def getXid (method : XidMethod) (value : {value : UInt32 // openflowPackMinXid ≤ value})
    (nextxid : UInt32) : UInt32 × UInt32 :=
  match method with
  | .random => (value, nextxid)
  | .increment =>
    let nextxid := if nextxid = 0 then openflowPackMinXid else nextxid
    (nextxid, nextxid + 1)
  | .privspace =>
    -- `1 << 31` is compared as an unsigned number
    let nextxid := if 0x80000000 ≤ nextxid then 0 else nextxid
    (nextxid, nextxid + 1)

/-- `allocate_openflow_xid`: the id and the counter then. -/
def allocateOpenflowXid (xid : UInt32) : UInt32 × UInt32 :=
  let xid := if xid = 0 then 1 else xid
  (xid, xid + 1)

variable (values : Nat → {value : UInt32 // openflowPackMinXid ≤ value})

/-- `nextxid` after so many calls. -/
def nextxidAfter : Nat → UInt32
  | 0 => openflowPackMinXid
  | n + 1 => (getXid openflowPackXidMethod (values n) (nextxidAfter n)).2

/-- What the call after so many others returns. -/
def packXid (n : Nat) : UInt32 :=
  (getXid openflowPackXidMethod (values n) (nextxidAfter values n)).1

/-- `xid` after so many calls. -/
def xidAfter : Nat → UInt32
  | 0 => 0
  | n + 1 => (allocateOpenflowXid (xidAfter n)).2

def allocatedXid (n : Nat) : UInt32 := (allocateOpenflowXid (xidAfter n)).1

/-- What is promised of the ids that are returned after so many calls: the one of `get_xid` is not
reserved and not among the `2^31 - 257` before it, and the one that is allocated is not zero and
was not returned within the `2^32 - 2` calls before. -/
structure LawfulXids (n : Nat) : Prop where
  unreserved : openflowPackMinXid ≤ packXid values n
  apart : ∀ k < n, n ≤ k + (2 ^ 31 - 257) → packXid values k ≠ packXid values n
  nonzero : allocatedXid n ≠ 0
  spaced : ∀ k < n, allocatedXid k = allocatedXid n → k + (2 ^ 32 - 2) < n

end Model

section Rounds

/-! ## Rounds -/

variable {values : Nat → {value : UInt32 // openflowPackMinXid ≤ value}}

/-- Numbers that go round are the same only after whole rounds. -/
theorem round_ne {start base period i j : Nat} {f : Nat → Nat}
    (hf : ∀ n, f n = base + (start + n) % period) (hlt : i < j) (hround : j < i + period) :
    f i ≠ f j := by
  intro heq
  rw [hf, hf] at heq
  have hmod : (start + i) % period = (start + j) % period := Nat.add_left_cancel heq
  have hdvd : period ∣ start + j - (start + i) :=
    (Nat.modEq_iff_dvd' (by omega)).mp hmod
  have hle : period ≤ start + j - (start + i) := Nat.le_of_dvd (by omega) hdvd
  omega

theorem privspace_toNat (value : {value : UInt32 // openflowPackMinXid ≤ value}) (nextxid : UInt32) :
    (getXid .privspace value nextxid).1.toNat =
        (if 2 ^ 31 ≤ nextxid.toNat then 0 else nextxid.toNat) ∧
      (getXid .privspace value nextxid).2.toNat =
        (if 2 ^ 31 ≤ nextxid.toNat then 0 else nextxid.toNat) + 1 := by
  have hle : 0x80000000 ≤ nextxid ↔ 2 ^ 31 ≤ nextxid.toNat := UInt32.le_iff_toNat_le
  unfold getXid
  dsimp only
  by_cases hwrap : 0x80000000 ≤ nextxid
  · rw [if_pos hwrap, if_pos (hle.mp hwrap)]
    exact ⟨rfl, rfl⟩
  · have hlt : ¬2 ^ 31 ≤ nextxid.toNat := fun h => hwrap (hle.mpr h)
    rw [if_neg hwrap, if_neg hlt]
    refine ⟨rfl, ?_⟩
    rw [UInt32.toNat_add, UInt32.toNat_one]
    omega

/-- The counter of `get_xid` goes round in `2^31` calls. -/
theorem nextxidAfter_toNat (n : Nat) :
    (nextxidAfter values n).toNat ≤ 2 ^ 31 ∧
      (nextxidAfter values n).toNat % 2 ^ 31 = (256 + n) % 2 ^ 31 := by
  induction n with
  | zero => exact ⟨show 256 ≤ 2 ^ 31 by decide, rfl⟩
  | succ n ih =>
    obtain ⟨hle, hmod⟩ := ih
    have hnext : (nextxidAfter values (n + 1)).toNat = _ :=
      (privspace_toNat (values n) (nextxidAfter values n)).2
    rw [hnext]
    split <;> omega

theorem packXid_toNat (n : Nat) : (packXid values n).toNat = (256 + n) % 2 ^ 31 := by
  obtain ⟨hle, hmod⟩ := @nextxidAfter_toNat values n
  have hid : (packXid values n).toNat = _ :=
    (privspace_toNat (values n) (nextxidAfter values n)).1
  rw [hid]
  split <;> omega

theorem allocate_toNat (xid : UInt32) :
    (allocateOpenflowXid xid).1.toNat = (if xid.toNat = 0 then 1 else xid.toNat) ∧
      (allocateOpenflowXid xid).2.toNat =
        ((if xid.toNat = 0 then 1 else xid.toNat) + 1) % 2 ^ 32 := by
  have hzero : xid = 0 ↔ xid.toNat = 0 := UInt32.toNat_inj.symm
  unfold allocateOpenflowXid
  dsimp only
  by_cases h : xid = 0
  · rw [if_pos h, if_pos (hzero.mp h)]
    exact ⟨rfl, rfl⟩
  · rw [if_neg h, if_neg fun h' => h (hzero.mpr h')]
    refine ⟨rfl, ?_⟩
    rw [UInt32.toNat_add, UInt32.toNat_one]

/-- The counter of `allocate_openflow_xid` goes round in `2^32 - 1` calls. -/
theorem allocatedXid_toNat (n : Nat) :
    (allocatedXid n).toNat = 1 + (0 + n) % (2 ^ 32 - 1) := by
  induction n with
  | zero => rfl
  | succ n ih =>
    have hid : (allocatedXid n).toNat = _ := (allocate_toNat (xidAfter n)).1
    have hnext : (xidAfter (n + 1)).toNat = _ := (allocate_toNat (xidAfter n)).2
    have hid' : (allocatedXid (n + 1)).toNat = _ := (allocate_toNat (xidAfter (n + 1))).1
    rw [← hid, ih] at hnext
    rw [hid', hnext]
    split <;> omega

/-- The ids are as promised but for the last 256 of every `2^31` calls of `get_xid`. -/
theorem lawfulXids_iff (values : Nat → {value : UInt32 // openflowPackMinXid ≤ value}) (n : Nat) :
    LawfulXids values n ↔ n % 2 ^ 31 < 2 ^ 31 - 256 := by
  have hmin : openflowPackMinXid ≤ packXid values n ↔ 256 ≤ (256 + n) % 2 ^ 31 := by
    rw [← packXid_toNat, UInt32.le_iff_toNat_le]
    rfl
  constructor
  · intro h
    have hge := hmin.mp h.unreserved
    omega
  · intro h
    refine ⟨hmin.mpr (by omega), fun k hlt hnear heq => ?_, fun hzero => ?_, fun k hlt heq => ?_⟩
    · have hpack (n : Nat) : (packXid values n).toNat = 0 + (256 + n) % 2 ^ 31 :=
        (packXid_toNat n).trans (Nat.zero_add _).symm
      exact round_ne hpack hlt (by omega) (congrArg UInt32.toNat heq)
    · have hnonzero := congrArg UInt32.toNat hzero
      rw [allocatedXid_toNat, UInt32.toNat_zero] at hnonzero
      omega
    · by_contra hnear
      exact round_ne allocatedXid_toNat hlt (by omega) (congrArg UInt32.toNat heq)

/-- After `2^31 - 256` calls the id is zero. -/
theorem xid_zero_returned :
    let values := fun _ : Nat => ⟨openflowPackMinXid, UInt32.le_refl openflowPackMinXid⟩
    packXid values (2 ^ 31 - 256) = 0 ∧ ¬LawfulXids values (2 ^ 31 - 256) := by
  intro values
  have hzero : packXid values (2 ^ 31 - 256) = 0 := UInt32.toNat_inj.mp (packXid_toNat _)
  refine ⟨hzero, fun h => ?_⟩
  have hge := h.unreserved
  rw [hzero] at hge
  exact absurd hge (by decide)

end Rounds

end Nox.Openflow
