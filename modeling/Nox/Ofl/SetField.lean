import Nox.Lib.Outcome
import Nox.Ofl.Actions

/-!
# `set_field` on the wire

The bytes of an `ofp_action_set_field`, and what `ofl_actions_pack` and
`ofl_actions_unpack` make of the memory of a value.  The decoder reverses a payload of
two, four or eight bytes, the encoder a value of two or four: a value of eight bytes it
cuts to its last two.
-/

namespace Nox.Ofl

open Oxm
open Lib (ok_bind)

section Wire

/-! ## The bytes -/

/-- A `set_field` of the header with the payload, padded to a multiple of eight. -/
def setFieldBytes (header : UInt32) (payload : Bytes) : Bytes :=
  beBytes 2 25 ++ (beBytes 2 (8 + roundUp (oxmLength header) 8) ++ (beBytes 4 header.toNat ++
    (payload ++ List.replicate (roundUp (oxmLength header) 8 - oxmLength header) 0)))

/-- The sizes the encoder and the decoder have a case for. -/
def setFieldSizes : List Nat := [1, 2, 4, 6, 8, 16]

/-- The payloads that stand in memory in the other order. -/
def isSwapped (header : UInt32) : Bool :=
  [2, 4, 8].contains (oxmLength header) && !(oxmLength header == 4 && isNetworkOrder header)

/-- The memory of the value with the payload. -/
def hostValue (header : UInt32) (payload : Bytes) : Bytes :=
  if isSwapped header then payload.reverse else payload

variable {header : UInt32} {payload : Bytes}

theorem roundUp_eight (n : Nat) : n ≤ roundUp n 8 ∧ roundUp n 8 ≤ n + 7 ∧ roundUp n 8 % 8 = 0 := by
  unfold roundUp
  omega

theorem setFieldBytes_length (h : payload.length = oxmLength header) :
    (setFieldBytes header payload).length = 8 + roundUp (oxmLength header) 8 := by
  obtain ⟨hle, -, -⟩ := roundUp_eight (oxmLength header)
  simp only [setFieldBytes, List.length_append, beBytes_length, List.length_replicate, h]
  omega

/-- The bytes tell the payload. -/
theorem setFieldBytes_inj {q : Bytes} (h : setFieldBytes header payload = setFieldBytes header q) :
    payload = q := by
  unfold setFieldBytes at h
  exact List.append_cancel_right (List.append_cancel_left (List.append_cancel_left
    (List.append_cancel_left h)))

end Wire

section Encode

/-! ## Encoding -/

variable {header : UInt32} {payload value : Bytes}

/-- The encoder writes the bytes of the payload it makes. -/
theorem oflActionsPack_setField (old : Bytes) :
    oflActionsPack old (.setField header value) =
      some (setFieldBytes header (packSetFieldValue header value (old.drop 8))) := by
  simp only [oflActionsPack, packAction, setFieldBytes, ofpatSetField, List.append_assoc]

/-- The value of a size other than eight, with a case, is written as it should be. -/
theorem packSetFieldValue_host (h : payload.length = oxmLength header)
    (hsize : oxmLength header ∈ setFieldSizes) (hne : oxmLength header ≠ 8) (old : Bytes) :
    packSetFieldValue header (hostValue header payload) old = payload := by
  simp only [setFieldSizes, List.mem_cons, List.not_mem_nil, or_false] at hsize
  have hcopy : payload.take (oxmLength header) = payload := List.take_of_length_le h.le
  have hswap {k : Nat} (hk : oxmLength header = k) :
      leBytes k (hton k (load k payload.reverse)) = payload := by
    rw [load, List.take_of_length_le (by simp [h, hk]), leBytes_hton_leNat (by simp [h, hk]),
      List.reverse_reverse]
  unfold packSetFieldValue hostValue isSwapped
  rcases hsize with hk | hk | hk | hk | hk | hk <;> rw [hk] at hcopy ⊢
  · exact hcopy
  · exact hswap hk
  · cases isNetworkOrder header
    · exact hswap hk
    · exact hcopy
  · exact hcopy
  · exact absurd hk hne
  · exact hcopy

/-- Of eight bytes the last two are left, and they come first. -/
theorem packSetFieldValue_eight (h : oxmLength header = 8) (n : Nat) (old : Bytes) :
    packSetFieldValue header (leBytes 8 n) old = leBytes 8 (hton 2 (n % 256 ^ 8)) := by
  unfold packSetFieldValue
  simp only [h, load, List.take_of_length_le (leBytes_length 8 n).le, leNat_leBytes]

/-- Swapped as eight bytes, a number of two has its bytes at the top. -/
theorem hton_eight {a b : Nat} (ha : a < 256) (hb : b < 256) :
    hton 8 (a * 256 + b) = (b * 256 + a) * 256 ^ 6 := by
  have hmod : (a * 256 + b) % 256 = b := by omega
  have hdiv : (a * 256 + b) / 256 = a := by omega
  simp only [hton, leBytes, List.reverse_cons, List.reverse_nil, List.nil_append,
    List.cons_append, leNat, UInt8.toNat_ofNat', hmod, hdiv, Nat.div_eq_of_lt ha,
    Nat.zero_div, Nat.zero_mod, Nat.mod_eq_of_lt ha]
  clear hmod hdiv
  omega

/-- What is cut to its last two bytes is written right only where they are zero. -/
theorem eq_zero_of_cut {n : Nat} (hlt : n < 256 ^ 8) (h : leBytes 8 (hton 2 n) = beBytes 8 n) :
    n = 0 := by
  have hrev : n = hton 8 (hton 2 n) := by
    have heq := congrArg beNat h
    rw [beNat_beBytes_of_lt hlt] at heq
    exact heq.symm
  have htwo : hton 2 n = n % 256 * 256 + n / 256 % 256 := by
    simp only [hton, leBytes, List.reverse_cons, List.reverse_nil, List.nil_append,
      List.cons_append, leNat, UInt8.toNat_ofNat']
    omega
  have hlow : n % 256 < 256 := Nat.mod_lt _ (by omega)
  have hhigh : n / 256 % 256 < 256 := Nat.mod_lt _ (by omega)
  rw [htwo, hton_eight hlow hhigh] at hrev
  have hzero : n % 256 = 0 := by omega
  omega

end Encode

section Decode

/-! ## Decoding -/

variable {header : UInt32} {payload : Bytes}

theorem memcpy_append {a b c : Bytes} {off k : Nat} (hoff : a.length = off) (hk : b.length = k) :
    memcpy (a ++ (b ++ c)) off k = .ok b := by
  subst hoff hk
  have hfits : a.length + b.length ≤ (a ++ (b ++ c)).length := by
    simp only [List.length_append]
    omega
  rw [memcpy, if_pos hfits, List.drop_left, List.take_left]

theorem readNtoh_append {a c : Bytes} {off k n : Nat} (hoff : a.length = off) (hn : n < 256 ^ k) :
    readNtoh (a ++ (beBytes k n ++ c)) off k = .ok n := by
  rw [readNtoh, memcpy_append hoff (beBytes_length k n)]
  show Except.ok (beNat (beBytes k n)) = _
  rw [beNat_beBytes_of_lt hn]

/-- What the decoder reads of the bytes of a `set_field`. -/
structure ReadsSetField (header : UInt32) (payload src : Bytes) : Prop where
  type : readNtoh src 0 2 = .ok 25
  len : readNtoh src 2 2 = .ok (8 + roundUp (oxmLength header) 8)
  field : readNtoh src 4 4 = .ok header.toNat
  value : memcpy src 8 (oxmLength header) = .ok payload

theorem readsSetField (h : payload.length = oxmLength header) (rest : Bytes) :
    ReadsSetField header payload (setFieldBytes header payload ++ rest) := by
  obtain ⟨-, hle, -⟩ := roundUp_eight (oxmLength header)
  have hlt := oxmLength_lt header
  have hlen : (beBytes 2 25 ++ beBytes 2 (8 + roundUp (oxmLength header) 8)).length = 4 := by simp
  have hfield : ((beBytes 2 25 ++ beBytes 2 (8 + roundUp (oxmLength header) 8)) ++
      beBytes 4 header.toNat).length = 8 := by simp
  unfold setFieldBytes
  simp only [List.append_assoc]
  constructor
  · exact readNtoh_append (a := []) rfl (by omega)
  · exact readNtoh_append (beBytes_length 2 25) (by omega)
  · rw [← List.append_assoc]
    exact readNtoh_append hlen header.toNat_lt
  · rw [← List.append_assoc, ← List.append_assoc]
    exact memcpy_append hfield h

/-- The checks every action begins with. -/
theorem checked_bind {src : Bytes} {len type srcLen : Nat} {α : Type} {f : Nat → Unpack α}
    (htype : readNtoh src 0 2 = .ok type) (hlen : readNtoh src 2 2 = .ok srcLen)
    (hmin : 8 ≤ srcLen) (hle : srcLen ≤ len) (hmod : srcLen % 8 = 0) :
    (do
      checkSize len 8
      let srcLen ← readNtoh src 2 2
      checkSize len srcLen
      if srcLen % 8 ≠ 0 then badAction ofpbacBadLen else readNtoh src 0 2 >>= f) = f type := by
  have hsize {n : Nat} (h : n ≤ len) : checkSize len n = .ok () := if_neg (by omega)
  have hmultiple : ¬srcLen % 8 ≠ 0 := by omega
  rw [hsize (hmin.trans hle), ok_bind, hlen, ok_bind, hsize hle, ok_bind, if_neg hmultiple, htype,
    ok_bind]

/-- The value of every size with a case is what the payload stands for. -/
theorem unpackSetFieldValue_eq {src : Bytes} (h : payload.length = oxmLength header)
    (hsize : oxmLength header ∈ setFieldSizes) (fresh : Bytes)
    (hread : memcpy src 8 (oxmLength header) = .ok payload) :
    unpackSetFieldValue fresh header src = .ok (hostValue header payload) := by
  simp only [setFieldSizes, List.mem_cons, List.not_mem_nil, or_false] at hsize
  have hswap {k : Nat} (hk : oxmLength header = k) :
      (do return leBytes k (← readNtoh src 8 k)) = (.ok payload.reverse : Unpack Bytes) := by
    subst hk
    rw [readNtoh, hread]
    show Except.ok (leBytes _ (leNat payload.reverse)) = _
    rw [leBytes_leNat_of_length (by simp [h])]
  unfold unpackSetFieldValue hostValue isSwapped
  rcases hsize with hk | hk | hk | hk | hk | hk <;> rw [hk] at hread ⊢
  · exact hread
  · exact hswap hk
  · cases isNetworkOrder header
    · exact hswap hk
    · exact hread
  · exact hread
  · exact hswap hk
  · exact hread

theorem sizeSub_eq {len n : Nat} (hlt : len < 2 ^ 64) (hle : n ≤ len) :
    sizeSub len n = len - n := by
  unfold sizeSub
  omega

/-- The decoder gives back the header and the value of the payload, and leaves what is
behind it. -/
theorem oflActionsUnpack_setFieldBytes_append (h : payload.length = oxmLength header)
    (hsize : oxmLength header ∈ setFieldSizes) (fresh rest : Bytes)
    (hfits : (setFieldBytes header payload ++ rest).length < 2 ^ 64) :
    oflActionsUnpack fresh (setFieldBytes header payload ++ rest)
        (setFieldBytes header payload ++ rest).length =
      .ok (.setField header (hostValue header payload), rest.length) := by
  obtain ⟨htype, hlen, hfield, hvalue⟩ := readsSetField h rest
  have hvalue := unpackSetFieldValue_eq h hsize fresh hvalue
  have hpadded := (roundUp_eight (oxmLength header)).2.2
  have hround : roundUp (8 + roundUp (oxmLength header) 8) 8 = 8 + roundUp (oxmLength header) 8 := by
    simp only [roundUp] at hpadded ⊢
    omega
  rw [List.length_append, setFieldBytes_length h] at hfits ⊢
  have hrest : sizeSub (8 + roundUp (oxmLength header) 8 + rest.length)
      (8 + roundUp (oxmLength header) 8) = rest.length := by
    rw [sizeSub_eq hfits (by omega)]
    omega
  unfold oflActionsUnpack
  rw [checked_bind htype hlen (by omega) (by omega) (by omega)]
  simp only [unpackSetField, hfield, ok_bind, UInt32.ofNat_toNat, hvalue, hlen, hround, hrest]
  rfl

/-- With nothing behind it nothing remains. -/
theorem oflActionsUnpack_setFieldBytes (h : payload.length = oxmLength header)
    (hsize : oxmLength header ∈ setFieldSizes) (fresh : Bytes) :
    oflActionsUnpack fresh (setFieldBytes header payload) (setFieldBytes header payload).length =
      .ok (.setField header (hostValue header payload), 0) := by
  have hlt := oxmLength_lt header
  obtain ⟨-, hle, -⟩ := roundUp_eight (oxmLength header)
  have hback := oflActionsUnpack_setFieldBytes_append h hsize fresh []
  rw [List.append_nil] at hback
  apply hback
  rw [setFieldBytes_length h]
  omega

end Decode

end Nox.Ofl
