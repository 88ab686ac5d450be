import Nox.Ofl.Lengths

/-!
# Packet-outs on the wire

`ofl_msg_pack_packet_out` calls `ofl_actions_pack` with the begin of the buffer as `data`, where the
other callers pass the begin of the action.  The value of a `set_field` and its padding go through
`data`: they are stored over the fields of the packet-out.
-/

namespace Nox.Ofl

open Oxm Stores

section Model

/-! ## Packing -/

/-- What a case of `ofl_actions_pack` stores through `dst`. -/
def OflAction.packHead : OflAction → List Store
  | .setField field _ =>
    [⟨2, beBytes 2 (8 + roundUp (oxmLength field) 8)⟩, ⟨4, beBytes 4 field.toNat⟩]
  | a => a.packBody.1

/-- What it stores through `data`. -/
def OflAction.packValue : OflAction → List Store
  | .setField field value =>
    setFieldValueStores field value ++
      [⟨8 + oxmLength field, zeros (roundUp (oxmLength field) 8 - oxmLength field)⟩]
  | _ => []

namespace AnyAction

def head (a : AnyAction) : List Store :=
  [⟨0, beBytes 2 a.typeNo⟩, ⟨4, zeros 4⟩] ++
    match a with
    | .known a _ => a.packHead
    | _ => []

def value : AnyAction → List Store
  | .known a _ => a.packValue
  | _ => []

/-- What `ofl_actions_pack` stores, with both its pointers. -/
def storesAt (a : AnyAction) (dst data : Int) : List Store := shift dst a.head ++ shift data a.value

/-- What it returns, with the memory as it is then: the length of a `set_field` is read again. -/
def returned (a : AnyAction) (mem : Int → UInt8) (dst : Int) : Int :=
  match a with
  | .known (.setField _ _) _ => (beNat [mem (dst + 2), mem (dst + 3)] : Nat)
  | _ => a.pack.2

end AnyAction

/-- `ofl_msg_packet_out` -/
structure OflPacketOut where
  bufferId : Nat
  inPort : Nat
  actions : List AnyAction
  data : Bytes

namespace OflPacketOut

/-- The loop over the actions, with `*buf` as `data`: what is stored for each, and where `ptr` is
then. -/
def actionsLoop (mem : Int → UInt8) (ptr : Int) : List AnyAction → List (List Store) × Int
  | [] => ([], ptr)
  | a :: as =>
    let mem := run (a.storesAt ptr 0) mem
    let (parts, stop) := actionsLoop mem (ptr + a.returned mem ptr) as
    (a.storesAt ptr 0 :: parts, stop)

def actLen (m : OflPacketOut) : Int := actionsTotalLen m.actions

def bufLen (m : OflPacketOut) : Int := 24 + m.actLen + m.data.length

def fieldStores (m : OflPacketOut) : List Store :=
  [⟨8, beBytes 4 m.bufferId⟩, ⟨12, beBytes 4 m.inPort⟩, ⟨16, AnyInstruction.field 2 m.actLen⟩,
    ⟨18, zeros 6⟩]

def dataStores (m : OflPacketOut) (ptr : Int) : List Store :=
  if m.data.length > 0 then [⟨ptr, m.data⟩] else []

/-- What `ofl_msg_pack_packet_out` stores for each part, and the header. -/
def parts (m : OflPacketOut) (xid : Nat) (mem : Int → UInt8) : List (List Store) :=
  let (actions, ptr) := actionsLoop (run m.fieldStores mem) 24 m.actions
  m.fieldStores :: (actions ++ [m.dataStores ptr, headerStores 13 xid m.bufLen])

/-- `ofl_msg_pack_packet_out`, and the header. -/
def pack (m : OflPacketOut) (xid : Nat) (mem : Int → UInt8) : List Store :=
  (m.parts xid mem).flatten

/-- The bytes that are produced, in memory that held other bytes before. -/
def packed (m : OflPacketOut) (xid : Nat) (mem : Int → UInt8) : Bytes :=
  window (run (m.pack xid mem) mem) 0 m.bufLen.toNat

end OflPacketOut

end Model

section Meaning

/-! ## What is to be produced -/

/-- What `ofl_actions_pack` leaves of an action that is at `ptr`, with `data` where the action is. -/
def AnyAction.bytes (a : AnyAction) (mem : Int → UInt8) (ptr : Int) : Bytes :=
  window (run (shift ptr a.pack.1) mem) ptr a.measure.size

/-- One action behind the other. -/
def actionBytes (mem : Int → UInt8) : Int → List AnyAction → Bytes
  | _, [] => []
  | ptr, a :: as => a.bytes mem ptr ++ actionBytes mem (ptr + a.measure.size) as

def actionsSize (actions : List AnyAction) : Nat := (actionsMeasure actions).size

namespace OflPacketOut

def size (m : OflPacketOut) : Nat := 24 + actionsSize m.actions + m.data.length

/-- The fields of the header, and those of the packet-out. -/
def wireHead (m : OflPacketOut) (xid : Nat) : Bytes :=
  [beBytes 1 4, beBytes 1 13, beBytes 2 m.size, beBytes 4 xid].flatten ++
    [beBytes 4 m.bufferId, beBytes 4 m.inPort, beBytes 2 (actionsSize m.actions), zeros 6].flatten

/-- The packet-out: what is before the actions, the actions, the data. -/
def wire (m : OflPacketOut) (xid : Nat) (mem : Int → UInt8) : Bytes :=
  m.wireHead xid ++ (actionBytes mem 24 m.actions ++ m.data)

/-- The packet-out is written into its buffer as it is to be, its header tells its length, and no
part of it is stored where another is. -/
structure Encodes (m : OflPacketOut) (xid : Nat) : Prop where
  within : ∀ mem, ∀ s ∈ m.pack xid mem, ∀ i, s.Hits i → 0 ≤ i ∧ i < m.bufLen
  told : beNat (beBytes 2 m.size) = m.size
  packed : ∀ mem, m.packed xid mem = m.wire xid mem
  apart : ∀ mem, (m.parts xid mem).Pairwise Apart

end OflPacketOut

/-- The action is a `set_field` with a value or with padding. -/
def AnyAction.Writes : AnyAction → Prop
  | .known (.setField field _) _ => oxmLength field ∈ setFieldSizes ∨ ¬8 ∣ oxmLength field
  | _ => False

/-- Its type has a case, and no value of a `set_field` is stored. -/
def AnyAction.Plain (a : AnyAction) : Prop :=
  match a with
  | .known _ _ => ¬a.Writes
  | _ => False

end Meaning

section Hits

/-! ## What the stores of an action hit -/

variable {a : AnyAction} {s : Store} {i dst : Int} {mem mem' : Int → UInt8}

theorem AnyAction.pack_eq (a : AnyAction) : a.pack.1 = a.head ++ a.value := by
  cases a with
  | known a readable =>
    cases a with
    | untyped => exact readable.elim
    | setField field value => rfl
    | _ => exact (List.append_nil _).symm
  | experimenter => rfl
  | other => rfl

/-- An action has a header of eight bytes, but for those whose type has no case. -/
theorem AnyAction.eight_le_size {known : OflAction} {readable : known.Readable} :
    8 ≤ (AnyAction.known known readable).measure.size := by
  cases known with
  | untyped => exact readable.elim
  | setField field value => exact Nat.le_add_right 8 _
  | output => exact (by decide : 8 ≤ 16)
  | header | setMplsTtl | push | popMpls | setQueue | group | setNwTtl => exact Nat.le_refl 8

theorem hits_iff {off : Int} {bytes : Bytes} :
    (⟨off, bytes⟩ : Store).Hits i ↔ off ≤ i ∧ i < off + bytes.length := Iff.rfl

/-- The type and the padding of the header. -/
theorem hits_header {type : Nat}
    (hs : s ∈ ([⟨0, beBytes 2 type⟩, ⟨4, zeros 4⟩] : List Store)) (hit : s.Hits i) :
    0 ≤ i ∧ i < 8 := by
  simp only [List.mem_cons, List.not_mem_nil, or_false] at hs
  obtain rfl | rfl := hs
  all_goals
    simp only [hits_iff, beBytes_length, zeros, List.length_replicate] at hit
    omega

/-- Through `dst` a `set_field` stores eight bytes. -/
theorem hits_setField {field : UInt32} {value : Bytes}
    {readable : (OflAction.setField field value).Readable}
    (hs : s ∈ (AnyAction.known (.setField field value) readable).head) (hit : s.Hits i) :
    0 ≤ i ∧ i < 8 := by
  obtain hs | hs := List.mem_append.mp hs
  · exact hits_header hs hit
  · simp only [OflAction.packHead, List.mem_cons, List.not_mem_nil, or_false] at hs
    obtain rfl | rfl := hs
    all_goals
      simp only [hits_iff, beBytes_length] at hit
      omega

/-- Through `dst` an action stores within its bytes, or within eight. -/
theorem AnyAction.head_hits (hs : s ∈ a.head) (hit : s.Hits i) :
    0 ≤ i ∧ i < max 8 (a.measure.size : Int) := by
  cases a with
  | known known readable =>
    have hfits (hsound : (AnyAction.known known readable).Sound) :
        0 ≤ i ∧ i < (AnyAction.known known readable).measure.size := by
      have hwithin := ((AnyAction.fits_iff _).mpr hsound).within s
        (AnyAction.pack_eq _ ▸ List.mem_append_left _ hs)
      simp only [AnyAction.ofpLen, AnyAction.measure] at hwithin ⊢
      unfold Store.Hits at hit
      omega
    cases known with
    | untyped => exact readable.elim
    | setField field value =>
      have hlt := hits_setField hs hit
      omega
    | _ =>
      have hlt := hfits trivial
      omega
  | experimenter | other =>
    have hlt := hits_header hs hit
    omega

theorem AnyAction.head_hits_of_writes (h : a.Writes) (hs : s ∈ a.head) (hit : s.Hits i) :
    0 ≤ i ∧ i < 8 := by
  cases a with
  | known known readable =>
    cases known with
    | setField field value => exact hits_setField hs hit
    | _ => exact h.elim
  | experimenter => exact h.elim
  | other => exact h.elim

/-- The type is stored first. -/
theorem AnyAction.head_first (a : AnyAction) : ∃ s ∈ a.head, s.Hits 0 := by
  refine ⟨⟨0, beBytes 2 a.typeNo⟩, List.mem_cons_self, ?_⟩
  rw [hits_iff, beBytes_length]
  decide

/-- Through `data` only the value of a `set_field` is stored, and its padding. -/
theorem AnyAction.value_hits (hs : s ∈ a.value) (hit : s.Hits i) :
    a.Writes ∧ 8 ≤ i ∧ i < a.measure.size := by
  cases a with
  | known known readable =>
    cases known with
    | setField field value =>
      obtain ⟨hle, hup, hmod⟩ := roundUp_eight (oxmLength field)
      simp only [AnyAction.measure, oflActionsOfpLen, Option.getD_some, AnyAction.Writes]
      obtain hs | hs := List.mem_append.mp hs
      · by_cases hmem : oxmLength field ∈ setFieldSizes
        · rw [setFieldValueStores_of_mem hmem, List.mem_singleton] at hs
          rw [hs, hits_iff, packSetFieldValue_length hmem readable] at hit
          exact ⟨.inl hmem, by omega⟩
        · rw [setFieldValueStores_of_not_mem hmem] at hs
          cases hs
      · rw [List.mem_singleton] at hs
        rw [hs, hits_iff, zeros, List.length_replicate] at hit
        exact ⟨.inr (by omega), by omega⟩
    | _ => cases hs
  | experimenter => cases hs
  | other => cases hs

/-- The last byte of a value with its padding is stored. -/
theorem AnyAction.value_last (h : a.Writes) : ∃ s ∈ a.value, s.Hits (a.measure.size - 1 : Int) := by
  cases a with
  | known known readable =>
    cases known with
    | setField field value =>
      obtain ⟨hle, hup, hmod⟩ := roundUp_eight (oxmLength field)
      simp only [AnyAction.measure, oflActionsOfpLen, Option.getD_some]
      by_cases hdvd : 8 ∣ oxmLength field
      · have hmem : oxmLength field ∈ setFieldSizes := h.resolve_right (not_not.mpr hdvd)
        have hpos : 0 < oxmLength field := by
          by_contra hzero
          have hzero : oxmLength field = 0 := by omega
          rw [hzero] at hmem
          exact absurd hmem (by decide)
        refine ⟨⟨8, packSetFieldValue field value []⟩, ?_, ?_⟩
        · exact List.mem_append_left _ (setFieldValueStores_of_mem hmem ▸ List.mem_cons_self)
        · rw [hits_iff, packSetFieldValue_length hmem readable]
          omega
      · refine ⟨_, List.mem_append_right _ List.mem_cons_self, ?_⟩
        rw [hits_iff, zeros, List.length_replicate]
        omega
    | _ => exact h.elim
  | experimenter => exact h.elim
  | other => exact h.elim

end Hits

section SetField

/-! ## What a `set_field` leaves -/

variable {field : UInt32} {value : Bytes} {readable : (OflAction.setField field value).Readable}
  {i dst : Int} {mem : Int → UInt8}

/-- The last byte of the header of a field. -/
def lengthByte (field : UInt32) : UInt8 := UInt8.ofNat field.toNat

theorem lengthByte_toNat (field : UInt32) : (lengthByte field).toNat = oxmLength field := by
  have hlength : oxmLength field = field.toNat &&& (2 ^ 8 - 1) := UInt32.toNat_and field 0xff
  rw [hlength, Nat.and_two_pow_sub_one_eq_mod]
  exact UInt8.toNat_ofNat'

/-- Behind the fields of the packet-out a value stores nothing, and padding stores zeros. -/
theorem run_value (hi : 24 ≤ i) :
    run (shift 0 (AnyAction.known (.setField field value) readable).value) mem i =
      if 8 + (oxmLength field : Int) ≤ i ∧ i < 8 + roundUp (oxmLength field) 8 then 0
      else mem i := by
  obtain ⟨hle, -, -⟩ := roundUp_eight (oxmLength field)
  rw [shift_zero]
  show run (setFieldValueStores field value ++ [_]) mem i = _
  rw [run_append]
  have hfirst : run (setFieldValueStores field value) mem i = mem i := by
    refine run_of_not_hit fun s hs => ?_
    by_cases hmem : oxmLength field ∈ setFieldSizes
    · rw [setFieldValueStores_of_mem hmem, List.mem_singleton] at hs
      rw [hs, hits_iff, packSetFieldValue_length hmem readable]
      have hsmall : oxmLength field ≤ 16 := by
        simp only [setFieldSizes, List.mem_cons, List.not_mem_nil, or_false] at hmem
        omega
      omega
    · rw [setFieldValueStores_of_not_mem hmem] at hs
      cases hs
  show (if _ then _ else _) = _
  rw [hfirst]
  split_ifs with hhit hpad hpad
  · show (List.replicate _ (0 : UInt8)).getD _ 0 = 0
    rw [List.getD_eq_getElem?_getD, List.getElem?_replicate]
    split <;> rfl
  · rw [hits_iff, zeros, List.length_replicate] at hhit
    omega
  · rw [hits_iff, zeros, List.length_replicate] at hhit
    omega
  · rfl

/-- The second byte of the type, the two of the length, the last one of the header of the field. -/
theorem run_head :
    run (shift dst (AnyAction.known (.setField field value) readable).head) mem (dst + 1) = 25 ∧
      run (shift dst (AnyAction.known (.setField field value) readable).head) mem (dst + 2) =
        UInt8.ofNat ((8 + roundUp (oxmLength field) 8) / 256) ∧
      run (shift dst (AnyAction.known (.setField field value) readable).head) mem (dst + 3) =
        UInt8.ofNat (8 + roundUp (oxmLength field) 8) ∧
      run (shift dst (AnyAction.known (.setField field value) readable).head) mem (dst + 7) =
        lengthByte field := by
  simp only [run_shift, add_sub_cancel_left]
  have hhead : (AnyAction.known (.setField field value) readable).head =
      [⟨0, beBytes 2 25⟩, ⟨4, zeros 4⟩, ⟨2, beBytes 2 (8 + roundUp (oxmLength field) 8)⟩,
        ⟨4, beBytes 4 field.toNat⟩] := rfl
  rw [hhead]
  simp only [run, List.foldl_cons, List.foldl_nil, Store.write, Store.Hits, Store.stop,
    beBytes_length, zeros, List.length_replicate]
  exact ⟨rfl, rfl, rfl, rfl⟩

/-- Where the padding goes. -/
def Padding (field : UInt32) (i : Int) : Prop :=
  8 + (oxmLength field : Int) ≤ i ∧ i < 8 + roundUp (oxmLength field) 8

instance (field : UInt32) (i : Int) : Decidable (Padding field i) :=
  inferInstanceAs (Decidable (_ ∧ _))

/-- A `set_field` behind the fields of the packet-out, as it is left. -/
theorem run_setField (hdst : 24 ≤ dst) :
    let mem' := run ((AnyAction.known (.setField field value) readable).storesAt dst 0) mem
    (mem' (dst + 1) = 25 ∨ mem' (dst + 1) = 0) ∧
      mem' (dst + 2) = (if Padding field (dst + 2) then 0
        else UInt8.ofNat ((8 + roundUp (oxmLength field) 8) / 256)) ∧
      mem' (dst + 3) = (if Padding field (dst + 3) then 0
        else UInt8.ofNat (8 + roundUp (oxmLength field) 8)) ∧
      mem' (dst + 7) = (if Padding field (dst + 7) then 0 else lengthByte field) := by
  intro mem'
  obtain ⟨h₁, h₂, h₃, h₇⟩ := @run_head field value readable dst mem
  have hmem (k : Int) (hk : 0 ≤ k) : mem' (dst + k) = if Padding field (dst + k) then 0 else
      run (shift dst (AnyAction.known (.setField field value) readable).head) mem (dst + k) := by
    show run (_ ++ _) mem (dst + k) = _
    rw [run_append, run_value (by omega)]
    rfl
  rw [hmem 1 (by decide), hmem 2 (by decide), hmem 3 (by decide), hmem 7 (by decide), h₁, h₂, h₃,
    h₇]
  refine ⟨?_, rfl, rfl, rfl⟩
  split
  · exact .inr rfl
  · exact .inl rfl

/-- What is returned for it is its size, if the padding has not come over the length, and never
more. -/
theorem returned_setField (hdst : 24 ≤ dst) (h8 : 8 ∣ dst) :
    let a := AnyAction.known (.setField field value) readable
    let r := a.returned (run (a.storesAt dst 0) mem) dst
    (0 ≤ r ∧ r ≤ a.measure.size ∧ 8 ∣ r) ∧ (r = a.measure.size ∨
      ¬8 ∣ oxmLength field ∧ dst = roundUp (oxmLength field) 8) := by
  intro a r
  obtain ⟨hle, hup, hmod⟩ := roundUp_eight (oxmLength field)
  have hlt := oxmLength_lt field
  obtain ⟨-, h₂, h₃, -⟩ := @run_setField field value readable dst mem hdst
  have hbe (x y : UInt8) : beNat [x, y] = x.toNat * 256 + y.toNat := by
    simp only [beNat, List.reverse_cons, List.reverse_nil, List.nil_append, List.cons_append,
      leNat]
    omega
  have hr : r = ((run (a.storesAt dst 0) mem (dst + 2)).toNat * 256 +
      (run (a.storesAt dst 0) mem (dst + 3)).toNat : Nat) := congrArg _ (hbe _ _)
  have hsize : a.measure.size = 8 + roundUp (oxmLength field) 8 := rfl
  rw [hr, h₂, h₃, hsize]
  obtain ⟨m, hm⟩ := h8
  have hhigh : (UInt8.ofNat ((8 + roundUp (oxmLength field) 8) / 256)).toNat =
      (8 + roundUp (oxmLength field) 8) / 256 % 256 := UInt8.toNat_ofNat'
  have hlow : (UInt8.ofNat (8 + roundUp (oxmLength field) 8)).toNat =
      (8 + roundUp (oxmLength field) 8) % 256 := UInt8.toNat_ofNat'
  by_cases hfirst : Padding field (dst + 2)
  · have hsecond : Padding field (dst + 3) := by
      unfold Padding at hfirst ⊢
      omega
    rw [if_pos hfirst, if_pos hsecond]
    unfold Padding at hfirst
    rw [UInt8.toNat_zero]
    exact ⟨by omega, .inr ⟨by omega, by omega⟩⟩
  · rw [if_neg hfirst, hhigh]
    by_cases hsecond : Padding field (dst + 3)
    · rw [if_pos hsecond]
      unfold Padding at hsecond
      rw [UInt8.toNat_zero]
      exact ⟨by omega, .inr ⟨by omega, by omega⟩⟩
    · rw [if_neg hsecond, hlow]
      exact ⟨by omega, .inl (by omega)⟩

end SetField

section Loop

/-! ## The loop -/

variable {a : AnyAction} {as bs : List AnyAction} {i p : Int} {mem mem' : Int → UInt8} {s : Store}

open OflPacketOut

/-- The action is a `set_field` whose padding goes over its own header. -/
def AnyAction.Overlaps (p : Int) : AnyAction → Prop
  | .known (.setField field _) _ => ¬8 ∣ oxmLength field ∧ p = roundUp (oxmLength field) 8
  | _ => False

theorem AnyAction.Overlaps.writes (h : a.Overlaps p) : a.Writes := by
  cases a with
  | known known readable =>
    cases known with
    | setField field value => exact .inr h.1
    | _ => exact h.elim
  | experimenter => exact h.elim
  | other => exact h.elim

/-- The pointer goes on by the size of the action, or by less where its padding goes over its
header. -/
theorem returned_cases (a : AnyAction) (mem : Int → UInt8) (hp : 24 ≤ p) (h8 : 8 ∣ p) :
    let r := a.returned (run (a.storesAt p 0) mem) p
    (0 ≤ r ∧ r ≤ a.measure.size ∧ 8 ∣ r) ∧ (r = a.measure.size ∨ a.Overlaps p) := by
  have hsize (h : a.returned (run (a.storesAt p 0) mem) p = a.pack.2) :
      let r := a.returned (run (a.storesAt p 0) mem) p
      (0 ≤ r ∧ r ≤ a.measure.size ∧ 8 ∣ r) ∧ (r = a.measure.size ∨ a.Overlaps p) := by
    have hmod := a.measure_size_mod
    rw [a.pack_returns] at h
    exact ⟨by omega, .inl h⟩
  cases a with
  | known known readable =>
    cases known with
    | setField field value => exact returned_setField hp h8
    | _ => exact hsize rfl
  | experimenter => exact hsize rfl
  | other => exact hsize rfl

theorem actionsLoop_cons (mem : Int → UInt8) (p : Int) (a : AnyAction) (as : List AnyAction) :
    actionsLoop mem p (a :: as) =
      (a.storesAt p 0 :: (actionsLoop (run (a.storesAt p 0) mem)
        (p + a.returned (run (a.storesAt p 0) mem) p) as).1,
      (actionsLoop (run (a.storesAt p 0) mem)
        (p + a.returned (run (a.storesAt p 0) mem) p) as).2) := rfl

/-- The loop over the actions that are left goes on where the one before stopped. -/
theorem actionsLoop_append (mem : Int → UInt8) (p : Int) (as bs : List AnyAction) :
    let first := actionsLoop mem p as
    let second := actionsLoop (run first.1.flatten mem) first.2 bs
    actionsLoop mem p (as ++ bs) = (first.1 ++ second.1, second.2) := by
  induction as generalizing mem p with
  | nil => rfl
  | cons a as ih =>
    dsimp only at ih ⊢
    rw [List.cons_append, actionsLoop_cons, ih, actionsLoop_cons]
    simp only [List.flatten_cons, run_append, List.cons_append]

theorem actionsSize_cons (a : AnyAction) (as : List AnyAction) :
    actionsSize (a :: as) = a.measure.size + actionsSize as := by
  simp only [actionsSize, actionsMeasure, Measure.total, List.map_cons, List.sum_cons]

theorem actionsSize_append (as bs : List AnyAction) :
    actionsSize (as ++ bs) = actionsSize as + actionsSize bs := by
  simp only [actionsSize, actionsMeasure, Measure.total, List.map_append, List.sum_append]

theorem actionsSize_mod (as : List AnyAction) : 8 ∣ actionsSize as := by
  induction as with
  | nil => exact dvd_zero 8
  | cons a as ih =>
    have hmod := a.measure_size_mod
    rw [actionsSize_cons]
    omega

theorem actionBytes_length (mem : Int → UInt8) (p : Int) (as : List AnyAction) :
    (actionBytes mem p as).length = actionsSize as := by
  induction as generalizing p with
  | nil => rfl
  | cons a as ih =>
    rw [actionBytes, List.length_append, ih, actionsSize_cons, AnyAction.bytes, window_length]

theorem actionBytes_append (mem : Int → UInt8) (p : Int) (as bs : List AnyAction) :
    actionBytes mem p (as ++ bs) =
      actionBytes mem p as ++ actionBytes mem (p + actionsSize as) bs := by
  induction as generalizing p with
  | nil => exact congrArg (actionBytes mem · bs) (Int.add_zero p).symm
  | cons a as ih =>
    rw [List.cons_append, actionBytes, actionBytes, ih, List.append_assoc, actionsSize_cons,
      Nat.cast_add, Int.add_assoc]

/-- The pointer ends no further than behind all actions. -/
theorem actionsLoop_stop (as : List AnyAction) (mem : Int → UInt8) (hp : 24 ≤ p)
    (h8 : 8 ∣ p) :
    p ≤ (actionsLoop mem p as).2 ∧ (actionsLoop mem p as).2 ≤ p + actionsSize as ∧
      8 ∣ (actionsLoop mem p as).2 := by
  induction as generalizing mem p with
  | nil => exact ⟨Int.le_refl _, Int.le_add_of_nonneg_right (Int.natCast_nonneg _), h8⟩
  | cons a as ih =>
    obtain ⟨⟨hnonneg, hle, hdvd⟩, -⟩ := returned_cases a mem hp h8
    rw [actionsLoop_cons, actionsSize_cons]
    obtain ⟨hlow, hup, hmod⟩ := ih (run (a.storesAt p 0) mem)
      (p := p + a.returned (run (a.storesAt p 0) mem) p) (by omega) (by omega)
    exact ⟨by omega, by omega, hmod⟩

/-- What is stored through `dst` is behind the pointer, and what is stored through `data` is near
the begin of the buffer. -/
theorem actionsLoop_hits (as : List AnyAction) (mem : Int → UInt8) (hp : 24 ≤ p) (h8 : 8 ∣ p)
    (hs : s ∈ (actionsLoop mem p as).1.flatten) (hit : s.Hits i) :
    (p ≤ i ∧ i < (actionsLoop mem p as).2 + 8) ∨ ∃ a ∈ as, a.Writes ∧ i < a.measure.size := by
  induction as generalizing mem p with
  | nil => cases hs
  | cons a as ih =>
    obtain ⟨⟨hnonneg, hle, hdvd⟩, hr⟩ := returned_cases a mem hp h8
    obtain ⟨hlow, -⟩ := actionsLoop_stop as (run (a.storesAt p 0) mem)
      (p := p + a.returned (run (a.storesAt p 0) mem) p) (by omega) (by omega)
    rw [actionsLoop_cons] at hs ⊢
    rw [List.flatten_cons] at hs
    dsimp only at hs ⊢
    obtain hs | hs := List.mem_append.mp hs
    · obtain hs | hs := List.mem_append.mp hs
      · obtain ⟨s', hs', rfl⟩ := mem_shift hs
        have hhit := Store.shift_hits.mp hit
        have hhead := a.head_hits hs' hhit
        refine .inl ⟨by omega, ?_⟩
        obtain hr | hover := hr
        · omega
        · have hlt := a.head_hits_of_writes hover.writes hs' hhit
          omega
      · rw [shift_zero] at hs
        obtain ⟨hwrites, -, hlt⟩ := a.value_hits hs hit
        exact .inr ⟨a, List.mem_cons_self, hwrites, hlt⟩
    · obtain ⟨hge, hlt⟩ | ⟨b, hb, hwrites, hlt⟩ := ih (run (a.storesAt p 0) mem) (by omega)
        (by omega) hs
      · exact .inl ⟨by omega, hlt⟩
      · exact .inr ⟨b, List.mem_cons_of_mem a hb, hwrites, hlt⟩

end Loop

section Encoded

/-! ## What an encoded packet-out cannot have -/

namespace OflPacketOut

variable {m : OflPacketOut} {xid : Nat} {a : AnyAction} {before after : List AnyAction}

/-- What is stored, up to an action, for it, and from there on. -/
theorem parts_split (xid : Nat) (hsplit : m.actions = before ++ a :: after)
    (mem : Int → UInt8) :
    let start := run m.fieldStores mem
    let first := actionsLoop start 24 before
    let at_ := run first.1.flatten start
    let then_ := run (a.storesAt first.2 0) at_
    let rest := actionsLoop then_ (first.2 + a.returned then_ first.2) after
    m.parts xid mem = (m.fieldStores :: first.1) ++ a.storesAt first.2 0 ::
      (rest.1 ++ [m.dataStores rest.2, headerStores 13 xid m.bufLen]) := by
  intro start first at_ then_ rest
  have hloop := actionsLoop_append start 24 before (a :: after)
  dsimp only at hloop
  unfold parts
  rw [hsplit, hloop, actionsLoop_cons]
  dsimp only
  rw [List.cons_append, List.append_assoc, List.cons_append]

theorem wireHead_length : (m.wireHead xid).length = 24 := by
  simp only [wireHead, zeros, List.length_append, List.flatten_cons, List.flatten_nil,
    List.length_nil, beBytes_length, List.length_replicate]

theorem fieldStores_hits {s : Store} {i : Int} (hs : s ∈ m.fieldStores) (hit : s.Hits i) :
    8 ≤ i ∧ i < 24 := by
  simp only [fieldStores, List.mem_cons, List.not_mem_nil, or_false] at hs
  obtain rfl | rfl | rfl | rfl := hs
  all_goals
    simp only [hits_iff, AnyInstruction.field, beBytes_length, zeros, List.length_replicate] at hit
    omega

theorem headerStores_hits {type : Nat} {len : Int} {s : Store} {i : Int}
    (hs : s ∈ headerStores type xid len) (hit : s.Hits i) : 0 ≤ i ∧ i < 8 := by
  simp only [headerStores, List.mem_cons, List.not_mem_nil, or_false] at hs
  obtain rfl | rfl | rfl | rfl := hs
  all_goals
    simp only [hits_iff, AnyInstruction.field, beBytes_length] at hit
    omega

theorem dataStores_hits {s : Store} {i ptr : Int} (hs : s ∈ m.dataStores ptr) (hit : s.Hits i) :
    ptr ≤ i ∧ i < ptr + m.data.length := by
  unfold dataStores at hs
  split at hs
  · rw [List.mem_singleton.mp hs] at hit
    exact hit
  · cases hs

namespace Encodes

/-- There is no experimenter, with one the buffer would be too short. -/
theorem experimenters_eq (h : m.Encodes xid) : (actionsMeasure m.actions).experimenters = 0 := by
  have hlength := congrArg List.length (h.packed fun _ => 0)
  simp only [OflPacketOut.packed, wire, window_length, List.length_append, wireHead_length,
    actionBytes_length] at hlength
  have hlen : m.bufLen =
      24 + (actionsSize m.actions - (actionsMeasure m.actions).experimenters) + m.data.length := by
    rw [bufLen, actLen, actionsTotalLen_eq, Measure.announced, actionsSize]
  omega

theorem bufLen_eq (h : m.Encodes xid) : m.bufLen = m.size := by
  have hnone := h.experimenters_eq
  rw [bufLen, actLen, actionsTotalLen_eq, Measure.announced, size, actionsSize]
  omega

/-- An action is left as `ofl_actions_pack` leaves it. -/
theorem window_action (h : m.Encodes xid) (hsplit : m.actions = before ++ a :: after)
    (mem : Int → UInt8) :
    window (run (m.pack xid mem) mem) (24 + actionsSize before) a.measure.size =
      a.bytes mem (24 + actionsSize before) := by
  have hpacked := h.packed mem
  have hsize : m.bufLen.toNat =
      24 + (actionsSize before + (a.measure.size + (actionsSize after + m.data.length))) := by
    rw [h.bufLen_eq, size, hsplit, actionsSize_append, actionsSize_cons]
    omega
  rw [OflPacketOut.packed, wire, hsplit, actionBytes_append, actionBytes, hsize, window_add,
    window_add, window_add, List.append_assoc, List.append_assoc] at hpacked
  have hbehind := (List.append_inj hpacked (by rw [window_length, wireHead_length])).2
  have hthere := (List.append_inj hbehind (by rw [window_length, actionBytes_length])).2
  exact (List.append_inj hthere (by rw [window_length, AnyAction.bytes, window_length])).1

/-- What is stored for an action stays. -/
theorem run_pack (h : m.Encodes xid) (hsplit : m.actions = before ++ a :: after)
    {mem : Int → UInt8} {q i : Int}
    (hq : (actionsLoop (run m.fieldStores mem) 24 before).2 = q)
    (hit : ∃ s ∈ a.storesAt q 0, s.Hits i) :
    ∃ mem', run (m.pack xid mem) mem i = run (a.storesAt q 0) mem' i := by
  have hparts := parts_split xid hsplit mem
  dsimp only at hparts
  have hapart := h.apart mem
  rw [pack, hparts, run_of_apart (hparts ▸ hapart) (hq.symm ▸ hit), hq]
  exact ⟨_, rfl⟩

/-- The padding of no `set_field` goes over its own header: the last byte of the header of the field
would be zero, and its length is not. -/
theorem not_overlaps (h : m.Encodes xid) (hsplit : m.actions = before ++ a :: after)
    {mem : Int → UInt8}
    (hq : (actionsLoop (run m.fieldStores mem) 24 before).2 = 24 + actionsSize before) :
    ¬a.Overlaps (24 + actionsSize before) := by
  intro hover
  have hlast := a.value_last hover.writes
  have hwindow := h.window_action hsplit mem
  generalize hplace : (24 + actionsSize before : Int) = q at hover hwindow hq
  have hbehind : 24 ≤ q := by omega
  cases a with
  | known known readable =>
    cases known with
    | setField field value =>
      obtain ⟨hpadded, hround⟩ := hover
      obtain ⟨hle, hup, hmod⟩ := roundUp_eight (oxmLength field)
      have hsize : (AnyAction.known (.setField field value) readable).measure.size =
          8 + roundUp (oxmLength field) 8 := rfl
      obtain ⟨s, hs, hit⟩ := hlast
      have hseven : s.Hits (q + 7) := by
        rw [hsize] at hit
        exact (by omega : q + 7 = ((8 + roundUp (oxmLength field) 8 : Nat) : Int) - 1) ▸ hit
      -- what is left, and what was to be left
      obtain ⟨mem', hleft⟩ := h.run_pack hsplit hq (i := q + 7)
        ⟨s, List.mem_append_right _ (shift_zero _ ▸ hs), hseven⟩
      have hzero := (@run_setField field value readable q mem' hbehind).2.2.2
      have hpad : Padding field (q + 7) := ⟨by omega, by omega⟩
      rw [if_pos hpad] at hzero
      have hbyte := window_inj hwindow (i := q + 7) (by omega) (by omega)
      rw [hleft, hzero, AnyAction.pack_eq, shift_append, run_append] at hbyte
      rw [run_of_not_hit fun s hs hit => ?_, (@run_head field value readable q mem).2.2.2] at hbyte
      · have hlength := lengthByte_toNat field
        rw [← hbyte, UInt8.toNat_zero] at hlength
        exact hpadded (hlength ▸ dvd_zero 8)
      · obtain ⟨s', hs', rfl⟩ := mem_shift hs
        have hge := (AnyAction.value_hits hs' (Store.shift_hits.mp hit)).2.1
        omega
    | _ => exact hover.elim
  | experimenter => exact hover.elim
  | other => exact hover.elim

/-- So the pointer is behind the actions that are packed. -/
theorem stop_eq (h : m.Encodes xid) (mem : Int → UInt8)
    (hsplit : m.actions = before ++ after) :
    (actionsLoop (run m.fieldStores mem) 24 before).2 = 24 + actionsSize before := by
  induction before using List.reverseRecOn generalizing after with
  | nil => rfl
  | append_singleton before a ih =>
    rw [List.append_assoc] at hsplit
    have hq := ih hsplit
    have hloop := actionsLoop_append (run m.fieldStores mem) 24 before [a]
    dsimp only at hloop
    rw [hloop, actionsLoop_cons, hq, actionsSize_append, actionsSize_cons]
    have hmod := actionsSize_mod before
    obtain ⟨-, hsize | hover⟩ := returned_cases a
      (run (actionsLoop (run m.fieldStores mem) 24 before).1.flatten (run m.fieldStores mem))
      (p := 24 + actionsSize before) (by omega) (by omega)
    · show 24 + (actionsSize before : Int) + _ = _
      rw [hsize, Nat.cast_add, Nat.cast_add, Int.add_assoc]
      rfl
    · exact absurd hover (h.not_overlaps hsplit hq)

/-- The action returns its size. -/
theorem returned_eq (h : m.Encodes xid) (hsplit : m.actions = before ++ a :: after)
    (mem mem' : Int → UInt8) :
    let q : Int := 24 + actionsSize before
    a.returned (run (a.storesAt q 0) mem') q = a.measure.size := by
  have hmod := actionsSize_mod before
  obtain ⟨-, hsize | hover⟩ := returned_cases a mem' (p := 24 + actionsSize before) (by omega)
    (by omega)
  · exact hsize
  · exact absurd hover (h.not_overlaps hsplit (h.stop_eq mem hsplit))

/-- What is stored for an action whose type has no case is where the next part is, or behind the
buffer. -/
theorem size_pos (h : m.Encodes xid) (hsplit : m.actions = before ++ a :: after) :
    0 < a.measure.size := by
  by_contra hzero
  have hzero : a.measure.size = 0 := Nat.eq_zero_of_not_pos hzero
  have hparts := parts_split xid hsplit fun _ => 0
  dsimp only at hparts
  rw [h.stop_eq _ hsplit, h.returned_eq hsplit fun _ => 0, hzero, Nat.cast_zero, Int.add_zero]
    at hparts
  generalize hplace : (24 + actionsSize before : Int) = q at hparts
  have hfirst (b : AnyAction) : ∃ s ∈ b.storesAt q 0, s.Hits q := by
    obtain ⟨s, hs, hit⟩ := b.head_first
    exact ⟨s.shift q, List.mem_append_left _ (shift_mem hs),
      Store.shift_hits.mpr ((Int.sub_self q).symm ▸ hit)⟩
  obtain ⟨s, hs, hit⟩ := hfirst a
  have hapart := hparts ▸ h.apart fun _ => 0
  have hbehind := (List.pairwise_cons.mp (List.pairwise_append.mp hapart).2.1).1
  cases after with
  | cons b after =>
    obtain ⟨t, ht, hit'⟩ := hfirst b
    exact hbehind _ List.mem_cons_self s hs t ht q hit hit'
  | nil =>
    have hin : s ∈ m.pack xid fun _ => 0 := by
      rw [pack, hparts]
      exact List.mem_flatten.mpr ⟨_, List.mem_append_right _ List.mem_cons_self, hs⟩
    have hlt := (h.within _ s hin q hit).2
    rw [h.bufLen_eq, size, hsplit, actionsSize_append, actionsSize_cons, hzero] at hlt
    have hnone : actionsSize [] = 0 := rfl
    have hdata : m.data.length > 0 := by omega
    refine hbehind (m.dataStores q) List.mem_cons_self s hs ⟨q, m.data⟩ ?_ q hit ?_
    · rw [dataStores, if_pos hdata]
      exact List.mem_cons_self
    · rw [hits_iff]
      omega

/-- The last byte of the greatest action with a value or padding is not stored. -/
theorem last_missed (h : m.Encodes xid) (hsplit : m.actions = before ++ a :: after)
    (hwrites : a.Writes)
    (hmax : ∀ b ∈ m.actions, b.Writes → b.measure.size ≤ a.measure.size)
    {mem : Int → UInt8} {s : Store} (hs : s ∈ m.pack xid mem) :
    ¬s.Hits (24 + actionsSize before + a.measure.size - 1) := by
  intro hit
  obtain ⟨t, ht, htlast⟩ := a.value_last hwrites
  have hsize := (a.value_hits ht htlast).2.1
  have hmod := actionsSize_mod before
  have hmod' := a.measure_size_mod
  have hstop := h.stop_eq mem hsplit
  have hparts := parts_split xid hsplit mem
  dsimp only at hparts
  rw [hstop, h.returned_eq hsplit mem] at hparts
  rw [pack, hparts] at hs
  obtain ⟨part, hpart, hs⟩ := List.mem_flatten.mp hs
  obtain hpart | hpart := List.mem_append.mp hpart
  · obtain rfl | hpart := List.mem_cons.mp hpart
    · have hlt := (fieldStores_hits hs hit).2
      omega
    -- the actions before it
    · obtain ⟨-, hlt⟩ | ⟨b, hb, hw, hlt⟩ := actionsLoop_hits before _ (Int.le_refl 24)
        (by decide) (List.mem_flatten.mpr ⟨part, hpart, hs⟩) hit
      · omega
      · have hle := hmax b (hsplit ▸ List.mem_append_left _ hb) hw
        omega
  · obtain rfl | hpart := List.mem_cons.mp hpart
    -- the action itself
    · obtain hs | hs := List.mem_append.mp hs
      · obtain ⟨s', hs', rfl⟩ := mem_shift hs
        have hlt := (a.head_hits_of_writes hwrites hs' (Store.shift_hits.mp hit)).2
        omega
      · have hlt := (a.value_hits (shift_zero a.value ▸ hs) hit).2.2
        omega
    · obtain hpart | hpart := List.mem_append.mp hpart
      -- the actions behind it
      · obtain ⟨hge, -⟩ | ⟨b, hb, hw, hlt⟩ := actionsLoop_hits after _ (by omega)
          (by omega) (List.mem_flatten.mpr ⟨part, hpart, hs⟩) hit
        · omega
        · have hle := hmax b (hsplit ▸ List.mem_append_right _ (List.mem_cons_of_mem a hb)) hw
          omega
      · obtain rfl | hpart := List.mem_cons.mp hpart
        · have hge := (dataStores_hits hs hit).1
          have hle := (actionsLoop_stop after (run (a.storesAt (24 + actionsSize before) 0)
            (run (actionsLoop (run m.fieldStores mem) 24 before).1.flatten
              (run m.fieldStores mem)))
            (p := 24 + actionsSize before + a.measure.size) (by omega) (by omega)).1
          omega
        · rw [List.mem_singleton.mp hpart] at hs
          have hlt := (headerStores_hits hs hit).2
          omega

/-- It was to be, so there is no such action. -/
theorem not_writes (h : m.Encodes xid) (hsplit : m.actions = before ++ a :: after)
    (hmax : ∀ b ∈ m.actions, b.Writes → b.measure.size ≤ a.measure.size) : ¬a.Writes := by
  intro hwrites
  obtain ⟨s, hs, hit⟩ := a.value_last hwrites
  have hsize := (a.value_hits hs hit).2.1
  have hsame (mem : Int → UInt8) : mem (24 + actionsSize before + a.measure.size - 1) =
      run (shift (24 + actionsSize before) a.pack.1) mem
        (24 + actionsSize before + a.measure.size - 1) := by
    have hmiss : run (m.pack xid mem) mem (24 + actionsSize before + a.measure.size - 1) = _ :=
      run_of_not_hit fun s hs => h.last_missed hsplit hwrites hmax hs
    exact hmiss.symm.trans (window_inj (h.window_action hsplit mem) (by omega) (by omega))
  have hconst : run (shift (24 + actionsSize before) a.pack.1) (fun _ => 0)
      (24 + actionsSize before + a.measure.size - 1) =
        run (shift (24 + actionsSize before) a.pack.1) (fun _ => 1)
          (24 + actionsSize before + a.measure.size - 1) := run_of_hit ?_
  · rw [← hsame, ← hsame] at hconst
    exact absurd hconst (by decide)
  · have hin : s ∈ a.pack.1 := a.pack_eq ▸ List.mem_append_right _ hs
    refine ⟨_, shift_mem hin, Store.shift_hits.mpr ?_⟩
    have hplace : (24 + actionsSize before + a.measure.size - 1 - (24 + actionsSize before) : Int) =
        a.measure.size - 1 := by omega
    exact hplace ▸ hit

theorem silent (h : m.Encodes xid) (ha : a ∈ m.actions) : ¬a.Writes := by
  -- from the greatest down
  induction hn : m.size - a.measure.size using Nat.strong_induction_on generalizing a with
  | _ n ih =>
    intro hwrites
    obtain ⟨before, after, hsplit⟩ := List.append_of_mem ha
    refine h.not_writes hsplit (fun b hb hw => ?_) hwrites
    by_contra hgreater
    have hle : b.measure.size ≤ m.size := by
      obtain ⟨before, after, hsplit⟩ := List.append_of_mem hb
      rw [size, hsplit, actionsSize_append, actionsSize_cons]
      omega
    exact ih _ (by omega) hb rfl hw

theorem plain (h : m.Encodes xid) (ha : a ∈ m.actions) : a.Plain := by
  obtain ⟨before, after, hsplit⟩ := List.append_of_mem ha
  have hpos := h.size_pos hsplit
  cases a with
  | known known readable => exact h.silent ha
  | experimenter => exact absurd hpos (Nat.lt_irrefl 0)
  | other => exact absurd hpos (Nat.lt_irrefl 0)

theorem size_lt (h : m.Encodes xid) : m.size < 2 ^ 16 := by
  have hlt := leNat_lt (beBytes 2 m.size).reverse
  rw [List.length_reverse, beBytes_length] at hlt
  exact h.told ▸ hlt

end Encodes

end OflPacketOut

end Encoded

section Plain

/-! ## Without values -/

variable {a : AnyAction} {as : List AnyAction} {i p : Int} {mem mem' : Int → UInt8} {s : Store}

open OflPacketOut

namespace AnyAction

theorem Plain.silent (h : a.Plain) : ¬a.Writes := by
  cases a with
  | known => exact h
  | experimenter => exact h.elim
  | other => exact h.elim

theorem Plain.eight_le (h : a.Plain) : 8 ≤ a.measure.size := by
  cases a with
  | known => exact eight_le_size
  | experimenter => exact h.elim
  | other => exact h.elim

/-- All is stored where the action is. -/
theorem Plain.hits (h : a.Plain) (hs : s ∈ a.storesAt p 0) (hit : s.Hits i) :
    p ≤ i ∧ i < p + a.measure.size := by
  have hsize := h.eight_le
  obtain hs | hs := List.mem_append.mp hs
  · obtain ⟨s', hs', rfl⟩ := mem_shift hs
    have hlt := a.head_hits hs' (Store.shift_hits.mp hit)
    omega
  · exact absurd (a.value_hits (shift_zero a.value ▸ hs) hit).1 h.silent

theorem Plain.returned_eq (h : a.Plain) (mem : Int → UInt8) (hp : 24 ≤ p) (h8 : 8 ∣ p) :
    a.returned (run (a.storesAt p 0) mem) p = a.measure.size := by
  obtain ⟨-, hsize | hover⟩ := returned_cases a mem hp h8
  · exact hsize
  · exact absurd hover.writes h.silent

/-- It is the same through either pointer. -/
theorem Plain.window_eq (h : a.Plain)
    (hmem : ∀ i, p ≤ i → mem i = mem' i) :
    window (run (a.storesAt p 0) mem) p a.measure.size = a.bytes mem' p := by
  have hvalue (d : Int) (mem : Int → UInt8) (i : Int) : run (shift d a.value) mem i = mem i := by
    refine run_of_not_hit fun s hs hit => ?_
    obtain ⟨s', hs', rfl⟩ := mem_shift hs
    exact h.silent (a.value_hits hs' (Store.shift_hits.mp hit)).1
  refine window_congr fun i hle hlt => ?_
  rw [storesAt, a.pack_eq, shift_append, run_append, run_append, hvalue, hvalue]
  exact run_congr (hmem i hle)

end AnyAction

/-- The loop over such actions: the pointer is behind them then, each is where the one before it
ends. -/
theorem plain_loop (h : ∀ a ∈ as, a.Plain) (mem : Int → UInt8) (hp : 24 ≤ p) (h8 : 8 ∣ p) :
    (actionsLoop mem p as).2 = p + actionsSize as ∧
      (∀ ss ∈ (actionsLoop mem p as).1, ∀ s ∈ ss, ∀ i, s.Hits i → p ≤ i ∧ i < p + actionsSize as) ∧
      (actionsLoop mem p as).1.Pairwise Apart := by
  induction as generalizing mem p with
  | nil => exact ⟨(Int.add_zero p).symm, fun _ hss => (nomatch hss), List.Pairwise.nil⟩
  | cons a as ih =>
    rw [List.forall_mem_cons] at h
    have hmod := a.measure_size_mod
    obtain ⟨hstop, hhits, hapart⟩ := ih h.2 (run (a.storesAt p 0) mem) (p := p + a.measure.size)
      (by omega) (by omega)
    rw [actionsLoop_cons, h.1.returned_eq mem hp h8, hstop, actionsSize_cons]
    refine ⟨by omega, fun ss hss s hs i hit => ?_, List.pairwise_cons.mpr ⟨fun ss hss => ?_, hapart⟩⟩
    · obtain rfl | hss := List.mem_cons.mp hss
      · have hlt := h.1.hits hs hit
        omega
      · have hlt := hhits ss hss s hs i hit
        omega
    · exact Apart.of_le (fun s hs i hit => (h.1.hits hs hit).2)
        fun t ht i hit => (hhits ss hss t ht i hit).1

/-- What the loop leaves is one action behind the other. -/
theorem plain_bytes (h : ∀ a ∈ as, a.Plain) (hp : 24 ≤ p) (h8 : 8 ∣ p)
    (hmem : ∀ i, p ≤ i → mem i = mem' i) :
    window (run (actionsLoop mem p as).1.flatten mem) p (actionsSize as) =
      actionBytes mem' p as := by
  induction as generalizing mem p with
  | nil => rfl
  | cons a as ih =>
    rw [List.forall_mem_cons] at h
    have hmod := a.measure_size_mod
    have hnext := (plain_loop h.2 (run (a.storesAt p 0) mem) (p := p + a.measure.size)
      (by omega) (by omega)).2.1
    rw [actionsLoop_cons, h.1.returned_eq mem hp h8, actionsSize_cons, window_add, actionBytes,
      List.flatten_cons, run_append]
    have hfirst : window (run (actionsLoop (run (a.storesAt p 0) mem) (p + a.measure.size)
        as).1.flatten (run (a.storesAt p 0) mem)) p a.measure.size = a.bytes mem' p := by
      refine Eq.trans (window_congr fun i hle hlt => ?_) (h.1.window_eq hmem)
      refine run_of_not_hit fun s hs hit => ?_
      obtain ⟨ss, hss, hs⟩ := List.mem_flatten.mp hs
      have hge := (hnext ss hss s hs i hit).1
      omega
    rw [hfirst]
    refine congrArg _ (ih h.2 (by omega) (by omega) fun i hle => ?_)
    refine (run_of_not_hit fun s hs hit => ?_).trans (hmem i (by omega))
    have hlt := (h.1.hits hs hit).2
    omega

theorem plain_experimenters (h : ∀ a ∈ as, a.Plain) : (actionsMeasure as).experimenters = 0 := by
  simp only [actionsMeasure, Measure.total, List.map_map, List.sum_eq_zero_iff, List.mem_map,
    Function.comp_apply, forall_exists_index, and_imp]
  rintro n a ha rfl
  cases a with
  | known => rfl
  | experimenter => exact (h _ ha).elim
  | other => rfl

namespace OflPacketOut

variable {m : OflPacketOut} {xid : Nat}

theorem plain_parts (h : ∀ a ∈ m.actions, a.Plain) (mem : Int → UInt8) :
    m.parts xid mem = m.fieldStores :: ((actionsLoop (run m.fieldStores mem) 24 m.actions).1 ++
      [m.dataStores (24 + actionsSize m.actions), headerStores 13 xid m.bufLen]) := by
  rw [← (plain_loop h (run m.fieldStores mem) (Int.le_refl 24) (by decide)).1]
  rfl

theorem plain_actLen (h : ∀ a ∈ m.actions, a.Plain) : m.actLen = actionsSize m.actions := by
  have hnone := plain_experimenters h
  rw [actLen, actionsTotalLen_eq, Measure.announced, actionsSize]
  omega

theorem plain_bufLen (h : ∀ a ∈ m.actions, a.Plain) : m.bufLen = m.size := by
  rw [bufLen, plain_actLen h, size]
  omega

/-- No part is stored where another is. -/
theorem plain_apart (h : ∀ a ∈ m.actions, a.Plain) (mem : Int → UInt8) :
    (m.parts xid mem).Pairwise Apart := by
  obtain ⟨-, hhits, hapart⟩ := plain_loop h (run m.fieldStores mem) (Int.le_refl 24) (by decide)
  have hbefore {ss : List Store} (hss : ∀ s ∈ ss, ∀ i, s.Hits i → 8 ≤ i) :
      Apart ss (headerStores 13 xid m.bufLen) := fun s hs t ht i hit hit' => by
    have hge := hss s hs i hit
    have hlt := (headerStores_hits ht hit').2
    omega
  have hfields (s : Store) (hs : s ∈ m.fieldStores) (i : Int) (hit : s.Hits i) :
      8 ≤ i ∧ i < 24 := fieldStores_hits hs hit
  have hdata (s : Store) (hs : s ∈ m.dataStores (24 + actionsSize m.actions)) (i : Int)
      (hit : s.Hits i) : 24 + (actionsSize m.actions : Int) ≤ i := (dataStores_hits hs hit).1
  rw [plain_parts h]
  refine List.pairwise_cons.mpr ⟨fun ss hss => ?_, List.pairwise_append.mpr ⟨hapart, ?_, ?_⟩⟩
  · obtain hss | hss := List.mem_append.mp hss
    · exact Apart.of_le (fun s hs i hit => (hfields s hs i hit).2)
        fun t ht i hit => (hhits ss hss t ht i hit).1
    · obtain rfl | hss := List.mem_cons.mp hss
      · refine Apart.of_le (fun s hs i hit => (hfields s hs i hit).2) fun t ht i hit => ?_
        have hge := hdata t ht i hit
        omega
      · exact List.mem_singleton.mp hss ▸ hbefore fun s hs i hit => (hfields s hs i hit).1
  · refine List.pairwise_pair.mpr (hbefore fun s hs i hit => ?_)
    have hge := hdata s hs i hit
    omega
  · intro ss hss ts hts
    obtain rfl | hts := List.mem_cons.mp hts
    · exact Apart.of_le (fun s hs i hit => (hhits ss hss s hs i hit).2) hdata
    · refine List.mem_singleton.mp hts ▸ hbefore fun s hs i hit => ?_
      have hge := (hhits ss hss s hs i hit).1
      omega

theorem plain_within (h : ∀ a ∈ m.actions, a.Plain) {mem : Int → UInt8} (hs : s ∈ m.pack xid mem)
    (hit : s.Hits i) : 0 ≤ i ∧ i < m.bufLen := by
  have hhits := (plain_loop h (run m.fieldStores mem) (Int.le_refl 24) (by decide)).2.1
  rw [plain_bufLen h, size]
  rw [pack, plain_parts h] at hs
  obtain ⟨part, hpart, hs⟩ := List.mem_flatten.mp hs
  obtain rfl | hpart := List.mem_cons.mp hpart
  · have hlt := fieldStores_hits hs hit
    omega
  · obtain hpart | hpart := List.mem_append.mp hpart
    · have hlt := hhits part hpart s hs i hit
      omega
    · obtain rfl | hpart := List.mem_cons.mp hpart
      · have hlt := dataStores_hits hs hit
        omega
      · rw [List.mem_singleton.mp hpart] at hs
        have hlt := headerStores_hits hs hit
        omega

theorem fieldStores_eq (m : OflPacketOut) : m.fieldStores =
    row 8 [beBytes 4 m.bufferId, beBytes 4 m.inPort, AnyInstruction.field 2 m.actLen, zeros 6] := by
  simp only [fieldStores, row, beBytes_length, AnyInstruction.field]
  rfl

/-- The packet-out is left in the buffer, from its header to its data. -/
theorem plain_packed (h : ∀ a ∈ m.actions, a.Plain) (hlt : m.size < 2 ^ 16)
    (mem : Int → UInt8) : m.packed xid mem = m.wire xid mem := by
  obtain ⟨-, hhits, -⟩ := plain_loop h (run m.fieldStores mem) (Int.le_refl 24) (by decide)
  have hsize : m.bufLen.toNat = 8 + (16 + (actionsSize m.actions + m.data.length)) := by
    rw [plain_bufLen h, size]
    omega
  let acts := (actionsLoop (run m.fieldStores mem) 24 m.actions).1
  have hacts {s : Store} (hs : s ∈ acts.flatten) {i : Int} (hit : s.Hits i) :
      24 ≤ i ∧ i < 24 + actionsSize m.actions := by
    obtain ⟨ss, hss, hs⟩ := List.mem_flatten.mp hs
    exact hhits ss hss s hs i hit
  -- the memory after each part
  have hrun : run (m.pack xid mem) mem = run (headerStores 13 xid m.bufLen)
      (run (m.dataStores (24 + actionsSize m.actions))
        (run acts.flatten (run m.fieldStores mem))) := by
    rw [pack, plain_parts h, List.flatten_cons, List.flatten_append, run_append, run_append,
      List.flatten_cons, List.flatten_cons, List.flatten_nil, List.append_nil, run_append]
  have hheader (mem : Int → UInt8) {i : Int} (hi : 8 ≤ i) :
      run (headerStores 13 xid m.bufLen) mem i = mem i :=
    run_of_not_hit fun s hs hit => by
      have hlt := headerStores_hits hs hit
      omega
  have hdata (mem : Int → UInt8) {i : Int} (hi : i < 24 + actionsSize m.actions) :
      run (m.dataStores (24 + actionsSize m.actions)) mem i = mem i :=
    run_of_not_hit fun s hs hit => by
      have hge := dataStores_hits hs hit
      omega
  rw [packed, wire, wireHead, hrun, hsize, window_add, window_add, window_add, List.append_assoc]
  refine congrArg₂ _ ?_ (congrArg₂ _ ?_ (congrArg₂ _ ?_ ?_))
  · have hlen : m.bufLen = (m.size : Int) := plain_bufLen h
    rw [headerStores_eq, hlen, field_of_lt hlt]
    exact window_row _ 0 [beBytes 1 4, beBytes 1 13, beBytes 2 m.size, beBytes 4 xid]
  · have hacts' : actionsSize m.actions < 2 ^ 16 := by
      unfold size at hlt
      omega
    refine Eq.trans (window_congr fun i hle hlt => ?_) (window_row mem 8 [beBytes 4 m.bufferId,
      beBytes 4 m.inPort, beBytes 2 (actionsSize m.actions), zeros 6])
    rw [hheader _ (by omega), hdata _ (by omega), run_of_not_hit fun s hs hit => ?_,
      fieldStores_eq, plain_actLen h, field_of_lt hacts']
    have hge := (hacts hs hit).1
    omega
  · have hbytes : window (run acts.flatten (run m.fieldStores mem)) 24 (actionsSize m.actions) =
        actionBytes mem 24 m.actions :=
      plain_bytes h (Int.le_refl 24) (by decide) fun i hi => run_of_not_hit fun s hs hit => ?_
    refine Eq.trans (window_congr fun i hle hlt => ?_) hbytes
    · exact (hheader _ (by omega)).trans (hdata _ (by omega))
    · have hlt := fieldStores_hits hs hit
      omega
  · by_cases hpos : m.data.length > 0
    · refine Eq.trans (window_congr fun i hle hlt => hheader _ (by omega)) ?_
      rw [dataStores, if_pos hpos]
      exact window_of_only rfl rfl
    · rw [List.eq_nil_of_length_eq_zero (Nat.eq_zero_of_not_pos hpos)]
      rfl

/-- A packet-out is encoded if no action has a value or padding that goes through `data`, and its
length can be told. -/
theorem packetOut_iff (m : OflPacketOut) (xid : Nat) :
    m.Encodes xid ↔ m.size < 2 ^ 16 ∧ ∀ a ∈ m.actions, a.Plain := by
  constructor
  · intro h
    exact ⟨h.size_lt, fun a ha => h.plain ha⟩
  · rintro ⟨hlt, hplain⟩
    exact ⟨fun _ _ hs _ hit => plain_within hplain hs hit, beNat_beBytes_of_lt hlt,
      plain_packed hplain hlt, plain_apart hplain⟩

/-- A packet-out that sets the Ethernet destination. -/
def settingEthDst : OflPacketOut where
  bufferId := 0xffffffff
  inPort := 1
  actions := [.known (.setField (oxmHeader 0x8000 3 6) [1, 2, 3, 4, 5, 6]) (by
    show oxmLength _ ≤ _
    decide)]
  data := []

/-- The destination goes over the buffer id and the port, and its place is left as it was. -/
theorem ethDst_over_bufferId :
    ((settingEthDst.packed 7 fun _ => 0xaa).drop 8).take 8 = [1, 2, 3, 4, 5, 6, 0, 0] ∧
      (settingEthDst.packed 7 fun _ => 0xaa).drop 32 = List.replicate 8 0xaa ∧
      ¬settingEthDst.Encodes 7 := by
  refine ⟨by decide, by decide, fun h => ?_⟩
  exact h.silent List.mem_cons_self (.inl (by decide))

end OflPacketOut

end Plain

end Nox.Ofl
