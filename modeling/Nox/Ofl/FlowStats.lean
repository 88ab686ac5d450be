import Nox.Lib.Outcome
import Nox.Ofl.ReplyBytes
import Nox.Ofl.Requests

/-!
# Requests for flow statistics

A multipart request of flows, or of their sum, ends with a match.  The buffer has room for the
length of the match behind a whole `ofp_match`, whose last four bytes are padding, but the fields
begin at the padding, and the last four bytes of the buffer are never stored.  So the request
comes back as it was sent only if these four pad the match to eight bytes, and held zeros before
(`transmits_iff`).
-/

namespace Nox.Ofl

open Oxm Stores

section Definitions

/-! ## Requests -/

/-- `ofl_msg_multipart_request_flow`, whose match has values of as many bytes as their headers
tell. -/
structure FlowStatsRequest where
  tableId : UInt8
  outPort : UInt32
  outGroup : UInt32
  cookie : UInt64
  cookieMask : UInt64
  oflMatch : OflMatch
  valued : ∀ e ∈ oflMatch.entries, e.value.length = oxmLength e.header

/-- `OFPMP_FLOW` and `OFPMP_AGGREGATE` -/
inductive FlowStatsType
  | flow
  | aggregate
  deriving DecidableEq, Repr

def FlowStatsType.no : FlowStatsType → Nat
  | flow => 1
  | aggregate => 2

namespace FlowStatsRequest

/-- The match as it is packed. -/
def anyMatch (q : FlowStatsRequest) : AnyMatch := ⟨q.oflMatch, fun e he => (q.valued e he).ge⟩

def request (q : FlowStatsRequest) (type : FlowStatsType) (flags : UInt16) : Request :=
  .multipart type.no flags (.flow q.tableId.toNat q.outPort.toNat q.outGroup.toNat
    q.cookie.toNat q.cookieMask.toNat q.anyMatch)

/-- The bytes that packing produces, in memory that held other bytes before. -/
def packed (q : FlowStatsRequest) (type : FlowStatsType) (flags : UInt16) (xid : Nat)
    (mem : Int → UInt8) : Bytes :=
  window (run ((q.request type flags).pack xid) mem) 0 (q.request type flags).bufLen.toNat

/-- The numbers, as they are unpacked. -/
def numbers (q : FlowStatsRequest) : List Nat :=
  [q.tableId.toNat, q.outPort.toNat, q.outGroup.toNat, q.cookie.toNat, q.cookieMask.toNat]

end FlowStatsRequest

/-- `ofl_msg_unpack_multipart_request_flow`: the numbers and the match, and what is left of the
length. -/
def oflMsgUnpackMultipartRequestFlow (os : Bytes) (len : Nat) :
    Unpack ((List Nat × Unpacked.Match) × Nat) := do
  reject (len < 32) Unpacked.badLen
  let numbers ← numbersAt os [(16, 1), (20, 4), (24, 4), (32, 8), (40, 8)]
  let (m, len) ← Unpacked.oflStructsMatchUnpack (os.drop 48) (os.drop 52) (len - 32)
  return ((numbers, m), len)

/-- A match that is unpacked, always one of OXM, is this one. -/
structure Unpacked.Match.Is (m : Unpacked.Match) (orig : OflMatch) : Prop where
  type : orig.type = ofpmtOxm
  length : m.length = orig.length
  entries : ((m.matchFields.map (·.entries)).getD []).Perm orig.entries

/-! ## What requests are for -/

/-- All entries of the match, encoded. -/
def FlowStatsRequest.fields (q : FlowStatsRequest) : Bytes := q.anyMatch.oxmFields

/-- The bytes are as many as the header tells, the match is in them with its padding, and they are
unpacked to the last one, to what they were made from. -/
structure FlowStatsRequest.Transmits (q : FlowStatsRequest) (type : FlowStatsType)
    (flags : UInt16) (xid : Nat) (mem : Int → UInt8) : Prop where
  inside : ∀ s ∈ (q.request type flags).pack xid,
    0 ≤ s.off ∧ s.stop ≤ (q.request type flags).bufLen
  announced : readNtoh (q.packed type flags xid mem) 2 2 =
    .ok (q.packed type flags xid mem).length
  padded : (q.packed type flags xid mem).drop 48 = beBytes 2 q.oflMatch.type ++
    (beBytes 2 (4 + q.fields.length) ++ (q.fields ++
      zeros (roundUp (4 + q.fields.length) 8 - (4 + q.fields.length))))
  unpacked : ∃ m, oflMsgUnpackMultipartRequestFlow (q.packed type flags xid mem)
      ((q.packed type flags xid mem).length - 16) = .ok ((q.numbers, m), 0) ∧ m.Is q.oflMatch

/-- The match is one that comes back, its length is that of its entries and a multiple of eight,
the length of the message can be told, and the last four bytes of the memory were zero. -/
structure FlowStatsRequest.Whole (q : FlowStatsRequest) (mem : Int → UInt8) : Prop where
  type : q.oflMatch.type = ofpmtOxm
  length : q.oflMatch.length = q.anyMatch.entriesSize
  aligned : 8 ∣ q.oflMatch.length
  short : 56 + q.oflMatch.length < 2 ^ 16
  clear : ∀ i : Nat, i < 4 → mem (52 + q.oflMatch.length + i) = 0
  wellFormed : WellFormed q.oflMatch
  survives : ∀ e ∈ q.oflMatch.entries, Survives q.oflMatch.entries e

end Definitions

section Reading

/-! ## Reading -/

variable {m : OflMatch} {fields rest : Bytes} {len : Nat}

/-- A match is unpacked by its length, which tells whether there are fields. -/
theorem oflStructsMatchUnpack_eq (hlt : 4 + fields.length < 2 ^ 16) :
    Unpacked.oflStructsMatchUnpack
        (beBytes 2 ofpmtOxm ++ (beBytes 2 (4 + fields.length) ++ (fields ++ rest)))
        (fields ++ rest) len =
      (if 4 < fields.length then
        match oxmPullMatch fields fields.length with
        | .error e => .error (Unpacked.ofMkerr e)
        | .ok (m, _) =>
          .ok (⟨fields.length, some m⟩, sizeSub len (roundUp (4 + fields.length) 8))
      else .ok (⟨0, none⟩, sizeSub len (roundUp (4 + fields.length) 8))) := by
  have htype : readNtoh (beBytes 2 ofpmtOxm ++ (beBytes 2 (4 + fields.length) ++
      (fields ++ rest))) 0 2 = .ok ofpmtOxm :=
    readNtoh_append (a := []) rfl (by decide)
  have hlength : readNtoh (beBytes 2 ofpmtOxm ++ (beBytes 2 (4 + fields.length) ++
      (fields ++ rest))) 2 2 = .ok (4 + fields.length) :=
    readNtoh_append (beBytes_length 2 _) hlt
  unfold Unpacked.oflStructsMatchUnpack Unpacked.oflStructsOxmMatchUnpack
  rw [htype, hlength]
  have hcopy : memcpy (fields ++ rest) 0 fields.length = .ok fields :=
    memcpy_append (a := []) rfl rfl
  simp only [bind, Except.bind, if_true, Nat.add_sub_cancel_left, hcopy]
  by_cases hlong : 4 < fields.length
  · rw [if_pos hlong, if_pos (by omega)]
    cases oxmPullMatch fields fields.length <;> rfl
  · rw [if_neg hlong, if_neg (by omega)]
    rfl

theorem pull_known {buf : Bytes} {r : Bytes} (h : oxmPullMatch buf len = .ok (m, r)) :
    ∀ t ∈ m.entries, ∃ f, oxmFieldLookup t.header = some f := by
  obtain ⟨ts, hts⟩ := tlvSequence_of_pull h
  obtain ⟨-, hfeed⟩ := feed_of_pull h hts
  obtain ⟨hnew, -, -⟩ := entries_of_feed hts.sized hfeed
  intro t ht
  rcases hnew t ht with hinit | ⟨hmem, -⟩
  · cases hinit
  · obtain ⟨e, he, heq⟩ := List.mem_map.mp hmem
    obtain ⟨u, hu, rfl⟩ := List.mem_map.mp he
    obtain ⟨f, hf, -⟩ := hts.known u hu
    rw [header_entryOf] at heq
    exact ⟨f, heq ▸ hf⟩

/-- The fields of a match are unpacked to its entries if it is one that comes back. -/
theorem pull_fields_iff {q : FlowStatsRequest} :
    (∃ m r, oxmPullMatch q.fields q.fields.length = .ok (m, r) ∧
        m.entries.Perm q.oflMatch.entries) ↔
      WellFormed q.oflMatch ∧ ∀ e ∈ q.oflMatch.entries, Survives q.oflMatch.entries e := by
  have hfields : q.fields = (wireOrder q.oflMatch.entries).flatMap oxmPutTlv := by
    obtain ⟨pad, hput⟩ := oxmPutMatch_eq [] q.oflMatch
    unfold FlowStatsRequest.fields AnyMatch.oxmFields
    change (oxmPutMatch [] q.oflMatch).1.take (oxmPutMatch [] q.oflMatch).2 = _
    rw [hput, List.nil_append, List.take_left]
  have hpull (hs : ∀ e ∈ q.oflMatch.entries, Sized e) (m : OflMatch) :
      (∃ r, oxmPullMatch q.fields q.fields.length = .ok (m, r)) ↔
        feed [] oflStructsMatchInit (wireOrder q.oflMatch.entries) = .ok m := by
    have hs' : ∀ e ∈ wireOrder q.oflMatch.entries, Sized e := fun e he =>
      hs e ((wireOrder_perm _).mem_iff.mp he)
    rw [hfields, ← pullLoop_flatMap hs' (Nat.le_refl _), List.append_nil]
    unfold oxmPullMatch
    rw [if_neg (Nat.lt_irrefl _)]
    cases pullLoop ((wireOrder q.oflMatch.entries).flatMap oxmPutTlv).length oflStructsMatchInit
        ((wireOrder q.oflMatch.entries).flatMap oxmPutTlv)
        ((wireOrder q.oflMatch.entries).flatMap oxmPutTlv).length with
    | error e => simp [bind, Except.bind]
    | ok m' => simp [bind, Except.bind, pure, Except.pure]
  constructor
  · rintro ⟨m, r, hok, hperm⟩
    have hs : ∀ e ∈ q.oflMatch.entries, Sized e := fun e he => by
      obtain ⟨f, hf⟩ := pull_known hok e (hperm.mem_iff.mpr he)
      exact sized_of_known hf (q.valued e he)
    exact (feed_wireOrder_iff hs).mp ⟨m, (hpull hs m).mp ⟨r, hok⟩, hperm⟩
  · intro h
    have hs : ∀ e ∈ q.oflMatch.entries, Sized e := fun e he => by
      obtain ⟨f, hf, -⟩ := h.1.known e he
      exact sized_of_known hf (q.valued e he)
    obtain ⟨m, hfeed, hperm⟩ := (@feed_wireOrder_iff [] q.oflMatch hs).mpr h
    obtain ⟨r, hok⟩ := (hpull hs m).mpr hfeed
    exact ⟨m, r, hok, hperm⟩

end Reading

section Bytes

/-! ## The bytes -/

variable {q : FlowStatsRequest} {type : FlowStatsType} {flags : UInt16} {xid : Nat}
  {mem : Int → UInt8}

namespace FlowStatsRequest

/-- The numbers behind the header of a multipart message. -/
def bodyRow (q : FlowStatsRequest) : List Bytes :=
  [beBytes 1 q.tableId.toNat, zeros 3, beBytes 4 q.outPort.toNat, beBytes 4 q.outGroup.toNat,
    zeros 4, beBytes 8 q.cookie.toNat, beBytes 8 q.cookieMask.toNat]

/-- The header of a multipart message. -/
def multipartRow (type : FlowStatsType) (flags : UInt16) : List Bytes :=
  [beBytes 2 type.no, beBytes 2 flags.toNat, zeros 4]

theorem bufLen_request : (q.request type flags).bufLen = (56 + q.oflMatch.length : Nat) := by
  change (16 + ((40 + q.oflMatch.length : Nat) : Int)) = _
  omega

theorem packed_length : (q.packed type flags xid mem).length = 56 + q.oflMatch.length := by
  rw [packed, window_length, bufLen_request]
  rfl

theorem pack_request : (q.request type flags).pack xid =
    row 16 q.bodyRow ++ shift 48 q.anyMatch.pack.1 ++ row 8 (multipartRow type flags) ++
      row 0 [beBytes 1 4, beBytes 1 18, AnyInstruction.field 2 (q.request type flags).bufLen,
        beBytes 4 xid] := by
  rw [← headerStores_eq]
  rfl

/-- What is not of the match lies in front of it. -/
theorem fills_front : Fills noPad (48 : Nat) (row 16 q.bodyRow ++ row 8 (multipartRow type flags) ++
    row 0 [beBytes 1 4, beBytes 1 18, AnyInstruction.field 2 (q.request type flags).bufLen,
      beBytes 4 xid]) :=
  fills_of_tiles rfl

end FlowStatsRequest

/-- A match is left with its type and its length in front of its fields. -/
theorem AnyMatch.window_pack {m : AnyMatch} (htype : m.toOflMatch.type = ofpmtOxm)
    (hlength : m.toOflMatch.length = m.oxmFields.length) (mem : Int → UInt8) :
    window (run m.pack.1 mem) 0 (4 + m.oxmFields.length) =
      beBytes 2 m.toOflMatch.type ++ (beBytes 2 (4 + m.oxmFields.length) ++ m.oxmFields) := by
  by_cases hzero : m.toOflMatch.length = 0
  · have hnil : m.oxmFields = [] := List.length_eq_zero_iff.mp (hlength.symm.trans hzero)
    rw [AnyMatch.pack_empty htype hzero, hnil]
    exact window_row mem 0 [beBytes 2 m.toOflMatch.type, beBytes 2 4]
  · have hstores : m.pack.1 = [⟨0, beBytes 2 m.toOflMatch.type⟩, ⟨2, beBytes 2 4⟩] ++
        ⟨4, m.oxmFields⟩ :: [⟨2, beBytes 2 (m.oxmFields.length + 4)⟩] :=
      AnyMatch.pack_entries htype hzero
    have hfirst : window (run m.pack.1 mem) 0 2 = beBytes 2 m.toOflMatch.type := by
      rw [hstores]
      change window (run ([] ++ ⟨0, beBytes 2 m.toOflMatch.type⟩ :: [⟨2, beBytes 2 4⟩,
        ⟨4, m.oxmFields⟩, ⟨2, beBytes 2 (m.oxmFields.length + 4)⟩]) mem) 0 2 = _
      refine window_of_last rfl rfl fun t ht i hit hit' => ?_
      simp only [List.mem_cons, List.not_mem_nil, or_false] at ht
      have htwo := beBytes_length 2 m.toOflMatch.type
      unfold Store.Hits Store.stop at hit hit'
      rcases ht with rfl | rfl | rfl <;> dsimp only at hit hit' <;> omega
    have hsecond : window (run m.pack.1 mem) 2 2 = beBytes 2 (m.oxmFields.length + 4) := by
      rw [hstores]
      change window (run ([⟨0, beBytes 2 m.toOflMatch.type⟩, ⟨2, beBytes 2 4⟩, ⟨4, m.oxmFields⟩] ++
        ⟨2, beBytes 2 (m.oxmFields.length + 4)⟩ :: []) mem) 2 2 = _
      exact window_of_last rfl rfl nofun
    have hfields : window (run m.pack.1 mem) 4 m.oxmFields.length = m.oxmFields := by
      rw [hstores]
      refine window_of_last rfl rfl fun t ht i hit hit' => ?_
      rw [List.mem_singleton.mp ht] at hit'
      simp only [Store.Hits, Store.stop, beBytes_length] at hit hit'
      omega
    have hfour : 4 + m.oxmFields.length = 2 + (2 + m.oxmFields.length) := by omega
    rw [hfour, window_add, window_add, hfirst]
    change _ ++ (window _ 2 2 ++ window _ 4 _) = _
    rw [hsecond, hfields, Nat.add_comm, ← hfour]

theorem FlowStatsRequest.fields_length : q.fields.length = q.anyMatch.entriesSize :=
  q.anyMatch.oxmFields_length

/-- The bytes of a request whose match has the length of its entries: the last four are what was
there before. -/
theorem FlowStatsRequest.packed_eq (htype : q.oflMatch.type = ofpmtOxm)
    (hlength : q.oflMatch.length = q.fields.length) (hshort : 56 + q.oflMatch.length < 2 ^ 16) :
    q.packed type flags xid mem =
      [beBytes 1 4, beBytes 1 18, beBytes 2 (56 + q.oflMatch.length), beBytes 4 xid].flatten ++
      ((multipartRow type flags).flatten ++ (q.bodyRow.flatten ++
        (beBytes 2 q.oflMatch.type ++ (beBytes 2 (4 + q.fields.length) ++ q.fields) ++
          window mem (52 + q.oflMatch.length) 4))) := by
  have hfills := (AnyMatch.fills_written (m := q.anyMatch) htype).1
  have hwritten : q.anyMatch.writtenLen = 4 + q.fields.length := by
    unfold AnyMatch.writtenLen
    split
    · next hzero =>
      have hlen : q.fields.length = 0 := hlength.symm.trans hzero
      rw [hlen]
    · rfl
  have hmatch {s : Store} (hs : s ∈ shift 48 q.anyMatch.pack.1) {i : Int} (hit : s.Hits i) :
      48 ≤ i ∧ i < 52 + q.oflMatch.length := by
    obtain ⟨t, ht, rfl⟩ := mem_shift hs
    have hin := hfills.within t ht
    rw [Store.shift_hits] at hit
    unfold Store.Hits at hit
    omega
  have hsize : (q.request type flags).bufLen.toNat =
      8 + (8 + (32 + ((4 + q.fields.length) + 4))) := by
    rw [bufLen_request]
    omega
  have hrun : run ((q.request type flags).pack xid) mem = run (row 0 [beBytes 1 4, beBytes 1 18,
      AnyInstruction.field 2 (q.request type flags).bufLen, beBytes 4 xid])
        (run (row 8 (multipartRow type flags))
          (run (shift 48 q.anyMatch.pack.1) (run (row 16 q.bodyRow) mem))) := by
    rw [pack_request, run_append, run_append, run_append]
  have hheader (mem : Int → UInt8) {i : Int} (hi : 8 ≤ i) : run (row 0 [beBytes 1 4,
      beBytes 1 18, AnyInstruction.field 2 (q.request type flags).bufLen, beBytes 4 xid]) mem i =
        mem i :=
    run_of_not_hit fun s hs hit => by
      have hlt : i < 0 + (8 : Nat) := (row_hits hs hit).2
      omega
  have hmultipart (mem : Int → UInt8) {i : Int} (hi : 16 ≤ i) :
      run (row 8 (multipartRow type flags)) mem i = mem i :=
    run_of_not_hit fun s hs hit => by
      have hlt : i < 8 + (8 : Nat) := (row_hits hs hit).2
      omega
  have hbody (mem : Int → UInt8) {i : Int} (hi : 48 ≤ i) : run (row 16 q.bodyRow) mem i = mem i :=
    run_of_not_hit fun s hs hit => by
      have hlt : i < 16 + (32 : Nat) := (row_hits hs hit).2
      omega
  rw [packed, hrun, hsize, window_add, window_add, window_add, window_add]
  refine congrArg₂ _ ?_ (congrArg₂ _ ?_ (congrArg₂ _ ?_ (congrArg₂ _ ?_ ?_)))
  · rw [bufLen_request, field_of_lt hshort]
    exact window_row _ 0 _
  · refine Eq.trans (window_congr fun i hle hlt => hheader _ (by omega)) ?_
    exact window_row _ 8 (multipartRow type flags)
  · refine Eq.trans (window_congr fun i hle hlt => ?_) (window_row mem 16 q.bodyRow)
    have hlt' : i < 48 := by omega
    rw [hheader _ (by omega), hmultipart _ (by omega), run_of_not_hit fun s hs hit => ?_]
    have hge := (hmatch hs hit).1
    omega
  · have hfields : window (run (shift 48 q.anyMatch.pack.1) (run (row 16 q.bodyRow) mem)) 48
        (4 + q.fields.length) =
          beBytes 2 q.oflMatch.type ++ (beBytes 2 (4 + q.fields.length) ++ q.fields) := by
      rw [window_shift]
      exact AnyMatch.window_pack (m := q.anyMatch) htype hlength _
    refine Eq.trans (window_congr fun i hle hlt => ?_) hfields
    have hge : 48 ≤ i := hle
    rw [hheader _ (by omega), hmultipart _ (by omega)]
  · have hoff : (0 : Int) + (8 : Nat) + (8 : Nat) + (32 : Nat) + (4 + q.fields.length : Nat) =
        52 + q.oflMatch.length := by omega
    rw [hoff]
    refine window_congr fun i hle hlt => ?_
    rw [hheader _ (by omega), hmultipart _ (by omega), run_of_not_hit fun s hs hit => ?_,
      hbody _ (by omega)]
    have hin := (hmatch hs hit).2
    omega

/-- The match and its padding. -/
theorem FlowStatsRequest.packed_drop (htype : q.oflMatch.type = ofpmtOxm)
    (hlength : q.oflMatch.length = q.fields.length) (hshort : 56 + q.oflMatch.length < 2 ^ 16) :
    (q.packed type flags xid mem).drop 48 = beBytes 2 q.oflMatch.type ++
      (beBytes 2 (4 + q.fields.length) ++ (q.fields ++ window mem (52 + q.oflMatch.length) 4)) := by
  rw [packed_eq htype hlength hshort]
  change beBytes 2 q.oflMatch.type ++ (beBytes 2 (4 + q.fields.length) ++ q.fields) ++
    window mem (52 + q.oflMatch.length) 4 = _
  rw [List.append_assoc, List.append_assoc]

theorem window_eq_zeros_iff {p : Int} {n : Nat} :
    window mem p n = zeros n ↔ ∀ i : Nat, i < n → mem (p + i) = 0 := by
  unfold window zeros
  rw [List.eq_replicate_iff]
  simp

theorem FlowStatsRequest.numbersAt_bodyRow {head tail : Bytes} (hhead : head.length = 16) :
    numbersAt (head ++ (q.bodyRow.flatten ++ tail))
      [(16, 1), (20, 4), (24, 4), (32, 8), (40, 8)] = .ok q.numbers := by
  have hread (j k n : Nat) (hjk : j + k ≤ 32)
      (hbytes : ((q.bodyRow.flatten ++ tail).drop j).take k = beBytes k n)
      (hn : n < 256 ^ k) : readNtoh (head ++ (q.bodyRow.flatten ++ tail)) (16 + j) k = .ok n := by
    have hinside : head.length + j + k ≤ (head ++ (q.bodyRow.flatten ++ tail)).length := by
      rw [List.length_append]
      have hbody : 32 ≤ (q.bodyRow.flatten ++ tail).length := by
        rw [List.length_append]
        exact Nat.le_add_right 32 _
      omega
    unfold readNtoh memcpy
    rw [← hhead, if_pos hinside, List.drop_length_add_append, hbytes]
    exact congrArg Except.ok (beNat_beBytes_of_lt hn)
  unfold numbersAt
  rw [List.mapM_cons, List.mapM_cons, List.mapM_cons, List.mapM_cons, List.mapM_cons,
    hread 0 1 q.tableId.toNat (by decide) rfl q.tableId.toNat_lt,
    hread 4 4 q.outPort.toNat (by decide) rfl q.outPort.toNat_lt,
    hread 8 4 q.outGroup.toNat (by decide) rfl q.outGroup.toNat_lt,
    hread 16 8 q.cookie.toNat (by decide) rfl q.cookie.toNat_lt,
    hread 24 8 q.cookieMask.toNat (by decide) rfl q.cookieMask.toNat_lt]
  rfl

theorem unpack_eq_ok {os : Bytes} {len rest : Nat} {ns : List Nat} {m : Unpacked.Match} :
    oflMsgUnpackMultipartRequestFlow os len = .ok ((ns, m), rest) ↔
      32 ≤ len ∧ numbersAt os [(16, 1), (20, 4), (24, 4), (32, 8), (40, 8)] = .ok ns ∧
        Unpacked.oflStructsMatchUnpack (os.drop 48) (os.drop 52) (len - 32) = .ok (m, rest) := by
  unfold oflMsgUnpackMultipartRequestFlow
  constructor
  · intro h
    obtain ⟨_, hreject, h⟩ := bind_eq_ok.mp h
    obtain ⟨ns', hnumbers, h⟩ := bind_eq_ok.mp h
    obtain ⟨⟨m', rest'⟩, hmatch, h⟩ := bind_eq_ok.mp h
    cases h
    exact ⟨Nat.le_of_not_lt (reject_eq_ok.mp hreject), hnumbers, hmatch⟩
  · rintro ⟨hlen, hnumbers, hmatch⟩
    refine bind_eq_ok.mpr ⟨(), reject_eq_ok.mpr (Nat.not_lt.mpr hlen), ?_⟩
    refine bind_eq_ok.mpr ⟨ns, hnumbers, ?_⟩
    exact bind_eq_ok.mpr ⟨(m, rest), hmatch, rfl⟩

end Bytes

section Transmission

/-! ## Transmission -/

variable {q : FlowStatsRequest} {type : FlowStatsType} {flags : UInt16} {xid : Nat}
  {mem : Int → UInt8}

namespace FlowStatsRequest

/-- With the padding as it should be, the match is behind the length of the header. -/
theorem Transmits.length_eq (h : q.Transmits type flags xid mem) :
    8 + q.oflMatch.length = roundUp (4 + q.fields.length) 8 := by
  have hlength := congrArg List.length h.padded
  obtain ⟨hle, -, -⟩ := roundUp_eight (4 + q.fields.length)
  rw [List.length_drop, packed_length] at hlength
  simp only [List.length_append, beBytes_length, zeros, List.length_replicate] at hlength
  omega

theorem Transmits.short (h : q.Transmits type flags xid mem) :
    56 + q.oflMatch.length < 2 ^ 16 := by
  have hlen := readNtoh_eq_ok h.announced
  rw [packed_length] at hlen
  have hlt := leNat_lt (((q.packed type flags xid mem).drop 2).take 2).reverse
  have htwo : ((((q.packed type flags xid mem).drop 2).take 2).reverse).length ≤ 2 := by
    rw [List.length_reverse]
    exact List.length_take_le _ _
  have hpow := Nat.pow_le_pow_right (n := 256) (by decide) htwo
  unfold numAt beNat at hlen
  omega

/-- What is unpacked of the match tells that its length is that of its fields, and that it comes
back. -/
theorem Transmits.match_eq (h : q.Transmits type flags xid mem) :
    q.oflMatch.length = q.fields.length ∧ WellFormed q.oflMatch ∧
      ∀ e ∈ q.oflMatch.entries, Survives q.oflMatch.entries e := by
  obtain ⟨m, hunpack, his⟩ := h.unpacked
  have hround := h.length_eq
  have hshort := h.short
  obtain ⟨hle, -, -⟩ := roundUp_eight (4 + q.fields.length)
  obtain ⟨-, -, hmatch⟩ := unpack_eq_ok.mp hunpack
  have hfields : (q.packed type flags xid mem).drop 52 = q.fields ++
      zeros (roundUp (4 + q.fields.length) 8 - (4 + q.fields.length)) := by
    have hdrop := congrArg (List.drop 4) h.padded
    rw [List.drop_drop] at hdrop
    exact hdrop
  rw [hfields, h.padded, his.type, oflStructsMatchUnpack_eq (by omega)] at hmatch
  by_cases hlong : 4 < q.fields.length
  · rw [if_pos hlong] at hmatch
    cases hpull : oxmPullMatch q.fields q.fields.length with
    | error e =>
      rw [hpull] at hmatch
      cases hmatch
    | ok r =>
      rw [hpull] at hmatch
      obtain ⟨rfl, -⟩ := Prod.mk.inj (Except.ok.inj hmatch)
      exact ⟨his.length.symm, pull_fields_iff.mp ⟨r.1, r.2, hpull, his.entries⟩⟩
  · rw [if_neg hlong] at hmatch
    obtain ⟨rfl, -⟩ := Prod.mk.inj (Except.ok.inj hmatch)
    have hentries : q.oflMatch.entries = [] := List.nil_perm.mp his.entries
    have hsize : q.fields.length = 0 := by
      rw [fields_length]
      unfold AnyMatch.entriesSize
      change (q.oflMatch.entries.map _).sum = 0
      rw [hentries]
      rfl
    refine ⟨his.length.symm.trans hsize.symm, ⟨?_, ?_⟩, ?_⟩
    · rw [hentries]
      exact List.nodup_nil
    · rw [hentries]
      nofun
    · rw [hentries]
      nofun

theorem Transmits.whole (h : q.Transmits type flags xid mem) : q.Whole mem := by
  obtain ⟨hlength, hwellFormed, hsurvives⟩ := h.match_eq
  obtain ⟨m, -, his⟩ := h.unpacked
  have hround := h.length_eq
  obtain ⟨-, -, hmod⟩ := roundUp_eight (4 + q.fields.length)
  have haligned : 8 ∣ q.oflMatch.length := by omega
  have hclear : window mem (52 + q.oflMatch.length) 4 = zeros 4 := by
    have hpadded := h.padded
    have hfour : roundUp (4 + q.fields.length) 8 - (4 + q.fields.length) = 4 := by omega
    rw [packed_drop his.type hlength h.short, hfour] at hpadded
    exact List.append_cancel_left (List.append_cancel_left (List.append_cancel_left hpadded))
  exact ⟨his.type, hlength.trans fields_length, haligned, h.short, window_eq_zeros_iff.mp hclear,
    hwellFormed, hsurvives⟩

/-- The padding is the four bytes that are not stored. -/
theorem Whole.drop_eq (h : q.Whole mem) (type : FlowStatsType) (flags : UInt16) (xid : Nat) :
    (q.packed type flags xid mem).drop 48 = beBytes 2 q.oflMatch.type ++
      (beBytes 2 (4 + q.fields.length) ++ (q.fields ++ zeros 4)) := by
  rw [packed_drop h.type (h.length.trans fields_length.symm) h.short,
    window_eq_zeros_iff.mpr h.clear]

/-- A match that comes back is unpacked from its fields, or is the empty one. -/
theorem Whole.unpacks (h : q.Whole mem) (type : FlowStatsType) (flags : UInt16) (xid : Nat) :
    ∃ m : Unpacked.Match, Unpacked.oflStructsMatchUnpack ((q.packed type flags xid mem).drop 48)
        ((q.packed type flags xid mem).drop 52) (8 + q.fields.length) = .ok (m, 0) ∧
      m.Is q.oflMatch := by
  have hlength : q.oflMatch.length = q.fields.length := h.length.trans fields_length.symm
  have haligned := h.aligned
  have hshort := h.short
  have hround : sizeSub (8 + q.fields.length) (roundUp (4 + q.fields.length) 8) = 0 := by
    unfold roundUp sizeSub
    omega
  have hfields : (q.packed type flags xid mem).drop 52 = q.fields ++ zeros 4 := by
    have hdrop := congrArg (List.drop 4) (h.drop_eq type flags xid)
    rw [List.drop_drop] at hdrop
    exact hdrop
  obtain ⟨m, r, hpull, hperm⟩ := pull_fields_iff.mpr ⟨h.wellFormed, h.survives⟩
  rw [hfields, h.drop_eq, h.type, oflStructsMatchUnpack_eq (by omega), hround]
  by_cases hlong : 4 < q.fields.length
  · rw [if_pos hlong, hpull]
    exact ⟨_, rfl, h.type, hlength.symm, hperm⟩
  · rw [if_neg hlong]
    have hnil : q.fields = [] := List.length_eq_zero_iff.mp (by omega)
    rw [hnil] at hpull
    obtain ⟨rfl, -⟩ := Prod.mk.inj (Except.ok.inj hpull)
    exact ⟨_, rfl, h.type, (hlength.trans (congrArg List.length hnil)).symm, hperm⟩

theorem Whole.inside (h : q.Whole mem) : ∀ s ∈ (q.request type flags).pack xid,
    0 ≤ s.off ∧ s.stop ≤ (q.request type flags).bufLen := by
  intro s hs
  have hmatch := (AnyMatch.fills_written (m := q.anyMatch) h.type).1
  have hwritten : q.anyMatch.writtenLen ≤ 4 + q.fields.length := by
    unfold AnyMatch.writtenLen
    split
    · exact Nat.le_add_right 4 _
    · exact Nat.le_refl _
  have hlength : q.oflMatch.length = q.fields.length := h.length.trans fields_length.symm
  have hfront := (fills_front : Fills noPad (48 : Nat) (row 16 q.bodyRow ++
    row 8 (multipartRow type flags) ++ row 0 [beBytes 1 4, beBytes 1 18,
      AnyInstruction.field 2 (q.request type flags).bufLen, beBytes 4 xid])).within
  rw [bufLen_request]
  rw [pack_request] at hs
  rcases List.mem_append.mp hs with hs | hheader
  · rcases List.mem_append.mp hs with hs | hmultipart
    · rcases List.mem_append.mp hs with hbody | hm
      · have hin := hfront s
          (List.mem_append_left _ (List.mem_append_left _ hbody))
        omega
      · obtain ⟨t, ht, rfl⟩ := mem_shift hm
        have hin := hmatch.within t ht
        simp only [Store.shift, Store.stop] at hin ⊢
        omega
    · have hin := hfront s
        (List.mem_append_left _ (List.mem_append_right _ hmultipart))
      omega
  · have hin := hfront s (List.mem_append_right _ hheader)
    omega

theorem Whole.transmits (h : q.Whole mem) : q.Transmits type flags xid mem := by
  have hlength : q.oflMatch.length = q.fields.length := h.length.trans fields_length.symm
  have haligned := h.aligned
  have hshort := h.short
  refine ⟨h.inside, ?_, ?_, ?_⟩
  · rw [packed_length, packed_eq h.type hlength h.short]
    exact readNtoh_append (a := [4, 18]) rfl h.short
  · have hfour : roundUp (4 + q.fields.length) 8 - (4 + q.fields.length) = 4 := by
      unfold roundUp
      omega
    rw [h.drop_eq, hfour]
  · obtain ⟨m, hunpack, his⟩ := h.unpacks type flags xid
    refine ⟨m, unpack_eq_ok.mpr ⟨?_, ?_, ?_⟩, his⟩
    · rw [packed_length]
      omega
    · rw [packed_eq h.type hlength h.short, ← List.append_assoc]
      exact numbersAt_bodyRow rfl
    · have hlen : (q.packed type flags xid mem).length - 16 - 32 = 8 + q.fields.length := by
        rw [packed_length]
        omega
      rw [hlen]
      exact hunpack

/-- A request comes back as it was sent if and only if the padding of its match is just what is
not stored, and was zero. -/
theorem transmits_iff (q : FlowStatsRequest) (type : FlowStatsType) (flags : UInt16) (xid : Nat)
    (mem : Int → UInt8) : q.Transmits type flags xid mem ↔ q.Whole mem :=
  ⟨Transmits.whole, Whole.transmits⟩

end FlowStatsRequest

/-- A request for all flows. -/
def allFlows : FlowStatsRequest where
  tableId := 0xff
  outPort := 0xffffffff
  outGroup := 0xffffffff
  cookie := 0
  cookieMask := 0
  oflMatch := oflStructsMatchInit
  valued := nofun

/-- The request for all flows is sent with four bytes of what was in the memory before. -/
theorem allFlows_garbled : ¬allFlows.Transmits .flow 0 0 fun _ => 1 := by
  intro h
  exact absurd (h.whole.clear 0 (by decide)) (by decide)

end Transmission

end Nox.Ofl
