import Nox.Oxm.Acceptance
import Nox.Ofl.Printing

/-!
# Which replies can be printed

For each structure of a reply, a condition on its bytes.  `*.print_iff` says that what the
decoder made of the bytes is printed without a wrong read exactly when they meet it.  A list
is met record by record, since the decoder reads the records the count saw.
-/

namespace Nox.Ofl

open Oxm OxmFieldIndex Records Unpacked
open Lib (avoids_bind_iff)

section Numbers

/-! ## Numbers in memory -/

/-- The number of `k` bytes in network order at `off`. -/
def numAt (src : Bytes) (off k : Nat) : Nat := beNat ((src.drop off).take k)

variable {src : Bytes} {off k n : Nat}

theorem memcpy_eq_ok {b : Bytes} (h : memcpy src off k = .ok b) :
    b = (src.drop off).take k ∧ b.length = k := by
  unfold memcpy at h
  split at h
  · next hle =>
    cases h
    refine ⟨rfl, ?_⟩
    rw [List.length_take, List.length_drop]
    omega
  · cases h

theorem readNtoh_cases :
    readNtoh src off k = .ok (numAt src off k) ∨ readNtoh src off k = .error .overrun := by
  unfold readNtoh memcpy
  split
  · exact .inl rfl
  · exact .inr rfl

theorem readNtoh_eq_ok (h : readNtoh src off k = .ok n) : n = numAt src off k := by
  rcases @readNtoh_cases src off k with hok | herr
  · rw [h] at hok
    exact Except.ok.inj hok
  · rw [h] at herr
    cases herr

theorem reject_eq_ok {c : Prop} [Decidable c] {e : UnpackError} {u : Unit} :
    reject c e = .ok u ↔ ¬ c := by
  unfold reject
  split
  · next hc => exact ⟨fun h => (nomatch h), fun h => absurd hc h⟩
  · next hc => exact ⟨fun _ => hc, fun _ => rfl⟩

/-- What is unpacked of a list of records comes from the records, one by one. -/
theorem unpackRecords_forall_iff {α : Type} {L : Layout UInt8 UnpackError} {bad : UnpackError}
    {unpack : Nat → Bytes → Nat → Unpack (α × Nat)} {P : Bytes → Prop} {Q : α → Prop}
    (hone : ∀ n r l x l', unpack n r l = .ok (x, l') → (Q x ↔ P r)) {announced len rest : Nat}
    {xs : List α} (h : unpackRecords L bad unpack src announced len = .ok (xs, rest)) :
    (∀ x ∈ xs, Q x) ↔ ∀ r ∈ L.starts src announced, P r := by
  obtain ⟨c, hc, hall⟩ := bind_eq_ok.mp h
  rw [unpackAll_eq hc] at hall
  exact unpackEach_forall_iff hone hall

end Numbers

section Tlvs

/-! ## TLVs of a match -/

/-- The header at the front. -/
def headerAt (p : Bytes) : UInt32 := UInt32.ofNat (hton 4 (load 4 p))

/-- TLVs, with a value that is not empty. -/
def tlvLayout : Layout UInt8 UnpackError :=
  ⟨4, 5, fun p => .ok (4 + oxmLength (headerAt p)), by decide⟩

/-- The headers of the TLVs, one after the other. -/
def tlvHeaders (p : Bytes) : List UInt32 := (tlvLayout.starts p p.length).map headerAt

variable {bytes buf rest : Bytes} {ts es : List OflMatchTlv} {m m' : OflMatch} {len : Nat}

theorem tlvHeaders_eq (h : TlvSequence bytes ts) : tlvHeaders bytes = ts.map (·.header) := by
  induction ts generalizing bytes with
  | nil =>
    rw [h.bytes_eq]
    exact congrArg (List.map headerAt) (Layout.starts_of_lt (by decide))
  | cons t ts ih =>
    obtain ⟨tail, hbytes, htail⟩ := h.tail
    obtain ⟨f, hl, -⟩ := h.known t List.mem_cons_self
    have hvalue := h.length t List.mem_cons_self
    have hpos := (known_ne_zero hl).2
    have hheader : headerAt bytes = t.header := by
      rw [hbytes]
      exact header_of_wireBytes t tail
    have hwire : (wireBytes t).length = 4 + oxmLength t.header := by
      rw [wireBytes_length, hvalue]
    have hlen : bytes.length = 4 + oxmLength t.header + tail.length := by
      rw [hbytes, List.length_append, hwire]
    have hsize : tlvLayout.size bytes = .ok (4 + oxmLength t.header) := by rw [← hheader]; rfl
    have hstarts := Layout.starts_cons (L := tlvLayout)
      (show 4 ≤ bytes.length by omega) hsize (by omega)
      (show 5 ≤ 4 + oxmLength t.header by omega)
    have hdrop : bytes.drop (4 + oxmLength t.header) = tail := by
      rw [hbytes, ← hwire, List.drop_left]
    rw [tlvHeaders, hstarts, hdrop, hlen, Nat.add_sub_cancel_left, List.map_cons, List.map_cons,
      hheader, ← ih htail]
    rfl

/-- How long the value of an entry is. -/
def Valued (e : OflMatchTlv) : Prop :=
  e.value.length = oxmLength e.header ∨
    e.header = inPhyPort.header ∧ oxmLength e.header ≤ e.value.length

/-- What a pass over a TLV puts into the match. -/
theorem entries_of_pull {e : OflMatchTlv} {f : OxmField} (hl : oxmFieldLookup e.header = some f)
    (hs : Sized e) (h : pullEntry m e.header (oxmPutTlv e ++ rest) = .ok m') :
    (∀ t ∈ m'.entries, t ∈ m.entries ∨ t.header = e.header ∧ Valued t) ∧
      (∀ t ∈ m.entries, t ∈ m'.entries) ∧
      (e.header ≠ vlanPcp.header → ∃ t ∈ m'.entries, t.header = e.header) := by
  have hput (m : OflMatch) (v : Bytes) (t : OflMatchTlv) :
      t ∈ (matchPut m e.header v).entries ↔ t = ⟨e.header, v⟩ ∨ t ∈ m.entries :=
    (entries_matchPut m e.header v).mem_iff.trans List.mem_cons
  obtain ⟨-, -, ⟨hi, -⟩ | ⟨hd, rfl⟩ | ⟨-, -, -, rfl⟩⟩ := pullEntry_cases hl hs h
  · -- the case of `in_phy_port` runs into the next one: two entries
    have hphy : e.header = inPhyPort.header := (header_eq_iff hl).mpr hi
    have hm : ∃ v w, v.length = 4 ∧ w.length = 8 ∧
        m' = matchPut (matchPut m e.header v) e.header w := by
      rw [pullEntry_known hl hs] at h
      split at h
      · cases h
      split at h
      · cases h
      simp only [parseOxmEntry, hi] at h
      split at h
      · cases h
        rw [header_of_lookup hl]
        exact ⟨_, _, by simp, by simp, rfl⟩
      · cases h
    obtain ⟨v, w, hv, hw, rfl⟩ := hm
    have hfour : oxmLength e.header = 4 := by rw [hphy]; decide
    refine ⟨fun t ht => ?_, fun t ht => ?_, fun _ => ⟨⟨e.header, w⟩, ?_, rfl⟩⟩
    · rw [hput, hput] at ht
      rcases ht with rfl | rfl | ht
      · exact .inr ⟨rfl, .inr ⟨hphy, by dsimp only; omega⟩⟩
      · exact .inr ⟨rfl, .inl (by dsimp only; omega)⟩
      · exact .inl ht
    · rw [hput, hput]
      exact .inr (.inr ht)
    · rw [hput]
      exact .inl rfl
  · refine ⟨fun t ht => .inl ht, fun t ht => ht, fun hne => ?_⟩
    simp only [parseDrops, Bool.and_eq_true, beq_iff_eq] at hd
    exact absurd ((header_eq_iff hl).mpr hd.1) hne
  · have hlen : (stored f.index (payload e)).length = oxmLength e.header := by
      unfold stored
      split <;> simp [hs.length_value]
    refine ⟨fun t ht => ?_, fun t ht => ?_,
      fun _ => ⟨⟨e.header, stored f.index (payload e)⟩, ?_, rfl⟩⟩
    · rw [hput] at ht
      rcases ht with rfl | ht
      · exact .inr ⟨rfl, .inl hlen⟩
      · exact .inl ht
    · rw [hput]
      exact .inr ht
    · rw [hput]
      exact .inl rfl

/-- The entries of a match that was fed: as long as their headers say, with no header that
was not fed, and with every header but that of `vlan_pcp`, which may be dropped. -/
theorem entries_of_feed (hs : ∀ e ∈ es, Sized e) (h : feed rest m es = .ok m') :
    (∀ t ∈ m'.entries, t ∈ m.entries ∨ t.header ∈ es.map (·.header) ∧ Valued t) ∧
      (∀ t ∈ m.entries, t ∈ m'.entries) ∧
      ∀ e ∈ es, e.header ≠ vlanPcp.header → ∃ t ∈ m'.entries, t.header = e.header := by
  induction es generalizing m with
  | nil =>
    cases h
    exact ⟨fun t ht => .inl ht, fun t ht => ht, nofun⟩
  | cons e es ih =>
    obtain ⟨m₁, f, hl, hpull, hfeed⟩ := feed_cons_ok h
    obtain ⟨hnew, hold, hhas⟩ := entries_of_pull hl (hs e List.mem_cons_self) hpull
    obtain ⟨hnew', hold', hhas'⟩ := ih (fun t ht => hs t (List.mem_cons_of_mem e ht)) hfeed
    refine ⟨fun t ht => ?_, fun t ht => hold' t (hold t ht), fun u hu hne => ?_⟩
    · rcases hnew' t ht with ht₁ | ⟨hmem, hval⟩
      · rcases hnew t ht₁ with ht₀ | ⟨heq, hval⟩
        · exact .inl ht₀
        · rw [List.map_cons, heq]
          exact .inr ⟨List.mem_cons_self, hval⟩
      · exact .inr ⟨List.mem_cons_of_mem _ hmem, hval⟩
    · rcases List.mem_cons.mp hu with rfl | hu
      · obtain ⟨t, ht, heq⟩ := hhas hne
        exact ⟨t, hold' t ht, heq⟩
      · exact hhas' u hu hne

/-- The entries of a match that was pulled off a buffer are printed exactly when none of the
TLVs has a mask that is looked for behind its value. -/
theorem entries_print_iff (h : oxmPullMatch buf len = .ok (m, rest)) :
    (∀ e ∈ m.entries, printOxmTlv e.header (e.value.map some) = .ok ()) ↔
      ∀ header ∈ tlvHeaders (buf.take len), NoneOf overreads header := by
  obtain ⟨ts, hts⟩ := tlvSequence_of_pull h
  obtain ⟨-, hfeed⟩ := feed_of_pull h hts
  obtain ⟨hnew, -, hhas⟩ := entries_of_feed hts.sized hfeed
  have hheaders : (ts.map entryOf).map (·.header) = tlvHeaders (buf.take len) := by
    rw [tlvHeaders_eq hts, List.map_map]
    exact List.map_congr_left fun t _ => header_entryOf t
  have hprint : ∀ e ∈ m.entries, (printOxmTlv e.header (e.value.map some) = .ok () ↔
      NoneOf overreads e.header) := by
    intro e he
    rcases hnew e he with hinit | ⟨-, hlen | ⟨hphy, hle⟩⟩
    · rw [entries_init] at hinit
      cases hinit
    · exact printOxmTlv_written_iff hlen.ge fun _ => hlen
    · exact printOxmTlv_written_iff hle fun hnot => absurd (by rw [hphy]; decide) hnot
  constructor
  · intro hall header hmem i hi heq
    rw [← hheaders] at hmem
    obtain ⟨e, he, rfl⟩ := List.mem_map.mp hmem
    have hne : e.header ≠ vlanPcp.header := by
      rw [heq]
      revert hi
      cases i <;> decide
    obtain ⟨t, ht, hth⟩ := hhas e he hne
    exact (hprint t ht).mp (hall t ht) i hi (hth.trans heq)
  · intro hall e he
    rcases hnew e he with hinit | ⟨hmem, -⟩
    · rw [entries_init] at hinit
      cases hinit
    · rw [hheaders] at hmem
      exact (hprint e he).mpr (hall _ hmem)

end Tlvs

section Actions

/-! ## Actions -/

variable {fresh src v : Bytes} {header : UInt32} {len rest : Nat} {a : OflAction}

/-- The sizes in the code's cases are the ones a value is written for, in full. -/
theorem unpackSetFieldValue_length (hfill : fillsValue header = true)
    (h : unpackSetFieldValue fresh header src = .ok v) : v.length = oxmLength header := by
  have hswapped {k : Nat} (h : (do return leBytes k (← readNtoh src 8 k)) = (.ok v : Unpack Bytes)) :
      v.length = k := by
    obtain ⟨n, -, hv⟩ := bind_eq_ok.mp h
    cases hv
    exact leBytes_length k n
  unfold unpackSetFieldValue at h
  split at h
  · next hk => exact hk ▸ (memcpy_eq_ok h).2
  · next hk => exact hk ▸ (memcpy_eq_ok h).2
  · next hk => exact hk ▸ (memcpy_eq_ok h).2
  · next hk => exact hk ▸ hswapped h
  · next hk =>
    split at h
    · exact hk ▸ (memcpy_eq_ok h).2
    · exact hk ▸ hswapped h
  · next hk => exact hk ▸ hswapped h
  · simp_all [fillsValue, setFieldSizes]

/-- Whatever the action is that comes out, it is no `set_field`. -/
def NoSetField (x : Unpack (OflAction × Nat)) : Prop :=
  ∀ a l, x = .ok (a, l) → ∀ header v, a ≠ .setField header v

theorem NoSetField.apply {x : Unpack (OflAction × Nat)} (hx : NoSetField x)
    (h : x = .ok (a, rest)) : ∀ header v, a ≠ .setField header v :=
  hx a rest h

theorem NoSetField.ok {a : OflAction} {l : Nat} (h : ∀ header v, a ≠ .setField header v) :
    NoSetField (.ok (a, l)) := by
  intro b l' heq
  cases heq
  exact h

theorem NoSetField.error {e : UnpackError} : NoSetField (.error e) := by
  intro a l heq
  cases heq

theorem NoSetField.bind {α : Type} {x : Unpack α} {f : α → Unpack (OflAction × Nat)}
    (h : ∀ b, NoSetField (f b)) : NoSetField (x >>= f) := by
  intro a l heq
  obtain ⟨b, -, hb⟩ := bind_eq_ok.mp heq
  exact h b a l hb

theorem NoSetField.ite {c : Prop} [Decidable c] {x y : Unpack (OflAction × Nat)}
    (hx : NoSetField x) (hy : NoSetField y) : NoSetField (if c then x else y) := by
  split
  · exact hx
  · exact hy

theorem noSetField_output : NoSetField (unpackOutput src len) :=
  .bind fun _ => .bind fun _ => .ite .error (.bind fun _ => .ok nofun)

theorem noSetField_push (type : PushAction) : NoSetField (unpackPush type src len) :=
  .bind fun _ => .bind fun _ => .ite (.ok nofun) .error

theorem noSetField_group : NoSetField (unpackGroup src len) :=
  .bind fun _ => .bind fun _ => .ite .error (.ok nofun)

/-- The action is not a `set_field` of a field whose printing goes wrong. -/
def ActionFit (src : Bytes) : Prop :=
  numAt src 0 2 = ofpatSetField →
    NoneOf (overreads ++ unfilled) (UInt32.ofNat (numAt src 4 4))

instance (src : Bytes) : Decidable (ActionFit src) :=
  inferInstanceAs (Decidable (_ → _))

theorem setField_print_iff (h : unpackSetField fresh src len = .ok (a, rest)) :
    oflActionPrint a = .ok () ↔
      NoneOf (overreads ++ unfilled) (UInt32.ofNat (numAt src 4 4)) := by
  obtain ⟨n, hn, h⟩ := bind_eq_ok.mp h
  obtain ⟨v, hv, h⟩ := bind_eq_ok.mp h
  obtain ⟨l, -, h⟩ := bind_eq_ok.mp h
  cases h
  rw [readNtoh_eq_ok hn] at hv ⊢
  exact printOxmTlv_setField_iff fun hfill => unpackSetFieldValue_length hfill hv

theorem oflActionPrint_of_ne (h : ∀ header v, a ≠ .setField header v) :
    oflActionPrint a = .ok () := by
  cases a with
  | setField header v => exact absurd rfl (h header v)
  | _ => rfl

/-- Only a `set_field` has something to read outside its structure. -/
theorem action_print_iff (h : oflActionsUnpack fresh src len = .ok (a, rest)) :
    oflActionPrint a = .ok () ↔ ActionFit src := by
  obtain ⟨-, -, h⟩ := bind_eq_ok.mp h
  obtain ⟨srcLen, -, h⟩ := bind_eq_ok.mp h
  obtain ⟨-, -, h⟩ := bind_eq_ok.mp h
  split at h
  · cases h
  obtain ⟨type, htype, h⟩ := bind_eq_ok.mp h
  have hnum := readNtoh_eq_ok htype
  by_cases hset : type = ofpatSetField
  · subst hset
    rw [setField_print_iff h]
    exact ⟨fun hnone _ => hnone, fun hfit => hfit hnum.symm⟩
  · have hno : ∀ header v, a ≠ .setField header v := by
      refine NoSetField.apply ?_ h
      split
      case h_1 => exact noSetField_output
      case h_6 | h_7 | h_8 => exact noSetField_push _
      case h_13 => exact noSetField_group
      case h_16 => exact absurd rfl hset
      all_goals
        first
        | exact .ok fun _ _ => nofun
        | exact .bind fun _ => .bind fun _ => .ok fun _ _ => nofun
        | exact .bind fun _ => .error
        | exact .error
    rw [oflActionPrint_of_ne hno]
    exact ⟨fun _ heq => absurd (hnum.trans heq) hset, fun _ => rfl⟩

/-! ## Lists of actions -/

variable {data : Bytes} {fs : Nat → Bytes} {as : List OflAction}

theorem oflUtilsCountOfpActions_eq :
    oflUtilsCountOfpActions data len =
      actionLayout.count (.oflError ofpetBadAction ofpbacBadLen) data len := by
  fun_induction oflUtilsCountOfpActions data len with
  | case1 data len hstep e hsize =>
    exact (Layout.count_error (L := actionLayout) hstep hsize).symm
  | case2 data len hstep n hsize hbad =>
    exact (Layout.count_refused (L := actionLayout) hstep hsize hbad).symm
  | case3 data len hstep n hsize hgood ih =>
    rw [Layout.count_cons (L := actionLayout) hstep hsize (by omega)
      (show 4 ≤ n by omega), ih]
    cases actionLayout.count (.oflError ofpetBadAction ofpbacBadLen) (data.drop n) (len - n) <;> rfl
  | case4 data len hstep =>
    exact (Layout.count_of_lt (L := actionLayout) (show len < 4 by omega)).symm

theorem unpackCounted_eq (n : Nat) : unpackCounted fs n src len =
    unpackAll actionLayout.size (fun k => oflActionsUnpack (fs k)) n src len := by
  induction n generalizing src len with
  | zero => rfl
  | succ n ih =>
    rw [unpackCounted, unpackAll]
    refine bind_congr fun p => bind_congr fun k => ?_
    rw [ih]

/-- Of each action, as they are counted. -/
def ActionsFit (src : Bytes) (len : Nat) : Prop :=
  ∀ a ∈ actionLayout.starts src len, ActionFit a

instance (src : Bytes) (len : Nat) : Decidable (ActionsFit src len) :=
  inferInstanceAs (Decidable (∀ a ∈ actionLayout.starts src len, ActionFit a))

theorem actions_print_iff (h : unpackActions fs src len = .ok (as, rest)) :
    as.forM oflActionPrint = .ok () ↔ ActionsFit src len := by
  obtain ⟨n, hn, h⟩ := bind_eq_ok.mp h
  rw [unpackCounted_eq] at h
  rw [oflUtilsCountOfpActions_eq] at hn
  rw [unpackAll_eq hn] at h
  rw [forM_eq_ok]
  exact unpackEach_forall_iff (fun _ _ _ _ _ hone => action_print_iff hone) h

end Actions

section Flows

/-! ## Flow and group entries -/

variable {fresh : Bytes → Nat → Bytes} {src buf : Bytes} {len rest : Nat}

/-- An instruction with actions has only such that are printed. -/
def InstructionFit (src : Bytes) : Prop :=
  numAt src 0 2 = 3 ∨ numAt src 0 2 = 4 → ActionsFit (src.drop 8) (numAt src 2 2 - 8)

instance (src : Bytes) : Decidable (InstructionFit src) :=
  inferInstanceAs (Decidable (_ → _))

theorem instructionBody_print_iff {i : Instruction} {type ilen : Nat}
    (h : instructionBody fresh type src ilen = .ok (i, rest)) :
    i.print = .ok () ↔ (type = 3 ∨ type = 4 → ActionsFit (src.drop 8) (ilen - 8)) := by
  have hplain {size : Nat} {short : UnpackError} {fields : List (Nat × Nat)}
      (h : plainInstruction type size short src fields ilen = .ok (i, rest)) :
      i.print = .ok () := by
    obtain ⟨-, -, h⟩ := bind_eq_ok.mp h
    obtain ⟨ns, -, h⟩ := bind_eq_ok.mp h
    cases h
    rfl
  have hactions (h : (do
      reject (ilen < 8) badLen
      let list ← unpackActions (fresh src) (src.drop 8) (ilen - 8)
      return (Instruction.actions type list.1, list.2)) = Except.ok (i, rest)) :
      i.print = .ok () ↔ ActionsFit (src.drop 8) (ilen - 8) := by
    obtain ⟨-, -, h⟩ := bind_eq_ok.mp h
    obtain ⟨⟨as, l⟩, has, h⟩ := bind_eq_ok.mp h
    cases h
    exact actions_print_iff has
  unfold instructionBody at h
  split at h
  · obtain ⟨-, -, h⟩ := bind_eq_ok.mp h
    obtain ⟨tableId, -, h⟩ := bind_eq_ok.mp h
    obtain ⟨-, -, h⟩ := bind_eq_ok.mp h
    obtain ⟨ns, -, h⟩ := bind_eq_ok.mp h
    cases h
    exact ⟨fun _ => by simp, fun _ => rfl⟩
  · exact ⟨fun _ => by simp, fun _ => hplain h⟩
  · rw [hactions h]
    exact ⟨fun hfit _ => hfit, fun hfit => hfit (.inl rfl)⟩
  · rw [hactions h]
    exact ⟨fun hfit _ => hfit, fun hfit => hfit (.inr rfl)⟩
  · exact ⟨fun _ => by simp, fun _ => hplain h⟩
  · exact ⟨fun _ => by simp, fun _ => hplain h⟩
  · cases h
  · cases h

theorem instruction_print_iff {i : Instruction}
    (h : oflStructsInstructionsUnpack fresh src len = .ok (i, rest)) :
    i.print = .ok () ↔ InstructionFit src := by
  obtain ⟨-, -, h⟩ := bind_eq_ok.mp h
  obtain ⟨srcLen, hlen, h⟩ := bind_eq_ok.mp h
  obtain ⟨-, -, h⟩ := bind_eq_ok.mp h
  obtain ⟨type, htype, h⟩ := bind_eq_ok.mp h
  obtain ⟨⟨j, ilen⟩, hbody, h⟩ := bind_eq_ok.mp h
  obtain ⟨-, -, h⟩ := bind_eq_ok.mp h
  cases h
  rw [instructionBody_print_iff hbody, readNtoh_eq_ok hlen, readNtoh_eq_ok htype]
  rfl

/-- The fields of a match have no mask that is looked for behind the value. -/
def MatchFit (src buf : Bytes) : Prop :=
  8 < numAt src 2 2 →
    ∀ header ∈ tlvHeaders (buf.take (numAt src 2 2 - 4)), NoneOf overreads header

instance (src buf : Bytes) : Decidable (MatchFit src buf) :=
  inferInstanceAs (Decidable (_ → _))

/-- The length that is kept of a match. -/
def matchLength (src : Bytes) : Nat := if 8 < numAt src 2 2 then numAt src 2 2 - 4 else 0

theorem match_print_iff {m : Match} (h : oflStructsMatchUnpack src buf len = .ok (m, rest)) :
    (m.print = .ok () ↔ MatchFit src buf) ∧ m.length = matchLength src ∧
      rest = sizeSub len (roundUp (numAt src 2 2) 8) := by
  obtain ⟨type, -, h⟩ := bind_eq_ok.mp h
  split at h
  swap
  · cases h
  obtain ⟨length, hlen, h⟩ := bind_eq_ok.mp h
  rw [readNtoh_eq_ok hlen] at h
  unfold MatchFit matchLength
  split at h
  · next hlt =>
    obtain ⟨fields, hfields, h⟩ := bind_eq_ok.mp h
    obtain ⟨rfl, hlength⟩ := memcpy_eq_ok hfields
    rw [List.drop_zero] at h hlength
    split at h
    · cases h
    next m' rest' hpull =>
    cases h
    have hentries := entries_print_iff hpull
    rw [List.take_of_length_le hlength.le] at hentries
    refine ⟨?_, (if_pos hlt).symm, rfl⟩
    unfold Match.print
    rw [if_neg (show numAt src 2 2 - 4 ≠ 0 by omega)]
    change List.forM _ _ = _ ↔ _
    rw [forM_eq_ok, hentries]
    exact ⟨fun hall _ => hall, fun hall => hall hlt⟩
  · next hle =>
    cases h
    exact ⟨⟨fun _ hlt => absurd hlt hle, fun _ => rfl⟩, (if_neg hle).symm, rfl⟩

/-- The instructions of a flow entry begin behind its match. -/
def instructionsAt (src : Bytes) : Bytes :=
  src.drop (roundUp (52 + matchLength (src.drop 48)) 8)

/-- What is left of a flow entry for its instructions, as it is counted down. -/
def instructionsLen (src : Bytes) : Nat :=
  sizeSub (sizeSub (numAt src 0 2) 48) (roundUp (numAt (src.drop 48) 2 2) 8)

/-- A flow entry whose match and instructions are printed. -/
structure FlowStatsFit (src : Bytes) : Prop where
  oflMatch : MatchFit (src.drop 48) (src.drop 52)
  instructions : ∀ i ∈ instructionLayout.starts (instructionsAt src) (instructionsLen src),
    InstructionFit i

instance (src : Bytes) : Decidable (FlowStatsFit src) :=
  decidable_of_iff (MatchFit (src.drop 48) (src.drop 52) ∧
      ∀ i ∈ instructionLayout.starts (instructionsAt src) (instructionsLen src), InstructionFit i)
    ⟨fun h => ⟨h.1, h.2⟩, fun h => ⟨h.1, h.2⟩⟩

theorem flowStats_print_iff {s : FlowStats}
    (h : oflStructsFlowStatsUnpack fresh src len = .ok (s, rest)) :
    s.print = .ok () ↔ FlowStatsFit src := by
  obtain ⟨mlen, -, h⟩ := bind_eq_ok.mp h
  obtain ⟨-, -, h⟩ := bind_eq_ok.mp h
  obtain ⟨srcLen, hlen, h⟩ := bind_eq_ok.mp h
  obtain ⟨-, -, h⟩ := bind_eq_ok.mp h
  obtain ⟨tableId, -, h⟩ := bind_eq_ok.mp h
  obtain ⟨-, -, h⟩ := bind_eq_ok.mp h
  obtain ⟨ns, -, h⟩ := bind_eq_ok.mp h
  obtain ⟨⟨m, slen⟩, hm, h⟩ := bind_eq_ok.mp h
  obtain ⟨⟨is, slen'⟩, his, h⟩ := bind_eq_ok.mp h
  obtain ⟨-, -, h⟩ := bind_eq_ok.mp h
  cases h
  obtain ⟨hmatch, hmlen, rfl⟩ := match_print_iff hm
  have hinsts := unpackRecords_forall_iff (Q := fun i : Instruction => i.print = .ok ())
    (fun _ _ _ _ _ hone => instruction_print_iff hone) his
  rw [readNtoh_eq_ok hlen, hmlen] at hinsts
  unfold FlowStats.print
  rw [bind_eq_ok]
  constructor
  · rintro ⟨_, hp, hi⟩
    exact ⟨hmatch.mp hp, hinsts.mp (forM_eq_ok.mp hi)⟩
  · rintro ⟨hp, hi⟩
    exact ⟨(), hmatch.mpr hp, forM_eq_ok.mpr (hinsts.mpr hi)⟩

/-- A bucket has only actions that are printed. -/
def BucketFit (src : Bytes) : Prop := ActionsFit (src.drop 16) (sizeSub (numAt src 0 2) 16)

instance (src : Bytes) : Decidable (BucketFit src) :=
  inferInstanceAs (Decidable (ActionsFit _ _))

theorem bucket_print_iff {b : Bucket} {gtype : Nat}
    (h : oflStructsBucketUnpack fresh gtype src len = .ok (b, rest)) :
    b.print = .ok () ↔ BucketFit src := by
  obtain ⟨-, -, h⟩ := bind_eq_ok.mp h
  obtain ⟨srcLen, hlen, h⟩ := bind_eq_ok.mp h
  obtain ⟨-, -, h⟩ := bind_eq_ok.mp h
  obtain ⟨weight, -, h⟩ := bind_eq_ok.mp h
  obtain ⟨-, -, h⟩ := bind_eq_ok.mp h
  obtain ⟨-, -, h⟩ := bind_eq_ok.mp h
  obtain ⟨ns, -, h⟩ := bind_eq_ok.mp h
  obtain ⟨⟨as, blen⟩, has, h⟩ := bind_eq_ok.mp h
  obtain ⟨-, -, h⟩ := bind_eq_ok.mp h
  cases h
  rw [readNtoh_eq_ok hlen] at has
  exact actions_print_iff has

/-- So has every bucket of a group. -/
def GroupDescFit (src : Bytes) : Prop :=
  ∀ b ∈ bucketLayout.starts (src.drop 8) (sizeSub (numAt src 0 2) 8), BucketFit b

instance (src : Bytes) : Decidable (GroupDescFit src) :=
  inferInstanceAs (Decidable (∀ b ∈ bucketLayout.starts _ _, BucketFit b))

theorem groupDesc_print_iff {s : GroupDescStats}
    (h : oflStructsGroupDescStatsUnpack fresh src len = .ok (s, rest)) :
    s.print = .ok () ↔ GroupDescFit src := by
  obtain ⟨-, -, h⟩ := bind_eq_ok.mp h
  obtain ⟨srcLen, hlen, h⟩ := bind_eq_ok.mp h
  obtain ⟨-, -, h⟩ := bind_eq_ok.mp h
  obtain ⟨groupId, -, h⟩ := bind_eq_ok.mp h
  obtain ⟨-, -, h⟩ := bind_eq_ok.mp h
  obtain ⟨ns, -, h⟩ := bind_eq_ok.mp h
  obtain ⟨gtype, -, h⟩ := bind_eq_ok.mp h
  obtain ⟨⟨bs, dlen⟩, hbs, h⟩ := bind_eq_ok.mp h
  obtain ⟨-, -, h⟩ := bind_eq_ok.mp h
  cases h
  rw [readNtoh_eq_ok hlen] at hbs
  unfold GroupDescStats.print
  rw [forM_eq_ok]
  exact unpackRecords_forall_iff (Q := fun b : Bucket => b.print = .ok ())
    (fun _ _ _ _ _ hone => bucket_print_iff hone) hbs

end Flows

section Meters

/-! ## Meters -/

variable {src : Bytes} {len rest : Nat}

/-- A band is unpacked only if its type is one of these. -/
def MeterBandFit (src : Bytes) : Prop := numAt src 0 2 ∈ [1, 2, 0xffff]

instance (src : Bytes) : Decidable (MeterBandFit src) :=
  inferInstanceAs (Decidable (numAt src 0 2 ∈ [1, 2, 0xffff]))

theorem meterBand_written_iff {b : Option MeterBand}
    (h : oflStructsMeterBandUnpack src len = .ok (b, rest)) : b ≠ none ↔ MeterBandFit src := by
  obtain ⟨-, -, h⟩ := bind_eq_ok.mp h
  obtain ⟨type, htype, h⟩ := bind_eq_ok.mp h
  obtain ⟨band, hband, h⟩ := bind_eq_ok.mp h
  obtain ⟨n, -, h⟩ := bind_eq_ok.mp h
  cases h
  unfold MeterBandFit
  rw [← readNtoh_eq_ok htype]
  unfold meterBandBody at hband
  split at hband
  case h_4 hone htwo hexp =>
    cases hband
    simp only [List.mem_cons, List.not_mem_nil, or_false]
    exact ⟨fun hb => absurd rfl hb, fun hor => (hor.elim hone (Or.elim · htwo hexp)).elim⟩
  all_goals
    obtain ⟨ns, -, hband⟩ := bind_eq_ok.mp hband
    cases hband
    exact ⟨fun _ => by decide, fun _ => nofun⟩

/-- Every band of a meter is unpacked. -/
def MeterConfigFit (src : Bytes) : Prop :=
  ∀ b ∈ meterBandLayout.starts (src.drop 8) (sizeSub (numAt src 0 2) 8), MeterBandFit b

instance (src : Bytes) : Decidable (MeterConfigFit src) :=
  inferInstanceAs (Decidable (∀ b ∈ meterBandLayout.starts _ _, MeterBandFit b))

theorem meterConfig_print_iff {c : MeterConfig}
    (h : oflStructsMeterConfigUnpack src len = .ok (c, rest)) :
    c.print = .ok () ↔ MeterConfigFit src := by
  obtain ⟨-, -, h⟩ := bind_eq_ok.mp h
  obtain ⟨srcLen, hlen, h⟩ := bind_eq_ok.mp h
  obtain ⟨-, -, h⟩ := bind_eq_ok.mp h
  obtain ⟨ns, -, h⟩ := bind_eq_ok.mp h
  obtain ⟨⟨bs, slen⟩, hbs, h⟩ := bind_eq_ok.mp h
  obtain ⟨-, -, h⟩ := bind_eq_ok.mp h
  cases h
  rw [readNtoh_eq_ok hlen] at hbs
  unfold MeterConfig.print
  rw [forM_eq_ok]
  refine unpackRecords_forall_iff (fun _ _ _ _ _ hone => ?_) hbs
  exact readEntry_eq_ok.trans (meterBand_written_iff hone)

end Meters

section Queues

/-! ## Queues -/

variable {src : Bytes} {len rest : Nat}

/-- A property is unpacked if its type is one of these, and what remains has room for it
and for 16 bytes. -/
structure QueuePropFit (src : Bytes) (len : Nat) : Prop where
  type : numAt src 0 2 ∈ [1, 2, 0xffff]
  room : 16 ≤ len
  length : numAt src 2 2 ≤ len

instance (src : Bytes) (len : Nat) : Decidable (QueuePropFit src len) :=
  decidable_of_iff (numAt src 0 2 ∈ [1, 2, 0xffff] ∧ 16 ≤ len ∧ numAt src 2 2 ≤ len)
    ⟨fun h => ⟨h.1, h.2.1, h.2.2⟩, fun h => ⟨h.type, h.room, h.length⟩⟩

theorem queueProp_fit {p : QueueProp} (h : oflStructsQueuePropUnpack src len = .ok (p, rest)) :
    QueuePropFit src len ∧ rest = len - 16 := by
  obtain ⟨-, -, h⟩ := bind_eq_ok.mp h
  obtain ⟨n, hn, h⟩ := bind_eq_ok.mp h
  obtain ⟨_, hfits, h⟩ := bind_eq_ok.mp h
  obtain ⟨type, htype, h⟩ := bind_eq_ok.mp h
  have hbody {t : Nat} {fields : List (Nat × Nat)} (ht : t ∈ [1, 2, 0xffff]) (heq : type = t)
      (h : queueProp t src fields len = .ok (p, rest)) : QueuePropFit src len ∧ rest = len - 16 := by
    obtain ⟨_, hroom, h⟩ := bind_eq_ok.mp h
    obtain ⟨ns, -, h⟩ := bind_eq_ok.mp h
    cases h
    refine ⟨⟨?_, ?_, ?_⟩, rfl⟩
    · rwa [← readNtoh_eq_ok htype, heq]
    · exact Nat.le_of_not_lt (reject_eq_ok.mp hroom)
    · rw [← readNtoh_eq_ok hn]
      exact Nat.le_of_not_lt (reject_eq_ok.mp hfits)
  split at h
  · exact hbody (by decide) rfl h
  · exact hbody (by decide) rfl h
  · exact hbody (by decide) rfl h
  · cases h

theorem readNtoh_avoids {off k type code : Nat} :
    readNtoh src off k ≠ .error (.oflError type code) := by
  rcases @readNtoh_cases src off k with hok | herr
  · rw [hok]
    nofun
  · rw [herr]
    nofun

theorem numbersAt_avoids {fields : List (Nat × Nat)} {type code : Nat} :
    numbersAt src fields ≠ .error (.oflError type code) := by
  unfold numbersAt
  induction fields with
  | nil => exact nofun
  | cons f fields ih =>
    rw [List.mapM_cons, avoids_bind_iff]
    refine ⟨readNtoh_avoids, fun n _ => ?_⟩
    rw [avoids_bind_iff]
    exact ⟨ih, fun _ _ => nofun⟩

theorem reject_avoids {c : Prop} [Decidable c] {e bad : UnpackError} (h : ¬ c) :
    reject c e ≠ .error bad := by
  rw [reject, if_neg h]
  nofun

/-- A property that fits is unpacked, unless the memory ends. -/
theorem queueProp_avoids {type code : Nat} (hfit : QueuePropFit src len) :
    oflStructsQueuePropUnpack src len ≠ .error (.oflError type code) := by
  obtain ⟨htype, hroom, hlength⟩ := hfit
  have hbody (t : Nat) (fields : List (Nat × Nat)) :
      queueProp t src fields len ≠ .error (.oflError type code) := by
    unfold queueProp
    rw [avoids_bind_iff]
    refine ⟨reject_avoids (by omega), fun _ _ => ?_⟩
    rw [avoids_bind_iff]
    exact ⟨numbersAt_avoids, fun _ _ => nofun⟩
  unfold oflStructsQueuePropUnpack
  rw [avoids_bind_iff]
  refine ⟨reject_avoids (by omega), fun _ _ => ?_⟩
  rw [avoids_bind_iff]
  refine ⟨readNtoh_avoids, fun n hn => ?_⟩
  rw [avoids_bind_iff]
  refine ⟨reject_avoids (by rw [readNtoh_eq_ok hn]; omega), fun _ _ => ?_⟩
  rw [avoids_bind_iff]
  refine ⟨readNtoh_avoids, fun t ht => ?_⟩
  rw [← readNtoh_eq_ok ht] at htype
  split
  · exact hbody 1 _
  · exact hbody 2 _
  · exact hbody 0xffff _
  · simp_all

/-- One pass over a property whose error is not looked at. -/
theorem ignoring_queueProp {o : Option QueueProp}
    (h : ignoring len (oflStructsQueuePropUnpack src len) = .ok (o, rest)) :
    (o ≠ none ↔ QueuePropFit src len) ∧ (QueuePropFit src len → rest = len - 16) := by
  cases hp : oflStructsQueuePropUnpack src len with
  | ok r =>
    obtain ⟨p, l⟩ := r
    rw [hp] at h
    cases h
    obtain ⟨hfit, rfl⟩ := queueProp_fit hp
    exact ⟨⟨fun _ => hfit, fun _ => nofun⟩, fun _ => rfl⟩
  | error e =>
    cases e with
    | oflError type code =>
      have hno : ¬ QueuePropFit src len := fun hfit => queueProp_avoids hfit hp
      rw [hp] at h
      cases h
      exact ⟨⟨fun hne => absurd rfl hne, fun hfit => absurd hfit hno⟩, fun hfit => absurd hfit hno⟩
    | overrun =>
      rw [hp] at h
      cases h

/-- Each of the properties, while what remains shrinks by 16 bytes. -/
def QueuePropsFit : List Bytes → Nat → Prop
  | [], _ => True
  | p :: ps, len => QueuePropFit p len ∧ QueuePropsFit ps (len - 16)

instance instDecidableQueuePropsFit : (ps : List Bytes) → (len : Nat) →
    Decidable (QueuePropsFit ps len)
  | [], _ => inferInstanceAs (Decidable True)
  | p :: ps, len =>
    have := instDecidableQueuePropsFit ps (len - 16)
    inferInstanceAs (Decidable (QueuePropFit p len ∧ QueuePropsFit ps (len - 16)))

theorem queueProps_written_iff {ps : List Bytes} {os : List (Option QueueProp)}
    (h : unpackEach (fun _ prop len => ignoring len (oflStructsQueuePropUnpack prop len)) ps len =
      .ok (os, rest)) :
    ((∀ o ∈ os, o ≠ none) ↔ QueuePropsFit ps len) ∧
      (QueuePropsFit ps len → rest = len - 16 * ps.length) := by
  induction ps generalizing len os with
  | nil =>
    cases h
    exact ⟨⟨fun _ => trivial, fun _ => nofun⟩, fun _ => rfl⟩
  | cons p ps ih =>
    obtain ⟨o, os', l, rfl, ho, hos⟩ := unpackEach_cons_ok h
    obtain ⟨hone, hrest⟩ := ignoring_queueProp ho
    rw [List.forall_mem_cons, hone, QueuePropsFit]
    refine ⟨and_congr_right fun hfit => ?_, fun hfit => ?_⟩
    · rw [(ih hos).1, hrest hfit]
    · have hl := hrest hfit.1
      rw [(ih hos).2 (hl ▸ hfit.2), hl, List.length_cons]
      omega

/-- The properties of a queue, as they are counted: up to the end of what remains. -/
def propertiesOf (src : Bytes) (len : Nat) : List Bytes :=
  queuePropLayout.starts (src.drop 16) (sizeSub len 16)

/-- Every property of a queue is unpacked. -/
def PacketQueueFit (src : Bytes) (len : Nat) : Prop :=
  QueuePropsFit (propertiesOf src len) (sizeSub len 16)

instance (src : Bytes) (len : Nat) : Decidable (PacketQueueFit src len) :=
  inferInstanceAs (Decidable (QueuePropsFit _ _))

theorem packetQueue_print_iff {q : PacketQueue}
    (h : oflStructsPacketQueueUnpack src len = .ok (q, rest)) :
    (q.print = .ok () ↔ PacketQueueFit src len) ∧
      (PacketQueueFit src len → rest = sizeSub len 16 - 16 * (propertiesOf src len).length) := by
  obtain ⟨srcLen, -, h⟩ := bind_eq_ok.mp h
  obtain ⟨-, -, h⟩ := bind_eq_ok.mp h
  obtain ⟨queueId, -, h⟩ := bind_eq_ok.mp h
  obtain ⟨⟨os, l⟩, hos, h⟩ := bind_eq_ok.mp h
  cases h
  obtain ⟨n, hn, hall⟩ := bind_eq_ok.mp hos
  rw [unpackAll_eq hn] at hall
  have hprops := queueProps_written_iff hall
  refine ⟨?_, hprops.2⟩
  rw [← (hprops.1.trans Iff.rfl : _ ↔ PacketQueueFit src len), PacketQueue.print, forM_eq_ok]
  exact forall₂_congr fun _ _ => readEntry_eq_ok

/-- The queues, each with what the properties of those before it left over. -/
def PacketQueuesFit : List Bytes → Nat → Prop
  | [], _ => True
  | q :: qs, len =>
    PacketQueueFit q len ∧
      PacketQueuesFit qs (sizeSub len 16 - 16 * (propertiesOf q len).length)

instance instDecidablePacketQueuesFit : (qs : List Bytes) → (len : Nat) →
    Decidable (PacketQueuesFit qs len)
  | [], _ => inferInstanceAs (Decidable True)
  | q :: qs, len =>
    have := instDecidablePacketQueuesFit qs (sizeSub len 16 - 16 * (propertiesOf q len).length)
    inferInstanceAs (Decidable (PacketQueueFit q len ∧ PacketQueuesFit qs _))

theorem packetQueues_print_iff {qs : List Bytes} {queues : List PacketQueue}
    (h : unpackEach (fun _ => oflStructsPacketQueueUnpack) qs len = .ok (queues, rest)) :
    queues.forM (·.print) = .ok () ↔ PacketQueuesFit qs len := by
  rw [forM_eq_ok]
  induction qs generalizing len queues with
  | nil =>
    cases h
    exact ⟨fun _ => trivial, fun _ => nofun⟩
  | cons q qs ih =>
    obtain ⟨x, xs, l, rfl, hx, hxs⟩ := unpackEach_cons_ok h
    obtain ⟨hone, hrest⟩ := packetQueue_print_iff hx
    rw [List.forall_mem_cons, hone, PacketQueuesFit]
    refine and_congr_right fun hfit => ?_
    rw [ih hxs, hrest hfit]

end Queues

end Nox.Ofl
