import Nox.Oxm.Codec

/-!
# Packing a match and reading it back

`oxm_put_match` writes the entries in *wire order*: the four prerequisite
fields first, then all others in the order of the hash map.  `oxm_pull_match`
feeds them one by one into an empty match.  An entry comes back as it went in
(`echo`), except for a tunnel id; an `IN_PHY_PORT` entry comes back as two, and
a `VLAN_PCP` entry beside a `VLAN_VID` of `OFPVID_NONE` not at all.  So the
round trip succeeds exactly when every entry survives (`roundTrips_iff`).
-/

namespace Nox.Oxm

open OxmFieldIndex

/-! ## Wire order -/

/-- The entries with a given header. -/
def withHeader (h : UInt32) (es : List OflMatchTlv) : List OflMatchTlv :=
  es.filter (·.header == h)

/-- The prerequisite headers in the order they are written. -/
def requisites : List UInt32 :=
  [inPort.header, ethType.header, vlanVid.header, ipProto.header]

/-- The entries in the order `oxm_put_match` writes them. -/
def wireOrder (es : List OflMatchTlv) : List OflMatchTlv :=
  requisites.flatMap (withHeader · es) ++ es.filter fun e => !isRequisite e.header

theorem isRequisite_eq (h : UInt32) : isRequisite h = requisites.contains h := by
  simp [isRequisite, requisites, Bool.or_assoc, Bool.beq_eq_decide_eq]

/-- Taking out the entries of some headers one after the other loses none. -/
theorem perm_flatMap_withHeader {hs : List UInt32} (hnd : hs.Nodup) (es : List OflMatchTlv) :
    (hs.flatMap (withHeader · es) ++ es.filter fun e => !hs.contains e.header).Perm es := by
  induction hs generalizing es with
  | nil => simp
  | cons h hs ih =>
    obtain ⟨hnotin, hnd⟩ := List.nodup_cons.mp hnd
    have hothers : hs.flatMap (withHeader · es) =
        hs.flatMap (withHeader · (es.filter fun e => !(e.header == h))) := by
      refine List.flatMap_congr fun h' hh' => ?_
      rw [withHeader, withHeader, List.filter_filter]
      refine List.filter_congr fun e _ => ?_
      cases heq : e.header == h' with
      | false => simp
      | true =>
        have hne : e.header ≠ h := by
          rintro rfl
          exact hnotin (beq_iff_eq.mp heq ▸ hh')
        simp [hne]
    have hlast : (es.filter fun e => !(h :: hs).contains e.header) =
        (es.filter fun e => !(e.header == h)).filter fun e => !hs.contains e.header := by
      rw [List.filter_filter]
      refine List.filter_congr fun e _ => ?_
      rw [List.contains_cons, Bool.not_or, Bool.and_comm]
    rw [List.flatMap_cons, List.append_assoc, hothers, hlast]
    refine ((ih hnd _).append_left _).trans ?_
    exact List.filter_append_perm (fun e => e.header == h) es

theorem wireOrder_perm (es : List OflMatchTlv) : (wireOrder es).Perm es := by
  unfold wireOrder
  simp only [isRequisite_eq]
  exact perm_flatMap_withHeader (by decide) es

/-- The special cases for the prerequisite fields write what the general one would. -/
theorem oxmPutTlv_requisites {e : OflMatchTlv} :
    (e.header = inPort.header →
      oxmPut32 e.header (hton 4 (load 4 e.value)) = oxmPutTlv e) ∧
    (e.header = ethType.header →
      oxmPut16 e.header (hton 2 (load 2 e.value)) = oxmPutTlv e) ∧
    (e.header = vlanVid.header →
      oxmPut16 e.header (hton 2 (load 2 e.value)) = oxmPutTlv e) ∧
    (e.header = ipProto.header → oxmPut8 e.header (load 1 e.value) = oxmPutTlv e) := by
  have hin : oxmHasmask inPort.header = false ∧ oxmLength inPort.header = 4 ∧
      isIpv4Header inPort.header = false := by decide
  have heth : oxmHasmask ethType.header = false ∧ oxmLength ethType.header = 2 := by decide
  have hvid : oxmHasmask vlanVid.header = false ∧ oxmLength vlanVid.header = 2 := by decide
  have hproto : oxmHasmask ipProto.header = false ∧ oxmLength ipProto.header = 1 := by decide
  refine ⟨fun h => ?_, fun h => ?_, fun h => ?_, fun h => ?_⟩
  · simp [oxmPutTlv, h, hin]
  · simp [oxmPutTlv, h, heth]
  · simp [oxmPutTlv, h, hvid]
  · simp [oxmPutTlv, h, hproto]

theorem flatMap_withHeader {h : UInt32} {g : OflMatchTlv → Bytes} {m : OflMatch}
    (hg : ∀ e : OflMatchTlv, e.header = h → g e = oxmPutTlv e) :
    (m.withHash h).flatMap g = (withHeader h m.entries).flatMap oxmPutTlv := by
  rw [OflMatch.withHash_eq]
  refine List.flatMap_congr fun e he => hg e ?_
  simpa using (List.mem_filter.mp he).2

theorem flatMap_not_requisite (es : List OflMatchTlv) :
    es.flatMap (fun e => if isRequisite e.header then [] else oxmPutTlv e) =
      (es.filter fun e => !isRequisite e.header).flatMap oxmPutTlv := by
  induction es with
  | nil => rfl
  | cons e es ih =>
    rw [List.flatMap_cons, ih, List.filter_cons]
    cases isRequisite e.header <;> simp

/-- `oxm_put_match` writes the entries in wire order, then padding. -/
theorem oxmPutMatch_eq (buf : Bytes) (m : OflMatch) :
    ∃ pad, oxmPutMatch buf m =
      (buf ++ ((wireOrder m.entries).flatMap oxmPutTlv ++ pad),
        ((wireOrder m.entries).flatMap oxmPutTlv).length) := by
  have hbody : oxmPutRequisites m ++
      m.entries.flatMap (fun e => if isRequisite e.header then [] else oxmPutTlv e) =
        (wireOrder m.entries).flatMap oxmPutTlv := by
    unfold oxmPutRequisites wireOrder requisites
    rw [flatMap_withHeader fun e => oxmPutTlv_requisites.1,
      flatMap_withHeader fun e => oxmPutTlv_requisites.2.1,
      flatMap_withHeader fun e => oxmPutTlv_requisites.2.2.1,
      flatMap_withHeader fun e => oxmPutTlv_requisites.2.2.2, flatMap_not_requisite]
    simp
  unfold oxmPutMatch
  simp only [hbody, List.append_assoc]
  exact ⟨_, rfl⟩

/-! ## Stages -/

/-- The position of a header in wire order. -/
def stage (h : UInt32) : Nat := requisites.idxOf h

/-- The entries come stage by stage, from stage `n` on. -/
def StagedFrom (n : Nat) (es : List OflMatchTlv) : Prop :=
  es.Pairwise (fun a b => stage a.header ≤ stage b.header) ∧ ∀ e ∈ es, n ≤ stage e.header

theorem StagedFrom.append_block {n : Nat} {block es : List OflMatchTlv}
    (hblock : ∀ e ∈ block, stage e.header = n) (hes : StagedFrom (n + 1) es) :
    StagedFrom n (block ++ es) := by
  obtain ⟨hpair, hfrom⟩ := hes
  refine ⟨List.pairwise_append.mpr ⟨?_, hpair, ?_⟩, ?_⟩
  · refine List.pairwise_iff_getElem.mpr fun i j hi hj _ => ?_
    rw [hblock _ (List.getElem_mem hi), hblock _ (List.getElem_mem hj)]
  · intro a ha b hb
    have hb' := hfrom b hb
    rw [hblock a ha]
    omega
  · intro e he
    rcases List.mem_append.mp he with he | he
    · rw [hblock e he]
    · exact Nat.le_of_succ_le (hfrom e he)

/-- Entries in wire order come stage by stage. -/
theorem wireOrder_staged (es : List OflMatchTlv) : StagedFrom 0 (wireOrder es) := by
  have hblock {h : UInt32} {n : Nat} (hst : stage h = n) :
      ∀ e ∈ withHeader h es, stage e.header = n := by
    intro e he
    have heq : e.header = h := by simpa [withHeader] using (List.mem_filter.mp he).2
    rw [heq, hst]
  have hothers : ∀ e ∈ es.filter (fun e => !isRequisite e.header), stage e.header = 4 := by
    intro e he
    have hnot := (List.mem_filter.mp he).2
    rw [isRequisite_eq] at hnot
    exact List.idxOf_of_notMem (by simpa using hnot)
  have hlast : StagedFrom 4 (es.filter (fun e => !isRequisite e.header)) := by
    rw [← List.append_nil (es.filter _)]
    exact StagedFrom.append_block hothers ⟨List.Pairwise.nil, by simp⟩
  unfold wireOrder requisites
  simp only [List.flatMap_cons, List.flatMap_nil, List.append_nil, List.append_assoc]
  exact .append_block (hblock (by decide)) <| .append_block (hblock (by decide)) <|
    .append_block (hblock (by decide)) <| .append_block (hblock (by decide)) hlast

/-- Once an entry is reached, all entries of earlier stages are behind it. -/
theorem withHeader_of_stage {h : UInt32} {pre post : List OflMatchTlv} {e : OflMatchTlv}
    (hst : StagedFrom 0 (pre ++ e :: post)) (hlt : stage h < stage e.header) :
    withHeader h (pre ++ e :: post) = withHeader h pre := by
  have hpost := (List.pairwise_append.mp hst.1).2.1
  have hnone : withHeader h (e :: post) = [] := by
    refine List.filter_eq_nil_iff.mpr fun t ht => ?_
    have hle : stage e.header ≤ stage t.header := by
      rcases List.mem_cons.mp ht with rfl | ht
      · exact le_refl _
      · exact List.rel_of_pairwise_cons hpost ht
    simp only [beq_iff_eq]
    rintro rfl
    omega
  rw [withHeader, List.filter_append, ← withHeader, ← withHeader, hnone, List.append_nil]

/-! ## What the decoder asks of the entries before -/

/-- `oxm_prereqs_ok` on a list of entries. -/
def prereqsOn (f : OxmField) (es : List OflMatchTlv) : Bool :=
  (f.nwProto == 0 ||
    (withHeader ipProto.header es).all fun t => f.nwProto == load 1 t.value) &&
  (f.dlType.1 == 0 ||
    (withHeader ethType.header es).any fun t =>
      f.dlType.1 == load 2 t.value || (f.dlType.2 != 0 && f.dlType.2 == load 2 t.value))

theorem oxmPrereqsOk_eq (f : OxmField) (m : OflMatch) :
    oxmPrereqsOk f m = prereqsOn f m.entries := by
  unfold oxmPrereqsOk
  rw [OflMatch.withHash_eq, OflMatch.withHash_eq]
  rfl

/-- The value checks of `parse_oxm_entry`. -/
def Admissible (i : OxmFieldIndex) (v : Bytes) : Prop :=
  match i with
  | vlanVid | vlanVidW => load 2 v ≤ ofpvidPresent + vlanVidMax
  | ipDscp => load 1 v &&& 0xc0 = 0
  | _ => True

/-- A `VLAN_VID` entry other than `OFPVID_NONE`, as `VLAN_PCP` asks for. -/
def HasVlan (es : List OflMatchTlv) : Prop :=
  ∃ t ∈ es, t.header = vlanVid.header ∧ load 2 t.value ≠ ofpvidNone

/-- The entry as it comes back. -/
def echo (e : OflMatchTlv) : OflMatchTlv :=
  if e.header = tunnelId.header ∨ e.header = tunnelIdW.header then
    ⟨e.header, flipWords e.header e.value⟩
  else e

/-- The decoder stores the entry when it has read the entries `acc` before. -/
structure Fits (acc : List OflMatchTlv) (e : OflMatchTlv) (f : OxmField) : Prop where
  lookup : oxmFieldLookup e.header = some f
  index_ne : f.index ≠ inPhyPort
  prereqs : prereqsOn f acc = true
  fresh : ∀ t ∈ acc, t.header ≠ e.header
  admissible : Admissible f.index e.value
  vlan : f.index = vlanPcp → HasVlan acc

@[simp] theorem echo_header (e : OflMatchTlv) : (echo e).header = e.header := by
  unfold echo
  split <;> rfl

theorem hton_leNat {k : Nat} {v : Bytes} (h : v.length = k) :
    hton k (leNat v) = leNat v.reverse := by
  rw [hton, leBytes_leNat_of_length h]

section Payload

variable {e : OflMatchTlv} {f : OxmField} (hl : oxmFieldLookup e.header = some f) (hs : Sized e)

include hl hs

theorem value_length_known : e.value.length =
    if oxmHasmask e.header then wordSize e.header + wordSize e.header
    else wordSize e.header := by
  rw [hs.length_value, ← header_of_lookup hl]
  exact length_of_mem (mem_oxmFields_of_lookup hl)

/-- Encoder and decoder undo each other's swaps except for the tunnel id. -/
theorem stored_payload : ⟨e.header, stored f.index (payload e)⟩ = echo e := by
  have hf := mem_oxmFields_of_lookup hl
  have hh : e.header = f.index.header := by rw [← header_of_lookup hl, header_eq_of_mem hf]
  have hflip := flipWords_flipWords (value_length_known hl hs)
  have htun : isTunnelId f.index =
      decide (e.header = tunnelId.header ∨ e.header = tunnelIdW.header) := by
    rw [hh]
    clear hl hs hh hflip
    revert f
    decide
  unfold stored payload pullSwaps echo
  rw [← hh, htun]
  have hswap : (e.header = tunnelId.header ∨ e.header = tunnelIdW.header) →
      putSwaps e.header = true := by
    rintro (h | h) <;> rw [h] <;> decide
  by_cases ht : e.header = tunnelId.header ∨ e.header = tunnelIdW.header
  · simp [ht, hswap ht]
  · cases hp : putSwaps e.header <;> simp [ht, hflip]

/-- The decoder checks the value the encoder was given. -/
theorem load_payload_swapped (hi : f.index = vlanVid ∨ f.index = vlanVidW) :
    hton 2 (load 2 (payload e)) = load 2 e.value := by
  have hf := mem_oxmFields_of_lookup hl
  have hh : e.header = f.index.header := by rw [← header_of_lookup hl, header_eq_of_mem hf]
  have hw : putSwaps e.header = true ∧ wordSize e.header = 2 := by
    rcases hi with hi | hi <;> rw [hh, hi] <;> decide
  have hlen := value_length_known hl hs
  have hle : 2 ≤ e.value.length := by
    split at hlen <;> omega
  rw [payload, if_pos hw.1, load, flipWords, hw.2, List.take_left' (by simp [hle]),
    hton_leNat (by simp [hle]), List.reverse_reverse, load]

omit hs in
theorem load_payload_byte (hi : f.index = ipDscp) : load 1 (payload e) = load 1 e.value := by
  have hf := mem_oxmFields_of_lookup hl
  have hh : e.header = f.index.header := by rw [← header_of_lookup hl, header_eq_of_mem hf]
  have hw : putSwaps e.header = false := by rw [hh, hi]; decide
  simp [payload, hw]

/-- `parse_oxm_entry` refuses inadmissible values and a `VLAN_PCP` without `VLAN_VID`. -/
theorem parseError_eq_none_iff (m : OflMatch) :
    parseError m f.index (payload e) = none ↔
      Admissible f.index e.value ∧
        (f.index = vlanPcp → checkPresentPrereq m vlanVid.header = true) := by
  cases hi : f.index
  case vlanVid =>
    simp [parseError, Admissible, load_payload_swapped hl hs (.inl hi)]
  case vlanVidW =>
    simp [parseError, Admissible, load_payload_swapped hl hs (.inr hi)]
  case ipDscp => simp [parseError, Admissible, load_payload_byte hl hi]
  case vlanPcp => simp [parseError, Admissible]
  all_goals simp [parseError, Admissible]

end Payload

/-- The headers of the entries are pairwise distinct. -/
def Distinct (es : List OflMatchTlv) : Prop := (es.map (·.header)).Nodup

instance (es : List OflMatchTlv) : Decidable (Distinct es) :=
  inferInstanceAs (Decidable (es.map (·.header)).Nodup)

theorem Distinct.perm {es es' : List OflMatchTlv} (h : Distinct es) (hp : es.Perm es') :
    Distinct es' :=
  (hp.map _).nodup_iff.mp h

/-- Under distinct headers a lookup finds at most one entry. -/
theorem withHeader_cases {h : UInt32} {es : List OflMatchTlv} (hnd : Distinct es) :
    withHeader h es = [] ∨ ∃ t, withHeader h es = [t] := by
  have hsub : ((withHeader h es).map (·.header)).Nodup :=
    hnd.sublist ((List.filter_sublist (l := es)).map _)
  have hall : ∀ t ∈ withHeader h es, t.header = h := by
    intro t ht
    simpa [withHeader] using (List.mem_filter.mp ht).2
  match hw : withHeader h es with
  | [] => exact .inl rfl
  | [t] => exact .inr ⟨t, rfl⟩
  | t :: t' :: ts =>
    rw [hw] at hsub hall
    have heq : t.header = t'.header := by rw [hall t (by simp), hall t' (by simp)]
    simp [heq] at hsub

theorem checkOxmDup_eq_false_iff {m : OflMatch} {f : OxmField} :
    checkOxmDup m f = false ↔ ∀ t ∈ m.entries, t.header ≠ f.header := by
  rw [checkOxmDup, OflMatch.withHash_eq]
  simp [List.filter_eq_nil_iff]

/-- `VLAN_PCP` is stored when the one `VLAN_VID` entry before it is not `OFPVID_NONE`. -/
theorem vlanPcp_stored_iff {m : OflMatch} (hnd : Distinct m.entries) :
    checkPresentPrereq m vlanVid.header = true ∧ parseDrops m vlanPcp = false ↔
      HasVlan m.entries := by
  have hhas : HasVlan m.entries ↔
      ∃ t ∈ withHeader vlanVid.header m.entries, load 2 t.value ≠ ofpvidNone := by
    unfold HasVlan withHeader
    constructor
    · rintro ⟨t, ht, hh, hv⟩
      exact ⟨t, List.mem_filter.mpr ⟨ht, by simp [hh]⟩, hv⟩
    · rintro ⟨t, ht, hv⟩
      obtain ⟨ht, hh⟩ := List.mem_filter.mp ht
      exact ⟨t, ht, by simpa using hh, hv⟩
  rw [hhas, checkPresentPrereq, parseDrops, getOxmValue, OflMatch.withHash_eq, ← withHeader]
  rcases withHeader_cases (h := vlanVid.header) hnd with hw | ⟨t, hw⟩ <;> simp [hw]

theorem Fits.perm {acc acc' : List OflMatchTlv} {e : OflMatchTlv} {f : OxmField}
    (h : Fits acc e f) (hp : acc.Perm acc') : Fits acc' e f where
  lookup := h.lookup
  index_ne := h.index_ne
  prereqs := by
    have hpre := h.prereqs
    unfold prereqsOn withHeader at hpre ⊢
    rwa [(hp.filter _).all_eq, (hp.filter _).any_eq] at hpre
  fresh := fun t ht => h.fresh t (hp.mem_iff.mpr ht)
  admissible := h.admissible
  vlan := fun hi => by
    obtain ⟨t, ht, hv⟩ := h.vlan hi
    exact ⟨t, hp.mem_iff.mp ht, hv⟩

/-! ## Passes over encoded entries -/

section Pass

variable {m m' : OflMatch} {e : OflMatchTlv} {f : OxmField} {rest : Bytes}

/-- An entry that fits is stored as its echo. -/
theorem pullEntry_of_fits (rest : Bytes) (hs : Sized e) (hnd : Distinct m.entries)
    (hfit : Fits m.entries e f) :
    ∃ v, pullEntry m e.header (oxmPutTlv e ++ rest) = .ok (matchPut m e.header v) ∧
      ⟨e.header, v⟩ = echo e := by
  have hh := header_of_lookup hfit.lookup
  have hvlan (hi : f.index = vlanPcp) := (vlanPcp_stored_iff hnd).mpr (hfit.vlan hi)
  refine ⟨_, pullEntry_stores hfit.lookup hs hfit.index_ne ?_ ?_ ?_ ?_,
    stored_payload hfit.lookup hs⟩
  · rw [oxmPrereqsOk_eq]
    exact hfit.prereqs
  · rw [checkOxmDup_eq_false_iff, hh]
    exact hfit.fresh
  · rw [parseError_eq_none_iff hfit.lookup hs]
    exact ⟨hfit.admissible, fun hi => (hvlan hi).1⟩
  · by_cases hi : f.index = vlanPcp
    · rw [hi]
      exact (hvlan hi).2
    · simp [parseDrops, hi]

/-- A pass stores an entry that fits, drops it, or doubles an `IN_PHY_PORT`. -/
theorem fits_of_pullEntry (hl : oxmFieldLookup e.header = some f) (hs : Sized e)
    (hnd : Distinct m.entries)
    (h : pullEntry m e.header (oxmPutTlv e ++ rest) = .ok m') :
    (∃ v, Fits m.entries e f ∧ m' = matchPut m e.header v ∧ ⟨e.header, v⟩ = echo e) ∨
      m' = m ∨
      (f.index = inPhyPort ∧ ∃ v w, w.length = 8 ∧
        m' = matchPut (matchPut m e.header v) e.header w) := by
  obtain ⟨hpre, hdup, hphy | hdrop | ⟨hi, herr, hd, hm'⟩⟩ := pullEntry_cases hl hs h
  · exact .inr (.inr hphy)
  · exact .inr (.inl hdrop.2)
  · rw [parseError_eq_none_iff hl hs] at herr
    rw [oxmPrereqsOk_eq] at hpre
    rw [checkOxmDup_eq_false_iff, header_of_lookup hl] at hdup
    have hfit : Fits m.entries e f :=
      { lookup := hl, index_ne := hi, prereqs := hpre, fresh := hdup, admissible := herr.1
        vlan := fun hv => (vlanPcp_stored_iff hnd).mp ⟨herr.2 hv, hv ▸ hd⟩ }
    exact .inl ⟨_, hfit, hm', stored_payload hl hs⟩

end Pass

/-- Entries each of which fits behind the echoes of those before it. -/
inductive Enter : List OflMatchTlv → List OflMatchTlv → Prop
  | nil {acc} : Enter acc []
  | cons {acc e es f} : Fits acc e f → Enter (echo e :: acc) es → Enter acc (e :: es)

theorem distinct_cons_echo {acc : List OflMatchTlv} {e : OflMatchTlv} {f : OxmField}
    (hnd : Distinct acc) (hfit : Fits acc e f) : Distinct (echo e :: acc) := by
  refine List.nodup_cons.mpr ⟨?_, hnd⟩
  intro hmem
  obtain ⟨t, ht, heq⟩ := List.mem_map.mp hmem
  exact hfit.fresh t ht (by simpa using heq)

/-- Entries that enter are all stored, as their echoes. -/
theorem feed_of_enter {rest : Bytes} {acc es : List OflMatchTlv} (h : Enter acc es)
    (hs : ∀ e ∈ es, Sized e) {m : OflMatch} (hp : m.entries.Perm acc) (hnd : Distinct acc) :
    ∃ m', feed rest m es = .ok m' ∧ m'.entries.Perm (es.map echo ++ acc) := by
  induction h generalizing m with
  | nil => exact ⟨m, rfl, by simpa using hp⟩
  | @cons acc e es f hfit _ ih =>
    have hse := hs e List.mem_cons_self
    obtain ⟨v, hpull, hecho⟩ := pullEntry_of_fits (es.flatMap oxmPutTlv ++ rest) hse
      (hnd.perm hp.symm) (hfit.perm hp.symm)
    have hp' : (matchPut m e.header v).entries.Perm (echo e :: acc) := by
      rw [← hecho]
      exact (entries_matchPut _ _ _).trans (hp.cons _)
    obtain ⟨m', hfeed, hperm⟩ := ih (fun t ht => hs t (List.mem_cons_of_mem e ht)) hp'
      (distinct_cons_echo hnd hfit)
    refine ⟨m', ?_, hperm.trans ?_⟩
    · simp only [feed, hpull, bind, Except.bind]
      exact hfeed
    · exact List.perm_middle

theorem feed_cons_ok {rest : Bytes} {m m' : OflMatch} {e : OflMatchTlv} {es : List OflMatchTlv}
    (h : feed rest m (e :: es) = .ok m') :
    ∃ m₁ f, oxmFieldLookup e.header = some f ∧
      pullEntry m e.header (oxmPutTlv e ++ (es.flatMap oxmPutTlv ++ rest)) = .ok m₁ ∧
      feed rest m₁ es = .ok m' := by
  simp only [feed, bind, Except.bind] at h
  split at h
  · cases h
  next m₁ hpull =>
  cases hl : oxmFieldLookup e.header with
  | none => simp [pullEntry_unknown hl] at hpull
  | some f => exact ⟨m₁, f, rfl, hpull, h⟩

/-- What a feed has stored stays. -/
theorem feed_mono {rest : Bytes} {es : List OflMatchTlv} (hs : ∀ e ∈ es, Sized e)
    {m m' : OflMatch} (h : feed rest m es = .ok m') : ∀ t ∈ m.entries, t ∈ m'.entries := by
  induction es generalizing m with
  | nil =>
    cases h
    exact fun t ht => ht
  | cons e es ih =>
    intro t ht
    obtain ⟨m₁, f, hl, hpull, hfeed⟩ := feed_cons_ok h
    refine ih (fun t ht => hs t (List.mem_cons_of_mem e ht)) hfeed t ?_
    have hput {m : OflMatch} {v : Bytes} (ht : t ∈ m.entries) :
        t ∈ (matchPut m e.header v).entries :=
      (entries_matchPut _ _ _).mem_iff.mpr (List.mem_cons_of_mem _ ht)
    obtain ⟨-, -, ⟨-, v, w, -, rfl⟩ | ⟨-, rfl⟩ | ⟨-, -, -, rfl⟩⟩ :=
      pullEntry_cases hl (hs e List.mem_cons_self) hpull
    · exact hput (hput ht)
    · exact ht
    · exact hput ht

/-- An `IN_PHY_PORT` entry leaves eight bytes behind under its header. -/
theorem feed_inPhyPort {rest : Bytes} {es : List OflMatchTlv} (hs : ∀ e ∈ es, Sized e)
    {m m' : OflMatch} (h : feed rest m es = .ok m') {e : OflMatchTlv} (he : e ∈ es)
    (hphy : e.header = inPhyPort.header) :
    ∃ t ∈ m'.entries, t.header = inPhyPort.header ∧ t.value.length = 8 := by
  induction es generalizing m with
  | nil => cases he
  | cons e' es ih =>
    have hs' := fun t ht => hs t (List.mem_cons_of_mem e' ht)
    obtain ⟨m₁, f, hl, hpull, hfeed⟩ := feed_cons_ok h
    rcases List.mem_cons.mp he with rfl | he
    · have hidx : f = defineField inPhyPort oxmDlNone 0 false := by
        rw [hphy] at hl
        exact (Option.some.inj hl).symm
      obtain ⟨-, -, ⟨-, v, w, hw, rfl⟩ | ⟨hd, -⟩ | ⟨hne, -⟩⟩ :=
        pullEntry_cases hl (hs e List.mem_cons_self) hpull
      · refine ⟨⟨e.header, w⟩, feed_mono hs' hfeed _ ?_, hphy, hw⟩
        exact (entries_matchPut _ _ _).mem_iff.mpr List.mem_cons_self
      · rw [hidx] at hd
        exact absurd hd (by simp [parseDrops, defineField])
      · exact absurd (by rw [hidx]; rfl) hne
    · exact ih hs' hfeed he

/-- Without `IN_PHY_PORT` a feed stores at most one entry a pass, and if it
stores one each pass, all entries have entered. -/
theorem enter_of_feed {rest : Bytes} {es : List OflMatchTlv} (hs : ∀ e ∈ es, Sized e)
    (hphy : ∀ e ∈ es, e.header ≠ inPhyPort.header) {m m' : OflMatch} {acc : List OflMatchTlv}
    (hp : m.entries.Perm acc) (hnd : Distinct acc) (h : feed rest m es = .ok m') :
    m'.entries.length ≤ es.length + acc.length ∧
      (m'.entries.length = es.length + acc.length →
        Enter acc es ∧ m'.entries.Perm (es.map echo ++ acc)) := by
  induction es generalizing m acc with
  | nil =>
    cases h
    exact ⟨by simp [hp.length_eq], fun _ => ⟨.nil, by simpa using hp⟩⟩
  | cons e es ih =>
    have hs' := fun t ht => hs t (List.mem_cons_of_mem e ht)
    have hphy' := fun t ht => hphy t (List.mem_cons_of_mem e ht)
    obtain ⟨m₁, f, hl, hpull, hfeed⟩ := feed_cons_ok h
    rcases fits_of_pullEntry hl (hs e List.mem_cons_self) (hnd.perm hp.symm) hpull with
      ⟨v, hfit, rfl, hecho⟩ | rfl | ⟨hi, -⟩
    · have hfit' := hfit.perm hp
      have hp' : (matchPut m e.header v).entries.Perm (echo e :: acc) := by
        rw [← hecho]
        exact (entries_matchPut _ _ _).trans (hp.cons _)
      obtain ⟨hle, heq⟩ := ih hs' hphy' hp' (distinct_cons_echo hnd hfit') hfeed
      simp only [List.length_cons] at hle heq ⊢
      refine ⟨by omega, fun hlen => ?_⟩
      obtain ⟨henter, hperm⟩ := heq (by omega)
      exact ⟨.cons hfit' henter, hperm.trans List.perm_middle⟩
    · obtain ⟨hle, -⟩ := ih hs' hphy' hp hnd hfeed
      simp only [List.length_cons]
      exact ⟨by omega, fun hlen => by omega⟩
    · have hh := header_eq_of_mem (mem_oxmFields_of_lookup hl)
      rw [header_of_lookup hl, hi] at hh
      exact absurd hh (hphy e List.mem_cons_self)

theorem distinct_of_enter {acc es : List OflMatchTlv} (h : Enter acc es) (hnd : Distinct acc) :
    Distinct (es ++ acc) := by
  induction h with
  | nil => exact hnd
  | @cons acc e es f hfit _ ih =>
    have hrest := ih (distinct_cons_echo hnd hfit)
    have hp : (es ++ echo e :: acc).Perm (echo e :: (es ++ acc)) := List.perm_middle
    have hcons := hrest.perm hp
    simpa [Distinct] using hcons

/-- Entries that come back unchanged have entered when each fits behind those before it. -/
theorem enter_iff {acc es : List OflMatchTlv} (hecho : ∀ e ∈ es, echo e = e) :
    Enter acc es ↔ ∀ pre e post, es = pre ++ e :: post → ∃ f, Fits (pre ++ acc) e f := by
  induction es generalizing acc with
  | nil => simpa using Enter.nil
  | cons e es ih =>
    have hecho' := fun t ht => hecho t (List.mem_cons_of_mem e ht)
    have hmid (pre : List OflMatchTlv) : (pre ++ echo e :: acc).Perm (e :: pre ++ acc) := by
      rw [hecho e List.mem_cons_self]
      exact List.perm_middle
    constructor
    · intro h pre t post hsplit
      cases h with
      | cons hfit htail =>
        cases pre with
        | nil =>
          cases hsplit
          exact ⟨_, hfit⟩
        | cons p pre =>
          obtain ⟨rfl, hrest⟩ := List.cons.inj hsplit
          obtain ⟨f, hf⟩ := (ih hecho').mp htail pre t post hrest
          exact ⟨f, hf.perm (hmid pre)⟩
    · intro h
      obtain ⟨f, hfit⟩ := h [] e es rfl
      refine .cons hfit ((ih hecho').mpr fun pre t post hsplit => ?_)
      obtain ⟨f', hf'⟩ := h (e :: pre) t post (by rw [hsplit]; rfl)
      exact ⟨f', hf'.perm (hmid pre).symm⟩

/-! ## The round trip -/

/-- Packing a match and reading the bytes back gives the same entries. -/
def RoundTrips (buf : Bytes) (m : OflMatch) : Prop :=
  ∃ m' rest, oxmPullMatch ((oxmPutMatch buf m).1.drop buf.length) (oxmPutMatch buf m).2 =
      .ok (m', rest) ∧ m'.entries.Perm m.entries

/-- A match over known fields with distinct headers, satisfied prerequisites
and admissible values. -/
structure WellFormed (m : OflMatch) : Prop where
  distinct : Distinct m.entries
  known : ∀ e ∈ m.entries, ∃ f, oxmFieldLookup e.header = some f ∧ oxmPrereqsOk f m = true ∧
    Admissible f.index e.value

/-- The decoder keeps an entry of a well-formed match as it is. -/
structure Survives (es : List OflMatchTlv) (e : OflMatchTlv) : Prop where
  not_inPhyPort : e.header ≠ inPhyPort.header
  tunnelId_symmetric : e.header = tunnelId.header ∨ e.header = tunnelIdW.header →
    flipWords e.header e.value = e.value
  vlanPcp_vlan : e.header = vlanPcp.header → HasVlan es

theorem echo_eq_iff {e : OflMatchTlv} :
    echo e = e ↔ (e.header = tunnelId.header ∨ e.header = tunnelIdW.header →
      flipWords e.header e.value = e.value) := by
  obtain ⟨header, value⟩ := e
  unfold echo
  split
  next h => simp [h]
  next h => simp [h]

theorem index_eq_iff {e : OflMatchTlv} {f : OxmField} (hl : oxmFieldLookup e.header = some f)
    (i : OxmFieldIndex) : f.index = i ↔ e.header = i.header := by
  have hh : e.header = f.index.header := by
    rw [← header_of_lookup hl, header_eq_of_mem (mem_oxmFields_of_lookup hl)]
  rw [hh]
  refine ⟨fun h => by rw [h], fun h => ?_⟩
  have hidx := lookup_header f.index
  rw [h, lookup_header] at hidx
  exact (Option.some.inj hidx).symm

/-- The prerequisites of a field are written at earlier stages than the field. -/
theorem stage_of_prereqs {f : OxmField} (hf : f ∈ oxmFields) :
    (f.nwProto ≠ 0 → stage ipProto.header < stage f.header) ∧
    (f.dlType.1 ≠ 0 → stage ethType.header < stage f.header) ∧
    (f.index = vlanPcp → stage vlanVid.header < stage f.header) := by
  revert f
  decide

section WireOrder

variable {pre post : List OflMatchTlv} {e : OflMatchTlv} {f : OxmField}
  (hst : StagedFrom 0 (pre ++ e :: post)) (hl : oxmFieldLookup e.header = some f)

include hst hl

/-- The entries written before an entry decide its prerequisites. -/
theorem prereqsOn_prefix : prereqsOn f (pre ++ e :: post) = prereqsOn f pre := by
  obtain ⟨hproto, hdl, -⟩ := stage_of_prereqs (mem_oxmFields_of_lookup hl)
  rw [header_of_lookup hl] at hproto hdl
  unfold prereqsOn
  congr 1
  · by_cases h0 : f.nwProto = 0
    · simp [h0]
    · rw [withHeader_of_stage hst (hproto h0)]
  · by_cases h0 : f.dlType.1 = 0
    · simp [h0]
    · rw [withHeader_of_stage hst (hdl h0)]

theorem hasVlan_prefix (hi : f.index = vlanPcp) : HasVlan (pre ++ e :: post) ↔ HasVlan pre := by
  have hlt := (stage_of_prereqs (mem_oxmFields_of_lookup hl)).2.2 hi
  rw [header_of_lookup hl] at hlt
  have hmem (es : List OflMatchTlv) :
      HasVlan es ↔ ∃ t ∈ withHeader vlanVid.header es, load 2 t.value ≠ ofpvidNone := by
    simp [HasVlan, withHeader, and_assoc]
  rw [hmem, hmem, withHeader_of_stage hst hlt]

end WireOrder

/-- Entries in wire order enter an empty match, unchanged, exactly when the
match is well-formed and every entry survives. -/
theorem enter_nil_iff {m : OflMatch} {ws : List OflMatchTlv} (hp : ws.Perm m.entries)
    (hst : StagedFrom 0 ws) :
    (Enter [] ws ∧ ∀ e ∈ ws, echo e = e) ↔
      WellFormed m ∧ ∀ e ∈ m.entries, Survives m.entries e := by
  have hpre (f : OxmField) : oxmPrereqsOk f m = prereqsOn f ws := by
    rw [oxmPrereqsOk_eq]
    unfold prereqsOn withHeader
    rw [(hp.filter _).all_eq, (hp.filter _).any_eq]
  have hvlan : HasVlan m.entries ↔ HasVlan ws := by
    simp only [HasVlan, hp.mem_iff]
  constructor
  · rintro ⟨henter, hecho⟩
    have hnd : Distinct ws := by
      simpa using distinct_of_enter henter List.nodup_nil
    rw [enter_iff hecho] at henter
    refine ⟨⟨hnd.perm hp, fun e he => ?_⟩, fun e he => ?_⟩ <;>
      obtain ⟨pre, post, hsplit⟩ := List.append_of_mem (hp.mem_iff.mpr he) <;>
      obtain ⟨f, hfit⟩ := henter pre e post hsplit <;>
      rw [List.append_nil] at hfit
    · refine ⟨f, hfit.lookup, ?_, hfit.admissible⟩
      rw [hpre, hsplit, prereqsOn_prefix (hsplit ▸ hst) hfit.lookup]
      exact hfit.prereqs
    · refine ⟨?_, echo_eq_iff.mp (hecho e (hp.mem_iff.mpr he)), fun hpcp => ?_⟩
      · rw [ne_eq, ← index_eq_iff hfit.lookup]
        exact hfit.index_ne
      · have hi := (index_eq_iff hfit.lookup vlanPcp).mpr hpcp
        rw [hvlan, hsplit, hasVlan_prefix (hsplit ▸ hst) hfit.lookup hi]
        exact hfit.vlan hi
  · rintro ⟨hwf, hsurv⟩
    have hecho : ∀ e ∈ ws, echo e = e := fun e he =>
      echo_eq_iff.mpr (hsurv e (hp.mem_iff.mp he)).tunnelId_symmetric
    refine ⟨(enter_iff hecho).mpr fun pre e post hsplit => ?_, hecho⟩
    have he : e ∈ m.entries := hp.mem_iff.mp (by simp [hsplit])
    obtain ⟨f, hl, hpreq, hadm⟩ := hwf.known e he
    have hsv := hsurv e he
    have hnd : Distinct (pre ++ e :: post) := hsplit ▸ hwf.distinct.perm hp.symm
    rw [hpre, hsplit, prereqsOn_prefix (hsplit ▸ hst) hl] at hpreq
    rw [List.append_nil]
    refine ⟨f, hl, ?_, hpreq, ?_, hadm, fun hi => ?_⟩
    · rw [ne_eq, index_eq_iff hl]
      exact hsv.not_inPhyPort
    · intro t ht heq
      rw [Distinct, List.map_append, List.nodup_append] at hnd
      exact hnd.2.2 _ (List.mem_map_of_mem ht) _ (by simp) heq
    · rw [← hasVlan_prefix (hsplit ▸ hst) hl hi, ← hsplit, ← hvlan]
      exact hsv.vlanPcp_vlan ((index_eq_iff hl vlanPcp).mp hi)

/-- Reading the packed bytes back is feeding the entries in wire order. -/
theorem oxmPullMatch_put (buf : Bytes) {m : OflMatch} (hs : ∀ e ∈ m.entries, Sized e) :
    ∃ pad, ∀ m', (∃ rest, oxmPullMatch ((oxmPutMatch buf m).1.drop buf.length)
        (oxmPutMatch buf m).2 = .ok (m', rest)) ↔
      feed pad oflStructsMatchInit (wireOrder m.entries) = .ok m' := by
  obtain ⟨pad, hput⟩ := oxmPutMatch_eq buf m
  refine ⟨pad, fun m' => ?_⟩
  have hs' : ∀ e ∈ wireOrder m.entries, Sized e := fun e he =>
    hs e ((wireOrder_perm _).mem_iff.mp he)
  rw [hput, ← pullLoop_flatMap hs' (le_refl _)]
  simp only [oxmPullMatch, List.drop_left]
  rw [if_neg (by simp)]
  cases hloop : pullLoop ((wireOrder m.entries).flatMap oxmPutTlv).length oflStructsMatchInit
      ((wireOrder m.entries).flatMap oxmPutTlv ++ pad)
      ((wireOrder m.entries).flatMap oxmPutTlv).length with
  | error err => simp [bind, Except.bind]
  | ok m₁ => simp [bind, Except.bind, pure, Except.pure]

/-- Distinct headers leave no room for an entry to come back as another one. -/
theorem echo_eq_of_perm {es : List OflMatchTlv} (hnd : Distinct es)
    (hp : (es.map echo).Perm es) : ∀ e ∈ es, echo e = e := by
  intro e he
  have hmem : echo e ∈ es := hp.mem_iff.mp (List.mem_map_of_mem he)
  exact List.inj_on_of_nodup_map hnd hmem he (echo_header e)

/-- Fed in wire order, the entries are all there again exactly when the match is well-formed and
every one of them survives. -/
theorem feed_wireOrder_iff {rest : Bytes} {m : OflMatch} (hs : ∀ e ∈ m.entries, Sized e) :
    (∃ m', feed rest oflStructsMatchInit (wireOrder m.entries) = .ok m' ∧
        m'.entries.Perm m.entries) ↔
      WellFormed m ∧ ∀ e ∈ m.entries, Survives m.entries e := by
  have hp := wireOrder_perm m.entries
  have hinit : oflStructsMatchInit.entries.Perm [] := .refl []
  have hs' : ∀ e ∈ wireOrder m.entries, Sized e := fun e he => hs e (hp.mem_iff.mp he)
  rw [← enter_nil_iff hp (wireOrder_staged m.entries)]
  constructor
  · rintro ⟨m', hok, hperm⟩
    have hperm := hperm.trans hp.symm
    have hphy : ∀ e ∈ wireOrder m.entries, e.header ≠ inPhyPort.header := by
      intro e he hh
      -- the doubled entry is longer than any entry put in
      obtain ⟨t, ht, hth, hlen⟩ := feed_inPhyPort hs' hok he hh
      have hsz := (hs' t (hperm.mem_iff.mp ht)).length_value
      rw [hth, hlen] at hsz
      exact absurd hsz (by decide)
    obtain ⟨-, heq⟩ := enter_of_feed hs' hphy hinit List.nodup_nil hok
    obtain ⟨henter, hperm'⟩ := heq (by simpa using hperm.length_eq)
    rw [List.append_nil] at hperm'
    have hnd : Distinct (wireOrder m.entries) := by
      simpa using distinct_of_enter henter List.nodup_nil
    exact ⟨henter, echo_eq_of_perm hnd (hperm'.symm.trans hperm)⟩
  · rintro ⟨henter, hecho⟩
    obtain ⟨m', hok, hperm⟩ := feed_of_enter henter hs' hinit List.nodup_nil
    rw [List.append_nil, List.map_congr_left hecho, List.map_id'] at hperm
    exact ⟨m', hok, hperm.trans hp⟩

/-- The round trip of a match succeeds exactly when the match is well-formed
and every one of its entries survives. -/
theorem roundTrips_iff {buf : Bytes} {m : OflMatch} (hs : ∀ e ∈ m.entries, Sized e) :
    RoundTrips buf m ↔ WellFormed m ∧ ∀ e ∈ m.entries, Survives m.entries e := by
  obtain ⟨pad, hpull⟩ := oxmPullMatch_put buf hs
  refine Iff.trans ?_ (@feed_wireOrder_iff pad m hs)
  constructor
  · rintro ⟨m', rest, hok, hperm⟩
    exact ⟨m', (hpull m').mp ⟨rest, hok⟩, hperm⟩
  · rintro ⟨m', hok, hperm⟩
    obtain ⟨rest, hrest⟩ := (hpull m').mpr hok
    exact ⟨m', rest, hrest, hperm⟩

theorem sized_of_known {e : OflMatchTlv} {f : OxmField} (hl : oxmFieldLookup e.header = some f)
    (hlen : e.value.length = oxmLength e.header) : Sized e :=
  ⟨hlen, header_of_lookup hl ▸ wordSize_mem (mem_oxmFields_of_lookup hl)⟩

/-- A well-formed match comes back from the wire exactly when it has no
`IN_PHY_PORT`, its tunnel id reads the same in both byte orders, and a
`VLAN_PCP` comes with a `VLAN_VID` other than `OFPVID_NONE`. -/
theorem wellFormed_roundTrips_iff (buf : Bytes) (m : OflMatch) (hwf : WellFormed m)
    (hlen : ∀ e ∈ m.entries, e.value.length = oxmLength e.header) :
    RoundTrips buf m ↔ ∀ e ∈ m.entries, Survives m.entries e := by
  have hs : ∀ e ∈ m.entries, Sized e := fun e he => by
    obtain ⟨f, hl, -⟩ := hwf.known e he
    exact sized_of_known hl (hlen e he)
  rw [roundTrips_iff hs]
  exact and_iff_right hwf

/-- A match on the Ethernet type alone comes back. -/
theorem ethType_roundTrips :
    RoundTrips [] (oflStructsMatchPut16 oflStructsMatchInit ethType.header ethTypeIp) := by
  refine (wellFormed_roundTrips_iff [] _ ⟨by decide, ?_⟩ ?_).mpr ?_
  · intro e he
    cases List.mem_singleton.mp he
    exact ⟨defineField ethType oxmDlNone 0 false, rfl, rfl, trivial⟩
  · intro e he
    cases List.mem_singleton.mp he
    rfl
  · intro e he
    cases List.mem_singleton.mp he
    exact ⟨by decide, fun h => absurd h (by decide), fun h => absurd h (by decide)⟩

/-- The tunnel id 1 is well-formed, but comes back byte-swapped. -/
theorem tunnelId_not_roundTrips :
    let m := oflStructsMatchPut64 oflStructsMatchInit tunnelId.header 1
    WellFormed m ∧ (∀ e ∈ m.entries, e.value.length = oxmLength e.header) ∧
      ¬ RoundTrips [] m := by
  have hentries : (oflStructsMatchPut64 oflStructsMatchInit tunnelId.header 1).entries =
      [⟨tunnelId.header, leBytes 8 1⟩] := rfl
  have hl : oxmFieldLookup tunnelId.header = some (defineField tunnelId oxmDlNone 0 true) := rfl
  have hlen : (leBytes 8 1).length = oxmLength tunnelId.header := rfl
  refine ⟨⟨by decide, ?_⟩, ?_, ?_⟩
  · simp only [hentries, List.forall_mem_singleton]
    exact ⟨_, hl, rfl, trivial⟩
  · simpa only [hentries, List.forall_mem_singleton] using hlen
  · rw [roundTrips_iff (by
      simpa only [hentries, List.forall_mem_singleton] using sized_of_known hl hlen)]
    rintro ⟨-, hsurv⟩
    have hflip := (hsurv ⟨tunnelId.header, leBytes 8 1⟩ (by simp [hentries])).tunnelId_symmetric
      (.inl rfl)
    exact absurd hflip (by decide)

end Nox.Oxm
