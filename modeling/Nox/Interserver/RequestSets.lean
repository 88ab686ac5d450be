import Nox.Lib.Appends
import Nox.Interserver.Memory
import Nox.Interserver.SetField
import Nox.Interserver.Verdicts

/-!
# What the sets of a request add

The builders append to what they are given: an action for an element of an `action_set`, an
instruction for one of an `instruction_set`, a bucket for one of `buckets`.  What is read of
the texts alone: whether the packer will find all of it written, and how long it will be.
-/

namespace Nox.Interserver

open Nox.Oxm OxmFieldIndex JsonObject
open Ofl Libc
open Lib (ok_bind foldlM_appends forall_flatten_iff sum_flatten)

section Sets

/-! ## Sets -/

variable (parse : String → JsonObject)

/-- The elements of the set under a key. -/
def setObjects (args : JsonObject) (key : String) : List JsonObject :=
  match (args.text? key).map parse with
  | some (.array ar) => ar
  | _ => []

variable {parse} {σ β : Type} {args : JsonObject} {key : String}

/-- The loop goes over the elements, whatever is made of them. -/
theorem constructSetIfExists_eq {σ' : Type} {construct : Nat → σ → JsonObject → Except Fault σ}
    {init s : σ} (h : constructSetIfExists parse construct args key init = .ok s)
    (construct' : Nat → σ' → JsonObject → Except Fault σ') (init' : σ') :
    constructSetIfExists parse construct' args key init' =
      (setObjects parse args key).zipIdx.foldlM (fun s p => construct' p.2 s p.1) init' := by
  obtain ⟨r, hr, h⟩ := bind_eq_ok.mp h
  unfold setObjects constructSetIfExists
  rw [hr, (isDict_of_findIfExists hr).2, ok_bind]
  cases r with
  | none => rfl
  | some value =>
    obtain ⟨ar, har, -⟩ := bind_eq_ok.mp h
    simp only [constructSet, har, ok_bind, Option.map_some]
    cases hparse : parse value with
    | array elems =>
      rw [hparse] at har
      cases har
      rfl
    | dict | integer | float | null | boolean | string =>
      rw [hparse] at har
      cases har

theorem constructSetIfExists_eq_ok {construct : Nat → σ → JsonObject → Except Fault σ}
    {init s : σ} (h : constructSetIfExists parse construct args key init = .ok s) :
    (setObjects parse args key).zipIdx.foldlM (fun s p => construct p.2 s p.1) init = .ok s :=
  (constructSetIfExists_eq h construct init).symm.trans h

theorem constructSetIfExists_appends {construct : Nat → List β → JsonObject → Except Fault (List β)}
    {R : JsonObject → List β → Prop} {init t : List β}
    (h : ∀ i s p t, construct i s p = .ok t → ∃ l, R p l ∧ t = s ++ l)
    (hok : constructSetIfExists parse construct args key init = .ok t) :
    ∃ ls, List.Forall₂ R (setObjects parse args key) ls ∧ t = init ++ ls.flatten := by
  obtain ⟨ls, hls, ht⟩ := foldlM_appends (R := fun q => R q.1)
    (fun s q _ t hq => h q.2 s q.1 t hq) (constructSetIfExists_eq_ok hok)
  refine ⟨ls, ?_, ht⟩
  rw [← List.zipIdx_map_fst 0 (setObjects parse args key), List.forall₂_map_left_iff]
  exact hls

end Sets

section Fields

/-! ## The field of a `set_field` -/

/-- The field `construct_action` sets: the first one there is, in the order they are looked
up.  A hardware address of ARP has no case. -/
def chosenField (T : Texts) : Option MatchField :=
  (ipv4Group ++ ipv6Group ++ ethGroup.reverse ++ matchTagsSpecial.filter (·.size != 6)).find?
    (present T)

variable {args : JsonObject} {parse : String → JsonObject} {acts : Actions} {fld : MatchField}
  {text : String}

theorem chosenField_mem {T : Texts} (h : chosenField T = some fld) :
    fld ∈ fields ∧ isArpHardware fld.index = false := by
  have hall : ∀ g ∈ ipv4Group ++ ipv6Group ++ ethGroup.reverse ++
      matchTagsSpecial.filter (·.size != 6), g ∈ fields ∧ isArpHardware g.index = false := by
    decide
  exact hall fld (List.mem_of_find?_eq_some h)

/-- The memory of a value whose text was checked is as long as the field. -/
theorem setFieldValue_length (h : fld ∈ fields) (harp : isArpHardware fld.index = false)
    (hcheck : checkArg parse fld.name (actionArgType fld.index) text = .ok ()) :
    oxmLength fld.index.header ≤ (setFieldValue fld text).length := by
  have hlength {b : Option Bytes} {n : Nat} (hsome : b.isSome = true)
      (hb : ∀ v, b = some v → v.length = n) : (b.getD []).length = n := by
    obtain ⟨v, rfl⟩ := Option.isSome_iff_exists.mp hsome
    exact hb v rfl
  have h4 (hsome : (ipv4addr text).isSome = true) := hlength hsome fun v => inetPton4_length
  have h6 (hsome : (ipv6addr text).isSome = true) := hlength hsome fun v => inetPton6_length
  have he (hsome : (ethernetaddr text).isSome = true) := hlength hsome fun v => ethernetaddr_length
  rcases kind_cases h with ⟨hk, hl⟩ | ⟨hk, hl⟩ | ⟨hk, hl⟩ | ⟨hk, hs, hl⟩ | ⟨hk, hl⟩ | hk | ⟨hk, hl⟩
  · have hsome : (ipv4addr text).isSome = true := by
      rcases hk with hk | hk <;>
        simpa [actionArgType, checkArg, hk, Option.isSome_iff_ne_none] using hcheck
    rcases hk with hk | hk <;> simp only [setFieldValue, hk, h4 hsome] <;> rw [← hk, hl]
  · have hsome : (ipv6addr text).isSome = true := by
      rcases hk with hk | hk | hk <;>
        simpa [actionArgType, checkArg, hk, Option.isSome_iff_ne_none] using hcheck
    rcases hk with hk | hk | hk <;> simp only [setFieldValue, hk, h6 hsome] <;> rw [← hk, hl]
  · have hsome : (ethernetaddr text).isSome = true := by
      rcases hk with hk | hk <;>
        simpa [actionArgType, checkArg, hk, Option.isSome_iff_ne_none] using hcheck
    rcases hk with hk | hk <;> simp only [setFieldValue, hk, he hsome] <;> rw [← hk, hl]
  · rcases hk with hk | hk <;> simp only [setFieldValue, hk, leBytes_length, hs] <;> rw [← hk, hl]
  · have hsome : (ipv6addr text).isSome = true := by
      rcases hk with hk | hk <;>
        simpa [actionArgType, checkArg, hk, Option.isSome_iff_ne_none] using hcheck
    rcases hk with hk | hk <;> simp only [setFieldValue, hk, h6 hsome] <;> rw [← hk, hl] <;> decide
  · rcases hk with hk | hk <;> rw [hk] at harp <;> cases harp
  · rw [hl]
    unfold setFieldValue
    split <;> simp_all [isNumber]

/-- The action made for a field. -/
def setFieldAction (T : Texts) (fld : MatchField) : OflAction :=
  .setField fld.index.header (setFieldValue fld ((T fld.name).getD ""))

/-- A chain of lookups finds the first field of its group that is present. -/
theorem findFirst_group (h : args.IsDict) (group : List MatchField) :
    findFirst args (group.map (·.name)) =
      .ok ((group.find? (present args.text?)).map fun g =>
        (g.name, (args.text? g.name).getD "")) := by
  rw [findFirst_dict h]
  congr 1
  induction group with
  | nil => rfl
  | cons g group ih =>
    simp only [List.map_cons, List.findSome?_cons, List.find?_cons, present]
    cases hv : args.text? g.name with
    | none => exact ih
    | some value => simp [hv]

/-- The loop over numbers finds the first one of a size with a case. -/
theorem constructFieldNumber_eq (h : args.IsDict) {ps : List MatchField}
    (hps : ∀ p ∈ ps, p ∈ matchTagsSpecial) :
    constructFieldNumber args acts ps =
      .ok (acts ++ ((ps.filter (·.size != 6)).find? (present args.text?)).toList.map
        (setFieldAction args.text?)) := by
  induction ps with
  | nil => simp [constructFieldNumber, pure, Except.pure]
  | cons p ps ih =>
    have hp := hps p List.mem_cons_self
    have hfld := (List.mem_filter.mp hp).1
    have ih := ih fun q hq => hps q (List.mem_cons_of_mem p hq)
    rw [constructFieldNumber, findIfExists_dict h, ok_bind]
    cases hv : args.text? p.name with
    | none =>
      have habsent : present args.text? p = false := by simp [present, hv]
      simp only [List.filter_cons]
      split
      · rw [List.find?_cons, habsent]
        exact ih
      · exact ih
    | some value =>
      have hpresent : present args.text? p = true := by simp [present, hv]
      obtain ⟨hvalue, hsize⟩ := setFieldValue_special value hp
      have hsix : p.size = 1 ∨ p.size = 2 ∨ p.size = 4 ∨ p.size = 8 ↔ (p.size != 6) = true := by
        rcases size_special hp with hk | hk | hk | hk | hk <;> simp [hk]
      dsimp only
      by_cases hcase : (p.size != 6) = true
      · rw [if_pos (hsix.mpr hcase), createSetField_of_mem acts hfld]
        simp [hcase, hpresent, setFieldAction, hv, hvalue, pure, Except.pure]
      · rw [if_neg (mt hsix.mp hcase)]
        simp only [List.filter_cons, hcase, Bool.false_eq_true, if_false]
        exact ih

/-- The builder adds the field it chooses. -/
theorem constructSetField_eq (h : args.IsDict)
    (hcheck : checkArgs parse actionTags args = .ok ()) :
    constructSetField args acts =
      .ok (acts ++ (chosenField args.text?).toList.map (setFieldAction args.text?)) := by
  have hadd {g : MatchField} {value : Bytes} (hg : g ∈ fields)
      (hvalue : setFieldValue g ((args.text? g.name).getD "") = value) :
      createSetField acts g.name value = acts ++ [setFieldAction args.text? g] := by
    rw [createSetField_of_mem acts hg, setFieldAction, hvalue]
  have hgroup {group : List MatchField} {g : MatchField} {pton : String → Option Bytes}
      (hpton : ∀ g ∈ group, ∀ text, g ∈ fields ∧ setFieldValue g text = (pton text).getD [])
      (hf : group.find? (present args.text?) = some g) :
      createSetField acts g.name ((pton ((args.text? g.name).getD "")).getD []) =
        acts ++ [setFieldAction args.text? g] := by
    obtain ⟨hg, hvalue⟩ := hpton g (List.mem_of_find?_eq_some hf) ((args.text? g.name).getD "")
    exact hadd hg hvalue
  have h4 : findFirst args ["ipv4_src", "ipv4_dst"] = _ := findFirst_group h ipv4Group
  have h6 : findFirst args
      ["ipv6_src", "ipv6_dst", "ipv6_nd_target", "ipv6_nd_tll", "ipv6_nd_sll"] = _ :=
    findFirst_group h ipv6Group
  unfold constructSetField chosenField
  rw [h4, h6, ok_bind]
  simp only [List.find?_append]
  cases hf4 : ipv4Group.find? (present args.text?) with
  | some g =>
    have hpton : ∀ g ∈ ipv4Group, ∀ text,
        g ∈ fields ∧ setFieldValue g text = (ipv4addr text).getD [] := fun g hg text =>
      ⟨mem_fields_of_group (.inl hg), ((setFieldValue_group g text).1 hg).1⟩
    exact congrArg Except.ok (hgroup hpton hf4)
  | none =>
    rw [Option.map_none, Option.none_or]
    dsimp only
    rw [ok_bind]
    cases hf6 : ipv6Group.find? (present args.text?) with
    | some g =>
      have hpton : ∀ g ∈ ipv6Group, ∀ text,
          g ∈ fields ∧ setFieldValue g text = (ipv6addr text).getD [] := fun g hg text =>
        ⟨mem_fields_of_group (.inr (.inl hg)), ((setFieldValue_group g text).2 hg).1⟩
      exact congrArg Except.ok (hgroup hpton hf6)
    | none =>
      rw [Option.map_none, Option.none_or]
      dsimp only
      rw [findIfExists_dict h, findIfExists_dict h, ok_bind, ok_bind]
      have hreverse : ethGroup.reverse = [⟨"eth_src", ethSrc, 6⟩, ⟨"eth_dst", ethDst, 6⟩] := rfl
      rw [hreverse]
      cases hsrc : args.text? "eth_src" with
      | some value =>
        have hread := readEthernetaddr_of_check value h hcheck (by decide) hsrc
        dsimp only
        rw [hread, ok_bind]
        simp only [List.find?_cons, present, hsrc, Option.isSome_some, Option.some_or]
        refine congrArg Except.ok (hadd (g := ⟨"eth_src", ethSrc, 6⟩) (by decide) ?_)
        simp [hsrc, setFieldValue]
      | none =>
        cases hdst : args.text? "eth_dst" with
        | some value =>
          have hread := readEthernetaddr_of_check value h hcheck (by decide) hdst
          dsimp only
          rw [hread, ok_bind]
          simp only [List.find?_cons, present, hsrc, hdst, Option.isSome_some, Option.isSome_none,
            Option.some_or]
          refine congrArg Except.ok (hadd (g := ⟨"eth_dst", ethDst, 6⟩) (by decide) ?_)
          simp [hdst, setFieldValue]
        | none =>
          dsimp only
          rw [actionTagsSpecial, constructFieldNumber_eq h fun p hp => hp]
          simp only [List.find?_cons, List.find?_nil, present, hsrc, hdst, Option.isSome_none,
            Option.none_or]

end Fields

section Actions

/-! ## Actions -/

/-- The action copies a TTL, whose type is not written, or sets that of MPLS, which has no
slot in the array. -/
def LosesSlot (T : Texts) : Prop :=
  T "action_type" = some "change_ttl" ∧
    (T "ttl_action" = some "copy" ∨ T "ttl_action" = some "set" ∧ T "ttl_type" = some "mpls")

/-- The bytes of the action that is packed. -/
def actionSize (T : Texts) : Nat :=
  match T "action_type" with
  | none => 0
  | some type =>
    if type = "output" then 16
    else if type ∈ ["set_queue", "group", "push", "pop"] then 8
    else if type = "change_ttl" then if T "ttl_action" = some "copy" then 0 else 8
    else if type = "set_field" then
      ((chosenField T).map fun fld => 8 + Ofl.roundUp (oxmLength fld.index.header) 8).getD 0
    else 0

def OflAction.size (a : OflAction) : Nat := (oflActionsOfpLen a).getD 0

/-- A `set_field` is of a size the packer has a case for. -/
def OflAction.Cased : OflAction → Prop
  | .setField field _ => oxmLength field ∈ setFieldSizes
  | _ => True

/-- What the builder appends for an element of an `action_set`. -/
structure ActionAdds (p : JsonObject) (l : List OflAction) : Prop where
  written : (∀ a ∈ l, OflAction.Written a) ↔ ¬LosesSlot p.text?
  cased : ∀ a ∈ l, OflAction.Cased a
  size : (l.map OflAction.size).sum = actionSize p.text?

variable {p : JsonObject} {parse : String → JsonObject} {acts acts' : Actions} {type : String}
  {a : OflAction}

theorem not_losesSlot {T : Texts} (htype : T "action_type" = some type) (hne : type ≠ "change_ttl") :
    ¬LosesSlot T := by
  rintro ⟨hchange, -⟩
  rw [htype] at hchange
  exact hne (Option.some.inj hchange)

/-- One action that is written. -/
theorem actionAdds_written (hnot : ¬LosesSlot p.text?) (hw : OflAction.Written a)
    (hc : OflAction.Cased a) (hsize : OflAction.size a = actionSize p.text?) :
    ActionAdds p [a] where
  written := iff_of_true (List.forall_mem_singleton.mpr hw) hnot
  cased := List.forall_mem_singleton.mpr hc
  size := by simpa using hsize

/-- One action that is not. -/
theorem actionAdds_lost (hloses : LosesSlot p.text?) (hw : ¬OflAction.Written a)
    (hc : OflAction.Cased a) (hsize : OflAction.size a = actionSize p.text?) :
    ActionAdds p [a] where
  written := iff_of_false (fun h => hw (List.forall_mem_singleton.mp h)) (not_not.mpr hloses)
  cased := List.forall_mem_singleton.mpr hc
  size := by simpa using hsize

theorem constructChangeTtl_adds (htype : p.text? "action_type" = some "change_ttl")
    (h : constructChangeTtl p acts = .ok acts') : ∃ l, ActionAdds p l ∧ acts' = acts ++ l := by
  have hnot {ta : String} (hta : p.text? "ttl_action" = some ta)
      (hrest : ¬(ta = "copy" ∨ ta = "set" ∧ p.text? "ttl_type" = some "mpls")) :
      ¬LosesSlot p.text? := by
    simpa [LosesSlot, htype, hta] using hrest
  have hsize {ta : String} (hta : p.text? "ttl_action" = some ta) (hne : ta ≠ "copy") :
      8 = actionSize p.text? := by
    simp [actionSize, htype, hta, hne]
  obtain ⟨ta, hta, h⟩ := bind_eq_ok.mp h
  replace hta := text_of_require hta
  split at h
  · next heq =>
    subst heq
    obtain ⟨ttl, -, h⟩ := bind_eq_ok.mp h
    obtain ⟨ttlType, hty, h⟩ := bind_eq_ok.mp h
    replace hty := text_of_require hty
    split at h
    · next heq =>
      subst heq
      cases h
      refine ⟨_, ?_, rfl⟩
      exact actionAdds_written (hnot hta (by simp [hty])) ⟨trivial, trivial⟩ trivial
        (hsize hta (by simp))
    split at h
    · next heq =>
      subst heq
      cases h
      refine ⟨_, ?_, rfl⟩
      exact actionAdds_lost ⟨htype, .inr ⟨hta, hty⟩⟩ (fun hw => hw.1) trivial
        (hsize hta (by simp))
    · cases h
  split at h
  · next heq =>
    subst heq
    obtain ⟨ttlType, -, h⟩ := bind_eq_ok.mp h
    split at h
    · cases h
      refine ⟨_, ?_, rfl⟩
      exact actionAdds_written (hnot hta (by simp)) ⟨trivial, trivial⟩ trivial
        (hsize hta (by simp))
    split at h
    · cases h
      refine ⟨_, ?_, rfl⟩
      exact actionAdds_written (hnot hta (by simp)) ⟨trivial, trivial⟩ trivial
        (hsize hta (by simp))
    · cases h
  split at h
  · next heq =>
    subst heq
    obtain ⟨ttlType, -, h⟩ := bind_eq_ok.mp h
    have hzero : OflAction.size .untyped = actionSize p.text? := by
      simp [actionSize, htype, hta, OflAction.size, oflActionsOfpLen]
    have hlost : ActionAdds p [.untyped] :=
      actionAdds_lost ⟨htype, .inl hta⟩ (fun hw => hw.2) trivial hzero
    split at h
    · cases h
      exact ⟨_, hlost, rfl⟩
    split at h
    · cases h
      exact ⟨_, hlost, rfl⟩
    · cases h
  · cases h

theorem constructSetField_adds (htype : p.text? "action_type" = some "set_field")
    (hdict : p.IsDict) (hcheck : checkArgs parse actionTags p = .ok ())
    (h : constructSetField p acts = .ok acts') : ∃ l, ActionAdds p l ∧ acts' = acts ++ l := by
  rw [constructSetField_eq hdict hcheck] at h
  cases h
  refine ⟨_, ?_, rfl⟩
  have hnot : ¬LosesSlot p.text? := not_losesSlot htype (by simp)
  cases hfld : chosenField p.text? with
  | none =>
    exact ⟨iff_of_true (by simp) hnot, by simp, by simp [actionSize, htype, hfld]⟩
  | some fld =>
    obtain ⟨hmem, harp⟩ := chosenField_mem hfld
    have hpresent : present p.text? fld = true := List.find?_some hfld
    obtain ⟨text, htext⟩ := Option.isSome_iff_exists.mp hpresent
    have htag : (fld.name, actionArgType fld.index) ∈ actionTags :=
      List.mem_append_right _ (List.mem_map_of_mem hmem)
    have hlong : oxmLength fld.index.header ≤ (setFieldValue fld text).length :=
      setFieldValue_length hmem harp (checkArg_of_checkArgs hcheck htag (by rw [findIfExists_dict hdict, htext]))
    refine actionAdds_written hnot ⟨trivial, ?_⟩ (length_mem_sizes hmem) ?_
    · simpa [setFieldAction, OflAction.Readable, htext] using hlong
    · simp [actionSize, htype, hfld, setFieldAction, OflAction.size, oflActionsOfpLen]

/-- The builder appends to the array it is given. -/
theorem constructAction_adds (h : constructAction p acts parse = .ok acts') :
    ∃ l, ActionAdds p l ∧ acts' = acts ++ l := by
  obtain ⟨⟨⟩, hcheck, h⟩ := bind_eq_ok.mp h
  obtain ⟨type, hreq, h⟩ := bind_eq_ok.mp h
  obtain ⟨r, hfind, -⟩ := bind_eq_ok.mp hreq
  have hdict := (isDict_of_findIfExists hfind).1
  have htype := text_of_require hreq
  have hplain {a : OflAction} (hne : type ≠ "change_ttl") (hw : OflAction.Written a)
      (hc : OflAction.Cased a) (hsize : OflAction.size a = actionSize p.text?) :
      ActionAdds p [a] := actionAdds_written (not_losesSlot htype hne) hw hc hsize
  split at h
  · next heq =>
    obtain ⟨value, -, h⟩ := bind_eq_ok.mp h
    cases h
    refine ⟨_, ?_, rfl⟩
    exact hplain (by simp [heq]) ⟨trivial, trivial⟩ trivial
      (by simp [actionSize, htype, heq, OflAction.size, oflActionsOfpLen])
  split at h
  · next heq =>
    obtain ⟨value, -, h⟩ := bind_eq_ok.mp h
    cases h
    refine ⟨_, ?_, rfl⟩
    exact hplain (by simp [heq]) ⟨trivial, trivial⟩ trivial
      (by simp [actionSize, htype, heq, OflAction.size, oflActionsOfpLen])
  split at h
  · next heq =>
    obtain ⟨value, -, h⟩ := bind_eq_ok.mp h
    cases h
    refine ⟨_, ?_, rfl⟩
    exact hplain (by simp [heq]) ⟨trivial, trivial⟩ trivial
      (by simp [actionSize, htype, heq, OflAction.size, oflActionsOfpLen])
  split at h
  · next heq =>
    obtain ⟨tt, -, h⟩ := bind_eq_ok.mp h
    obtain ⟨et, -, h⟩ := bind_eq_ok.mp h
    have hpush (t : PushAction) (e : Nat) : ActionAdds p [.push t e] :=
      hplain (by simp [heq]) ⟨trivial, trivial⟩ trivial
        (by simp [actionSize, htype, heq, OflAction.size, oflActionsOfpLen])
    dsimp only at h
    split at h
    · cases h
      refine ⟨_, ?_, rfl⟩
      exact hpush _ _
    split at h
    · cases h
      refine ⟨_, ?_, rfl⟩
      exact hpush _ _
    split at h
    · cases h
      refine ⟨_, ?_, rfl⟩
      exact hpush _ _
    · cases h
  split at h
  · next heq =>
    obtain ⟨tt, -, h⟩ := bind_eq_ok.mp h
    have hsize : 8 = actionSize p.text? := by simp [actionSize, htype, heq]
    split at h
    · cases h
      refine ⟨_, ?_, rfl⟩
      exact hplain (by simp [heq]) ⟨trivial, trivial⟩ trivial hsize
    split at h
    · obtain ⟨et, -, h⟩ := bind_eq_ok.mp h
      cases h
      refine ⟨_, ?_, rfl⟩
      exact hplain (by simp [heq]) ⟨trivial, trivial⟩ trivial hsize
    · cases h
  split at h
  · next heq => exact constructChangeTtl_adds (heq ▸ htype) h
  split at h
  · next heq => exact constructSetField_adds (heq ▸ htype) hdict hcheck h
  · cases h
    have hsize : 0 = actionSize p.text? := by simp_all [actionSize]
    exact ⟨[], ⟨iff_of_true (by simp) (not_losesSlot htype ‹_›), by simp, hsize⟩, by simp⟩

end Actions

section ActionSets

/-! ## Sets of actions -/

/-- What the builder makes of the elements of an `action_set`. -/
structure ActionSetMakes (ps : List JsonObject) (acts : Actions) : Prop where
  written : (∀ a ∈ acts, OflAction.Written a) ↔ ∀ p ∈ ps, ¬LosesSlot p.text?
  cased : ∀ a ∈ acts, OflAction.Cased a
  size : (acts.map OflAction.size).sum = (ps.map fun p => actionSize p.text?).sum

variable {args : JsonObject} {parse : String → JsonObject} {acts : Actions}

theorem constructActionSet_makes (h : constructActionSet parse args = .ok acts) :
    ActionSetMakes (setObjects parse args "action_set") acts := by
  obtain ⟨ls, hls, rfl⟩ := constructSetIfExists_appends (R := ActionAdds)
    (fun _ _ _ _ hok => constructAction_adds hok) h
  refine ⟨forall_flatten_iff (fun _ _ hadds => hadds.written) hls, ?_,
    sum_flatten (fun _ _ hadds => hadds.size) hls⟩
  have hcased := (forall_flatten_iff (Q := fun _ : JsonObject => True)
    (fun _ _ hadds => iff_of_true hadds.cased trivial) hls).mpr fun _ _ => trivial
  exact hcased

/-- The actions are read when all of them have been written. -/
theorem exists_readActions_iff :
    (∃ as, readActions acts = some as) ↔ ∀ a ∈ acts, OflAction.Written a := by
  rw [readActions, Lib.exists_mapM_iff]
  refine forall₂_congr fun a _ => ?_
  unfold readAction
  by_cases hw : OflAction.Written a
  · simp [hw]
  · simp [hw]

/-- What is read of actions that have a case is sound, and as long as they are. -/
theorem readActions_sound {as : List AnyAction} (h : readActions acts = some as)
    (hcased : ∀ a ∈ acts, OflAction.Cased a) :
    (∀ a ∈ as, a.Sound) ∧ actionsTotalLen as = ((acts.map OflAction.size).sum : Nat) := by
  rw [readActions, Lib.mapM_eq_some_iff] at h
  induction h with
  | nil => exact ⟨by simp, rfl⟩
  | @cons a b acts as hread _ ih =>
    rw [List.forall_mem_cons] at hcased
    obtain ⟨hsound, hlen⟩ := ih hcased.2
    have hb : b.Sound ∧ b.ofpLen = (OflAction.size a : Nat) := by
      unfold readAction at hread
      split at hread
      · cases hread
        refine ⟨?_, rfl⟩
        cases a with
        | setField field value => exact List.mem_cons_of_mem 0 hcased.1
        | _ => trivial
      · cases hread
    refine ⟨List.forall_mem_cons.mpr ⟨hb.1, hsound⟩, ?_⟩
    unfold actionsTotalLen at hlen ⊢
    simp only [List.map_cons, List.sum_cons, hlen, hb.2, Nat.cast_add]

end ActionSets

section Instructions

/-! ## Instructions -/

variable (parse : String → JsonObject)

/-- The actions an instruction has. -/
def instructionActions (p : JsonObject) : List JsonObject :=
  if p.text? "instr_type" = some "write_actions" ∨ p.text? "instr_type" = some "apply_actions" then
    setObjects parse p "action_set"
  else []

/-- The bytes of the instruction that is packed. -/
def instructionSize (p : JsonObject) : Nat :=
  match p.text? "instr_type" with
  | none => 0
  | some type =>
    if type = "write_metadata" then 24
    else if type ∈ ["write_actions", "apply_actions"] then
      8 + ((setObjects parse p "action_set").map fun a => actionSize a.text?).sum
    else if type ∈ ["goto_table", "clear_actions", "meter"] then 8
    else 0

def OflInstruction.actions : OflInstruction → Actions
  | .writeActions acts | .applyActions acts => acts
  | _ => []

def OflInstruction.size : OflInstruction → Nat
  | .writeMetadata _ _ => 24
  | .writeActions acts | .applyActions acts => 8 + (acts.map OflAction.size).sum
  | .gotoTable _ | .clearActions | .meter _ => 8

/-- What the builder appends for an element of an `instruction_set`. -/
structure InstructionAdds (p : JsonObject) (l : List OflInstruction) : Prop where
  written : (∀ i ∈ l, ∀ a ∈ i.actions, OflAction.Written a) ↔
    ∀ a ∈ instructionActions parse p, ¬LosesSlot a.text?
  cased : ∀ i ∈ l, ∀ a ∈ i.actions, OflAction.Cased a
  size : (l.map OflInstruction.size).sum = instructionSize parse p

variable {parse} {p args : JsonObject} {instr instr' : Instruction} {i : OflInstruction}
  {type : String}

/-- An instruction without actions. -/
theorem instructionAdds_plain (htype : p.text? "instr_type" = some type)
    (hne : type ∉ ["write_actions", "apply_actions"]) (hacts : i.actions = [])
    (hsize : i.size = instructionSize parse p) : InstructionAdds parse p [i] := by
  have hnone : instructionActions parse p = [] := by
    unfold instructionActions
    rw [htype]
    exact if_neg (by simpa using hne)
  exact ⟨by simp [hacts, hnone], by simp [hacts], by simpa using hsize⟩

/-- An instruction that writes or applies actions. -/
theorem instructionAdds_actions {acts : Actions} (htype : p.text? "instr_type" = some type)
    (hmem : type ∈ ["write_actions", "apply_actions"])
    (hmakes : ActionSetMakes (setObjects parse p "action_set") acts) (hacts : i.actions = acts)
    (hsize : i.size = 8 + (acts.map OflAction.size).sum) : InstructionAdds parse p [i] := by
  have hall : instructionActions parse p = setObjects parse p "action_set" := by
    unfold instructionActions
    rw [htype]
    exact if_pos (by simpa using hmem)
  have hmeta : type ≠ "write_metadata" := by
    rintro rfl
    simp at hmem
  refine ⟨?_, ?_, ?_⟩
  · rw [List.forall_mem_singleton, hacts, hall]
    exact hmakes.written
  · rw [List.forall_mem_singleton, hacts]
    exact hmakes.cased
  · simp only [List.map_cons, List.map_nil, List.sum_singleton, hsize, hmakes.size,
      instructionSize, htype, if_neg hmeta, if_pos hmem]

theorem constructInstruction_adds (h : constructInstruction parse p instr = .ok instr') :
    ∃ l, InstructionAdds parse p l ∧ instr' = instr ++ l := by
  obtain ⟨⟨⟩, -, h⟩ := bind_eq_ok.mp h
  obtain ⟨type, hreq, h⟩ := bind_eq_ok.mp h
  have htype := text_of_require hreq
  split at h
  · next heq =>
    obtain ⟨value, -, h⟩ := bind_eq_ok.mp h
    cases h
    exact ⟨[_], instructionAdds_plain htype (by simp [heq]) rfl
      (by simp [instructionSize, htype, heq, OflInstruction.size]), rfl⟩
  split at h
  · next heq =>
    obtain ⟨value, -, h⟩ := bind_eq_ok.mp h
    obtain ⟨mask, -, h⟩ := bind_eq_ok.mp h
    cases mask with
    | none =>
      cases h
      exact ⟨[_], instructionAdds_plain htype (by simp [heq]) rfl
        (by simp [instructionSize, htype, heq, OflInstruction.size]), rfl⟩
    | some valueMask =>
      cases h
      exact ⟨[_], instructionAdds_plain htype (by simp [heq]) rfl
        (by simp [instructionSize, htype, heq, OflInstruction.size]), rfl⟩
  split at h
  · next heq =>
    obtain ⟨acts, hacts, h⟩ := bind_eq_ok.mp h
    cases h
    exact ⟨[_], instructionAdds_actions htype (by simp [heq]) (constructActionSet_makes hacts) rfl
      rfl, rfl⟩
  split at h
  · next heq =>
    obtain ⟨acts, hacts, h⟩ := bind_eq_ok.mp h
    cases h
    exact ⟨[_], instructionAdds_actions htype (by simp [heq]) (constructActionSet_makes hacts) rfl
      rfl, rfl⟩
  split at h
  · next heq =>
    cases h
    exact ⟨[_], instructionAdds_plain htype (by simp [heq]) rfl
      (by simp [instructionSize, htype, heq, OflInstruction.size]), rfl⟩
  split at h
  · next heq =>
    obtain ⟨value, -, h⟩ := bind_eq_ok.mp h
    cases h
    exact ⟨[_], instructionAdds_plain htype (by simp [heq]) rfl
      (by simp [instructionSize, htype, heq, OflInstruction.size]), rfl⟩
  · cases h
    have hnone : instructionActions parse p = [] := by simp_all [instructionActions]
    have hsize : 0 = instructionSize parse p := by simp_all [instructionSize]
    exact ⟨[], ⟨by simp [hnone], by simp, hsize⟩, by simp⟩

/-- What the builder makes of the elements of an `instruction_set`. -/
structure InstructionSetMakes (parse : String → JsonObject) (ps : List JsonObject) (instr : Instruction) : Prop where
  written : (∀ i ∈ instr, ∀ a ∈ i.actions, OflAction.Written a) ↔
    ∀ p ∈ ps, ∀ a ∈ instructionActions parse p, ¬LosesSlot a.text?
  cased : ∀ i ∈ instr, ∀ a ∈ i.actions, OflAction.Cased a
  size : (instr.map OflInstruction.size).sum = (ps.map (instructionSize parse)).sum

theorem constructInstructionSet_makes
    (h : constructSetIfExists parse (fun _ i p => constructInstruction parse p i) args
      "instruction_set" [] = .ok instr) :
    InstructionSetMakes parse (setObjects parse args "instruction_set") instr := by
  obtain ⟨ls, hls, rfl⟩ := constructSetIfExists_appends (R := InstructionAdds parse)
    (fun _ _ _ _ hok => constructInstruction_adds hok) h
  refine ⟨forall_flatten_iff (fun _ _ hadds => hadds.written) hls, ?_,
    sum_flatten (fun _ _ hadds => hadds.size) hls⟩
  have hcased := (forall_flatten_iff (Q := fun _ : JsonObject => True)
    (fun _ _ hadds => iff_of_true hadds.cased trivial) hls).mpr fun _ _ => trivial
  exact hcased

theorem exists_readInstruction_iff :
    (∃ i', readInstruction i = some i') ↔ ∀ a ∈ i.actions, OflAction.Written a := by
  cases i with
  | writeActions acts | applyActions acts =>
    rw [OflInstruction.actions, ← exists_readActions_iff]
    simp only [readInstruction, Option.map_eq_some_iff]
    constructor
    · rintro ⟨_, as, has, -⟩
      exact ⟨as, has⟩
    · rintro ⟨as, has⟩
      exact ⟨_, as, has, rfl⟩
  | _ => simp [readInstruction, OflInstruction.actions]

theorem readInstruction_sound {i' : AnyInstruction} (h : readInstruction i = some i')
    (hcased : ∀ a ∈ i.actions, OflAction.Cased a) : i'.Sound ∧ i'.ofpLen = (i.size : Nat) := by
  cases i with
  | writeActions acts | applyActions acts =>
    obtain ⟨as, has, rfl⟩ := Option.map_eq_some_iff.mp h
    obtain ⟨hsound, hlen⟩ := readActions_sound has hcased
    refine ⟨hsound, ?_⟩
    simp only [AnyInstruction.ofpLen, OflInstruction.size, hlen, Nat.cast_add, Nat.cast_ofNat]
  | _ =>
    cases h
    exact ⟨trivial, rfl⟩

/-- What is read of instructions whose actions have a case is sound, and as long as they
are. -/
theorem readInstructions_sound {is : List AnyInstruction}
    (h : instr.mapM readInstruction = some is)
    (hcased : ∀ i ∈ instr, ∀ a ∈ i.actions, OflAction.Cased a) :
    (∀ i ∈ is, i.Sound) ∧
      instructionsTotalLen is = ((instr.map OflInstruction.size).sum : Nat) := by
  rw [Lib.mapM_eq_some_iff] at h
  induction h with
  | nil => exact ⟨by simp, rfl⟩
  | cons hread _ ih =>
    rw [List.forall_mem_cons] at hcased
    obtain ⟨hsound, hlen⟩ := ih hcased.2
    obtain ⟨hone, hsize⟩ := readInstruction_sound hread hcased.1
    refine ⟨List.forall_mem_cons.mpr ⟨hone, hsound⟩, ?_⟩
    unfold instructionsTotalLen at hlen ⊢
    simp only [List.map_cons, List.sum_cons, hlen, hsize, Nat.cast_add]

end Instructions

section Buckets

/-! ## Buckets -/

variable {parse : String → JsonObject} {p args : JsonObject} {buckets : List OflBucket}

/-- What the builder makes of the elements of `buckets`. -/
structure BucketSetMakes (parse : String → JsonObject) (ps : List JsonObject) (buckets : List OflBucket) : Prop where
  written : (∀ b ∈ buckets, ∀ a ∈ b.actions, OflAction.Written a) ↔
    ∀ p ∈ ps, ∀ a ∈ setObjects parse p "action_set", ¬LosesSlot a.text?
  cased : ∀ b ∈ buckets, ∀ a ∈ b.actions, OflAction.Cased a

theorem constructBucket_makes {b : OflBucket} (h : constructBucket parse p = .ok b) :
    ActionSetMakes (setObjects parse p "action_set") b.actions := by
  obtain ⟨-, -, h⟩ := bind_eq_ok.mp h
  obtain ⟨weight, -, h⟩ := bind_eq_ok.mp h
  obtain ⟨watchPort, -, h⟩ := bind_eq_ok.mp h
  obtain ⟨watchGroup, -, h⟩ := bind_eq_ok.mp h
  obtain ⟨actions, hacts, h⟩ := bind_eq_ok.mp h
  cases h
  exact constructActionSet_makes hacts

theorem constructBuckets_makes
    (h : constructSetIfExists parse
      (fun _ buckets p => do return buckets ++ [← constructBucket parse p]) args "buckets" [] =
        .ok buckets) :
    BucketSetMakes parse (setObjects parse args "buckets") buckets := by
  have hone : ∀ (i : Nat) (s : List OflBucket) (p : JsonObject) (t : List OflBucket),
      (do return s ++ [← constructBucket parse p]) = (.ok t : Except Fault _) →
        ∃ l, (∃ b, l = [b] ∧ ActionSetMakes (setObjects parse p "action_set") b.actions) ∧
          t = s ++ l := by
    intro i s p t hok
    obtain ⟨b, hb, hok⟩ := bind_eq_ok.mp hok
    cases hok
    exact ⟨[b], ⟨b, rfl, constructBucket_makes hb⟩, rfl⟩
  obtain ⟨ls, hls, rfl⟩ := constructSetIfExists_appends hone h
  refine ⟨forall_flatten_iff ?_ hls, ?_⟩
  · rintro p _ ⟨b, rfl, hmakes⟩
    rw [List.forall_mem_singleton]
    exact hmakes.written
  · refine (forall_flatten_iff (Q := fun _ : JsonObject => True) ?_ hls).mpr fun _ _ => trivial
    rintro p _ ⟨b, rfl, hmakes⟩
    exact iff_of_true (List.forall_mem_singleton.mpr hmakes.cased) trivial

theorem exists_readBucket_iff {b : OflBucket} :
    (∃ b', readBucket b = some b') ↔ ∀ a ∈ b.actions, OflAction.Written a := by
  rw [← exists_readActions_iff]
  simp only [readBucket, Option.map_eq_some_iff]
  constructor
  · rintro ⟨_, as, has, -⟩
    exact ⟨as, has⟩
  · rintro ⟨as, has⟩
    exact ⟨_, as, has, rfl⟩

theorem readBuckets_sound {bs : List AnyBucket} (h : buckets.mapM readBucket = some bs)
    (hcased : ∀ b ∈ buckets, ∀ a ∈ b.actions, OflAction.Cased a) : ∀ b ∈ bs, b.Sound := by
  rw [Lib.mapM_eq_some_iff] at h
  induction h with
  | nil => simp
  | cons hread _ ih =>
    rw [List.forall_mem_cons] at hcased
    obtain ⟨as, has, rfl⟩ := Option.map_eq_some_iff.mp hread
    exact List.forall_mem_cons.mpr ⟨(readActions_sound has hcased.1).1, ih hcased.2⟩

end Buckets

end Nox.Interserver
