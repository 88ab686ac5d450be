import Nox.Interserver.RequestSets
import Nox.Interserver.SharedCounts
import Nox.Interserver.TypeSafety

/-!
# What the elements of an action set denote

The action an element denotes, and when the array that is built of a set has the actions that its
elements denote, one for each and in their order.  The creators of an array work on its memory
here.
-/

namespace Nox.Interserver

open Nox.Oxm OxmFieldIndex JsonObject
open Ofl Libc
open Lib (ok_bind SlotArray)

section Denotation

/-! ## Denotation -/

/-- The number under a key, for a field of so many bits. -/
def denotedNumber (w : Nat) (T : Texts) (key : String) : Option Nat := do
  let n ← numeralValue (← T key)
  if n < 2 ^ w then some n else none

def portNames : List (String × Nat) :=
  [("in_port", ofppInPort), ("table", ofppTable), ("normal", ofppNormal), ("flood", ofppFlood),
    ("controller", ofppController), ("local", ofppLocal)]

/-- A port has a name or a number. -/
def denotedPort (T : Texts) : Option Nat := do
  match portNames.lookup (← T "out_port") with
  | some port => some port
  | none => denotedNumber 32 T "out_port"

def denotedPush (T : Texts) : Option PushAction :=
  match T "tag_type" with
  | some "vlan" => some .pushVlan
  | some "mpls" => some .pushMpls
  | some "pbb" => some .pushPbb
  | _ => none

def denotedPop (T : Texts) : Option OflAction :=
  match T "tag_type" with
  | some "vlan" => some (.header .popVlan)
  | some "mpls" => (denotedNumber 16 T "ethertype").map .popMpls
  | _ => none

def denotedTtl (T : Texts) : Option OflAction :=
  match T "ttl_action", T "ttl_type" with
  | some "set", some "ip" => (denotedNumber 8 T "ttl").map .setNwTtl
  | some "set", some "mpls" => (denotedNumber 8 T "ttl").map .setMplsTtl
  | some "decrement", some "ip" => some (.header .decNwTtl)
  | some "decrement", some "mpls" => some (.header .decMplsTtl)
  | some "copy", some "in" => some (.header .copyTtlIn)
  | some "copy", some "out" => some (.header .copyTtlOut)
  | _, _ => none

/-- The only field that is there, with the memory of the payload its text denotes. -/
def denotedSetField (T : Texts) : Option OflAction :=
  match fields.filter (present T) with
  | [fld] => do
    let payload ← denotedPayload fld (← T fld.name)
    if payload.length = oxmLength fld.index.header then
      some (.setField fld.index.header (hostValue fld.index.header payload))
    else none
  | _ => none

/-- The action an element denotes. -/
def denotedAction (T : Texts) : Option OflAction :=
  match T "action_type" with
  | some "output" => (denotedPort T).map (.output · 0)
  | some "set_queue" => (denotedNumber 32 T "queue_id").map .setQueue
  | some "group" => (denotedNumber 32 T "group_id").map .group
  | some "push" => do return .push (← denotedPush T) (← denotedNumber 16 T "ethertype")
  | some "pop" => denotedPop T
  | some "change_ttl" => denotedTtl T
  | some "set_field" => denotedSetField T
  | _ => none

end Denotation

section Kept

/-! ## Elements that are kept -/

/-- A number under a key that its field can hold. -/
def FitsUnder (w : Nat) (T : Texts) (key : String) : Prop :=
  ∃ text, T key = some text ∧ FitsNumeral w text

/-- The texts whose memory is right: those of `FieldKept`, but of eight bytes all numbers, which are
lost only when they are packed. -/
def FieldStored (fld : MatchField) (text : String) : Prop :=
  match fld.index with
  | metadata | tunnelId => FitsNumeral 64 text
  | _ => FieldKept fld text

/-- The elements whose action is built as they denote it: of a known type, not one that copies a TTL
or sets that of MPLS, with numbers that fit and, to set, one field whose memory is right. -/
def ActionKept (T : Texts) : Prop :=
  match T "action_type" with
  | some "output" => (∃ name ∈ portNames, T "out_port" = some name.1) ∨ FitsUnder 32 T "out_port"
  | some "set_queue" => FitsUnder 32 T "queue_id"
  | some "group" => FitsUnder 32 T "group_id"
  | some "push" => FitsUnder 16 T "ethertype"
  | some "pop" => T "tag_type" = some "vlan" ∨ FitsUnder 16 T "ethertype"
  | some "change_ttl" => T "ttl_action" = some "decrement" ∨
      T "ttl_action" = some "set" ∧ T "ttl_type" = some "ip" ∧ FitsUnder 8 T "ttl"
  | some "set_field" => ∃ fld text, fields.filter (present T) = [fld] ∧ T fld.name = some text ∧
      FieldStored fld text
  | _ => False

end Kept

section Arrays

/-! ## Arrays of actions -/

/-- The array has the actions that the elements denote, one for each. -/
def DenotedArray (ps : List JsonObject) (acts : Actions) : Prop :=
  SlotArray.FilledFor createAction (fun p a => denotedAction p.text? = some a) ps acts

end Arrays

section Elements

/-! ## What an element adds -/

variable {T : Texts} {p : JsonObject} {parse : String → JsonObject} {acts acts' : Actions}
  {a : OflAction} {fld : MatchField} {text : String}

/-- A number is stored as it is denoted when it fits. -/
theorem denotedNumber_eq_iff {w : Nat} {key : String} (htext : T key = some text) :
    denotedNumber w T key = some (narrow w (strtonum text)) ↔ FitsUnder w T key := by
  unfold denotedNumber FitsUnder FitsNumeral
  simp only [htext, Option.bind_eq_bind, Option.bind_some]
  constructor
  · intro h
    obtain ⟨n, hn, h⟩ := Option.bind_eq_some_iff.mp h
    split at h
    · next hlt =>
      exact ⟨text, rfl, n, hn, hlt, lt_of_narrow_strtonum hn (Option.some.inj h).symm⟩
    · cases h
  · rintro ⟨_, ⟨⟩, n, hn, hlt, hmax⟩
    rw [narrow_strtonum hn hlt hmax]
    simp [hn, hlt]

/-- What the builder appends for an element: no more than an action, which is the one it denotes
where the element is kept. -/
structure ActionBuilds (p : JsonObject) (l : Actions) : Prop where
  length : l.length ≤ 1
  kept : (∃ a, l = [a] ∧ OflAction.Stored a ∧ denotedAction p.text? = some a) ↔
    ActionKept p.text?

theorem actionBuilds_stored (ha : OflAction.Stored a)
    (h : denotedAction p.text? = some a ↔ ActionKept p.text?) : ActionBuilds p [a] where
  length := Nat.le_refl 1
  kept := by
    rw [← h]
    constructor
    · rintro ⟨_, ⟨⟩, -, hdenoted⟩
      exact hdenoted
    · exact fun hdenoted => ⟨a, rfl, ha, hdenoted⟩

theorem actionBuilds_lost (ha : ¬OflAction.Stored a) (h : ¬ActionKept p.text?) :
    ActionBuilds p [a] where
  length := Nat.le_refl 1
  kept := by
    refine iff_of_false ?_ h
    rintro ⟨_, ⟨⟩, hstored, -⟩
    exact ha hstored

theorem actionBuilds_nil (h : ¬ActionKept p.text?) : ActionBuilds p [] where
  length := Nat.zero_le 1
  kept := by
    refine iff_of_false ?_ h
    rintro ⟨_, ⟨⟩, -⟩

theorem lookup_portNames {name : String × Nat} (h : name ∈ portNames) :
    portNames.lookup name.1 = some (outputPort name.1) := by
  revert name
  decide

theorem outputPort_of_not_name (h : ∀ name ∈ portNames, text ≠ name.1) :
    portNames.lookup text = none ∧ outputPort text = narrow 32 (strtonum text) := by
  refine ⟨List.lookup_eq_none_iff.mpr fun name hmem => by simpa using h name hmem, ?_⟩
  simp only [portNames, List.forall_mem_cons, List.not_mem_nil, false_implies, implies_true] at h
  obtain ⟨h₁, h₂, h₃, h₄, h₅, h₆, -⟩ := h
  simp [outputPort, h₁, h₂, h₃, h₄, h₅, h₆]

/-- The port the builder reads is the one that is denoted, unless the text is neither a name nor a
number that fits. -/
theorem denotedPort_eq_iff (htext : T "out_port" = some text) :
    denotedPort T = some (outputPort text) ↔
      (∃ name ∈ portNames, T "out_port" = some name.1) ∨ FitsUnder 32 T "out_port" := by
  have hport : denotedPort T = match portNames.lookup text with
      | some port => some port
      | none => denotedNumber 32 T "out_port" := by
    rw [denotedPort, htext]
    rfl
  rw [hport]
  by_cases hname : ∃ name ∈ portNames, text = name.1
  · obtain ⟨name, hmem, rfl⟩ := hname
    rw [lookup_portNames hmem]
    exact iff_of_true rfl (Or.inl ⟨name, hmem, htext⟩)
  · have hnot : ∀ name ∈ portNames, text ≠ name.1 := fun name hmem heq =>
      hname ⟨name, hmem, heq⟩
    obtain ⟨hlookup, hnumber⟩ := outputPort_of_not_name hnot
    rw [hlookup, hnumber]
    dsimp only
    rw [denotedNumber_eq_iff htext, or_iff_right]
    rintro ⟨name, hmem, heq⟩
    rw [htext] at heq
    exact hname ⟨name, hmem, Option.some.inj heq⟩

theorem eight_cases (h : fld ∈ fields) :
    (fld.index = metadata ∨ fld.index = tunnelId) ∧ fld.size = 8 ∧
      oxmLength fld.index.header = 8 ∧ isSwapped fld.index.header = true ∨
    oxmLength fld.index.header ≠ 8 ∧ fld.index ≠ metadata ∧ fld.index ≠ tunnelId := by
  revert fld
  decide

/-- The memory of a value is right for the texts of `FieldStored`. -/
theorem fieldStored_iff (h : fld ∈ fields)
    (hcheck : checkArg parse fld.name (actionArgType fld.index) text = .ok ())
    (harp : isArpHardware fld.index = false) :
    (∃ payload, denotedPayload fld text = some payload ∧
      payload.length = oxmLength fld.index.header ∧
      hostValue fld.index.header payload = setFieldValue fld text) ↔ FieldStored fld text := by
  rcases eight_cases h with ⟨hk, hsize, hlen, hswap⟩ | ⟨hne, hmeta, htunnel⟩
  · have hnum : actionArgType fld.index = .eNum := by rcases hk with hk | hk <;> rw [hk] <;> rfl
    have hvalue : setFieldValue fld text = leBytes 8 (narrow 64 (strtonum text)) := by
      rcases hk with hk | hk <;> simp [setFieldValue, hk, hsize]
    have hstored : FieldStored fld text ↔ FitsNumeral (8 * 8) text := by
      rcases hk with hk | hk <;> simp [FieldStored, hk]
    rw [hstored, ← numeral_stored_iff, hvalue]
    simp only [denotedPayload_number hnum, hlen, hostValue, hswap, if_true]
    constructor
    · rintro ⟨_, ⟨n, hn, hlt, rfl⟩, -, heq⟩
      rw [hn, Option.bind_some, if_pos hlt, ← heq, beBytes, List.reverse_reverse]
    · intro heq
      obtain ⟨n, hn, heq⟩ := Option.bind_eq_some_iff.mp heq
      split at heq
      · next hlt =>
        refine ⟨beBytes 8 n, ⟨n, hn, hlt, rfl⟩, beBytes_length 8 n, ?_⟩
        rw [beBytes, List.reverse_reverse]
        exact Option.some.inj heq
      · cases heq
  · have hstored : FieldStored fld text ↔ FieldKept fld text := by
      unfold FieldStored
      split <;> simp_all
    rw [hstored, ← valueKept_iff h hcheck harp, valueKept_iff_of_ne h hne]

/-- The only field that is there is the one that is chosen, but for the hardware addresses of
ARP. -/
theorem chosenField_of_unique (h : fields.filter (present T) = [fld]) :
    chosenField T = if isArpHardware fld.index then none else some fld := by
  have hunique {g : MatchField} (hg : g ∈ fields) (hpresent : present T g = true) : g = fld := by
    have hmem : g ∈ fields.filter (present T) := List.mem_filter.mpr ⟨hg, hpresent⟩
    rwa [h, List.mem_singleton] at hmem
  have hfld : fld ∈ fields.filter (present T) := by rw [h]; exact List.mem_singleton_self fld
  obtain ⟨hmem, hpresent⟩ := List.mem_filter.mp hfld
  cases hchosen : chosenField T with
  | some g =>
    obtain ⟨hg, harp⟩ := chosenField_mem hchosen
    cases hunique hg (List.find?_some hchosen)
    rw [harp]
    rfl
  | none =>
    cases harp : isArpHardware fld.index with
    | true => rfl
    | false =>
      have hcandidates : ∀ g ∈ fields, isArpHardware g.index = false → g ∈ ipv4Group ++
          ipv6Group ++ ethGroup.reverse ++ matchTagsSpecial.filter (·.size != 6) := by decide
      have hnone := List.find?_eq_none.mp hchosen fld (hcandidates fld hmem harp)
      exact absurd hpresent hnone

/-- What a `set_field` denotes with a field alone. -/
theorem denotedSetField_unique (h : fields.filter (present T) = [fld])
    (htext : T fld.name = some text) (hvalue : a = setFieldAction T fld) :
    denotedSetField T = some a ↔ ∃ payload, denotedPayload fld text = some payload ∧
      payload.length = oxmLength fld.index.header ∧
      hostValue fld.index.header payload = setFieldValue fld text := by
  subst hvalue
  unfold denotedSetField setFieldAction
  rw [h]
  simp only [htext, Option.getD_some, Option.bind_eq_bind, Option.bind_some, Option.bind_eq_some_iff]
  refine exists_congr fun payload => and_congr_right fun _ => ?_
  split
  · next hlength => simp [hlength]
  · next hlength => simp [hlength]

theorem constructSetField_builds (htype : p.text? "action_type" = some "set_field")
    (hdict : p.IsDict) (hcheck : checkArgs parse actionTags p = .ok ())
    (h : constructSetField p acts = .ok acts') : ∃ l, ActionBuilds p l ∧ acts' = acts ++ l := by
  have hkept : ActionKept p.text? ↔ ∃ fld text, fields.filter (present p.text?) = [fld] ∧
      p.text? fld.name = some text ∧ FieldStored fld text := by
    simp only [ActionKept, htype]
  have hdenoted : denotedAction p.text? = denotedSetField p.text? := by
    simp only [denotedAction, htype]
  rw [constructSetField_eq hdict hcheck] at h
  cases h
  refine ⟨_, ?_, rfl⟩
  by_cases hunique : ∃ fld, fields.filter (present p.text?) = [fld]
  · obtain ⟨fld, hunique⟩ := hunique
    have hfld : fld ∈ fields.filter (present p.text?) := by
      rw [hunique]
      exact List.mem_singleton_self fld
    obtain ⟨hmem, hpresent⟩ := List.mem_filter.mp hfld
    obtain ⟨text, htext⟩ := Option.isSome_iff_exists.mp hpresent
    have hiff : ActionKept p.text? ↔ FieldStored fld text := by
      rw [hkept]
      constructor
      · rintro ⟨g, text', hg, htext', hstored⟩
        rw [hunique] at hg
        cases hg
        rw [htext] at htext'
        cases htext'
        exact hstored
      · exact fun hstored => ⟨fld, text, hunique, htext, hstored⟩
    rw [chosenField_of_unique hunique]
    cases harp : isArpHardware fld.index with
    | true =>
      refine actionBuilds_nil fun hstored => ?_
      rw [hiff] at hstored
      simp only [isArpHardware, Bool.or_eq_true, beq_iff_eq] at harp
      rcases harp with hk | hk <;> simp [FieldStored, FieldKept, hk] at hstored
    | false =>
      have htag : (fld.name, actionArgType fld.index) ∈ actionTags :=
        List.mem_append_right _ (List.mem_map_of_mem hmem)
      have hvalid := checkArg_of_checkArgs hcheck htag (by rw [findIfExists_dict hdict, htext])
      refine actionBuilds_stored ⟨by rintro ⟨⟩, trivial⟩ ?_
      rw [hdenoted, hiff, denotedSetField_unique hunique htext rfl,
        fieldStored_iff hmem hvalid harp]
  · have hnot : ¬ActionKept p.text? := by
      rw [hkept]
      rintro ⟨fld, text, hfld, -⟩
      exact hunique ⟨fld, hfld⟩
    cases hchosen : chosenField p.text? with
    | none => exact actionBuilds_nil hnot
    | some fld =>
      refine actionBuilds_stored ⟨by rintro ⟨⟩, trivial⟩ (iff_of_false ?_ hnot)
      rw [hdenoted, denotedSetField]
      split
      · next g hg => exact absurd ⟨g, hg⟩ hunique
      · rintro ⟨⟩

theorem constructChangeTtl_builds (htype : p.text? "action_type" = some "change_ttl")
    (h : constructChangeTtl p acts = .ok acts') : ∃ l, ActionBuilds p l ∧ acts' = acts ++ l := by
  have hkept : ActionKept p.text? ↔ p.text? "ttl_action" = some "decrement" ∨
      p.text? "ttl_action" = some "set" ∧ p.text? "ttl_type" = some "ip" ∧
        FitsUnder 8 p.text? "ttl" := by
    simp only [ActionKept, htype]
  have hdenoted : denotedAction p.text? = denotedTtl p.text? := by
    simp only [denotedAction, htype]
  obtain ⟨ta, hta, h⟩ := bind_eq_ok.mp h
  replace hta := text_of_require hta
  split at h
  · next heq =>
    subst heq
    obtain ⟨ttl, httl, h⟩ := bind_eq_ok.mp h
    obtain ⟨ttlType, hty, h⟩ := bind_eq_ok.mp h
    replace httl := text_of_require httl
    replace hty := text_of_require hty
    split at h
    · next heq =>
      subst heq
      cases h
      refine ⟨_, ?_, rfl⟩
      refine actionBuilds_stored ⟨nofun, trivial⟩ ?_
      have hfits := denotedNumber_eq_iff (w := 8) httl
      simp [hdenoted, hkept, denotedTtl, hta, hty, ← hfits]
    split at h
    · next heq =>
      subst heq
      cases h
      refine ⟨_, ?_, rfl⟩
      refine actionBuilds_lost (fun hstored => hstored.2) ?_
      simp [hkept, hta, hty]
    · cases h
  split at h
  · next heq =>
    subst heq
    obtain ⟨ttlType, hty, h⟩ := bind_eq_ok.mp h
    replace hty := text_of_require hty
    split at h
    · next heq =>
      subst heq
      cases h
      refine ⟨_, ?_, rfl⟩
      refine actionBuilds_stored ⟨nofun, trivial⟩ ?_
      simp [hdenoted, hkept, denotedTtl, hta, hty]
    split at h
    · next heq =>
      subst heq
      cases h
      refine ⟨_, ?_, rfl⟩
      refine actionBuilds_stored ⟨nofun, trivial⟩ ?_
      simp [hdenoted, hkept, denotedTtl, hta, hty]
    · cases h
  split at h
  · next heq =>
    subst heq
    obtain ⟨ttlType, hty, h⟩ := bind_eq_ok.mp h
    have hnot : ¬ActionKept p.text? := by simp [hkept, hta]
    split at h
    · cases h
      refine ⟨_, ?_, rfl⟩
      exact actionBuilds_lost (fun hstored => hstored.1 rfl) hnot
    split at h
    · cases h
      refine ⟨_, ?_, rfl⟩
      exact actionBuilds_lost (fun hstored => hstored.1 rfl) hnot
    · cases h
  · cases h

theorem constructPush_builds (htype : p.text? "action_type" = some "push")
    (h : constructPush p acts = .ok acts') : ∃ l, ActionBuilds p l ∧ acts' = acts ++ l := by
  have hkept : ActionKept p.text? ↔ FitsUnder 16 p.text? "ethertype" := by
    simp only [ActionKept, htype]
  obtain ⟨tt, htt, h⟩ := bind_eq_ok.mp h
  obtain ⟨et, het, h⟩ := bind_eq_ok.mp h
  replace htt := text_of_require htt
  replace het := text_of_require het
  have hbuilds {type : PushAction} (hpush : denotedPush p.text? = some type) :
      ActionBuilds p [.push type (narrow 16 (strtonum et))] := by
    refine actionBuilds_stored ⟨nofun, trivial⟩ ?_
    have hfits := denotedNumber_eq_iff (w := 16) het
    simp only [denotedAction, htype, hpush, hkept, ← hfits]
    cases denotedNumber 16 p.text? "ethertype" <;> simp
  dsimp only at h
  split at h
  · next heq =>
    cases h
    exact ⟨_, hbuilds (by simp [denotedPush, htt, heq]), rfl⟩
  split at h
  · next heq =>
    cases h
    exact ⟨_, hbuilds (by simp [denotedPush, htt, heq]), rfl⟩
  split at h
  · next heq =>
    cases h
    exact ⟨_, hbuilds (by simp [denotedPush, htt, heq]), rfl⟩
  · cases h

theorem constructPop_builds (htype : p.text? "action_type" = some "pop")
    (h : constructPop p acts = .ok acts') : ∃ l, ActionBuilds p l ∧ acts' = acts ++ l := by
  have hkept : ActionKept p.text? ↔ p.text? "tag_type" = some "vlan" ∨
      FitsUnder 16 p.text? "ethertype" := by
    simp only [ActionKept, htype]
  have hdenoted : denotedAction p.text? = denotedPop p.text? := by
    simp only [denotedAction, htype]
  obtain ⟨tt, htt, h⟩ := bind_eq_ok.mp h
  replace htt := text_of_require htt
  split at h
  · next heq =>
    subst heq
    cases h
    refine ⟨_, ?_, rfl⟩
    refine actionBuilds_stored ⟨nofun, trivial⟩ ?_
    simp [hdenoted, hkept, denotedPop, htt]
  split at h
  · next heq =>
    subst heq
    obtain ⟨et, het, h⟩ := bind_eq_ok.mp h
    replace het := text_of_require het
    cases h
    refine ⟨_, ?_, rfl⟩
    refine actionBuilds_stored ⟨nofun, trivial⟩ ?_
    have hfits := denotedNumber_eq_iff (w := 16) het
    simp [hdenoted, hkept, denotedPop, htt, ← hfits]
  · cases h

/-- What the builder appends for an element. -/
theorem constructAction_builds (h : constructAction p acts parse = .ok acts') :
    ∃ l, ActionBuilds p l ∧ acts' = acts ++ l := by
  obtain ⟨⟨⟩, hcheck, h⟩ := bind_eq_ok.mp h
  obtain ⟨type, hreq, h⟩ := bind_eq_ok.mp h
  obtain ⟨r, hfind, -⟩ := bind_eq_ok.mp hreq
  have hdict := (isDict_of_findIfExists hfind).1
  have htype := text_of_require hreq
  split at h
  · next heq =>
    subst heq
    obtain ⟨value, hvalue, h⟩ := bind_eq_ok.mp h
    replace hvalue := text_of_require hvalue
    cases h
    refine ⟨_, ?_, rfl⟩
    refine actionBuilds_stored ⟨nofun, trivial⟩ ?_
    simpa [denotedAction, ActionKept, htype] using denotedPort_eq_iff hvalue
  split at h
  · next heq =>
    subst heq
    obtain ⟨value, hvalue, h⟩ := bind_eq_ok.mp h
    replace hvalue := text_of_require hvalue
    cases h
    refine ⟨_, ?_, rfl⟩
    refine actionBuilds_stored ⟨nofun, trivial⟩ ?_
    simp [denotedAction, ActionKept, htype, ← denotedNumber_eq_iff (w := 32) hvalue]
  split at h
  · next heq =>
    subst heq
    obtain ⟨value, hvalue, h⟩ := bind_eq_ok.mp h
    replace hvalue := text_of_require hvalue
    cases h
    refine ⟨_, ?_, rfl⟩
    refine actionBuilds_stored ⟨nofun, trivial⟩ ?_
    simp [denotedAction, ActionKept, htype, ← denotedNumber_eq_iff (w := 32) hvalue]
  split at h
  · next heq => exact constructPush_builds (heq ▸ htype) h
  split at h
  · next heq => exact constructPop_builds (heq ▸ htype) h
  split at h
  · next heq => exact constructChangeTtl_builds (heq ▸ htype) h
  split at h
  · next heq => exact constructSetField_builds (heq ▸ htype) hdict hcheck h
  · cases h
    refine ⟨[], actionBuilds_nil ?_, by simp⟩
    unfold ActionKept
    split <;> simp_all

end Elements

section ActionArrays

/-! ## Action arrays -/

variable {parse : String → JsonObject} {args : JsonObject} {acts : Actions}

/-- The array has what the elements add, one after the other. -/
def BuiltArray (ps : List JsonObject) (acts : Actions) : Prop :=
  ∃ ls, List.Forall₂ ActionBuilds ps ls ∧ acts = ls.flatten

theorem constructActionSet_built (h : constructActionSet parse args = .ok acts) :
    BuiltArray (setObjects parse args "action_set") acts := by
  obtain ⟨ls, hls, rfl⟩ := constructSetIfExists_appends (R := ActionBuilds)
    (fun _ _ _ _ hok => constructAction_builds hok) h
  exact ⟨ls, hls, rfl⟩

theorem BuiltArray.denoted_iff {ps : List JsonObject} (h : BuiltArray ps acts) :
    DenotedArray ps acts ↔ ∀ p ∈ ps, ActionKept p.text? := by
  obtain ⟨ls, hls, rfl⟩ := h
  rw [DenotedArray, Lib.SlotArray.filledFor_iff createAction_stores]
  exact Lib.forall₂_flatten_iff (fun _ _ hbuilds => ⟨hbuilds.length, hbuilds.kept⟩) hls

/-- The array that is built of an accepted set has exactly the actions its elements denote, in their
order, if and only if each of them is kept. -/
theorem actionArray_denoted_iff (h : constructActionSet parse args = .ok acts) :
    DenotedArray (setObjects parse args "action_set") acts ↔
      ∀ p ∈ setObjects parse args "action_set", ActionKept p.text? :=
  (constructActionSet_built h).denoted_iff

/-- An instruction with these actions in its set. -/
def actionSet (actions : List (List (String × String))) : JsonObject :=
  .dict [("action_set", .array (actions.map dictOf))]

/-- A tag, a new address and one hop less, and then to a group and out of all ports. -/
def fiveActions : JsonObject :=
  actionSet [[("action_type", "push"), ("tag_type", "vlan"), ("ethertype", "33024")],
    [("action_type", "set_field"), ("eth_dst", "02:00:00:00:00:01")],
    [("action_type", "change_ttl"), ("ttl_action", "decrement"), ("ttl_type", "ip")],
    [("action_type", "group"), ("group_id", "7")],
    [("action_type", "output"), ("out_port", "flood")]]

theorem actionArray_denoted_output :
    DenotedArray (setObjects parseJson fiveActions "action_set")
        [.push .pushVlan 33024, .setField OxmFieldIndex.ethDst.header [2, 0, 0, 0, 0, 1],
          .header .decNwTtl, .group 7, .output ofppFlood 0] ↔
      ∀ p ∈ setObjects parseJson fiveActions "action_set", ActionKept p.text? :=
  actionArray_denoted_iff (by decide +kernel)

/-- The action that copies a TTL inwards is accepted, but its creator writes to where the new slot
points before it points to the action. -/
theorem copied_ttl_not_denoted :
    (constructActionSet parseJson (actionSet [[("action_type", "change_ttl"),
        ("ttl_action", "copy"), ("ttl_type", "in")]])).toOption = some [.untyped] ∧
      ¬DenotedArray (setObjects parseJson (actionSet [[("action_type", "change_ttl"),
        ("ttl_action", "copy"), ("ttl_type", "in")]]) "action_set") [.untyped] := by
  refine ⟨by decide +kernel, ?_⟩
  rintro ⟨array, as, harray, -⟩
  have hlength : (setObjects parseJson (actionSet [[("action_type", "change_ttl"),
      ("ttl_action", "copy"), ("ttl_type", "in")]]) "action_set").length = 1 := by decide +kernel
  rw [hlength] at harray
  cases harray

end ActionArrays

end Nox.Interserver
