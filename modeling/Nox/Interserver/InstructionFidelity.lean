import Nox.Interserver.ActionFidelity

/-!
# What the elements of the lists of a modification denote

The instructions of a `flow_mod`, the buckets of a `group_mod` and the bands of a `meter_mod`: what
an element denotes, and when the array in the message has what the elements denote, one for each and
in their order.
-/

namespace Nox.Interserver

open Nox.Oxm JsonObject
open Ofl
open Lib (ok_bind SlotArray)

section Denotation

/-! ## Denotation -/

variable (parse : String → JsonObject) (p : JsonObject)

/-- What an element of an `instruction_set` denotes.  A mask that is not there is full. -/
def DenotesInstruction : OflInstruction → Prop
  | .gotoTable tableId =>
    p.text? "instr_type" = some "goto_table" ∧ denotedNumber 8 p.text? "goto_id" = some tableId
  | .writeMetadata metadata metadataMask =>
    p.text? "instr_type" = some "write_metadata" ∧
      denotedNumber 64 p.text? "metadata" = some metadata ∧
      (p.text? "metadata_mask" = none ∧ metadataMask = 0xffffffffffffffff ∨
        denotedNumber 64 p.text? "metadata_mask" = some metadataMask)
  | .writeActions acts =>
    p.text? "instr_type" = some "write_actions" ∧
      DenotedArray (setObjects parse p "action_set") acts
  | .applyActions acts =>
    p.text? "instr_type" = some "apply_actions" ∧
      DenotedArray (setObjects parse p "action_set") acts
  | .clearActions => p.text? "instr_type" = some "clear_actions"
  | .meter meterId =>
    p.text? "instr_type" = some "meter" ∧ denotedNumber 32 p.text? "meter_id" = some meterId

/-- The number under a key, zero if there is none. -/
def DenotesField (w : Nat) (key : String) (n : Nat) : Prop :=
  p.text? key = none ∧ n = 0 ∨ denotedNumber w p.text? key = some n

/-- What an element of `buckets` denotes. -/
structure DenotesBucket (b : OflBucket) : Prop where
  weight : DenotesField p 16 "weight" b.weight
  watchPort : DenotesField p 32 "watch_port" b.watchPort
  watchGroup : DenotesField p 32 "watch_group" b.watchGroup
  actions : DenotedArray (setObjects parse p "action_set") b.actions

/-- What an element of `meter_bands` denotes. -/
def DenotesBand : OflMeterBand → Prop
  | .drop rate burstSize =>
    p.text? "meter_type" = some "drop" ∧ denotedNumber 32 p.text? "rate" = some rate ∧
      denotedNumber 32 p.text? "burst_size" = some burstSize
  | .dscpRemark rate burstSize precLevel =>
    p.text? "meter_type" = some "dscp_remark" ∧ denotedNumber 32 p.text? "rate" = some rate ∧
      denotedNumber 32 p.text? "burst_size" = some burstSize ∧
      denotedNumber 8 p.text? "prec_level" = some precLevel

end Denotation

section Kept

/-! ## Elements that are kept -/

variable (parse : String → JsonObject) (p : JsonObject)

/-- The actions of its set are kept. -/
def ActionsKept : Prop := ∀ a ∈ setObjects parse p "action_set", ActionKept a.text?

/-- A number that is not there, or fits. -/
def AbsentOrFits (w : Nat) (key : String) : Prop :=
  p.text? key = none ∨ FitsUnder w p.text? key

/-- The instructions that are built as they are denoted: of a known type, with numbers that fit and
actions that are kept. -/
def InstructionKept : Prop :=
  match p.text? "instr_type" with
  | some "goto_table" => FitsUnder 8 p.text? "goto_id"
  | some "write_metadata" => FitsUnder 64 p.text? "metadata" ∧ AbsentOrFits p 64 "metadata_mask"
  | some "write_actions" | some "apply_actions" => ActionsKept parse p
  | some "clear_actions" => True
  | some "meter" => FitsUnder 32 p.text? "meter_id"
  | _ => False

structure BucketKept : Prop where
  weight : AbsentOrFits p 16 "weight"
  watchPort : AbsentOrFits p 32 "watch_port"
  watchGroup : AbsentOrFits p 32 "watch_group"
  actions : ActionsKept parse p

/-- A band has numbers, which nothing has checked. -/
structure BandKept : Prop where
  rate : FitsUnder 32 p.text? "rate"
  burstSize : FitsUnder 32 p.text? "burst_size"
  precLevel : p.text? "meter_type" = some "dscp_remark" → FitsUnder 8 p.text? "prec_level"

end Kept

section Arrays

/-! ## Arrays of a message -/

/-- How the creators of `group_mod` and `meter_mod` store a bucket or a band. -/
def pushPointer {α : Type} (num : Nat) (array : SlotArray α) (a : α) : Option (SlotArray α) :=
  (array.grow num).store num a

theorem pushPointer_stores {α : Type} :
    SlotArray.Stores (pushPointer (α := α)) fun _ => True := by
  intro m l a h
  obtain ⟨hholds, hlength⟩ := h.grow
  exact Or.inl ⟨trivial, hholds.full_of_store hlength a⟩

variable {parse : String → JsonObject} {args p : JsonObject}

/-- What a builder appends for an element: no more than one entry, which is denoted where the
element is kept. -/
structure Builds {β : Type} (R : β → Prop) (kept : Prop) (l : List β) : Prop where
  length : l.length ≤ 1
  kept : (∃ b, l = [b] ∧ True ∧ R b) ↔ kept

theorem builds_one {β : Type} {R : β → Prop} {kept : Prop} {b : β} (h : R b ↔ kept) :
    Builds R kept [b] where
  length := Nat.le_refl 1
  kept := by
    rw [← h]
    constructor
    · rintro ⟨_, ⟨⟩, -, hb⟩
      exact hb
    · exact fun hb => ⟨b, rfl, trivial, hb⟩

/-- The array of a message has what the elements denote when they are kept. -/
theorem filledFor_iff_kept {β : Type} {push : SlotArray.Push β}
    (hpush : SlotArray.Stores push fun _ => True) {R : JsonObject → β → Prop}
    {kept : JsonObject → Prop} {construct : Nat → List β → JsonObject → Except Fault (List β)}
    {key : String} {t : List β}
    (hbuilds : ∀ i s p t, construct i s p = .ok t → ∃ l, Builds (R p) (kept p) l ∧ t = s ++ l)
    (h : constructSetIfExists parse construct args key [] = .ok t) :
    SlotArray.FilledFor push R (setObjects parse args key) t ↔
      ∀ p ∈ setObjects parse args key, kept p := by
  obtain ⟨ls, hls, rfl⟩ := constructSetIfExists_appends
    (R := fun p l => Builds (R p) (kept p) l) hbuilds h
  rw [List.nil_append, SlotArray.filledFor_iff hpush]
  exact Lib.forall₂_flatten_iff (fun _ _ hb => ⟨hb.length, hb.kept⟩) hls

end Arrays

section Elements

/-! ## What an element adds -/

variable {parse : String → JsonObject} {p : JsonObject} {w n : Nat} {key what : String}

/-- A number that a builder reads if it is there. -/
theorem readNum_cases {default : Except Fault Nat} (h : readNum w p key default = .ok n) :
    p.text? key = none ∧ default = .ok n ∨
      ∃ text, p.text? key = some text ∧ n = narrow w (strtonum text) := by
  obtain ⟨r, hr, h⟩ := bind_eq_ok.mp h
  obtain ⟨-, rfl⟩ := isDict_of_findIfExists hr
  cases htext : p.text? key with
  | none =>
    rw [htext] at h
    exact Or.inl ⟨rfl, h⟩
  | some text =>
    rw [htext] at h
    cases h
    exact Or.inr ⟨text, rfl, rfl⟩

theorem denotesField_iff (h : readNum w p key (.ok 0) = .ok n) :
    DenotesField p w key n ↔ AbsentOrFits p w key := by
  rcases readNum_cases h with ⟨hnone, hzero⟩ | ⟨text, htext, rfl⟩
  · exact iff_of_true (Or.inl ⟨hnone, (Except.ok.inj hzero).symm⟩) (Or.inl hnone)
  · have hpresent : p.text? key ≠ none := by simp [htext]
    unfold DenotesField AbsentOrFits
    rw [denotedNumber_eq_iff htext, or_iff_right fun h => hpresent h.1, or_iff_right hpresent]

theorem denotedNumber_of_readNum (h : readNum w p key (invalidArgument what) = .ok n) :
    denotedNumber w p.text? key = some n ↔ FitsUnder w p.text? key := by
  rcases readNum_cases h with ⟨-, hinvalid⟩ | ⟨text, htext, rfl⟩
  · cases hinvalid
  · exact denotedNumber_eq_iff htext

theorem constructInstruction_builds {instr instr' : Instruction}
    (h : constructInstruction parse p instr = .ok instr') :
    ∃ l, Builds (DenotesInstruction parse p) (InstructionKept parse p) l ∧ instr' = instr ++ l := by
  obtain ⟨⟨⟩, -, h⟩ := bind_eq_ok.mp h
  obtain ⟨type, hreq, h⟩ := bind_eq_ok.mp h
  have htype := text_of_require hreq
  split at h
  · next heq =>
    subst heq
    obtain ⟨value, hvalue, h⟩ := bind_eq_ok.mp h
    replace hvalue := text_of_require hvalue
    cases h
    refine ⟨[_], builds_one ?_, rfl⟩
    simp [DenotesInstruction, InstructionKept, htype, ← denotedNumber_eq_iff hvalue]
  split at h
  · next heq =>
    subst heq
    obtain ⟨value, hvalue, h⟩ := bind_eq_ok.mp h
    obtain ⟨mask, hmask, h⟩ := bind_eq_ok.mp h
    replace hvalue := text_of_require hvalue
    obtain ⟨-, hmask⟩ := isDict_of_findIfExists hmask
    cases mask with
    | none =>
      cases h
      refine ⟨[_], builds_one ?_, rfl⟩
      simp [DenotesInstruction, InstructionKept, AbsentOrFits, htype, hmask,
        ← denotedNumber_eq_iff hvalue]
    | some valueMask =>
      cases h
      refine ⟨[_], builds_one ?_, rfl⟩
      simp [DenotesInstruction, InstructionKept, AbsentOrFits, htype, hmask,
        ← denotedNumber_eq_iff hvalue, ← denotedNumber_eq_iff hmask]
  split at h
  · next heq =>
    subst heq
    obtain ⟨acts, hacts, h⟩ := bind_eq_ok.mp h
    cases h
    refine ⟨[_], builds_one ?_, rfl⟩
    simp [DenotesInstruction, InstructionKept, ActionsKept, htype,
      (constructActionSet_built hacts).denoted_iff]
  split at h
  · next heq =>
    subst heq
    obtain ⟨acts, hacts, h⟩ := bind_eq_ok.mp h
    cases h
    refine ⟨[_], builds_one ?_, rfl⟩
    simp [DenotesInstruction, InstructionKept, ActionsKept, htype,
      (constructActionSet_built hacts).denoted_iff]
  split at h
  · next heq =>
    subst heq
    cases h
    refine ⟨[_], builds_one ?_, rfl⟩
    simp [DenotesInstruction, InstructionKept, htype]
  split at h
  · next heq =>
    subst heq
    obtain ⟨value, hvalue, h⟩ := bind_eq_ok.mp h
    replace hvalue := text_of_require hvalue
    cases h
    refine ⟨[_], builds_one ?_, rfl⟩
    simp [DenotesInstruction, InstructionKept, htype, ← denotedNumber_eq_iff hvalue]
  · cases h
    have hnot : ¬InstructionKept parse p := by
      unfold InstructionKept
      split <;> simp_all
    refine ⟨[], ⟨Nat.zero_le 1, iff_of_false ?_ hnot⟩, by simp⟩
    rintro ⟨_, ⟨⟩, -⟩

theorem constructBucket_denotes {b : OflBucket} (h : constructBucket parse p = .ok b) :
    DenotesBucket parse p b ↔ BucketKept parse p := by
  obtain ⟨-, -, h⟩ := bind_eq_ok.mp h
  obtain ⟨weight, hweight, h⟩ := bind_eq_ok.mp h
  obtain ⟨watchPort, hport, h⟩ := bind_eq_ok.mp h
  obtain ⟨watchGroup, hgroup, h⟩ := bind_eq_ok.mp h
  obtain ⟨actions, hacts, h⟩ := bind_eq_ok.mp h
  cases h
  constructor
  · intro hdenoted
    exact ⟨(denotesField_iff hweight).mp hdenoted.weight, (denotesField_iff hport).mp
      hdenoted.watchPort, (denotesField_iff hgroup).mp hdenoted.watchGroup,
      (constructActionSet_built hacts).denoted_iff.mp hdenoted.actions⟩
  · intro hkept
    exact ⟨(denotesField_iff hweight).mpr hkept.weight, (denotesField_iff hport).mpr
      hkept.watchPort, (denotesField_iff hgroup).mpr hkept.watchGroup,
      (constructActionSet_built hacts).denoted_iff.mpr hkept.actions⟩

theorem constructBand_denotes {b : OflMeterBand} (h : constructBand p = .ok b) :
    DenotesBand p b ↔ BandKept p := by
  obtain ⟨rate, hrate, h⟩ := bind_eq_ok.mp h
  obtain ⟨burstSize, hburst, h⟩ := bind_eq_ok.mp h
  obtain ⟨type, hreq, h⟩ := bind_eq_ok.mp h
  have htype := text_of_require hreq
  replace hrate := denotedNumber_of_readNum hrate
  replace hburst := denotedNumber_of_readNum hburst
  split at h
  · next heq =>
    subst heq
    cases h
    rw [DenotesBand, htype, hrate, hburst]
    constructor
    · exact fun ⟨_, hr, hb⟩ => ⟨hr, hb, by simp [htype]⟩
    · exact fun hkept => ⟨rfl, hkept.rate, hkept.burstSize⟩
  split at h
  · next heq =>
    subst heq
    obtain ⟨precLevel, hprec, h⟩ := bind_eq_ok.mp h
    replace hprec := denotedNumber_of_readNum hprec
    cases h
    rw [DenotesBand, htype, hrate, hburst, hprec]
    constructor
    · exact fun ⟨_, hr, hb, hp⟩ => ⟨hr, hb, fun _ => hp⟩
    · exact fun hkept => ⟨rfl, hkept.rate, hkept.burstSize, hkept.precLevel htype⟩
  · cases h

end Elements

section Messages

/-! ## Messages -/

def OflMsg.instructions : OflMsg → Instruction
  | .flowMod mod => mod.instructions
  | _ => []

def OflMsg.buckets : OflMsg → List OflBucket
  | .groupMod _ _ _ buckets => buckets
  | _ => []

def OflMsg.bands : OflMsg → List OflMeterBand
  | .meterMod _ _ _ bands => bands
  | _ => []

variable {parse : String → JsonObject} {junk : Nat → Junk} {args : JsonObject} {msg : OflMsg}

theorem interFlowMod_denotes (h : interFlowMod parse junk args = .ok msg) :
    SlotArray.FilledFor createInstruction (DenotesInstruction parse)
        (setObjects parse args "instruction_set") msg.instructions ↔
      ∀ p ∈ setObjects parse args "instruction_set", InstructionKept parse p := by
  obtain ⟨instr, hinstr, hmsg⟩ : ∃ instr, constructSetIfExists parse
      (fun _ i p => constructInstruction parse p i) args "instruction_set" [] = .ok instr ∧
      msg.instructions = instr := by
    obtain ⟨-, -, h⟩ := bind_eq_ok.mp h
    iterate 11 obtain ⟨_, -, h⟩ := bind_eq_ok.mp h
    obtain ⟨f, -, h⟩ := bind_eq_ok.mp h
    obtain ⟨instr, hinstr, h⟩ := bind_eq_ok.mp h
    cases h
    exact ⟨instr, hinstr, rfl⟩
  rw [hmsg]
  exact filledFor_iff_kept createInstruction_stores
    (fun _ _ _ _ hok => constructInstruction_builds hok) hinstr

theorem interGroupMod_denotes (h : interGroupMod parse args = .ok msg) :
    SlotArray.FilledFor pushPointer (DenotesBucket parse) (setObjects parse args "buckets")
        msg.buckets ↔ ∀ p ∈ setObjects parse args "buckets", BucketKept parse p := by
  obtain ⟨-, -, h⟩ := bind_eq_ok.mp h
  iterate 5 obtain ⟨_, -, h⟩ := bind_eq_ok.mp h
  obtain ⟨buckets, hbuckets, h⟩ := bind_eq_ok.mp h
  cases h
  refine filledFor_iff_kept pushPointer_stores (fun i s p t hok => ?_) hbuckets
  obtain ⟨b, hb, hok⟩ := bind_eq_ok.mp hok
  cases hok
  exact ⟨[b], builds_one (constructBucket_denotes hb), rfl⟩

theorem interMeterMod_denotes (h : interMeterMod parse args = .ok msg) :
    SlotArray.FilledFor pushPointer DenotesBand (setObjects parse args "meter_bands") msg.bands ↔
      ∀ p ∈ setObjects parse args "meter_bands", BandKept p := by
  obtain ⟨-, -, h⟩ := bind_eq_ok.mp h
  iterate 4 obtain ⟨_, -, h⟩ := bind_eq_ok.mp h
  obtain ⟨bands, hbands, h⟩ := bind_eq_ok.mp h
  cases h
  refine filledFor_iff_kept pushPointer_stores (fun i s p t hok => ?_) hbands
  obtain ⟨b, hb, hok⟩ := bind_eq_ok.mp hok
  cases hok
  exact ⟨[b], builds_one (constructBand_denotes hb), rfl⟩

/-- The message of an accepted request has exactly the instructions, buckets or bands that the
elements of its list denote, in their order, if and only if each element is kept. -/
theorem message_lists_iff (parse : String → JsonObject) (junk : Nat → Junk) (args : JsonObject)
    (msg : OflMsg) :
    (interFlowMod parse junk args = .ok msg →
      (SlotArray.FilledFor createInstruction (DenotesInstruction parse)
          (setObjects parse args "instruction_set") msg.instructions ↔
        ∀ p ∈ setObjects parse args "instruction_set", InstructionKept parse p)) ∧
    (interGroupMod parse args = .ok msg →
      (SlotArray.FilledFor pushPointer (DenotesBucket parse) (setObjects parse args "buckets")
          msg.buckets ↔ ∀ p ∈ setObjects parse args "buckets", BucketKept parse p)) ∧
    (interMeterMod parse args = .ok msg →
      (SlotArray.FilledFor pushPointer DenotesBand (setObjects parse args "meter_bands")
          msg.bands ↔ ∀ p ∈ setObjects parse args "meter_bands", BandKept p)) :=
  ⟨interFlowMod_denotes, interGroupMod_denotes, interMeterMod_denotes⟩

/-- A request that all three builders accept. -/
def allLists : JsonObject :=
  .dict [("command", .string "add"), ("group_type", .string "all"), ("group_id", .string "1"),
    ("flags", .string "0"), ("meter_id", .string "1"),
    ("instruction_set", .array [dictOf [("instr_type", "goto_table"), ("goto_id", "2")]]),
    ("buckets", .array [dictOf [("weight", "3")]]),
    ("meter_bands", .array [dictOf [("meter_type", "drop"), ("rate", "4"), ("burst_size", "5")]])]

theorem message_lists_all :
    (∃ msg, interFlowMod parseJson (fun _ => Junk.fill 0) allLists = .ok msg ∧
      (SlotArray.FilledFor createInstruction (DenotesInstruction parseJson)
          (setObjects parseJson allLists "instruction_set") msg.instructions ↔
        ∀ p ∈ setObjects parseJson allLists "instruction_set", InstructionKept parseJson p)) ∧
    (∃ msg, interGroupMod parseJson allLists = .ok msg ∧
      (SlotArray.FilledFor pushPointer (DenotesBucket parseJson)
          (setObjects parseJson allLists "buckets") msg.buckets ↔
        ∀ p ∈ setObjects parseJson allLists "buckets", BucketKept parseJson p)) ∧
    ∃ msg, interMeterMod parseJson allLists = .ok msg ∧
      (SlotArray.FilledFor pushPointer DenotesBand (setObjects parseJson allLists "meter_bands")
          msg.bands ↔ ∀ p ∈ setObjects parseJson allLists "meter_bands", BandKept p) := by
  have hok {x : Except Fault OflMsg} (hx : x.toBool = true) : ∃ msg, x = .ok msg := by
    cases x with
    | error => cases hx
    | ok msg => exact ⟨msg, rfl⟩
  obtain ⟨flow, hflow⟩ := hok (x := interFlowMod parseJson (fun _ => Junk.fill 0) allLists)
    (by decide +kernel)
  obtain ⟨group, hgroup⟩ := hok (x := interGroupMod parseJson allLists) (by decide +kernel)
  obtain ⟨meter, hmeter⟩ := hok (x := interMeterMod parseJson allLists) (by decide +kernel)
  exact ⟨⟨flow, hflow, (message_lists_iff _ _ _ _).1 hflow⟩,
    ⟨group, hgroup, (message_lists_iff _ (fun _ => Junk.fill 0) _ _).2.1 hgroup⟩,
    meter, hmeter, (message_lists_iff _ (fun _ => Junk.fill 0) _ _).2.2 hmeter⟩

/-- A `flow_mod` whose only instruction is of an unknown type. -/
def unknownInstruction : JsonObject :=
  .dict [("command", .string "add"),
    ("instruction_set", .array [dictOf [("instr_type", "experimenter")]])]

/-- It is accepted, and its message has no instruction. -/
theorem unknown_instruction_dropped :
    (interFlowMod parseJson (fun _ => Junk.fill 0) unknownInstruction).toOption.map
        OflMsg.instructions = some [] ∧
      ¬SlotArray.FilledFor createInstruction (DenotesInstruction parseJson)
        (setObjects parseJson unknownInstruction "instruction_set") [] := by
  refine ⟨by decide +kernel, ?_⟩
  rintro ⟨array, is, hfill, -⟩
  have hlength : (setObjects parseJson unknownInstruction "instruction_set").length = 1 := by
    decide +kernel
  rw [hlength] at hfill
  cases hfill

end Messages

end Nox.Interserver
