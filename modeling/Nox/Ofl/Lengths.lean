import Mathlib.Algebra.Order.BigOperators.Group.List
import Mathlib.Data.List.TakeWhile
import Nox.Ofl.Messages

/-!
# When the lengths tell the truth

A length is stored modulo `2^16`, so it is that of the element as long as the element is
shorter than that.  What is computed also differs from what is written where an experimenter
action is among the actions: the length function counts it as one byte less, the packer as
none.  The lengths of a message are all true just when it has no element of `2^16` bytes or
more and the experimenters of each are a multiple of `2^16` (`lengthsTell_iff`).
-/

namespace Nox.Ofl

open Oxm Stores

section Measures

/-! ## Measures

The bytes of an element, and the experimenters among them that are counted as `-1`. -/

structure Measure where
  size : Nat
  experimenters : Nat

namespace Measure

/-- What a length function makes of it. -/
def announced (e : Measure) : Int := e.size - e.experimenters

/-- Short enough for its length, with experimenters that cancel out. -/
def Short (e : Measure) : Prop := e.size < 2 ^ 16 ∧ 2 ^ 16 ∣ e.experimenters

/-- A header of `n` bytes and an element behind it. -/
def behind (n : Nat) (e : Measure) : Measure := ⟨n + e.size, e.experimenters⟩

/-- Elements one behind the other. -/
def total (es : List Measure) : Measure := ⟨(es.map size).sum, (es.map experimenters).sum⟩

theorem announced_behind (n : Nat) (e : Measure) :
    (e.behind n).announced = n + e.announced := by
  simp only [announced, behind]
  omega

theorem size_behind (n : Nat) (e : Measure) : ((e.behind n).size : Int) = n + e.size := by
  simp only [behind]
  omega

theorem announced_total {α : Type*} (measure : α → Measure) (as : List α) :
    (total (as.map measure)).announced = (as.map fun a => (measure a).announced).sum := by
  induction as with
  | nil => rfl
  | cons a as ih =>
    simp only [announced, total, List.map_cons, List.sum_cons] at ih ⊢
    omega

theorem size_total {α : Type*} (measure : α → Measure) (as : List α) :
    ((total (as.map measure)).size : Int) = (as.map fun a => ((measure a).size : Int)).sum := by
  induction as with
  | nil => rfl
  | cons a as ih =>
    simp only [total, List.map_cons, List.sum_cons] at ih ⊢
    omega

end Measure

end Measures

section Fields

/-! ## Lengths in a loop -/

variable {α : Type*} {fields : α → List LengthField} {advance : α → Int}

@[simp]
theorem truthful_shift (ptr : Int) (f : LengthField) : (f.shift ptr).Truthful ↔ f.Truthful :=
  Iff.rfl

theorem forall_truthful_shift (ptr : Int) (fs : List LengthField) :
    (∀ f ∈ fs.map (·.shift ptr), f.Truthful) ↔ ∀ f ∈ fs, f.Truthful := by
  simp

/-- The lengths of a loop tell the truth when those of every element do. -/
theorem forall_loopFields (ptr : Int) (as : List α) :
    (∀ f ∈ loopFields fields advance ptr as, f.Truthful) ↔
      ∀ a ∈ as, ∀ f ∈ fields a, f.Truthful := by
  induction as generalizing ptr with
  | nil => simp [loopFields]
  | cons a as ih =>
    rw [loopFields, List.forall_mem_append, forall_truthful_shift, ih, List.forall_mem_cons]

/-- A length is true when what was announced comes out and fits 16 bits. -/
theorem truthful_lengthAt {offset announced real : Int} :
    (lengthAt offset announced real).Truthful ↔ announced % 2 ^ 16 = real := by
  have hnonneg : 0 ≤ announced % (256 ^ 2 : Nat) := Int.emod_nonneg _ (by decide)
  unfold LengthField.Truthful lengthAt htonsSize
  dsimp only
  rw [Int.toNat_of_nonneg hnonneg]
  rfl

/-- The length of an element that is as long as announced. -/
theorem truthful_same {offset n : Int} :
    (lengthAt offset n n).Truthful ↔ 0 ≤ n ∧ n < 2 ^ 16 := by
  rw [truthful_lengthAt]
  omega

/-- The length of an element is true when the element is short. -/
theorem truthful_measure {offset : Int} (e : Measure) :
    (lengthAt offset e.announced e.size).Truthful ↔ e.Short := by
  rw [truthful_lengthAt, Measure.announced, Measure.Short]
  omega

end Fields

section Actions

/-! ## Actions -/

def AnyAction.measure : AnyAction → Measure
  | .known a _ => ⟨(oflActionsOfpLen a).getD 0, 0⟩
  | .experimenter => ⟨0, 1⟩
  | .other _ _ => ⟨0, 0⟩

def actionsMeasure (actions : List AnyAction) : Measure := .total (actions.map AnyAction.measure)

theorem AnyAction.ofpLen_eq (a : AnyAction) : a.ofpLen = a.measure.announced := by
  cases a <;> simp [ofpLen, measure, Measure.announced]

theorem roundUp_oxmLength_lt (field : UInt32) : 8 + roundUp (oxmLength field) 8 < 2 ^ 16 := by
  have hlt := oxmLength_lt field
  obtain ⟨-, hle, -⟩ := roundUp_eight (oxmLength field)
  omega

/-- The packer moves on by the size of the action. -/
theorem AnyAction.pack_returns (a : AnyAction) : a.pack.2 = a.measure.size := by
  cases a with
  | known a readable =>
    cases a with
    | setField field value =>
      have hlt := roundUp_oxmLength_lt field
      simp only [pack, OflAction.packBody, measure, oflActionsOfpLen, Option.getD_some]
      rw [Nat.mod_eq_of_lt hlt]
    | untyped => exact readable.elim
    | output | header | setMplsTtl | push | popMpls | setQueue | group | setNwTtl => rfl
  | experimenter => rfl
  | other => rfl

theorem actionsTotalLen_eq (actions : List AnyAction) :
    actionsTotalLen actions = (actionsMeasure actions).announced := by
  rw [actionsMeasure, Measure.announced_total, actionsTotalLen]
  simp only [AnyAction.ofpLen_eq]

theorem actionsAdvance_eq (actions : List AnyAction) :
    actionsAdvance actions = (actionsMeasure actions).size := by
  rw [actionsMeasure, Measure.size_total, actionsAdvance]
  simp only [AnyAction.pack_returns]

theorem storesEnd_le {ss : List Store} {n : Int} (hn : 0 ≤ n) (h : ∀ s ∈ ss, s.stop ≤ n) :
    storesEnd ss ≤ n := by
  unfold storesEnd
  induction ss with
  | nil => exact hn
  | cons s ss ih =>
    rw [List.forall_mem_cons] at h
    exact max_le h.1 (ih h.2)

theorem le_storesEnd {ss : List Store} {s : Store} (h : s ∈ ss) : s.stop ≤ storesEnd ss := by
  unfold storesEnd
  induction ss with
  | nil => cases h
  | cons t ss ih =>
    rcases List.mem_cons.mp h with rfl | h
    · exact le_max_left _ _
    · exact (ih h).trans (le_max_right _ _)

theorem setFieldValueStores_stop {field : UInt32} {value : Bytes}
    (h : oxmLength field ≤ value.length) {s : Store} (hs : s ∈ setFieldValueStores field value) :
    s.stop = 8 + oxmLength field := by
  by_cases hmem : oxmLength field ∈ setFieldSizes
  · rw [setFieldValueStores_of_mem hmem, List.mem_singleton] at hs
    simp [hs, Store.stop, packSetFieldValue_length hmem h]
  · rw [setFieldValueStores_of_not_mem hmem] at hs
    cases hs

/-- A `set_field` is as long as its header says, whatever its value. -/
theorem storesEnd_setField {field : UInt32} {value : Bytes}
    (readable : (OflAction.setField field value).Readable) :
    storesEnd (AnyAction.known (.setField field value) readable).pack.1 =
      (8 + roundUp (oxmLength field) 8 : Nat) := by
  obtain ⟨hle, -, -⟩ := roundUp_eight (oxmLength field)
  have hpad : (⟨8 + oxmLength field, zeros (roundUp (oxmLength field) 8 - oxmLength field)⟩ :
      Store).stop = (8 + roundUp (oxmLength field) 8 : Nat) := by
    simp only [Store.stop, zeros, List.length_replicate]
    omega
  have hpack : (AnyAction.known (.setField field value) readable).pack.1 =
      setFieldStores field (setFieldValueStores field value) := rfl
  rw [hpack, setFieldStores]
  apply le_antisymm
  · refine storesEnd_le (Int.natCast_nonneg _) fun s hs => ?_
    simp only [List.mem_append, List.mem_cons, List.not_mem_nil, or_false] at hs
    rcases hs with ((rfl | rfl | rfl | rfl) | hs) | rfl
    · simp only [Store.stop, beBytes_length]
      omega
    · simp only [Store.stop, zeros, List.length_replicate]
      omega
    · simp only [Store.stop, beBytes_length]
      omega
    · simp only [Store.stop, beBytes_length]
      omega
    · rw [setFieldValueStores_stop readable hs]
      omega
    · exact hpad.le
  · rw [← hpad]
    exact le_storesEnd (List.mem_append_right _ List.mem_cons_self)

/-- The length of an action is true, whatever the action. -/
theorem AnyAction.truthful (a : AnyAction) : ∀ f ∈ a.lengthFields, f.Truthful := by
  cases a with
  | known a readable =>
    simp only [lengthFields, List.mem_singleton, forall_eq, truthful_lengthAt]
    cases a with
    | setField field value =>
      have hlt := roundUp_oxmLength_lt field
      rw [storesEnd_setField readable]
      simp only [oflActionsOfpLen, Option.getD_some]
      omega
    | untyped => exact readable.elim
    | output | header | setMplsTtl | push | popMpls | setQueue | group | setNwTtl => rfl
  | experimenter => exact fun _ h => absurd h List.not_mem_nil
  | other => exact fun _ h => absurd h List.not_mem_nil

end Actions

section Structures

/-! ## Instructions, buckets, bands -/

theorem forall_actionsFields (ptr : Int) (actions : List AnyAction) :
    ∀ f ∈ actionsFields ptr actions, f.Truthful :=
  (forall_loopFields ptr actions).mpr fun a _ => a.truthful

namespace AnyInstruction

def measure : AnyInstruction → Measure
  | gotoTable _ | clearActions | meter _ => ⟨8, 0⟩
  | writeMetadata _ _ => ⟨24, 0⟩
  | writeActions actions | applyActions actions => (actionsMeasure actions).behind 8
  | experimenter => ⟨0, 1⟩
  | other _ _ => ⟨0, 0⟩

/-- The actions of an instruction are short. -/
def Short : AnyInstruction → Prop
  | writeActions actions | applyActions actions => ((actionsMeasure actions).behind 8).Short
  | _ => True

theorem ofpLen_eq (i : AnyInstruction) : i.ofpLen = i.measure.announced := by
  cases i with
  | writeActions actions | applyActions actions =>
    rw [measure, Measure.announced_behind, ← actionsTotalLen_eq]
    rfl
  | gotoTable | writeMetadata | clearActions | meter | experimenter | other => rfl

theorem pack_returns (i : AnyInstruction) : i.pack.2 = i.measure.announced := by
  rw [← ofpLen_eq]
  cases i <;> rfl

/-- The lengths of an instruction are true when its actions are short. -/
theorem truthful_iff (i : AnyInstruction) : (∀ f ∈ i.lengthFields, f.Truthful) ↔ i.Short := by
  cases i with
  | writeActions actions | applyActions actions =>
    have hreal : 8 + actionsAdvance actions = ((actionsMeasure actions).behind 8).size := by
      rw [actionsAdvance_eq, Measure.size_behind]
      rfl
    have hannounced : 8 + actionsTotalLen actions =
        ((actionsMeasure actions).behind 8).announced := by
      rw [actionsTotalLen_eq, Measure.announced_behind]
      rfl
    rw [lengthFields, List.forall_mem_cons, hreal, hannounced, truthful_measure]
    exact and_iff_left (forall_actionsFields 8 actions)
  | gotoTable | clearActions | meter | writeMetadata =>
    refine iff_of_true (fun f hf => ?_) trivial
    rw [List.mem_singleton.mp hf]
    decide
  | experimenter | other => exact iff_of_true (fun _ h => absurd h List.not_mem_nil) trivial

end AnyInstruction

def instructionsMeasure (instructions : List AnyInstruction) : Measure :=
  .total (instructions.map AnyInstruction.measure)

theorem instructionsTotalLen_eq (instructions : List AnyInstruction) :
    instructionsTotalLen instructions = (instructionsMeasure instructions).announced := by
  rw [instructionsMeasure, Measure.announced_total, instructionsTotalLen]
  simp only [AnyInstruction.ofpLen_eq]

theorem instructionsAdvance_eq (instructions : List AnyInstruction) :
    instructionsAdvance instructions = (instructionsMeasure instructions).announced := by
  rw [instructionsMeasure, Measure.announced_total, instructionsAdvance]
  simp only [AnyInstruction.pack_returns]

theorem truthful_instructions (ptr : Int) (instructions : List AnyInstruction) :
    (∀ f ∈ instructionsFields ptr instructions, f.Truthful) ↔ ∀ i ∈ instructions, i.Short :=
  (forall_loopFields ptr instructions).trans (forall₂_congr fun i _ => i.truthful_iff)

theorem AnyAction.measure_size_mod (a : AnyAction) : a.measure.size % 8 = 0 := by
  cases a with
  | known a readable =>
    cases a with
    | setField field value =>
      obtain ⟨-, -, hmod⟩ := roundUp_eight (oxmLength field)
      simp only [measure, oflActionsOfpLen, Option.getD_some]
      omega
    | untyped => exact readable.elim
    | output | header | setMplsTtl | push | popMpls | setQueue | group | setNwTtl =>
      simp [measure, oflActionsOfpLen]
  | experimenter => rfl
  | other => rfl

theorem actionsMeasure_size_mod (actions : List AnyAction) :
    (actionsMeasure actions).size % 8 = 0 := by
  induction actions with
  | nil => rfl
  | cons a actions ih =>
    have ha := a.measure_size_mod
    simp only [actionsMeasure, Measure.total, List.map_cons, List.sum_cons] at ih ⊢
    omega

namespace AnyBucket

/-- A bucket is filled up by as many bytes as its experimenters keep it from eight. -/
def measure (b : AnyBucket) : Measure :=
  (actionsMeasure b.actions).behind (16 + (actionsMeasure b.actions).experimenters % 8)

/-- The actions of a bucket are short. -/
def Short (b : AnyBucket) : Prop := ((actionsMeasure b.actions).behind 16).Short

theorem align_eq (b : AnyBucket) :
    b.align = ((actionsMeasure b.actions).experimenters % 8 : Nat) := by
  have hmod := actionsMeasure_size_mod b.actions
  unfold align unalignedLen
  rw [actionsTotalLen_eq, Measure.announced]
  dsimp only
  split <;> omega

theorem ofpLen_eq (b : AnyBucket) : b.ofpLen = b.measure.announced := by
  rw [ofpLen, align_eq, unalignedLen, actionsTotalLen_eq, measure, Measure.announced_behind]
  omega

theorem real_eq (b : AnyBucket) : b.loopEnd + b.align = b.measure.size := by
  have hadvance := actionsAdvance_eq b.actions
  rw [actionsAdvance] at hadvance
  rw [loopEnd, hadvance, align_eq, measure, Measure.size_behind]
  omega

theorem measure_short (b : AnyBucket) : b.measure.Short ↔ b.Short := by
  unfold measure Short Measure.Short Measure.behind
  dsimp only
  omega

theorem truthful_iff (b : AnyBucket) : (∀ f ∈ b.lengthFields, f.Truthful) ↔ b.Short := by
  rw [lengthFields, List.forall_mem_cons, real_eq, ofpLen_eq, truthful_measure, measure_short]
  exact and_iff_left (forall_actionsFields 16 b.actions)

end AnyBucket

def bucketsMeasure (buckets : List AnyBucket) : Measure :=
  .total (buckets.map AnyBucket.measure)

theorem bucketsTotalLen_eq (buckets : List AnyBucket) :
    bucketsTotalLen buckets = (bucketsMeasure buckets).announced := by
  rw [bucketsMeasure, Measure.announced_total, bucketsTotalLen]
  simp only [AnyBucket.ofpLen_eq]

theorem truthful_buckets (ptr : Int) (buckets : List AnyBucket) :
    (∀ f ∈ loopFields AnyBucket.lengthFields (fun b => b.pack.2) ptr buckets, f.Truthful) ↔
      ∀ b ∈ buckets, b.Short :=
  (forall_loopFields ptr buckets).trans (forall₂_congr fun b _ => b.truthful_iff)

/-- The bytes of a band: none where its type has no case. -/
def AnyBand.size (b : AnyBand) : Nat :=
  match b.body with
  | .drop | .dscpRemark _ | .experimenter _ => 16
  | .other _ _ => 0

def bandsSize (bands : List AnyBand) : Nat := (bands.map AnyBand.size).sum

theorem bandsTotalLen_eq (bands : List AnyBand) : bandsTotalLen bands = bandsSize bands := by
  have hband : ∀ b : AnyBand, b.ofpLen = b.size := fun ⟨_, _, body⟩ => by cases body <;> rfl
  induction bands with
  | nil => rfl
  | cons b bands ih =>
    simp only [bandsTotalLen, bandsSize, List.map_cons, List.sum_cons, hband] at ih ⊢
    omega

theorem AnyBand.truthful (b : AnyBand) : ∀ f ∈ b.lengthFields, f.Truthful := by
  obtain ⟨rate, burstSize, body⟩ := b
  cases body with
  | drop | dscpRemark | experimenter =>
    intro f hf
    rw [List.mem_singleton.mp hf]
    decide
  | other => exact fun _ h => (nomatch h)

theorem forall_bandsFields (ptr : Int) (bands : List AnyBand) :
    ∀ f ∈ loopFields AnyBand.lengthFields (fun b => b.pack.2) ptr bands, f.Truthful :=
  (forall_loopFields ptr bands).mpr fun b _ => b.truthful

end Structures

section Matches

/-! ## Matches -/

/-- The values of a packet take as many bytes as those in network order. -/
theorem oxmPutPacketTlv_length (e : OflMatchTlv) :
    (oxmPutPacketTlv e).length = (oxmPutTlv e).length := by
  unfold oxmPutPacketTlv oxmPutTlv
  dsimp only
  generalize (if oxmHasmask e.header = true then oxmLength e.header / 2
    else oxmLength e.header) = n
  split <;>
    simp only [apply_ite List.length, oxmPut8, oxmPut8w, oxmPut16, oxmPut16w, oxmPut32, oxmPut32w,
      oxmPut64, oxmPut64w, List.length_append, leBytes_length, ite_self]

theorem oxmPutPacketMatch_length (m : OflMatch) :
    (oxmPutPacketMatch m).length = (oxmPutMatch [] m).2 := by
  have hrest : (m.entries.flatMap fun e =>
      if isRequisite e.header then [] else oxmPutPacketTlv e).length =
        (m.entries.flatMap fun e => if isRequisite e.header then [] else oxmPutTlv e).length := by
    simp only [List.length_flatMap, apply_ite List.length, oxmPutPacketTlv_length]
  have hrequisites : (oxmPutPacketRequisites m).length = (oxmPutRequisites m).length := by
    simp only [oxmPutPacketRequisites, oxmPutRequisites, List.length_append, List.length_flatMap,
      oxmPut8, oxmPut16, oxmPut32, leBytes_length]
  unfold oxmPutPacketMatch oxmPutMatch
  dsimp only
  rw [List.length_append, List.length_append, hrest, hrequisites]

namespace AnyMatch

/-- The entries of a match that is packed are short. -/
def Short (m : AnyMatch) : Prop :=
  m.toOflMatch.type = ofpmtOxm → m.toOflMatch.length ≠ 0 → 4 + m.entriesSize < 2 ^ 16

theorem truthful_oxm (n : Nat) : (lengthAt 2 (n + 4) (4 + n)).Truthful ↔ 4 + n < 2 ^ 16 := by
  rw [truthful_lengthAt]
  omega

theorem truthful_iff (m : AnyMatch) : (∀ f ∈ m.lengthFields, f.Truthful) ↔ m.Short := by
  unfold lengthFields Short
  rw [oxmFields_length]
  by_cases htype : m.toOflMatch.type = ofpmtOxm
  · by_cases hlength : m.toOflMatch.length = 0
    · simp [htype, hlength, truthful_same]
    · simp only [htype, hlength, ne_eq, not_false_eq_true, if_true, List.mem_singleton, forall_eq,
        truthful_oxm, forall_const]
  · simp [htype]

theorem packet_length (m : AnyMatch) : (oxmPutPacketMatch m.toOflMatch).length = m.entriesSize := by
  have hlen := m.oxmFields_length
  rw [oxmFields, List.length_take] at hlen
  rw [oxmPutPacketMatch_length, ← hlen]
  have hbody : (oxmPutMatch [] m.toOflMatch).2 ≤ (oxmPutMatch [] m.toOflMatch).1.length := by
    unfold oxmPutMatch
    simp only [List.nil_append, List.length_append]
    omega
  omega

theorem truthful_packet_iff (m : AnyMatch) :
    (∀ f ∈ m.packetLengthFields, f.Truthful) ↔ m.Short := by
  have hfields : m.packetLengthFields = m.lengthFields := by
    unfold packetLengthFields lengthFields
    dsimp only
    rw [packet_length, oxmFields_length]
  rw [hfields, truthful_iff]

end AnyMatch

end Matches

section Elements

/-! ## The elements of multipart messages -/

/-- What is sent of a measure fits 16 bits, its experimenters counted. -/
def Measure.Fits (e : Measure) : Prop := 0 ≤ e.announced ∧ e.announced < 2 ^ 16

theorem truthful_fits {offset : Int} (e : Measure) :
    (lengthAt offset e.announced e.announced).Truthful ↔ e.Fits := truthful_same

theorem truthful_nat {offset : Int} {n : Nat} :
    (lengthAt offset n n).Truthful ↔ n < 2 ^ 16 := by
  rw [truthful_same]
  omega

theorem sum_replicate_sixteen (n : Nat) : (List.replicate n (16 : Int)).sum = 16 * n := by
  rw [List.sum_replicate, nsmul_eq_mul, Int.mul_comm]

namespace OflFlowStats

def measure (s : OflFlowStats) : Measure := (instructionsMeasure s.instructions).behind s.matchEnd

/-- The statistics of a flow fit, and so does what they have. -/
def Short (s : OflFlowStats) : Prop :=
  s.measure.Fits ∧ s.oflMatch.Short ∧ ∀ i ∈ s.instructions, i.Short

theorem ofpLen_eq (s : OflFlowStats) : s.ofpLen = s.measure.announced := by
  rw [ofpLen, instructionsTotalLen_eq, measure, Measure.announced_behind]

theorem truthful_iff (s : OflFlowStats) : (∀ f ∈ s.lengthFields, f.Truthful) ↔ s.Short := by
  have hreal : s.matchEnd + instructionsAdvance s.instructions = s.measure.announced := by
    rw [instructionsAdvance_eq, measure, Measure.announced_behind]
  rw [lengthFields, List.forall_mem_cons, List.forall_mem_append, forall_truthful_shift, hreal,
    ofpLen_eq, truthful_fits, s.oflMatch.truthful_iff, truthful_instructions, Short]

end OflFlowStats

theorem OflGroupStats.truthful_iff (s : OflGroupStats) :
    (∀ f ∈ s.lengthFields, f.Truthful) ↔ 40 + 16 * s.countersNum < 2 ^ 16 := by
  rw [lengthFields, sum_replicate_sixteen, List.forall_mem_singleton]
  exact truthful_nat

theorem OflMeterStats.truthful_iff (s : OflMeterStats) :
    (∀ f ∈ s.lengthFields, f.Truthful) ↔ 40 + 16 * s.meterBandsNum < 2 ^ 16 := by
  rw [lengthFields, sum_replicate_sixteen, List.forall_mem_singleton]
  exact truthful_nat

namespace OflGroupDescStats

def measure (s : OflGroupDescStats) : Measure := (bucketsMeasure s.buckets).behind 8

/-- The description of a group fits, and so do its buckets. -/
def Short (s : OflGroupDescStats) : Prop := s.measure.Fits ∧ ∀ b ∈ s.buckets, b.Short

theorem ofpLen_eq (s : OflGroupDescStats) : s.ofpLen = s.measure.announced := by
  rw [ofpLen, bucketsTotalLen_eq, measure, Measure.announced_behind]
  rfl

theorem truthful_iff (s : OflGroupDescStats) :
    (∀ f ∈ s.lengthFields, f.Truthful) ↔ s.Short := by
  have hreal : 8 + (s.buckets.map fun b => b.pack.2).sum = s.measure.announced := s.ofpLen_eq
  rw [lengthFields, List.forall_mem_cons, hreal, ofpLen_eq, truthful_fits, truthful_buckets,
    Short]

end OflGroupDescStats

theorem AnyBand.pack_returns (b : AnyBand) : b.pack.2 = b.ofpLen := by
  obtain ⟨rate, burstSize, body⟩ := b
  cases body <;> rfl

theorem OflMeterConfig.truthful_iff (c : OflMeterConfig) :
    (∀ f ∈ c.lengthFields, f.Truthful) ↔ 8 + bandsSize c.bands < 2 ^ 16 := by
  have hreal : 8 + (c.bands.map fun b => b.pack.2).sum = (8 + bandsSize c.bands : Nat) := by
    simp only [AnyBand.pack_returns]
    exact congrArg (8 + ·) (bandsTotalLen_eq c.bands)
  have hlen : c.ofpLen = (8 + bandsSize c.bands : Nat) :=
    congrArg (8 + ·) (bandsTotalLen_eq c.bands)
  rw [lengthFields, List.forall_mem_cons, hreal, hlen, truthful_nat]
  exact and_iff_left (forall_bandsFields 8 c.bands)

/-- The bytes of a property of a queue. -/
def OflQueueProp.size : OflQueueProp → Nat
  | minRate | maxRate | experimenter => 16
  | other _ => 0

theorem OflQueueProp.truthful (p : OflQueueProp) : ∀ f ∈ p.lengthFields, f.Truthful := by
  cases p with
  | minRate | maxRate | experimenter =>
    intro f hf
    rw [List.mem_singleton.mp hf]
    decide
  | other => exact fun _ h => (nomatch h)

namespace OflPacketQueue

def size (q : OflPacketQueue) : Nat := 16 + (q.properties.map OflQueueProp.size).sum

theorem ofpLen_eq (q : OflPacketQueue) : q.ofpLen = q.size := by
  have hprop : ∀ p : OflQueueProp, p.ofpLen = p.size := fun p => by cases p <;> rfl
  unfold ofpLen size
  induction q.properties with
  | nil => rfl
  | cons p ps ih =>
    simp only [List.map_cons, List.sum_cons, hprop] at ih ⊢
    omega

theorem truthful_iff (q : OflPacketQueue) :
    (∀ f ∈ q.lengthFields, f.Truthful) ↔ q.size < 2 ^ 16 := by
  have hreal : 16 + (q.properties.map (·.ofpLen)).sum = q.size := q.ofpLen_eq
  rw [lengthFields, List.forall_mem_cons, hreal, ofpLen_eq, truthful_nat]
  exact and_iff_left ((forall_loopFields 16 q.properties).mpr fun p _ => p.truthful)

end OflPacketQueue

end Elements

section TableFeatures

/-! ## Table features -/

namespace OflTableFeatureProp

/-- The property carries the length of what it lists, and so does every action in it; an
experimenter has no length there. -/
def Told : OflTableFeatureProp → Prop
  | instructions length types => length.toNat = 4 + 4 * types.length ∧ ofpitExperimenter ∉ types
  | nextTables length tableNum => length.toNat = 4 + tableNum
  | actions length ids =>
    length.toNat = 4 + 4 * ids.length ∧ ∀ id ∈ ids, id.1 ≠ ofpatExperimenter ∧ id.2 = 4
  | oxm length oxmNum => length.toNat = 4 + 4 * oxmNum
  | other _ => True

/-- The bytes the packer moves on by where it does not leave. -/
def room : OflTableFeatureProp → Nat
  | other _ => 0
  | p => roundUp p.length.toNat 8

/-- What is counted of a property that is not packed. -/
def unpacked : OflTableFeatureProp → Nat
  | other length => roundUp length.toNat 8
  | _ => 0

theorem room_unpacked (p : OflTableFeatureProp) :
    roundUp p.length.toNat 8 = p.room + p.unpacked := by
  cases p <;> simp [room, unpacked, length]

/-- The packer leaves a property of instructions at an experimenter. -/
def Leaves : OflTableFeatureProp → Prop
  | instructions _ types => ofpitExperimenter ∈ types
  | _ => False

theorem advance_of_not_leaves {p : OflTableFeatureProp} (h : ¬p.Leaves) : p.advance = p.room := by
  cases p with
  | instructions length types => exact if_neg h
  | _ => rfl

theorem advance_of_leaves {p : OflTableFeatureProp} (h : p.Leaves) : 2 ^ 16 ≤ p.advance := by
  cases p with
  | instructions length types =>
    have hadvance : (instructions length types).advance = oflErrorNo 3 1 := if_pos h
    rw [hadvance]
    decide
  | _ => exact h.elim

theorem packedTypes_eq {types : List Nat} (h : ofpitExperimenter ∉ types) :
    packedTypes types = types := by
  apply List.takeWhile_eq_self_iff.mpr
  intro type htype
  exact decide_eq_true fun heq => h (heq ▸ htype)

theorem truthful_actionId (id : Nat × UInt16) :
    (actionIdField id).Truthful ↔ id.1 ≠ ofpatExperimenter ∧ id.2 = 4 := by
  unfold actionIdField LengthField.Truthful
  by_cases h : id.1 = ofpatExperimenter
  · simp [h]
  · have hfour : ((id.2.toNat : Int) = 4) ↔ id.2 = 4 := by
      rw [← UInt16.toNat_inj]
      exact Int.ofNat_inj
    simp only [h, if_false, ne_eq, not_false_eq_true, true_and]
    exact hfour

theorem actionIdSize_sum {ids : List (Nat × UInt16)} (h : ∀ id ∈ ids, id.1 ≠ ofpatExperimenter) :
    (ids.map actionIdSize).sum = 4 * ids.length := by
  induction ids with
  | nil => rfl
  | cons id ids ih =>
    rw [List.forall_mem_cons] at h
    rw [List.map_cons, List.sum_cons, ih h.2, actionIdSize, if_neg h.1, List.length_cons]
    omega

/-- The lengths of a property that is packed to its end are true when it carries them. -/
theorem truthful_iff {p : OflTableFeatureProp} (h : ¬p.Leaves) :
    (∀ f ∈ p.lengthFields, f.Truthful) ↔ p.Told := by
  have hheader (n : Nat) : (⟨2, p.length.toNat, n⟩ : LengthField).Truthful ↔
      p.length.toNat = n := Int.ofNat_inj
  cases p with
  | instructions length types =>
    have hids : ∀ f ∈ loopFields (fun _ => [lengthAt 2 4 4]) (fun _ => 4) 4 (packedTypes types),
        f.Truthful := by
      rw [forall_loopFields]
      intro _ _ f hf
      rw [List.mem_singleton.mp hf]
      decide
    rw [lengthFields, List.forall_mem_cons, hheader, and_iff_left hids]
    simp only [size, Told, packedTypes_eq h]
    exact (and_iff_left h).symm
  | actions length ids =>
    rw [lengthFields, List.forall_mem_cons, hheader, forall_loopFields]
    simp only [List.forall_mem_singleton, truthful_actionId, size, Told]
    refine and_congr_left fun hids => ?_
    rw [actionIdSize_sum fun id hid => (hids id hid).1]
    rfl
  | nextTables | oxm =>
    rw [lengthFields, List.forall_mem_singleton, hheader]
    rfl
  | other => exact iff_of_true (fun _ h => absurd h List.not_mem_nil) trivial

end OflTableFeatureProp

namespace OflTableFeatures

def room (t : OflTableFeatures) : Nat := 64 + (t.packed.map (·.room)).sum

def unpacked (t : OflTableFeatures) : Nat := (t.packed.map (·.unpacked)).sum

/-- The features of a table are short, and what is not packed of them cancels out. -/
def Short (t : OflTableFeatures) : Prop :=
  (∀ p ∈ t.packed, p.Told) ∧ t.room < 2 ^ 16 ∧ 2 ^ 16 ∣ t.unpacked

theorem totalLen_eq (t : OflTableFeatures) : t.totalLen = (t.room + t.unpacked : Nat) := by
  unfold totalLen room unpacked
  induction t.packed with
  | nil => rfl
  | cons p ps ih =>
    have hp := p.room_unpacked
    simp only [List.map_cons, List.sum_cons] at ih ⊢
    omega

theorem advance_eq {ps : List OflTableFeatureProp} (h : ∀ p ∈ ps, ¬p.Leaves) :
    (ps.map fun p => (p.advance : Int)).sum = (ps.map (·.room)).sum := by
  induction ps with
  | nil => rfl
  | cons p ps ih =>
    rw [List.forall_mem_cons] at h
    have hp := OflTableFeatureProp.advance_of_not_leaves h.1
    have hps := ih h.2
    simp only [List.map_cons, List.sum_cons] at hps ⊢
    omega

theorem le_advance {ps : List OflTableFeatureProp} {p : OflTableFeatureProp} (hp : p ∈ ps)
    (h : p.Leaves) : 2 ^ 16 ≤ (ps.map fun p => (p.advance : Int)).sum := by
  have hle := OflTableFeatureProp.advance_of_leaves h
  have hmem := List.single_le_sum (l := ps.map fun p => (p.advance : Int))
    (by simp) p.advance (List.mem_map_of_mem hp)
  omega

theorem truthful_iff (t : OflTableFeatures) : (∀ f ∈ t.lengthFields, f.Truthful) ↔ t.Short := by
  rw [lengthFields, List.forall_mem_cons, truthful_lengthAt, forall_loopFields, totalLen_eq]
  by_cases hleaves : ∃ p ∈ t.packed, p.Leaves
  · -- the pointer is moved on by the number of an error
    obtain ⟨p, hp, hleave⟩ := hleaves
    refine iff_of_false (fun h => ?_) fun h => ?_
    · have hbig := le_advance hp hleave
      have hfield := h.1
      omega
    · have htold := h.1 p hp
      cases p with
      | instructions length types => exact htold.2 hleave
      | _ => exact hleave.elim
  · have hstay : ∀ p ∈ t.packed, ¬p.Leaves := fun p hp hleave => hleaves ⟨p, hp, hleave⟩
    rw [advance_eq hstay, forall₂_congr fun p hp => OflTableFeatureProp.truthful_iff (hstay p hp),
      and_comm, Short]
    refine and_congr_right fun _ => ?_
    have hroom : t.room = 64 + (t.packed.map (·.room)).sum := rfl
    omega

end OflTableFeatures

def tableFeaturesSize (features : List OflTableFeatures) : Nat :=
  (features.map fun t => t.room + t.unpacked).sum

theorem tableFeaturesTotalLen_eq (features : List OflTableFeatures) :
    tableFeaturesTotalLen features = toInt (tableFeaturesSize features) := by
  have hsum : (features.map (·.totalLen)).sum = (tableFeaturesSize features : Int) := by
    unfold tableFeaturesSize
    induction features with
    | nil => rfl
    | cons t ts ih =>
      have ht := t.totalLen_eq
      simp only [List.map_cons, List.sum_cons] at ih ⊢
      omega
  rw [tableFeaturesTotalLen, hsum]

/-- Every table has a property, the tables are short or their total is taken for none, and
the message is short as far as an `int` tells. -/
def FeaturesShort (features : List OflTableFeatures) : Prop :=
  (∀ t ∈ features, t.properties ≠ []) ∧
  (toInt (tableFeaturesSize features) = 0 ∨ ∀ t ∈ features, t.Short) ∧
  0 ≤ 16 + toInt (tableFeaturesSize features) ∧ 16 + toInt (tableFeaturesSize features) < 2 ^ 16

theorem truthful_tableFeatures (features : List OflTableFeatures) :
    (∀ f ∈ tableFeaturesFields features, f.Truthful) ↔
      toInt (tableFeaturesSize features) = 0 ∨ ∀ t ∈ features, t.Short := by
  unfold tableFeaturesFields
  rw [tableFeaturesTotalLen_eq]
  split
  · next hzero => simp [hzero]
  · next hzero =>
    rw [or_iff_right hzero, forall_loopFields]
    exact forall₂_congr fun t _ => t.truthful_iff

end TableFeatures

section Stored

/-! ## The lengths are stored

Where the packers stand as stores, the lengths are among those. -/

theorem LengthField.store_shift (ptr : Int) (f : LengthField) :
    (f.shift ptr).store = f.store.shift ptr := by
  simp only [store, shift, Store.shift, Int.add_comm]

/-- Two bytes keep of a number what `htons` does. -/
theorem beBytes_htonsSize (n : Nat) : beBytes 2 (htonsSize n) = beBytes 2 n := by
  have hmod : htonsSize n = n % 256 ^ 2 := by
    rw [htonsSize, ← Int.natCast_emod, Int.toNat_natCast]
  rw [beBytes, hmod, ← leNat_leBytes, leBytes_leNat_of_length (leBytes_length 2 n), beBytes]

theorem store_lengthAt (offset : Int) (n : Nat) (real : Int) :
    (lengthAt offset n real).store = ⟨offset, beBytes 2 n⟩ := by
  rw [LengthField.store, lengthAt, beBytes_htonsSize]

/-- The lengths of a loop are stored by it. -/
theorem stored_packLoop {α : Type*} {fields : α → List LengthField}
    {pack : α → List Store × Int} (h : ∀ a, ∀ f ∈ fields a, f.store ∈ (pack a).1) (ptr : Int)
    (as : List α) :
    ∀ f ∈ loopFields fields (fun a => (pack a).2) ptr as, f.store ∈ packLoop pack ptr as := by
  induction as generalizing ptr with
  | nil => exact fun _ hf => (nomatch hf)
  | cons a as ih =>
    intro f hf
    rw [loopFields, List.mem_append, List.mem_map] at hf
    rw [packLoop, List.mem_append]
    rcases hf with ⟨g, hg, rfl⟩ | hf
    · rw [LengthField.store_shift]
      exact .inl (List.mem_map_of_mem (h a g hg))
    · exact .inr (ih _ f hf)

theorem AnyAction.stored (a : AnyAction) : ∀ f ∈ a.lengthFields, f.store ∈ a.pack.1 := by
  cases a with
  | known a readable =>
    simp only [lengthFields, List.forall_mem_singleton]
    cases a with
    | setField field value =>
      simp only [oflActionsOfpLen, Option.getD_some, store_lengthAt]
      simp [pack, OflAction.packBody]
    | untyped => exact readable.elim
    | output | header | setMplsTtl | push | popMpls | setQueue | group | setNwTtl =>
      exact .tail _ (.tail _ (.head _))
  | experimenter => exact fun _ h => absurd h List.not_mem_nil
  | other => exact fun _ h => absurd h List.not_mem_nil

theorem AnyInstruction.stored (i : AnyInstruction) :
    ∀ f ∈ i.lengthFields, f.store ∈ i.pack.1 := by
  cases i with
  | writeActions actions | applyActions actions =>
    intro f hf
    rcases List.mem_cons.mp hf with rfl | hf
    · exact .tail _ (.tail _ (.head _))
    · exact .tail _ (.tail _ (.tail _ (.tail _ (stored_packLoop AnyAction.stored 8 actions f hf))))
  | gotoTable | writeMetadata | clearActions | meter =>
    intro f hf
    rw [List.mem_singleton.mp hf]
    exact .tail _ (.tail _ (.head _))
  | experimenter | other => exact fun _ h => (nomatch h)

theorem AnyBucket.stored (b : AnyBucket) : ∀ f ∈ b.lengthFields, f.store ∈ b.pack.1 := by
  intro f hf
  rcases List.mem_cons.mp hf with rfl | hf
  · exact List.mem_append_left _ (List.mem_append_left _ List.mem_cons_self)
  · have hmem := stored_packLoop AnyAction.stored 16 b.actions f hf
    exact List.mem_append_left _ (List.mem_append_right _ hmem)

theorem AnyBand.stored (b : AnyBand) : ∀ f ∈ b.lengthFields, f.store ∈ b.pack.1 := by
  obtain ⟨rate, burstSize, body⟩ := b
  cases body with
  | drop | dscpRemark | experimenter =>
    intro f hf
    rw [List.mem_singleton.mp hf]
    exact .tail _ (.tail _ (.tail _ (.head _)))
  | other => exact fun _ h => (nomatch h)

theorem AnyMatch.stored (m : AnyMatch) : ∀ f ∈ m.lengthFields, f.store ∈ m.pack.1 := by
  unfold lengthFields pack
  by_cases htype : m.toOflMatch.type = ofpmtOxm
  · by_cases hlength : m.toOflMatch.length = 0
    · simp only [htype, hlength, ne_eq, not_true_eq_false, if_true, if_false,
        List.forall_mem_singleton]
      exact .tail _ (.head _)
    · have hcast : (m.oxmFields.length + 4 : Int) = (m.oxmFields.length + 4 : Nat) := rfl
      simp only [htype, hlength, ne_eq, not_false_eq_true, if_true, List.forall_mem_singleton]
      rw [hcast, store_lengthAt]
      exact List.mem_append_right _ (.tail _ (.head _))
  · simp [htype]

/-- The lengths of a flow modification are stored when it is packed. -/
theorem FlowMod.stored (m : FlowMod) (xid : Nat) :
    ∀ f ∈ m.lengthFields ++ [lengthAt 2 m.bufLen m.bufLen], f.store ∈ m.pack xid := by
  intro f hf
  unfold pack
  simp only [lengthFields, List.mem_append, List.mem_map, List.mem_singleton] at hf ⊢
  rcases hf with (⟨g, hg, rfl⟩ | hf) | rfl
  · rw [LengthField.store_shift]
    exact .inl (.inl (.inr (shift_mem (m.oflMatch.stored g hg))))
  · exact .inl (.inr (stored_packLoop AnyInstruction.stored _ _ f hf))
  · exact .inr (.tail _ (.tail _ (.head _)))

theorem GroupMod.stored (m : GroupMod) (xid : Nat) :
    ∀ f ∈ m.lengthFields ++ [lengthAt 2 m.bufLen m.bufLen], f.store ∈ m.pack xid := by
  intro f hf
  unfold pack
  rw [List.mem_append, List.mem_singleton] at hf
  rcases hf with hf | rfl
  · have hmem := stored_packLoop AnyBucket.stored 16 m.buckets f hf
    exact List.mem_append_left _ (List.mem_append_right _ hmem)
  · exact List.mem_append_right _ (.tail _ (.tail _ (.head _)))

theorem MeterMod.stored (m : MeterMod) (xid : Nat) :
    ∀ f ∈ m.lengthFields ++ [lengthAt 2 m.bufLen m.bufLen], f.store ∈ m.pack xid := by
  intro f hf
  unfold pack
  rw [List.mem_append, List.mem_singleton] at hf
  rcases hf with hf | rfl
  · have hmem := stored_packLoop AnyBand.stored 16 m.bands f hf
    exact List.mem_append_left _ (List.mem_append_right _ hmem)
  · exact List.mem_append_right _ (.tail _ (.tail _ (.head _)))

end Stored

section Messages

/-! ## Messages -/

/-- A request is rejected, or it is short in all it has. -/
def MultipartRequest.Short : MultipartRequest → Prop
  | flow m | aggregate m => m.Short ∧ 56 + m.toOflMatch.length < 2 ^ 16
  | tableFeatures features => FeaturesShort features
  | _ => True

/-- A reply is rejected, or it is short in all it has. -/
def MultipartReply.Short : MultipartReply → Prop
  | table n => 16 + n * 24 < 2 ^ 16
  | portStats n => 16 + n * 112 < 2 ^ 16
  | queue n => 16 + n * 40 < 2 ^ 16
  | portDesc n => 16 + n * 64 < 2 ^ 16
  | flow stats =>
    (∀ s ∈ stats, s.Short) ∧ ((Measure.total (stats.map (·.measure))).behind 16).Fits
  | group stats =>
    (∀ s ∈ stats, 40 + 16 * s.countersNum < 2 ^ 16) ∧
      16 + (stats.map fun s => 40 + 16 * s.countersNum).sum < 2 ^ 16
  | groupDesc stats =>
    (∀ s ∈ stats, s.Short) ∧ ((Measure.total (stats.map (·.measure))).behind 16).Fits
  | meter stats =>
    (∀ s ∈ stats, 40 + 16 * s.meterBandsNum < 2 ^ 16) ∧
      16 + (stats.map fun s => 40 + 16 * s.meterBandsNum).sum < 2 ^ 16
  | meterConfig stats =>
    (∀ s ∈ stats, 8 + bandsSize s.bands < 2 ^ 16) ∧
      16 + (stats.map fun s => 8 + bandsSize s.bands).sum < 2 ^ 16
  | tableFeatures features => FeaturesShort features
  | _ => True

/-- A message is rejected, or it is short in all it has: every element has less than `2^16`
bytes, and as many experimenter actions as cancel out. -/
def AnyMsg.Short : AnyMsg → Prop
  | error dataLength => 12 + dataLength < 2 ^ 16
  | echoRequest dataLength | echoReply dataLength => 8 + dataLength < 2 ^ 16
  | packetIn m dataLength =>
    m.Short ∧ 32 + roundUp (m.toOflMatch.length - 4) 8 + dataLength + 2 < 2 ^ 16
  | flowRemoved m => m.Short ∧ roundUp (52 + m.toOflMatch.length) 8 < 2 ^ 16
  | packetOut actions dataLength =>
    (actionsMeasure actions).Short ∧ ((actionsMeasure actions).behind (24 + dataLength)).Fits
  | flowMod m =>
    m.oflMatch.Short ∧ (∀ i ∈ m.instructions, i.Short) ∧
      ((instructionsMeasure m.instructions).behind m.matchEnd).Fits
  | groupMod m => (∀ b ∈ m.buckets, b.Short) ∧ ((bucketsMeasure m.buckets).behind 16).Fits
  | meterMod m => 16 + bandsSize m.bands < 2 ^ 16
  | multipartRequest r => r.Short
  | multipartReply r => r.Short
  | queueGetConfigReply queues =>
    (∀ q ∈ queues, q.size < 2 ^ 16) ∧ 16 + (queues.map (·.size)).sum < 2 ^ 16
  | fixed _ | experimenter | roleRequest | roleReply | other _ => True

/-- What a packed body says of the lengths, that of the header included. -/
def Packed.Tells : Packed → Prop
  | .failed => True
  | .undefined => False
  | .packed bufLen fields => (∀ f ∈ fields, f.Truthful) ∧ 0 ≤ bufLen ∧ bufLen < 2 ^ 16

theorem AnyMsg.lengthsTell_eq (m : AnyMsg) : m.LengthsTell ↔ m.packBody.Tells := by
  unfold LengthsTell pack Packed.Tells
  cases m.packBody with
  | failed => rfl
  | undefined => rfl
  | packed bufLen fields =>
    dsimp only
    rw [List.forall_mem_append, List.forall_mem_singleton, truthful_same]

section Cases

variable {P : Prop} {bufLen : Int} {fields : List LengthField}

/-- A body whose size is a number without experimenters. -/
theorem tells_nat {n : Nat} (hfields : (∀ f ∈ fields, f.Truthful) ↔ P) (hlen : bufLen = n) :
    (Packed.packed bufLen fields).Tells ↔ P ∧ n < 2 ^ 16 := by
  unfold Packed.Tells
  dsimp only
  rw [hfields, hlen]
  refine and_congr_right fun _ => ?_
  omega

/-- A body of nothing but its size. -/
theorem tells_plain {n : Nat} (hlen : bufLen = n) :
    (Packed.packed bufLen []).Tells ↔ n < 2 ^ 16 :=
  (tells_nat (iff_true_intro (List.forall_mem_nil _)) hlen).trans (iff_of_eq (true_and _))

/-- A body whose size is told by a measure. -/
theorem tells_measure {e : Measure} (hfields : (∀ f ∈ fields, f.Truthful) ↔ P)
    (hlen : bufLen = e.announced) : (Packed.packed bufLen fields).Tells ↔ P ∧ e.Fits := by
  unfold Packed.Tells Measure.Fits
  dsimp only
  rw [hfields, hlen]

variable {α : Type*} {fieldsOf : α → List LengthField} {len : α → Int} {Q : α → Prop}

/-- A body of elements behind a header, whose sizes are numbers. -/
theorem tells_elements {size : α → Nat} {as : List α}
    (hfields : ∀ a, (∀ f ∈ fieldsOf a, f.Truthful) ↔ Q a) (hlen : ∀ a, len a = size a) :
    (Packed.packed (16 + (as.map len).sum) (loopFields fieldsOf len 16 as)).Tells ↔
      (∀ a ∈ as, Q a) ∧ 16 + (as.map size).sum < 2 ^ 16 := by
  refine tells_nat ((forall_loopFields 16 as).trans (forall₂_congr fun a _ => hfields a)) ?_
  have hsum : (as.map len).sum = (as.map size).sum := by
    induction as with
    | nil => rfl
    | cons a as ih =>
      have ha := hlen a
      simp only [List.map_cons, List.sum_cons]
      omega
  omega

/-- A body of elements behind a header, whose sizes are told by measures. -/
theorem tells_measured {measure : α → Measure} {as : List α}
    (hfields : ∀ a, (∀ f ∈ fieldsOf a, f.Truthful) ↔ Q a)
    (hlen : ∀ a, len a = (measure a).announced) :
    (Packed.packed (16 + (as.map len).sum) (loopFields fieldsOf len 16 as)).Tells ↔
      (∀ a ∈ as, Q a) ∧ ((Measure.total (as.map measure)).behind 16).Fits := by
  refine tells_measure ((forall_loopFields 16 as).trans (forall₂_congr fun a _ => hfields a)) ?_
  rw [Measure.announced_behind, Measure.announced_total, List.map_congr_left fun a _ => hlen a]
  rfl

end Cases

theorem tells_match {m : AnyMatch} {ptr bufLen : Int} {n : Nat} (hlen : bufLen = n) :
    (Packed.packed bufLen (m.lengthFields.map (·.shift ptr))).Tells ↔ m.Short ∧ n < 2 ^ 16 :=
  tells_nat ((forall_truthful_shift ptr _).trans m.truthful_iff) hlen

theorem tells_tableFeatures (features : List OflTableFeatures) :
    (packTableFeatures features).Tells ↔ FeaturesShort features := by
  unfold packTableFeatures FeaturesShort
  split
  · next hempty =>
    obtain ⟨t, ht, hnone⟩ := hempty
    exact iff_of_false id fun h => h.1 t ht hnone
  · next hempty =>
    have hall : ∀ t ∈ features, t.properties ≠ [] := fun t ht hnone => hempty ⟨t, ht, hnone⟩
    rw [Packed.Tells, truthful_tableFeatures, tableFeaturesTotalLen_eq]
    exact (and_iff_right hall).symm

theorem MultipartRequest.tells_iff (r : MultipartRequest) : r.pack.Tells ↔ r.Short := by
  cases r with
  | desc | table | groupDesc | groupFeatures | meterFeatures | portDesc =>
    exact iff_of_true ((tells_plain (n := 16) rfl).mpr (by decide)) trivial
  | portStats | queue | group | meter | meterConfig =>
    exact iff_of_true ((tells_plain (n := 24) rfl).mpr (by decide)) trivial
  | flow m | aggregate m => exact tells_match (by omega)
  | tableFeatures features => exact tells_tableFeatures features
  | experimenter | other => exact Iff.rfl

theorem MultipartReply.tells_iff (r : MultipartReply) : r.pack.Tells ↔ r.Short := by
  cases r with
  | desc => exact iff_of_true ((tells_plain (n := 1072) rfl).mpr (by decide)) trivial
  | aggregate => exact iff_of_true ((tells_plain (n := 40) rfl).mpr (by decide)) trivial
  | groupFeatures => exact iff_of_true ((tells_plain (n := 56) rfl).mpr (by decide)) trivial
  | meterFeatures => exact iff_of_true ((tells_plain (n := 32) rfl).mpr (by decide)) trivial
  | table n | portStats n | queue n | portDesc n => exact tells_plain (by omega)
  | flow stats => exact tells_measured OflFlowStats.truthful_iff OflFlowStats.ofpLen_eq
  | groupDesc stats =>
    exact tells_measured OflGroupDescStats.truthful_iff OflGroupDescStats.ofpLen_eq
  | group stats => exact tells_elements OflGroupStats.truthful_iff fun s => rfl
  | meter stats => exact tells_elements OflMeterStats.truthful_iff fun s => rfl
  | meterConfig stats =>
    exact tells_elements OflMeterConfig.truthful_iff fun c =>
      congrArg (8 + ·) (bandsTotalLen_eq c.bands)
  | tableFeatures features => exact tells_tableFeatures features
  | experimenter | other => exact Iff.rfl

/-- The lengths of a message are all true just when it is short in all it has. -/
theorem AnyMsg.lengthsTell_iff (m : AnyMsg) : m.LengthsTell ↔ m.Short := by
  rw [lengthsTell_eq]
  cases m with
  | fixed m =>
    refine iff_of_true ((tells_plain rfl).mpr ?_) trivial
    cases m <;> decide
  | error n => exact tells_plain rfl
  | echoRequest n | echoReply n => exact tells_plain rfl
  | packetIn m n =>
    exact tells_nat ((forall_truthful_shift 24 _).trans m.truthful_packet_iff) (by omega)
  | flowRemoved m => exact tells_match rfl
  | packetOut actions n =>
    refine tells_measure ?_ ?_
    · rw [List.forall_mem_cons, actionsTotalLen_eq, actionsAdvance_eq, truthful_measure]
      exact and_iff_left (forall_actionsFields 24 actions)
    · rw [actionsTotalLen_eq, Measure.announced_behind]
      omega
  | flowMod m =>
    have hfields : (∀ f ∈ m.lengthFields, f.Truthful) ↔
        m.oflMatch.Short ∧ ∀ i ∈ m.instructions, i.Short := by
      rw [FlowMod.lengthFields, List.forall_mem_append, forall_truthful_shift,
        m.oflMatch.truthful_iff, truthful_instructions]
    refine (tells_measure hfields ?_).trans and_assoc
    rw [FlowMod.bufLen, instructionsTotalLen_eq, Measure.announced_behind]
  | groupMod m =>
    refine tells_measure (truthful_buckets 16 m.buckets) ?_
    rw [GroupMod.bufLen, bucketsTotalLen_eq, Measure.announced_behind]
    rfl
  | meterMod m =>
    refine (tells_nat (iff_of_true (forall_bandsFields 16 m.bands) trivial) ?_).trans
      (iff_of_eq (true_and _))
    rw [MeterMod.bufLen, bandsTotalLen_eq]
    rfl
  | multipartRequest r => exact r.tells_iff
  | multipartReply r => exact r.tells_iff
  | queueGetConfigReply queues =>
    exact tells_elements OflPacketQueue.truthful_iff OflPacketQueue.ofpLen_eq
  | experimenter | roleRequest | roleReply | other => exact Iff.rfl

/-- A meter with `n` bands that drop. -/
def dropBands (n : Nat) : MeterMod := ⟨0, 0, 1, List.replicate n ⟨0, 0, .drop⟩⟩

theorem dropBands_bufLen (n : Nat) : (dropBands n).bufLen = 16 + 16 * n := by
  have hsize : bandsSize (dropBands n).bands = 16 * n := by
    rw [bandsSize, dropBands, List.map_replicate, List.sum_replicate, smul_eq_mul, Nat.mul_comm]
    rfl
  rw [MeterMod.bufLen, bandsTotalLen_eq, hsize]
  omega

/-- The header of a message of `2^16` bytes says that it has none. -/
theorem dropBands_header :
    (∃ fields, (AnyMsg.meterMod (dropBands 4095)).pack = .packed 65536 fields ∧
      (⟨2, 0, 65536⟩ : LengthField) ∈ fields) ∧
      ¬(AnyMsg.meterMod (dropBands 4095)).LengthsTell := by
  have hlen : (dropBands 4095).bufLen = 65536 := dropBands_bufLen 4095
  have hpack : (AnyMsg.meterMod (dropBands 4095)).pack =
      .packed 65536 ((dropBands 4095).lengthFields ++ [⟨2, 0, 65536⟩]) := by
    rw [AnyMsg.pack, AnyMsg.packBody, hlen]
    rfl
  have hmem : (⟨2, 0, 65536⟩ : LengthField) ∈
      (dropBands 4095).lengthFields ++ [⟨2, 0, 65536⟩] :=
    List.mem_append_right _ List.mem_cons_self
  refine ⟨⟨_, hpack, hmem⟩, fun h => ?_⟩
  rw [AnyMsg.LengthsTell, hpack] at h
  exact absurd (h _ hmem) (by decide)

end Messages

end Nox.Ofl
