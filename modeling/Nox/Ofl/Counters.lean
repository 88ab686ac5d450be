import Nox.Lib.Loops
import Nox.Lib.Outcome
import Nox.Ofl.Unpacked

/-!
# Counting elements

Before an array is allocated, a function `ofl_utils_count_*` goes over the elements and counts
them; then a loop goes over the same bytes again and decodes as many.  A counter is a loop over
the memory from `d` on, `data_len` and `*count`; a loop of a decoder is told by its element, by
how far it goes on behind one, and by what it does with an error.
-/

namespace Nox.Ofl.Counting

open Lib Records Unpacked

section Counters

/-! ## Counters -/

/-- The variables of a counter; `d` is the memory up to its end. -/
structure CountState where
  d : Bytes
  dataLen : Nat
  count : Nat

abbrev Counter := Loop CountState UnpackError Nat

/-- `*count` for a buffer. -/
def count (C : Counter) (data : Bytes) : Unpack Nat := C.run ⟨data, data.length, 0⟩

/-- Elements that tell their length in two bytes at `off`.  One begins as long as there are
`need` bytes, is not shorter than `least`, and takes `pad` of its length. -/
structure Element where
  need : Nat
  off : Nat
  least : Nat
  bad : UnpackError
  pad : Nat → Nat := id
  header : off + 2 ≤ need := by decide
  need_le : need ≤ 64 := by decide
  least_pos : 1 ≤ least := by decide
  le_pad : ∀ n, n ≤ pad n := by exact Nat.le_refl
  pad_lt : ∀ n, pad n < n + 8 := by exact fun n => Nat.lt_add_of_pos_right (by decide)
  bad_ne : bad ≠ .overrun := by exact nofun

/-- One pass of `while (data_len >= need)`. -/
def Element.pass (E : Element) (s : CountState) : Unpack (CountState ⊕ Nat) :=
  if E.need ≤ s.dataLen then do
    let n ← readNtoh s.d E.off 2
    if s.dataLen < n ∨ n < E.least then .error E.bad
    else return .inl ⟨s.d.drop (E.pad n), sizeSub s.dataLen (E.pad n), s.count + 1⟩
  else return .inr s.count

variable {E : Element} {s s' : CountState}

/-- What a pass that goes on found. -/
theorem Element.pass_eq_next : E.pass s = .ok (.inl s') ↔
    E.need ≤ s.dataLen ∧ ∃ n, readNtoh s.d E.off 2 = .ok n ∧ n ≤ s.dataLen ∧ E.least ≤ n ∧
      s' = ⟨s.d.drop (E.pad n), sizeSub s.dataLen (E.pad n), s.count + 1⟩ := by
  unfold Element.pass
  split
  · next hneed =>
    constructor
    · intro h
      obtain ⟨n, hn, h⟩ := bind_eq_ok.mp h
      split at h
      · cases h
      · next hfits =>
        cases h
        exact ⟨hneed, n, hn, by omega, by omega, rfl⟩
    · rintro ⟨-, n, hn, hle, hleast, rfl⟩
      refine bind_eq_ok.mpr ⟨n, hn, ?_⟩
      rw [if_neg (by omega)]
      rfl
  · next hneed =>
    constructor
    · intro h
      cases h
    · exact fun h => absurd h.1 hneed

theorem readNtoh_inside {src : Bytes} {off k n : Nat} (h : readNtoh src off k = .ok n) :
    off + k ≤ src.length := by
  unfold readNtoh memcpy at h
  split at h
  · assumption
  · cases h

theorem Element.pass_shorter (h : E.pass s = .ok (.inl s')) : s'.d.length < s.d.length := by
  obtain ⟨-, n, hn, -, hleast, rfl⟩ := Element.pass_eq_next.mp h
  have hinside := readNtoh_inside hn
  have hpad := E.le_pad n
  have hpos := E.least_pos
  rw [List.length_drop]
  omega

/-- The memory behind an element is shorter. -/
def Element.counter (E : Element) : Counter where
  pass := E.pass
  measure s := s.d.length
  decreases _ _ := Element.pass_shorter

/-- `*count = data_len / k` -/
def countQuotient (k : Nat) : Counter where
  pass s := .ok (.inr (s.dataLen / k))
  measure _ := 0
  decreases := nofun

def tableFeaturesBadLen : UnpackError := .oflError ofpetTableFeaturesFailed ofptffcBadLen

def tableFeaturesProperties : Element where
  need := 8
  off := 2
  least := 8
  bad := tableFeaturesBadLen
  pad n := roundUp n 8
  le_pad n := by
    unfold roundUp
    omega
  pad_lt n := by
    unfold roundUp
    omega

def oflUtilsCountOfpTableFeaturesProperties : Counter := tableFeaturesProperties.counter

def tableFeatures : Element := { need := 64, off := 0, least := 64, bad := tableFeaturesBadLen }

def oflUtilsCountOfpTableFeatures : Counter := tableFeatures.counter

def instructions : Element := { need := 4, off := 2, least := 4, bad := badLen }

def oflUtilsCountOfpInstructions : Counter := instructions.counter

def buckets : Element := { need := 16, off := 0, least := 16, bad := badLen }

def oflUtilsCountOfpBuckets : Counter := buckets.counter

/-- The loop goes by `sizeof(struct ofp_bucket)`. -/
def meterBands : Element := { need := 16, off := 2, least := 12, bad := badLen }

def oflUtilsCountOfpMeterBands : Counter := meterBands.counter

def oflUtilsCountOfpPorts : Counter := countQuotient 64

def packetQueues : Element := { need := 16, off := 8, least := 16, bad := badLen }

def oflUtilsCountOfpPacketQueues : Counter := packetQueues.counter

def flowStats : Element := { need := 56, off := 0, least := 56, bad := badLen }

def oflUtilsCountOfpFlowStats : Counter := flowStats.counter

def groupStats : Element := { need := 40, off := 0, least := 40, bad := badLen }

def oflUtilsCountOfpGroupStats : Counter := groupStats.counter

def oflUtilsCountOfpTableStats : Counter := countQuotient 24

def oflUtilsCountOfpBucketCounters : Counter := countQuotient 16

def oflUtilsCountOfpPortStats : Counter := countQuotient 112

def oflUtilsCountOfpQueueStats : Counter := countQuotient 40

def groupDescStats : Element := { need := 8, off := 0, least := 8, bad := badLen }

def oflUtilsCountOfpGroupDescStats : Counter := groupDescStats.counter

def queueProps : Element := { need := 8, off := 2, least := 8, bad := badLen }

def oflUtilsCountOfpQueueProps : Counter := queueProps.counter

def meterStats : Element := { need := 40, off := 4, least := 40, bad := badLen }

def oflUtilsCountOfpMeterStats : Counter := meterStats.counter

/-- One pass of the counter of band statistics, which reads nothing. -/
def bandStatsPass (s : CountState) : Unpack (CountState ⊕ Nat) :=
  if 16 ≤ s.dataLen then
    if s.dataLen < 16 then .error badLen
    else .ok (.inl ⟨s.d.drop 16, sizeSub s.dataLen 16, s.count + 1⟩)
  else .ok (.inr s.count)

theorem bandStatsPass_eq_next : bandStatsPass s = .ok (.inl s') ↔
    16 ≤ s.dataLen ∧ s' = ⟨s.d.drop 16, sizeSub s.dataLen 16, s.count + 1⟩ := by
  unfold bandStatsPass
  split
  · next hneed =>
    rw [if_neg (by omega)]
    constructor
    · intro h
      cases h
      exact ⟨hneed, rfl⟩
    · rintro ⟨-, rfl⟩
      rfl
  · next hneed =>
    constructor
    · intro h
      cases h
    · exact fun h => absurd h.1 hneed

def oflUtilsCountOfpMeterBandStats : Counter where
  pass := bandStatsPass
  measure s := s.dataLen
  decreases s s' h := by
    obtain ⟨hneed, rfl⟩ := bandStatsPass_eq_next.mp h
    change sizeSub s.dataLen 16 < s.dataLen
    unfold sizeSub
    omega

def meterConfig : Element := { need := 8, off := 0, least := 8, bad := badLen }

def oflUtilsCountOfpMeterConfig : Counter := meterConfig.counter

def actions : Element :=
  { need := 4, off := 2, least := 4, bad := .oflError ofpetBadAction ofpbacBadLen }

def oflUtilsCountOfpActions : Counter := actions.counter

end Counters

section Tables

/-! ## Table features -/

/-- A property; `ids` has the numbers of each entry of its array. -/
structure TableProperty where
  type : Nat
  ids : List (List Nat)

structure TableFeatures where
  numbers : List Nat
  name : Bytes
  properties : List TableProperty

/-- The length of an element in its bytes 2 and 3. -/
def lenAtTwo (src : Bytes) : Unpack Nat := readNtoh src 2 2

/-- The body of the loop over the ids of instructions, which reads the length to go on by. -/
def instructionId (src : Bytes) (len : Nat) : Unpack (List Nat × Nat) := do
  let type ← readNtoh src 0 2
  let _ ← lenAtTwo src
  return ([type], len)

/-- The body of the loop over the ids of actions. -/
def actionId (src : Bytes) (len : Nat) : Unpack (List Nat × Nat) := do
  return ([← readNtoh src 0 2, ← lenAtTwo src], len)

/-- The cases of `ofl_structs_table_properties_unpack`. -/
def tablePropertyIds (type : Nat) (src : Bytes) (plen : Nat) : Unpack (List (List Nat)) := do
  match type with
  | 0 | 1 => do
    reject (plen < 4) tableFeaturesBadLen
    let n ← oflUtilsCountOfpInstructions.run ⟨src.drop 4, plen - 4, 0⟩
    return (← unpackAll lenAtTwo (fun _ => instructionId) n (src.drop 4) (plen - 4)).1
  | 2 | 3 => do
    reject (plen < 4) tableFeaturesBadLen
    return (← memcpy src 4 (plen - 4)).map fun b => [b.toNat]
  | 4 | 5 | 6 | 7 => do
    reject (plen < 4) tableFeaturesBadLen
    let alen := sizeSub plen 8
    let n ← oflUtilsCountOfpActions.run ⟨src.drop 4, alen, 0⟩
    return (← unpackAll lenAtTwo (fun _ => actionId) n (src.drop 4) alen).1
  | 8 | 10 | 12 | 13 | 14 | 15 => do
    reject (plen < 4) tableFeaturesBadLen
    (List.range ((plen - 4) / 4)).mapM fun i => do return [← readNtoh src (4 + 4 * i) 4]
  -- there is no property whose type could be written
  | _ => .error .overrun

/-- `ofl_structs_table_properties_unpack`: nothing is left of the length that the cases go by. -/
def oflStructsTablePropertiesUnpack (src : Bytes) (len : Nat) : Unpack (TableProperty × Nat) := do
  reject (len < 8) tableFeaturesBadLen
  let srcLen ← lenAtTwo src
  reject (len < srcLen) (.oflError ofpetBadAction ofpbacBadLen)
  let type ← readNtoh src 0 2
  return (⟨type, ← tablePropertyIds type src srcLen⟩, sizeSub len srcLen)

/-- `strncpy`, which fills with zeros. -/
def strncpy (src : Bytes) (off n : Nat) : Unpack Bytes :=
  let s := ((src.drop off).take n).takeWhile (· ≠ 0)
  if s.length = n ∨ off + s.length < src.length then .ok (s ++ List.replicate (n - s.length) 0)
  else .error .overrun

/-- The loop over properties goes on behind the padding. -/
def propertyMove (src : Bytes) : Unpack Nat := do return roundUp (← lenAtTwo src) 8

/-- `ofl_structs_table_features_unpack` -/
def oflStructsTableFeaturesUnpack (src : Bytes) (len : Nat) : Unpack (TableFeatures × Nat) := do
  reject (len < 64) tableFeaturesBadLen
  let srcLen ← readNtoh src 0 2
  reject (len < srcLen) (.oflError ofpetBadAction ofpbacBadLen)
  let name ← strncpy src 8 32
  let numbers ← numbersAt src [(0, 2), (2, 1), (40, 8), (48, 8), (56, 4), (60, 4)]
  let plen := sizeSub srcLen 64
  let n ← oflUtilsCountOfpTableFeaturesProperties.run ⟨src.drop 64, plen, 0⟩
  let (properties, _) ← unpackAll propertyMove (fun _ => oflStructsTablePropertiesUnpack) n
    (src.drop 64) plen
  return (⟨numbers, name, properties⟩, sizeSub len srcLen)

end Tables

section Loops

/-! ## Loops of decoders -/

/-- The loops that follow a counter. -/
inductive DecoderLoop
  | tableFeaturesProperties
  | tableFeatures
  | instructions
  | instructionIds
  | buckets (gtype : Nat)
  | meterBands
  | ports
  | packetQueues
  | flowStats
  | groupStats
  | tableStats
  | bucketCounters
  | portStats
  | queueStats
  | groupDescStats
  | queueProps
  | meterStats
  | meterBandStats
  | meterConfig
  | actions
  | actionIds
  -- the actions of a packet-out message, with what is behind them
  | packetOutActions (behind : Bytes)

namespace DecoderLoop

def counter : DecoderLoop → Counter
  | .tableFeaturesProperties => oflUtilsCountOfpTableFeaturesProperties
  | .tableFeatures => oflUtilsCountOfpTableFeatures
  | .instructions | .instructionIds => oflUtilsCountOfpInstructions
  | .buckets _ => oflUtilsCountOfpBuckets
  | .meterBands => oflUtilsCountOfpMeterBands
  | .ports => oflUtilsCountOfpPorts
  | .packetQueues => oflUtilsCountOfpPacketQueues
  | .flowStats => oflUtilsCountOfpFlowStats
  | .groupStats => oflUtilsCountOfpGroupStats
  | .tableStats => oflUtilsCountOfpTableStats
  | .bucketCounters => oflUtilsCountOfpBucketCounters
  | .portStats => oflUtilsCountOfpPortStats
  | .queueStats => oflUtilsCountOfpQueueStats
  | .groupDescStats => oflUtilsCountOfpGroupDescStats
  | .queueProps => oflUtilsCountOfpQueueProps
  | .meterStats => oflUtilsCountOfpMeterStats
  | .meterBandStats => oflUtilsCountOfpMeterBandStats
  | .meterConfig => oflUtilsCountOfpMeterConfig
  | .actions | .actionIds | .packetOutActions _ => oflUtilsCountOfpActions

/-- How far the loop goes on behind an element. -/
def move : DecoderLoop → Bytes → Unpack Nat
  | .tableFeaturesProperties => propertyMove
  | .instructions | .instructionIds | .meterBands | .queueProps | .actions | .actionIds
  | .packetOutActions _ => lenAtTwo
  | .tableFeatures | .buckets _ | .flowStats | .groupStats | .groupDescStats | .meterConfig =>
    fun src => readNtoh src 0 2
  | .packetQueues => fun src => readNtoh src 8 2
  | .meterStats => fun src => readNtoh src 4 2
  | .ports => fun _ => .ok 64
  | .tableStats => fun _ => .ok 24
  | .bucketCounters | .meterBandStats => fun _ => .ok 16
  | .portStats => fun _ => .ok 112
  | .queueStats => fun _ => .ok 40

/-- Whether the entry of an array was written, and the length that is left. -/
def entry {α : Type} (x : Unpack (α × Nat)) : Unpack (Bool × Nat) := do return (true, (← x).2)

/-- The decoder of an element; `fresh` is what `malloc` gives. -/
def decode (fresh : Bytes → Nat → Bytes) : DecoderLoop → Bytes → Nat → Unpack (Bool × Nat)
  | .tableFeaturesProperties, src, len => entry (oflStructsTablePropertiesUnpack src len)
  | .tableFeatures, src, len => entry (oflStructsTableFeaturesUnpack src len)
  | .instructions, src, len => entry (oflStructsInstructionsUnpack fresh src len)
  | .instructionIds, src, len => entry (instructionId src len)
  | .buckets gtype, src, len => entry (oflStructsBucketUnpack fresh gtype src len)
  | .meterBands, src, len => do
    let (band, len) ← oflStructsMeterBandUnpack src len
    return (band.isSome, len)
  | .ports, src, len => entry (oflStructsPortUnpack src len)
  | .packetQueues, src, len => entry (oflStructsPacketQueueUnpack src len)
  | .flowStats, src, len => entry (oflStructsFlowStatsUnpack fresh src len)
  | .groupStats, src, len => entry (oflStructsGroupStatsUnpack src len)
  | .tableStats, src, len => entry (oflStructsTableStatsUnpack src len)
  | .bucketCounters, src, len => entry (oflStructsBucketCounterUnpack src len)
  | .portStats, src, len => entry (oflStructsPortStatsUnpack src len)
  | .queueStats, src, len => entry (oflStructsQueueStatsUnpack src len)
  | .groupDescStats, src, len => entry (oflStructsGroupDescStatsUnpack fresh src len)
  | .queueProps, src, len => entry (oflStructsQueuePropUnpack src len)
  | .meterStats, src, len => entry (oflStructsMeterStatsUnpack src len)
  | .meterBandStats, src, len => entry (oflStructsMeterBandStatsUnpack src len)
  | .meterConfig, src, len => entry (oflStructsMeterConfigUnpack src len)
  | .actions, src, len | .packetOutActions _, src, len =>
    entry (oflActionsUnpack (fresh src 0) src len)
  | .actionIds, src, len => entry (actionId src len)

/-- The loop goes on when an element was refused. -/
def ignores : DecoderLoop → Bool
  | .tableFeatures | .queueProps | .packetOutActions _ => true
  | _ => false

/-- The bytes behind the counted ones that the decoder may use too. -/
def behind : DecoderLoop → Bytes
  | .packetOutActions behind => behind
  | _ => []

end DecoderLoop

end Loops

end Nox.Ofl.Counting
