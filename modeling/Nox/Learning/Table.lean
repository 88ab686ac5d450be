import Nox.Lib.Bytes

/-!
# The table of the learning switch

`Mac_source` of `switch.cc` with its equality and hash, and the `hash_set` of them.  A port
is an `int`, of which `-1` is no port; it is compared with the `uint32_t` of a packet by its
bits.  The hash is one of the key alone, so what is looked up is found by the key.
-/

namespace Nox.Learning

section Definitions

/-! ## Keys -/

/-- `ethernetaddr` -/
@[ext]
structure EthernetAddr where
  octet : Bytes
  octet_length : octet.length = 6
  deriving DecidableEq

/-- `ethernetaddr::is_multicast` -/
def EthernetAddr.isMulticast (a : EthernetAddr) : Bool := 0x01 &&& a.octet.headD 0 != 0

/-- `Mac_source` -/
structure MacSource where
  datapathId : UInt64
  mac : EthernetAddr
  port : Int32
  deriving DecidableEq

namespace MacSource

/-- `Mac_source::Mac_source(datapathid, ethernetaddr)` -/
def key (datapathId : UInt64) (mac : EthernetAddr) : MacSource := ⟨datapathId, mac, -1⟩

/-- `operator==` -/
def same (a b : MacSource) : Bool := a.datapathId == b.datapathId && a.mac == b.mac

end MacSource

/-- `fnv_hash` of the bytes of `data`. -/
def fnvHash (data : Bytes) (value : UInt32) : UInt32 :=
  data.foldl (fun value p => value * 0x01000193 ^^^ p.toUInt32) value

/-- The offset basis that is the default. -/
def fnvBasis : UInt32 := 2166136261

/-- `Hash_mac_source` -/
def MacSource.hash (val : MacSource) : UInt32 :=
  fnvHash val.mac.octet (fnvHash (leBytes 8 val.datapathId.toNat) fnvBasis)

/-! ## The set -/

/-- `Source_table` -/
abbrev SourceTable := List MacSource

namespace SourceTable

/-- What the set takes two elements to be the same by: the bucket first. -/
def hit (key i : MacSource) : Bool := i.hash == key.hash && i.same key

/-- `hash_set::find` -/
def find (sources : SourceTable) (key : MacSource) : Option MacSource := sources.find? (hit key)

/-- `hash_set::insert`: what is there already stays. -/
def insert (sources : SourceTable) (src : MacSource) : SourceTable :=
  match sources.find src with
  | some _ => sources
  | none => src :: sources

/-- The port of an element is set through its iterator, unless it is the same. -/
def setPort (key : MacSource) (inPort : UInt32) : SourceTable → SourceTable
  | [] => []
  | i :: sources =>
    if hit key i then
      (if i.port.toUInt32 ≠ inPort then { i with port := inPort.toInt32 } else i) :: sources
    else i :: setPort key inPort sources

/-- A source is entered with the port it was seen on. -/
def learn (sources : SourceTable) (datapathId : UInt64) (mac : EthernetAddr) (inPort : UInt32) :
    SourceTable :=
  let src := MacSource.key datapathId mac
  setPort src inPort (sources.insert src)

/-- The port that is found for a key. -/
def portOf (sources : SourceTable) (datapathId : UInt64) (mac : EthernetAddr) : Option UInt32 :=
  (sources.find (.key datapathId mac)).map (·.port.toUInt32)

end SourceTable

end Definitions

section Keys

/-! ## What is found by a key -/

variable {a b key : MacSource} {sources : SourceTable} {inPort : UInt32}

theorem MacSource.same_iff : a.same b = true ↔ a.datapathId = b.datapathId ∧ a.mac = b.mac := by
  rw [MacSource.same, Bool.and_eq_true, beq_iff_eq, beq_iff_eq]

/-- Elements that are equal have one hash. -/
theorem MacSource.hash_of_same (h : a.same b = true) : a.hash = b.hash := by
  obtain ⟨hdpid, hmac⟩ := MacSource.same_iff.mp h
  rw [MacSource.hash, MacSource.hash, hdpid, hmac]

namespace SourceTable

theorem hit_iff : hit key a = true ↔ a.datapathId = key.datapathId ∧ a.mac = key.mac := by
  rw [hit, Bool.and_eq_true, beq_iff_eq, ← MacSource.same_iff]
  exact and_iff_right_of_imp MacSource.hash_of_same

theorem find_cons_of_hit (h : hit key a = true) : SourceTable.find (a :: sources) key = some a :=
  List.find?_cons_of_pos h

theorem find_cons_of_not_hit (h : ¬ hit key a = true) :
    SourceTable.find (a :: sources) key = sources.find key :=
  List.find?_cons_of_neg h

/-- What is inserted is found, with the port of what was there. -/
theorem find_insert (sources : SourceTable) (key : MacSource) :
    ((sources.insert key).find key).isSome = true := by
  unfold insert
  cases h : sources.find key with
  | some i => exact Option.isSome_of_eq_some h
  | none => exact Option.isSome_of_eq_some (find_cons_of_hit (hit_iff.mpr ⟨rfl, rfl⟩))

theorem find_insert_other (h : ¬ hit b key = true) :
    (sources.insert key).find b = sources.find b := by
  unfold insert
  cases sources.find key with
  | some i => rfl
  | none => exact find_cons_of_not_hit h

/-- A port that has been set is found under the key. -/
theorem find_setPort (hfound : (sources.find key).isSome = true) :
    (SourceTable.find (setPort key inPort sources) key).map (·.port.toUInt32) = some inPort := by
  induction sources with
  | nil => cases hfound
  | cons i sources ih =>
    rw [setPort]
    by_cases hhit : hit key i = true
    · rw [if_pos hhit]
      split_ifs with hport
      · have hset : hit key { i with port := inPort.toInt32 } = true :=
          hit_iff.mpr (hit_iff.mp hhit)
        rw [find_cons_of_hit hset]
        exact congrArg some (UInt32.toUInt32_toInt32 inPort)
      · rw [find_cons_of_hit hhit]
        exact congrArg some (not_not.mp hport)
    · rw [if_neg hhit, find_cons_of_not_hit hhit]
      rw [find_cons_of_not_hit hhit] at hfound
      exact ih hfound

/-- Under another key nothing changes. -/
theorem find_setPort_other (h : ¬ hit b key = true) :
    SourceTable.find (setPort key inPort sources) b = sources.find b := by
  induction sources with
  | nil => rfl
  | cons i sources ih =>
    rw [setPort]
    by_cases hhit : hit key i = true
    · have hother {i' : MacSource} (hd : i'.datapathId = i.datapathId) (hm : i'.mac = i.mac) :
          ¬ hit b i' = true := by
        intro hb
        obtain ⟨hdpid, hmac⟩ := hit_iff.mp hhit
        obtain ⟨hdpid', hmac'⟩ := hit_iff.mp hb
        exact h (hit_iff.mpr ⟨hdpid.symm.trans (hd.symm.trans hdpid'),
          hmac.symm.trans (hm.symm.trans hmac')⟩)
      rw [if_pos hhit, find_cons_of_not_hit (hother rfl rfl)]
      split_ifs
      · exact find_cons_of_not_hit (hother rfl rfl)
      · exact find_cons_of_not_hit (hother rfl rfl)
    · rw [if_neg hhit]
      by_cases hb : hit b i = true
      · rw [find_cons_of_hit hb, find_cons_of_hit hb]
      · rw [find_cons_of_not_hit hb, find_cons_of_not_hit hb, ih]

/-- What the table tells of a key once a source is learned. -/
theorem portOf_learn (sources : SourceTable) (dpid dpid' : UInt64) (mac mac' : EthernetAddr)
    (inPort : UInt32) : (sources.learn dpid mac inPort).portOf dpid' mac' =
      if dpid = dpid' ∧ mac = mac' then some inPort else sources.portOf dpid' mac' := by
  unfold portOf learn
  split_ifs with hkey
  · obtain ⟨rfl, rfl⟩ := hkey
    exact find_setPort (find_insert sources _)
  · have hother : ¬ hit (.key dpid' mac') (.key dpid mac) = true := fun h => hkey (hit_iff.mp h)
    rw [find_setPort_other hother, find_insert_other hother]

end SourceTable

end Keys

end Nox.Learning
