import Nox.Lib.Latest
import Nox.Learning.Switch

/-!
# Forwarding to where an address was seen

What a message makes the datapath do with the packet of a packet-in is told from the message
alone, and where an address was seen latest from the packet-ins alone.  A run of the switch
agrees with both unless the type of a packet-in is that of LLDP or the swapped one: the
handler compares what is in host order with a constant in network order.
-/

namespace Nox.Learning

open Oxm Ofl

section Specification

/-! ## What is asked for -/

namespace PacketIn

/-- `eth_type` -/
def ethType (p : PacketIn) : Nat := getField 2 p.oflMatch .ethType

def IsLldp (p : PacketIn) : Prop := p.ethType = 0x88cc

/-- The packet was neither buffered nor sent whole. -/
def Lost (p : PacketIn) : Prop := p.bufferId = ofpNoBuffer ∧ p.totalLen.toNat ≠ p.data.length

instance (p : PacketIn) : Decidable p.IsLldp := inferInstanceAs (Decidable (_ = _))

instance (p : PacketIn) : Decidable p.Lost := inferInstanceAs (Decidable (_ ∧ _))

/-- The port an address is seen on as the unicast source of a packet. -/
def shows (p : PacketIn) (mac : EthernetAddr) : Option UInt32 :=
  if ¬ p.IsLldp ∧ p.ethSrc.isMulticast = false ∧ p.ethSrc = mac then some p.inPort else none

end PacketIn

/-- The port an address was seen on latest, of the packet-ins of a datapath. -/
def lastSeen (seen : List PacketIn) (dpid : UInt64) (mac : EthernetAddr) : Option UInt32 :=
  Lib.latest (·.shows mac) (seen.filter (·.dpid = dpid))

/-- The port for the destination of a packet-in: that it was seen on, or all. -/
def expectedPort (seen : List PacketIn) (p : PacketIn) : Nat :=
  if p.ethDst.isMulticast then ofppFlood
  else match lastSeen seen p.dpid p.ethDst with
    | some port => port.toNat
    | none => ofppFlood

/-- The packet is taken out of the buffer and meets the flow that is added. -/
def Releases (mod : FlowMod) (p : PacketIn) : Prop :=
  mod.command = ofpfcAdd ∧ mod.bufferId ≠ ofpNoBuffer.toNat ∧ mod.bufferId = p.bufferId.toNat ∧
    ∀ e ∈ mod.oflMatch.toOflMatch.entries, getOxmValue p.oflMatch e.header = some e.value

/-- The packet is the one that is sent out, from the buffer or with the message. -/
def Carries (out : PacketOut) (p : PacketIn) : Prop :=
  if out.bufferId = ofpNoBuffer then out.data = p.data ∧ p.totalLen.toNat = p.data.length
  else out.bufferId = p.bufferId

instance (mod : FlowMod) (p : PacketIn) : Decidable (Releases mod p) :=
  inferInstanceAs (Decidable (_ ∧ _))

instance (out : PacketOut) (p : PacketIn) : Decidable (Carries out p) :=
  inferInstanceAs (Decidable (ite _ _ _))

def outputPort : OflAction → Option Nat
  | .output port _ => some port
  | _ => none

def flowPorts (mod : FlowMod) : List Nat :=
  (mod.instructions.flatMap (·.actions)).filterMap fun
    | .known a _ => outputPort a
    | _ => none

/-- The ports a message has the packet of a packet-in sent to. -/
def Message.forwards (p : PacketIn) : Message → List Nat
  | .flowMod mod => if Releases mod p then flowPorts mod else []
  | .packetOut out => if Carries out p then out.actions.filterMap outputPort else []

/-- Where the packet is sent: datapaths and ports. -/
def forwardings (p : PacketIn) (sent : List Sent) : List (UInt64 × Nat) :=
  sent.flatMap fun s => (s.msg.forwards p).map (s.dpid, ·)

/-! ## Runs -/

variable (setupFlows : Bool)

/-- The table after the packet-ins, the first one first. -/
def run (ps : List PacketIn) : SourceTable :=
  ps.foldl (fun sources p => (handle setupFlows sources p).1) []

/-- The table tells of every address of every datapath where it was seen latest. -/
def Tells (sources : SourceTable) (seen : List PacketIn) : Prop :=
  ∀ dpid mac, sources.portOf dpid mac = lastSeen seen dpid mac

/-- A packet-in that is not LLDP has its packet forwarded once, on its datapath, to the port
for its destination. -/
def Forwarded (sources : SourceTable) (seen : List PacketIn) (p : PacketIn) : Prop :=
  ¬ p.IsLldp → ¬ p.Lost →
    forwardings p (handle setupFlows sources p).2 = [(p.dpid, expectedPort (seen ++ [p]) p)]

/-- The table is right at any time, and every packet is forwarded. -/
def Correct (ps : List PacketIn) : Prop :=
  (∀ seen, seen <+: ps → Tells (run setupFlows seen) seen) ∧
    ∀ seen p, seen ++ [p] <+: ps → Forwarded setupFlows (run setupFlows seen) seen p

/-- The table has the source of the packet at its port, or the source is no unicast one. -/
def Known (sources : SourceTable) (p : PacketIn) : Prop :=
  p.ethSrc.isMulticast = true ∨ sources.portOf p.dpid p.ethSrc = some p.inPort

/-- LLDP tells nothing new, nor does a packet whose type is the swapped one, which cannot be
forwarded either. -/
def Sound (sources : SourceTable) (p : PacketIn) : Prop :=
  (p.IsLldp → Known sources p) ∧ (p.ethType = 0xcc88 → p.Lost ∧ Known sources p)

end Specification

section Table

/-! ## The table -/

variable {seen : List PacketIn} {p : PacketIn} {sources : SourceTable} {dpid : UInt64}
  {mac : EthernetAddr}

theorem shows_eq (p : PacketIn) (mac : EthernetAddr) : p.shows mac =
    if ¬ p.IsLldp ∧ p.ethSrc.isMulticast = false ∧ p.ethSrc = mac then some p.inPort else none :=
  rfl

/-- A packet-in changes where its source was seen, on its datapath. -/
theorem lastSeen_concat (seen : List PacketIn) (p : PacketIn) (dpid : UInt64)
    (mac : EthernetAddr) : lastSeen (seen ++ [p]) dpid mac =
      if ¬ p.IsLldp ∧ p.ethSrc.isMulticast = false ∧ p.dpid = dpid ∧ p.ethSrc = mac
      then some p.inPort else lastSeen seen dpid mac := by
  unfold lastSeen
  rw [List.filter_append]
  by_cases hdpid : p.dpid = dpid
  · rw [List.filter_cons_of_pos (by rwa [decide_eq_true_iff]), List.filter_nil,
      Lib.latest_concat, shows_eq]
    simp only [hdpid, true_and]
    split_ifs
    · exact Option.some_or
    · exact Option.none_or
  · rw [List.filter_cons_of_neg (by rwa [decide_eq_true_iff]), List.filter_nil, List.append_nil,
      if_neg fun h => hdpid h.2.2.1]

/-- What was seen was seen on a port that is real. -/
theorem lastSeen_real {port : UInt32} (h : lastSeen seen dpid mac = some port) :
    port.toNat ≤ ofppMax := by
  obtain ⟨p, -, hshows⟩ := Lib.exists_of_latest h
  rw [shows_eq] at hshows
  split_ifs at hshows
  cases hshows
  exact p.inPort_real.2

/-- The table once the source of a packet is learned. -/
def learned (sources : SourceTable) (p : PacketIn) : SourceTable :=
  if !p.ethSrc.isMulticast then sources.learn p.dpid p.ethSrc p.inPort else sources

theorem portOf_learned (sources : SourceTable) (p : PacketIn) (dpid : UInt64)
    (mac : EthernetAddr) : (learned sources p).portOf dpid mac =
      if p.ethSrc.isMulticast = false ∧ p.dpid = dpid ∧ p.ethSrc = mac then some p.inPort
      else sources.portOf dpid mac := by
  unfold learned
  cases p.ethSrc.isMulticast with
  | true => rfl
  | false =>
    simp only [true_and]
    exact SourceTable.portOf_learn ..

/-- Where the source is put changes nothing just when it is known to be there. -/
theorem known_iff (sources : SourceTable) (p : PacketIn) : Known sources p ↔
    ∀ dpid mac, (if p.ethSrc.isMulticast = false ∧ p.dpid = dpid ∧ p.ethSrc = mac
      then some p.inPort else sources.portOf dpid mac) = sources.portOf dpid mac := by
  constructor
  · rintro (hmulticast | hport) dpid mac
    · exact if_neg fun h => Bool.noConfusion (hmulticast.symm.trans h.1)
    · split_ifs with h
      · obtain ⟨-, rfl, rfl⟩ := h
        exact hport.symm
      · rfl
  · intro h
    cases hmulticast : p.ethSrc.isMulticast with
    | true => exact .inl hmulticast
    | false =>
      refine .inr ?_
      rw [← h p.dpid p.ethSrc, if_pos ⟨hmulticast, rfl, rfl⟩]

/-- Of a packet-in that is learned and not LLDP the table tells. -/
theorem Tells.learned (h : Tells sources seen) (hlldp : ¬ p.IsLldp) :
    Tells (learned sources p) (seen ++ [p]) := by
  intro dpid mac
  rw [portOf_learned, lastSeen_concat, h dpid mac]
  simp only [hlldp, not_false_eq_true, true_and]

/-- LLDP that is learned tells nothing new, or the table is wrong. -/
theorem tells_lldp_iff (h : Tells sources seen) (hlldp : p.IsLldp) :
    Tells (learned sources p) (seen ++ [p]) ↔ Known sources p := by
  rw [known_iff]
  refine forall_congr' fun dpid => forall_congr' fun mac => ?_
  have hseen : lastSeen (seen ++ [p]) dpid mac = lastSeen seen dpid mac := by
    rw [lastSeen_concat, if_neg fun hnot => hnot.1 hlldp]
  rw [portOf_learned, hseen, h dpid mac]

/-- So does what is dropped though it is not LLDP. -/
theorem tells_dropped_iff (h : Tells sources seen) (hlldp : ¬ p.IsLldp) :
    Tells sources (seen ++ [p]) ↔ Known sources p := by
  rw [known_iff]
  refine forall_congr' fun dpid => forall_congr' fun mac => ?_
  rw [lastSeen_concat, ← h dpid mac, eq_comm]
  simp only [hlldp, not_false_eq_true, true_and]

end Table

section Messages

/-! ## The messages -/

variable {p : PacketIn} {seen : List PacketIn} {sources : SourceTable}

/-- The flow forwards what it takes out of the buffer. -/
theorem forwards_flowModOf (p : PacketIn) (port : Int32) :
    (Message.flowMod (flowModOf p p.inPort port)).forwards p =
      if p.bufferId = ofpNoBuffer then [] else [port.toUInt32.toNat] := by
  have hmatch : ∀ e ∈ (flowMatch p.inPort p.ethSrc p.ethDst).entries,
      getOxmValue p.oflMatch e.header = some e.value := by
    intro e he
    have hmem := (entries_flowMatch p.inPort p.ethSrc p.ethDst).mem_iff.mp he
    rw [List.mem_cons, List.mem_cons, List.mem_singleton] at hmem
    rcases hmem with rfl | rfl | rfl
    · exact p.ethDst_carried
    · exact p.ethSrc_carried
    · exact p.inPort_carried
  rw [Message.forwards]
  by_cases hbuffer : p.bufferId = ofpNoBuffer
  · rw [if_pos hbuffer, if_neg fun h => h.2.1 (congrArg UInt32.toNat hbuffer)]
  · rw [if_neg hbuffer]
    exact if_pos ⟨rfl, fun h => hbuffer (UInt32.toNat_inj.mp h), rfl, hmatch⟩

theorem forwards_sendBuffered (port : Nat) (h : p.bufferId ≠ ofpNoBuffer) :
    (Message.packetOut (sendBuffered p.bufferId p.inPort port)).forwards p = [port] := by
  have hcarries : Carries (sendBuffered p.bufferId p.inPort port) p := by
    rw [Carries, sendBuffered, if_neg h]
  exact if_pos hcarries

theorem forwards_sendData (port : Nat) (h : p.totalLen.toNat = p.data.length) :
    (Message.packetOut (sendData p.data p.inPort port)).forwards p = [port] := by
  have hcarries : Carries (sendData p.data p.inPort port) p := by
    rw [Carries, sendData, if_pos rfl]
    exact ⟨rfl, h⟩
  exact if_pos hcarries

/-- The flow and the packet that is sent out agree about which of them carries the packet. -/
theorem forwards_messages (setupFlows : Bool) (port : Int32) (hlost : ¬ p.Lost) :
    (messages setupFlows p p.inPort port).flatMap (Message.forwards p) =
      [if port = -1 then ofppFlood else port.toUInt32.toNat] := by
  unfold messages
  rw [List.flatMap_append]
  by_cases hbuffer : p.bufferId = ofpNoBuffer
  · have hwhole : p.totalLen.toNat = p.data.length := not_not.mp fun hne => hlost ⟨hbuffer, hne⟩
    have hflow : (if setupFlows && port != -1 then [Message.flowMod (flowModOf p p.inPort port)]
        else []).flatMap (Message.forwards p) = [] := by
      split_ifs
      · rw [List.flatMap_singleton, forwards_flowModOf, if_pos hbuffer]
      · rfl
    have hsends : (!setupFlows || port == -1 || p.bufferId == ofpNoBuffer) = true := by
      rw [hbuffer, beq_self_eq_true, Bool.or_true]
    rw [hflow, if_pos hsends, if_pos hbuffer, if_neg (not_not.mpr hwhole), List.nil_append,
      List.flatMap_singleton, forwards_sendData _ hwhole]
  · have hsends : (!setupFlows || port == -1 || p.bufferId == ofpNoBuffer) =
        !(setupFlows && port != -1) := by
      rw [beq_false_of_ne hbuffer, Bool.or_false, Bool.not_and, bne, Bool.not_not]
    rw [hsends]
    cases hflow : setupFlows && port != -1 with
    | true =>
      have hport : port ≠ -1 := bne_iff_ne.mp (Bool.and_eq_true_iff.mp hflow).2
      rw [if_pos rfl, if_neg (by decide), List.flatMap_singleton, forwards_flowModOf,
        if_neg hbuffer, if_neg hport]
      rfl
    | false =>
      rw [if_neg (by decide), if_pos Bool.not_false, if_neg hbuffer, List.flatMap_nil,
        List.nil_append, List.flatMap_singleton, forwards_sendBuffered _ hbuffer]

/-- The port that is found is the one the destination was seen on. -/
theorem outPort_expected (h : ∀ mac, sources.portOf p.dpid mac = lastSeen seen p.dpid mac) :
    (if outPort sources p = -1 then ofppFlood else (outPort sources p).toUInt32.toNat) =
      expectedPort seen p := by
  unfold outPort expectedPort
  cases hmulticast : p.ethDst.isMulticast with
  | true => rfl
  | false =>
    have hseen := h p.ethDst
    rw [SourceTable.portOf] at hseen
    rw [← hseen]
    cases hfind : sources.find (.key p.dpid p.ethDst) with
    | none => rfl
    | some i =>
      rw [hfind, Option.map_some] at hseen
      have hport : i.port ≠ -1 := by
        intro hport
        have hreal := lastSeen_real hseen.symm
        rw [hport] at hreal
        exact absurd hreal (by decide)
      exact if_neg hport

/-- What is sent to the datapath of a packet-in is forwarded there. -/
theorem forwardings_map (p : PacketIn) (dpid : UInt64) (msgs : List Message) :
    forwardings p (msgs.map fun msg => ⟨dpid, msg⟩) =
      (msgs.flatMap (Message.forwards p)).map (dpid, ·) := by
  rw [forwardings, List.flatMap_map, List.map_flatMap]

end Messages

section Handler

/-! ## One packet-in -/

variable {p : PacketIn} {seen : List PacketIn} {sources : SourceTable} {setupFlows : Bool}

theorem handle_dropped (h : p.ethType = 0xcc88) : handle setupFlows sources p = (sources, []) :=
  if_pos h

/-- The table is brought up to date before the port is looked up. -/
theorem handle_learned (h : p.ethType ≠ 0xcc88) :
    handle setupFlows sources p = (learned sources p,
      (messages setupFlows p p.inPort (outPort (learned sources p) p)).map
        fun msg => ⟨p.dpid, msg⟩) := by
  refine (if_neg h).trans ?_
  dsimp only
  rw [getField_inPort]
  rfl

/-- What the handler has to do with one packet-in, in a state in which the table is right. -/
theorem handle_iff (h : Tells sources seen) :
    Tells (handle setupFlows sources p).1 (seen ++ [p]) ∧ Forwarded setupFlows sources seen p ↔
      Sound sources p := by
  by_cases hswapped : p.ethType = 0xcc88
  · have hlldp : ¬ p.IsLldp := fun hlldp => absurd (hswapped.symm.trans hlldp) (by decide)
    have hforwarded : Forwarded setupFlows sources seen p ↔ p.Lost := by
      rw [Forwarded, handle_dropped hswapped]
      exact ⟨fun h => by_contra fun hlost => List.cons_ne_nil _ _ (h hlldp hlost).symm,
        fun hlost _ hnot => absurd hlost hnot⟩
    rw [handle_dropped hswapped, hforwarded, tells_dropped_iff h hlldp]
    exact ⟨fun ⟨hknown, hlost⟩ => ⟨fun h => absurd h hlldp, fun _ => ⟨hlost, hknown⟩⟩,
      fun hsound => (hsound.2 hswapped).symm⟩
  · have hsound : Sound sources p ↔ (p.IsLldp → Known sources p) :=
      and_iff_left fun h => absurd h hswapped
    rw [hsound, handle_learned hswapped]
    by_cases hlldp : p.IsLldp
    · have hforwarded : Forwarded setupFlows sources seen p := fun hnot => absurd hlldp hnot
      rw [and_iff_left hforwarded, tells_lldp_iff h hlldp]
      exact ⟨fun hknown _ => hknown, fun h => h hlldp⟩
    · have htells : Tells (learned sources p) (seen ++ [p]) := h.learned hlldp
      refine iff_of_true ⟨htells, fun _ hlost => ?_⟩ fun h => absurd h hlldp
      rw [handle_learned hswapped, forwardings_map, forwards_messages setupFlows _ hlost,
        outPort_expected fun mac => htells p.dpid mac]
      rfl

end Handler

section Runs

/-! ## Any number of packet-ins -/

variable {setupFlows : Bool} {ps : List PacketIn} {p : PacketIn}

theorem run_concat (ps : List PacketIn) (p : PacketIn) :
    run setupFlows (ps ++ [p]) = (handle setupFlows (run setupFlows ps) p).1 := by
  rw [run, List.foldl_append]
  rfl

theorem tells_nil : Tells (run setupFlows []) [] := fun _ _ => rfl

theorem correct_nil : Correct setupFlows [] := by
  refine ⟨fun seen h => ?_, Lib.forall_prefix_nil⟩
  cases List.prefix_nil.mp h
  exact tells_nil

/-- A run is right as long as the table and the forwarding stay right. -/
theorem correct_concat : Correct setupFlows (ps ++ [p]) ↔ Correct setupFlows ps ∧
    Tells (run setupFlows (ps ++ [p])) (ps ++ [p]) ∧
      Forwarded setupFlows (run setupFlows ps) ps p := by
  rw [Correct, Lib.forall_prefix_concat]
  constructor
  · rintro ⟨htells, hforwarded, hlast⟩
    exact ⟨⟨fun seen h => htells seen (h.trans (List.prefix_append ps [p])), hforwarded⟩,
      htells _ List.prefix_rfl, hlast⟩
  · rintro ⟨⟨htells, hforwarded⟩, hnow, hlast⟩
    refine ⟨fun seen h => ?_, hforwarded, hlast⟩
    rcases List.prefix_concat_iff.mp h with rfl | h
    · exact hnow
    · exact htells seen h

/-- A run forwards every packet once, with a table that tells where addresses were seen, if
and only if every packet-in is sound: what is LLDP tells nothing new, and what has the swapped
type tells nothing new and is lost. -/
theorem correct_iff (setupFlows : Bool) (ps : List PacketIn) : Correct setupFlows ps ↔
    ∀ seen p, seen ++ [p] <+: ps → Sound (run setupFlows seen) p := by
  induction ps using List.reverseRecOn with
  | nil => exact iff_of_true correct_nil Lib.forall_prefix_nil
  | append_singleton ps p ih =>
    rw [correct_concat, run_concat, Lib.forall_prefix_concat, ← ih]
    exact and_congr_right fun hcorrect => handle_iff (hcorrect.1 ps List.prefix_rfl)

/-- A host, and the group that LLDP is sent to. -/
def hostAddr : EthernetAddr := ⟨[0x02, 0, 0, 0, 0, 0x01], rfl⟩

def lldpGroup : EthernetAddr := ⟨[0x01, 0x80, 0xc2, 0, 0, 0x0e], rfl⟩

/-- A packet of type `0x88cc` from the host, which is in a buffer. -/
def lldpIn : PacketIn where
  dpid := 1
  oflMatch :=
    oflStructsMatchPut16 (flowMatch 1 hostAddr lldpGroup) OxmFieldIndex.ethType.header 0x88cc
  bufferId := 256
  totalLen := 60
  data := []
  inPort := 1
  ethSrc := hostAddr
  ethDst := lldpGroup
  inPort_carried := by rfl
  inPort_real := by decide
  ethSrc_carried := by rfl
  ethDst_carried := by rfl

/-- The same packet with the type `0xcc88`. -/
def swappedIn : PacketIn :=
  { lldpIn with
    oflMatch :=
      oflStructsMatchPut16 (flowMatch 1 hostAddr lldpGroup) OxmFieldIndex.ethType.header 0xcc88
    inPort_carried := by rfl
    ethSrc_carried := by rfl
    ethDst_carried := by rfl }

theorem ethType_swappedIn : swappedIn.ethType = 0xcc88 := by rfl

/-- LLDP is learned from, and what has the swapped type is dropped. -/
theorem lldp_learned : ¬ Correct true [lldpIn] ∧ ¬ Correct true [swappedIn] := by
  refine ⟨fun h => ?_, fun h => ?_⟩
  · have hport : (run true [lldpIn]).portOf 1 hostAddr = some 1 := by rfl
    have hseen : lastSeen [lldpIn] 1 hostAddr = none := by rfl
    have htells := h.1 [lldpIn] List.prefix_rfl 1 hostAddr
    cases hport.symm.trans (htells.trans hseen)
  · have hlldp : ¬ swappedIn.IsLldp := fun hlldp =>
      absurd (ethType_swappedIn.symm.trans hlldp) (by decide)
    have hlost : ¬ swappedIn.Lost := fun hlost => absurd hlost.1 (by decide)
    have hforwarded := h.2 [] swappedIn List.prefix_rfl hlldp hlost
    rw [handle_dropped ethType_swappedIn] at hforwarded
    cases hforwarded

end Runs

end Nox.Learning
