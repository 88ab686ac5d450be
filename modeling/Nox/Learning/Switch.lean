import Nox.Learning.Table
import Nox.Ofl.Sizes

/-!
# The learning switch

`Switch::handle` of `switch.cc`, with the parts of `Flow` and `FlowMod` it uses.  Of a
packet-in it reads the match that was decoded, the buffer and the data; what it sends goes
to the datapath the packet-in is from.  It sends only after it is done with the table, so
what else is handled while a send blocks does not meet a table half changed.
-/

namespace Nox.Learning

open Oxm Ofl

section Definitions

/-! ## Packet-ins -/

def ofppMax : Nat := 0xffffff00
def ofppFlood : Nat := 0xfffffffb
def ofppAny : Nat := 0xffffffff
def ofpgAny : Nat := 0xffffffff
def ofpNoBuffer : UInt32 := 0xffffffff

/-- The memory of the first entry with the hash of the field's header. -/
def fieldMemory (m : OflMatch) (field : OxmFieldIndex) : Option Bytes :=
  getOxmValue m field.header

/-- `Flow::get_Field` of a number of `k` bytes: all ones if there is no such field. -/
def getField (k : Nat) (m : OflMatch) (field : OxmFieldIndex) : Nat :=
  match fieldMemory m field with
  | some value => load k value
  | none => 256 ^ k - 1

/-- An `Ofp_msg_event` of a packet-in that carries the ingress port, which is that of a port,
and both addresses. -/
structure PacketIn where
  dpid : UInt64
  oflMatch : OflMatch
  bufferId : UInt32
  totalLen : UInt16
  data : Bytes
  inPort : UInt32
  ethSrc : EthernetAddr
  ethDst : EthernetAddr
  inPort_carried : fieldMemory oflMatch .inPort = some (leBytes 4 inPort.toNat)
  inPort_real : 0 < inPort.toNat ∧ inPort.toNat ≤ ofppMax
  ethSrc_carried : fieldMemory oflMatch .ethSrc = some ethSrc.octet
  ethDst_carried : fieldMemory oflMatch .ethDst = some ethDst.octet

/-- `ethernet::LLDP` -/
def ethernetLldp : Nat := hton 2 0x88cc

/-! ## Messages -/

/-- `ofl_msg_packet_out` -/
structure PacketOut where
  bufferId : UInt32
  inPort : UInt32
  actions : List OflAction
  data : Bytes
  deriving DecidableEq

inductive Message
  | flowMod (mod : FlowMod)
  | packetOut (out : PacketOut)

/-- A message, and the datapath it is sent to. -/
structure Sent where
  dpid : UInt64
  msg : Message

def ofpfcAdd : Nat := 0
def ofpFlowPermanent : Nat := 0
def ofpDefaultPriority : Nat := 0x8000

/-- `ofd_flow_mod_flags` -/
def ofdFlowModFlags : Nat := 1

/-- The match of the flow that is set up. -/
def flowMatch (inPort : UInt32) (ethSrc ethDst : EthernetAddr) : OflMatch :=
  let f := oflStructsMatchPut32 oflStructsMatchInit OxmFieldIndex.inPort.header inPort.toNat
  let f := oflStructsMatchPutEth f OxmFieldIndex.ethSrc.header ethSrc.octet
  oflStructsMatchPutEth f OxmFieldIndex.ethDst.header ethDst.octet

theorem entries_flowMatch (inPort : UInt32) (ethSrc ethDst : EthernetAddr) :
    (flowMatch inPort ethSrc ethDst).entries.Perm
      [⟨OxmFieldIndex.ethDst.header, ethDst.octet⟩, ⟨OxmFieldIndex.ethSrc.header, ethSrc.octet⟩,
        ⟨OxmFieldIndex.inPort.header, leBytes 4 inPort.toNat⟩] := by
  have hsrc : ethSrc.octet.take ethAddrLen = ethSrc.octet :=
    List.take_of_length_le ethSrc.octet_length.le
  have hdst : ethDst.octet.take ethAddrLen = ethDst.octet :=
    List.take_of_length_le ethDst.octet_length.le
  unfold flowMatch oflStructsMatchPutEth oflStructsMatchPut32
  rw [hsrc, hdst]
  refine (entries_matchPut _ _ _).trans (.cons _ ((entries_matchPut _ _ _).trans (.cons _ ?_)))
  exact entries_matchPut _ _ _

theorem flowMatch_readable (inPort : UInt32) (ethSrc ethDst : EthernetAddr) :
    ∀ e ∈ (flowMatch inPort ethSrc ethDst).entries, oxmLength e.header ≤ e.value.length := by
  have hport : oxmLength OxmFieldIndex.inPort.header = 4 := by decide
  have hsrc : oxmLength OxmFieldIndex.ethSrc.header = 6 := by decide
  have hdst : oxmLength OxmFieldIndex.ethDst.header = 6 := by decide
  intro e he
  have hmem := (entries_flowMatch inPort ethSrc ethDst).mem_iff.mp he
  rw [List.mem_cons, List.mem_cons, List.mem_singleton] at hmem
  rcases hmem with rfl | rfl | rfl
  · exact (hdst.trans ethDst.octet_length.symm).le
  · exact (hsrc.trans ethSrc.octet_length.symm).le
  · exact (hport.trans (leBytes_length 4 inPort.toNat).symm).le

/-! ## The handler -/

/-- The port for the destination, `-1` to flood. -/
def outPort (sources : SourceTable) (pi : PacketIn) : Int32 :=
  if !pi.ethDst.isMulticast then
    match sources.find (.key pi.dpid pi.ethDst) with
    | some i => i.port
    | none => -1
  else -1

/-- The flow that is set up for the packets that follow, and for the one in the buffer. -/
def flowModOf (pi : PacketIn) (inPort : UInt32) (outPort : Int32) : FlowMod where
  cookie := 0
  cookieMask := 0
  tableId := 0
  command := ofpfcAdd
  idleTimeout := 1
  hardTimeout := ofpFlowPermanent
  priority := ofpDefaultPriority
  bufferId := pi.bufferId.toNat
  outPort := ofppAny
  outGroup := ofpgAny
  flags := ofdFlowModFlags
  oflMatch := ⟨flowMatch inPort pi.ethSrc pi.ethDst, flowMatch_readable inPort pi.ethSrc pi.ethDst⟩
  instructions := [.applyActions [.known (.output outPort.toUInt32.toNat 0) trivial]]

/-- `send_openflow_pkt` of what is in a buffer. -/
def sendBuffered (bufferId inPort : UInt32) (port : Nat) : PacketOut :=
  ⟨bufferId, inPort, [.output port 0], []⟩

/-- `send_openflow_pkt` of the data. -/
def sendData (data : Bytes) (inPort : UInt32) (port : Nat) : PacketOut :=
  ⟨ofpNoBuffer, inPort, [.output port 0], data⟩

/-- What `Switch::handle` sends once the port is known. -/
def messages (setupFlows : Bool) (pi : PacketIn) (inPort : UInt32) (outPort : Int32) :
    List Message :=
  let flow := if setupFlows && outPort != -1 then [.flowMod (flowModOf pi inPort outPort)] else []
  let port := if outPort = -1 then ofppFlood else outPort.toUInt32.toNat
  let packet :=
    if !setupFlows || outPort == -1 || pi.bufferId == ofpNoBuffer then
      if pi.bufferId = ofpNoBuffer then
        -- neither buffered nor sent whole
        if pi.totalLen.toNat ≠ pi.data.length then []
        else [.packetOut (sendData pi.data inPort port)]
      else [.packetOut (sendBuffered pi.bufferId inPort port)]
    else []
  flow ++ packet

/-- `Switch::handle`: the table afterwards, and what is sent. -/
def handle (setupFlows : Bool) (sources : SourceTable) (pi : PacketIn) :
    SourceTable × List Sent :=
  if getField 2 pi.oflMatch .ethType = ethernetLldp then (sources, [])
  else
    let inPort := UInt32.ofNat (getField 4 pi.oflMatch .inPort)
    let sources :=
      if !pi.ethSrc.isMulticast then sources.learn pi.dpid pi.ethSrc inPort else sources
    (sources, (messages setupFlows pi inPort (outPort sources pi)).map fun msg => ⟨pi.dpid, msg⟩)

end Definitions

section Fields

/-! ## What is read of a match -/

variable {m m' : OflMatch} {p : Bytes}

/-- The ingress port is read as it is. -/
theorem getField_inPort (pi : PacketIn) :
    UInt32.ofNat (getField 4 pi.oflMatch .inPort) = pi.inPort := by
  have hlt : pi.inPort.toNat < 256 ^ 4 := pi.inPort.toNat_lt
  have hload : load 4 (leBytes 4 pi.inPort.toNat) = pi.inPort.toNat := by
    rw [load, List.take_of_length_le (leBytes_length 4 _).le, leNat_leBytes_of_lt hlt]
  rw [getField, pi.inPort_carried]
  dsimp only
  rw [hload, UInt32.ofNat_toNat]

/-- The decoder stores the type in host order: what is read is the number that the bytes on
the wire are in network order. -/
theorem getField_ethType (h : pullEntry m OxmFieldIndex.ethType.header p = .ok m')
    (hlength : 6 ≤ p.length) : getField 2 m' .ethType = beNat ((p.drop 4).take 2) := by
  have hlookup : oxmFieldLookup OxmFieldIndex.ethType.header =
      some (defineField .ethType oxmDlNone 0 false) := by decide
  have htwo : ((p.drop 4).take 2).length = 2 := by
    rw [List.length_take, List.length_drop]
    omega
  rw [pullEntry, hlookup] at h
  dsimp only at h
  split_ifs at h with _ _ hdup
  have hnew : m.withHash OxmFieldIndex.ethType.header = [] := by
    rw [checkOxmDup, Bool.not_eq_true, Bool.not_eq_false', List.isEmpty_iff] at hdup
    exact hdup
  obtain rfl : oflStructsMatchPut16 m OxmFieldIndex.ethType.header
      (hton 2 (load 2 (p.drop 4))) = m' := Except.ok.inj h
  have hentries : (oflStructsMatchPut16 m OxmFieldIndex.ethType.header
      (hton 2 (load 2 (p.drop 4)))).withHash OxmFieldIndex.ethType.header =
        [⟨OxmFieldIndex.ethType.header, leBytes 2 (hton 2 (load 2 (p.drop 4)))⟩] := by
    rw [OflMatch.withHash_eq] at hnew ⊢
    refine List.perm_singleton.mp (((entries_matchPut _ _ _).filter _).trans ?_)
    rw [List.filter_cons, if_pos (beq_self_eq_true _), hnew]
  rw [getField, fieldMemory, getOxmValue, hentries]
  change load 2 (leBytes 2 (hton 2 (load 2 (p.drop 4)))) = _
  rw [load, List.take_of_length_le (leBytes_length 2 _).le, leNat_leBytes_of_lt (hton_lt 2 _),
    hton, load, leBytes_leNat_of_length htwo, beNat]

end Fields

section Flows

/-! ## The flow that is set up -/

theorem length_flowMatch (inPort : UInt32) (ethSrc ethDst : EthernetAddr) :
    (flowMatch inPort ethSrc ethDst).length = 28 := by
  have hsrc : (ethSrc.octet.take ethAddrLen).length = 6 :=
    List.length_take_of_le ethSrc.octet_length.ge
  have hdst : (ethDst.octet.take ethAddrLen).length = 6 :=
    List.length_take_of_le ethDst.octet_length.ge
  change (((0 + (leBytes 4 inPort.toNat).length + 4) % 65536 +
    (ethSrc.octet.take ethAddrLen).length + 4) % 65536 +
      (ethDst.octet.take ethAddrLen).length + 4) % 65536 = 28
  rw [hsrc, hdst, leBytes_length]

/-- The flow is packed into the buffer that is announced for it. -/
theorem flowModOf_fits (pi : PacketIn) (inPort : UInt32) (port : Int32) :
    (flowModOf pi inPort port).Fits := by
  refine (FlowMod.fits_iff _).mpr ⟨fun i hi => ?_, rfl, .inr ?_⟩
  · cases List.mem_singleton.mp hi
    exact fun a ha => List.mem_singleton.mp ha ▸ trivial
  · have hsize : (flowModOf pi inPort port).oflMatch.entriesSize = 28 := by
      have hperm := (entries_flowMatch inPort pi.ethSrc pi.ethDst).map
        fun e => entrySize e.header
      exact hperm.sum_eq.trans (show ([OxmFieldIndex.ethDst.header, OxmFieldIndex.ethSrc.header,
        OxmFieldIndex.inPort.header].map entrySize).sum = 28 by decide)
    have hlength : (flowModOf pi inPort port).oflMatch.toOflMatch.length = 28 :=
      length_flowMatch ..
    rw [hsize, hlength]

end Flows

end Nox.Learning
