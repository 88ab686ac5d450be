import Nox.Lib.Bytes

/-!
# Discovery frames

Discovery sends an LLDP frame out of every port, and learns from the one that comes back
which port it left from.  The frame has room for 48 bits of the datapath id.
-/

namespace Nox.Topology

section Definitions

/-- A port of a datapath. -/
structure Port where
  dpid : UInt64
  port : UInt32
  deriving DecidableEq, Repr

def lldpType : Nat := 0x88cc

def lldpTtl : Nat := 120

/-- `memcpy` from the second byte of the datapath id in network order. -/
def dpidBytes (dpid : UInt64) : Bytes := (beBytes 8 dpid.toNat).drop 2

/-- `datapathid::from_bytes` -/
def datapathidFromBytes (bytes : Bytes) : UInt64 := UInt64.ofNat (beNat bytes)

/-- `create_lldp`: the Ethernet header, and TLVs for chassis, port, lifetime and end. -/
def createLldp (p : Port) (ttl : Nat) : Bytes :=
  [0x01, 0x13, 0x10, 0x00, 0x00, 0x01] ++ (0x00 :: (dpidBytes p.dpid).tail) ++
    beBytes 2 lldpType ++
    ([0x02, 0x07] ++ [0x04] ++ dpidBytes p.dpid) ++
    ([0x04, 0x05] ++ [0x02] ++ leBytes 4 p.port.toNat) ++
    ([0x06, 0x02] ++ leBytes 2 ttl) ++
    [0x00, 0x00]

/-- `parse_lldp` -/
def parseLldp (buf : Bytes) : Option Port :=
  if buf.length < 36 then none
  else if (buf.drop 12).take 2 ≠ beBytes 2 lldpType then none
  else
    let chassisTlv := buf.drop 14
    if chassisTlv.take 2 ≠ [0x02, 0x07] then none
    else if (chassisTlv.drop 2).take 1 ≠ [0x04] then none
    else
      let portTlv := chassisTlv.drop 9
      if portTlv.take 2 ≠ [0x04, 0x05] then none
      else if (portTlv.drop 2).take 1 ≠ [0x02] then none
      else
        some ⟨datapathidFromBytes ((chassisTlv.drop 3).take 6),
          UInt32.ofNat (leNat ((portTlv.drop 3).take 4))⟩

end Definitions

section RoundTrip

theorem dpidBytes_eq (dpid : UInt64) : dpidBytes dpid = beBytes 6 dpid.toNat := rfl

theorem datapathidFromBytes_dpidBytes (dpid : UInt64) :
    datapathidFromBytes (dpidBytes dpid) = UInt64.ofNat (dpid.toNat % 2 ^ 48) := by
  rw [datapathidFromBytes, dpidBytes_eq, beNat, beBytes, List.reverse_reverse, leNat_leBytes]
  rfl

/-- The ids that go through a frame are those of 48 bits. -/
theorem ofNat_mod_eq_iff (dpid : UInt64) :
    UInt64.ofNat (dpid.toNat % 2 ^ 48) = dpid ↔ dpid.toNat < 2 ^ 48 := by
  have hlt := dpid.toNat_lt
  rw [← UInt64.toNat_inj, UInt64.toNat_ofNat']
  omega

theorem createLldp_length (p : Port) (ttl : Nat) : (createLldp p ttl).length = 36 := rfl

/-- What is read from a frame, which may have been padded: the port it was made for, with an
id of 48 bits. -/
theorem parseLldp_createLldp (p : Port) (ttl : Nat) (padding : Bytes) :
    parseLldp (createLldp p ttl ++ padding) =
      some ⟨UInt64.ofNat (p.dpid.toNat % 2 ^ 48), p.port⟩ := by
  have hport : UInt32.ofNat (leNat (leBytes 4 p.port.toNat)) = p.port := by
    rw [leNat_leBytes_of_lt p.port.toNat_lt, UInt32.ofNat_toNat]
  have hlength : ¬ (createLldp p ttl ++ padding).length < 36 := by
    rw [List.length_append, createLldp_length]
    omega
  have hread : parseLldp (createLldp p ttl ++ padding) =
      some ⟨datapathidFromBytes (dpidBytes p.dpid),
        UInt32.ofNat (leNat (leBytes 4 p.port.toNat))⟩ := by
    rw [parseLldp, if_neg hlength]
    rfl
  rw [hread, hport, datapathidFromBytes_dpidBytes]

/-- The datapath id in a frame has 48 bits. -/
theorem parseLldp_lt {buf : Bytes} {p : Port} (h : parseLldp buf = some p) :
    p.dpid.toNat < 2 ^ 48 := by
  unfold parseLldp at h
  dsimp only at h
  split_ifs at h
  cases h
  have hlength : ((((buf.drop 14).drop 3).take 6).reverse).length ≤ 6 := by
    rw [List.length_reverse]
    exact List.length_take_le ..
  have hlt := leNat_lt (((buf.drop 14).drop 3).take 6).reverse
  have hpow := Nat.pow_le_pow_right (show 0 < 256 by decide) hlength
  dsimp only [datapathidFromBytes, beNat]
  rw [UInt64.toNat_ofNat']
  exact (Nat.mod_le _ _).trans_lt (hlt.trans_le hpow)

end RoundTrip

end Nox.Topology
