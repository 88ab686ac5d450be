import Nox.Openflow.Connection

/-!
# Echo messages

`ofl_msg_unpack` and `ofl_msg_pack` for echo requests and replies: a message of one of these
types is packed and unpacked without loss, whatever its payload (`unpack_pack`).
-/

namespace Nox.Openflow

def OFP_VERSION : UInt8 := 4
def OFPT_ECHO_REQUEST : UInt8 := 2
def OFPT_ECHO_REPLY : UInt8 := 3

/-- An `ofl_msg_echo` with its transaction id; its payload fits into a message. -/
@[ext] structure Echo where
  xid : UInt32
  data : Bytes
  fits : data.length + 8 < 2 ^ 16
  deriving DecidableEq

theorem headerLength_lt_two_pow (h : Bytes) : headerLength h < 2 ^ 16 := hton_lt 2 _

/-- `ofl_msg_unpack` of a buffer with an echo message of this type; `none` for an error or a
message of another type. -/
def Echo.unpack (type : UInt8) (buf : Bytes) : Option Echo :=
  if hlen : 8 ≤ buf.length ∧ buf.length = headerLength buf then
    if buf[0]! = OFP_VERSION ∧ buf[1]! = type then
      some ⟨UInt32.ofNat (beNat ((buf.drop 4).take 4)), buf.drop 8, by
        have hlt := headerLength_lt_two_pow buf
        rw [List.length_drop]
        omega⟩
    else none
  else none

/-- `ofl_msg_pack` -/
def Echo.pack (type : UInt8) (e : Echo) : Bytes :=
  [OFP_VERSION, type] ++ beBytes 2 (8 + e.data.length) ++ beBytes 4 e.xid.toNat ++ e.data

theorem length_pack (type : UInt8) (e : Echo) : (e.pack type).length = 8 + e.data.length := by
  simp [Echo.pack]
  omega

theorem headerLength_pack (type : UInt8) (e : Echo) :
    headerLength (e.pack type) = (e.pack type).length := by
  have hfits := e.fits
  have htake : ((e.pack type).drop 2).take 2 = beBytes 2 (8 + e.data.length) := by
    simp [Echo.pack]
  rw [headerLength, htake, length_pack, ← leBytes_hton, leNat_leBytes_of_lt (hton_lt 2 _),
    hton_hton (by omega)]

/-- An echo message is unpacked as it was packed. -/
theorem unpack_pack (type type' : UInt8) (e : Echo) :
    Echo.unpack type' (e.pack type) = if type = type' then some e else none := by
  have hlen := length_pack type e
  rw [Echo.unpack, dif_pos ⟨by omega, (headerLength_pack type e).symm⟩]
  by_cases htype : type = type'
  · have hxid : ((e.pack type).drop 4).take 4 = beBytes 4 e.xid.toNat := by
      simp [Echo.pack]
    have hdata : (e.pack type).drop 8 = e.data := by
      simp [Echo.pack, List.drop_append]
    rw [if_pos ⟨rfl, htype⟩, if_pos htype]
    refine congrArg some (Echo.ext ?_ hdata)
    rw [hxid, beNat_beBytes_of_lt e.xid.toNat_lt, UInt32.ofNat_toNat]
  · rw [if_neg fun h => htype h.2, if_neg htype]

end Nox.Openflow
