import Nox.Topology.Frame

/-!
# What is read from a discovery frame

`parse_lldp` reads inside the frame only, and what it accepts begins with a TLV for the chassis and
one for the port: these encode what it returns.  So no frame that it accepts stands for two ports,
and those made for ports with ids of 48 bits come back as these.
-/

namespace Nox.Topology

section Reads

/-! ## Reads -/

/-- So many bytes of a buffer, unless they are past its end. -/
def readAt (buf : Bytes) (off n : Nat) : Option Bytes :=
  if off + n ≤ buf.length then some ((buf.drop off).take n) else none

/-- `parse_lldp`, which fails when it reads past the end. -/
def parseLldpReads (buf : Bytes) : Option (Option Port) :=
  if buf.length < 36 then some none
  else do
    if (← readAt buf 12 2) ≠ beBytes 2 lldpType then return none
    if (← readAt buf 14 2) ≠ [0x02, 0x07] then return none
    if (← readAt buf (14 + 2) 1) ≠ [0x04] then return none
    let dpid := datapathidFromBytes (← readAt buf (14 + 3) 6)
    if (← readAt buf (14 + 9) 2) ≠ [0x04, 0x05] then return none
    if (← readAt buf (14 + 9 + 2) 1) ≠ [0x02] then return none
    return some ⟨dpid, UInt32.ofNat (leNat (← readAt buf (14 + 9 + 3) 4))⟩

theorem readAt_eq {buf : Bytes} {off n : Nat} (h : off + n ≤ buf.length) :
    readAt buf off n = some ((buf.drop off).take n) := if_pos h

/-- Nothing is read past the end. -/
theorem parseLldpReads_eq (buf : Bytes) : parseLldpReads buf = some (parseLldp buf) := by
  unfold parseLldpReads parseLldp
  by_cases hlength : buf.length < 36
  · rw [if_pos hlength, if_pos hlength]
  · rw [if_neg hlength, if_neg hlength]
    have hread (off n : Nat) (h : off + n ≤ 36) :
        readAt buf off n = some ((buf.drop off).take n) := readAt_eq (by omega)
    simp only [hread 12 2 (by decide), hread 14 2 (by decide), hread (14 + 2) 1 (by decide),
      hread (14 + 3) 6 (by decide), hread (14 + 9) 2 (by decide), hread (14 + 9 + 2) 1 (by decide),
      hread (14 + 9 + 3) 4 (by decide), Option.bind_eq_bind, Option.bind_some, List.drop_drop]
    split_ifs <;> rfl

end Reads

section Tlvs

/-! ## TLVs -/

/-- The first TLV of a frame's body, and what follows it: a type of seven bits, a length of nine and
a value. -/
def firstTlv : Bytes → Option (Nat × Bytes × Bytes)
  | b :: b' :: rest =>
    let header := b.toNat * 256 + b'.toNat
    let length := header % 512
    if length ≤ rest.length then some (header / 512, rest.take length, rest.drop length) else none
  | _ => none

/-- The first two TLVs of a frame are a chassis id, which is a MAC address, and a port id, which is
an interface: of this datapath id and this port, the number as the host stores it. -/
def Encodes (buf : Bytes) (p : Port) : Prop :=
  ∃ mac id rest rest', firstTlv (buf.drop 14) = some (1, 0x04 :: mac, rest) ∧
    firstTlv rest = some (2, 0x02 :: id, rest') ∧ mac.length = 6 ∧ id.length = 4 ∧
    p.dpid.toNat = beNat mac ∧ p.port.toNat = leNat id

/-- A frame encodes one port. -/
theorem Encodes.unique {buf : Bytes} {p q : Port} (hp : Encodes buf p) (hq : Encodes buf q) :
    p = q := by
  obtain ⟨mac, id, rest, rest', hchassis, hport, -, -, hdpid, hnumber⟩ := hp
  obtain ⟨mac', id', rest₁, rest₂, hchassis', hport', -, -, hdpid', hnumber'⟩ := hq
  rw [hchassis] at hchassis'
  cases hchassis'
  rw [hport] at hport'
  cases hport'
  obtain ⟨dpid, port⟩ := p
  obtain ⟨dpid', port'⟩ := q
  rw [Port.mk.injEq, ← UInt64.toNat_inj, ← UInt32.toNat_inj]
  exact ⟨hdpid.trans hdpid'.symm, hnumber.trans hnumber'.symm⟩

/-- A TLV is read when its header, its subtype and its length are there. -/
theorem firstTlv_eq {l : Bytes} {b b' subtype : UInt8} {n : Nat} (htake : l.take 2 = [b, b'])
    (hsubtype : (l.drop 2).take 1 = [subtype]) (hn : (b.toNat * 256 + b'.toNat) % 512 = n + 1)
    (hlength : n + 3 ≤ l.length) : firstTlv l = some ((b.toNat * 256 + b'.toNat) / 512,
      subtype :: (l.drop 3).take n, l.drop (n + 3)) := by
  have hl : l = b :: b' :: l.drop 2 := by
    conv_lhs => rw [← List.take_append_drop 2 l, htake]
    rfl
  have hrest : l.drop 2 = subtype :: l.drop 3 := by
    conv_lhs => rw [← List.take_append_drop 1 (l.drop 2), hsubtype, List.drop_drop]
    rfl
  rw [hl, firstTlv, hn, if_pos (by rw [List.length_drop]; omega), ← hl, hrest, List.take_succ_cons,
    List.drop_succ_cons, List.drop_drop, Nat.add_comm 3 n]

/-- What is accepted encodes what is returned. -/
theorem encodes_of_parseLldp {buf : Bytes} {p : Port} (h : parseLldp buf = some p) :
    Encodes buf p := by
  unfold parseLldp at h
  by_cases hlength : buf.length < 36
  · rw [if_pos hlength] at h
    cases h
  rw [if_neg hlength] at h
  dsimp only at h
  split_ifs at h with htype hchassis hmac hport hsubtype
  cases h
  have hdrop : (buf.drop 14).length = buf.length - 14 := List.length_drop
  have hdrop' : ((buf.drop 14).drop 9).length = buf.length - 14 - 9 := by
    rw [List.length_drop, hdrop]
  have hfirst := firstTlv_eq (n := 6) (not_not.mp hchassis) (not_not.mp hmac) rfl (by omega)
  have hsecond := firstTlv_eq (n := 4) (not_not.mp hport) (not_not.mp hsubtype) rfl (by omega)
  have hsix : (((buf.drop 14).drop 3).take 6).length = 6 :=
    List.length_take_of_le (by rw [List.length_drop]; omega)
  have hfour : ((((buf.drop 14).drop 9).drop 3).take 4).length = 4 :=
    List.length_take_of_le (by rw [List.length_drop]; omega)
  refine ⟨_, _, _, _, hfirst, hsecond, hsix, hfour, ?_, ?_⟩
  · have hlt := leNat_lt (((buf.drop 14).drop 3).take 6).reverse
    rw [List.length_reverse, hsix] at hlt
    rw [datapathidFromBytes, UInt64.toNat_ofNat']
    exact Nat.mod_eq_of_lt (hlt.trans (by decide))
  · have hlt := leNat_lt ((((buf.drop 14).drop 9).drop 3).take 4)
    rw [hfour] at hlt
    rw [UInt32.toNat_ofNat']
    exact Nat.mod_eq_of_lt hlt

end Tlvs

section RoundTrips

/-! ## Round trips -/

/-- A port whose datapath id fits in a frame. -/
def Port.Fits (p : Port) : Prop := p.dpid.toNat < 2 ^ 48

theorem parseLldp_createLldp_of_fits {p : Port} (h : p.Fits) (ttl : Nat) (padding : Bytes) :
    parseLldp (createLldp p ttl ++ padding) = some p := by
  rw [parseLldp_createLldp, (ofNat_mod_eq_iff p.dpid).mpr h]

/-- A frame made for a port is read as this port, whatever has been added to it; nothing is read
past the end of any buffer; what is read is what the frame's TLVs encode; and two ports are never
read as the same, from frames made for them or from others that encode them. -/
theorem lldp_round_trips :
    (∀ p : Port, p.Fits → ∀ ttl padding, parseLldp (createLldp p ttl ++ padding) = some p) ∧
      (∀ buf, parseLldpReads buf = some (parseLldp buf)) ∧
      (∀ buf p, parseLldp buf = some p → Encodes buf p ∧ p.Fits) ∧
      (∀ p q : Port, p.Fits → q.Fits → ∀ ttl ttl' padding padding',
        parseLldp (createLldp p ttl ++ padding) = parseLldp (createLldp q ttl' ++ padding') →
          p = q) ∧
      ∀ buf buf' p q reported, Encodes buf p → Encodes buf' q →
        parseLldp buf = some reported → parseLldp buf' = some reported → p = q := by
  refine ⟨fun p hp => parseLldp_createLldp_of_fits hp, parseLldpReads_eq,
    fun buf p h => ⟨encodes_of_parseLldp h, parseLldp_lt h⟩, ?_, ?_⟩
  · intro p q hp hq ttl ttl' padding padding' h
    rw [parseLldp_createLldp_of_fits hp, parseLldp_createLldp_of_fits hq] at h
    exact Option.some.inj h
  · intro buf buf' p q reported hp hq h h'
    have hreported := hp.unique (encodes_of_parseLldp h)
    exact hreported.trans (hq.unique (encodes_of_parseLldp h')).symm

/-- Two ports of one switch. -/
def twoPorts : Port × Port := (⟨0xa1b2c3d4e5f6, 3⟩, ⟨0xa1b2c3d4e5f6, 0x300⟩)

/-- The frame for the first, with padding, encodes this port and no other, and is not read as that
for the second. -/
theorem lldp_round_trips_two :
    parseLldp (createLldp twoPorts.1 120 ++ List.replicate 24 0) = some twoPorts.1 ∧
      Encodes (createLldp twoPorts.1 120 ++ List.replicate 24 0) twoPorts.1 ∧
      parseLldp (createLldp twoPorts.1 120 ++ List.replicate 24 0) ≠
        parseLldp (createLldp twoPorts.2 120 ++ []) ∧
      ∀ q, Encodes (createLldp twoPorts.1 5 ++ []) q → q = twoPorts.1 := by
  obtain ⟨hread, -, hencodes, hdistinct, hforeign⟩ := lldp_round_trips
  have hfits : twoPorts.1.Fits := by
    rw [Port.Fits]
    decide
  have hfits' : twoPorts.2.Fits := by
    rw [Port.Fits]
    decide
  have hpadded := hread twoPorts.1 hfits 120 (List.replicate 24 0)
  have hfirst := hread twoPorts.1 hfits 5 []
  have henc := (hencodes _ _ hpadded).1
  refine ⟨hpadded, henc, fun heq => ?_, fun q hq => hforeign _ _ q _ _ hq henc hfirst hpadded⟩
  have hsame := hdistinct _ _ hfits hfits' _ _ _ _ heq
  exact absurd hsame (by decide)

end RoundTrips

end Nox.Topology
