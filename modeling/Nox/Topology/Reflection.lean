import Nox.Topology.Network

/-!
# Whether discovery reflects the network

The ends of a link should be the port its frame was sent out of and the port it came in on,
and no link should be left of what is gone.  `Discovery` takes every frame to have come in on
port 1, and deletes the links of those ports only that it has been told of.
-/

namespace Nox.Topology

open Lib (Reaches runs)

namespace Network

variable {linkTimeout : UInt64} {n n' : Network}

section Definitions

/-- The packet is a frame, maybe padded, that was sent out of the port. -/
def FrameOf (n : Network) (p : Port) (packet : PacketIn) : Prop :=
  ∃ frame padding, (p, frame) ∈ n.sent ∧ packet.data = frame ++ padding

/-- The packet was sent by the source of the link, and received at its destination. -/
def Traced (n : Network) (c : Confirmation) : Prop :=
  n.FrameOf c.link.sport c.packet ∧ c.link.dport = ⟨c.packet.dpid, c.packet.inPort⟩

/-- No end of the link is gone. -/
def Present (n : Network) (l : Link) : Prop :=
  (∀ dpid ∈ n.departed, l.sport.dpid ≠ dpid ∧ l.dport.dpid ≠ dpid) ∧
    ∀ p ∈ n.deleted, l.touches p = false

/-- The table reflects the network. -/
structure Reflects (n : Network) : Prop where
  present : ∀ l ∈ n.discovery.table, n.Present l
  traced : ∀ c ∈ n.recent ++ n.earlier, n.Traced c
  known : ∀ l ∈ n.discovery.table, ∃ c ∈ n.recent ++ n.earlier, c.link = l

/-- A packet that confirms a link is a frame of a port with a datapath id of 48 bits, it came
in on a port 1, and neither end is gone; the links of a datapath that leaves have a port of
it that is known, and a port that is deleted is known if it has links. -/
def Faithful (n : Network) : Act → Prop
  | .leave dpid => ∀ l ∈ n.discovery.table, l.sport.dpid = dpid ∨ l.dport.dpid = dpid →
    ∃ p ∈ n.discovery.ports, p.dpid = dpid ∧ l.touches p = true
  | .portStatus p reason => reason = .delete → ∀ l ∈ n.discovery.table, l.touches p = true →
    p.port ≤ ofppMax ∧ p ∈ n.discovery.ports
  | .packetIn packet _ => ∀ l, Discovery.heard packet = some l →
    (∃ p, n.FrameOf p packet ∧ p.dpid.toNat < 2 ^ 48) ∧ packet.inPort = 1 ∧ n.Present l
  | .join _ | .timeout _ | .sendLldp => True

end Definitions

section Frames

/-! ## Frames and links -/

/-- What was sent are frames of the ports, and so is what will be. -/
structure Framed (n : Network) : Prop where
  discovery : n.discovery.Framed
  sent : ∀ e ∈ n.sent, e.2 = createLldp e.1 lldpTtl

theorem framed_init : init.Framed := ⟨fun _ h => (nomatch h), fun _ h => (nomatch h)⟩

theorem Framed.step (h : n.Framed) {act : Act} (hstep : n.step linkTimeout act = some n') :
    n'.Framed := by
  cases act <;> cases hstep
  case join dpid => exact ⟨h.discovery.dpAdd dpid, h.sent⟩
  case leave dpid => exact ⟨h.discovery.dpRemove dpid, h.sent⟩
  case portStatus p reason => exact ⟨h.discovery.portStatusHandler p reason, h.sent⟩
  case packetIn packet now => exact ⟨h.discovery.packetInHandler packet now, h.sent⟩
  case timeout now => exact ⟨h.discovery.timeoutLinks linkTimeout now, h.sent⟩
  case sendLldp =>
    obtain ⟨hdiscovery, hframe⟩ := h.discovery.sendLldp
    refine ⟨hdiscovery, ?_⟩
    unfold Network.sendLldp
    dsimp only
    split
    · exact h.sent
    · next sent hsent =>
      refine fun e he => ?_
      rcases List.mem_cons.mp he with rfl | he
      · exact hframe _ hsent
      · exact h.sent e he

theorem heard_eq {packet : PacketIn} {l : Link} (h : Discovery.heard packet = some l) :
    parseLldp packet.data = some l.sport ∧ l.dport = ⟨packet.dpid, 1⟩ := by
  unfold Discovery.heard at h
  split at h
  · cases h
  · next sport hsport =>
    dsimp only at h
    split_ifs at h
    cases h
    exact ⟨hsport, rfl⟩

/-- The source that is read from a packet sent it just when the datapath id of the sender has
48 bits. -/
theorem frameOf_sport_iff (h : n.Framed) {packet : PacketIn} {l : Link}
    (hheard : Discovery.heard packet = some l) :
    n.FrameOf l.sport packet ↔ ∃ p, n.FrameOf p packet ∧ p.dpid.toNat < 2 ^ 48 := by
  have hsport := (heard_eq hheard).1
  constructor
  · exact fun hframe => ⟨l.sport, hframe, parseLldp_lt hsport⟩
  · rintro ⟨p, ⟨frame, padding, hsent, hdata⟩, hlt⟩
    have hframe : frame = createLldp p lldpTtl := h.sent _ hsent
    rw [hdata, hframe, parseLldp_createLldp, (ofNat_mod_eq_iff p.dpid).mpr hlt] at hsport
    have hp : p = l.sport := Option.some.inj hsport
    exact hp ▸ ⟨frame, padding, hsent, hdata⟩

end Frames

section Steps

/-! ## When a step keeps the reflection -/

theorem Traced.mono {c : Confirmation} (h : n.Traced c) (hsent : n.sent ⊆ n'.sent) :
    n'.Traced c := by
  obtain ⟨⟨frame, padding, hframe, hdata⟩, hdport⟩ := h
  exact ⟨⟨frame, padding, hsent hframe, hdata⟩, hdport⟩

theorem Present.mono {l : Link} (h : n.Present l) (hdeparted : n'.departed ⊆ n.departed)
    (hdeleted : n'.deleted ⊆ n.deleted) : n'.Present l :=
  ⟨fun dpid hdpid => h.1 dpid (hdeparted hdpid), fun p hp => h.2 p (hdeleted hp)⟩

/-- Links may go, things may come back, and frames may be sent. -/
theorem Reflects.shrink (h : n.Reflects)
    (htable : n'.discovery.table ⊆ n.discovery.table) (hdeparted : n'.departed ⊆ n.departed)
    (hdeleted : n'.deleted ⊆ n.deleted) (hsent : n.sent ⊆ n'.sent)
    (hconfirmations : n'.recent ++ n'.earlier = n.recent ++ n.earlier) : n'.Reflects := by
  refine ⟨fun l hl => (h.present l (htable hl)).mono hdeparted hdeleted, fun c hc => ?_,
    fun l hl => ?_⟩
  · exact (h.traced c (hconfirmations ▸ hc)).mono hsent
  · rw [hconfirmations]
    exact h.known l (htable hl)

theorem reflects_join (h : n.Reflects) (dpid : UInt64) :
    ({ n with
      discovery := n.discovery.dpAdd dpid
      departed := n.departed.filter (· ≠ dpid) } : Network).Reflects :=
  h.shrink (n.discovery.table_dpAdd_subset dpid) (fun _ hd => List.mem_of_mem_filter hd)
    (List.Subset.refl _) (List.Subset.refl _) rfl

theorem reflects_timeout (h : n.Reflects) (now : UInt64) :
    ({ n with
      discovery := n.discovery.timeoutLinks linkTimeout now
      recent := [], earlier := n.recent ++ n.earlier, lastCheck := now } : Network).Reflects :=
  h.shrink (n.discovery.table_timeoutLinks_subset linkTimeout now) (List.Subset.refl _)
    (List.Subset.refl _) (List.Subset.refl _) rfl

theorem reflects_sendLldp (h : n.Reflects) : n.sendLldp.Reflects := by
  refine h.shrink (n.discovery.table_sendLldp ▸ List.Subset.refl _) (List.Subset.refl _)
    (List.Subset.refl _) ?_ rfl
  unfold Network.sendLldp
  dsimp only
  split
  · exact List.Subset.refl _
  · exact List.subset_cons_self _ _

/-- The links that are left of a datapath are those without a port of it that is known. -/
theorem reflects_leave_iff (h : n.Reflects) (dpid : UInt64) :
    ({ n with
      discovery := n.discovery.dpRemove dpid, departed := dpid :: n.departed } :
        Network).Reflects ↔ n.Faithful (.leave dpid) := by
  constructor
  · intro h' l hl hend
    by_contra hnone
    have hkept : l ∈ (n.discovery.dpRemove dpid).table :=
      Discovery.mem_table_dpRemove.mpr ⟨hl, fun p hp hdpid =>
        Bool.eq_false_iff.mpr fun htouches => hnone ⟨p, hp, hdpid, htouches⟩⟩
    obtain ⟨hsport, hdport⟩ := (h'.present l hkept).1 dpid List.mem_cons_self
    exact hend.elim hsport hdport
  · intro hfaithful
    have hmem {l : Link} (hl : l ∈ (n.discovery.dpRemove dpid).table) :=
      Discovery.mem_table_dpRemove.mp hl
    refine ⟨fun l hl => ⟨fun d hd => ?_, (h.present l (hmem hl).1).2⟩, h.traced,
      fun l hl => h.known l (hmem hl).1⟩
    rcases List.mem_cons.mp hd with rfl | hd
    · have hnot : ¬ (l.sport.dpid = d ∨ l.dport.dpid = d) := fun hend => by
        obtain ⟨p, hp, hdpid, htouches⟩ := hfaithful l (hmem hl).1 hend
        rw [(hmem hl).2 p hp hdpid] at htouches
        cases htouches
      exact not_or.mp hnot
    · exact (h.present l (hmem hl).1).1 d hd

/-- The links that are left of a deleted port are those of a port that is not known. -/
theorem reflects_delete_iff (h : n.Reflects) (p : Port) :
    (n.portStatus p .delete).Reflects ↔ n.Faithful (.portStatus p .delete) := by
  constructor
  · intro h' _ l hl htouches
    by_contra hunknown
    have hkept : l ∈ (n.discovery.portStatusHandler p .delete).table :=
      Discovery.mem_table_portStatusHandler.mpr
        ⟨hl, fun _ hmax hp => absurd ⟨hmax, hp⟩ hunknown⟩
    have hgone := (h'.present l hkept).2 p List.mem_cons_self
    rw [htouches] at hgone
    cases hgone
  · intro hfaithful
    have hmem {l : Link} (hl : l ∈ (n.discovery.portStatusHandler p .delete).table) :=
      Discovery.mem_table_portStatusHandler.mp hl
    refine ⟨fun l hl => ⟨(h.present l (hmem hl).1).1, fun q hq => ?_⟩, h.traced,
      fun l hl => h.known l (hmem hl).1⟩
    rcases List.mem_cons.mp hq with rfl | hq
    · by_contra htouches
      obtain ⟨hmax, hp⟩ := hfaithful rfl l (hmem hl).1 (Bool.eq_true_of_not_eq_false htouches)
      exact htouches ((hmem hl).2 rfl hmax hp)
    · exact (h.present l (hmem hl).1).2 q hq

theorem reflects_portStatus_iff (h : n.Reflects) (p : Port) (reason : PortReason) :
    (n.portStatus p reason).Reflects ↔ n.Faithful (.portStatus p reason) := by
  have hsubset : (n.discovery.portStatusHandler p reason).table ⊆ n.discovery.table :=
    fun l hl => (Discovery.mem_table_portStatusHandler.mp hl).1
  cases reason with
  | add =>
    refine iff_of_true (h.shrink hsubset (List.Subset.refl _) ?_ (List.Subset.refl _) rfl)
      fun hreason => nomatch hreason
    exact fun _ hq => List.mem_of_mem_filter hq
  | delete => exact reflects_delete_iff h p
  | modify =>
    exact iff_of_true (h.shrink hsubset (List.Subset.refl _) (List.Subset.refl _)
      (List.Subset.refl _) rfl) fun hreason => nomatch hreason

theorem packetIn_none {packet : PacketIn} (hheard : Discovery.heard packet = none)
    (now : UInt64) : n.packetIn packet now = n := by
  have hdiscovery : n.discovery.packetInHandler packet now = n.discovery := by
    rw [Discovery.packetInHandler, hheard]
  unfold packetIn
  rw [hdiscovery]
  split
  · rfl
  · next l hl => cases hheard.symm.trans hl

theorem packetIn_some {packet : PacketIn} {l : Link}
    (hheard : Discovery.heard packet = some l) (now : UInt64) : n.packetIn packet now =
      { n with
        discovery := n.discovery.linkAdd l now
        recent := ⟨l, packet, now, hheard⟩ :: n.recent } := by
  have hdiscovery : n.discovery.packetInHandler packet now = n.discovery.linkAdd l now := by
    rw [Discovery.packetInHandler, hheard]
  unfold packetIn
  rw [hdiscovery]
  split
  · next hnone => cases hnone.symm.trans hheard
  · next l' hl' =>
    cases hl'.symm.trans hheard
    rfl

/-- A confirmation is traced just when it is a frame of a port with an id of 48 bits that
came in on a port 1. -/
theorem traced_iff (h : n.Framed) (c : Confirmation) : n.Traced c ↔
    (∃ p, n.FrameOf p c.packet ∧ p.dpid.toNat < 2 ^ 48) ∧ c.packet.inPort = 1 := by
  refine and_congr (frameOf_sport_iff h c.heard) ?_
  rw [(heard_eq c.heard).2, Port.mk.injEq]
  exact ⟨fun h => h.2.symm, fun h => ⟨rfl, h.symm⟩⟩

/-- A link is entered as it is only if its frame came in on a port 1. -/
theorem reflects_packetIn_iff (h : n.Reflects) (hframed : n.Framed) (packet : PacketIn)
    (now : UInt64) : (n.packetIn packet now).Reflects ↔ n.Faithful (.packetIn packet now) := by
  cases hheard : Discovery.heard packet with
  | none =>
    rw [packetIn_none hheard]
    exact iff_of_true h fun l hl => nomatch hheard.symm.trans hl
  | some l =>
    rw [packetIn_some hheard]
    have hfaithful : n.Faithful (.packetIn packet now) ↔
        n.Traced ⟨l, packet, now, hheard⟩ ∧ n.Present l := by
      rw [traced_iff hframed, and_assoc]
      constructor
      · exact fun hall => hall l hheard
      · intro hl l' hl'
        cases hheard.symm.trans hl'
        exact hl
    rw [hfaithful]
    constructor
    · exact fun h' => ⟨h'.traced _ List.mem_cons_self,
        h'.present l (Discovery.mem_table_linkAdd.mpr (.inl rfl))⟩
    · rintro ⟨htraced, hpresent⟩
      refine ⟨fun l' hl' => ?_, fun c hc => ?_, fun l' hl' => ?_⟩
      · rcases Discovery.mem_table_linkAdd.mp hl' with rfl | hl'
        · exact hpresent
        · exact h.present l' hl'
      · rcases List.mem_cons.mp hc with rfl | hc
        · exact htraced
        · exact h.traced c hc
      · rcases Discovery.mem_table_linkAdd.mp hl' with rfl | hl'
        · exact ⟨_, List.mem_cons_self, rfl⟩
        · obtain ⟨c, hc, hlink⟩ := h.known l' hl'
          exact ⟨c, List.mem_cons_of_mem _ hc, hlink⟩

/-- A step keeps the reflection just when it is faithful. -/
theorem reflects_step_iff (h : n.Reflects) (hframed : n.Framed) {act : Act}
    (hstep : n.step linkTimeout act = some n') : n'.Reflects ↔ n.Faithful act := by
  cases act <;> cases hstep
  case join dpid => exact iff_of_true (reflects_join h dpid) trivial
  case leave dpid => exact reflects_leave_iff h dpid
  case portStatus p reason => exact reflects_portStatus_iff h p reason
  case packetIn packet now => exact reflects_packetIn_iff h hframed packet now
  case timeout now => exact iff_of_true (reflects_timeout h now) trivial
  case sendLldp => exact iff_of_true (reflects_sendLldp h) trivial

theorem reflects_init : init.Reflects :=
  ⟨fun _ h => (nomatch h), fun _ h => (nomatch h), fun _ h => (nomatch h)⟩

/-- In runs with faithful steps the table reflects the network, and goes on to just as long as
the steps are faithful. -/
theorem reflects_of_reached (h : Reaches (step linkTimeout) Faithful init n) :
    n.Reflects ∧ ∀ act n', n.step linkTimeout act = some n' → (n'.Reflects ↔ n.Faithful act) := by
  obtain ⟨hreflects, hframed⟩ :=
    h.invariant (P := fun n => n.Reflects ∧ n.Framed) ⟨reflects_init, framed_init⟩
      fun _ _ _ ⟨hn, hframed⟩ hfaithful hstep =>
        ⟨(reflects_step_iff hn hframed hstep).mpr hfaithful, hframed.step hstep⟩
  exact ⟨hreflects, fun _ _ hstep => reflects_step_iff hreflects hframed hstep⟩

/-- A link between two ports that are known is entered, and goes when a datapath leaves. -/
theorem reflects_of_reached_leave : ∃ n n' : Network,
    n.discovery.table = [⟨⟨5, 7⟩, ⟨6, 1⟩⟩] ∧ n.step 300 (.leave 6) = some n' ∧
      n'.discovery.table = [] ∧ n.Reflects ∧ (n'.Reflects ↔ n.Faithful (.leave 6)) := by
  have hstart : Reaches (step 300) Faithful init init := .init
  have hsent := ((((hstart.step
    (a := Act.join 5) trivial rfl).step (a := Act.join 6) trivial rfl).step
    (a := Act.portStatus ⟨5, 7⟩ .add) (fun h => nomatch h) rfl).step
    (a := Act.portStatus ⟨6, 1⟩ .add) (fun h => nomatch h) rfl).step (a := Act.sendLldp) trivial rfl
  have hheard := hsent.step (a := Act.packetIn framePacket 1000)
    (fun l hl => by
      have hframe : Discovery.heard framePacket = some ⟨⟨5, 7⟩, ⟨6, 1⟩⟩ := rfl
      cases hframe.symm.trans hl
      refine ⟨⟨⟨5, 7⟩, ⟨_, [], List.mem_cons_self, (List.append_nil _).symm⟩, by decide⟩, rfl,
        fun _ hd => (nomatch hd), fun _ hp => (nomatch hp)⟩) rfl
  obtain ⟨hreflects, hiff⟩ := reflects_of_reached hheard
  exact ⟨_, _, rfl, rfl, rfl, hreflects, hiff (.leave 6) _ rfl⟩

/-- A frame that comes in on port 2 is taken to have come in on port 1; when the datapath, of
which port 2 is known, leaves, the link is left. -/
theorem left_at_departed : ∃ n : Network,
    runs (step 300) (fun _ _ => True) init
      [.join 5, .join 6, .portStatus ⟨5, 7⟩ .add, .portStatus ⟨6, 2⟩ .add, .sendLldp,
        .packetIn ⟨6, 2, createLldp ⟨5, 7⟩ lldpTtl⟩ 1000, .leave 6] = some n ∧
      n.discovery.table = [⟨⟨5, 7⟩, ⟨6, 1⟩⟩] ∧ n.departed = [6] ∧
      n.recent.map (·.packet.inPort) = [2] ∧ ¬ n.Reflects := by
  refine ⟨_, rfl, rfl, rfl, rfl, fun h => ?_⟩
  exact ((h.present ⟨⟨5, 7⟩, ⟨6, 1⟩⟩ List.mem_cons_self).1 6 List.mem_cons_self).2 rfl

end Steps

end Network

end Nox.Topology
