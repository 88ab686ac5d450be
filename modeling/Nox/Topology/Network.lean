import Nox.Lib.Runs
import Nox.Topology.Discovery

/-!
# Discovery in a network

What `Discovery` is told of: datapaths that join and leave, ports, packets, and the passing
of time.  Beside its data the network remembers which frames were sent, which packets were
taken to confirm a link, and which datapaths and ports are gone.
-/

namespace Nox.Topology

open Lib (Alternates Reaches noticesOf runs)

section Definitions

/-- A packet that was taken to confirm a link. -/
structure Confirmation where
  link : Link
  packet : PacketIn
  time : UInt64
  heard : Discovery.heard packet = some link

/-- Discovery, with the frames that it sent, the confirmations since the last timeout check
and those before it, and what has left and not come back. -/
structure Network where
  discovery : Discovery
  sent : List (Port × Bytes)
  recent : List Confirmation
  earlier : List Confirmation
  lastCheck : UInt64
  departed : List UInt64
  deleted : List Port

inductive Act
  | join (dpid : UInt64)
  | leave (dpid : UInt64)
  | portStatus (p : Port) (reason : PortReason)
  | packetIn (packet : PacketIn) (now : UInt64)
  | timeout (now : UInt64)
  | sendLldp

namespace Network

def init : Network := ⟨.init, [], [], [], 0, [], []⟩

def portStatus (n : Network) (p : Port) (reason : PortReason) : Network :=
  { n with
    discovery := n.discovery.portStatusHandler p reason
    deleted := match reason with
      | .add => n.deleted.filter (· ≠ p)
      | .delete => p :: n.deleted
      | .modify => n.deleted }

def packetIn (n : Network) (packet : PacketIn) (now : UInt64) : Network :=
  { n with
    discovery := n.discovery.packetInHandler packet now
    recent := match h : Discovery.heard packet with
      | none => n.recent
      | some l => ⟨l, packet, now, h⟩ :: n.recent }

def sendLldp (n : Network) : Network :=
  { n with
    discovery := n.discovery.sendLldp.1
    sent := match n.discovery.sendLldp.2 with
      | none => n.sent
      | some sent => sent :: n.sent }

/-- What an act leads to, where links time out after `linkTimeout`. -/
def step (linkTimeout : UInt64) (n : Network) : Act → Option Network
  | .join dpid =>
    some { n with
      discovery := n.discovery.dpAdd dpid
      departed := n.departed.filter (· ≠ dpid) }
  | .leave dpid =>
    some { n with discovery := n.discovery.dpRemove dpid, departed := dpid :: n.departed }
  | .portStatus p reason => some (n.portStatus p reason)
  | .packetIn packet now => some (n.packetIn packet now)
  | .timeout now =>
    some { n with
      discovery := n.discovery.timeoutLinks linkTimeout now
      recent := [], earlier := n.recent ++ n.earlier, lastCheck := now }
  | .sendLldp => some n.sendLldp

end Network

end Definitions

section Events

/-! ## Links are posted and confirmed -/

namespace Network

variable {linkTimeout : UInt64} {n n' : Network}

/-- The time of a link is that of a confirmation, recent or timely at the last check. -/
def Confirmed (linkTimeout : UInt64) (n : Network) (l : Link) (time : UInt64) : Prop :=
  (∃ c ∈ n.recent, c.link = l ∧ c.time = time) ∨
    ∃ c ∈ n.earlier, c.link = l ∧ c.time = time ∧
      n.lastCheck.toNat ≤ time.toNat + linkTimeout.toNat

/-- The events posted tell the table, and its links have been confirmed. -/
structure Timely (linkTimeout : UInt64) (n : Network) : Prop where
  follows : n.discovery.Follows
  confirmed : ∀ e ∈ n.discovery.links, n.Confirmed linkTimeout e.1 e.2

theorem timely_init : init.Timely linkTimeout := ⟨Lib.Follows.nil, fun _ h => nomatch h⟩

/-- Links may be deleted, as long as that is posted. -/
theorem Timely.shrink (h : n.Timely linkTimeout) {discovery : Discovery}
    (hfollows : discovery.Follows) (hlinks : ∀ e ∈ discovery.links, e ∈ n.discovery.links)
    {n' : Network} (hdiscovery : n'.discovery = discovery) (hrecent : n'.recent = n.recent)
    (hearlier : n'.earlier = n.earlier) (hcheck : n'.lastCheck = n.lastCheck) :
    n'.Timely linkTimeout := by
  refine ⟨hdiscovery ▸ hfollows, fun e he => ?_⟩
  have hconfirmed := h.confirmed e (hlinks e (hdiscovery ▸ he))
  rwa [Confirmed, hrecent, hearlier, hcheck]

theorem Timely.packetIn (h : n.Timely linkTimeout) (packet : PacketIn) (now : UInt64) :
    (n.packetIn packet now).Timely linkTimeout := by
  refine ⟨h.follows.packetInHandler packet now, fun e he => ?_⟩
  unfold Network.packetIn at he ⊢
  dsimp only [Discovery.packetInHandler] at he
  unfold Confirmed
  dsimp only
  split
  · next hheard =>
    rw [hheard] at he
    exact h.confirmed e he
  · next l hheard =>
    rw [hheard] at he
    rcases Discovery.mem_linkAdd he with rfl | he
    · exact .inl ⟨_, List.mem_cons_self, rfl, rfl⟩
    · exact (h.confirmed e he).imp_left
        fun ⟨c, hc, hlink⟩ => ⟨c, List.mem_cons_of_mem _ hc, hlink⟩

theorem Timely.timeout (h : n.Timely linkTimeout) (now : UInt64) :
    ({ n with
      discovery := n.discovery.timeoutLinks linkTimeout now
      recent := [], earlier := n.recent ++ n.earlier, lastCheck := now } : Network).Timely
        linkTimeout := by
  refine ⟨h.follows.timeoutLinks linkTimeout now, fun e he => .inr ?_⟩
  obtain ⟨he, htimely⟩ := Discovery.mem_timeoutLinks he
  rcases h.confirmed e he with ⟨c, hc, hlink, htime⟩ | ⟨c, hc, hlink, htime, -⟩
  · exact ⟨c, List.mem_append_left _ hc, hlink, htime, htimely⟩
  · exact ⟨c, List.mem_append_right _ hc, hlink, htime, htimely⟩

theorem Timely.step (h : n.Timely linkTimeout) {act : Act}
    (hstep : n.step linkTimeout act = some n') : n'.Timely linkTimeout := by
  cases act <;> cases hstep
  case join dpid =>
    exact h.shrink (h.follows.dpAdd dpid) (fun _ he => Discovery.mem_dpAdd he) rfl rfl rfl rfl
  case leave dpid =>
    exact h.shrink (h.follows.dpRemove dpid) (fun _ he => (Discovery.mem_dpRemove.mp he).1)
      rfl rfl rfl rfl
  case portStatus p reason =>
    exact h.shrink (h.follows.portStatusHandler p reason)
      (fun _ he => (Discovery.mem_portStatusHandler.mp he).1) rfl rfl rfl rfl
  case packetIn packet now => exact h.packetIn packet now
  case timeout now => exact h.timeout now
  case sendLldp =>
    exact h.shrink h.follows.sendLldp
      (fun _ he => n.discovery.links_sendLldp.1 ▸ he) rfl rfl rfl rfl

/-- The log of the link events, newest first. -/
def log (n : Network) : List (Link × Lib.Notice) := n.discovery.posted.map Discovery.notice

/-- The events for a link alternate, beginning with an addition; the table has the links
that were added more often than removed; and each has been confirmed by a packet that was
not older than the timeout at the last check, or that came after it. -/
theorem links_of_reached (h : Reaches (step linkTimeout) (fun _ _ => True) init n) :
    (∀ l, Alternates (noticesOf l n.log)) ∧
      (∀ l, l ∈ n.discovery.table ↔
        (noticesOf l n.log).count .left < (noticesOf l n.log).count .entered) ∧
      ∀ e ∈ n.discovery.links, n.Confirmed linkTimeout e.1 e.2 := by
  have htimely : n.Timely linkTimeout :=
    h.invariant timely_init fun _ _ _ hn _ hstep => hn.step hstep
  exact ⟨htimely.follows.alternates, fun l => htimely.follows.mem_iff_count, htimely.confirmed⟩

/-- A frame of port 7 of datapath 5, as it comes in on port 1 of datapath 6. -/
def framePacket : PacketIn := ⟨6, 1, createLldp ⟨5, 7⟩ lldpTtl⟩

/-- A link that is confirmed at 1000 and checked at 1200 is in the table. -/
theorem links_of_reached_confirmed : ∃ n : Network,
    runs (step 300) (fun _ _ => True) init
      [.join 5, .join 6, .portStatus ⟨5, 7⟩ .add, .sendLldp, .packetIn framePacket 1000,
        .timeout 1200] = some n ∧
      n.discovery.table = [⟨⟨5, 7⟩, ⟨6, 1⟩⟩] ∧
      ∀ e ∈ n.discovery.links, n.Confirmed 300 e.1 e.2 := by
  obtain ⟨n, hn, htable⟩ : ∃ n : Network,
      runs (step 300) (fun _ _ => True) init
        [.join 5, .join 6, .portStatus ⟨5, 7⟩ .add, .sendLldp, .packetIn framePacket 1000,
          .timeout 1200] = some n ∧ n.discovery.table = [⟨⟨5, 7⟩, ⟨6, 1⟩⟩] := ⟨_, rfl, rfl⟩
  exact ⟨n, hn, htable, (links_of_reached (Reaches.init.runs hn)).2.2⟩

end Network

end Events

end Nox.Topology
