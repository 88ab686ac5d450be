import Mathlib.Data.List.Perm.Basic
import Nox.Topology.Frame
import Nox.Lib.Notices

/-!
# Discovery

`Discovery` keeps the datapaths, the ports it has been told of, a frame for each of them, and
the links along which frames have come back, with the time of the last one.  It posts a
`Link_event` when a link enters its table and when one leaves it.
-/

namespace Nox.Topology

open Lib (Notice Follows)

section Definitions

structure Link where
  sport : Port
  dport : Port
  deriving DecidableEq, Repr

def Link.touches (l : Link) (p : Port) : Bool := l.sport = p || l.dport = p

/-- `Link_event::Action` -/
inductive Action
  | add
  | remove
  deriving DecidableEq, Repr

/-- `Link_event::Reason` -/
inductive Reason
  | link
  | port
  | dp
  deriving DecidableEq, Repr

structure LinkEvent where
  link : Link
  action : Action
  reason : Reason
  deriving DecidableEq, Repr

/-- `ofp_port_reason` -/
inductive PortReason
  | add
  | delete
  | modify
  deriving DecidableEq, Repr

/-- An `OFPT_PACKET_IN` of a datapath. -/
structure PacketIn where
  dpid : UInt64
  inPort : UInt32
  data : Bytes

def ofppMax : UInt32 := 0xffffff00

/-- The data of `Discovery`.  The events posted are newest first. -/
structure Discovery where
  dps : List UInt64
  ports : List Port
  lldps : List (Port × Bytes)
  links : List (Link × UInt64)
  nextPort : Nat
  posted : List LinkEvent

namespace Discovery

def init : Discovery := ⟨[], [], [], [], 2 ^ 64 - 1, []⟩

variable (s : Discovery)

def linkAdd (l : Link) (now : UInt64) : Discovery :=
  if l ∈ s.links.map Prod.fst then
    { s with links := s.links.map fun e => if e.1 = l then (l, now) else e }
  else { s with links := s.links ++ [(l, now)], posted := ⟨l, .add, .link⟩ :: s.posted }

def linkDelete (l : Link) (reason : Reason) : Discovery :=
  { s with
    links := s.links.filter (·.1 ≠ l)
    posted := ⟨l, .remove, reason⟩ :: s.posted }

/-- The loop over the links of the table that deletes some of them. -/
def deleteLinks (gone : Link × UInt64 → Bool) (reason : Reason) :
    List (Link × UInt64) → Discovery → Discovery
  | [], s => s
  | e :: rest, s =>
    deleteLinks gone reason rest (if gone e then s.linkDelete e.1 reason else s)

def portAdd (p : Port) : Discovery :=
  if p ∈ s.ports then s
  else
    { s with
      ports := s.ports ++ [p]
      lldps := if p ∈ s.lldps.map Prod.fst then s.lldps
        else s.lldps ++ [(p, createLldp p lldpTtl)] }

/-- `port_delete` of an iterator. -/
def portDeleteAt (i : Nat) (reason : Reason) : Discovery :=
  match s.ports[i]? with
  | none => s
  | some p =>
    let s := deleteLinks (·.1.touches p) reason s.links s
    { s with lldps := s.lldps.filter (·.1 ≠ p), ports := s.ports.eraseIdx i }

/-- `port_delete` of a port, if it is there. -/
def portDelete (p : Port) (reason : Reason) : Discovery :=
  s.portDeleteAt (s.ports.idxOf p) reason

/-- The loop of `dp_remove` over the ports, from one on. -/
def dpRemoveLoop (dpid : UInt64) : Nat → Nat → Discovery → Discovery
  | 0, _, s => s
  | n + 1, i, s =>
    match s.ports[i]? with
    | none => s
    | some p =>
      if p.dpid = dpid then dpRemoveLoop dpid n i (s.portDeleteAt i .dp)
      else dpRemoveLoop dpid n (i + 1) s

def dpRemove (dpid : UInt64) : Discovery :=
  let s := dpRemoveLoop dpid s.ports.length 0 s
  { s with dps := s.dps.filter (· ≠ dpid) }

def dpAdd (dpid : UInt64) : Discovery :=
  let s := if dpid ∈ s.dps then s.dpRemove dpid else s
  { s with dps := s.dps ++ [dpid] }

def portStatusHandler (p : Port) (reason : PortReason) : Discovery :=
  if p.port ≤ ofppMax then
    match reason with
    | .add => s.portAdd p
    | .delete => s.portDelete p .port
    | .modify => s
  else s

/-- The link `packet_in_handler` takes a packet for.  The port the packet came in on is not
looked at, and a loop is ignored. -/
def heard (packet : PacketIn) : Option Link :=
  match parseLldp packet.data with
  | none => none
  | some sport =>
    let dport : Port := ⟨packet.dpid, 1⟩
    if sport = dport then none else some ⟨sport, dport⟩

/-- `packet_in_handler` -/
def packetInHandler (packet : PacketIn) (now : UInt64) : Discovery :=
  match heard packet with
  | none => s
  | some l => s.linkAdd l now

/-- `timeout_links`, where `link_timeout` has been configured. -/
def timeoutLinks (linkTimeout now : UInt64) : Discovery :=
  deleteLinks (·.2 < now - linkTimeout) .link s.links s

/-- `send_lldp`, with the frame that is sent and the port it is sent out of. -/
def sendLldp : Discovery × Option (Port × Bytes) :=
  if s.ports.isEmpty then (s, none)
  else
    let next := if s.ports.length ≤ s.nextPort then 0 else s.nextPort
    match s.ports[next]? with
    | none => ({ s with nextPort := next }, none)
    | some port =>
      match s.lldps.find? (·.1 = port) with
      | none => ({ s with nextPort := next }, none)
      | some sent => ({ s with nextPort := next + 1 }, some sent)

/-- The links of the table. -/
def table : List Link := s.links.map Prod.fst

/-- An event as a notice about the table. -/
def notice (e : LinkEvent) : Link × Notice :=
  (e.link, match e.action with
    | .add => .entered
    | .remove => .left)

/-- The events that were posted tell what is in the table. -/
def Follows : Prop := Lib.Follows s.table (s.posted.map notice)

end Discovery

end Definitions

section Rules

namespace Discovery

variable {s : Discovery} {e : Link × UInt64}

/-! ## What the operations leave in the table -/

/-- Only the table changes, and what has been posted. -/
theorem deleteLinks_eq (gone : Link × UInt64 → Bool) (reason : Reason)
    (rest : List (Link × UInt64)) (s : Discovery) : deleteLinks gone reason rest s =
      { s with
        links := (deleteLinks gone reason rest s).links
        posted := (deleteLinks gone reason rest s).posted } := by
  induction rest generalizing s with
  | nil => rfl
  | cons e rest ih =>
    rw [deleteLinks]
    refine (ih _).trans ?_
    split_ifs <;> rfl

theorem mem_deleteLinks {gone : Link × UInt64 → Bool} {reason : Reason}
    {rest : List (Link × UInt64)} : e ∈ (deleteLinks gone reason rest s).links ↔
      e ∈ s.links ∧ ∀ e' ∈ rest, gone e' = true → e.1 ≠ e'.1 := by
  induction rest generalizing s with
  | nil => exact ⟨fun h => ⟨h, fun _ h => nomatch h⟩, And.left⟩
  | cons e' rest ih =>
    rw [deleteLinks, ih, List.forall_mem_cons]
    split_ifs with hgone
    · dsimp only [linkDelete]
      rw [List.mem_filter, decide_eq_true_iff, and_assoc]
      exact and_congr_right fun _ => and_congr_left' ⟨fun h _ => h, fun h => h hgone⟩
    · exact and_congr_right fun _ => (and_iff_right fun h => absurd h hgone).symm

/-- A link that is added has the time of its last frame. -/
theorem mem_linkAdd {l : Link} {now : UInt64} (h : e ∈ (s.linkAdd l now).links) :
    e = (l, now) ∨ e ∈ s.links := by
  unfold linkAdd at h
  split_ifs at h
  · obtain ⟨e', he', rfl⟩ := List.mem_map.mp h
    split_ifs
    · exact .inl rfl
    · exact .inr he'
  · exact (List.mem_append.mp h).symm.imp_left List.mem_singleton.mp

theorem table_linkAdd (s : Discovery) (l : Link) (now : UInt64) :
    (s.linkAdd l now).table = if l ∈ s.table then s.table else s.table ++ [l] := by
  unfold linkAdd table
  split_ifs
  · dsimp only
    rw [List.map_map]
    refine List.map_congr_left fun e _ => ?_
    dsimp only [Function.comp]
    split_ifs with hsame
    · exact hsame.symm
    · rfl
  · exact List.map_append ..

theorem mem_table_linkAdd {l l' : Link} {now : UInt64} :
    l' ∈ (s.linkAdd l now).table ↔ l' = l ∨ l' ∈ s.table := by
  rw [table_linkAdd]
  split_ifs with hmem
  · exact (or_iff_right_of_imp fun heq => heq ▸ hmem).symm
  · rw [List.mem_append, List.mem_singleton, or_comm]

/-- The links of a port are deleted, the others kept. -/
theorem mem_portDeleteAt {i : Nat} {p : Port} (hi : s.ports[i]? = some p) (reason : Reason) :
    e ∈ (s.portDeleteAt i reason).links ↔ e ∈ s.links ∧ e.1.touches p = false := by
  unfold portDeleteAt
  rw [hi]
  refine mem_deleteLinks.trans (and_congr_right fun he => ⟨fun h => ?_, fun h e' _ he' hsame => ?_⟩)
  · by_contra htouches
    exact h e he (Bool.eq_true_of_not_eq_false htouches) rfl
  · rw [hsame, he'] at h
    cases h

theorem ports_portDeleteAt (s : Discovery) (i : Nat) (reason : Reason) :
    (s.portDeleteAt i reason).ports = s.ports.eraseIdx i := by
  unfold portDeleteAt
  split
  · next hnone => exact (List.eraseIdx_of_length_le (List.getElem?_eq_none_iff.mp hnone)).symm
  · dsimp only
    rw [deleteLinks_eq]

/-- The links of the ports of the datapath, from a port on, are deleted. -/
theorem mem_dpRemoveLoop {dpid : UInt64} {n i : Nat} (hn : s.ports.length ≤ i + n) :
    e ∈ (dpRemoveLoop dpid n i s).links ↔
      e ∈ s.links ∧ ∀ p ∈ s.ports.drop i, p.dpid = dpid → e.1.touches p = false := by
  induction n generalizing i s with
  | zero =>
    rw [dpRemoveLoop, List.drop_eq_nil_of_le (i := i) hn]
    exact ⟨fun h => ⟨h, fun _ h => nomatch h⟩, And.left⟩
  | succ n ih =>
    rw [dpRemoveLoop]
    split
    · next hnone =>
      rw [List.drop_eq_nil_of_le (List.getElem?_eq_none_iff.mp hnone)]
      exact ⟨fun h => ⟨h, fun _ h => nomatch h⟩, And.left⟩
    · next p hp =>
      obtain ⟨hlt, hget⟩ := List.getElem?_eq_some_iff.mp hp
      have hdrop : s.ports.drop i = p :: s.ports.drop (i + 1) := by
        rw [List.drop_eq_getElem_cons hlt, hget]
      rw [hdrop, List.forall_mem_cons]
      split_ifs with hdpid
      · have hports := s.ports_portDeleteAt i .dp
        have hlength : (s.portDeleteAt i .dp).ports.length ≤ i + n := by
          rw [hports, List.length_eraseIdx_of_lt hlt]
          omega
        have hrest : (s.portDeleteAt i .dp).ports.drop i = s.ports.drop (i + 1) := by
          rw [hports, List.eraseIdx_eq_take_drop_succ,
            List.drop_left' (List.length_take_of_le hlt.le)]
        rw [ih hlength, hrest, mem_portDeleteAt hp, and_assoc]
        exact and_congr_right fun _ => and_congr_left' ⟨fun h _ => h, fun h => h hdpid⟩
      · rw [ih (by omega)]
        exact and_congr_right fun _ => (and_iff_right fun h => absurd h hdpid).symm

theorem links_portAdd (s : Discovery) (p : Port) :
    (s.portAdd p).links = s.links ∧ (s.portAdd p).posted = s.posted := by
  unfold portAdd
  split_ifs <;> exact ⟨rfl, rfl⟩

theorem links_sendLldp (s : Discovery) :
    s.sendLldp.1.links = s.links ∧ s.sendLldp.1.posted = s.posted := by
  unfold sendLldp
  split
  · exact ⟨rfl, rfl⟩
  · dsimp only
    split
    · exact ⟨rfl, rfl⟩
    · split <;> exact ⟨rfl, rfl⟩

theorem mem_dpRemove {dpid : UInt64} : e ∈ (s.dpRemove dpid).links ↔
    e ∈ s.links ∧ ∀ p ∈ s.ports, p.dpid = dpid → e.1.touches p = false :=
  mem_dpRemoveLoop (by omega)

theorem mem_dpAdd {dpid : UInt64} (h : e ∈ (s.dpAdd dpid).links) : e ∈ s.links := by
  unfold dpAdd at h
  split_ifs at h
  · exact (mem_dpRemove.mp h).1
  · exact h

/-- The deletion of a port of the list deletes its links. -/
theorem mem_portDelete {p : Port} {reason : Reason} :
    e ∈ (s.portDelete p reason).links ↔
      e ∈ s.links ∧ (p ∈ s.ports → e.1.touches p = false) := by
  unfold portDelete
  by_cases hp : p ∈ s.ports
  · have hlt := List.idxOf_lt_length_iff.mpr hp
    have hget : s.ports[s.ports.idxOf p]? = some p := by
      rw [List.getElem?_eq_getElem hlt, List.getElem_idxOf]
    exact (mem_portDeleteAt hget reason).trans
      (and_congr_right fun _ => ⟨fun h _ => h, fun h => h hp⟩)
  · have hnone : s.ports[s.ports.idxOf p]? = none := by
      rw [List.idxOf_eq_length_iff.mpr hp]
      exact List.getElem?_eq_none le_rfl
    rw [portDeleteAt, hnone]
    exact (and_iff_left fun h => absurd h hp).symm

theorem mem_portStatusHandler {p : Port} {reason : PortReason} :
    e ∈ (s.portStatusHandler p reason).links ↔ e ∈ s.links ∧
      (reason = .delete → p.port ≤ ofppMax → p ∈ s.ports → e.1.touches p = false) := by
  unfold portStatusHandler
  split_ifs with hmax
  · cases reason with
    | add =>
      dsimp only
      rw [(s.links_portAdd p).1]
      exact (and_iff_left fun h => nomatch h).symm
    | delete =>
      exact mem_portDelete.trans
        (and_congr_right fun _ => ⟨fun h _ _ => h, fun h => h rfl hmax⟩)
    | modify => exact (and_iff_left fun h => nomatch h).symm
  · exact (and_iff_left fun _ h => absurd h hmax).symm

/-- What stays in the table is not too old. -/
theorem mem_timeoutLinks {linkTimeout now : UInt64}
    (h : e ∈ (s.timeoutLinks linkTimeout now).links) :
    e ∈ s.links ∧ now.toNat ≤ e.2.toNat + linkTimeout.toNat := by
  obtain ⟨he, hkept⟩ := mem_deleteLinks.mp h
  refine ⟨he, ?_⟩
  have hnot : ¬ e.2 < now - linkTimeout := fun hlt =>
    hkept e he (decide_eq_true hlt) rfl
  rw [UInt64.lt_iff_toNat_lt, not_lt] at hnot
  by_cases htimeout : linkTimeout ≤ now
  · rw [UInt64.toNat_sub_of_le _ _ htimeout] at hnot
    omega
  · rw [UInt64.le_iff_toNat_le, not_le] at htimeout
    omega

/-! ## The events tell what is in the table -/

theorem mem_table {l : Link} : l ∈ s.table ↔ ∃ time, (l, time) ∈ s.links :=
  List.mem_map.trans ⟨fun ⟨⟨_, time⟩, hmem, heq⟩ => ⟨time, heq ▸ hmem⟩,
    fun ⟨time, hmem⟩ => ⟨(l, time), hmem, rfl⟩⟩

theorem table_linkDelete (s : Discovery) (l : Link) (reason : Reason) :
    (s.linkDelete l reason).table = s.table.filter (· ≠ l) := by
  unfold table linkDelete
  rw [List.filter_map]
  rfl

theorem Follows.linkAdd (h : s.Follows) (l : Link) (now : UInt64) :
    (s.linkAdd l now).Follows := by
  unfold Discovery.Follows
  rw [table_linkAdd]
  unfold Discovery.linkAdd
  split_ifs with htable hlinks hlinks
  · exact h
  · exact absurd htable hlinks
  · exact absurd hlinks htable
  · exact Lib.Follows.enter h htable

theorem Follows.linkDelete (h : s.Follows) {l : Link} (hl : l ∈ s.table) (reason : Reason) :
    (s.linkDelete l reason).Follows := by
  unfold Discovery.Follows
  rw [table_linkDelete]
  exact Lib.Follows.leave h hl

theorem Follows.deleteLinks (h : s.Follows) (gone : Link × UInt64 → Bool) (reason : Reason)
    {rest : List (Link × UInt64)} (hrest : rest.map Prod.fst ⊆ s.table)
    (hnodup : (rest.map Prod.fst).Nodup) : (deleteLinks gone reason rest s).Follows := by
  induction rest generalizing s with
  | nil => exact h
  | cons e rest ih =>
    obtain ⟨he, htail⟩ := List.cons_subset.mp hrest
    obtain ⟨hnot, hnodup⟩ := List.nodup_cons.mp hnodup
    rw [Discovery.deleteLinks]
    split_ifs
    · refine ih (h.linkDelete he reason) (fun l hl => ?_) hnodup
      rw [table_linkDelete, List.mem_filter]
      exact ⟨htail hl, decide_eq_true fun heq => hnot (heq ▸ hl)⟩
    · exact ih h htail hnodup

theorem Follows.deleteAll (h : s.Follows) (gone : Link × UInt64 → Bool) (reason : Reason) :
    (Discovery.deleteLinks gone reason s.links s).Follows :=
  h.deleteLinks gone reason (List.Subset.refl _) h.nodup

theorem Follows.portDeleteAt (h : s.Follows) (i : Nat) (reason : Reason) :
    (s.portDeleteAt i reason).Follows := by
  unfold Discovery.portDeleteAt
  split
  · exact h
  · exact h.deleteAll _ reason

theorem Follows.dpRemoveLoop (h : s.Follows) (dpid : UInt64) (n i : Nat) :
    (dpRemoveLoop dpid n i s).Follows := by
  induction n generalizing i s with
  | zero => exact h
  | succ n ih =>
    rw [Discovery.dpRemoveLoop]
    split
    · exact h
    · split_ifs
      · exact ih (h.portDeleteAt i .dp) i
      · exact ih h (i + 1)

theorem Follows.dpRemove (h : s.Follows) (dpid : UInt64) : (s.dpRemove dpid).Follows :=
  h.dpRemoveLoop dpid s.ports.length 0

theorem Follows.dpAdd (h : s.Follows) (dpid : UInt64) : (s.dpAdd dpid).Follows := by
  unfold Discovery.dpAdd
  split_ifs
  · exact h.dpRemove dpid
  · exact h

theorem Follows.portStatusHandler (h : s.Follows) (p : Port) (reason : PortReason) :
    (s.portStatusHandler p reason).Follows := by
  unfold Discovery.portStatusHandler
  split_ifs
  · cases reason with
    | add =>
      obtain ⟨hlinks, hposted⟩ := s.links_portAdd p
      unfold Discovery.Follows table
      dsimp only
      rw [hlinks, hposted]
      exact h
    | delete => exact h.portDeleteAt _ .port
    | modify => exact h
  · exact h

theorem Follows.packetInHandler (h : s.Follows) (packet : PacketIn) (now : UInt64) :
    (s.packetInHandler packet now).Follows := by
  unfold Discovery.packetInHandler
  split
  · exact h
  · exact h.linkAdd _ now

theorem Follows.timeoutLinks (h : s.Follows) (linkTimeout now : UInt64) :
    (s.timeoutLinks linkTimeout now).Follows := h.deleteAll _ .link

theorem Follows.sendLldp (h : s.Follows) : s.sendLldp.1.Follows := by
  obtain ⟨hlinks, hposted⟩ := s.links_sendLldp
  unfold Discovery.Follows table
  rw [hlinks, hposted]
  exact h

theorem mem_table_dpRemove {dpid : UInt64} {l : Link} : l ∈ (s.dpRemove dpid).table ↔
    l ∈ s.table ∧ ∀ p ∈ s.ports, p.dpid = dpid → l.touches p = false := by
  simp only [mem_table, mem_dpRemove, exists_and_right]

theorem mem_table_portStatusHandler {p : Port} {reason : PortReason} {l : Link} :
    l ∈ (s.portStatusHandler p reason).table ↔ l ∈ s.table ∧
      (reason = .delete → p.port ≤ ofppMax → p ∈ s.ports → l.touches p = false) := by
  simp only [mem_table, mem_portStatusHandler, exists_and_right]

theorem table_dpAdd_subset (s : Discovery) (dpid : UInt64) :
    (s.dpAdd dpid).table ⊆ s.table := fun _ hl => by
  obtain ⟨time, htime⟩ := mem_table.mp hl
  exact mem_table.mpr ⟨time, mem_dpAdd htime⟩

theorem table_timeoutLinks_subset (s : Discovery) (linkTimeout now : UInt64) :
    (s.timeoutLinks linkTimeout now).table ⊆ s.table := fun _ hl => by
  obtain ⟨time, htime⟩ := mem_table.mp hl
  exact mem_table.mpr ⟨time, (mem_timeoutLinks htime).1⟩

theorem table_sendLldp (s : Discovery) : s.sendLldp.1.table = s.table :=
  congrArg (List.map Prod.fst) s.links_sendLldp.1

/-! ## The frames -/

/-- The frame that is kept for a port was made for it. -/
def Framed (s : Discovery) : Prop := ∀ e ∈ s.lldps, e.2 = createLldp e.1 lldpTtl

theorem Framed.portAdd (h : s.Framed) (p : Port) : (s.portAdd p).Framed := by
  unfold Discovery.portAdd
  split_ifs
  · exact h
  · exact h
  · intro e he
    rcases List.mem_append.mp he with he | he
    · exact h e he
    · cases List.mem_singleton.mp he
      rfl

theorem Framed.portDeleteAt (h : s.Framed) (i : Nat) (reason : Reason) :
    (s.portDeleteAt i reason).Framed := by
  unfold Discovery.portDeleteAt
  split
  · exact h
  · dsimp only
    rw [deleteLinks_eq]
    exact fun e he => h e (List.mem_of_mem_filter he)

theorem Framed.dpRemove (h : s.Framed) (dpid : UInt64) : (s.dpRemove dpid).Framed := by
  have hloop : ∀ n i (s : Discovery), s.Framed → (dpRemoveLoop dpid n i s).Framed := by
    intro n
    induction n with
    | zero => exact fun _ _ h => h
    | succ n ih =>
      intro i s h
      rw [dpRemoveLoop]
      split
      · exact h
      · split_ifs
        · exact ih i _ (h.portDeleteAt i .dp)
        · exact ih (i + 1) s h
  exact hloop _ _ s h

theorem Framed.dpAdd (h : s.Framed) (dpid : UInt64) : (s.dpAdd dpid).Framed := by
  unfold Discovery.dpAdd
  split_ifs
  · exact h.dpRemove dpid
  · exact h

theorem Framed.portStatusHandler (h : s.Framed) (p : Port) (reason : PortReason) :
    (s.portStatusHandler p reason).Framed := by
  unfold Discovery.portStatusHandler
  split_ifs
  · cases reason with
    | add => exact h.portAdd p
    | delete => exact h.portDeleteAt _ .port
    | modify => exact h
  · exact h

theorem Framed.packetInHandler (h : s.Framed) (packet : PacketIn) (now : UInt64) :
    (s.packetInHandler packet now).Framed := by
  unfold Discovery.packetInHandler linkAdd
  split
  · exact h
  · split_ifs <;> exact h

theorem Framed.timeoutLinks (h : s.Framed) (linkTimeout now : UInt64) :
    (s.timeoutLinks linkTimeout now).Framed := by
  unfold Discovery.timeoutLinks
  rw [deleteLinks_eq]
  exact h

/-- What is sent is a frame of the port it is sent out of. -/
theorem Framed.sendLldp (h : s.Framed) : s.sendLldp.1.Framed ∧
    ∀ sent ∈ s.sendLldp.2, sent.2 = createLldp sent.1 lldpTtl := by
  unfold Discovery.sendLldp
  split
  · exact ⟨h, fun _ hsent => nomatch hsent⟩
  · dsimp only
    split
    · exact ⟨h, fun _ hsent => nomatch hsent⟩
    · split
      · exact ⟨h, fun _ hsent => nomatch hsent⟩
      · next hfind =>
        refine ⟨h, fun sent hsent => ?_⟩
        cases hsent
        exact h _ (List.mem_of_find?_eq_some hfind)

end Discovery

end Rules

end Nox.Topology
