import Nox.Lib.Runs
import Nox.Oxm.Match

/-!
# Equality of flows

A `Flow` is its match, and `operator==` and `hash_code` read the bytes of the match: its counts, the
padding, and where its table is.  A table starts in the `one` of its own match; a copy of the match
refers to the same table.  Every match is taken to be that of a `Flow`.
-/

namespace Nox.Oxm

section Model

/-! ## Matches in memory -/

/-- Where the buckets of a table are: the `one` of the match at an address, or an array that has
been allocated. -/
inductive Buckets
  | one (addr : Nat)
  | array (id : Nat)
  deriving DecidableEq

/-- `hmap_destroy` may be called for the match at an address: it frees an array, and the `one` of
the match is left. -/
def Buckets.ofMatch (addr : Nat) : Buckets → Bool
  | .one b => b = addr
  | .array _ => true

/-- The bytes of a `struct ofl_match`. -/
structure MatchStruct where
  type : Nat
  length : Nat
  -- between the header and the table
  pad : Nat
  buckets : Buckets
  -- a node by its number, or `NULL`
  one : Option Nat
  mask : Nat
  n : Nat
  deriving DecidableEq

/-- The matches that there are, the tables, and how many arrays and nodes have been allocated. -/
structure FlowMemory where
  flows : Nat → Option MatchStruct
  tables : Buckets → Option (Hmap OflMatchTlv)
  arrays : Nat
  nodes : Nat

/-- What is done with flows, and with the matches they are made of. -/
inductive FlowOp
  -- `Flow()`, where the memory has some padding
  | make (addr pad : Nat)
  -- `Flow(const struct ofl_match *)`
  | copy (addr source : Nat)
  -- `Add_Field`, by any of the `ofl_structs_match_put`
  | put (addr : Nat) (tlv : OflMatchTlv)
  | delete (addr : Nat)
  -- `ofl_structs_free_match`
  | freeMatch (addr : Nat)

/-- `ofl_structs_match_init` -/
def MatchStruct.init (addr pad : Nat) : MatchStruct where
  type := ofpmtOxm
  length := 0
  pad
  buckets := .one addr
  one := none
  mask := 0
  n := 0

/-- `operator==` -/
def MatchStruct.equal (f g : MatchStruct) : Bool := f = g

/-- `hash_code`, for the digest of the bytes. -/
def MatchStruct.hashCode (md5 : MatchStruct → UInt64) (f : MatchStruct) : UInt64 := md5 f

/-- `hmap_insert` resizes the table. -/
def MatchStruct.Expands (f : MatchStruct) : Prop :=
  (f.n + 1) / 2 > f.mask ∧ Hmap.calcMask (f.n + 1) > f.mask

instance (f : MatchStruct) : Decidable f.Expands := inferInstanceAs (Decidable (_ ∧ _))

/-- The match after `hmap_insert_fast` of a node, with the length that it gets. -/
def MatchStruct.put (f : MatchStruct) (addr node : Nat) (tlv : OflMatchTlv) : MatchStruct :=
  { f with
    length := (f.length + tlv.value.length + 4) % 65536
    one := if f.buckets = .one addr then some node else f.one
    n := f.n + 1 }

/-- The table after it. -/
def MatchStruct.grow (f : MatchStruct) (table : Hmap OflMatchTlv) (tlv : OflMatchTlv) :
    Hmap OflMatchTlv :=
  { table with n := f.n }.insertFast tlv (hashOf tlv.header)

/-- `sizeof(struct ofp_match)` -/
def ofpMatchSize : Nat := 8

namespace FlowMemory

def init : FlowMemory where
  flows := fun _ => none
  tables := fun _ => none
  arrays := 0
  nodes := 0

/-- What `HMAP_FOR_EACH` visits, where the table of the match is there. -/
def entries (s : FlowMemory) (f : MatchStruct) : Option (List OflMatchTlv) :=
  (s.tables f.buckets).map Hmap.forEach

def make (s : FlowMemory) (addr pad : Nat) : Option FlowMemory :=
  if s.flows addr = none then
    some { s with
      flows := Function.update s.flows addr (some (.init addr pad))
      tables := Function.update s.tables (.one addr) (some .empty) }
  else none

/-- All bytes are copied.  No table is in the `one` of the copy. -/
def copy (s : FlowMemory) (addr source : Nat) : Option FlowMemory :=
  match s.flows addr, s.flows source with
  | none, some f =>
    if (s.tables f.buckets).isSome then
      some { s with flows := Function.update s.flows addr (some f) }
    else none
  | _, _ => none

/-- The bucket of a new node points to it. -/
def link (s : FlowMemory) (buckets : Buckets) : FlowMemory :=
  { s with
    flows := fun addr =>
      if buckets = .one addr then (s.flows addr).map ({ · with one := some s.nodes })
      else s.flows addr
    nodes := s.nodes + 1 }

/-- `resize`: the nodes are linked into a new array, and the old one is freed where it is not the
`one` of the match. -/
def resize (s : FlowMemory) (addr : Nat) (f : MatchStruct) (table : Hmap OflMatchTlv) :
    Option FlowMemory :=
  let grown := table.resize (Hmap.calcMask table.n)
  if f.buckets.ofMatch addr then
    some { s with
      flows := Function.update s.flows addr (some
        { f with buckets := .array s.arrays, one := none, mask := grown.mask, n := grown.n })
      tables := Function.update
        (Function.update s.tables f.buckets (if f.buckets = .one addr then some .empty else none))
        (.array s.arrays) (some grown)
      arrays := s.arrays + 1 }
  else none

/-- `ofl_structs_match_put`: an entry is inserted under the hash of its header. -/
def put (s : FlowMemory) (addr : Nat) (tlv : OflMatchTlv) : Option FlowMemory :=
  match s.flows addr with
  | none => none
  | some f =>
    match s.tables f.buckets with
    | none => none
    | some table =>
      let linked := s.link f.buckets
      if f.Expands then linked.resize addr (f.put addr s.nodes tlv) (f.grow table tlv)
      else
        some { linked with
          flows := Function.update linked.flows addr (some (f.put addr s.nodes tlv))
          tables := Function.update s.tables f.buckets (some (f.grow table tlv)) }

/-- The match at an address goes, and some tables with it. -/
def drop (s : FlowMemory) (addr : Nat) (gone : List Buckets) : FlowMemory :=
  { s with
    flows := Function.update s.flows addr none
    tables := fun b => if b ∈ gone then none else s.tables b }

def delete (s : FlowMemory) (addr : Nat) : Option FlowMemory :=
  if (s.flows addr).isSome then some (s.drop addr [.one addr]) else none

def freeMatch (s : FlowMemory) (addr : Nat) : Option FlowMemory :=
  match s.flows addr with
  | none => none
  | some f =>
    if f.length > ofpMatchSize then
      if (s.tables f.buckets).isSome ∧ f.buckets.ofMatch addr then
        some (s.drop addr [.one addr, f.buckets])
      else none
    else some (s.drop addr [.one addr])

def step (s : FlowMemory) : FlowOp → Option FlowMemory
  | .make addr pad => s.make addr pad
  | .copy addr source => s.copy addr source
  | .put addr tlv => s.put addr tlv
  | .delete addr => s.delete addr
  | .freeMatch addr => s.freeMatch addr

end FlowMemory

end Model

section Lawful

/-! ## What equality is to be -/

variable {s s' : FlowMemory} {f g f' : MatchStruct} {addr b : Nat} {tlv : OflMatchTlv}

namespace FlowMemory

/-- Two matches contain the same entries, in whatever order. -/
def SameEntries (s : FlowMemory) (f g : MatchStruct) : Prop :=
  ∃ es es', s.entries f = some es ∧ s.entries g = some es' ∧ ∀ e, e ∈ es ↔ e ∈ es'

/-- Flows are equal when their entries are the same, and have the same hash then. -/
def EqualityHolds (md5 : MatchStruct → UInt64) (s : FlowMemory) : Prop :=
  ∀ a b f g, s.flows a = some f → s.flows b = some g →
    (f.equal g = true ↔ s.SameEntries f g) ∧
      (f.equal g = true → f.hashCode md5 = g.hashCode md5)

/-- The first part of it. -/
def Lawful (s : FlowMemory) : Prop :=
  ∀ a b f g, s.flows a = some f → s.flows b = some g → (f = g ↔ s.SameEntries f g)

theorem equalityHolds_iff (md5 : MatchStruct → UInt64) : s.EqualityHolds md5 ↔ s.Lawful := by
  constructor
  · intro h a b f g hf hg
    rw [← (h a b f g hf hg).1, MatchStruct.equal, decide_eq_true_iff]
  · intro h a b f g hf hg
    rw [MatchStruct.equal, decide_eq_true_iff]
    exact ⟨h a b f g hf hg, fun hfg => congrArg md5 hfg⟩

theorem SameEntries.symm (h : s.SameEntries f g) : s.SameEntries g f := by
  obtain ⟨es, es', hes, hes', hsame⟩ := h
  exact ⟨es', es, hes', hes, fun e => (hsame e).symm⟩

theorem sameEntries_congr (hf : s'.entries f = s.entries f) (hg : s'.entries g = s.entries g) :
    s'.SameEntries f g ↔ s.SameEntries f g := by
  unfold SameEntries
  rw [hf, hg]

/-- Matches that refer to one table have the same entries, if the table is there. -/
theorem sameEntries_of_buckets {table : Hmap OflMatchTlv} (ht : s.tables f.buckets = some table)
    (h : g.buckets = f.buckets) : s.SameEntries f g := by
  refine ⟨table.forEach, table.forEach, ?_, ?_, fun e => Iff.rfl⟩
  · rw [entries, ht]
    rfl
  · rw [entries, h, ht]
    rfl

/-- The table of a flow is there. -/
theorem Lawful.table (h : s.Lawful) (hf : s.flows addr = some f) :
    ∃ table, s.tables f.buckets = some table := by
  obtain ⟨es, -, hes, -⟩ := (h addr addr f f hf hf).mp rfl
  obtain ⟨table, htable, -⟩ := Option.map_eq_some_iff.mp hes
  exact ⟨table, htable⟩

/-- Matches that refer to one table are the same. -/
theorem Lawful.eq_of_buckets (h : s.Lawful) (hf : s.flows addr = some f)
    (hg : s.flows b = some g) (hbuckets : g.buckets = f.buckets) : f = g := by
  obtain ⟨table, htable⟩ := h.table hf
  exact (h addr b f g hf hg).mpr (sameEntries_of_buckets htable hbuckets)

/-- Where one match is new or has changed, and all others are as they were. -/
theorem lawful_iff_of_one (h : s.Lawful) (hf : s'.flows addr = some f)
    (hothers : ∀ b g, b ≠ addr → s'.flows b = some g →
      s.flows b = some g ∧ s'.entries g = s.entries g)
    (htable : (s'.tables f.buckets).isSome = true) :
    s'.Lawful ↔ ∀ b g, b ≠ addr → s'.flows b = some g → (f = g ↔ s'.SameEntries f g) := by
  constructor
  · exact fun h' b g _ hg => h' addr b f g hf hg
  · intro hone a b g g' hg hg'
    by_cases ha : a = addr
    · rw [ha, hf] at hg
      cases hg
      by_cases hb : b = addr
      · rw [hb, hf] at hg'
        cases hg'
        obtain ⟨table, htable⟩ := Option.isSome_iff_exists.mp htable
        exact iff_of_true rfl (sameEntries_of_buckets htable rfl)
      · exact hone b g' hb hg'
    · obtain ⟨hgs, hges⟩ := hothers a g ha hg
      by_cases hb : b = addr
      · rw [hb, hf] at hg'
        cases hg'
        rw [eq_comm, hone a g ha hg]
        exact ⟨SameEntries.symm, SameEntries.symm⟩
      · obtain ⟨hgs', hges'⟩ := hothers b g' hb hg'
        rw [h a b g g' hgs hgs', sameEntries_congr hges hges']

/-! ## The condition -/

/-- Another match refers to the table of `f`, which is at `addr`. -/
def Shared (s : FlowMemory) (addr : Nat) (f : MatchStruct) : Prop :=
  ∃ b g, b ≠ addr ∧ s.flows b = some g ∧ g.buckets = f.buckets

/-- Some match that does not refer to the table of `f` has exactly these entries. -/
def Elsewhere (s : FlowMemory) (f : MatchStruct) (P : OflMatchTlv → Prop) : Prop :=
  ∃ b g es, s.flows b = some g ∧ g.buckets ≠ f.buckets ∧ s.entries g = some es ∧
    ∀ e, e ∈ es ↔ P e

/-- A flow that is made is the only one without entries.  A flow that gets a field gets the entries
of no other, and its table is shared with no other.  Where it leaves its own `one`, the table may be
shared: the others are then without entries, and have to be the only ones.  The table of a flow goes
when no other refers to it. -/
def Apart (s : FlowMemory) : FlowOp → Prop
  | .make _ _ => ∀ b g, s.flows b = some g → s.entries g ≠ some []
  | .copy _ _ => True
  | .put addr tlv =>
    ∀ f es, s.flows addr = some f → s.entries f = some es →
      ¬s.Elsewhere f (fun e => e = tlv ∨ e ∈ es) ∧
        if f.buckets = .one addr ∧ f.Expands then s.Shared addr f → ¬s.Elsewhere f fun _ => False
        else ¬s.Shared addr f
  | .delete addr => ∀ b g, b ≠ addr → s.flows b = some g → g.buckets ≠ .one addr
  | .freeMatch addr =>
    ∀ b g, b ≠ addr → s.flows b = some g → g.buckets ≠ .one addr ∧
      ∀ f, s.flows addr = some f → f.length > ofpMatchSize → g.buckets ≠ f.buckets

/-- What is true as long as equality holds. -/
structure Inv (s : FlowMemory) : Prop where
  mask : ∀ a f table, s.flows a = some f → s.tables f.buckets = some table → table.mask = f.mask
  own : ∀ b table, s.tables (.one b) = some table → (s.flows b).isSome = true ∧ table.mask = 0
  fresh : ∀ k, s.arrays ≤ k → s.tables (.array k) = none
  -- who refers to the `one` of another that has left it has entries
  left : ∀ a f b g, s.flows a = some f → f.buckets = .one b → s.flows b = some g →
    g.buckets ≠ .one b → 1 ≤ f.n

end FlowMemory

end Lawful

section Steps

/-! ## What the operations do to it -/

variable {s s' : FlowMemory} {f g f' : MatchStruct} {addr b : Nat} {tlv : OflMatchTlv}

namespace FlowMemory

theorem inv_init : init.Inv where
  mask := nofun
  own := nofun
  fresh := fun _ _ => rfl
  left := nofun

theorem lawful_init : init.Lawful := nofun

/-- No match refers to the `one` of a match that is not there. -/
theorem Inv.buckets_ne (h : s.Inv) (hlaw : s.Lawful) (haddr : s.flows addr = none)
    (hg : s.flows b = some g) : g.buckets ≠ .one addr := by
  intro hbuckets
  obtain ⟨table, htable⟩ := hlaw.table hg
  have hlive := (h.own addr table (hbuckets ▸ htable)).1
  rw [haddr] at hlive
  cases hlive

/-- No match refers to an array that has not been allocated. -/
theorem Inv.buckets_ne_array (h : s.Inv) (hlaw : s.Lawful) (hg : s.flows b = some g) :
    g.buckets ≠ .array s.arrays := by
  intro hbuckets
  obtain ⟨table, htable⟩ := hlaw.table hg
  rw [hbuckets, h.fresh s.arrays le_rfl] at htable
  cases htable

theorem entries_update {buckets : Buckets} {table : Option (Hmap OflMatchTlv)}
    (h : s'.tables = Function.update s.tables buckets table) (hg : g.buckets ≠ buckets) :
    s'.entries g = s.entries g := by
  rw [entries, entries, h, Function.update_of_ne hg]

theorem make_eq_some {pad : Nat} (h : s.make addr pad = some s') :
    s.flows addr = none ∧ s'.flows = Function.update s.flows addr (some (.init addr pad)) ∧
      s'.tables = Function.update s.tables (.one addr) (some .empty) ∧ s'.arrays = s.arrays := by
  unfold make at h
  split_ifs at h with haddr
  cases h
  exact ⟨haddr, rfl, rfl, rfl⟩

theorem make_keeps {pad : Nat} (h : s.Inv) (hlaw : s.Lawful) (hstep : s.make addr pad = some s') :
    s'.Inv ∧ (s.Apart (.make addr pad) ↔ s'.Lawful) := by
  obtain ⟨haddr, hflows, htables, harrays⟩ := make_eq_some hstep
  have hself : s'.flows addr = some (.init addr pad) := by rw [hflows, Function.update_self]
  have hne {b : Nat} (hb : b ≠ addr) : s'.flows b = s.flows b := by
    rw [hflows, Function.update_of_ne hb]
  have hold {b : Nat} {g : MatchStruct} (hg : s.flows b = some g) : g.buckets ≠ .one addr :=
    h.buckets_ne hlaw haddr hg
  have hempty : s'.tables (.one addr) = some .empty := by rw [htables, Function.update_self]
  constructor
  · refine ⟨?_, ?_, ?_, ?_⟩
    · intro a f table hf htable
      by_cases ha : a = addr
      · rw [ha, hself] at hf
        cases hf
        rw [show (MatchStruct.init addr pad).buckets = .one addr from rfl, hempty] at htable
        cases htable
        rfl
      · rw [hne ha] at hf
        rw [htables, Function.update_of_ne (hold hf)] at htable
        exact h.mask a f table hf htable
    · intro b table htable
      by_cases hb : b = addr
      · rw [hb, hempty] at htable
        cases htable
        rw [hb, hself]
        exact ⟨rfl, rfl⟩
      · rw [htables, Function.update_of_ne fun heq => hb (Buckets.one.inj heq)] at htable
        rw [hne hb]
        exact h.own b table htable
    · intro k hk
      rw [htables, Function.update_of_ne (by nofun)]
      exact h.fresh k (harrays ▸ hk)
    · intro a f b g hf hbuckets hg hleft
      by_cases hb : b = addr
      · rw [hb, hself] at hg
        cases hg
        exact absurd (hb ▸ rfl) hleft
      · rw [hne hb] at hg
        by_cases ha : a = addr
        · rw [ha, hself] at hf
          cases hf
          exact absurd (Buckets.one.inj hbuckets).symm hb
        · exact h.left a f b g (hne ha ▸ hf) hbuckets hg hleft
  · have hentries {b : Nat} {g : MatchStruct} (hg : s.flows b = some g) :
        s'.entries g = s.entries g := entries_update htables (hold hg)
    have hnil : s'.entries (MatchStruct.init addr pad) = some [] := by
      rw [entries, show (MatchStruct.init addr pad).buckets = .one addr from rfl, hempty]
      rfl
    rw [lawful_iff_of_one hlaw hself]
    · constructor
      · intro hcond b g hb hg
        rw [hne hb] at hg
        refine iff_of_false (fun heq => hold hg (heq ▸ rfl)) ?_
        rintro ⟨es, es', hes, hes', hsame⟩
        rw [hnil] at hes
        cases hes
        rw [hentries hg] at hes'
        refine hcond b g hg (hes'.trans (congrArg some ?_))
        exact List.eq_nil_iff_forall_not_mem.mpr fun e he => List.not_mem_nil ((hsame e).mpr he)
      · intro hone b g hg hgnil
        have hb : b ≠ addr := by
          rintro rfl
          rw [haddr] at hg
          cases hg
        have heq := (hone b g hb ((hne hb).trans hg)).mpr
          ⟨[], [], hnil, (hentries hg).trans hgnil, fun e => Iff.rfl⟩
        exact hold hg (heq ▸ rfl)
    · intro b g hb hg
      rw [hne hb] at hg
      exact ⟨hg, hentries hg⟩
    · rw [show (MatchStruct.init addr pad).buckets = .one addr from rfl, hempty]
      rfl

theorem copy_eq_some {source : Nat} (h : s.copy addr source = some s') :
    s.flows addr = none ∧ ∃ f, s.flows source = some f ∧ (s.tables f.buckets).isSome = true ∧
      s'.flows = Function.update s.flows addr (some f) ∧ s'.tables = s.tables ∧
      s'.arrays = s.arrays := by
  unfold copy at h
  split at h
  · next f haddr hf =>
    split_ifs at h with htable
    cases h
    exact ⟨haddr, f, hf, htable, rfl, rfl, rfl⟩
  · cases h

theorem copy_keeps {source : Nat} (h : s.Inv) (hlaw : s.Lawful)
    (hstep : s.copy addr source = some s') :
    s'.Inv ∧ (s.Apart (.copy addr source) ↔ s'.Lawful) := by
  obtain ⟨haddr, f, hf, htable, hflows, htables, harrays⟩ := copy_eq_some hstep
  have hself : s'.flows addr = some f := by rw [hflows, Function.update_self]
  have hne {b : Nat} (hb : b ≠ addr) : s'.flows b = s.flows b := by
    rw [hflows, Function.update_of_ne hb]
  -- every match is one that was there
  have hwas {b : Nat} {g : MatchStruct} (hg : s'.flows b = some g) :
      ∃ c, s.flows c = some g := by
    by_cases hb : b = addr
    · rw [hb, hself] at hg
      exact ⟨source, hg ▸ hf⟩
    · exact ⟨b, hne hb ▸ hg⟩
  have hentries (g : MatchStruct) : s'.entries g = s.entries g := by
    rw [entries, entries, htables]
  constructor
  · refine ⟨?_, ?_, ?_, ?_⟩
    · intro a g table hg hgtable
      obtain ⟨c, hc⟩ := hwas hg
      exact h.mask c g table hc (htables ▸ hgtable)
    · intro b table hbtable
      obtain ⟨hlive, hmask⟩ := h.own b table (htables ▸ hbtable)
      have hb : b ≠ addr := by
        rintro rfl
        rw [haddr] at hlive
        cases hlive
      exact ⟨hne hb ▸ hlive, hmask⟩
    · intro k hk
      rw [htables]
      exact h.fresh k (harrays ▸ hk)
    · intro a g b g' hg hbuckets hg' hleft
      obtain ⟨c, hc⟩ := hwas hg
      have hb : b ≠ addr := by
        rintro rfl
        exact h.buckets_ne hlaw haddr hc hbuckets
      exact h.left c g b g' hc hbuckets (hne hb ▸ hg') hleft
  · refine iff_of_true trivial ?_
    intro a b g g' hg hg'
    obtain ⟨c, hc⟩ := hwas hg
    obtain ⟨c', hc'⟩ := hwas hg'
    rw [hlaw c c' g g' hc hc', sameEntries_congr (hentries g) (hentries g')]

/-! ### Matches that go -/

theorem drop_keeps {gone : List Buckets} (h : s.Inv) (hown : .one addr ∈ gone) :
    (s.drop addr gone).Inv := by
  have hwas {b : Nat} {g : MatchStruct} (hg : (s.drop addr gone).flows b = some g) :
      b ≠ addr ∧ s.flows b = some g := by
    change Function.update s.flows addr none b = some g at hg
    by_cases hb : b = addr
    · rw [hb, Function.update_self] at hg
      cases hg
    · exact ⟨hb, Function.update_of_ne hb none s.flows ▸ hg⟩
  have htable {buckets : Buckets} {table : Hmap OflMatchTlv}
      (ht : (s.drop addr gone).tables buckets = some table) :
      buckets ∉ gone ∧ s.tables buckets = some table := by
    change (if buckets ∈ gone then none else s.tables buckets) = some table at ht
    split_ifs at ht with hmem
    exact ⟨hmem, ht⟩
  refine ⟨?_, ?_, ?_, ?_⟩
  · intro a f table hf ht
    exact h.mask a f table (hwas hf).2 (htable ht).2
  · intro b table ht
    obtain ⟨hmem, ht⟩ := htable ht
    have hb : b ≠ addr := by
      rintro rfl
      exact hmem hown
    obtain ⟨hlive, hmask⟩ := h.own b table ht
    refine ⟨?_, hmask⟩
    change (Function.update s.flows addr none b).isSome = true
    rwa [Function.update_of_ne hb]
  · intro k hk
    change (if Buckets.array k ∈ gone then none else s.tables (.array k)) = none
    rw [h.fresh k hk, ite_self]
  · intro a f b g hf hbuckets hg hleft
    exact h.left a f b g (hwas hf).2 hbuckets (hwas hg).2 hleft

/-- All is well if no other match refers to what goes. -/
theorem lawful_drop_iff {gone : List Buckets} (hlaw : s.Lawful) :
    (s.drop addr gone).Lawful ↔ ∀ b g, b ≠ addr → s.flows b = some g → g.buckets ∉ gone := by
  have hne {b : Nat} (hb : b ≠ addr) : (s.drop addr gone).flows b = s.flows b := by
    change Function.update s.flows addr none b = s.flows b
    exact Function.update_of_ne hb none s.flows
  have hwas {b : Nat} {g : MatchStruct} (hg : (s.drop addr gone).flows b = some g) :
      b ≠ addr ∧ s.flows b = some g := by
    have hb : b ≠ addr := by
      rintro rfl
      change Function.update s.flows b none b = some g at hg
      rw [Function.update_self] at hg
      cases hg
    exact ⟨hb, hne hb ▸ hg⟩
  have hentries {g : MatchStruct} (hg : g.buckets ∉ gone) :
      (s.drop addr gone).entries g = s.entries g := by
    change (if g.buckets ∈ gone then none else s.tables g.buckets).map Hmap.forEach = _
    rw [if_neg hg]
    rfl
  constructor
  · intro h b g hb hg hmem
    obtain ⟨table, htable⟩ := h.table ((hne hb).trans hg)
    change (if g.buckets ∈ gone then none else s.tables g.buckets) = some table at htable
    rw [if_pos hmem] at htable
    cases htable
  · intro hcond a b f g hf hg
    obtain ⟨ha, hf⟩ := hwas hf
    obtain ⟨hb, hg⟩ := hwas hg
    rw [hlaw a b f g hf hg,
      sameEntries_congr (hentries (hcond a f ha hf)) (hentries (hcond b g hb hg))]

theorem delete_keeps (h : s.Inv) (hlaw : s.Lawful) (hstep : s.delete addr = some s') :
    s'.Inv ∧ (s.Apart (.delete addr) ↔ s'.Lawful) := by
  unfold delete at hstep
  split_ifs at hstep
  cases hstep
  refine ⟨drop_keeps h List.mem_cons_self, ?_⟩
  rw [lawful_drop_iff hlaw]
  simp only [Apart, List.mem_singleton, ne_eq]

theorem freeMatch_keeps (h : s.Inv) (hlaw : s.Lawful) (hstep : s.freeMatch addr = some s') :
    s'.Inv ∧ (s.Apart (.freeMatch addr) ↔ s'.Lawful) := by
  unfold freeMatch at hstep
  split at hstep
  · cases hstep
  · next f hf =>
    have hcond (b : Nat) (g : MatchStruct) :
        (∀ f, s.flows addr = some f → f.length > ofpMatchSize → g.buckets ≠ f.buckets) ↔
          (f.length > ofpMatchSize → g.buckets ≠ f.buckets) := by
      refine ⟨fun hall => hall f hf, fun hone f' hf' => ?_⟩
      cases hf.symm.trans hf'
      exact hone
    have hapart : s.Apart (.freeMatch addr) ↔ ∀ b g, b ≠ addr → s.flows b = some g →
        g.buckets ≠ .one addr ∧ (f.length > ofpMatchSize → g.buckets ≠ f.buckets) :=
      forall_congr' fun b => forall_congr' fun g => imp_congr_right fun _ =>
        imp_congr_right fun _ => and_congr_right fun _ => hcond b g
    rw [hapart]
    split_ifs at hstep with hlength htable
    · cases hstep
      refine ⟨drop_keeps h List.mem_cons_self, ?_⟩
      rw [lawful_drop_iff hlaw]
      simp only [hlength, true_imp_iff, List.mem_cons, List.not_mem_nil, or_false, not_or, ne_eq]
    · cases hstep
      refine ⟨drop_keeps h List.mem_cons_self, ?_⟩
      rw [lawful_drop_iff hlaw]
      simp only [hlength, false_imp_iff, and_true, List.mem_singleton, ne_eq]

/-! ### A field is added -/

theorem mem_grow {table : Hmap OflMatchTlv} {e : OflMatchTlv} :
    e ∈ (f.grow table tlv).forEach ↔ e = tlv ∨ e ∈ table.forEach := by
  have hperm := Hmap.nodes_insertFast { table with n := f.n } tlv (hashOf tlv.header)
  rw [Hmap.forEach, MatchStruct.grow, (hperm.map HmapNode.elem).mem_iff, List.map_cons,
    List.mem_cons]
  rfl

theorem mem_resize {table : Hmap OflMatchTlv} {mask : Nat} {e : OflMatchTlv} :
    e ∈ (table.resize mask).forEach ↔ e ∈ table.forEach :=
  ((Hmap.nodes_resize table mask).map HmapNode.elem).mem_iff

/-- What there is after a field is added, if the table stays where it is. -/
structure PutInPlace (s s' : FlowMemory) (addr : Nat) (tlv : OflMatchTlv) (f f' : MatchStruct)
    (table : Hmap OflMatchTlv) : Prop where
  stays : ¬f.Expands
  flows : s'.flows = Function.update (s.link f.buckets).flows addr (some f')
  tables : s'.tables = Function.update s.tables f.buckets (some (f.grow table tlv))
  arrays : s'.arrays = s.arrays
  buckets : f'.buckets = f.buckets
  mask : f'.mask = f.mask
  n : f'.n = f.n + 1

/-- If it is resized. -/
structure PutElsewhere (s s' : FlowMemory) (addr : Nat) (tlv : OflMatchTlv) (f f' : MatchStruct)
    (table : Hmap OflMatchTlv) : Prop where
  expands : f.Expands
  own : f.buckets.ofMatch addr = true
  flows : s'.flows = Function.update (s.link f.buckets).flows addr (some f')
  tables : s'.tables = Function.update
    (Function.update s.tables f.buckets (if f.buckets = .one addr then some .empty else none))
    (.array s.arrays) (some ((f.grow table tlv).resize f'.mask))
  arrays : s'.arrays = s.arrays + 1
  buckets : f'.buckets = .array s.arrays

theorem put_eq_some (h : s.put addr tlv = some s') :
    ∃ f f' table, s.flows addr = some f ∧ s.tables f.buckets = some table ∧
      (PutInPlace s s' addr tlv f f' table ∨ PutElsewhere s s' addr tlv f f' table) := by
  unfold put at h
  split at h
  · cases h
  · next f hf =>
    split at h
    · cases h
    · next table htable =>
      dsimp only at h
      split_ifs at h with hexpands
      · unfold resize at h
        change (if f.buckets.ofMatch addr = true then _ else none) = some s' at h
        have hown : f.buckets.ofMatch addr = true := by
          by_contra hnot
          rw [if_neg hnot] at h
          cases h
        rw [if_pos hown] at h
        cases h
        refine ⟨f, _, table, hf, htable, .inr ⟨hexpands, hown, rfl, ?_, rfl, rfl⟩⟩
        rw [Hmap.mask_resize]
        rfl
      · cases h
        exact ⟨f, _, table, hf, htable, .inl ⟨hexpands, rfl, rfl, rfl, rfl, rfl, rfl⟩⟩

/-- What a put does, where the other matches stay as they are. -/
structure PutAlone (s s' : FlowMemory) (addr : Nat) (f f' : MatchStruct) : Prop where
  was : s.flows addr = some f
  self : s'.flows addr = some f'
  others : ∀ b, b ≠ addr → s'.flows b = s.flows b
  tables : ∀ buckets table, s'.tables buckets = some table →
    s.tables buckets = some table ∨ buckets = f'.buckets ∧ table.mask = f'.mask ∨
      buckets = f.buckets ∧ f.buckets = .one addr ∧ table.mask = 0
  arrays : s.arrays ≤ s'.arrays
  buckets : f'.buckets = f.buckets ∧ f'.mask = f.mask ∧ f.n ≤ f'.n ∨
    f'.buckets = .array s.arrays ∧ s.arrays < s'.arrays ∧ f.Expands

theorem PutAlone.inv (hput : PutAlone s s' addr f f') (h : s.Inv) (hlaw : s.Lawful) : s'.Inv := by
  obtain ⟨table, htable⟩ := hlaw.table hput.was
  have hmask := h.mask addr f table hput.was htable
  have hsame {b : Nat} {g : MatchStruct} (hg : s.flows b = some g)
      (hbuckets : g.buckets = f.buckets) : g = f :=
    (hlaw.eq_of_buckets hput.was hg hbuckets).symm
  have hzero {b : Nat} (hone : f.buckets = .one b) : f.mask = 0 :=
    hmask.symm.trans (h.own b table (hone ▸ htable)).2
  have hfresh := h.buckets_ne_array hlaw hput.was
  refine ⟨?_, ?_, ?_, ?_⟩
  · intro a g table' hg htable'
    by_cases ha : a = addr
    · rw [ha, hput.self] at hg
      cases hg
      obtain hold | ⟨-, hnew⟩ | ⟨hbuckets', hone, hnew⟩ := hput.tables _ _ htable'
      · obtain ⟨hbuckets, hf'mask, -⟩ | ⟨hbuckets, -⟩ := hput.buckets
        · rw [hf'mask, ← hmask]
          rw [hbuckets, htable] at hold
          cases hold
          rfl
        · rw [hbuckets, h.fresh _ le_rfl] at hold
          cases hold
      · exact hnew
      · obtain ⟨-, hf'mask, -⟩ | ⟨hbuckets, -⟩ := hput.buckets
        · rw [hnew, hf'mask, hzero hone]
        · exact absurd (hbuckets'.symm.trans hbuckets) hfresh
    · rw [hput.others a ha] at hg
      obtain hold | ⟨hbuckets, hnew⟩ | ⟨hbuckets, hone, hnew⟩ := hput.tables _ _ htable'
      · exact h.mask a g table' hg hold
      · obtain ⟨hf'buckets, hf'mask, -⟩ | ⟨hf'buckets, -⟩ := hput.buckets
        · rw [hnew, hf'mask, hsame hg (hbuckets.trans hf'buckets)]
        · exact absurd (hbuckets.trans hf'buckets) (h.buckets_ne_array hlaw hg)
      · rw [hnew, hsame hg hbuckets, hzero hone]
  · intro b table' htable'
    have hlive (hb : (s.flows b).isSome = true) : (s'.flows b).isSome = true := by
      by_cases hbaddr : b = addr
      · rw [hbaddr, hput.self]
        rfl
      · rwa [hput.others b hbaddr]
    obtain hold | ⟨hbuckets, hnew⟩ | ⟨hbuckets, hone, hnew⟩ := hput.tables _ _ htable'
    · exact ⟨hlive (h.own b table' hold).1, (h.own b table' hold).2⟩
    · obtain ⟨hf'buckets, hf'mask, -⟩ | ⟨hf'buckets, -⟩ := hput.buckets
      · have hone := (hbuckets.trans hf'buckets).symm
        exact ⟨hlive (h.own b table (hone ▸ htable)).1, hnew.trans (hf'mask.trans (hzero hone))⟩
      · cases hbuckets.trans hf'buckets
    · exact ⟨hlive (h.own b table (hbuckets ▸ htable)).1, hnew⟩
  · intro k hk
    cases htable' : s'.tables (.array k) with
    | none => rfl
    | some table' =>
      obtain hold | ⟨hbuckets, -⟩ | ⟨hbuckets, hone, -⟩ := hput.tables _ _ htable'
      · rw [h.fresh k (hput.arrays.trans hk)] at hold
        cases hold
      · obtain ⟨hf'buckets, -⟩ | ⟨hf'buckets, hlt, -⟩ := hput.buckets
        · rw [← hf'buckets, ← hbuckets, h.fresh k (hput.arrays.trans hk)] at htable
          cases htable
        · cases hbuckets.trans hf'buckets
          exact absurd hk (Nat.not_le.mpr hlt)
      · cases hbuckets.trans hone
  · intro a g b g' hg hbuckets hg' hleft
    by_cases hb : b = addr
    · rw [hb, hput.self] at hg'
      cases hg'
      by_cases ha : a = addr
      · rw [ha, hput.self] at hg
        cases hg
        exact absurd hbuckets hleft
      · rw [hput.others a ha] at hg
        by_cases hone : f.buckets = .one b
        · obtain ⟨hf'buckets, -⟩ | ⟨-, -, hexpands, -⟩ := hput.buckets
          · exact absurd (hf'buckets.trans hone) hleft
          · rw [hsame hg (hbuckets.trans hone.symm)]
            omega
        · exact h.left a g b f hg hbuckets (hb ▸ hput.was) hone
    · rw [hput.others b hb] at hg'
      by_cases ha : a = addr
      · rw [ha, hput.self] at hg
        cases hg
        obtain ⟨hf'buckets, -, hn⟩ | ⟨hf'buckets, -⟩ := hput.buckets
        · exact (h.left addr f b g' hput.was (hf'buckets.symm.trans hbuckets) hg' hleft).trans hn
        · cases hf'buckets.symm.trans hbuckets
      · exact h.left a g b g' (hput.others a ha ▸ hg) hbuckets hg' hleft

theorem expands_of_left (h : f.mask = 0) (hn : 1 ≤ f.n) : f.Expands := by
  have hmask := Hmap.le_calcMask (f.n + 1)
  unfold MatchStruct.Expands
  omega

/-- Nobody else's `one` is written, unless the table is shared. -/
theorem own_of_put (h : s.Inv) (hlaw : s.Lawful) (hf : s.flows addr = some f)
    (hstays : f.Expands → f.buckets.ofMatch addr = true) (hshared : ¬s.Shared addr f)
    (hone : f.buckets = .one b) : b = addr := by
  by_contra hb
  obtain ⟨table, htable⟩ := hlaw.table hf
  obtain ⟨hlive, hzero⟩ := h.own b table (hone ▸ htable)
  obtain ⟨g, hg⟩ := Option.isSome_iff_exists.mp hlive
  have hleft : g.buckets ≠ .one b := fun hbuckets =>
    hshared ⟨b, g, hb, hg, hbuckets.trans hone.symm⟩
  have hn := h.left addr f b g hf hone hg hleft
  have hmask : f.mask = 0 := (h.mask addr f table hf htable).symm.trans hzero
  have hown := hstays (expands_of_left hmask hn)
  rw [hone] at hown
  exact hb (of_decide_eq_true hown)

theorem link_of_ne {buckets : Buckets} (h : buckets ≠ .one b) :
    (s.link buckets).flows b = s.flows b :=
  if_neg h

variable {table : Hmap OflMatchTlv}

theorem PutInPlace.alone (hput : PutInPlace s s' addr tlv f f' table) (h : s.Inv)
    (hlaw : s.Lawful) (hf : s.flows addr = some f) (htable : s.tables f.buckets = some table)
    (hshared : ¬s.Shared addr f) : PutAlone s s' addr f f' where
  was := hf
  self := by rw [hput.flows, Function.update_self]
  others := by
    intro b hb
    rw [hput.flows, Function.update_of_ne hb, link_of_ne]
    intro hone
    exact hb (own_of_put h hlaw hf (fun hexpands => absurd hexpands hput.stays) hshared hone)
  tables := by
    intro buckets table' htable'
    rw [hput.tables, Function.update_apply] at htable'
    split_ifs at htable' with hbuckets
    · cases htable'
      refine .inr (.inl ⟨hbuckets.trans hput.buckets.symm, ?_⟩)
      rw [hput.mask, ← h.mask addr f table hf htable]
      rfl
    · exact .inl htable'
  arrays := hput.arrays.ge
  buckets := .inl ⟨hput.buckets, hput.mask, hput.n ▸ Nat.le_succ f.n⟩

theorem PutElsewhere.alone (hput : PutElsewhere s s' addr tlv f f' table) (h : s.Inv)
    (hlaw : s.Lawful) (hf : s.flows addr = some f)
    (hshared : f.buckets = .one addr ∨ ¬s.Shared addr f) : PutAlone s s' addr f f' where
  was := hf
  self := by rw [hput.flows, Function.update_self]
  others := by
    intro b hb
    rw [hput.flows, Function.update_of_ne hb, link_of_ne]
    intro hone
    obtain hmoves | hshared := hshared
    · exact hb (Buckets.one.inj (hone.symm.trans hmoves))
    · exact hb (own_of_put h hlaw hf (fun _ => hput.own) hshared hone)
  tables := by
    intro buckets table' htable'
    rw [hput.tables, Function.update_apply, Function.update_apply] at htable'
    split_ifs at htable' with harray hbuckets hone
    · cases htable'
      exact .inr (.inl ⟨harray.trans hput.buckets.symm, Hmap.mask_resize _ _⟩)
    · cases htable'
      exact .inr (.inr ⟨hbuckets, hone, rfl⟩)
    · exact .inl htable'
  arrays := hput.arrays ▸ Nat.le_succ s.arrays
  buckets := .inr ⟨hput.buckets, hput.arrays ▸ Nat.lt_succ_self s.arrays, hput.expands⟩

variable {es es' : List OflMatchTlv}

/-- What the match contains after the put. -/
theorem PutInPlace.entries (hput : PutInPlace s s' addr tlv f f' table)
    (htable : s.tables f.buckets = some table) (hes : s.entries f = some es) :
    ∃ es', s'.entries f' = some es' ∧ ∀ e, e ∈ es' ↔ e = tlv ∨ e ∈ es := by
  rw [FlowMemory.entries, htable] at hes
  cases hes
  refine ⟨(f.grow table tlv).forEach, ?_, fun e => mem_grow⟩
  rw [FlowMemory.entries, hput.buckets, hput.tables, Function.update_self]
  rfl

theorem PutElsewhere.entries (hput : PutElsewhere s s' addr tlv f f' table)
    (htable : s.tables f.buckets = some table) (hes : s.entries f = some es) :
    ∃ es', s'.entries f' = some es' ∧ ∀ e, e ∈ es' ↔ e = tlv ∨ e ∈ es := by
  rw [FlowMemory.entries, htable] at hes
  cases hes
  refine ⟨((f.grow table tlv).resize f'.mask).forEach, ?_, fun e => mem_resize.trans mem_grow⟩
  rw [FlowMemory.entries, hput.buckets, hput.tables, Function.update_self]
  rfl

/-- Two matches in different tables are the same entries only where one is as the other. -/
theorem sameEntries_iff {P : OflMatchTlv → Prop} (hes : s.entries f = some es)
    (hmem : ∀ e, e ∈ es ↔ P e) :
    s.SameEntries f g ↔ ∃ es', s.entries g = some es' ∧ ∀ e, e ∈ es' ↔ P e := by
  constructor
  · rintro ⟨es₁, es', hes₁, hes', hsame⟩
    cases hes.symm.trans hes₁
    exact ⟨es', hes', fun e => (hsame e).symm.trans (hmem e)⟩
  · rintro ⟨es', hes', hsame⟩
    exact ⟨es, es', hes, hes', fun e => (hmem e).trans (hsame e).symm⟩

/-- Other tables are as they were. -/
theorem PutAlone.entries_of_ne (hput : PutAlone s s' addr f f') (h : s.Inv) (hlaw : s.Lawful)
    (htables : ∀ buckets, buckets ≠ f.buckets → buckets ≠ .array s.arrays →
      s'.tables buckets = s.tables buckets)
    (hg : s.flows b = some g) (hne : g.buckets ≠ f.buckets) :
    f' ≠ g ∧ s'.entries g = s.entries g := by
  have hfresh := h.buckets_ne_array hlaw hg
  constructor
  · rintro rfl
    obtain ⟨hbuckets, -⟩ | ⟨hbuckets, -⟩ := hput.buckets
    · exact hne hbuckets
    · exact hfresh hbuckets
  · rw [FlowMemory.entries, FlowMemory.entries, htables _ hne hfresh]

/-- A table that nobody shares: the entries have to be those of no other. -/
theorem PutAlone.lawful_iff {P : OflMatchTlv → Prop} (hput : PutAlone s s' addr f f')
    (h : s.Inv) (hlaw : s.Lawful) (hshared : ¬s.Shared addr f)
    (htables : ∀ buckets, buckets ≠ f.buckets → buckets ≠ .array s.arrays →
      s'.tables buckets = s.tables buckets)
    (hentries : ∃ es, s'.entries f' = some es ∧ ∀ e, e ∈ es ↔ P e) :
    s'.Lawful ↔ ¬s.Elsewhere f P := by
  obtain ⟨es, hes, hmem⟩ := hentries
  have hother {b : Nat} {g : MatchStruct} (hb : b ≠ addr) (hg : s.flows b = some g) :
      f' ≠ g ∧ s'.entries g = s.entries g :=
    hput.entries_of_ne h hlaw htables hg fun hbuckets => hshared ⟨b, g, hb, hg, hbuckets⟩
  rw [lawful_iff_of_one hlaw hput.self]
  · constructor
    · rintro hone ⟨b, g, es', hg, hne, hes', hsame⟩
      have hb : b ≠ addr := by
        rintro rfl
        cases hput.was.symm.trans hg
        exact hne rfl
      obtain ⟨hneq, hkept⟩ := hother hb hg
      refine hneq ((hone b g hb ((hput.others b hb).trans hg)).mpr ?_)
      exact (sameEntries_iff hes hmem).mpr ⟨es', hkept.trans hes', hsame⟩
    · intro hnot b g hb hg
      rw [hput.others b hb] at hg
      obtain ⟨hneq, hkept⟩ := hother hb hg
      refine iff_of_false hneq fun hsame => hnot ?_
      obtain ⟨es', hes', hsame⟩ := (sameEntries_iff hes hmem).mp hsame
      exact ⟨b, g, es', hg, fun hbuckets => hshared ⟨b, g, hb, hg, hbuckets⟩,
        hkept.symm.trans hes', hsame⟩
  · intro b g hb hg
    rw [hput.others b hb] at hg
    exact ⟨hg, (hother hb hg).2⟩
  · obtain ⟨table, htable, -⟩ := Option.map_eq_some_iff.mp hes
    rw [htable]
    rfl

section Leaves

/-! ### A table that leaves the `one` of its match -/

variable {P : OflMatchTlv → Prop} {g' : MatchStruct} {c : Nat}

/-- Who shared it is without entries. -/
theorem PutElsewhere.near (hput : PutElsewhere s s' addr tlv f f' table)
    (hone : f.buckets = .one addr) (hbuckets : g.buckets = f.buckets) :
    f' ≠ g ∧ s'.entries g = some [] := by
  have hold : g.buckets ≠ .array s.arrays := by
    rw [hbuckets, hone]
    nofun
  constructor
  · rintro rfl
    exact hold hput.buckets
  · rw [FlowMemory.entries, hput.tables, Function.update_of_ne hold, hbuckets,
      Function.update_self, if_pos hone]
    rfl

theorem PutElsewhere.sameEntries_near (hput : PutElsewhere s s' addr tlv f f' table)
    (hone : f.buckets = .one addr) (hbuckets : g.buckets = f.buckets) :
    s'.SameEntries g g' ↔ ∃ es', s'.entries g' = some es' ∧ ∀ e, e ∈ es' ↔ False :=
  sameEntries_iff (hput.near hone hbuckets).2 fun e => by simp only [List.not_mem_nil]

variable (hput : PutElsewhere s s' addr tlv f f' table) (h : s.Inv) (hlaw : s.Lawful)
  (hf : s.flows addr = some f) (hone : f.buckets = .one addr)
include hput h hlaw hf hone

/-- Who did not share it is as it was. -/
theorem PutElsewhere.far (hg : s.flows b = some g) (hbuckets : g.buckets ≠ f.buckets) :
    f' ≠ g ∧ s'.entries g = s.entries g := by
  have halone := hput.alone h hlaw hf (.inl hone)
  refine halone.entries_of_ne h hlaw (fun buckets hfirst harray => ?_) hg hbuckets
  rw [hput.tables, Function.update_of_ne harray, Function.update_of_ne hfirst]

/-- Who shared it, and who did not. -/
theorem PutElsewhere.not_sameEntries (hg : s.flows b = some g) (hbuckets : g.buckets = f.buckets)
    (hb : b ≠ addr) (hg' : s.flows c = some g') (hne : g'.buckets ≠ f.buckets)
    (hnot : s.Shared addr f → ¬s.Elsewhere f fun _ => False) : ¬s'.SameEntries g g' := by
  intro hsame
  obtain ⟨es', hes', hempty⟩ := (hput.sameEntries_near hone hbuckets).mp hsame
  have hkept := (hput.far h hlaw hf hone hg' hne).2
  exact hnot ⟨b, g, hb, hg, hbuckets⟩ ⟨c, g', es', hg', hne, hkept.symm.trans hes', hempty⟩

theorem PutElsewhere.not_elsewhere_of_lawful
    (hentries : ∃ es, s'.entries f' = some es ∧ ∀ e, e ∈ es ↔ P e) (hlaw' : s'.Lawful) :
    ¬s.Elsewhere f P ∧ (s.Shared addr f → ¬s.Elsewhere f fun _ => False) := by
  obtain ⟨es, hes, hmem⟩ := hentries
  have halone := hput.alone h hlaw hf (.inl hone)
  have hthere {b : Nat} {g : MatchStruct} (hg : s.flows b = some g)
      (hbuckets : g.buckets ≠ f.buckets) : s'.flows b = some g := by
    refine (halone.others b ?_).trans hg
    rintro rfl
    cases hf.symm.trans hg
    exact hbuckets rfl
  constructor
  · rintro ⟨b, g, es', hg, hbuckets, hes', hsame⟩
    obtain ⟨hneq, hkept⟩ := hput.far h hlaw hf hone hg hbuckets
    refine hneq ((hlaw' addr b f' g halone.self (hthere hg hbuckets)).mpr ?_)
    exact (sameEntries_iff hes hmem).mpr ⟨es', hkept.trans hes', hsame⟩
  · rintro ⟨b, g, hb, hg, hbuckets⟩ ⟨c, g', es', hg', hbuckets', hes', hempty⟩
    have hkept := (hput.far h hlaw hf hone hg' hbuckets').2
    have hsame : s'.SameEntries g g' :=
      (hput.sameEntries_near hone hbuckets).mpr ⟨es', hkept.trans hes', hempty⟩
    have heq := (hlaw' b c g g' ((halone.others b hb).trans hg) (hthere hg' hbuckets')).mpr hsame
    exact hbuckets' (heq ▸ hbuckets)

/-- The match that got the entry, and any other. -/
theorem PutElsewhere.apart (hentries : ∃ es, s'.entries f' = some es ∧ ∀ e, e ∈ es ↔ P e)
    (hP : ∃ e, P e) (hnew : ¬s.Elsewhere f P) (hg : s.flows b = some g) :
    f' ≠ g ∧ ¬s'.SameEntries f' g := by
  obtain ⟨es, hes, hmem⟩ := hentries
  rw [sameEntries_iff hes hmem]
  by_cases hbuckets : g.buckets = f.buckets
  · obtain ⟨hneq, hnil⟩ := hput.near hone hbuckets
    refine ⟨hneq, ?_⟩
    rintro ⟨es', hes', hsame⟩
    cases hnil.symm.trans hes'
    obtain ⟨e, he⟩ := hP
    exact List.not_mem_nil ((hsame e).mpr he)
  · obtain ⟨hneq, hkept⟩ := hput.far h hlaw hf hone hg hbuckets
    refine ⟨hneq, ?_⟩
    rintro ⟨es', hes', hsame⟩
    exact hnew ⟨b, g, es', hg, hbuckets, hkept.symm.trans hes', hsame⟩

/-- Two other matches. -/
theorem PutElsewhere.others_iff (hg : s.flows b = some g) (hb : b ≠ addr)
    (hg' : s.flows c = some g') (hc : c ≠ addr)
    (hnot : s.Shared addr f → ¬s.Elsewhere f fun _ => False) : g = g' ↔ s'.SameEntries g g' := by
  by_cases hbuckets : g.buckets = f.buckets
  · by_cases hbuckets' : g'.buckets = f.buckets
    · have heq := hlaw.eq_of_buckets hg hg' (hbuckets'.trans hbuckets.symm)
      refine iff_of_true heq ((hput.sameEntries_near hone hbuckets).mpr ⟨[], ?_, by simp⟩)
      exact (hput.near hone hbuckets').2
    · refine iff_of_false ?_ (hput.not_sameEntries h hlaw hf hone hg hbuckets hb hg' hbuckets' hnot)
      rintro rfl
      exact hbuckets' hbuckets
  · by_cases hbuckets' : g'.buckets = f.buckets
    · refine iff_of_false ?_ fun hsame => hput.not_sameEntries h hlaw hf hone hg' hbuckets' hc hg
        hbuckets hnot hsame.symm
      rintro rfl
      exact hbuckets hbuckets'
    · rw [hlaw b c g g' hg hg', sameEntries_congr (hput.far h hlaw hf hone hg hbuckets).2
        (hput.far h hlaw hf hone hg' hbuckets').2]

theorem PutElsewhere.lawful_of (hentries : ∃ es, s'.entries f' = some es ∧ ∀ e, e ∈ es ↔ P e)
    (hP : ∃ e, P e) (hnew : ¬s.Elsewhere f P)
    (hnot : s.Shared addr f → ¬s.Elsewhere f fun _ => False) : s'.Lawful := by
  have halone := hput.alone h hlaw hf (.inl hone)
  have hapart {b : Nat} {g : MatchStruct} (hb : b ≠ addr) (hg : s'.flows b = some g) :=
    hput.apart h hlaw hf hone hentries hP hnew ((halone.others b hb).symm.trans hg)
  intro a b g g' hg hg'
  by_cases ha : a = addr
  · rw [ha, halone.self] at hg
    cases hg
    by_cases hb : b = addr
    · rw [hb, halone.self] at hg'
      cases hg'
      obtain ⟨es, hes, -⟩ := hentries
      exact iff_of_true rfl ⟨es, es, hes, hes, fun e => Iff.rfl⟩
    · exact iff_of_false (hapart hb hg').1 (hapart hb hg').2
  · by_cases hb : b = addr
    · rw [hb, halone.self] at hg'
      cases hg'
      exact iff_of_false (hapart ha hg).1.symm fun hsame => (hapart ha hg).2 hsame.symm
    · exact hput.others_iff h hlaw hf hone ((halone.others a ha).symm.trans hg) ha
        ((halone.others b hb).symm.trans hg') hb hnot

/-- The entries have to be those of no other, and where it was shared no other may be without. -/
theorem PutElsewhere.lawful_iff
    (hentries : ∃ es, s'.entries f' = some es ∧ ∀ e, e ∈ es ↔ P e) (hP : ∃ e, P e) :
    s'.Lawful ↔ ¬s.Elsewhere f P ∧ (s.Shared addr f → ¬s.Elsewhere f fun _ => False) :=
  ⟨hput.not_elsewhere_of_lawful h hlaw hf hone hentries,
    fun hnot => hput.lawful_of h hlaw hf hone hentries hP hnot.1 hnot.2⟩

end Leaves

/-- Who shares a table in place has a count that is behind. -/
theorem PutInPlace.not_lawful (hput : PutInPlace s s' addr tlv f f' table) (hlaw : s.Lawful)
    (hf : s.flows addr = some f) (hshared : s.Shared addr f) : ¬s'.Lawful := by
  intro hlaw'
  obtain ⟨b, g, hb, hg, hbuckets⟩ := hshared
  have heq := hlaw.eq_of_buckets hf hg hbuckets
  have hself : s'.flows addr = some f' := by rw [hput.flows, Function.update_self]
  obtain ⟨g', hg', hbuckets', hn⟩ : ∃ g', s'.flows b = some g' ∧ g'.buckets = g.buckets ∧
      g'.n = g.n := by
    rw [hput.flows, Function.update_of_ne hb, link]
    dsimp only
    split
    · rw [hg]
      exact ⟨_, rfl, rfl, rfl⟩
    · exact ⟨g, hg, rfl, rfl⟩
  have hsame := hlaw'.eq_of_buckets hself hg'
    (hbuckets'.trans (hbuckets.trans hput.buckets.symm))
  have hcount := hput.n
  rw [hsame, hn, ← heq] at hcount
  omega

/-- Who shares an array that is freed has no table. -/
theorem PutElsewhere.not_lawful (hput : PutElsewhere s s' addr tlv f f' table) (h : s.Inv)
    (hlaw : s.Lawful) (hone : f.buckets ≠ .one addr) (hshared : s.Shared addr f) :
    ¬s'.Lawful := by
  intro hlaw'
  obtain ⟨b, g, hb, hg, hbuckets⟩ := hshared
  have hnone (c : Nat) : f.buckets ≠ .one c := by
    intro hc
    have hown := hput.own
    rw [hc] at hown
    exact hone (hc.trans (congrArg _ (of_decide_eq_true hown)))
  have hg' : s'.flows b = some g := by
    rw [hput.flows, Function.update_of_ne hb, link_of_ne (hnone b), hg]
  obtain ⟨table', htable'⟩ := hlaw'.table hg'
  rw [hput.tables, Function.update_of_ne (h.buckets_ne_array hlaw hg), hbuckets,
    Function.update_self, if_neg hone] at htable'
  cases htable'

theorem put_keeps (h : s.Inv) (hlaw : s.Lawful) (hstep : s.put addr tlv = some s') :
    (s'.Lawful → s'.Inv) ∧ (s.Apart (.put addr tlv) ↔ s'.Lawful) := by
  obtain ⟨f, f', table, hf, htable, hput⟩ := put_eq_some hstep
  have hes : s.entries f = some table.forEach := by
    rw [entries, htable]
    rfl
  have hapart : s.Apart (.put addr tlv) ↔
      ¬s.Elsewhere f (fun e => e = tlv ∨ e ∈ table.forEach) ∧
        if f.buckets = .one addr ∧ f.Expands then s.Shared addr f → ¬s.Elsewhere f fun _ => False
        else ¬s.Shared addr f := by
    refine ⟨fun hall => hall f _ hf hes, fun hone f₁ es₁ hf₁ hes₁ => ?_⟩
    cases hf.symm.trans hf₁
    cases hes.symm.trans hes₁
    exact hone
  rw [hapart]
  obtain hput | hput := hput
  · rw [if_neg fun hmoves => hput.stays hmoves.2]
    by_cases hshared : s.Shared addr f
    · have hnot := hput.not_lawful hlaw hf hshared
      exact ⟨fun hlaw' => absurd hlaw' hnot, iff_of_false (fun hcond => hcond.2 hshared) hnot⟩
    · have halone := hput.alone h hlaw hf htable hshared
      refine ⟨fun _ => halone.inv h hlaw, ?_⟩
      rw [and_iff_left hshared]
      refine (halone.lawful_iff h hlaw hshared (fun buckets hne _ => ?_)
        (hput.entries htable hes)).symm
      rw [hput.tables, Function.update_of_ne hne]
  · by_cases hone : f.buckets = .one addr
    · rw [if_pos ⟨hone, hput.expands⟩]
      exact ⟨fun _ => (hput.alone h hlaw hf (.inl hone)).inv h hlaw,
        (hput.lawful_iff h hlaw hf hone (hput.entries htable hes) ⟨tlv, .inl rfl⟩).symm⟩
    · rw [if_neg fun hmoves => hone hmoves.1]
      by_cases hshared : s.Shared addr f
      · have hnot := hput.not_lawful h hlaw hone hshared
        exact ⟨fun hlaw' => absurd hlaw' hnot, iff_of_false (fun hcond => hcond.2 hshared) hnot⟩
      · have halone := hput.alone h hlaw hf (.inr hshared)
        refine ⟨fun _ => halone.inv h hlaw, ?_⟩
        rw [and_iff_left hshared]
        refine (halone.lawful_iff h hlaw hshared (fun buckets hne harray => ?_)
          (hput.entries htable hes)).symm
        rw [hput.tables, Function.update_of_ne harray, Function.update_of_ne hne]

/-- An operation keeps equality what it is to be exactly where it meets the condition. -/
theorem step_keeps {op : FlowOp} (h : s.Inv) (hlaw : s.Lawful) (hstep : s.step op = some s') :
    (s'.Lawful → s'.Inv) ∧ (s.Apart op ↔ s'.Lawful) := by
  cases op with
  | make addr pad => exact (make_keeps h hlaw hstep).imp_left fun hinv _ => hinv
  | copy addr source => exact (copy_keeps h hlaw hstep).imp_left fun hinv _ => hinv
  | put addr tlv => exact put_keeps h hlaw hstep
  | delete addr => exact (delete_keeps h hlaw hstep).imp_left fun hinv _ => hinv
  | freeMatch addr => exact (freeMatch_keeps h hlaw hstep).imp_left fun hinv _ => hinv

end FlowMemory

end Steps

section Runs

/-! ## Runs -/

/-- Equality holds in every state of a run exactly where all its operations meet the condition. -/
theorem FlowMemory.equality_iff (md5 : MatchStruct → UInt64) (ops : List FlowOp) :
    Lib.Meeting step Apart init ops ↔
      ∀ k s, (ops.take k).foldlM step init = some s → s.EqualityHolds md5 := by
  have hmeeting : Lib.Meeting step Apart init ops ↔
      ∀ k s, (ops.take k).foldlM step init = some s → s.Lawful := by
    -- the invariant is kept for as long as equality holds
    refine Lib.meeting_iff (I := fun s => s.Lawful → s.Inv) ?_ (fun _ => inv_init) lawful_init ops
    intro s op s' h hlaw hstep
    exact step_keeps (h hlaw) hlaw hstep
  refine hmeeting.trans (forall_congr' fun k => forall_congr' fun s => ?_)
  rw [equalityHolds_iff]

/-- Two flows that have just been made have the same entries and are not equal. -/
theorem made_differ : ∃ (s : FlowMemory) (f g : MatchStruct),
    [FlowOp.make 0 0, .make 40 0].foldlM FlowMemory.step .init = some s ∧
      s.flows 0 = some f ∧ s.flows 40 = some g ∧ s.SameEntries f g ∧ f.equal g = false := by
  refine ⟨_, .init 0 0, .init 40 0, rfl, rfl, rfl, ⟨[], [], rfl, rfl, fun e => Iff.rfl⟩, rfl⟩

end Runs

end Nox.Oxm
