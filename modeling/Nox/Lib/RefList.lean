import Mathlib.Data.List.Nodup
import Mathlib.Data.List.Perm.Basic
import Mathlib.Logic.Function.Basic

/-!
# Linked lists whose nodes are held

A visitor of a linked list holds the node it stands on, and may be away from the list for a
while.  A node that is removed in the meantime loses its item; it is unlinked and freed when
its last holder lets go of it.  The invariant is `RefList.Counted`: the count of a node is
the number of its holders, whatever these are.
-/

namespace Nox.Lib

variable {α : Type*}

section Definitions

structure Node (α : Type*) where
  id : Nat
  item : Option α
  refs : Nat

namespace Node

variable (n : Node α)

def hold : Node α := { n with refs := n.refs + 1 }

def letGo : Node α := { n with refs := n.refs - 1 }

def clear : Node α := { n with item := none }

theorem hold_id : n.hold.id = n.id := rfl

theorem letGo_id : n.letGo.id = n.id := rfl

theorem clear_id : n.clear.id = n.id := rfl

end Node

/-- The nodes in order, the ones that were freed, and how many were made.  `misuse` is set
when a node that is not in the list was dereferenced, or one without an item removed. -/
structure RefList (α : Type*) where
  nodes : List (Node α)
  freed : List Nat
  made : Nat
  misuse : Bool

namespace RefList

def empty : RefList α := ⟨[], [], 0, false⟩

variable (l : RefList α)

def ids : List Nat := l.nodes.map Node.id

def find (id : Nat) : Option (Node α) := l.nodes.find? (·.id == id)

def modify (id : Nat) (f : Node α → Node α) : RefList α :=
  { l with nodes := l.nodes.map fun n => if n.id = id then f n else n }

def unlink (id : Nat) : RefList α :=
  { l with nodes := l.nodes.filter (·.id != id), freed := id :: l.freed }

/-- A new node at the end. -/
def insert (x : α) : RefList α :=
  { l with nodes := l.nodes ++ [⟨l.made, some x, 0⟩], made := l.made + 1 }

def acquire (id : Nat) : RefList α :=
  match l.find id with
  | none => { l with misuse := true }
  | some _ => l.modify id Node.hold

/-- A holder lets go: the last one frees a node that has been removed. -/
def release (id : Nat) : RefList α :=
  match l.find id with
  | none => { l with misuse := true }
  | some n =>
    if n.refs = 1 ∧ n.item.isNone then l.unlink id
    else l.modify id Node.letGo

/-- The removal of a node: it is freed at once when nobody holds it. -/
def remove (id : Nat) : RefList α :=
  match l.find id with
  | none => { l with misuse := true }
  | some n =>
    if n.item.isNone then { l with misuse := true }
    else if n.refs = 0 then l.unlink id
    else l.modify id Node.clear

/-- The nodes that come after a node. -/
def after (id : Nat) : List (Node α) := (l.nodes.dropWhile (·.id != id)).tail

/-- The nodes up to a node. -/
def upTo (id : Nat) : List (Node α) :=
  l.nodes.takeWhile (·.id != id) ++ (l.nodes.dropWhile (·.id != id)).take 1

/-- What comes after a node goes to the front. -/
def rotate (id : Nat) : RefList α :=
  match l.find id with
  | none => { l with misuse := true }
  | some _ => { l with nodes := l.after id ++ l.upTo id }

/-- The first of these nodes that has an item, which is held then.  The others are held and
let go of again. -/
def seek (l : RefList α) : List Nat → RefList α × Option (Nat × α)
  | [] => (l, none)
  | id :: rest =>
    match l.find id with
    | none => ({ l with misuse := true }, none)
    | some n =>
      match n.item with
      | some x => (l.acquire id, some (id, x))
      | none => seek ((l.acquire id).release id) rest

/-- A node of the list with this item. -/
def Live (id : Nat) (x : α) : Prop := ∃ n ∈ l.nodes, n.id = id ∧ n.item = some x

/-- Every node made is in the list or was freed, once.  The nodes held are in the list, each
with the number of its holders; and one that has been removed is held. -/
structure Counted (holders : Nat → Nat) : Prop where
  accounted : (l.freed ++ l.ids).Perm (List.range l.made)
  refs : ∀ n ∈ l.nodes, n.refs = holders n.id
  held : ∀ id, 0 < holders id → id ∈ l.ids
  removed : ∀ n ∈ l.nodes, n.item = none → 0 < n.refs
  used : l.misuse = false

end RefList

/-- One more holder of a node. -/
def bump (holders : Nat → Nat) (id : Nat) : Nat → Nat :=
  Function.update holders id (holders id + 1)

end Definitions

section Rules

@[simp] theorem bump_self (holders : Nat → Nat) (id : Nat) :
    bump holders id id = holders id + 1 := Function.update_self ..

theorem bump_of_ne {holders : Nat → Nat} {id i : Nat} (h : i ≠ id) :
    bump holders id i = holders i := Function.update_of_ne h ..

namespace RefList

variable {l : RefList α} {holders : Nat → Nat} {id : Nat}

theorem counted_empty : (empty : RefList α).Counted fun _ => 0 :=
  ⟨.refl _, fun _ h => (nomatch h), fun _ h => absurd h (Nat.lt_irrefl _),
    fun _ h => (nomatch h), rfl⟩

theorem ids_modify (f : Node α → Node α) (hf : ∀ n, (f n).id = n.id) :
    (l.modify id f).ids = l.ids := by
  unfold ids modify
  rw [List.map_map]
  refine List.map_congr_left fun n _ => ?_
  dsimp only [Function.comp]
  split_ifs
  · exact hf n
  · rfl

theorem modify_modify {f g : Node α → Node α} (hf : ∀ n, (f n).id = n.id) :
    (l.modify id f).modify id g = l.modify id (g ∘ f) := by
  unfold modify
  dsimp only
  rw [List.map_map]
  congr 1
  refine List.map_congr_left fun n _ => ?_
  dsimp only [Function.comp]
  by_cases hsame : n.id = id
  · simp only [if_pos hsame, hf n]
  · simp only [if_neg hsame]

theorem modify_self {f : Node α → Node α} (hf : ∀ n, f n = n) : l.modify id f = l := by
  have hsame : (fun n => if n.id = id then f n else n) = fun n : Node α => n :=
    funext fun n => by rw [hf n, ite_self]
  rw [modify, hsame, List.map_id']

theorem mem_modify {f : Node α → Node α} {n : Node α} (h : n ∈ (l.modify id f).nodes) :
    ∃ n' ∈ l.nodes, n = if n'.id = id then f n' else n' := by
  obtain ⟨n', hn', rfl⟩ := List.mem_map.mp h
  exact ⟨n', hn', rfl⟩

theorem mem_unlink {n : Node α} : n ∈ (l.unlink id).nodes ↔ n ∈ l.nodes ∧ n.id ≠ id := by
  unfold unlink
  simp only [List.mem_filter, bne_iff_ne]

theorem upTo_append_after (l : RefList α) (id : Nat) : l.upTo id ++ l.after id = l.nodes := by
  have hsplit : (l.nodes.dropWhile (·.id != id)).take 1 ++
      (l.nodes.dropWhile (·.id != id)).tail = l.nodes.dropWhile (·.id != id) := by
    rw [← List.drop_one]
    exact List.take_append_drop 1 _
  unfold upTo after
  rw [List.append_assoc, hsplit]
  exact List.takeWhile_append_dropWhile

theorem after_subset (l : RefList α) (id : Nat) : (l.after id).map Node.id ⊆ l.ids := by
  unfold ids
  rw [← l.upTo_append_after id]
  exact List.map_subset _ (List.subset_append_right ..)

theorem not_mem_after {nodes : List (Node α)} (h : (nodes.map Node.id).Nodup) :
    id ∉ (nodes.dropWhile (·.id != id)).tail.map Node.id := by
  induction nodes with
  | nil => exact List.not_mem_nil
  | cons n nodes ih =>
    obtain ⟨hn, hnodes⟩ := List.nodup_cons.mp h
    by_cases hid : n.id = id
    · rw [List.dropWhile_cons_of_neg (by simpa using hid)]
      exact hid ▸ hn
    · rw [List.dropWhile_cons_of_pos (by simpa using hid)]
      exact ih hnodes

theorem find_mem {n : Node α} (h : l.find id = some n) : n ∈ l.nodes ∧ n.id = id :=
  ⟨List.mem_of_find?_eq_some h, by simpa using List.find?_some h⟩

theorem exists_find (h : id ∈ l.ids) : ∃ n, l.find id = some n := by
  obtain ⟨n, hn, hid⟩ := List.mem_map.mp h
  refine Option.isSome_iff_exists.mp ?_
  exact List.find?_isSome.mpr ⟨n, hn, by simpa using hid⟩

namespace Counted

theorem nodup (h : l.Counted holders) : (l.freed ++ l.ids).Nodup :=
  h.accounted.nodup_iff.mpr List.nodup_range

theorem ids_nodup (h : l.Counted holders) : l.ids.Nodup := h.nodup.of_append_right

theorem eq_of_id (h : l.Counted holders) {n n' : Node α} (hn : n ∈ l.nodes)
    (hn' : n' ∈ l.nodes) (hid : n.id = n'.id) : n = n' :=
  List.inj_on_of_nodup_map h.ids_nodup hn hn' hid

theorem live_unique (h : l.Counted holders) {x y : α} (hx : l.Live id x) (hy : l.Live id y) :
    x = y := by
  obtain ⟨n, hn, hid, hx⟩ := hx
  obtain ⟨n', hn', hid', hy⟩ := hy
  cases h.eq_of_id hn hn' (hid.trans hid'.symm)
  exact Option.some.inj (hx.symm.trans hy)

theorem find_of_mem (h : l.Counted holders) {n : Node α} (hn : n ∈ l.nodes) :
    l.find n.id = some n := by
  obtain ⟨n', hn'⟩ := exists_find (List.mem_map_of_mem hn)
  obtain ⟨hmem, hid⟩ := find_mem hn'
  rw [hn', h.eq_of_id hmem hn hid]

theorem not_held (h : l.Counted holders) {id : Nat} (hid : id ∉ l.ids) : holders id = 0 :=
  Nat.eq_zero_of_not_pos (mt (h.held id) hid)

theorem insert (h : l.Counted holders) (x : α) : (l.insert x).Counted holders := by
  have hfresh : l.made ∉ l.ids := fun hmem => by
    have hrange := h.accounted.mem_iff.mp (List.mem_append_right l.freed hmem)
    exact absurd (List.mem_range.mp hrange) (Nat.lt_irrefl _)
  have hids : (l.insert x).ids = l.ids ++ [l.made] := List.map_append ..
  refine ⟨?_, fun n hn => ?_, fun id hheld => ?_, fun n hn hnone => ?_, h.used⟩
  · rw [hids, ← List.append_assoc]
    exact (h.accounted.append_right _).trans (.of_eq List.range_succ.symm)
  · rcases List.mem_append.mp hn with hn | hn
    · exact h.refs n hn
    · cases List.mem_singleton.mp hn
      exact (h.not_held hfresh).symm
  · rw [hids]
    exact List.mem_append_left _ (h.held id hheld)
  · rcases List.mem_append.mp hn with hn | hn
    · exact h.removed n hn hnone
    · cases List.mem_singleton.mp hn
      exact nomatch hnone

/-- A node that nobody holds any more is unlinked. -/
theorem unlink {holders' : Nat → Nat} (h : l.Counted holders) (hid : id ∈ l.ids)
    (hzero : holders' id = 0) (hrest : ∀ i, i ≠ id → holders' i = holders i) :
    (l.unlink id).Counted holders' := by
  have hids : (l.unlink id).ids = l.ids.erase id := by
    rw [h.ids_nodup.erase_eq_filter, ids, RefList.unlink, ids, List.filter_map]
    rfl
  refine ⟨?_, fun n hn => ?_, fun i hheld => ?_, fun n hn => ?_, h.used⟩
  · rw [hids]
    refine List.Perm.trans ?_ h.accounted
    exact List.perm_middle.symm.trans ((List.perm_cons_erase hid).symm.append_left l.freed)
  · obtain ⟨hmem, hne⟩ := mem_unlink.mp hn
    rw [h.refs n hmem, hrest n.id hne]
  · have hne : i ≠ id := fun heq => absurd (heq ▸ hheld) (hzero ▸ Nat.lt_irrefl _)
    rw [hids, List.mem_erase_of_ne hne]
    exact h.held i (hrest i hne ▸ hheld)
  · exact h.removed n (mem_unlink.mp hn).1

/-- A node of the list changes, and its count with the number of its holders. -/
theorem modify {holders' : Nat → Nat} {f : Node α → Node α} (h : l.Counted holders)
    (hid : id ∈ l.ids) (hf : ∀ n, (f n).id = n.id)
    (hself : ∀ n ∈ l.nodes, n.id = id →
      (f n).refs = holders' id ∧ ((f n).item = none → 0 < holders' id))
    (hrest : ∀ i, i ≠ id → holders' i = holders i) : (l.modify id f).Counted holders' := by
  have hids : (l.modify id f).ids = l.ids := ids_modify f hf
  refine ⟨?_, fun n hn => ?_, fun i hheld => ?_, fun n hn hnone => ?_, h.used⟩
  · rw [hids]
    exact h.accounted
  · obtain ⟨n, hmem, rfl⟩ := mem_modify hn
    split_ifs with hsame
    · rw [(hself n hmem hsame).1, hf, hsame]
    · rw [h.refs n hmem, hrest n.id hsame]
  · rw [hids]
    by_cases heq : i = id
    · exact heq ▸ hid
    · exact h.held i (hrest i heq ▸ hheld)
  · obtain ⟨n, hmem, rfl⟩ := mem_modify hn
    revert hnone
    split_ifs with hsame
    · rw [(hself n hmem hsame).1]
      exact (hself n hmem hsame).2
    · exact h.removed n hmem

theorem acquire (h : l.Counted holders) (hid : id ∈ l.ids) :
    (l.acquire id).Counted (bump holders id) := by
  obtain ⟨n, hn⟩ := exists_find hid
  unfold RefList.acquire
  rw [hn]
  refine h.modify hid Node.hold_id (fun n hmem hsame => ?_) fun i hne => bump_of_ne hne
  rw [bump_self, ← hsame]
  exact ⟨congrArg (· + 1) (h.refs n hmem), fun _ => Nat.succ_pos _⟩

theorem release (h : l.Counted (bump holders id)) : (l.release id).Counted holders := by
  have hid : id ∈ l.ids := h.held id (by rw [bump_self]; exact Nat.succ_pos _)
  obtain ⟨n, hn⟩ := exists_find hid
  obtain ⟨hmem, hsame⟩ := find_mem hn
  have hrefs : n.refs = holders id + 1 := by rw [h.refs n hmem, hsame, bump_self]
  unfold RefList.release
  rw [hn]
  dsimp only
  split_ifs with hlast
  · have hzero : holders id = 0 := by omega
    exact h.unlink hid hzero fun i hne => (bump_of_ne hne).symm
  · refine h.modify hid Node.letGo_id (fun n' hmem' hsame' => ?_)
      fun i hne => (bump_of_ne hne).symm
    cases h.eq_of_id hmem' hmem (hsame'.trans hsame.symm)
    refine ⟨Nat.sub_eq_of_eq_add hrefs, fun hnone => ?_⟩
    have hnot : n.refs ≠ 1 := fun hone => hlast ⟨hone, Option.isNone_iff_eq_none.mpr hnone⟩
    omega

theorem remove (h : l.Counted holders) {x : α} (hlive : l.Live id x) :
    (l.remove id).Counted holders := by
  obtain ⟨n, hmem, rfl, hitem⟩ := hlive
  have hid : n.id ∈ l.ids := List.mem_map_of_mem hmem
  have hrefs := h.refs n hmem
  unfold RefList.remove
  rw [h.find_of_mem hmem]
  dsimp only
  rw [hitem, Option.isNone_some, if_neg Bool.false_ne_true]
  split_ifs with hzero
  · exact h.unlink hid (hrefs ▸ hzero) fun _ _ => rfl
  · refine h.modify hid Node.clear_id (fun n' hmem' hsame => ?_) fun _ _ => rfl
    cases h.eq_of_id hmem' hmem hsame
    exact ⟨hrefs, fun _ => by omega⟩

theorem rotate (h : l.Counted holders) (hid : id ∈ l.ids) :
    (l.rotate id).Counted holders := by
  obtain ⟨n, hn⟩ := exists_find hid
  have hperm : (l.after id ++ l.upTo id).Perm l.nodes := by
    rw [← l.upTo_append_after id]
    exact List.perm_append_comm
  unfold RefList.rotate
  rw [hn]
  exact ⟨((hperm.map Node.id).append_left l.freed).trans h.accounted,
    fun n hmem => h.refs n (hperm.mem_iff.mp hmem),
    fun i hheld => ((hperm.map Node.id).mem_iff).mpr (h.held i hheld),
    fun n hmem => h.removed n (hperm.mem_iff.mp hmem), h.used⟩

/-- What comes after a node is still there when it has been let go of. -/
theorem after_subset_release (h : l.Counted holders) (id : Nat) :
    (l.after id).map Node.id ⊆ (l.release id).ids := by
  intro i hi
  have hmem := l.after_subset id hi
  unfold RefList.release
  split
  · exact hmem
  · split_ifs
    · have hne : i ≠ id := fun heq => not_mem_after h.ids_nodup (heq ▸ hi)
      obtain ⟨n, hn, rfl⟩ := List.mem_map.mp hmem
      exact List.mem_map_of_mem (mem_unlink.mpr ⟨hn, hne⟩)
    · rw [ids_modify _ Node.letGo_id]
      exact hmem

end Counted

/-! ## What has an item -/

theorem live_modify {f : Node α → Node α} (hf : ∀ n, (f n).id = n.id ∧ (f n).item = n.item)
    {i : Nat} {x : α} : (l.modify id f).Live i x ↔ l.Live i x := by
  have hkeep (n : Node α) : (if n.id = id then f n else n).id = n.id ∧
      (if n.id = id then f n else n).item = n.item := by
    split_ifs
    · exact hf n
    · exact ⟨rfl, rfl⟩
  constructor
  · rintro ⟨_, hn, rfl, hitem⟩
    obtain ⟨n, hmem, rfl⟩ := mem_modify hn
    exact ⟨n, hmem, (hkeep n).1.symm, (hkeep n).2.symm.trans hitem⟩
  · rintro ⟨n, hmem, rfl, hitem⟩
    exact ⟨_, List.mem_map_of_mem hmem, (hkeep n).1, (hkeep n).2.trans hitem⟩

theorem live_acquire {i : Nat} {x : α} : (l.acquire id).Live i x ↔ l.Live i x := by
  unfold acquire
  split
  · exact Iff.rfl
  · exact live_modify fun n => ⟨n.hold_id, rfl⟩

/-- What is freed by a release has no item. -/
theorem live_release (h : l.Counted holders) {i : Nat} {x : α} :
    (l.release id).Live i x ↔ l.Live i x := by
  unfold release
  split
  · exact Iff.rfl
  · next n hn =>
    obtain ⟨hmem, hid⟩ := find_mem hn
    split_ifs with hlast
    · refine ⟨fun ⟨n', hn', hi⟩ => ⟨n', (mem_unlink.mp hn').1, hi⟩,
        fun ⟨n', hn', hsame, hitem⟩ =>
          ⟨n', mem_unlink.mpr ⟨hn', fun heq => ?_⟩, hsame, hitem⟩⟩
      cases h.eq_of_id hn' hmem (heq.trans hid.symm)
      rw [hitem] at hlast
      exact absurd hlast.2 Bool.false_ne_true
    · exact live_modify fun n => ⟨n.letGo_id, rfl⟩

theorem live_rotate {i : Nat} {x : α} : (l.rotate id).Live i x ↔ l.Live i x := by
  unfold rotate
  split
  · exact Iff.rfl
  · have hperm : (l.after id ++ l.upTo id).Perm l.nodes := by
      rw [← l.upTo_append_after id]
      exact List.perm_append_comm
    exact exists_congr fun n => and_congr_left' hperm.mem_iff

theorem live_insert {i : Nat} {x y : α} :
    (l.insert x).Live i y ↔ l.Live i y ∨ i = l.made ∧ x = y := by
  constructor
  · rintro ⟨n, hn, rfl, hitem⟩
    rcases List.mem_append.mp hn with hn | hn
    · exact .inl ⟨n, hn, rfl, hitem⟩
    · cases List.mem_singleton.mp hn
      exact .inr ⟨rfl, Option.some.inj hitem⟩
  · rintro (⟨n, hn, hi⟩ | ⟨rfl, rfl⟩)
    · exact ⟨n, List.mem_append_left _ hn, hi⟩
    · exact ⟨_, List.mem_append_right _ (List.mem_singleton_self _), rfl, rfl⟩

theorem live_remove (h : l.Counted holders) {x : α} (hlive : l.Live id x) {i : Nat} {y : α} :
    (l.remove id).Live i y ↔ l.Live i y ∧ i ≠ id := by
  obtain ⟨n, hmem, rfl, hitem⟩ := hlive
  unfold remove
  rw [h.find_of_mem hmem]
  dsimp only
  rw [hitem, Option.isNone_some, if_neg Bool.false_ne_true]
  split_ifs
  · constructor
    · rintro ⟨n', hn', rfl, hi⟩
      exact ⟨⟨n', (mem_unlink.mp hn').1, rfl, hi⟩, (mem_unlink.mp hn').2⟩
    · rintro ⟨⟨n', hn', rfl, hi⟩, hne⟩
      exact ⟨n', mem_unlink.mpr ⟨hn', hne⟩, rfl, hi⟩
  · constructor
    · rintro ⟨n', hn', rfl, hi⟩
      obtain ⟨n', hmem', rfl⟩ := mem_modify hn'
      revert hi
      split_ifs with hsame
      · exact fun hi => nomatch hi
      · exact fun hi => ⟨⟨n', hmem', rfl, hi⟩, hsame⟩
    · rintro ⟨⟨n', hn', rfl, hi⟩, hne⟩
      exact ⟨_, List.mem_map_of_mem hn', by rw [if_neg hne], by rw [if_neg hne]; exact hi⟩

/-! ## Passing over nodes -/

/-- A removed node that somebody holds stays as it is when it is passed over. -/
theorem release_acquire (h : l.Counted holders) {n : Node α} (hn : n ∈ l.nodes)
    (hnone : n.item = none) : (l.acquire n.id).release n.id = l := by
  have hrefs := h.removed n hn hnone
  have hacquire : l.acquire n.id = l.modify n.id Node.hold := by
    rw [acquire, h.find_of_mem hn]
  have hcounted := h.acquire (List.mem_map_of_mem hn)
  rw [hacquire] at hcounted ⊢
  have hmem : n.hold ∈ (l.modify n.id Node.hold).nodes :=
    List.mem_map.mpr ⟨n, hn, if_pos rfl⟩
  have hfind := hcounted.find_of_mem hmem
  have hmore : ¬ (n.hold.refs = 1 ∧ n.hold.item.isNone) := fun hlast =>
    absurd (Nat.succ.inj hlast.1) (Nat.ne_of_gt hrefs)
  rw [n.hold_id] at hfind
  unfold release
  rw [hfind]
  dsimp only
  rw [if_neg hmore, modify_modify Node.hold_id]
  exact modify_self fun _ => rfl

/-- Nodes of the list are passed over until one with an item, which is held. -/
theorem seek_spec (h : l.Counted holders) {rest : List Nat} (hrest : rest ⊆ l.ids) :
    l.seek rest = (l, none) ∨
      ∃ id x, l.seek rest = (l.acquire id, some (id, x)) ∧ id ∈ l.ids ∧ l.Live id x := by
  induction rest with
  | nil => exact .inl rfl
  | cons id rest ih =>
    obtain ⟨hid, htail⟩ := List.cons_subset.mp hrest
    obtain ⟨n, hn⟩ := exists_find hid
    obtain ⟨hmem, rfl⟩ := find_mem hn
    rw [seek, hn]
    dsimp only
    split
    · next x hitem => exact .inr ⟨n.id, x, rfl, hid, n, hmem, rfl, hitem⟩
    · next hnone =>
      rw [release_acquire h hmem hnone]
      exact ih htail

end RefList

end Rules

end Nox.Lib
