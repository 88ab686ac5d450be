import Nox.Classify.Expr

/-!
# What a classifier answers

After any history of operations a lookup returns the rules of the flat table that
match, each once (`run_lookup`) and in the order of their priorities
(`run_ordered`), and every rule has its place in the tree (`run_owned`).  The first
and the last need lookups and deletions with data on which `get_field` and
`matches` agree; for flows they do not, and a rule is missed
(`flow_lookup_misses`, `flow_not_deleted`).
-/

namespace Nox.Classify

open Cnode

variable {Expr Data Action : Type}

section Lookup

/-! ## Lookups -/

/-- The rules of a table that match, each once. -/
def Flat.Answers (t : Flat Expr Action) (I : Interface Expr Data) (d : Data) (out : List Nat) :
    Prop :=
  out.Nodup ∧ ∀ id, id ∈ out ↔ ∃ rule, t.rules id = some rule ∧ I.isMatch id rule.expr d = true

theorem run_lookup (I : Interface Expr Data) (forced : Option (Nat × Nat))
    (ls : List (Label Expr Action Data)) (hadm : Flat.start.Admissible I ls) :
    ∃ s, (Classifier.start forced).run I ls = some s ∧
      ∀ d, I.Coherent (ls.foldl (Flat.step I) Flat.start).rules d →
        (ls.foldl (Flat.step I) Flat.start).Answers I d (s.lookup I d) := by
  obtain ⟨s, hs, hinv, hflat⟩ := (inv_start (I := I) forced).run ls
  have hflat : s.flat = ls.foldl (Flat.step I) Flat.start := hflat hadm
  rw [← hflat]
  exact ⟨s, hs, fun d hd => hinv.lookup hd⟩

/-- Rules for two ethernet types, a tree built over them, and a lookup. -/
theorem packetExprs_lookup :
    ∃ s, (Classifier.start none).run packetExprs
        [.addRule 5 (.ofDlType 2048) (), .addRule 3 (.ofDlType 2054) (), .build] = some s ∧
      ∀ d, (List.foldl (Flat.step packetExprs) Flat.start
          [.addRule 5 (.ofDlType 2048) (), .addRule 3 (.ofDlType 2054) (), .build]).Answers
        packetExprs d (s.lookup packetExprs d) := by
  obtain ⟨s, hs, hlookup⟩ := run_lookup packetExprs none
    [.addRule 5 (.ofDlType 2048) (), .addRule 3 (.ofDlType 2054) (), .build]
    (packetExprs_admissible _ _)
  exact ⟨s, hs, fun d => hlookup d (packetExprs_coherent _ d)⟩

/-- `get_field` is undefined for a flow: with a value that no rule has, the rule that
matches everything is not found. -/
theorem flow_lookup_misses :
    ∃ s, (Classifier.start (some (4, 0))).run (flows fun (_ : Unit) _ => some 7)
        [.addRule 1 (.ofDlType 2048) ()] = some s ∧
      ¬ (List.foldl (Flat.step (flows fun (_ : Unit) _ => some 7)) Flat.start
          [.addRule 1 (.ofDlType 2048) ()]).Answers
        (flows fun (_ : Unit) _ => some 7) () (s.lookup (flows fun (_ : Unit) _ => some 7) ()) := by
  have hout : ((Classifier.start (some (4, 0))).run (flows fun (_ : Unit) _ => some 7)
      [.addRule 1 (.ofDlType 2048) ()]).map
        (fun s => s.lookup (flows fun (_ : Unit) _ => some 7) ()) = some [] := by
    decide +kernel
  obtain ⟨s, hs, hlookup⟩ := Option.map_eq_some_iff.mp hout
  refine ⟨s, hs, fun h => ?_⟩
  have hmem := (h.2 1).mpr ⟨⟨1, .ofDlType 2048, ()⟩, rfl, rfl⟩
  rw [hlookup] at hmem
  cases hmem

end Lookup

section Order

/-! ## Their order -/

theorem run_ordered (I : Interface Expr Data) (forced : Option (Nat × Nat))
    (ls : List (Label Expr Action Data)) :
    ∃ s, (Classifier.start forced).run I ls = some s ∧
      (∀ n ∈ s.root.nodes, n.2.Pairwise fun x y =>
        (I.view s.rules).priority x ≤ (I.view s.rules).priority y) ∧
      ∀ d, (s.lookup I d).Pairwise fun x y =>
        (I.view s.rules).priority x ≤ (I.view s.rules).priority y := by
  obtain ⟨s, hs, hinv, -⟩ := (inv_start (I := I) forced).run ls
  exact ⟨s, hs, hinv.ordered, hinv.lookup_ordered⟩

end Order

section Ownership

/-! ## Ownership -/

/-- Every rule of the table is in one list of one node, and points at this node. -/
structure Classifier.Owned (s : Classifier Expr Action) : Prop where
  held : ∀ id, (s.rules id).isSome ↔ ∃ a, (a, id) ∈ s.root.entries
  once : s.root.allRules.Nodup
  pointer : ∀ a id, (a, id) ∈ s.root.entries → s.memory.node id = some a
  addrs : s.root.addrs.Nodup

theorem Inv.owned {I : Interface Expr Data} {s : Classifier Expr Action} (h : Inv I s) :
    s.Owned where
  held := by
    intro id
    rw [← h.live id]
    constructor
    · intro hid
      obtain ⟨⟨a, id'⟩, he, rfl⟩ := List.mem_map.mp hid
      exact ⟨a, he⟩
    · rintro ⟨a, he⟩
      exact List.mem_map_of_mem he
  once := h.nodup
  pointer := fun a id he => h.node (a, id) he
  addrs := h.addrs

/-- What the operations leave of the rules, and what they return. -/
theorem run_owned (I : Interface Expr Data) (forced : Option (Nat × Nat))
    (ls : List (Label Expr Action Data)) (hadm : Flat.start.Admissible I ls) :
    ∃ s, (Classifier.start forced).run I ls = some s ∧ s.Owned ∧
      s.flat = ls.foldl (Flat.step I) Flat.start ∧
      (∀ id, (s.deleteRule id).1 = (s.rules id).isSome ∧ (s.deleteRule id).2.Owned ∧
        (s.deleteRule id).2.rules = Function.update s.rules id none) ∧
      ∀ d, I.Coherent s.rules d → (s.deleteRules I d).2.Owned ∧
        (s.deleteRules I d).2.rules =
          (fun id => (s.rules id).filter fun rule => !I.isMatch id rule.expr d) ∧
        ∃ deleted, s.flat.Answers I d deleted ∧ (s.deleteRules I d).1 = deleted.length := by
  obtain ⟨s, hs, hinv, hflat⟩ := (inv_start (I := I) forced).run ls
  refine ⟨s, hs, hinv.owned, hflat hadm, fun id => ?_, fun d hd => ?_⟩
  · obtain ⟨hinv', hbool, hrules, -⟩ := hinv.deleteRule id
    exact ⟨hbool, hinv'.owned, hrules⟩
  · obtain ⟨hinv', -, hspec⟩ := hinv.deleteRules d
    exact ⟨hinv'.owned, (hspec hd).2, s.lookup I d, hinv.lookup hd, (hspec hd).1⟩

/-- Rules that are added to a tree split from the start, and one deleted. -/
theorem packetExprs_owned :
    ∃ s, (Classifier.start (some (4, 1))).run packetExprs
        [.addRule 5 (.ofDlType 2048) (), .addRule 3 (.ofDlType 2054) (), .deleteRule 1] = some s ∧
      s.Owned ∧ ∀ d, (s.deleteRules packetExprs d).2.Owned := by
  obtain ⟨s, hs, howned, -, -, hdelete⟩ := run_owned packetExprs (some (4, 1))
    [.addRule 5 (.ofDlType 2048) (), .addRule 3 (.ofDlType 2054) (), .deleteRule 1]
    (packetExprs_admissible _ _)
  exact ⟨s, hs, howned, fun d => (hdelete d (packetExprs_coherent _ d)).1⟩

/-- A flow that matches the rule does not delete it. -/
theorem flow_not_deleted :
    ∃ s, (Classifier.start (some (4, 0))).run (flows fun (_ : Unit) _ => some 7)
        [.addRule 1 (.ofDlType 2048) ()] = some s ∧
      (flows fun (_ : Unit) _ => some 7).found s.rules () 1 = true ∧
      (s.deleteRules (flows fun (_ : Unit) _ => some 7) ()).1 = 0 ∧
      ((s.deleteRules (flows fun (_ : Unit) _ => some 7) ()).2.rules 1).isSome = true := by
  have hout : ((Classifier.start (some (4, 0))).run (flows fun (_ : Unit) _ => some 7)
      [.addRule 1 (.ofDlType 2048) ()]).map (fun s =>
        ((flows fun (_ : Unit) _ => some 7).found s.rules () 1,
          (s.deleteRules (flows fun (_ : Unit) _ => some 7) ()).1,
          ((s.deleteRules (flows fun (_ : Unit) _ => some 7) ()).2.rules 1).isSome)) =
      some (true, 0, true) := by
    decide +kernel
  obtain ⟨s, hs, heq⟩ := Option.map_eq_some_iff.mp hout
  rw [Prod.mk.injEq, Prod.mk.injEq] at heq
  exact ⟨s, hs, heq⟩

end Ownership

end Nox.Classify
