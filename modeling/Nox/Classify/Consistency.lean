import Nox.Classify.Answers
import Nox.Classify.Grown
import Nox.Classify.Interrupted

/-!
# The classifier after a failure

Every operation that allocates keeps the invariant when it throws (`Inv.attempt`), and the
table of rules.  After `add_rule` and `unbuild` have thrown, deletions and lookups cannot tell
that they were called; `build` keeps what it has built, and rules of one priority may be found
in another order (`attempt_thrown`, `reordered`).
-/

namespace Nox.Classify

open Cnode

variable {Expr Data Action : Type} {I : Interface Expr Data} {s s' : Classifier Expr Action}

section Operations

/-! ## One operation -/

theorem Inv.pointed (h : Inv I s) : Pointed [s.root] s.memory where
  nodup := by
    rw [List.flatMap_singleton]
    exact h.nodup
  node := by
    rw [List.flatMap_singleton]
    exact h.node

/-- What an operation that throws leaves. -/
structure Withdrawn (I : Interface Expr Data) (l : Label Expr Action Data)
    (s s' : Classifier Expr Action) : Prop where
  inv : Inv I s'
  rules : s'.rules = s.rules
  alike : l ≠ .build → Alike s s'

/-- With `add_rule` the rule is in the table and in the tree, or in neither. -/
theorem Inv.tryAddRule (h : Inv I s) (priority : Nat) (expr : Expr) (action : Action) (n : Nat) :
    s.tryAddRule I priority expr action n = ((s.addRule I priority expr action).2, false) ∨
      ∃ s', s.tryAddRule I priority expr action n = (s', true) ∧
        Withdrawn I (.addRule priority expr action) s s' := by
  have hrange : 1 ≤ (getId (fun id => (s.rules id).isSome) s.idCounter).2 ∧
      (getId (fun id => (s.rules id).isSome) s.idCounter).2 < 2 ^ 32 :=
    getId_range h.counter.1 h.counter.2
  unfold Classifier.tryAddRule Classifier.addRule
  generalize hid : getId (fun id => (s.rules id).isSome) s.idCounter = t at hrange
  obtain ⟨_ | id, counter⟩ := t
  · exact .inr ⟨_, rfl, { h with counter := hrange }, rfl, fun _ => ⟨rfl, .inl rfl, rfl⟩⟩
  · match n with
    | 0 => exact .inr ⟨_, rfl, { h with counter := hrange }, rfl, fun _ => ⟨rfl, .inl rfl, rfl⟩⟩
    | 1 => exact .inr ⟨_, rfl, { h with counter := hrange }, rfl, fun _ => ⟨rfl, .inl rfl, rfl⟩⟩
    | n + 2 =>
      have hunused := getId_unused (congrArg Prod.fst hid)
      have hne : ∀ r ∈ s.root.allRules, r ≠ id := by
        rintro r hr rfl
        have hsome := (h.live r).mp hr
        rw [hunused] at hsome
        cases hsome
      have hfresh : s.memory.next ∉ s.root.addrs := fun hmem => Nat.lt_irrefl _ (h.fresh _ hmem)
      simp only
      set V' := I.view (Function.update s.rules id (some ⟨priority, expr, action⟩))
      have hplaced : Placed V' (fun _ => True) s.root :=
        h.placed.congr (fun _ _ hp => hp) fun r hr => getField_update _ _ _ (hne r hr)
      have hordered : s.root.Ordered V' :=
        h.ordered.congr fun r hr => priority_update _ _ _ (hne r hr)
      have hsome : ∀ {a k}, (s.root.tryAddRule V' id s.memory.next 0 n).2 = some (a, k) → _ :=
        hplaced.tryAddRule_some hfresh
      have hnone : (s.root.tryAddRule V' id s.memory.next 0 n).2 = none → _ :=
        hplaced.tryAddRule_none hfresh
      have hgrown : (s.root.tryAddRule V' id s.memory.next 0 n).2 = none → _ :=
        hplaced.tryAddRule_grown hfresh
      generalize s.root.tryAddRule V' id s.memory.next 0 n = t at hsome hnone hgrown
      obtain ⟨c, _ | ⟨a, k⟩⟩ := t
      · have hsame := hnone rfl
        have hrules : c.allRules.Perm s.root.allRules := hsame.entries.map Prod.snd
        have hne' : ∀ r ∈ c.allRules, r ≠ id := fun r hr => hne r (hrules.mem_iff.mp hr)
        refine .inr ⟨_, rfl, ⟨?_, ?_, hrules.nodup_iff.mpr h.nodup, fun x => ?_, fun e he => ?_,
          ?_, fun a ha => ?_, hrange⟩, rfl, fun _ => ⟨rfl, hgrown rfl, rfl⟩⟩
        · exact (hsame.placed hplaced).congr (fun _ _ hp => hp)
            fun r hr => (getField_update _ _ _ (hne' r hr)).symm
        · exact (hsame.ordered hordered).congr fun r hr => (priority_update _ _ _ (hne' r hr)).symm
        · exact hrules.mem_iff.trans (h.live x)
        · exact h.node e (hsame.entries.mem_iff.mp he)
        · rcases hsame.addrs with hperm | hperm
          · exact hperm.nodup_iff.mpr h.addrs
          · exact hperm.nodup_iff.mpr (h.addrs.cons hfresh)
        · rcases hsame.addrs with hperm | hperm
          · exact Nat.lt_succ_of_lt (h.fresh a (hperm.mem_iff.mp ha))
          · rcases List.mem_cons.mp (hperm.mem_iff.mp ha) with rfl | ha
            · exact Nat.lt_succ_self _
            · exact Nat.lt_succ_of_lt (h.fresh a ha)
      · obtain ⟨hc, ha⟩ := hsome rfl
        simp only at hc
        subst hc ha
        exact .inl rfl

/-- `build` is done, or what has been built stays. -/
theorem Inv.tryBuild (h : Inv I s) (n : Nat) :
    (∃ s', s.attempt I n .build = some (s', false) ∧ s.build I = some s') ∨
      ∃ s', s.attempt I n .build = some (s', true) ∧ Withdrawn I .build s s' := by
  obtain ⟨t, ht⟩ := Option.isSome_iff_exists.mp h.build_isSome
  have hfollows : Follows (I.view s.rules) false [s.root] s.memory (fun c => [c])
      (s.root.build (I.view s.rules) (s.root.size + I.numFields) 0 false s.memory)
      (s.root.tryBuild (I.view s.rules) (s.root.size + I.numFields) 0 false s.memory n) :=
    tryBuild_follows h.fresh n
  rw [Classifier.attempt]
  rw [Classifier.build] at ht ⊢
  generalize s.root.build _ _ _ _ _ = p at hfollows ht
  generalize s.root.tryBuild _ _ _ _ _ _ = q at hfollows
  cases hfollows with
  | done c m k => exact .inl ⟨_, rfl, rfl⟩
  | thrown _ c m hleft =>
    exact .inr ⟨_, rfl, h.rebuilds (hleft.rebuilds rfl h.pointed), rfl, fun hno => absurd rfl hno⟩
  | stuck => cases ht

theorem Inv.tryUnbuild (h : Inv I s) (n : Nat) :
    s.attempt I n .unbuild = some (s.unbuild I, false) ∨
      ∃ s', s.attempt I n .unbuild = some (s', true) ∧ Withdrawn I .unbuild s s' := by
  rw [Classifier.attempt, Classifier.unbuild]
  rcases tryUnbuild_spec (V := I.view s.rules) h.fresh h.pointed n with
    ⟨k, heq⟩ | ⟨m, heq, hnext, hnode⟩
  · rw [heq]
    exact .inl rfl
  · rw [heq]
    exact .inr ⟨_, rfl, h.rebuilds (.used [s.root] hnext hnode), rfl,
      fun _ => ⟨rfl, .inl rfl, hnode⟩⟩

/-- An operation is done, or withdrawn. -/
theorem Inv.attempt (h : Inv I s) (l : Label Expr Action Data) (n : Nat) :
    (∃ s', s.attempt I n l = some (s', false) ∧ s.step I l = some s') ∨
      ∃ s', s.attempt I n l = some (s', true) ∧ Withdrawn I l s s' := by
  have hdone : ∀ {t : Option (Classifier Expr Action × Bool)},
      t = (s.step I l).map (·, false) → (∃ s', t = some (s', false) ∧ s.step I l = some s') := by
    intro t ht
    obtain ⟨s', hs', -⟩ := h.step l
    exact ⟨s', by rw [ht, hs']; rfl, hs'⟩
  cases l with
  | addRule priority expr action =>
    rcases h.tryAddRule priority expr action n with heq | ⟨s', heq, hwithdrawn⟩
    · exact .inl ⟨_, congrArg some heq, rfl⟩
    · exact .inr ⟨s', congrArg some heq, hwithdrawn⟩
  | changeRulePriority id priority => exact .inl (hdone rfl)
  | deleteRule id => exact .inl (hdone rfl)
  | deleteRules d => exact .inl (hdone rfl)
  | build => exact h.tryBuild n
  | unbuild =>
    rcases h.tryUnbuild n with heq | hthrown
    · exact .inl ⟨_, heq, rfl⟩
    · exact .inr hthrown
  | clean => exact .inl (hdone rfl)

theorem Inv.attempts (h : Inv I s) (ls : List (Label Expr Action Data × Nat)) :
    ∃ s', s.attempts I ls = some s' ∧ Inv I s' := by
  induction ls generalizing s with
  | nil => exact ⟨s, rfl, h⟩
  | cons l ls ih =>
    have hone : ∃ t, s.attempt I l.2 l.1 = some t ∧ Inv I t.1 := by
      rcases h.attempt l.1 l.2 with ⟨s', heq, hstep⟩ | ⟨s', heq, hwithdrawn⟩
      · obtain ⟨s'', hs'', hinv, -⟩ := h.step l.1
        cases hstep.symm.trans hs''
        exact ⟨_, heq, hinv⟩
      · exact ⟨_, heq, hwithdrawn.inv⟩
    obtain ⟨⟨t, b⟩, ht, hinv⟩ := hone
    obtain ⟨s', hs', hinv'⟩ := ih hinv
    refine ⟨s', ?_, hinv'⟩
    rw [Classifier.attempts, List.foldlM_cons, ht]
    exact hs'

end Operations

section Later

/-! ## What is seen of a failure -/

/-- `delete_rule` for one id after the other, and what the calls return. -/
def Classifier.deleteAll (s : Classifier Expr Action) : List Nat → List Bool × Classifier Expr Action
  | [] => ([], s)
  | id :: ids =>
    let t := (s.deleteRule id).2.deleteAll ids
    ((s.deleteRule id).1 :: t.1, t.2)

/-- What deletions return goes by the table of rules. -/
theorem Inv.deleteAll (h : Inv I s) (h' : Inv I s') (hrules : s'.rules = s.rules)
    (ids : List Nat) :
    Inv I (s.deleteAll ids).2 ∧ Inv I (s'.deleteAll ids).2 ∧
      (s'.deleteAll ids).1 = (s.deleteAll ids).1 ∧
      (s'.deleteAll ids).2.rules = (s.deleteAll ids).2.rules := by
  induction ids generalizing s s' with
  | nil => exact ⟨h, h', rfl, hrules⟩
  | cons id ids ih =>
    obtain ⟨hinv, hbool, htable, -⟩ := h.deleteRule id
    obtain ⟨hinv', hbool', htable', -⟩ := h'.deleteRule id
    obtain ⟨hlast, hlast', hbools, hfinal⟩ := ih hinv hinv' (by rw [htable, htable', hrules])
    refine ⟨hlast, hlast', ?_, hfinal⟩
    rw [Classifier.deleteAll, Classifier.deleteAll, hbools, hbool, hbool', hrules]

theorem Alike.deleteAll (h : Alike s s') (ids : List Nat) :
    Alike (s.deleteAll ids).2 (s'.deleteAll ids).2 := by
  induction ids generalizing s s' with
  | nil => exact h
  | cons id ids ih => exact ih (h.deleteRule id).2

/-- Lookups with the same table find the same rules. -/
theorem Inv.lookup_perm (h : Inv I s) (h' : Inv I s') (hrules : s'.rules = s.rules) {d : Data}
    (hd : I.Coherent s.rules d) : (s'.lookup I d).Perm (s.lookup I d) := by
  obtain ⟨hnodup, hmem⟩ := h.lookup hd
  obtain ⟨hnodup', hmem'⟩ := h'.lookup (hrules ▸ hd : I.Coherent s'.rules d)
  refine (List.perm_ext_iff_of_nodup hnodup' hnodup).mpr fun id => ?_
  rw [hmem, hmem', hrules]

/-- When an operation throws, every live rule is still in the list of the node it points at,
the lists are in order, and later deletions and lookups go as if it had not been called, up to
the order of rules of one priority after `build`. -/
theorem attempt_thrown (I : Interface Expr Data) (forced : Option (Nat × Nat))
    (ls : List (Label Expr Action Data × Nat)) (l : Label Expr Action Data) (n : Nat)
    {s s' : Classifier Expr Action} (hs : (Classifier.start forced).attempts I ls = some s)
    (hthrown : s.attempt I n l = some (s', true)) :
    s'.rules = s.rules ∧ s'.root.allRules.Perm s.root.allRules ∧ s'.Owned ∧
      s'.root.Ordered (I.view s'.rules) ∧
      ∀ ids, (s'.deleteAll ids).1 = (s.deleteAll ids).1 ∧
        (s'.deleteAll ids).2.rules = (s.deleteAll ids).2.rules ∧ (s'.deleteAll ids).2.Owned ∧
        ∀ d, (l ≠ .build → (s'.deleteAll ids).2.lookup I d = (s.deleteAll ids).2.lookup I d) ∧
          ((s'.deleteAll ids).2.lookup I d).Pairwise (fun x y =>
            (I.view (s'.deleteAll ids).2.rules).priority x ≤
              (I.view (s'.deleteAll ids).2.rules).priority y) ∧
          (I.Coherent (s.deleteAll ids).2.rules d → ((s'.deleteAll ids).2.lookup I d).Nodup ∧
            ((s'.deleteAll ids).2.lookup I d).Perm ((s.deleteAll ids).2.lookup I d)) := by
  obtain ⟨s₀, hs₀, hinv⟩ := (inv_start (I := I) forced).attempts ls
  cases hs.symm.trans hs₀
  obtain ⟨hinv', hrules, halike⟩ : Withdrawn I l s s' := by
    rcases hinv.attempt l n with ⟨s₁, heq, -⟩ | ⟨s₁, heq, hwithdrawn⟩
    · cases hthrown.symm.trans heq
    · cases hthrown.symm.trans heq
      exact hwithdrawn
  have hall : s'.root.allRules.Perm s.root.allRules :=
    (List.perm_ext_iff_of_nodup hinv'.nodup hinv.nodup).mpr fun id => by
      rw [hinv'.live, hinv.live, hrules]
  refine ⟨hrules, hall, hinv'.owned, hinv'.ordered, fun ids => ?_⟩
  obtain ⟨hlast, hlast', hbools, htable⟩ := hinv.deleteAll hinv' hrules ids
  refine ⟨hbools, htable, hlast'.owned, fun d => ⟨fun hl => ?_, hlast'.lookup_ordered d,
    fun hd => ⟨?_, hlast.lookup_perm hlast' htable hd⟩⟩⟩
  · exact ((halike hl).deleteAll ids).lookup d
  · exact (hlast'.lookup (htable ▸ hd : I.Coherent (s'.deleteAll ids).2.rules d)).1

/-- An expression for an ethernet type and a protocol. -/
def PacketExpr.ofProto (dlProto nwProto : Nat) : PacketExpr :=
  { PacketExpr.ofDlType dlProto with
    nwProto := nwProto
    wildcards := 2 ^ 32 - 1 - 2 ^ 4 - 2 ^ 9 }

/-- Two nodes that can be split, in one bucket of a root that is split from the start. -/
def twoTypes : List (Label PacketExpr Unit PacketExpr × Nat) :=
  [(.addRule 5 (.ofProto 2048 1) (), 4), (.addRule 5 (.ofProto 2048 2) (), 4),
    (.addRule 5 (.ofProto 2054 1) (), 4), (.addRule 5 (.ofProto 2054 2) (), 4),
    (.addRule 5 (.ofProto 2054 1) (), 4)]

/-- The first node is split, and memory runs out for the second one. -/
theorem twoTypes_thrown :
    ∃ s s', (Classifier.start (some (4, 0))).attempts packetExprs twoTypes = some s ∧
      s.attempt packetExprs 9 .build = some (s', true) ∧ s'.Owned ∧
      ∀ d, (s'.lookup packetExprs d).Perm (s.lookup packetExprs d) := by
  have hrun : ((Classifier.start (some (4, 0))).attempts packetExprs twoTypes).bind (fun s =>
      (s.attempt packetExprs 9 .build).map fun t => t.2) = some true := by
    decide +kernel
  obtain ⟨s, hs, hbuild⟩ := Option.bind_eq_some_iff.mp hrun
  obtain ⟨⟨s', b⟩, hs', rfl⟩ := Option.map_eq_some_iff.mp hbuild
  obtain ⟨-, -, howned, -, hlater⟩ :=
    attempt_thrown packetExprs (some (4, 0)) twoTypes .build 9 hs hs'
  refine ⟨s, s', hs, hs', howned, fun d => ?_⟩
  exact (((hlater []).2.2.2 d).2.2 (packetExprs_coherent _ d)).2

/-- The rules of the node that has been split are found in another order. -/
theorem reordered :
    ∃ s s', (Classifier.start (some (4, 0))).attempts packetExprs twoTypes = some s ∧
      s.attempt packetExprs 9 .build = some (s', true) ∧
      s.lookup packetExprs (.ofDlType 2054) = [5, 4, 3] ∧
      s'.lookup packetExprs (.ofDlType 2054) = [4, 3, 5] := by
  have hrun : ((Classifier.start (some (4, 0))).attempts packetExprs twoTypes).bind (fun s =>
      (s.attempt packetExprs 9 .build).map fun t =>
        (t.2, s.lookup packetExprs (.ofDlType 2054), t.1.lookup packetExprs (.ofDlType 2054))) =
      some (true, [5, 4, 3], [4, 3, 5]) := by
    decide +kernel
  obtain ⟨s, hs, hbuild⟩ := Option.bind_eq_some_iff.mp hrun
  obtain ⟨⟨s', b⟩, hs', heq⟩ := Option.map_eq_some_iff.mp hbuild
  rw [Prod.mk.injEq, Prod.mk.injEq] at heq
  obtain ⟨rfl, hbefore, hafter⟩ := heq
  exact ⟨s, s', hs, hs', hbefore, hafter⟩

end Later

end Nox.Classify
