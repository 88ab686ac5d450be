import Nox.Classify.Ownership

/-!
# The classifier as a list of rules

`Flat` is the classifier without its tree: a table of rules.  Every operation does
to the table of the classifier what it does to the flat one, as long as lookups
are made with data on which `get_field` and `matches` agree (`Coherent`); without
that the tree may keep a rule from the data it matches.
-/

namespace Nox.Classify

open Cnode

section Flat

/-! ## Tables of rules -/

structure Flat (Expr Action : Type) where
  rules : Nat → Option (Rule Expr Action)
  idCounter : Nat

variable {Expr Data Action : Type} (I : Interface Expr Data)

/-- What the operations mean. -/
def Flat.step (t : Flat Expr Action) : Label Expr Action Data → Flat Expr Action
  | .addRule priority expr action =>
    match getId (fun id => (t.rules id).isSome) t.idCounter with
    | (none, counter) => { t with idCounter := counter }
    | (some id, counter) =>
      ⟨Function.update t.rules id (some ⟨priority, expr, action⟩), counter⟩
  | .changeRulePriority id priority =>
    ⟨Function.update t.rules id
      ((t.rules id).map fun rule => { rule with priority := priority }), t.idCounter⟩
  | .deleteRule id => { t with rules := Function.update t.rules id none }
  | .deleteRules d =>
    { t with rules := fun id => (t.rules id).filter fun rule => !I.isMatch id rule.expr d }
  | .build => t
  | .unbuild => t
  | .clean => t

def Flat.start : Flat Expr Action where
  rules := fun _ => none
  idCounter := 1

def Classifier.flat (s : Classifier Expr Action) : Flat Expr Action :=
  ⟨s.rules, s.idCounter⟩

/-- Where a rule matches the data, the data has the value of the rule in every field
that the rule defines, or no value. -/
def Interface.Coherent (rules : Nat → Option (Rule Expr Action)) (d : Data) : Prop :=
  ∀ id rule, rules id = some rule → I.isMatch id rule.expr d = true →
    ∀ f v, I.getField rule.expr f = some v → I.values d f = [] ∨ v ∈ I.values d f

/-- The data that rules are deleted with. -/
def Flat.Meets (t : Flat Expr Action) (l : Label Expr Action Data) : Prop :=
  ∀ d, l = .deleteRules d → I.Coherent t.rules d

def Flat.Admissible : Flat Expr Action → List (Label Expr Action Data) → Prop
  | _, [] => True
  | t, l :: ls => t.Meets I l ∧ Flat.Admissible (t.step I l) ls

end Flat

section Lookup

/-! ## Looking up -/

variable {Expr Data Action : Type} {I : Interface Expr Data} {s : Classifier Expr Action}

/-- The rules that `next` returns after `get_rules`, until it returns null. -/
def Classifier.lookup (I : Interface Expr Data) (s : Classifier Expr Action) (d : Data) :
    List Nat :=
  (s.getRules I d).drain (I.view s.rules).priority (I.found s.rules d)

theorem found_iff {rules : Nat → Option (Rule Expr Action)} {d : Data} {r : Nat} :
    I.found rules d r = true ↔ ∃ rule, rules r = some rule ∧ I.isMatch r rule.expr d = true := by
  simp [Interface.found, Option.any_eq_true]

theorem getRules_sound (d : Data) (q : Nat → Bool) :
    ∀ c ∈ s.getRules I d, c.ismatch = true → q c.head = true := by
  intro c hc hb
  rw [getRules_fresh (I.nodup d) s.root c hc] at hb
  cases hb

theorem Inv.pending_nodup (h : Inv I s) (d : Data) : (s.getRules I d).pending.Nodup := by
  obtain ⟨l, hl, hsub⟩ := getRules_subperm (I.nodup d) s.root
  exact hl.nodup_iff.mp (hsub.nodup h.nodup)

/-- The rules that match are found. -/
theorem Inv.mem_pending (h : Inv I s) {d : Data} (hd : I.Coherent s.rules d) {r : Nat}
    (hr : I.found s.rules d r = true) : r ∈ (s.getRules I d).pending := by
  obtain ⟨rule, hrule, hmatch⟩ := found_iff.mp hr
  refine mem_getRules (I.nodup d) h.placed ((h.live r).mpr (by rw [hrule]; rfl)) fun f v hv => ?_
  refine hd r rule hrule hmatch f v ?_
  simpa [Interface.view, hrule] using hv

/-- The rules returned are the live ones that match, each once. -/
theorem Inv.lookup (h : Inv I s) {d : Data} (hd : I.Coherent s.rules d) :
    (s.lookup I d).Nodup ∧ ∀ id, id ∈ s.lookup I d ↔
      ∃ rule, s.rules id = some rule ∧ I.isMatch id rule.expr d = true := by
  have hperm := CnodeResult.drain_perm (I.view s.rules).priority (I.found s.rules d)
    (getRules_sound (I := I) (s := s) d (I.found s.rules d))
  refine ⟨hperm.nodup_iff.mpr ((h.pending_nodup d).filter _), fun id => ?_⟩
  rw [Classifier.lookup, hperm.mem_iff, List.mem_filter, found_iff]
  exact ⟨fun hid => hid.2, fun hid => ⟨h.mem_pending hd (found_iff.mpr hid), hid⟩⟩

/-- Their priorities are in order. -/
theorem Inv.lookup_ordered (h : Inv I s) (d : Data) :
    (s.lookup I d).Pairwise fun x y =>
      (I.view s.rules).priority x ≤ (I.view s.rules).priority y :=
  CnodeResult.drain_ordered _ _ (getRules_ordered (I.nodup d) h.ordered)
    (getRules_sound d (I.found s.rules d))

end Lookup

section Delete

/-! ## Deleting what matches -/

variable {Expr Data Action : Type} {I : Interface Expr Data} {s : Classifier Expr Action}

/-- The loop of `delete_rules` deletes the rules of the bag that match, and counts
them. -/
theorem Inv.deleteLoop (h : Inv I s) {d : Data} {n : Nat} {res : CnodeResult}
    (hsound : ∀ c ∈ res, c.ismatch = true → I.found s.rules d c.head = true)
    (hnodup : res.pending.Nodup) :
    Inv I (Classifier.deleteLoop I d s n res).2 ∧
      (Classifier.deleteLoop I d s n res).1 =
        n + (res.pending.filter (I.found s.rules d)).length ∧
      (Classifier.deleteLoop I d s n res).2.idCounter = s.idCounter ∧
      (Classifier.deleteLoop I d s n res).2.rules = fun id =>
        if id ∈ res.pending.filter (I.found s.rules d) then none else s.rules id := by
  induction s, n, res using Classifier.deleteLoop.induct I d with
  | case1 s n res res' hnext =>
    have hspec := CnodeResult.next_spec (I.view s.rules).priority (I.found s.rules d) hsound
    have hnext' : res.next (I.view s.rules).priority (I.found s.rules d) = (none, res') := hnext
    rw [hnext'] at hspec
    have heq : Classifier.deleteLoop I d s n res = (n, s) := by
      rw [Classifier.deleteLoop]
      split
      · rfl
      · next hno => exact absurd (hnext.symm.trans hno) (by simp)
    have hnone : res.pending.filter (I.found s.rules d) = [] := hspec
    rw [heq, hnone]
    exact ⟨h, rfl, rfl, by simp⟩
  | case2 s n res r res' hnext t ih =>
    have hspec := CnodeResult.next_spec (I.view s.rules).priority (I.found s.rules d) hsound
    have hnext' : res.next (I.view s.rules).priority (I.found s.rules d) = (some r, res') := hnext
    rw [hnext'] at hspec
    obtain ⟨hr, hsound', hsubperm, hfilter⟩ := hspec
    obtain ⟨hinv, hbool, hrules, hcounter⟩ := h.deleteRule r
    obtain ⟨rule, hrule, -⟩ := found_iff.mp hr
    have hdeleted : t.1 = true := by
      rw [hbool, hrule]
      rfl
    have heq : Classifier.deleteLoop I d s n res =
        Classifier.deleteLoop I d t.2 (n + 1) res' := by
      rw [Classifier.deleteLoop]
      split
      · next hno => exact absurd (hnext.symm.trans hno) (by simp)
      · next hyes =>
        cases hnext.symm.trans hyes
        exact congrArg (fun k => Classifier.deleteLoop I d t.2 k res') (if_pos hdeleted)
    simp only [dif_pos hdeleted] at ih
    have hnodup' : (r :: res'.pending).Nodup := by
      obtain ⟨l, hl, hsub⟩ := hsubperm
      exact hl.nodup_iff.mp (hsub.nodup hnodup)
    obtain ⟨hfresh, hrest⟩ := List.nodup_cons.mp hnodup'
    -- the rule deleted is not seen again
    have hfound : ∀ x ∈ res'.pending, I.found t.2.rules d x = I.found s.rules d x := by
      intro x hx
      rw [hrules, Interface.found, Interface.found,
        Function.update_of_ne (ne_of_mem_of_not_mem hx hfresh)]
    have hpending : res'.pending.filter (I.found t.2.rules d) =
        res'.pending.filter (I.found s.rules d) := List.filter_congr hfound
    obtain ⟨hinv', hcount, hcounter', hrules'⟩ := ih hinv (fun c hc hb => by
      have hmem : c.head ∈ res'.pending := List.mem_flatMap.mpr ⟨c, hc, List.mem_cons_self⟩
      rw [hfound _ hmem]
      exact hsound' c hc hb) hrest
    rw [heq]
    refine ⟨hinv', ?_, hcounter'.trans hcounter, ?_⟩
    · rw [hcount, hpending, ← hfilter.length_eq, List.length_cons]
      omega
    · rw [hrules', hpending, hrules]
      funext id
      by_cases hid : id = r
      · subst hid
        rw [if_pos (hfilter.mem_iff.mp List.mem_cons_self), Function.update_self, ite_self]
      · rw [Function.update_of_ne hid]
        refine if_congr ?_ rfl rfl
        rw [← hfilter.mem_iff, List.mem_cons]
        exact (or_iff_right hid).symm

/-- `delete_rules` deletes the live rules that match and returns how many. -/
theorem Inv.deleteRules (h : Inv I s) (d : Data) :
    Inv I (s.deleteRules I d).2 ∧ (s.deleteRules I d).2.idCounter = s.idCounter ∧
      (I.Coherent s.rules d →
        (s.deleteRules I d).1 = (s.lookup I d).length ∧
        (s.deleteRules I d).2.rules = fun id =>
          (s.rules id).filter fun rule => !I.isMatch id rule.expr d) := by
  obtain ⟨hinv, hcount, hcounter, hrules⟩ := h.deleteLoop (n := 0)
    (getRules_sound d (I.found s.rules d)) (h.pending_nodup d)
  refine ⟨hinv, hcounter, fun hd => ⟨?_, ?_⟩⟩
  · have hperm := CnodeResult.drain_perm (I.view s.rules).priority (I.found s.rules d)
      (getRules_sound (I := I) (s := s) d (I.found s.rules d))
    rw [Classifier.lookup, hperm.length_eq]
    exact hcount.trans (Nat.zero_add _)
  · refine hrules.trans (funext fun id => ?_)
    cases hid : s.rules id with
    | none => simp
    | some rule =>
      by_cases hmatch : I.isMatch id rule.expr d = true
      · have hfound : I.found s.rules d id = true := found_iff.mpr ⟨rule, hid, hmatch⟩
        rw [if_pos (List.mem_filter.mpr ⟨h.mem_pending hd hfound, hfound⟩)]
        simp [Option.filter, hmatch]
      · rw [if_neg]
        · simp [Option.filter, hmatch]
        · intro hmem
          obtain ⟨rule', hrule', hmatch'⟩ := found_iff.mp (List.mem_filter.mp hmem).2
          cases hid.symm.trans hrule'
          exact hmatch hmatch'

end Delete

section Run

/-! ## Runs -/

variable {Expr Data Action : Type} {I : Interface Expr Data}

/-- Every operation returns and keeps the invariant. -/
theorem Inv.step {s : Classifier Expr Action} (h : Inv I s) (l : Label Expr Action Data) :
    ∃ s', s.step I l = some s' ∧ Inv I s' ∧ (s.flat.Meets I l → s'.flat = s.flat.step I l) := by
  cases l with
  | addRule priority expr action =>
    refine ⟨_, rfl, h.addRule priority expr action, fun _ => ?_⟩
    simp only [Classifier.addRule, Classifier.flat, Flat.step]
    obtain ⟨_ | id, counter⟩ := getId (fun id => (s.rules id).isSome) s.idCounter
    · rfl
    · rfl
  | changeRulePriority id priority =>
    obtain ⟨hinv, -, hrules, hcounter⟩ := h.changeRulePriority id priority
    exact ⟨_, rfl, hinv, fun _ => by rw [Classifier.flat, hrules, hcounter]; rfl⟩
  | deleteRule id =>
    obtain ⟨hinv, -, hrules, hcounter⟩ := h.deleteRule id
    exact ⟨_, rfl, hinv, fun _ => by rw [Classifier.flat, hrules, hcounter]; rfl⟩
  | deleteRules d =>
    obtain ⟨hinv, hcounter, hspec⟩ := h.deleteRules d
    refine ⟨_, rfl, hinv, fun hmeets => ?_⟩
    rw [Classifier.flat, (hspec (hmeets d rfl)).2, hcounter]
    rfl
  | build =>
    obtain ⟨s', hs⟩ := Option.isSome_iff_exists.mp h.build_isSome
    obtain ⟨hinv, hrules, hcounter⟩ := h.build hs
    exact ⟨s', hs, hinv, fun _ => by rw [Classifier.flat, hrules, hcounter]; rfl⟩
  | unbuild =>
    obtain ⟨hinv, hrules, hcounter⟩ := h.unbuild
    exact ⟨_, rfl, hinv, fun _ => by rw [Classifier.flat, hrules, hcounter]; rfl⟩
  | clean => exact ⟨_, rfl, h.clean, fun _ => rfl⟩

theorem Inv.run {s : Classifier Expr Action} (h : Inv I s) (ls : List (Label Expr Action Data)) :
    ∃ s', s.run I ls = some s' ∧ Inv I s' ∧
      (s.flat.Admissible I ls → s'.flat = ls.foldl (Flat.step I) s.flat) := by
  induction ls generalizing s with
  | nil => exact ⟨s, rfl, h, fun _ => rfl⟩
  | cons l ls ih =>
    obtain ⟨s₁, hs₁, hinv₁, hflat₁⟩ := h.step l
    obtain ⟨s', hs', hinv', hflat'⟩ := ih hinv₁
    refine ⟨s', ?_, hinv', fun hadm => ?_⟩
    · rw [Classifier.run, List.foldlM_cons, hs₁]
      exact hs'
    · have hstep := hflat₁ hadm.1
      rw [hflat' (hstep ▸ hadm.2), hstep]
      rfl

end Run

end Nox.Classify
