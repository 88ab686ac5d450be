import Nox.Classify.Failure
import Nox.Classify.Flat

/-!
# A tree with an empty node more

The node that `add_rule` makes and cannot fill is not noticed: lookups go by the lists that
are not empty, and what is deleted is somewhere else.
-/

namespace Nox.Classify

open Cnode

section Grown

/-! ## The empty node -/

/-- The second tree has an empty node more. -/
inductive Grown : Cnode → Cnode → Prop
  | child {a v : Nat} {rs : List Nat} {f : Nat} {bs : List (List Cnode)} {any : Option Cnode}
      {i : Nat} {l₁ l₂ : List Cnode} {c c' : Cnode} (hch : bs[i]? = some (l₁ ++ c :: l₂))
      (hc : Grown c c') :
    Grown (.split a v rs f bs any) (.split a v rs f (bs.set i (l₁ ++ c' :: l₂)) any)
  | newChild {a v : Nat} {rs : List Nat} {f : Nat} {bs : List (List Cnode)} {any : Option Cnode}
      {i : Nat} {ch : List Cnode} {fresh x : Nat} (hch : bs[i]? = some ch)
      (hx : ∀ c ∈ ch, c.value ≠ x) :
    Grown (.split a v rs f bs any) (.split a v rs f (bs.set i (.leaf fresh x [] :: ch)) any)
  | anyNode {a v : Nat} {rs : List Nat} {f : Nat} {bs : List (List Cnode)} {c c' : Cnode}
      (hc : Grown c c') :
    Grown (.split a v rs f bs (some c)) (.split a v rs f bs (some c'))
  | newAny {a v : Nat} {rs : List Nat} {f : Nat} {bs : List (List Cnode)} {fresh x : Nat} :
    Grown (.split a v rs f bs none) (.split a v rs f bs (some (.leaf fresh x [])))

theorem Grown.value {c c' : Cnode} (h : Grown c c') : c'.value = c.value := by
  cases h <;> rfl

theorem Grown.rules {c c' : Cnode} (h : Grown c c') : c'.rules = c.rules := by
  cases h <;> rfl

/-- A rule is taken from the node that was made for it. -/
theorem Added.emptied {V : View} {r fresh t : Nat} {c c' : Cnode} (h : Added V r fresh c c' t)
    (ht : t = fresh) (hfresh : fresh ∉ c.addrs) : Grown c (c'.atAddr fresh fun _ => []) := by
  have hother : ∀ {l : List Cnode}, (∀ d ∈ l, fresh ∉ d.addrs) →
      l.map (fun d => d.atAddr fresh fun _ => []) = l := fun h =>
    (List.map_congr_left fun d hd => atAddr_of_notMem (h d hd)).trans (List.map_id _)
  induction h with
  | leaf => exact absurd (ht ▸ List.mem_singleton_self _) hfresh
  | here =>
    rw [addrs_eq] at hfresh
    exact absurd (ht ▸ List.mem_cons_self) hfresh
  | @child a v rs f bs any i l₁ l₂ c c' t hch hfield hc ih =>
    have hbelow : ∀ d ∈ l₁ ++ c :: l₂, fresh ∉ d.addrs := by
      intro d hd hmem
      have hflat : d ∈ bs.flatten := List.mem_flatten.mpr ⟨_, List.mem_of_getElem? hch, hd⟩
      rw [addrs_eq] at hfresh
      exact hfresh (List.mem_cons_of_mem _
        (List.mem_flatMap.mpr ⟨d, List.mem_append_left _ hflat, hmem⟩))
    rw [atAddr_split hfresh, List.map_append, List.map_cons,
      hother fun d hd => hbelow d (List.mem_append_left _ hd),
      hother fun d hd => hbelow d (List.mem_append_right _ (List.mem_cons_of_mem _ hd))]
    exact .child hch (ih ht (hbelow c (by simp)))
  | @newChild a v rs f bs any x ch hch hfield hx =>
    have hbelow : ∀ d ∈ ch, fresh ∉ d.addrs := by
      intro d hd hmem
      have hflat : d ∈ bs.flatten := List.mem_flatten.mpr ⟨_, List.mem_of_getElem? hch, hd⟩
      rw [addrs_eq] at hfresh
      exact hfresh (List.mem_cons_of_mem _
        (List.mem_flatMap.mpr ⟨d, List.mem_append_left _ hflat, hmem⟩))
    rw [atAddr_split hfresh, List.map_cons, hother hbelow, Cnode.atAddr, if_pos rfl]
    exact .newChild hch hx
  | @anyNode a v rs f bs c c' t hfield hc ih =>
    have hsame := atAddr_of_notMem (g := fun _ => []) hfresh
    rw [Cnode.atAddr] at hsame ⊢
    obtain ⟨-, -, hrs, -, hbs, -⟩ := Cnode.split.inj hsame
    rw [hrs, hbs, atAddrAny_eq, Option.map_some]
    refine .anyNode (ih ht fun hmem => hfresh ?_)
    rw [addrs_eq]
    exact List.mem_cons_of_mem _ (List.mem_flatMap.mpr ⟨c, by simp [children], hmem⟩)
  | @newAny a v rs f bs hfield =>
    have hsame := atAddr_of_notMem (g := fun _ => []) hfresh
    rw [Cnode.atAddr] at hsame ⊢
    obtain ⟨-, -, hrs, -, hbs, -⟩ := Cnode.split.inj hsame
    rw [hrs, hbs, atAddrAny_eq, Option.map_some, Cnode.atAddr, if_pos rfl]
    exact .newAny

theorem Placed.tryAddRule_grown {V : View} {r fresh : Nat} {c : Cnode}
    (h : Placed V (fun _ => True) c) (hfresh : fresh ∉ c.addrs) {path n : Nat}
    (hnone : (c.tryAddRule V r fresh path n).2 = none) :
    c = (c.tryAddRule V r fresh path n).1 ∨ Grown c (c.tryAddRule V r fresh path n).1 := by
  have htried := h.tried (r := r) hfresh path n
  generalize c.tryAddRule V r fresh path n = t at htried hnone
  cases htried with
  | added k => cases hnone
  | kept => exact .inl rfl
  | hollow hnew => exact .inr ((h.added path).emptied hnew hfresh)

/-- The lists are changed in both. -/
theorem Grown.atAddr {c c' : Cnode} (h : Grown c c') (addr : Nat) {g : List Nat → List Nat}
    (hg : g [] = []) : Grown (c.atAddr addr g) (c'.atAddr addr g) := by
  have hempty : ∀ fresh x, (Cnode.leaf fresh x []).atAddr addr g = .leaf fresh x [] := by
    intro fresh x
    rw [Cnode.atAddr, hg, ite_self]
  induction h with
  | child hch hc ih =>
    rw [Cnode.atAddr, Cnode.atAddr, atAddrBuckets_eq, atAddrBuckets_eq, List.map_set,
      List.map_append, List.map_cons]
    refine .child ?_ ih
    rw [List.getElem?_map, hch, Option.map_some, List.map_append, List.map_cons]
  | newChild hch hx =>
    rw [Cnode.atAddr, Cnode.atAddr, atAddrBuckets_eq, atAddrBuckets_eq, List.map_set,
      List.map_cons, hempty]
    refine .newChild ?_ fun d hd => ?_
    · rw [List.getElem?_map, hch, Option.map_some]
    · obtain ⟨c, hc, rfl⟩ := List.mem_map.mp hd
      rw [value_atAddr]
      exact hx c hc
  | anyNode hc ih => exact .anyNode ih
  | newAny =>
    rw [Cnode.atAddr, Cnode.atAddr, atAddrAny_eq, atAddrAny_eq, Option.map_none, Option.map_some,
      hempty]
    exact .newAny

end Grown

section Padded

/-! ## Lookups -/

/-- The nodes of the second list are those of the first, and some that are empty. -/
inductive Padded : List Cnode → List Cnode → Prop
  | nil : Padded [] []
  | cons {c c' : Cnode} {l l' : List Cnode} (hc : c = c' ∨ Grown c c') (h : Padded l l') :
    Padded (c :: l) (c' :: l')
  | skip {a v : Nat} {l l' : List Cnode} (h : Padded l l') : Padded l (.leaf a v [] :: l')

theorem Padded.refl (l : List Cnode) : Padded l l := by
  induction l with
  | nil => exact .nil
  | cons c l ih => exact .cons (.inl rfl) ih

theorem Padded.append {l₁ l₁' l₂ l₂' : List Cnode} (h₁ : Padded l₁ l₁') (h₂ : Padded l₂ l₂') :
    Padded (l₁ ++ l₂) (l₁' ++ l₂') := by
  induction h₁ with
  | nil => exact h₂
  | cons hc _ ih => exact .cons hc ih
  | skip _ ih => exact .skip ih

theorem Padded.reverse {l l' : List Cnode} (h : Padded l l') : Padded l.reverse l'.reverse := by
  induction h with
  | nil => exact .nil
  | cons hc _ ih =>
    rw [List.reverse_cons, List.reverse_cons]
    exact ih.append (.cons hc .nil)
  | @skip a v l l' _ ih =>
    rw [List.reverse_cons, ← List.append_nil l.reverse]
    exact ih.append (.skip .nil)

theorem padded_flatten {bs : List (List Cnode)} {i : Nat} {ch ch' : List Cnode}
    (hch : bs[i]? = some ch) (h : Padded ch ch') : Padded bs.flatten (bs.set i ch').flatten := by
  induction bs generalizing i with
  | nil => cases hch
  | cons ch₀ bs ih =>
    cases i with
    | zero =>
      cases hch
      exact h.append (.refl _)
    | succ i => exact Padded.append (.refl ch₀) (ih hch)

theorem padded_filterMap {xs : List Nat} {g g' : Nat → Option Cnode}
    (h : ∀ x, Padded (g x).toList (g' x).toList) : Padded (xs.filterMap g) (xs.filterMap g') := by
  have hcons : ∀ (g : Nat → Option Cnode) (x : Nat) (xs : List Nat),
      (x :: xs).filterMap g = (g x).toList ++ xs.filterMap g := by
    intro g x xs
    rw [List.filterMap_cons]
    cases g x <;> rfl
  induction xs with
  | nil => exact .nil
  | cons x xs ih =>
    rw [hcons, hcons]
    exact (h x).append ih

variable {vals : Nat → List Nat}

/-- A bucket with an empty node more. -/
theorem pushed_set {a v : Nat} {rs : List Nat} {f : Nat} {bs : List (List Cnode)}
    {any : Option Cnode} {i : Nat} {ch ch' : List Cnode} (hch : bs[i]? = some ch)
    (h : Padded ch ch')
    (hfind : ∀ x, Padded (ch.find? fun c => c.value == x).toList
      (ch'.find? fun c => c.value == x).toList) :
    Padded ((Cnode.split a v rs f bs any).pushed vals)
      ((Cnode.split a v rs f (bs.set i ch') any).pushed vals) := by
  refine Padded.append (.refl _) ?_
  split
  · exact padded_flatten hch h
  · refine padded_filterMap fun x => ?_
    rw [List.length_set, List.getD_eq_getElem?_getD, List.getD_eq_getElem?_getD,
      List.getElem?_set]
    split
    · next hi =>
      subst hi
      rw [if_pos (List.getElem?_eq_some_iff.mp hch).1, hch]
      exact hfind x
    · exact .refl _

theorem Grown.pushed {c c' : Cnode} (h : Grown c c') : Padded (c.pushed vals) (c'.pushed vals) := by
  cases h with
  | child hch hc =>
    refine pushed_set hch (Padded.append (.refl _) (.cons (.inr hc) (.refl _))) fun x => ?_
    rw [List.find?_append, List.find?_append, List.find?_cons, List.find?_cons, hc.value]
    cases List.find? _ _ with
    | some d => exact .refl _
    | none =>
      simp only [Option.none_or]
      split
      · exact .cons (.inr hc) .nil
      · exact .refl _
  | @newChild a v rs f bs any i ch fresh y hch hx =>
    refine pushed_set hch (.skip (.refl _)) fun x => ?_
    rw [List.find?_cons]
    split
    · next hvalue =>
      have hnone : (ch.find? fun c => c.value == x) = none := by
        refine List.find?_eq_none.mpr fun c hc heq => hx c hc ?_
        have hx : c.value = x := beq_iff_eq.mp heq
        have hy : y = x := beq_iff_eq.mp hvalue
        exact hx.trans hy.symm
      rw [hnone]
      exact .skip .nil
    · exact .refl _
  | anyNode hc => exact Padded.append (.cons (.inr hc) .nil) (.refl _)
  | newAny => exact Padded.append (.skip .nil) (.refl _)

/-- An empty node is passed. -/
theorem getRulesLoop_padded (hvals : ∀ f, (vals f).Nodup) {stack stack' : List Cnode}
    {res : CnodeResult} (h : Padded stack stack') :
    getRulesLoop vals hvals stack' res = getRulesLoop vals hvals stack res := by
  induction stack', res using getRulesLoop.induct vals hvals generalizing stack with
  | case1 res =>
    cases h
    rfl
  | case2 c' stack' res ih =>
    rw [getRulesLoop]
    cases h with
    | @cons c _ l _ hc h =>
      have hpushed : Padded (c.pushed vals) (c'.pushed vals) := by
        rcases hc with rfl | hc
        · exact .refl _
        · exact hc.pushed
      have hrules : c'.rules = c.rules := by
        rcases hc with rfl | hc
        · rfl
        · exact hc.rules
      rw [ih (hpushed.reverse.append h), hrules, getRulesLoop.eq_def _ _ (c :: l)]
    | skip h => exact ih h

end Padded

section Alike

/-! ## The classifier -/

variable {Expr Data Action : Type} {I : Interface Expr Data} {s s' : Classifier Expr Action}

/-- The same rules in the same nodes, one of which may be empty and new. -/
structure Alike (s s' : Classifier Expr Action) : Prop where
  rules : s'.rules = s.rules
  root : s.root = s'.root ∨ Grown s.root s'.root
  node : s'.memory.node = s.memory.node

theorem Alike.lookup (h : Alike s s') (d : Data) : s'.lookup I d = s.lookup I d := by
  have hres : s'.getRules I d = s.getRules I d :=
    getRulesLoop_padded (I.nodup d) (.cons h.root .nil)
  rw [Classifier.lookup, Classifier.lookup, hres, h.rules]

theorem Alike.deleteRule (h : Alike s s') (id : Nat) :
    (s'.deleteRule id).1 = (s.deleteRule id).1 ∧
      Alike (s.deleteRule id).2 (s'.deleteRule id).2 := by
  rw [Classifier.deleteRule, Classifier.deleteRule, h.rules]
  split
  · exact ⟨rfl, h⟩
  · rw [h.node]
    refine ⟨rfl, ⟨rfl, ?_, rfl⟩⟩
    split
    · exact h.root
    · rcases h.root with heq | hgrown
      · exact .inl (by rw [heq])
      · exact .inr (hgrown.atAddr _ rfl)

end Alike

end Nox.Classify
