import Nox.Classify.Nodes

/-!
# Where the rules are

`Placed` is the invariant of a tree that makes lookups work: below a node split on
a field, the child for a value holds rules with this value of the field, the child
for any value holds rules that leave the field open, and the children of a node
have different values and are in the buckets of their values.
-/

namespace Nox.Classify

open Cnode

section Buckets

/-! ## The values of the buckets -/

/-- The values of the children, bucket by bucket. -/
structure Bucketed (vs : List (List Nat)) : Prop where
  nonempty : 0 < vs.length
  home : ∀ i ch, vs[i]? = some ch → ∀ v ∈ ch, getBucket v (vs.length - 1) = i
  nodup : ∀ ch ∈ vs, ch.Nodup

theorem bucketed_replicate {n : Nat} (hn : 0 < n) : Bucketed (List.replicate n []) where
  nonempty := by simpa using hn
  home := by
    intro i ch hch v hv
    rw [List.eq_of_mem_replicate (List.mem_of_getElem? hch)] at hv
    cases hv
  nodup := by
    intro ch hch
    rw [List.eq_of_mem_replicate hch]
    exact List.nodup_nil

theorem Bucketed.getBucket_lt {vs : List (List Nat)} (h : Bucketed vs) (x : Nat) :
    getBucket x (vs.length - 1) < vs.length := by
  have hle := getBucket_le x (vs.length - 1)
  have hpos := h.nonempty
  omega

/-- A new child is put into the bucket of its value. -/
theorem Bucketed.insert {vs : List (List Nat)} (h : Bucketed vs) {x : Nat} {ch : List Nat}
    (hch : vs[getBucket x (vs.length - 1)]? = some ch) (hx : x ∉ ch) :
    Bucketed (vs.set (getBucket x (vs.length - 1)) (x :: ch)) where
  nonempty := by simpa using h.nonempty
  home := by
    intro i ch' hch' v hv
    rw [List.length_set]
    rw [List.getElem?_set] at hch'
    split at hch'
    · next hi =>
      rw [if_pos (h.getBucket_lt x)] at hch'
      cases hch'
      rcases List.mem_cons.mp hv with rfl | hv
      · exact hi
      · exact hi ▸ h.home _ _ hch v hv
    · exact h.home i ch' hch' v hv
  nodup := by
    intro ch' hch'
    rcases List.mem_or_eq_of_mem_set hch' with hch' | rfl
    · exact h.nodup ch' hch'
    · exact (h.nodup ch (List.mem_of_getElem? hch)).cons hx

theorem Bucketed.of_sublist {vs vs' : List (List Nat)} (h : Bucketed vs)
    (hsub : List.Forall₂ List.Sublist vs' vs) : Bucketed vs' where
  nonempty := hsub.length_eq ▸ h.nonempty
  home := by
    intro i ch hch v hv
    rw [hsub.length_eq]
    obtain ⟨hi, rfl⟩ := List.getElem?_eq_some_iff.mp hch
    have hi' : i < vs.length := hsub.length_eq ▸ hi
    exact h.home i vs[i] (List.getElem?_eq_getElem hi') v ((hsub.get hi hi').subset hv)
  nodup := by
    intro ch hch
    obtain ⟨i, hi, rfl⟩ := List.mem_iff_getElem.mp hch
    have hi' : i < vs.length := hsub.length_eq ▸ hi
    exact (h.nodup vs[i] (List.getElem_mem hi')).sublist (hsub.get hi hi')

end Buckets

section Placed

/-! ## The placement of the rules -/

/-- The rules below the node have the property, and are where a lookup follows. -/
inductive Placed (V : View) : (Nat → Prop) → Cnode → Prop
  | leaf {p : Nat → Prop} {a v : Nat} {rs : List Nat} (hrs : ∀ r ∈ rs, p r) :
    Placed V p (.leaf a v rs)
  | split {p : Nat → Prop} {a v : Nat} {rs : List Nat} {f : Nat} {bs : List (List Cnode)}
      {any : Option Cnode} (hrs : ∀ r ∈ rs, p r) (hbs : Bucketed (bs.map fun ch => ch.map value))
      (hchild : ∀ c ∈ bs.flatten, Placed V (fun r => p r ∧ V.getField r f = some c.value) c)
      (hany : ∀ c ∈ any, Placed V (fun r => p r ∧ V.getField r f = none) c) :
    Placed V p (.split a v rs f bs any)

theorem Placed.holds {V : View} {p : Nat → Prop} {c : Cnode} (h : Placed V p c) :
    ∀ r ∈ c.allRules, p r := by
  induction h with
  | leaf hrs =>
    intro r hr
    rw [allRules_eq] at hr
    simp only [children, List.flatMap_nil, List.append_nil] at hr
    exact hrs r hr
  | split hrs hbs hchild hany ihchild ihany =>
    intro r hr
    rw [allRules_eq, List.mem_append] at hr
    rcases hr with hr | hr
    · exact hrs r hr
    · obtain ⟨c, hc, hr⟩ := List.mem_flatMap.mp hr
      rcases List.mem_append.mp hc with hc | hc
      · exact (ihchild c hc r hr).1
      · exact (ihany c (Option.mem_toList.mp hc) r hr).1

/-- The placement is about the rules in the tree and their fields. -/
theorem Placed.congr {V V' : View} {p : Nat → Prop} {c : Cnode} (h : Placed V p c) :
    ∀ {q : Nat → Prop}, (∀ r ∈ c.allRules, p r → q r) →
      (∀ r ∈ c.allRules, V'.getField r = V.getField r) → Placed V' q c := by
  induction h with
  | leaf hrs =>
    intro q hpq hV
    refine .leaf fun r hr => hpq r ?_ (hrs r hr)
    rw [allRules_eq]
    exact List.mem_append_left _ hr
  | @split p a v rs f bs any hrs hbs hchild hany ihchild ihany =>
    intro q hpq hV
    have hsub : ∀ c ∈ bs.flatten ++ any.toList, ∀ r ∈ c.allRules,
        r ∈ (Cnode.split a v rs f bs any).allRules := by
      intro c hc r hr
      rw [allRules_eq]
      exact List.mem_append_right _ (List.mem_flatMap.mpr ⟨c, hc, hr⟩)
    refine .split (fun r hr => hpq r ?_ (hrs r hr)) hbs (fun c hc => ?_) (fun c hc => ?_)
    · rw [allRules_eq]
      exact List.mem_append_left _ hr
    · have hsub := hsub c (List.mem_append_left _ hc)
      refine ihchild c hc (fun r hr hp => ⟨hpq r (hsub r hr) hp.1, ?_⟩) fun r hr => hV r (hsub r hr)
      rw [hV r (hsub r hr)]
      exact hp.2
    · have hsub := hsub c (List.mem_append_right _ (Option.mem_toList.mpr hc))
      refine ihany c hc (fun r hr hp => ⟨hpq r (hsub r hr) hp.1, ?_⟩) fun r hr => hV r (hsub r hr)
      rw [hV r (hsub r hr)]
      exact hp.2

end Placed

end Nox.Classify
