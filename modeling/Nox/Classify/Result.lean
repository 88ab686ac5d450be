import Mathlib.Data.List.Perm.Basic
import Mathlib.Data.List.Perm.Subperm

/-!
# The result of a lookup

`Cnode_result` keeps a cursor into the list of every node that `traverse` came
to.  `next` looks at the rules under the cursors, moves those on that do not
match, and returns the first of the others with the smallest priority.  Seen from
outside it takes the rules that match out of a bag (`next_spec`), and until it
returns null it takes out all of them (`drain_perm`).
-/

namespace Nox.Classify

section Cursors

/-! ## Cursors -/

/-- `current_rule`: the rule under the iterator, the ones up to the end, and
whether the first is known to match. -/
structure Cursor where
  head : Nat
  tail : List Nat
  ismatch : Bool
deriving DecidableEq

def Cursor.pending (c : Cursor) : List Nat :=
  c.head :: c.tail

/-- `Cnode_result`: the first `num_lists` elements of `traversed`. -/
abbrev CnodeResult := List Cursor

namespace CnodeResult

/-- The rules that the cursors have not passed. -/
def pending (res : CnodeResult) : List Nat :=
  res.flatMap Cursor.pending

/-- `push` -/
def push (rules : List Nat) (res : CnodeResult) : CnodeResult :=
  match rules with
  | [] => res
  | r :: rules => res ++ [⟨r, rules, false⟩]

/-- `current = traversed[--num_lists]` for the element `i`. -/
def dropAt (i : Nat) (res : CnodeResult) : CnodeResult :=
  match res.getLast? with
  | none => res
  | some c => (res.set i c).dropLast

/-- Moves the cursor `i` on. -/
def advance (i : Nat) (c : Cursor) (res : CnodeResult) : CnodeResult :=
  match c.tail with
  | [] => res.dropAt i
  | r :: rules => res.set i ⟨r, rules, false⟩

theorem pending_push (rules : List Nat) (res : CnodeResult) :
    (res.push rules).pending = res.pending ++ rules := by
  cases rules with
  | nil => simp [push]
  | cons r rules => simp [push, pending, Cursor.pending]

theorem dropAt_perm {i : Nat} {res : CnodeResult} (hi : i < res.length) :
    (res.dropAt i).Perm (res.eraseIdx i) := by
  have hne : res ≠ [] := List.ne_nil_of_length_pos (by omega)
  rw [dropAt, List.getLast?_eq_some_getLast hne]
  simp only
  have hset : (res.set i (res.getLast hne)).Perm (res.getLast hne :: res.eraseIdx i) :=
    List.set_perm_cons_eraseIdx hi _
  have hlast : (res.set i (res.getLast hne)).getLast (by simpa using hne) = res.getLast hne := by
    rw [List.getLast_eq_getElem, List.getElem_set]
    split
    · rfl
    · simp [List.getLast_eq_getElem]
  have hsplit := List.dropLast_append_getLast (l := res.set i (res.getLast hne)) (by simpa using hne)
  rw [hlast] at hsplit
  rw [← hsplit] at hset
  exact ((List.perm_append_singleton _ _).symm.trans hset).cons_inv

theorem dropAt_getElem? {i j : Nat} {res : CnodeResult} (hi : i < res.length) (hj : j < i) :
    (res.dropAt i)[j]? = res[j]? := by
  have hne : res ≠ [] := List.ne_nil_of_length_pos (by omega)
  rw [dropAt, List.getLast?_eq_some_getLast hne]
  simp only
  rw [List.getElem?_dropLast, if_pos (by simp; omega), List.getElem?_set_ne (by omega)]

theorem dropAt_length {i : Nat} {res : CnodeResult} (hi : i < res.length) :
    (res.dropAt i).length = res.length - 1 := by
  rw [(dropAt_perm hi).length_eq, List.length_eraseIdx_of_lt hi]

theorem getElem?_perm {i : Nat} {c : Cursor} {res : CnodeResult} (hc : res[i]? = some c) :
    res.Perm (c :: res.eraseIdx i) := by
  obtain ⟨hi, rfl⟩ := List.getElem?_eq_some_iff.mp hc
  exact (List.getElem_cons_eraseIdx_perm hi).symm

/-- A cursor that moves on leaves one rule behind. -/
theorem pending_advance {i : Nat} {c : Cursor} {res : CnodeResult} (hc : res[i]? = some c) :
    res.pending.Perm (c.head :: (res.advance i c).pending) := by
  obtain ⟨hi, -⟩ := List.getElem?_eq_some_iff.mp hc
  refine ((getElem?_perm hc).flatMap_right _).trans ?_
  unfold advance
  split
  · next htail =>
    rw [List.flatMap_cons, Cursor.pending, htail]
    exact (((dropAt_perm hi).flatMap_right _).symm).cons _
  · next r rules htail =>
    rw [List.flatMap_cons, Cursor.pending, htail]
    have hset : (res.set i ⟨r, rules, false⟩).Perm (⟨r, rules, false⟩ :: res.eraseIdx i) :=
      List.set_perm_cons_eraseIdx hi _
    exact ((hset.flatMap_right Cursor.pending).symm).cons _

theorem advance_length_le {i : Nat} {c : Cursor} {res : CnodeResult} (hc : res[i]? = some c) :
    (res.advance i c).length ≤ res.length := by
  obtain ⟨hi, -⟩ := List.getElem?_eq_some_iff.mp hc
  unfold advance
  split
  · rw [dropAt_length hi]
    omega
  · simp

theorem pending_set {i : Nat} {c : Cursor} {res : CnodeResult} (hc : res[i]? = some c) (b : Bool) :
    (CnodeResult.pending (res.set i { c with ismatch := b })).Perm res.pending := by
  obtain ⟨hi, -⟩ := List.getElem?_eq_some_iff.mp hc
  exact ((List.set_perm_cons_eraseIdx hi _).flatMap_right _).trans
    ((getElem?_perm hc).flatMap_right Cursor.pending).symm

end CnodeResult

end Cursors

section Next

/-! ## The next rule -/

variable (priority : Nat → Nat) (isMatch : Nat → Bool)

namespace CnodeResult

/-- The loop of `next` from the element `i`; `best` is the match and its index. -/
def scan (res : CnodeResult) (i : Nat) (best : Option (Nat × Nat)) :
    CnodeResult × Option (Nat × Nat) :=
  match hc : res[i]? with
  | none => (res, best)
  | some c =>
    if best.all fun b => decide (priority c.head < priority b.1) then
      if c.ismatch || isMatch c.head then
        scan (res.set i { c with ismatch := true }) (i + 1) (some (c.head, i))
      else scan (res.advance i c) i best
    else scan res (i + 1) best
termination_by res.pending.length + (res.length - i)
decreasing_by
  · have hi := (List.getElem?_eq_some_iff.mp hc).1
    rw [(pending_set hc true).length_eq, List.length_set]
    omega
  · have hlen := advance_length_le hc
    have hpending := (pending_advance hc).length_eq
    rw [List.length_cons] at hpending
    omega
  · have hi := (List.getElem?_eq_some_iff.mp hc).1
    omega

/-- `next` -/
def next (res : CnodeResult) : Option Nat × CnodeResult :=
  match res.scan priority isMatch 0 none with
  | (res, none) => (none, res)
  | (res, some (r, i)) =>
    match res[i]? with
    | none => (none, res)
    | some c => (some r, res.advance i c)

theorem scan_end {res : CnodeResult} {i : Nat} (best : Option (Nat × Nat)) (hc : res[i]? = none) :
    res.scan priority isMatch i best = (res, best) := by
  rw [scan]
  split
  · rfl
  · next hc' => exact absurd (hc.symm.trans hc') (by simp)

theorem scan_elem {res : CnodeResult} {i : Nat} {c : Cursor} (best : Option (Nat × Nat))
    (hc : res[i]? = some c) : res.scan priority isMatch i best =
      if best.all fun b => decide (priority c.head < priority b.1) then
        if c.ismatch || isMatch c.head then
          CnodeResult.scan priority isMatch (res.set i { c with ismatch := true }) (i + 1)
            (some (c.head, i))
        else (res.advance i c).scan priority isMatch i best
      else res.scan priority isMatch (i + 1) best := by
  rw [scan]
  split
  · next hc' => exact absurd (hc.symm.trans hc') (by simp)
  · next c' hc' =>
    cases hc.symm.trans hc'
    rfl

/-- The loop gives no rule back to a cursor. -/
theorem scan_subperm (res : CnodeResult) (i : Nat) (best : Option (Nat × Nat)) :
    (res.scan priority isMatch i best).1.pending.Subperm res.pending := by
  induction res, i, best using scan.induct priority isMatch with
  | case1 res i best hc =>
    rw [scan_end priority isMatch best hc]
  | case2 res i best c hc hbest hmatch ih =>
    rw [scan_elem priority isMatch best hc, if_pos hbest, if_pos hmatch]
    exact ih.trans (pending_set hc true).subperm
  | case3 res i best c hc hbest hmatch ih =>
    rw [scan_elem priority isMatch best hc, if_pos hbest, if_neg hmatch]
    exact ih.trans ((List.sublist_cons_self _ _).subperm.trans (pending_advance hc).symm.subperm)
  | case4 res i best c hc hbest ih =>
    rw [scan_elem priority isMatch best hc, if_neg hbest]
    exact ih

theorem next_length_lt {res res' : CnodeResult} {r : Nat}
    (hnext : res.next priority isMatch = (some r, res')) :
    res'.pending.length < res.pending.length := by
  have hscan := (scan_subperm priority isMatch res 0 none).length_le
  unfold next at hnext
  split at hnext
  · cases hnext
  · next res₁ r₁ i hs =>
    rw [hs] at hscan
    dsimp only at hscan
    split at hnext
    · cases hnext
    · next c hc =>
      cases hnext
      have hadvance := (pending_advance hc).length_eq
      rw [List.length_cons] at hadvance
      omega

/-- The rules of all calls of `next` until it returns null. -/
def drain (res : CnodeResult) : List Nat :=
  match _h : res.next priority isMatch with
  | (none, _) => []
  | (some r, res') => r :: drain res'
termination_by res.pending.length
decreasing_by exact next_length_lt priority isMatch ‹_›

/-- What is known about the elements the loop has passed. -/
structure Scanning (res : CnodeResult) (i : Nat) (best : Option (Nat × Nat)) : Prop where
  sound : ∀ c ∈ res, c.ismatch = true → isMatch c.head = true
  start : best = none → i = 0
  best : ∀ r j, best = some (r, j) → j < i ∧ isMatch r = true ∧
    ∃ c, res[j]? = some c ∧ c.head = r

/-- The rules `res'` has left of those of `res`. -/
structure Passes (res res' : CnodeResult) : Prop where
  sound : ∀ c ∈ res', c.ismatch = true → isMatch c.head = true
  filter : (res'.pending.filter isMatch).Perm (res.pending.filter isMatch)

theorem mem_advance {i : Nat} {c : Cursor} {res : CnodeResult} (hc : res[i]? = some c)
    {c' : Cursor} (hc' : c' ∈ res.advance i c) :
    c' ∈ res ∨ c'.ismatch = false ∧ c.pending = c.head :: c'.pending := by
  obtain ⟨hi, -⟩ := List.getElem?_eq_some_iff.mp hc
  unfold advance at hc'
  split at hc'
  · exact .inl (List.mem_of_mem_eraseIdx ((dropAt_perm hi).mem_iff.mp hc'))
  · next htail =>
    rcases List.mem_or_eq_of_mem_set hc' with hc' | rfl
    · exact .inl hc'
    · exact .inr ⟨rfl, by rw [Cursor.pending, htail]; rfl⟩

theorem advance_getElem? {i j : Nat} {c : Cursor} {res : CnodeResult} (hc : res[i]? = some c)
    (hj : j < i) : (res.advance i c)[j]? = res[j]? := by
  obtain ⟨hi, -⟩ := List.getElem?_eq_some_iff.mp hc
  unfold advance
  split
  · exact dropAt_getElem? hi hj
  · exact List.getElem?_set_ne (by omega)

theorem Passes.trans {res₁ res₂ res₃ : CnodeResult} (h₁ : Passes isMatch res₁ res₂)
    (h₂ : Passes isMatch res₂ res₃) : Passes isMatch res₁ res₃ where
  sound := h₂.sound
  filter := h₂.filter.trans h₁.filter

/-- The loop moves cursors past rules that do not match, and no others. -/
theorem scan_passes {res : CnodeResult} {i : Nat} {best : Option (Nat × Nat)}
    (h : Scanning isMatch res i best) :
    Passes isMatch res (res.scan priority isMatch i best).1 ∧
      match (res.scan priority isMatch i best).2 with
      | none => (res.scan priority isMatch i best).1 = []
      | some (r, j) => isMatch r = true ∧
        ∃ c, (res.scan priority isMatch i best).1[j]? = some c ∧ c.head = r := by
  induction res, i, best using scan.induct priority isMatch with
  | case1 res i best hc =>
    rw [scan_end priority isMatch best hc]
    refine ⟨⟨h.sound, List.Perm.refl _⟩, ?_⟩
    cases best with
    | none =>
      have hi := h.start rfl
      subst hi
      exact List.length_eq_zero_iff.mp (by simpa using hc)
    | some b => exact (h.best b.1 b.2 rfl).2
  | case2 res i best c hc hbest hmatch ih =>
    rw [scan_elem priority isMatch best hc, if_pos hbest, if_pos hmatch]
    have hi := (List.getElem?_eq_some_iff.mp hc).1
    have hhead : isMatch c.head = true := by
      rcases Bool.or_eq_true_iff.mp hmatch with hb | hb
      · exact h.sound c (List.mem_of_getElem? hc) hb
      · exact hb
    have hpasses : Passes isMatch res (res.set i { c with ismatch := true }) := by
      refine ⟨fun c' hc' hb => ?_, (pending_set hc true).filter _⟩
      rcases List.mem_or_eq_of_mem_set hc' with hc' | rfl
      · exact h.sound c' hc' hb
      · exact hhead
    have hnext : Scanning isMatch (res.set i { c with ismatch := true }) (i + 1)
        (some (c.head, i)) := by
      refine ⟨hpasses.sound, fun hno => (nomatch hno), fun r j hr => ?_⟩
      cases hr
      exact ⟨Nat.lt_succ_self _, hhead, _, List.getElem?_set_self hi, rfl⟩
    exact ⟨hpasses.trans isMatch (ih hnext).1, (ih hnext).2⟩
  | case3 res i best c hc hbest hmatch ih =>
    rw [scan_elem priority isMatch best hc, if_pos hbest, if_neg hmatch]
    rw [Bool.or_eq_true, not_or, Bool.not_eq_true, Bool.not_eq_true] at hmatch
    have hpasses : Passes isMatch res (res.advance i c) := by
      refine ⟨fun c' hc' hb => ?_, ?_⟩
      · rcases mem_advance hc hc' with hc' | ⟨hf, -⟩
        · exact h.sound c' hc' hb
        · rw [hf] at hb
          cases hb
      · have hfilter := (pending_advance hc).filter isMatch
        rw [List.filter_cons_of_neg (by simp [hmatch.2])] at hfilter
        exact hfilter.symm
    have hnext : Scanning isMatch (res.advance i c) i best := by
      refine ⟨hpasses.sound, h.start, fun r j hr => ?_⟩
      obtain ⟨hj, hr, d, hd, hhead⟩ := h.best r j hr
      exact ⟨hj, hr, d, (advance_getElem? hc hj).trans hd, hhead⟩
    exact ⟨hpasses.trans isMatch (ih hnext).1, (ih hnext).2⟩
  | case4 res i best c hc hbest ih =>
    rw [scan_elem priority isMatch best hc, if_neg hbest]
    refine ih ⟨h.sound, fun hno => ?_, fun r j hr => ?_⟩
    · rw [hno] at hbest
      exact absurd rfl hbest
    · obtain ⟨hj, hr⟩ := h.best r j hr
      exact ⟨Nat.lt_succ_of_lt hj, hr⟩

/-- `next` takes a rule that matches out of the bag, or none is left. -/
theorem next_spec {res : CnodeResult}
    (h : ∀ c ∈ res, c.ismatch = true → isMatch c.head = true) :
    match res.next priority isMatch with
    | (none, _) => res.pending.filter isMatch = []
    | (some r, res') => isMatch r = true ∧
      (∀ c ∈ res', c.ismatch = true → isMatch c.head = true) ∧
      (r :: res'.pending).Subperm res.pending ∧
      (r :: res'.pending.filter isMatch).Perm (res.pending.filter isMatch) := by
  have hstart : Scanning isMatch res 0 none := ⟨h, fun _ => rfl, fun r j hr => (nomatch hr)⟩
  have hscan := scan_passes priority isMatch hstart
  have hsubperm := scan_subperm priority isMatch res 0 none
  unfold next
  generalize hs : res.scan priority isMatch 0 none = t at hscan hsubperm ⊢
  obtain ⟨res', best⟩ := t
  obtain ⟨hpasses, hbest⟩ := hscan
  cases best with
  | none =>
    have hnil : res' = [] := hbest
    subst hnil
    simpa [pending] using hpasses.filter.symm
  | some b =>
    obtain ⟨hr, c, hc, hhead⟩ := hbest
    simp only [hc]
    have hpending := hhead ▸ pending_advance hc
    refine ⟨hr, fun c' hc' hb => ?_, hpending.symm.subperm.trans hsubperm, ?_⟩
    · rcases mem_advance hc hc' with hc' | ⟨hf, -⟩
      · exact hpasses.sound c' hc' hb
      · rw [hf] at hb
        cases hb
    · have hfilter := hpending.filter isMatch
      rw [List.filter_cons_of_pos hr] at hfilter
      exact hfilter.symm.trans hpasses.filter

/-- The rules taken out until null are the ones in the bag that match. -/
theorem drain_perm {res : CnodeResult}
    (h : ∀ c ∈ res, c.ismatch = true → isMatch c.head = true) :
    (res.drain priority isMatch).Perm (res.pending.filter isMatch) := by
  induction res using drain.induct priority isMatch with
  | case1 res res' hnext =>
    have hspec := next_spec priority isMatch h
    rw [hnext] at hspec
    rw [drain, hspec]
    split
    · exact List.Perm.refl _
    · next hnext' => exact absurd (hnext.symm.trans hnext') (by simp)
  | case2 res r res' hnext ih =>
    have hspec := next_spec priority isMatch h
    rw [hnext] at hspec
    obtain ⟨-, hsound, -, hfilter⟩ := hspec
    rw [drain]
    split
    · next hnext' => exact absurd (hnext.symm.trans hnext') (by simp)
    · next hnext' =>
      cases hnext.symm.trans hnext'
      exact ((ih hsound).cons r).trans hfilter

end CnodeResult

end Next

section Order

/-! ## The order of the rules -/

variable (priority : Nat → Nat) (isMatch : Nat → Bool)

/-- The rules a cursor has before it are in order. -/
def Cursor.Ordered (c : Cursor) : Prop :=
  c.pending.Pairwise fun x y => priority x ≤ priority y

namespace CnodeResult

theorem ordered_advance {i : Nat} {c : Cursor} {res : CnodeResult} (hc : res[i]? = some c)
    (h : ∀ c ∈ res, c.Ordered priority) : ∀ c' ∈ res.advance i c, c'.Ordered priority := by
  intro c' hc'
  rcases mem_advance hc hc' with hc' | ⟨-, hpending⟩
  · exact h c' hc'
  · have hordered := h c (List.mem_of_getElem? hc)
    rw [Cursor.Ordered, hpending] at hordered
    exact (List.pairwise_cons.mp hordered).2

/-- The match the loop ends with has the smallest priority under a cursor. -/
theorem scan_ordered {res : CnodeResult} {i : Nat} {best : Option (Nat × Nat)}
    (h : ∀ c ∈ res, c.Ordered priority)
    (hbest : ∀ r j, best = some (r, j) → ∀ k < i, ∀ c, res[k]? = some c →
      priority r ≤ priority c.head) (hstart : best = none → i = 0) :
    (∀ c ∈ (res.scan priority isMatch i best).1, c.Ordered priority) ∧
      ∀ r j, (res.scan priority isMatch i best).2 = some (r, j) →
        ∀ c ∈ (res.scan priority isMatch i best).1, priority r ≤ priority c.head := by
  induction res, i, best using scan.induct priority isMatch with
  | case1 res i best hc =>
    rw [scan_end priority isMatch best hc]
    refine ⟨h, fun r j hr c hmem => ?_⟩
    obtain ⟨k, hk⟩ := List.mem_iff_getElem?.mp hmem
    have hlt : k < res.length := (List.getElem?_eq_some_iff.mp hk).1
    have hle := List.getElem?_eq_none_iff.mp hc
    exact hbest r j hr k (by omega) c hk
  | case2 res i best c hc hless hmatch ih =>
    rw [scan_elem priority isMatch best hc, if_pos hless, if_pos hmatch]
    refine ih (fun d hd => ?_) (fun r j hr k hk d hd => ?_) fun hno => nomatch hno
    · rcases List.mem_or_eq_of_mem_set hd with hd | rfl
      · exact h d hd
      · exact h c (List.mem_of_getElem? hc)
    · cases hr
      rw [List.getElem?_set] at hd
      split at hd
      · have hi := (List.getElem?_eq_some_iff.mp hc).1
        rw [if_pos hi] at hd
        cases hd
        exact Nat.le_refl _
      · cases best with
        | none =>
          have hi := hstart rfl
          omega
        | some b =>
          have hlt : priority c.head < priority b.1 := by simpa using hless
          have hle := hbest b.1 b.2 rfl k (by omega) d hd
          omega
  | case3 res i best c hc hless hmatch ih =>
    rw [scan_elem priority isMatch best hc, if_pos hless, if_neg hmatch]
    refine ih (ordered_advance priority hc h) (fun r j hr k hk d hd => ?_) hstart
    rw [advance_getElem? hc hk] at hd
    exact hbest r j hr k hk d hd
  | case4 res i best c hc hless ih =>
    rw [scan_elem priority isMatch best hc, if_neg hless]
    refine ih h (fun r j hr k hk d hd => ?_) fun hno => ?_
    · by_cases hki : k = i
      · subst hki
        cases hc.symm.trans hd
        have hle : ¬ priority c.head < priority r := by simpa [hr] using hless
        omega
      · exact hbest r j hr k (by omega) d hd
    · rw [hno] at hless
      exact absurd rfl hless

/-- The rule that `next` returns comes before all that are left. -/
theorem next_ordered {res res' : CnodeResult} {r : Nat} (h : ∀ c ∈ res, c.Ordered priority)
    (hnext : res.next priority isMatch = (some r, res')) :
    (∀ c ∈ res', c.Ordered priority) ∧ ∀ x ∈ res'.pending, priority r ≤ priority x := by
  have hscan : (∀ c ∈ (res.scan priority isMatch 0 none).1, c.Ordered priority) ∧
      ∀ r j, (res.scan priority isMatch 0 none).2 = some (r, j) →
        ∀ c ∈ (res.scan priority isMatch 0 none).1, priority r ≤ priority c.head :=
    scan_ordered priority isMatch h (fun r j hr => (nomatch hr)) fun _ => rfl
  unfold next at hnext
  split at hnext
  · cases hnext
  · next res₁ r₁ i hs =>
    rw [hs] at hscan
    split at hnext
    · cases hnext
    · next c hc =>
      cases hnext
      have hordered := ordered_advance priority hc hscan.1
      refine ⟨hordered, fun x hx => ?_⟩
      have hmem : x ∈ CnodeResult.pending res₁ :=
        (pending_advance hc).mem_iff.mpr (List.mem_cons_of_mem _ hx)
      obtain ⟨d, hd, hx⟩ := List.mem_flatMap.mp hmem
      have hle := hscan.2 r i rfl d hd
      have hpairwise := List.pairwise_cons.mp (hscan.1 d hd)
      rcases List.mem_cons.mp hx with rfl | hx
      · exact hle
      · exact Nat.le_trans hle (hpairwise.1 x hx)

/-- Successive rules have priorities in order. -/
theorem drain_ordered {res : CnodeResult} (h : ∀ c ∈ res, c.Ordered priority)
    (hsound : ∀ c ∈ res, c.ismatch = true → isMatch c.head = true) :
    (res.drain priority isMatch).Pairwise fun x y => priority x ≤ priority y := by
  induction res using drain.induct priority isMatch with
  | case1 res res' hnext =>
    rw [drain]
    split
    · exact List.Pairwise.nil
    · next hnext' => exact absurd (hnext.symm.trans hnext') (by simp)
  | case2 res r res' hnext ih =>
    obtain ⟨hordered, hle⟩ := next_ordered priority isMatch h hnext
    have hspec := next_spec priority isMatch hsound
    rw [hnext] at hspec
    rw [drain]
    split
    · next hnext' => exact absurd (hnext.symm.trans hnext') (by simp)
    · next hnext' =>
      cases hnext.symm.trans hnext'
      refine (ih hordered hspec.2.1).cons fun x hx => hle x ?_
      exact List.mem_of_mem_filter ((drain_perm priority isMatch hspec.2.1).mem_iff.mp hx)

end CnodeResult

end Order

end Nox.Classify
