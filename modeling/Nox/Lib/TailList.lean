import Mathlib.Logic.Function.Basic
import Mathlib.Data.List.Nodup

/-!
# Linked lists with a tail pointer

A singly linked list through elements that hold a link to the next one.  The list points to its
first element and to the link behind its last one, which is its own head pointer when it is
empty.  That link holds anything: whoever follows the links of a list first stores a null
pointer through its tail pointer (`terminate`).
-/

namespace Nox.Lib

section Lists

/-! ## Lists -/

/-- The link of each element. -/
abbrev Links (α : Type*) := α → Option α

/-- A list.  A pointer to a link is the element that holds it, `none` the head pointer. -/
structure TailList (α : Type*) where
  head : Option α
  tail : Option α

namespace TailList

variable {α : Type*} [DecidableEq α]

/-- The link a pointer points to. -/
def load (next : Links α) (h : TailList α) : Option α → Option α
  | none => h.head
  | some a => next a

/-- A store through a pointer to a link. -/
def store (next : Links α) (h : TailList α) (v : Option α) :
    Option α → Links α × TailList α
  | none => (next, { h with head := v })
  | some a => (Function.update next a v, h)

/-- A null pointer at the end. -/
def terminate (next : Links α) (h : TailList α) : Links α × TailList α :=
  h.store next none h.tail

/-- A new last element. -/
def append (next : Links α) (h : TailList α) (a : α) : Links α × TailList α :=
  let (next, h) := h.store next (some a) h.tail
  (next, { h with tail := some a })

/-- A list that starts where a pointer points to. -/
def startAt (h : TailList α) : Option α → TailList α
  | none => { h with tail := none }
  | some a => { h with head := some a }

/-- The pointer to the link to an element, from one to a link before it on.  Where a link may
not be read, or no link leads to the element, there is none. -/
def findLink (live : Option α → Bool) (next : Links α) (h : TailList α) (a : α) :
    Nat → Option α → Option (Option α)
  | 0, _ => none
  | fuel + 1, p =>
    if live p then
      match h.load next p with
      | none => none
      | some b => if b = a then some p else findLink live next h a fuel (some b)
    else none

/-- The list without the element a pointer's link leads to. -/
def unlink (next : Links α) (h : TailList α) (a : α) (p : Option α) : Links α × TailList α :=
  match next a with
  | some b => h.store next (some b) p
  | none => (next, { h with tail := p })

end TailList

end Lists

section Segments

/-! ## Segments -/

variable {α : Type*} {next next' : Links α} {p q : Option α} {l l' : List α} {a : α}

/-- The links lead from one pointer through the elements to another. -/
def Segment (next : Links α) : Option α → List α → Option α → Prop
  | p, [], q => p = q
  | p, a :: l, q => p = some a ∧ Segment next (next a) l q

theorem Segment.frame (h : ∀ a ∈ l, next' a = next a) (hseg : Segment next p l q) :
    Segment next' p l q := by
  induction l generalizing p with
  | nil => exact hseg
  | cons a l ih =>
    refine ⟨hseg.1, ?_⟩
    rw [h a List.mem_cons_self]
    exact ih (fun b hb => h b (List.mem_cons_of_mem a hb)) hseg.2

theorem segment_append :
    Segment next p (l ++ l') q ↔ ∃ r, Segment next p l r ∧ Segment next r l' q := by
  induction l generalizing p with
  | nil =>
    constructor
    · exact fun h => ⟨p, rfl, h⟩
    · rintro ⟨r, rfl, h⟩
      exact h
  | cons a l ih =>
    simp only [List.cons_append, Segment, ih]
    constructor
    · rintro ⟨hp, r, hl, hl'⟩
      exact ⟨r, ⟨hp, hl⟩, hl'⟩
    · rintro ⟨r, ⟨hp, hl⟩, hl'⟩
      exact ⟨hp, r, hl, hl'⟩

theorem segment_concat :
    Segment next p (l ++ [a]) q ↔ Segment next p l (some a) ∧ next a = q := by
  rw [segment_append]
  constructor
  · rintro ⟨r, hl, rfl, hq⟩
    exact ⟨hl, hq⟩
  · rintro ⟨hl, hq⟩
    exact ⟨some a, hl, rfl, hq⟩

variable [DecidableEq α]

/-- A store into a link outside. -/
theorem Segment.update (hseg : Segment next p l q) (ha : a ∉ l) (v : Option α) :
    Segment (Function.update next a v) p l q :=
  hseg.frame fun b hb => Function.update_of_ne (by rintro rfl; exact ha hb) _ _

end Segments

section Holds

/-! ## The elements of a list -/

namespace TailList

variable {α : Type*} {next next' : Links α} {h : TailList α} {l l₁ l₂ : List α} {a b : α}

/-- The list has these elements; nothing is said of the link behind the last one. -/
def Holds (next : Links α) (h : TailList α) (l : List α) : Prop :=
  h.tail = l.getLast? ∧ ∀ b, l.getLast? = some b → Segment next h.head l.dropLast (some b)

/-- It has these elements, and a null pointer behind them. -/
def Ends (next : Links α) (h : TailList α) (l : List α) : Prop :=
  h.tail = l.getLast? ∧ Segment next h.head l none

theorem holds_nil : Holds next h [] ↔ h.tail = none := by
  simp [Holds]

theorem holds_concat : Holds next h (l ++ [b]) ↔ h.tail = some b ∧ Segment next h.head l (some b) := by
  simp [Holds]

theorem Ends.holds (hends : Ends next h l) : Holds next h l := by
  refine ⟨hends.1, fun b hb => ?_⟩
  have hseg := hends.2
  rw [← List.dropLast_append_getLast? b hb, segment_concat] at hseg
  exact hseg.1

/-- Only the links of its elements matter to a list. -/
theorem Holds.frame (hholds : Holds next h l) (hsame : ∀ a ∈ l, next' a = next a) :
    Holds next' h l :=
  ⟨hholds.1, fun b hb => (hholds.2 b hb).frame fun a ha => hsame a (List.dropLast_subset l ha)⟩

theorem tail_mem (hholds : Holds next h l) (htail : h.tail = some a) : a ∈ l :=
  List.mem_of_getLast? (hholds.1.symm.trans htail)

variable [DecidableEq α]

/-- A store through the tail pointer, of a list of distinct elements. -/
theorem Holds.store_tail (hholds : Holds next h l) (hnodup : l.Nodup) (v : Option α) :
    (h.store next v h.tail).2.tail = h.tail ∧
      Segment (h.store next v h.tail).1 (h.store next v h.tail).2.head l v ∧
      ∀ c, c ∉ l → (h.store next v h.tail).1 c = next c := by
  rcases List.eq_nil_or_concat' l with rfl | ⟨l, b, rfl⟩
  · rw [holds_nil] at hholds
    rw [hholds]
    exact ⟨hholds, rfl, fun _ _ => rfl⟩
  · rw [holds_concat] at hholds
    obtain ⟨htail, hseg⟩ := hholds
    have hb : b ∉ l := by
      rw [List.nodup_append] at hnodup
      exact fun hmem => hnodup.2.2 b hmem b (List.mem_singleton_self b) rfl
    rw [htail]
    have hself : Function.update next b v b = v := Function.update_self b v next
    refine ⟨htail, segment_concat.mpr ⟨hseg.update hb v, hself⟩, fun c hc => ?_⟩
    exact Function.update_of_ne (by rintro rfl; simp at hc) _ _

theorem Holds.terminate (hholds : Holds next h l) (hnodup : l.Nodup) :
    Ends (h.terminate next).1 (h.terminate next).2 l ∧
      ∀ c, c ∉ l → (h.terminate next).1 c = next c := by
  obtain ⟨htail, hseg, hframe⟩ := hholds.store_tail hnodup none
  exact ⟨⟨htail.trans hholds.1, hseg⟩, hframe⟩

theorem Holds.append (hholds : Holds next h l) (hnodup : l.Nodup) (a : α) :
    Holds (h.append next a).1 (h.append next a).2 (l ++ [a]) ∧
      ∀ c, c ∉ l → (h.append next a).1 c = next c := by
  obtain ⟨-, hseg, hframe⟩ := hholds.store_tail hnodup (some a)
  exact ⟨holds_concat.mpr ⟨rfl, hseg⟩, hframe⟩

omit [DecidableEq α] in
/-- The elements before a pointer are left out. -/
theorem Ends.startAt {p : Option α} (hends : Ends next h (l₁ ++ l₂))
    (hp : Segment next h.head l₁ p) (hrest : Segment next p l₂ none) :
    Holds next (h.startAt p) l₂ := by
  cases l₂ with
  | nil =>
    cases hrest
    exact holds_nil.mpr rfl
  | cons a l₂ =>
    obtain ⟨rfl, hseg⟩ := hrest
    have hlast : (a :: l₂).getLast? = (l₁ ++ a :: l₂).getLast? := by
      simp [List.getLast?_cons]
    exact Ends.holds ⟨hends.1.trans hlast.symm, rfl, hseg⟩

/-- The link to an element is found behind those before it. -/
theorem findLink_eq {live : Option α → Bool} {fuel : Nat} {p : Option α}
    (hseg : Segment next (h.load next p) l₁ (some a)) (ha : a ∉ l₁) (hfuel : l₁.length < fuel)
    (hp : live p = true) (hlive : ∀ b ∈ l₁, live (some b) = true) :
    h.findLink live next a fuel p = some (l₁.getLast?.or p) := by
  induction l₁ generalizing fuel p with
  | nil =>
    cases fuel with
    | zero => exact absurd hfuel (Nat.lt_irrefl 0)
    | succ fuel =>
      rw [findLink, if_pos hp, show h.load next p = some a from hseg]
      simp
  | cons b l₁ ih =>
    cases fuel with
    | zero => exact absurd hfuel (Nat.not_lt_zero _)
    | succ fuel =>
      obtain ⟨hload, hrest⟩ := hseg
      rw [List.mem_cons, not_or] at ha
      rw [List.forall_mem_cons] at hlive
      have hfind := ih (p := some b) hrest ha.2 (Nat.lt_of_succ_lt_succ hfuel) hlive.1 hlive.2
      rw [findLink, if_pos hp, hload]
      dsimp only
      rw [if_neg (Ne.symm ha.1), hfind]
      cases hlast : l₁.getLast? with
      | none =>
        rw [List.getLast?_eq_none_iff] at hlast
        simp [hlast]
      | some c => simp [List.getLast?_cons, hlast]

/-- The list without one of its elements. -/
theorem Ends.unlink (hends : Ends next h (l₁ ++ a :: l₂)) (hnodup : (l₁ ++ a :: l₂).Nodup) :
    Holds (h.unlink next a l₁.getLast?).1 (h.unlink next a l₁.getLast?).2 (l₁ ++ l₂) ∧
      ∀ c, c ∉ l₁ → (h.unlink next a l₁.getLast?).1 c = next c := by
  obtain ⟨htail, hseg⟩ := hends
  obtain ⟨r, hl₁, rfl, hrest⟩ := segment_append.mp hseg
  cases l₂ with
  | nil =>
    have hnone : next a = none := hrest
    have hunlink : h.unlink next a l₁.getLast? = (next, { h with tail := l₁.getLast? }) := by
      simp only [TailList.unlink, hnone]
    rw [hunlink, List.append_nil]
    refine ⟨⟨rfl, fun b hb => ?_⟩, fun _ _ => rfl⟩
    rw [← List.dropLast_append_getLast? b hb, segment_concat] at hl₁
    exact hl₁.1
  | cons b l₂ =>
    obtain ⟨hnext, hrest⟩ := hrest
    have hlast : (l₁ ++ a :: b :: l₂).getLast? = (l₁ ++ b :: l₂).getLast? := by
      simp [List.getLast?_cons]
    have hout : ∀ c ∈ l₁, c ∉ b :: l₂ := fun c hc hmem =>
      (List.nodup_append.mp hnodup).2.2 c hc c (List.mem_cons_of_mem a hmem) rfl
    simp only [TailList.unlink, hnext]
    rcases List.eq_nil_or_concat' l₁ with rfl | ⟨l₁, c, rfl⟩
    · have hall : Ends next { h with head := some b } (b :: l₂) := ⟨htail.trans hlast, rfl, hrest⟩
      exact ⟨hall.holds, fun _ _ => rfl⟩
    · have hc : c ∉ l₁ := fun hmem =>
        (List.nodup_append.mp (List.nodup_append.mp hnodup).1).2.2 c hmem c (by simp) rfl
      rw [segment_concat] at hl₁
      have hrest' := hrest.update (hout c (by simp) ∘ List.mem_cons_of_mem b) (some b)
      have hb : Function.update next c (some b) b = next b :=
        Function.update_of_ne (by rintro rfl; exact hout b (by simp) (by simp)) _ _
      have hall : Segment (Function.update next c (some b)) h.head (l₁ ++ [c] ++ b :: l₂) none := by
        refine segment_append.mpr ⟨some b, segment_concat.mpr ⟨hl₁.1.update hc _, ?_⟩, rfl, ?_⟩
        · exact Function.update_self c (some b) next
        · rw [hb]
          exact hrest'
      simp only [List.getLast?_append, List.getLast?_singleton, Option.some_or, store]
      refine ⟨Ends.holds ⟨htail.trans hlast, hall⟩, fun d hd => ?_⟩
      exact Function.update_of_ne (by rintro rfl; simp at hd) _ _

end TailList

end Holds

end Nox.Lib
