import Nox.Json.Document
import Nox.Lib.JsonLex
import Mathlib.Data.List.Nodup

/-!
# The parts of a document

Properties and measures of all the parts of a document.  What holds of all the parts
of what is open holds of all the parts of what is built.
-/

namespace Nox.Json

open Lib.Json

section Measures

/-! ## Documents and their parts -/

mutual

/-- A property of the document and of all in it. -/
def Document.All (p : Document → Prop) : Document → Prop
  | .array xs => p (.array xs) ∧ AllElems p xs
  | .dict es => p (.dict es) ∧ AllEntries p es
  | v => p v

def AllElems (p : Document → Prop) : List Document → Prop
  | [] => True
  | x :: xs => x.All p ∧ AllElems p xs

def AllEntries (p : Document → Prop) : List (List Char × Document) → Prop
  | [] => True
  | (_, x) :: es => x.All p ∧ AllEntries p es

end

theorem allElems_iff {p : Document → Prop} {xs : List Document} :
    AllElems p xs ↔ ∀ x ∈ xs, x.All p := by
  induction xs with
  | nil => simp [AllElems]
  | cons x xs ih => simp [AllElems, ih]

theorem allEntries_iff {p : Document → Prop} {es : List (List Char × Document)} :
    AllEntries p es ↔ ∀ e ∈ es, e.2.All p := by
  induction es with
  | nil => simp [AllEntries]
  | cons e es ih => simp [AllEntries, ih]

mutual

/-- The weight of its strings and keys. -/
def Document.weight : Document → Nat
  | .array xs => elemsWeight xs
  | .dict es => entriesWeight es
  | .string s => Lib.Json.weight s
  | _ => 0

def elemsWeight : List Document → Nat
  | [] => 0
  | x :: xs => x.weight + elemsWeight xs

def entriesWeight : List (List Char × Document) → Nat
  | [] => 0
  | (k, x) :: es => Lib.Json.weight k + x.weight + entriesWeight es

end

mutual

/-- How many arrays and dictionaries there are in one another. -/
def Document.depth : Document → Nat
  | .array xs => elemsDepth xs + 1
  | .dict es => entriesDepth es + 1
  | _ => 0

def elemsDepth : List Document → Nat
  | [] => 0
  | x :: xs => max x.depth (elemsDepth xs)

def entriesDepth : List (List Char × Document) → Nat
  | [] => 0
  | (_, x) :: es => max x.depth (entriesDepth es)

end

theorem elemsWeight_append (xs ys : List Document) :
    elemsWeight (xs ++ ys) = elemsWeight xs + elemsWeight ys := by
  induction xs with
  | nil => simp [elemsWeight]
  | cons x xs ih => simp [elemsWeight, ih, Nat.add_assoc]

theorem entriesWeight_append (es fs : List (List Char × Document)) :
    entriesWeight (es ++ fs) = entriesWeight es + entriesWeight fs := by
  induction es with
  | nil => simp [entriesWeight]
  | cons e es ih => simp [entriesWeight, ih, Nat.add_assoc]

theorem elemsDepth_append (xs ys : List Document) :
    elemsDepth (xs ++ ys) = max (elemsDepth xs) (elemsDepth ys) := by
  induction xs with
  | nil => simp [elemsDepth]
  | cons x xs ih => simp [elemsDepth, ih, Nat.max_assoc]

theorem entriesDepth_append (es fs : List (List Char × Document)) :
    entriesDepth (es ++ fs) = max (entriesDepth es) (entriesDepth fs) := by
  induction es with
  | nil => simp [entriesDepth]
  | cons e es ih => simp [entriesDepth, ih, Nat.max_assoc]

/-- An array or a dictionary. -/
def Document.IsContainer : Document → Prop
  | .array _ => True
  | .dict _ => True
  | _ => False

/-- No key stands twice. -/
def Document.KeysNodup : Document → Prop
  | .dict es => (es.map Prod.fst).Nodup
  | _ => True

/-- Strings and keys without a character that needs an escape. -/
def Document.CleanStrings : Document → Prop
  | .dict es => ∀ e ∈ es, Clean e.1
  | .string s => Clean s
  | _ => True

end Measures

section Parts

/-! ## The parts of what is built -/

/-- Where a property holds of all the builder has, and another one of its keys. -/
structure Builder.All (p : Document → Prop) (q : List Char → Prop) (b : Builder) : Prop where
  lastkey : q b.lastkey
  keys : ∀ f ∈ b.stack, q f.1
  stack : ∀ f ∈ b.stack, f.2.close.All p
  root : ∀ v, b.root = some v → v.All p

variable {p : Document → Prop} {q : List Char → Prop}

/-- The property does not mind arrays, and it minds no more of a dictionary than its
keys. -/
structure Inherits (p : Document → Prop) (q : List Char → Prop) : Prop where
  array : ∀ xs, p (.array xs)
  nil : p (.dict [])
  insert : ∀ es k x, p (.dict es) → q k → k ∉ es.map Prod.fst → p (.dict (es ++ [(k, x)]))

theorem Container.all_add (hp : Inherits p q) {c : Container} (hc : c.close.All p)
    {k : List Char} (hk : q k) {x : Document} (hx : x.All p) : (c.add k x).close.All p := by
  cases c with
  | array xs =>
    refine ⟨hp.array _, allElems_iff.mpr fun y hy => ?_⟩
    rcases List.mem_append.mp hy with hy | hy
    · exact allElems_iff.mp hc.2 y hy
    · rw [List.mem_singleton.mp hy]
      exact hx
  | dict es =>
    by_cases hmem : k ∈ es.map Prod.fst
    · simp only [Container.add, if_pos hmem]
      exact hc
    · simp only [Container.add, if_neg hmem]
      refine ⟨hp.insert es k x hc.1 hk hmem, allEntries_iff.mpr fun e he => ?_⟩
      rcases List.mem_append.mp he with he | he
      · exact allEntries_iff.mp hc.2 e he
      · rw [List.mem_singleton.mp he]
        exact hx

theorem Builder.All.attach (hp : Inherits p q) {b : Builder} (h : b.All p q) {k : List Char}
    (hk : q k) {x : Document} (hx : x.All p) : (b.attach k x).All p q := by
  obtain ⟨lastkey, stack, root⟩ := b
  cases stack with
  | nil =>
    exact ⟨h.lastkey, nofun, nofun, fun v hv => by cases hv; exact hx⟩
  | cons f rest =>
    obtain ⟨k', c⟩ := f
    refine ⟨h.lastkey, fun g hg => ?_, fun g hg => ?_, h.root⟩
    · rcases List.mem_cons.mp hg with rfl | hg
      · exact h.keys (k', c) List.mem_cons_self
      · exact h.keys g (List.mem_cons_of_mem _ hg)
    · rcases List.mem_cons.mp hg with rfl | hg
      · exact Container.all_add hp (h.stack (k', c) List.mem_cons_self) hk hx
      · exact h.stack g (List.mem_cons_of_mem _ hg)

/-- What an event brings has the property. -/
def EventOk (p : Document → Prop) (q : List Char → Prop) : Event → Prop
  | .key s => q (cString s)
  | .string s => p (.string (cString s))
  | .integer n => p (.integer (BitVec.ofInt 32 (scanInteger n)))
  | .float d => p (.float (Lib.Binary32.ofDecimal d))
  | .true => p (.boolean true)
  | .false => p (.boolean false)
  | .null => p .null
  | _ => True

theorem Builder.All.cb (hp : Inherits p q) {b : Builder} (h : b.All p q) {e : Event}
    (he : EventOk p q e) : (b.cb e).All p q := by
  have hpush : ∀ c : Container, c.close.All p →
      Builder.All p q { b with stack := (b.lastkey, c) :: b.stack } := by
    intro c hc
    refine ⟨h.lastkey, fun g hg => ?_, fun g hg => ?_, h.root⟩
    · rcases List.mem_cons.mp hg with rfl | hg
      · exact h.lastkey
      · exact h.keys g hg
    · rcases List.mem_cons.mp hg with rfl | hg
      · exact hc
      · exact h.stack g hg
  have hpop : (b.cb .arrayEnd).All p q := by
    dsimp only [Builder.cb]
    split
    · exact h
    · next k c rest hstack =>
      have hmem : ∀ f ∈ rest, f ∈ b.stack := fun f hf => by
        rw [hstack]
        exact List.mem_cons_of_mem _ hf
      have hrest : Builder.All p q { b with stack := rest } :=
        ⟨h.lastkey, fun g hg => h.keys g (hmem g hg), fun g hg => h.stack g (hmem g hg), h.root⟩
      have htop : (k, c) ∈ b.stack := by
        rw [hstack]
        exact List.mem_cons_self
      exact hrest.attach hp (h.keys _ htop) (h.stack _ htop)
  cases e with
  | arrayBegin => exact hpush (.array []) ⟨hp.array _, trivial⟩
  | objectBegin => exact hpush (.dict []) ⟨hp.nil, trivial⟩
  | arrayEnd => exact hpop
  | objectEnd => exact hpop
  | key s => exact ⟨he, h.keys, h.stack, h.root⟩
  | string s => exact h.attach hp h.lastkey he
  | integer n => exact h.attach hp h.lastkey he
  | float d => exact h.attach hp h.lastkey he
  | true => exact h.attach hp h.lastkey he
  | false => exact h.attach hp h.lastkey he
  | null => exact h.attach hp h.lastkey he

theorem Builder.All.foldl (hp : Inherits p q) {b : Builder} (h : b.All p q) {es : List Event}
    (hes : ∀ e ∈ es, EventOk p q e) : (es.foldl Builder.cb b).All p q := by
  induction es generalizing b with
  | nil => exact h
  | cons e es ih =>
    apply ih (h.cb hp (hes e List.mem_cons_self))
    exact fun e' he' => hes e' (List.mem_cons_of_mem e he')

theorem Builder.All.init (hq : q []) : Builder.init.All p q where
  lastkey := hq
  keys := fun _ hf => by cases hf
  stack := fun _ hf => by cases hf
  root := fun _ hv => by cases hv

/-- No dictionary that is built has a key twice. -/
theorem inherits_keysNodup : Inherits Document.KeysNodup fun _ => True where
  array := fun _ => trivial
  nil := List.nodup_nil
  insert := by
    intro es k x hes _ hk
    show ((es ++ [(k, x)]).map Prod.fst).Nodup
    rw [List.map_append]
    apply List.nodup_append.mpr
    refine ⟨hes, List.nodup_singleton k, ?_⟩
    rintro a ha b hb rfl
    rw [List.mem_singleton.mp hb] at ha
    exact hk ha

/-- The strings of clean tokens are clean. -/
theorem inherits_cleanStrings : Inherits Document.CleanStrings Clean where
  array := fun _ => trivial
  nil := nofun
  insert := by
    intro es k x hes hk _ e he
    rcases List.mem_append.mp he with he | he
    · exact hes e he
    · rw [List.mem_singleton.mp he]
      exact hk

end Parts

end Nox.Json
