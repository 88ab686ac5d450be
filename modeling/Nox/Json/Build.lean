import Nox.Json.Parts
import Nox.Lib.JsonEvents

/-!
# What is built

What a text builds is an array or a dictionary, not deeper than the parser allows, no
dictionary of it has a key twice, and its strings come from the tokens of the text.
-/

namespace Nox.Json

open Lib.Json

section Runs

/-! ## Reading and building together -/

/-- One token is read, and its events go to the builder. -/
def consume (depth : Nat) (p : Reader × Builder) (t : Token) : Option (Reader × Builder) :=
  (readStep depth p.1 t).map fun q => (q.1, q.2.foldl Builder.cb p.2)

def Container.isArray : Container → Bool
  | .array _ => true
  | .dict _ => false

/-- The reader and the builder agree on what is open. -/
def Agree (r : Reader) (b : Builder) : Prop :=
  r.stack = b.stack.map fun f => f.2.isArray

theorem eventsFrom_run {depth : Nat} {r : Reader} {ts : List Token} {es : List Event}
    (h : eventsFrom depth r ts = some es) (b : Builder) :
    ts.foldlM (consume depth) (r, b) = some (⟨.next, []⟩, es.foldl Builder.cb b) := by
  induction ts generalizing r es b with
  | nil =>
    simp only [eventsFrom] at h
    split at h
    · next hr =>
      cases h
      rw [hr]
      rfl
    · cases h
  | cons t ts ih =>
    obtain ⟨⟨r₁, us⟩, hstep, hrest⟩ := Option.bind_eq_some_iff.mp h
    obtain ⟨vs, hvs, heq⟩ := Option.bind_eq_some_iff.mp hrest
    cases heq
    rw [List.foldlM_cons, consume, hstep, List.foldl_append]
    exact ih hvs _

theorem run_eventsFrom {depth : Nat} {r : Reader} {b b' : Builder} {ts : List Token}
    (h : ts.foldlM (consume depth) (r, b) = some (⟨.next, []⟩, b')) :
    ∃ es, eventsFrom depth r ts = some es ∧ es.foldl Builder.cb b = b' := by
  induction ts generalizing r b with
  | nil =>
    cases h
    exact ⟨[], rfl, rfl⟩
  | cons t ts ih =>
    obtain ⟨⟨r₁, b₁⟩, hstep, hrest⟩ := Option.bind_eq_some_iff.mp h
    obtain ⟨⟨r₂, us⟩, hread, heq⟩ := Option.map_eq_some_iff.mp hstep
    cases heq
    obtain ⟨vs, hvs, rfl⟩ := ih hrest
    refine ⟨us ++ vs, ?_, List.foldl_append⟩
    simp only [eventsFrom, hread, Option.bind_eq_bind, Option.bind_some]
    rw [hvs]
    rfl

/-- A document is built by a run over the tokens of the text. -/
theorem build_eq_some {depth : Nat} {str : List Char} {v : Document} :
    build depth str = some v ↔ ∃ ts b, lex str = some ts ∧
      ts.foldlM (consume (depth - 1)) (⟨.start, []⟩, .init) = some (⟨.next, []⟩, b) ∧
      b.root = some v := by
  constructor
  · intro h
    obtain ⟨es, hes, hroot⟩ := Option.bind_eq_some_iff.mp h
    obtain ⟨ts, hts, hfrom⟩ := Option.bind_eq_some_iff.mp hes
    exact ⟨ts, _, hts, eventsFrom_run hfrom .init, hroot⟩
  · rintro ⟨ts, b, hts, hrun, hroot⟩
    obtain ⟨es, hes, rfl⟩ := run_eventsFrom hrun
    simp only [build, events, hts, Option.bind_eq_bind, Option.bind_some]
    rw [hes]
    exact hroot

/-- How deep what is open may become. -/
def StackFits (limit : Nat) : List (List Char × Container) → Prop
  | [] => True
  | (_, c) :: rest => c.close.depth + rest.length ≤ limit ∧ StackFits limit rest

/-- A key counts where it comes into a dictionary. -/
def keyWeight (key : List Char) : List (List Char × Container) → Nat
  | (_, .dict _) :: _ => weight key
  | _ => 0

/-- The weight of what is open, and of the keys it comes under. -/
def stackWeight : List (List Char × Container) → Nat
  | [] => 0
  | (k, c) :: rest => c.close.weight + keyWeight k rest + stackWeight rest

def Builder.weight (b : Builder) : Nat :=
  stackWeight b.stack + b.root.elim 0 Document.weight

theorem weight_cString_le (s : List Char) : Lib.Json.weight (cString s) ≤ Lib.Json.weight s := by
  have hsplit := List.takeWhile_append_dropWhile (p := (· ≠ '\x00')) (l := s)
  rw [← hsplit, weight_append]
  exact Nat.le_trans (Nat.le_of_eq (by rw [cString, hsplit])) (Nat.le_add_right ..)

theorem Container.weight_add (k : List Char) (c : Container) (x : Document) :
    (c.add k x).close.weight ≤
      c.close.weight + (if c.isArray then 0 else Lib.Json.weight k) + x.weight := by
  cases c with
  | array xs =>
    simp only [Container.add, Container.close, Document.weight, elemsWeight_append, elemsWeight,
      Container.isArray]
    simp
  | dict es =>
    simp only [Container.add, Container.isArray]
    split
    · simp only [Container.close, Document.weight]
      omega
    · simp only [Container.close, Document.weight, entriesWeight_append, entriesWeight]
      simp [Nat.add_assoc]

theorem Container.depth_add (k : List Char) (c : Container) (x : Document) :
    (c.add k x).close.depth ≤ max c.close.depth (x.depth + 1) := by
  cases c with
  | array xs =>
    simp only [Container.add, Container.close, Document.depth, elemsDepth_append, elemsDepth]
    omega
  | dict es =>
    simp only [Container.add]
    split
    · exact Nat.le_max_left ..
    · simp only [Container.close, Document.depth, entriesDepth_append, entriesDepth]
      omega

theorem Container.isArray_add (k : List Char) (c : Container) (x : Document) :
    (c.add k x).isArray = c.isArray := by
  cases c with
  | array xs => rfl
  | dict es =>
    simp only [Container.add]
    split <;> rfl

theorem keyWeight_cons (key : List Char) (f : List Char × Container)
    (rest : List (List Char × Container)) :
    keyWeight key (f :: rest) = if f.2.isArray then 0 else Lib.Json.weight key := by
  obtain ⟨k, c⟩ := f
  cases c <;> rfl

theorem Builder.weight_attach (b : Builder) (k : List Char) (x : Document) :
    (b.attach k x).weight ≤ b.weight + keyWeight k b.stack + x.weight := by
  obtain ⟨lastkey, stack, root⟩ := b
  cases stack with
  | nil =>
    simp only [Builder.attach, Builder.weight, stackWeight, Option.elim_some]
    omega
  | cons f rest =>
    obtain ⟨k', c⟩ := f
    have hle := Container.weight_add k c x
    simp only [Builder.attach, Builder.weight, stackWeight, keyWeight_cons]
    omega

theorem Agree.attach {r : Reader} {b : Builder} (h : Agree r b) (k : List Char) (x : Document) :
    Agree r (b.attach k x) := by
  obtain ⟨lastkey, stack, root⟩ := b
  cases stack with
  | nil => exact h
  | cons f rest =>
    refine h.trans ?_
    simp only [Builder.attach, List.map_cons, Container.isArray_add]

theorem StackFits.attach {limit : Nat} {b : Builder} (h : StackFits limit b.stack)
    (k : List Char) {x : Document} (hx : x.depth + b.stack.length ≤ limit) :
    StackFits limit (b.attach k x).stack := by
  obtain ⟨lastkey, stack, root⟩ := b
  cases stack with
  | nil => exact h
  | cons f rest =>
    obtain ⟨k', c⟩ := f
    refine ⟨?_, h.2⟩
    have hle := Container.depth_add k c x
    have hc := h.1
    simp only [List.length_cons] at hx
    omega

end Runs

section Invariant

/-! ## What holds between the tokens -/

/-- A key has been read whose value is due. -/
def keyPending (r : Reader) : Bool :=
  r.expect = .colon || r.expect = .value && r.stack.head? = some false

structure Inv (limit : Nat) (r : Reader) (b : Builder) : Prop where
  agree : Agree r b
  fits : r.Fits
  stack : StackFits limit b.stack
  root : ∀ v, b.root = some v → v.depth ≤ limit ∧ v.IsContainer

/-- The weight of what is built, and of a key that has not been used yet. -/
def potential (r : Reader) (b : Builder) : Nat :=
  b.weight + if keyPending r then Lib.Json.weight b.lastkey else 0

theorem keyWeight_eq {r : Reader} {b : Builder} (h : Agree r b) (k : List Char) :
    keyWeight k b.stack = if r.stack.head? = some false then Lib.Json.weight k else 0 := by
  unfold Agree at h
  cases hstack : b.stack with
  | nil =>
    rw [hstack] at h
    rw [h]
    rfl
  | cons f rest =>
    rw [hstack] at h
    rw [h, keyWeight_cons]
    cases hf : f.2.isArray <;> simp [hf]

/-- The document of an event that is a value of its own. -/
theorem scalar_attach {t : Token} {e : Event} (h : scalar t = some e) (b : Builder) :
    ∃ x : Document, b.cb e = b.attach b.lastkey x ∧ x.depth = 0 ∧ x.weight ≤ t.weight := by
  cases t with
  | string s => cases h; exact ⟨_, rfl, rfl, weight_cString_le s⟩
  | integer n => cases h; exact ⟨_, rfl, rfl, Nat.le_refl _⟩
  | float d => cases h; exact ⟨_, rfl, rfl, Nat.le_refl _⟩
  | true => cases h; exact ⟨_, rfl, rfl, Nat.le_refl _⟩
  | false => cases h; exact ⟨_, rfl, rfl, Nat.le_refl _⟩
  | null => cases h; exact ⟨_, rfl, rfl, Nat.le_refl _⟩
  | _ => cases h

theorem root_attach_of_ne_nil {b : Builder} (h : b.stack ≠ []) (k : List Char) (x : Document) :
    (b.attach k x).root = b.root := by
  obtain ⟨lastkey, stack, root⟩ := b
  cases stack with
  | nil => exact absurd rfl h
  | cons f rest => rfl

/-- A value comes where one is due. -/
theorem Inv.attach {limit : Nat} {x : Expect} {stack : List Bool} {b : Builder}
    (h : Inv limit ⟨x, stack⟩ b) (hx : x = .value ∨ x = .valueOrEnd) {v : Document}
    (hv : v.depth = 0) :
    Inv limit ⟨.next, stack⟩ (b.attach b.lastkey v) ∧
      potential ⟨.next, stack⟩ (b.attach b.lastkey v) ≤ potential ⟨x, stack⟩ b + v.weight := by
  have hne : b.stack ≠ [] := by
    intro hnil
    have hagree := h.agree
    have hfits := h.fits
    unfold Agree at hagree
    rw [hnil] at hagree
    obtain rfl : stack = [] := hagree
    rcases hx with rfl | rfl
    · exact hfits rfl
    · cases hfits
  have hlength : stack.length = b.stack.length := by
    have hagree := h.agree
    unfold Agree at hagree
    rw [show stack = _ from hagree, List.length_map]
  have hdepth : b.stack.length ≤ limit := by
    cases hstack : b.stack with
    | nil => exact Nat.zero_le _
    | cons f rest =>
      obtain ⟨k, c⟩ := f
      have hfits := h.stack
      rw [hstack] at hfits
      have hpos : 1 ≤ c.close.depth := by cases c <;> exact Nat.le_add_left ..
      have hle := hfits.1
      rw [List.length_cons]
      omega
  refine ⟨⟨h.agree.attach .., trivial, h.stack.attach _ (by omega), ?_⟩, ?_⟩
  · rw [root_attach_of_ne_nil hne]
    exact h.root
  · have hle := b.weight_attach b.lastkey v
    have hkey := keyWeight_eq h.agree b.lastkey
    rw [hkey] at hle
    have hpending : (if stack.head? = some false then Lib.Json.weight b.lastkey else 0) ≤
        if keyPending ⟨x, stack⟩ then Lib.Json.weight b.lastkey else 0 := by
      split
      · next hhead =>
        rcases hx with rfl | rfl
        · simp [keyPending, hhead]
        · have hfits := h.fits
          simp only [Reader.Fits, hhead] at hfits
          cases hfits
      · exact Nat.zero_le _
    have hnext : keyPending ⟨.next, stack⟩ = false := rfl
    simp only [potential, hnext, Bool.false_eq_true, if_false]
    simp only at hle
    omega

/-- A container begins. -/
theorem Inv.push {limit : Nat} {x : Expect} {stack : List Bool} {b : Builder}
    (h : Inv limit ⟨x, stack⟩ b) (hx : x = .start ∨ x = .value ∨ x = .valueOrEnd)
    (hdepth : stack.length < limit) {c : Container} (hc : c.close.depth = 1)
    (hweight : c.close.weight = 0) {y : Expect} (hy : y = .valueOrEnd ∧ c.isArray = true ∨
      y = .keyOrEnd ∧ c.isArray = false) :
    Inv limit ⟨y, c.isArray :: stack⟩ { b with stack := (b.lastkey, c) :: b.stack } ∧
      potential ⟨y, c.isArray :: stack⟩ { b with stack := (b.lastkey, c) :: b.stack } ≤
        potential ⟨x, stack⟩ b := by
  have hagree : stack = b.stack.map fun f => f.2.isArray := h.agree
  refine ⟨⟨?_, ?_, ⟨?_, h.stack⟩, h.root⟩, ?_⟩
  · show c.isArray :: stack = c.isArray :: _
    rw [hagree]
  · rcases hy with ⟨rfl, hc⟩ | ⟨rfl, hc⟩ <;> rw [hc] <;> rfl
  · rw [hagree, List.length_map] at hdepth
    rw [hc]
    omega
  · have hkey := keyWeight_eq h.agree b.lastkey
    have hpending : keyPending ⟨y, c.isArray :: stack⟩ = false := by
      rcases hy with ⟨rfl, -⟩ | ⟨rfl, -⟩ <;> rfl
    simp only [potential, hpending, Bool.false_eq_true, if_false, Builder.weight, stackWeight,
      hweight, hkey]
    have hle : (if stack.head? = some false then Lib.Json.weight b.lastkey else 0) ≤
        if keyPending ⟨x, stack⟩ then Lib.Json.weight b.lastkey else 0 := by
      split
      · next hhead =>
        have hfits := h.fits
        rcases hx with rfl | rfl | rfl
        · simp only [Reader.Fits] at hfits
          rw [hfits] at hhead
          cases hhead
        · simp [keyPending, hhead]
        · simp only [Reader.Fits, hhead] at hfits
          cases hfits
      · exact Nat.zero_le _
    omega

/-- A container ends. -/
theorem Inv.pop {limit : Nat} {x : Expect} {a : Bool} {stack : List Bool} {b : Builder}
    (h : Inv limit ⟨x, a :: stack⟩ b) (hx : keyPending ⟨x, a :: stack⟩ = false) :
    ∃ k c rest, b.stack = (k, c) :: rest ∧ c.isArray = a ∧
      Inv limit ⟨.next, stack⟩ ({ b with stack := rest }.attach k c.close) ∧
      potential ⟨.next, stack⟩ ({ b with stack := rest }.attach k c.close) ≤
        potential ⟨x, a :: stack⟩ b := by
  have hagree : a :: stack = b.stack.map fun f => f.2.isArray := h.agree
  cases hstack : b.stack with
  | nil => rw [hstack] at hagree; cases hagree
  | cons f rest =>
    obtain ⟨k, c⟩ := f
    rw [hstack] at hagree
    obtain ⟨ha, hrest⟩ := List.cons.inj hagree
    have hfits := h.stack
    rw [hstack] at hfits
    have hagree' : Agree ⟨.next, stack⟩ { b with stack := rest } := hrest
    refine ⟨k, c, rest, rfl, ha.symm, ⟨hagree'.attach .., trivial, ?_, ?_⟩, ?_⟩
    · exact StackFits.attach (b := { b with stack := rest }) hfits.2 k hfits.1
    · intro v hv
      cases rest with
      | nil =>
        cases hv
        exact ⟨hfits.1, by cases c <;> trivial⟩
      | cons g rest => exact h.root v hv
    · have hle := Builder.weight_attach { b with stack := rest } k c.close
      have hnext : keyPending ⟨.next, stack⟩ = false := rfl
      simp only [potential, hx, hnext, Bool.false_eq_true, if_false]
      simp only [Builder.weight, hstack, stackWeight] at hle ⊢
      omega

theorem Inv.consume {limit : Nat} {r r' : Reader} {b b' : Builder} {t : Token}
    (h : Inv limit r b) (hstep : consume limit (r, b) t = some (r', b')) :
    Inv limit r' b' ∧ potential r' b' ≤ potential r b + t.weight := by
  obtain ⟨⟨r₁, es⟩, hread, heq⟩ := Option.map_eq_some_iff.mp hstep
  cases heq
  have hreads := readStep_cases hread
  have hfits := hreads.fits h.fits
  cases hreads with
  | arrayBegin x stack hx hdepth =>
    exact h.push hx hdepth (c := .array []) rfl rfl (.inl ⟨rfl, rfl⟩)
  | objectBegin x stack hx hdepth =>
    exact h.push hx hdepth (c := .dict []) rfl rfl (.inr ⟨rfl, rfl⟩)
  | scalar x stack t e hx ht =>
    obtain ⟨v, hv, hdepth, hweight⟩ := scalar_attach ht b
    obtain ⟨hinv, hle⟩ := h.attach hx hdepth
    simp only [List.foldl_cons, List.foldl_nil, hv]
    exact ⟨hinv, Nat.le_trans hle (Nat.add_le_add_left hweight _)⟩
  | arrayEnd x stack hx =>
    obtain ⟨k, c, rest, hstack, -, hinv, hle⟩ := h.pop (by rcases hx with rfl | rfl <;> rfl)
    simp only [List.foldl_cons, List.foldl_nil, Builder.cb, hstack]
    exact ⟨hinv, hle⟩
  | objectEnd x stack hx =>
    obtain ⟨k, c, rest, hstack, -, hinv, hle⟩ := h.pop (by rcases hx with rfl | rfl <;> rfl)
    simp only [List.foldl_cons, List.foldl_nil, Builder.cb, hstack]
    exact ⟨hinv, hle⟩
  | key x stack s hx =>
    refine ⟨⟨h.agree, hfits, h.stack, h.root⟩, ?_⟩
    have hle := weight_cString_le s
    have hbefore : keyPending ⟨x, stack⟩ = false := by rcases hx with rfl | rfl <;> rfl
    have hafter : keyPending ⟨.colon, stack⟩ = true := rfl
    simp only [potential, hbefore, hafter, Bool.false_eq_true, if_false, if_true]
    exact Nat.add_le_add_left hle _
  | colon stack =>
    refine ⟨⟨h.agree, hfits, h.stack, h.root⟩, ?_⟩
    have hbefore : keyPending ⟨.colon, stack⟩ = true := rfl
    have hhead : stack.head? = some false := h.fits
    have hafter : keyPending ⟨.value, stack⟩ = true := by simp [keyPending, hhead]
    simp only [potential, hbefore, hafter, if_true]
    exact Nat.le_refl _
  | commaArray stack => exact ⟨⟨h.agree, hfits, h.stack, h.root⟩, Nat.le_refl _⟩
  | commaObject stack => exact ⟨⟨h.agree, hfits, h.stack, h.root⟩, Nat.le_refl _⟩

theorem Inv.run {limit : Nat} {r r' : Reader} {b b' : Builder} {ts : List Token}
    (h : Inv limit r b) (hrun : ts.foldlM (Json.consume limit) (r, b) = some (r', b')) :
    Inv limit r' b' ∧ potential r' b' ≤ potential r b + tokensWeight ts := by
  induction ts generalizing r b with
  | nil =>
    cases hrun
    exact ⟨h, Nat.le_refl _⟩
  | cons t ts ih =>
    obtain ⟨⟨r₁, b₁⟩, hstep, hrest⟩ := Option.bind_eq_some_iff.mp hrun
    obtain ⟨hinv, hle⟩ := h.consume hstep
    obtain ⟨hinv', hle'⟩ := ih hinv hrest
    refine ⟨hinv', ?_⟩
    rw [tokensWeight_cons]
    omega

theorem Inv.init (limit : Nat) : Inv limit ⟨.start, []⟩ .init where
  agree := rfl
  fits := rfl
  stack := trivial
  root := nofun

theorem Clean.cString {s : List Char} (h : Clean s) : Clean (cString s) :=
  fun c hc => h c (List.takeWhile_subset _ hc)

/-- The events of clean tokens bring clean strings. -/
theorem eventOk_of_clean {limit : Nat} {r r' : Reader} {t : Token} {es : List Event}
    (h : Reads limit r t r' es) (ht : t.Clean) :
    ∀ e ∈ es, EventOk Document.CleanStrings Clean e := by
  intro e he
  cases h with
  | key x stack s hx =>
    rw [List.mem_singleton.mp he]
    exact Clean.cString ht
  | scalar x stack t e' hx hscalar =>
    rw [List.mem_singleton.mp he]
    cases t with
    | string s =>
      cases hscalar
      exact Clean.cString ht
    | integer n => cases hscalar; exact trivial
    | float d => cases hscalar; exact trivial
    | true => cases hscalar; exact trivial
    | false => cases hscalar; exact trivial
    | null => cases hscalar; exact trivial
    | _ => cases hscalar
  | arrayBegin => rw [List.mem_singleton.mp he]; exact trivial
  | objectBegin => rw [List.mem_singleton.mp he]; exact trivial
  | arrayEnd => rw [List.mem_singleton.mp he]; exact trivial
  | objectEnd => rw [List.mem_singleton.mp he]; exact trivial
  | _ => cases he

theorem Builder.All.run {p : Document → Prop} {q : List Char → Prop} (hp : Inherits p q)
    {limit : Nat} {r r' : Reader} {b b' : Builder} {ts : List Token} (h : b.All p q)
    (hok : ∀ t ∈ ts, ∀ r r' es, Reads limit r t r' es → ∀ e ∈ es, EventOk p q e)
    (hrun : ts.foldlM (Json.consume limit) (r, b) = some (r', b')) : b'.All p q := by
  induction ts generalizing r b with
  | nil =>
    cases hrun
    exact h
  | cons t ts ih =>
    obtain ⟨⟨r₁, b₁⟩, hstep, hrest⟩ := Option.bind_eq_some_iff.mp hrun
    obtain ⟨⟨r₂, es⟩, hread, heq⟩ := Option.map_eq_some_iff.mp hstep
    cases heq
    have hes := hok t List.mem_cons_self r _ es (readStep_cases hread)
    exact ih (h.foldl hp hes) (fun u hu => hok u (List.mem_cons_of_mem t hu)) hrest

/-- What is built. -/
theorem build_spec {depth : Nat} {str : List Char} {v : Document}
    (h : build depth str = some v) :
    v.depth ≤ depth - 1 ∧ v.IsContainer ∧ v.All Document.KeysNodup ∧ ∃ ts, lex str = some ts ∧
      v.weight ≤ tokensWeight ts ∧ ((∀ t ∈ ts, t.Clean) → v.All Document.CleanStrings) := by
  obtain ⟨ts, b, hts, hrun, hroot⟩ := build_eq_some.mp h
  obtain ⟨hinv, hle⟩ := (Inv.init (depth - 1)).run hrun
  obtain ⟨hdepth, hcontainer⟩ := hinv.root v hroot
  have hkeys : b.All Document.KeysNodup fun _ => True := by
    refine Builder.All.run inherits_keysNodup (Builder.All.init trivial) ?_ hrun
    intro t _ r r' es _ e _
    cases e <;> trivial
  refine ⟨hdepth, hcontainer, hkeys.root v hroot, ts, hts, ?_, fun hclean => ?_⟩
  · have hpotential : potential ⟨.start, []⟩ .init = 0 := rfl
    rw [hpotential, Nat.zero_add] at hle
    have hweight : v.weight ≤ potential ⟨.next, []⟩ b := by
      simp only [potential, Builder.weight, hroot, Option.elim_some]
      omega
    exact Nat.le_trans hweight hle
  · have hall : b.All Document.CleanStrings Clean := by
      refine Builder.All.run inherits_cleanStrings (Builder.All.init nofun) ?_ hrun
      exact fun t ht r r' es hreads => eventOk_of_clean hreads (hclean t ht)
    exact hall.root v hroot

end Invariant

end Nox.Json
