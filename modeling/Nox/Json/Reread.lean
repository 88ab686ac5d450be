import Nox.Json.Build
import Nox.Json.Text
import Mathlib.Data.List.TakeWhile

/-!
# What is printed is read again

The tokens of a document without an empty dictionary build the same document again,
but for its floats: each becomes what the stream printed for it.
-/

namespace Nox.Json

open Lib (Binary32)
open Lib.Json

section Reread

/-! ## The document that is read -/

/-- The document of a token that is a value of its own. -/
def tokenDocument : Token → Document
  | .string s => .string (cString s)
  | .integer n => .integer (BitVec.ofInt 32 (scanInteger n))
  | .float d => .float (Binary32.ofDecimal d)
  | .true => .boolean true
  | .false => .boolean false
  | _ => .null

mutual

/-- A document whose floats are what is read for them. -/
def Document.reread : Document → Document
  | .array xs => .array (elemsReread xs)
  | .dict es => .dict (entriesReread es)
  | .float f => (wordToken f.print).elim .null tokenDocument
  | v => v

def elemsReread : List Document → List Document
  | [] => []
  | x :: xs => x.reread :: elemsReread xs

def entriesReread : List (List Char × Document) → List (List Char × Document)
  | [] => []
  | (k, x) :: es => (k, x.reread) :: entriesReread es

end

theorem keys_entriesReread (es : List (List Char × Document)) :
    (entriesReread es).map Prod.fst = es.map Prod.fst := by
  induction es with
  | nil => rfl
  | cons e es ih => simp [entriesReread, ih]

theorem Document.All.and {p q : Document → Prop} {v : Document} (hp : v.All p) (hq : v.All q) :
    v.All fun x => p x ∧ q x := by
  induction v using Document.induct with
  | array xs ih =>
    refine ⟨⟨hp.1, hq.1⟩, allElems_iff.mpr fun x hx => ?_⟩
    exact ih x hx (allElems_iff.mp hp.2 x hx) (allElems_iff.mp hq.2 x hx)
  | dict es ih =>
    refine ⟨⟨hp.1, hq.1⟩, allEntries_iff.mpr fun e he => ?_⟩
    exact ih e he (allEntries_iff.mp hp.2 e he) (allEntries_iff.mp hq.2 e he)
  | integer n => exact ⟨hp, hq⟩
  | float f => exact ⟨hp, hq⟩
  | null => exact ⟨hp, hq⟩
  | boolean b => exact ⟨hp, hq⟩
  | string s => exact ⟨hp, hq⟩

theorem Document.All.mono {p q : Document → Prop} {v : Document} (hp : v.All p)
    (h : ∀ x, p x → q x) : v.All q := by
  induction v using Document.induct with
  | array xs ih =>
    refine ⟨h _ hp.1, allElems_iff.mpr fun x hx => ih x hx (allElems_iff.mp hp.2 x hx)⟩
  | dict es ih =>
    refine ⟨h _ hp.1, allEntries_iff.mpr fun e he => ih e he (allEntries_iff.mp hp.2 e he)⟩
  | integer n => exact h _ hp
  | float f => exact h _ hp
  | null => exact h _ hp
  | boolean b => exact h _ hp
  | string s => exact h _ hp

end Reread

section Runs

/-! ## The run over its tokens -/

/-- No dictionary is empty. -/
def Document.NonemptyDict : Document → Prop
  | .dict es => es ≠ []
  | _ => True

/-- What the run over the tokens needs of the parts of the document. -/
def Document.Plain (v : Document) : Prop :=
  v.CleanStrings ∧ v.KeysNodup ∧ v.NonemptyDict

/-- Where a value is due, the tokens of the document build it. -/
def Rereads (limit : Nat) (v : Document) : Prop :=
  ∀ ts x stack b, v.tokens = some ts →
    (x = .value ∨ x = .valueOrEnd ∨ x = .start ∧ v.IsContainer) →
    stack.length + v.depth ≤ limit →
    ∃ k, ts.foldlM (consume limit) (⟨x, stack⟩, b) =
      some (⟨.next, stack⟩, { b.attach b.lastkey v.reread with lastkey := k })

theorem cString_of_clean {s : List Char} (h : Clean s) : cString s = s := by
  apply List.takeWhile_eq_self_iff.mpr
  intro c hc
  have hle := (h c hc).2.2
  rw [decide_eq_true_eq]
  rintro rfl
  exact absurd hle (by decide)

theorem scanInteger_toInt (n : BitVec 32) : BitVec.ofInt 32 (scanInteger n.toInt) = n := by
  have hle := BitVec.toInt_le (x := n)
  have hge := BitVec.le_toInt n
  have hscan : scanInteger n.toInt = n.toInt := by
    unfold scanInteger
    omega
  rw [hscan, BitVec.ofInt_toInt]

theorem readStep_scalar {limit : Nat} {x : Expect} {stack : List Bool} {t : Token} {e : Event}
    (hx : x = .value ∨ x = .valueOrEnd) (ht : scalar t = some e) :
    readStep limit ⟨x, stack⟩ t = some (⟨.next, stack⟩, [e]) := by
  rcases hx with rfl | rfl <;> cases t <;> cases ht <;> rfl

theorem cb_scalar {t : Token} {e : Event} (ht : scalar t = some e) (b : Builder) :
    b.cb e = b.attach b.lastkey (tokenDocument t) := by
  cases t <;> cases ht <;> rfl

/-- A token that is a value of its own. -/
theorem rereads_scalar {limit : Nat} {v : Document} {t : Token} {e : Event}
    (hv : v.tokens = some [t]) (ht : scalar t = some e) (hread : tokenDocument t = v.reread)
    (hcontainer : ¬v.IsContainer) : Rereads limit v := by
  intro ts x stack b htokens hx _
  rw [hv] at htokens
  cases htokens
  have hx' : x = .value ∨ x = .valueOrEnd := by
    rcases hx with hx | hx | hx
    · exact .inl hx
    · exact .inr hx
    · exact absurd hx.2 hcontainer
  refine ⟨b.lastkey, ?_⟩
  rw [List.foldlM_cons, consume, readStep_scalar hx' ht]
  simp only [Option.map_some, Option.bind_eq_bind, Option.bind_some, List.foldlM_nil,
    List.foldl_cons, List.foldl_nil, cb_scalar ht, hread]
  show some _ = some _
  congr 2
  obtain ⟨lastkey, _ | ⟨f, rest⟩, root⟩ := b <;> rfl

/-- The state in an array, with what has been put into it. -/
def inArray (k : List Char) (rest : List (List Char × Container)) (root : Option Document)
    (lastkey : List Char) (done : List Document) : Builder :=
  { lastkey := lastkey, stack := (k, .array done) :: rest, root := root }

def inDict (k : List Char) (rest : List (List Char × Container)) (root : Option Document)
    (lastkey : List Char) (done : List (List Char × Document)) : Builder :=
  { lastkey := lastkey, stack := (k, .dict done) :: rest, root := root }

theorem elemsTokens_cons {x y : Document} {ys : List Document} {ts : List Token}
    (h : elemsTokens (x :: y :: ys) = some ts) : ∃ us vs, x.tokens = some us ∧
      elemsTokens (y :: ys) = some vs ∧ ts = us ++ .comma :: vs := by
  obtain ⟨us, hus, hrest⟩ := Option.bind_eq_some_iff.mp h
  obtain ⟨vs, hvs, heq⟩ := Option.map_eq_some_iff.mp hrest
  exact ⟨us, vs, hus, hvs, heq.symm⟩

/-- The elements of an array, one after the other. -/
theorem rereads_elems {limit : Nat} {xs : List Document} (hxs : ∀ x ∈ xs, Rereads limit x)
    (hne : xs ≠ []) {ts : List Token} (hts : elemsTokens xs = some ts) {x : Expect}
    (hx : x = .value ∨ x = .valueOrEnd) {stack : List Bool}
    (hdepth : stack.length + 1 + elemsDepth xs ≤ limit) (k : List Char)
    (rest : List (List Char × Container)) (root : Option Document) (lastkey : List Char)
    (done : List Document) : ∃ lastkey', ts.foldlM (consume limit)
      (⟨x, true :: stack⟩, inArray k rest root lastkey done) =
        some (⟨.next, true :: stack⟩, inArray k rest root lastkey' (done ++ elemsReread xs)) := by
  induction xs generalizing ts x lastkey done with
  | nil => exact absurd rfl hne
  | cons y ys ih =>
    have hy := hxs y List.mem_cons_self
    have hx' : x = .value ∨ x = .valueOrEnd ∨ x = .start ∧ y.IsContainer := by
      rcases hx with hx | hx
      · exact .inl hx
      · exact .inr (.inl hx)
    have hle : y.depth ≤ elemsDepth (y :: ys) := Nat.le_max_left ..
    have hle' : elemsDepth ys ≤ elemsDepth (y :: ys) := Nat.le_max_right ..
    cases ys with
    | nil =>
      obtain ⟨lastkey', hrun⟩ := hy ts x (true :: stack) (inArray k rest root lastkey done) hts hx'
        (by rw [List.length_cons]; omega)
      exact ⟨lastkey', hrun⟩
    | cons z zs =>
      obtain ⟨us, vs, hus, hvs, rfl⟩ := elemsTokens_cons hts
      obtain ⟨lastkey₁, hrun⟩ := hy us x (true :: stack) (inArray k rest root lastkey done) hus hx'
        (by rw [List.length_cons]; omega)
      obtain ⟨lastkey₂, hrun'⟩ := ih (fun w hw => hxs w (List.mem_cons_of_mem y hw))
        (List.cons_ne_nil z zs) hvs (.inl rfl) (by omega) lastkey₁ (done ++ [y.reread])
      refine ⟨lastkey₂, ?_⟩
      rw [List.append_assoc] at hrun'
      rw [List.foldlM_append, hrun]
      exact hrun'

theorem entriesTokens_cons {k : List Char} {x : Document} {e : List Char × Document}
    {es : List (List Char × Document)} {ts : List Token}
    (h : entriesTokens ((k, x) :: e :: es) = some ts) : ∃ us vs, x.tokens = some us ∧
      entriesTokens (e :: es) = some vs ∧ ts = .string k :: .colon :: (us ++ .comma :: vs) := by
  obtain ⟨us, hus, hrest⟩ := Option.bind_eq_some_iff.mp h
  obtain ⟨vs, hvs, heq⟩ := Option.map_eq_some_iff.mp hrest
  exact ⟨us, vs, hus, hvs, heq.symm⟩

/-- A key and its colon. -/
theorem consume_key (limit : Nat) {x : Expect} (hx : x = .keyOrEnd ∨ x = .key)
    (stack : List Bool) {s : List Char} (hs : Clean s) (b : Builder) :
    [Token.string s, .colon].foldlM (consume limit) (⟨x, stack⟩, b) =
      some (⟨.value, stack⟩, { b with lastkey := s }) := by
  rcases hx with rfl | rfl
  · show some ((⟨.value, stack⟩ : Reader), { b with lastkey := cString s }) = _
    rw [cString_of_clean hs]
  · show some ((⟨.value, stack⟩ : Reader), { b with lastkey := cString s }) = _
    rw [cString_of_clean hs]

/-- The entries of a dictionary, one after the other. -/
theorem rereads_entries {limit : Nat} {es : List (List Char × Document)}
    (hes : ∀ e ∈ es, Rereads limit e.2) (hclean : ∀ e ∈ es, Clean e.1) (hne : es ≠ [])
    {ts : List Token} (hts : entriesTokens es = some ts) {x : Expect}
    (hx : x = .keyOrEnd ∨ x = .key) {stack : List Bool}
    (hdepth : stack.length + 1 + entriesDepth es ≤ limit) (k : List Char)
    (rest : List (List Char × Container)) (root : Option Document) (lastkey : List Char)
    (done : List (List Char × Document))
    (hnodup : ((done ++ es).map Prod.fst).Nodup) : ∃ lastkey', ts.foldlM (consume limit)
      (⟨x, false :: stack⟩, inDict k rest root lastkey done) =
        some (⟨.next, false :: stack⟩, inDict k rest root lastkey' (done ++ entriesReread es)) := by
  induction es generalizing ts x lastkey done with
  | nil => exact absurd rfl hne
  | cons e es ih =>
    obtain ⟨s, y⟩ := e
    have hy := hes _ List.mem_cons_self
    have hs := hclean _ List.mem_cons_self
    have hle : (s, y).2.depth ≤ entriesDepth ((s, y) :: es) := Nat.le_max_left ..
    have hle' : entriesDepth es ≤ entriesDepth ((s, y) :: es) := Nat.le_max_right ..
    have hkey : s ∉ done.map Prod.fst := by
      intro hmem
      rw [List.map_append, List.nodup_append] at hnodup
      exact hnodup.2.2 s hmem s List.mem_cons_self rfl
    have hinsert : (inDict k rest root s done).attach s y.reread =
        inDict k rest root s (done ++ [(s, y.reread)]) := by
      simp only [inDict, Builder.attach, Container.add, if_neg hkey]
    have hvalue : ∀ us, y.tokens = some us → ∃ lastkey', us.foldlM (consume limit)
        (⟨.value, false :: stack⟩, inDict k rest root s done) =
          some (⟨.next, false :: stack⟩,
            inDict k rest root lastkey' (done ++ [(s, y.reread)])) := by
      intro us hus
      obtain ⟨lastkey', hrun⟩ := hy us .value (false :: stack) (inDict k rest root s done) hus
        (.inl rfl) (by rw [List.length_cons]; omega)
      have hlast : (inDict k rest root s done).lastkey = s := rfl
      rw [hlast, hinsert] at hrun
      exact ⟨lastkey', hrun⟩
    cases es with
    | nil =>
      obtain ⟨us, hus, rfl⟩ := Option.map_eq_some_iff.mp hts
      obtain ⟨lastkey', hrun⟩ := hvalue us hus
      refine ⟨lastkey', ?_⟩
      have hkeyRun := consume_key limit hx (false :: stack) hs
        (inDict k rest root lastkey done)
      show ([Token.string s, .colon] ++ us).foldlM (consume limit) _ = _
      rw [List.foldlM_append, hkeyRun]
      exact hrun
    | cons e' es' =>
      obtain ⟨us, vs, hus, hvs, rfl⟩ := entriesTokens_cons hts
      obtain ⟨lastkey₁, hrun⟩ := hvalue us hus
      have hnodup' : ((done ++ [(s, y.reread)] ++ (e' :: es')).map Prod.fst).Nodup := by
        simpa using hnodup
      obtain ⟨lastkey₂, hrun'⟩ := ih (fun w hw => hes w (List.mem_cons_of_mem _ hw))
        (fun w hw => hclean w (List.mem_cons_of_mem _ hw)) (List.cons_ne_nil e' es') hvs (.inr rfl)
        (by omega) lastkey₁ (done ++ [(s, y.reread)]) hnodup'
      refine ⟨lastkey₂, ?_⟩
      have hkeyRun := consume_key limit hx (false :: stack) hs
        (inDict k rest root lastkey done)
      rw [List.append_assoc] at hrun'
      show ([Token.string s, .colon] ++ (us ++ .comma :: vs)).foldlM (consume limit) _ = _
      rw [List.foldlM_append, hkeyRun]
      show (us ++ .comma :: vs).foldlM (consume limit) (_, inDict k rest root s done) = _
      rw [List.foldlM_append, hrun]
      exact hrun'

/-- What is read for a float is a value of its own. -/
theorem scalar_wordToken {w : List Char} {t : Token} (h : wordToken w = some t) :
    ∃ e, scalar t = some e := by
  unfold wordToken at h
  repeat' split at h
  · cases h
    exact ⟨_, rfl⟩
  · cases h
    exact ⟨_, rfl⟩
  · cases h
    exact ⟨_, rfl⟩
  · obtain ⟨n, -, rfl⟩ := Option.map_eq_some_iff.mp h
    split <;> exact ⟨_, rfl⟩

/-- The tokens of a document build it again. -/
theorem rereads (limit : Nat) {v : Document} (h : v.All Document.Plain) : Rereads limit v := by
  induction v using Document.induct with
  | array xs ih =>
    intro ts x stack b htokens hx hdepth
    obtain ⟨us, hus, rfl⟩ := Option.map_eq_some_iff.mp htokens
    have hall := allElems_iff.mp h.2
    have hlimit : stack.length + 1 + elemsDepth xs ≤ limit := by
      have hd : (Document.array xs).depth = elemsDepth xs + 1 := rfl
      omega
    have hbegin : consume limit (⟨x, stack⟩, b) .leftBracket =
        some (⟨.valueOrEnd, true :: stack⟩, inArray b.lastkey b.stack b.root b.lastkey []) := by
      have hlt : stack.length < limit := by omega
      rcases hx with rfl | rfl | ⟨rfl, -⟩ <;> simp [consume, readStep, readValue, hlt] <;> rfl
    have hend : ∀ (y : Expect) (lastkey : List Char) (done : List Document),
        y = .valueOrEnd ∨ y = .next → consume limit
          (⟨y, true :: stack⟩, inArray b.lastkey b.stack b.root lastkey done) .rightBracket =
            some (⟨.next, stack⟩, { b.attach b.lastkey (.array done) with lastkey := lastkey }) := by
      intro y lastkey done hy
      obtain ⟨_, _ | ⟨f, rest⟩, _⟩ := b <;> rcases hy with rfl | rfl <;> rfl
    rw [List.foldlM_cons, hbegin]
    cases xs with
    | nil =>
      cases hus
      refine ⟨b.lastkey, ?_⟩
      rw [Option.bind_eq_bind, Option.bind_some, List.nil_append, List.foldlM_cons,
        hend .valueOrEnd b.lastkey [] (.inl rfl)]
      rfl
    | cons y ys =>
      obtain ⟨lastkey, hrun⟩ := rereads_elems (fun z hz => ih z hz (hall z hz))
        (List.cons_ne_nil y ys) hus (.inr rfl) hlimit b.lastkey b.stack b.root b.lastkey []
      refine ⟨lastkey, ?_⟩
      show (us ++ [Token.rightBracket]).foldlM (consume limit) _ = _
      rw [List.foldlM_append, hrun]
      rw [Option.bind_eq_bind, Option.bind_some, List.foldlM_cons, List.nil_append,
        hend .next lastkey _ (.inr rfl)]
      rfl
  | dict es ih =>
    intro ts x stack b htokens hx hdepth
    obtain ⟨hclean, hnodup, hne⟩ := h.1
    have hall := allEntries_iff.mp h.2
    have hlimit : stack.length + 1 + entriesDepth es ≤ limit := by
      have hd : (Document.dict es).depth = entriesDepth es + 1 := rfl
      omega
    have hbegin : consume limit (⟨x, stack⟩, b) .leftBrace =
        some (⟨.keyOrEnd, false :: stack⟩, inDict b.lastkey b.stack b.root b.lastkey []) := by
      have hlt : stack.length < limit := by omega
      rcases hx with rfl | rfl | ⟨rfl, -⟩ <;> simp [consume, readStep, readValue, hlt] <;> rfl
    have hend : ∀ (lastkey : List Char) (done : List (List Char × Document)), consume limit
        (⟨.next, false :: stack⟩, inDict b.lastkey b.stack b.root lastkey done) .rightBrace =
          some (⟨.next, stack⟩, { b.attach b.lastkey (.dict done) with lastkey := lastkey }) := by
      intro lastkey done
      obtain ⟨_, _ | ⟨f, rest⟩, _⟩ := b <;> rfl
    cases es with
    | nil => exact absurd rfl hne
    | cons e es =>
      obtain ⟨us, hus, rfl⟩ := Option.map_eq_some_iff.mp htokens
      obtain ⟨lastkey, hrun⟩ := rereads_entries (fun z hz => ih z hz (hall z hz)) hclean hne hus
        (.inl rfl) hlimit b.lastkey b.stack b.root b.lastkey [] hnodup
      refine ⟨lastkey, ?_⟩
      rw [List.foldlM_cons, hbegin]
      show (us ++ [Token.rightBrace]).foldlM (consume limit) _ = _
      rw [List.foldlM_append, hrun]
      rw [Option.bind_eq_bind, Option.bind_some, List.foldlM_cons, List.nil_append, hend lastkey]
      rfl
  | integer n =>
    refine rereads_scalar (t := .integer n.toInt) rfl rfl ?_ (fun hfalse => hfalse)
    simp only [tokenDocument, scanInteger_toInt, Document.reread]
  | float f =>
    intro ts x stack b htokens
    obtain ⟨t, ht, -⟩ := Option.map_eq_some_iff.mp htokens
    obtain ⟨e, he⟩ := scalar_wordToken ht
    have hcontainer : ¬(Document.float f).IsContainer := fun hfalse => hfalse
    refine rereads_scalar (t := t) ?_ he ?_ hcontainer ts x stack b htokens
    · simp only [Document.tokens, ht, Option.map_some]
    · simp only [Document.reread, ht, Option.elim_some]
  | null => exact rereads_scalar (t := .null) rfl rfl rfl fun hfalse => hfalse
  | boolean b =>
    cases b with
    | true => exact rereads_scalar (t := .true) rfl rfl rfl fun hfalse => hfalse
    | false => exact rereads_scalar (t := .false) rfl rfl rfl fun hfalse => hfalse
  | string s =>
    refine rereads_scalar (t := .string s) rfl rfl ?_ (fun hfalse => hfalse)
    have hclean : Clean s := h.1
    simp only [tokenDocument, cString_of_clean hclean, Document.reread]

end Runs

end Nox.Json
