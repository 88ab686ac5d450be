import Nox.Json.Parts
import Nox.Lib.NumberText

/-!
# What is printed

The text of a document weighs what its strings weigh.  Where the strings need no
escape it is read as the tokens one expects, but for the floats: these are read as
what was printed for them.
-/

namespace Nox.Json

open Lib (Binary32 decimalNumeral sixDigits)
open Lib.Json
open Interserver (JsonObject)

section Equations

/-! ## The text of a document -/

/-- The elements of an array, with commas. -/
def elemsText (xs : List Document) : List Char :=
  (JsonObject.elemsString (elemsToObject xs)).toList

def entriesText (es : List (List Char × Document)) : List Char :=
  (JsonObject.entriesString (entriesToObject es)).toList

attribute [local simp] Document.text Document.toObject JsonObject.getString elemsText entriesText
  elemsToObject entriesToObject JsonObject.elemsString JsonObject.entriesString

theorem text_array (xs : List Document) :
    (Document.array xs).text = '[' :: (elemsText xs ++ [']']) := by
  simp

theorem text_dict_nil : (Document.dict []).text = ['\x7d'] := by
  simp

theorem text_dict_cons (e : List Char × Document) (es : List (List Char × Document)) :
    (Document.dict (e :: es)).text = '\x7b' :: (entriesText (e :: es) ++ ['\x7d']) := by
  simp

theorem text_integer (n : BitVec 32) :
    (Document.integer n).text = (toString n.toInt).toList :=
  rfl

theorem text_float (f : Binary32) : (Document.float f).text = f.print := by
  simp

theorem text_string (s : List Char) : (Document.string s).text = '"' :: (s ++ ['"']) := by
  simp

theorem elemsText_nil : elemsText [] = [] := by
  simp

theorem elemsText_singleton (x : Document) : elemsText [x] = x.text := by
  simp

theorem elemsText_cons (x y : Document) (ys : List Document) :
    elemsText (x :: y :: ys) = x.text ++ ',' :: elemsText (y :: ys) := by
  simp

theorem entriesText_singleton (k : List Char) (x : Document) :
    entriesText [(k, x)] = '"' :: (k ++ '"' :: ':' :: x.text) := by
  simp

theorem entriesText_cons (k : List Char) (x : Document) (e : List Char × Document)
    (es : List (List Char × Document)) :
    entriesText ((k, x) :: e :: es) =
      '"' :: (k ++ '"' :: ':' :: (x.text ++ ',' :: entriesText (e :: es))) := by
  simp

end Equations

section Weights

/-! ## Its weight -/

theorem weight_print (f : Binary32) : Lib.Json.weight f.print = 0 := by
  cases f with
  | finite neg mant exp h => exact (Lib.decimalNumeral_valid (sixDigits neg mant exp)).weight_text
  | infinite neg => cases neg <;> rfl

theorem weight_elemsText {xs : List Document}
    (h : ∀ x ∈ xs, Lib.Json.weight x.text = x.weight) :
    Lib.Json.weight (elemsText xs) = elemsWeight xs := by
  induction xs with
  | nil => rw [elemsText_nil]; rfl
  | cons x xs ih =>
    have hx := h x List.mem_cons_self
    cases xs with
    | nil => rw [elemsText_singleton, hx, elemsWeight, elemsWeight, Nat.add_zero]
    | cons y ys =>
      have hcomma : charWeight ',' = 0 := rfl
      rw [elemsText_cons, weight_append, weight_cons, hx, hcomma, Nat.zero_add,
        ih fun z hz => h z (List.mem_cons_of_mem x hz)]
      rfl

theorem weight_entriesText {es : List (List Char × Document)}
    (h : ∀ e ∈ es, Lib.Json.weight e.2.text = e.2.weight) :
    Lib.Json.weight (entriesText es) = entriesWeight es := by
  have hquote : charWeight '"' = 0 := rfl
  have hcolon : charWeight ':' = 0 := rfl
  have hcomma : charWeight ',' = 0 := rfl
  induction es with
  | nil => rfl
  | cons e es ih =>
    obtain ⟨k, x⟩ := e
    have hx := h _ List.mem_cons_self
    cases es with
    | nil =>
      rw [entriesText_singleton]
      simp only [weight_cons, weight_append, hquote, hcolon, hx, entriesWeight]
      omega
    | cons e es =>
      rw [entriesText_cons, entriesWeight, ← ih fun z hz => h z (List.mem_cons_of_mem _ hz)]
      simp only [weight_cons, weight_append, hquote, hcolon, hcomma, hx]
      omega

/-- The text of a document weighs what its strings weigh. -/
theorem weight_text (v : Document) : Lib.Json.weight v.text = v.weight := by
  induction v using Document.induct with
  | array xs ih =>
    have hleft : charWeight '[' = 0 := rfl
    have hright : charWeight ']' = 0 := rfl
    rw [text_array, weight_cons, weight_append, weight_elemsText ih, hleft, weight_cons, hright]
    simp [Document.weight]
  | dict es ih =>
    have hleft : charWeight '\x7b' = 0 := rfl
    have hright : charWeight '\x7d' = 0 := rfl
    cases es with
    | nil => rw [text_dict_nil]; rfl
    | cons e es =>
      rw [text_dict_cons, weight_cons, weight_append, weight_entriesText ih, hleft, weight_cons,
        hright]
      simp [Document.weight]
  | integer n =>
    rw [text_integer, ← Lib.integerNumeral_text]
    exact (Lib.integerNumeral_valid n.toInt).weight_text
  | float f =>
    rw [text_float]
    exact weight_print f
  | null => rfl
  | boolean b => cases b <;> rfl
  | string s =>
    have hquote : charWeight '"' = 0 := rfl
    rw [text_string, weight_cons, weight_append, hquote, weight_cons, hquote]
    simp [Document.weight]

end Weights

section Tokens

/-! ## Its tokens -/

mutual

/-- What the text of a document is read as, if its strings need no escape. -/
def Document.tokens : Document → Option (List Token)
  | .array xs => (elemsTokens xs).map fun ts => .leftBracket :: (ts ++ [.rightBracket])
  | .dict [] => some [.rightBrace]
  | .dict (e :: es) => (entriesTokens (e :: es)).map fun ts => .leftBrace :: (ts ++ [.rightBrace])
  | .integer n => some [.integer n.toInt]
  | .float f => (wordToken f.print).map fun t => [t]
  | .null => some [.null]
  | .boolean b => some [if b then .true else .false]
  | .string s => some [.string s]

def elemsTokens : List Document → Option (List Token)
  | [] => some []
  | [x] => x.tokens
  | x :: y :: ys => x.tokens.bind fun ts => (elemsTokens (y :: ys)).map fun us => ts ++ .comma :: us

def entriesTokens : List (List Char × Document) → Option (List Token)
  | [] => some []
  | [(k, x)] => x.tokens.map fun ts => .string k :: .colon :: ts
  | (k, x) :: e :: es => x.tokens.bind fun ts =>
    (entriesTokens (e :: es)).map fun us => .string k :: .colon :: (ts ++ .comma :: us)

end

theorem print_ne_nil (f : Binary32) : f.print ≠ [] := by
  cases f with
  | finite neg mant exp h => exact (Lib.decimalNumeral_valid _).text_ne_nil
  | infinite neg => cases neg <;> nofun

theorem isWordChar_print {f : Binary32} {c : Char} (hc : c ∈ f.print) : isWordChar c = true := by
  cases f with
  | finite neg mant exp h => exact (Lib.decimalNumeral_valid _).isWordChar hc
  | infinite neg =>
    have hall : (Binary32.infinite neg).print.all isWordChar = true := by
      cases neg <;> rfl
    exact List.all_eq_true.mp hall c hc

/-- The text is read as its tokens, and what follows as if it stood alone. -/
def ReadsAs (v : Document) : Prop :=
  ∀ r, EndsWord r → lexFrom .between (v.text ++ r) =
    v.tokens.bind fun ts => (lexFrom .between r).map fun us => ts ++ us

theorem readsAs_word {v : Document} (hne : v.text ≠ []) (hword : ∀ c ∈ v.text, isWordChar c = true)
    (htokens : v.tokens = (wordToken v.text).map fun t => [t]) : ReadsAs v := by
  intro r hr
  rw [lexFrom_between_word hne hword hr, htokens]
  cases wordToken v.text with
  | none => rfl
  | some t => rfl

theorem endsWord_cons {c : Char} {r : List Char} (h : isWordChar c = false) :
    EndsWord (c :: r) := by
  intro d hd
  cases hd
  exact h

theorem readsAs_elems {xs : List Document} (h : ∀ x ∈ xs, ReadsAs x) {r : List Char}
    (hr : EndsWord r) : lexFrom .between (elemsText xs ++ r) =
      (elemsTokens xs).bind fun ts => (lexFrom .between r).map fun us => ts ++ us := by
  induction xs with
  | nil =>
    rw [elemsText_nil, List.nil_append]
    cases lexFrom .between r <;> rfl
  | cons x xs ih =>
    have hx := h x List.mem_cons_self
    cases xs with
    | nil =>
      rw [elemsText_singleton, hx r hr]
      rfl
    | cons y ys =>
      have hrest := ih fun z hz => h z (List.mem_cons_of_mem x hz)
      rw [elemsText_cons, List.append_assoc, List.cons_append, hx _ (endsWord_cons (by decide)),
        lexFrom_between_mark (t := .comma) rfl, hrest, elemsTokens]
      cases x.tokens with
      | none => rfl
      | some ts =>
        cases elemsTokens (y :: ys) with
        | none => rfl
        | some us =>
          cases lexFrom .between r with
          | none => rfl
          | some vs => simp

theorem readsAs_entries {es : List (List Char × Document)} (h : ∀ e ∈ es, ReadsAs e.2)
    (hkeys : ∀ e ∈ es, Clean e.1) {r : List Char} (hr : EndsWord r) :
    lexFrom .between (entriesText es ++ r) =
      (entriesTokens es).bind fun ts => (lexFrom .between r).map fun us => ts ++ us := by
  induction es with
  | nil =>
    have hnil : entriesText [] = [] := rfl
    rw [hnil, List.nil_append]
    cases lexFrom .between r <;> rfl
  | cons e es ih =>
    obtain ⟨k, x⟩ := e
    have hx := h _ List.mem_cons_self
    have hk := hkeys _ List.mem_cons_self
    cases es with
    | nil =>
      rw [entriesText_singleton, List.cons_append, List.append_assoc, List.cons_append,
        lexFrom_between_string hk, List.cons_append, lexFrom_between_mark (t := .colon) rfl,
        hx r hr, entriesTokens]
      cases x.tokens with
      | none => rfl
      | some ts => cases lexFrom .between r <;> rfl
    | cons e es =>
      have hrest := ih (fun z hz => h z (List.mem_cons_of_mem _ hz))
        fun z hz => hkeys z (List.mem_cons_of_mem _ hz)
      rw [entriesText_cons, List.cons_append, List.append_assoc, List.cons_append,
        lexFrom_between_string hk, List.cons_append, lexFrom_between_mark (t := .colon) rfl,
        List.append_assoc, List.cons_append, hx _ (endsWord_cons (by decide)),
        lexFrom_between_mark (t := .comma) rfl, hrest, entriesTokens]
      cases x.tokens with
      | none => rfl
      | some ts =>
        cases entriesTokens (e :: es) with
        | none => rfl
        | some us =>
          cases lexFrom .between r with
          | none => rfl
          | some vs => simp

/-- Where no string needs an escape, the text is read as its tokens. -/
theorem readsAs {v : Document} (h : v.All Document.CleanStrings) : ReadsAs v := by
  induction v using Document.induct with
  | array xs ih =>
    intro r hr
    have hall := allElems_iff.mp h.2
    rw [text_array, List.cons_append, List.append_assoc, List.singleton_append,
      lexFrom_between_mark (t := .leftBracket) rfl,
      readsAs_elems (fun x hx => ih x hx (hall x hx)) (endsWord_cons (by decide)),
      lexFrom_between_mark (t := .rightBracket) rfl, Document.tokens]
    cases elemsTokens xs with
    | none => rfl
    | some ts =>
      cases lexFrom .between r with
      | none => rfl
      | some us => simp
  | dict es ih =>
    intro r hr
    have hall := allEntries_iff.mp h.2
    cases es with
    | nil =>
      rw [text_dict_nil, List.singleton_append, lexFrom_between_mark (t := .rightBrace) rfl]
      rfl
    | cons e es =>
      rw [text_dict_cons, List.cons_append, List.append_assoc, List.singleton_append,
        lexFrom_between_mark (t := .leftBrace) rfl,
        readsAs_entries (fun x hx => ih x hx (hall x hx)) h.1 (endsWord_cons (by decide)),
        lexFrom_between_mark (t := .rightBrace) rfl, Document.tokens]
      cases entriesTokens (e :: es) with
      | none => rfl
      | some ts =>
        cases lexFrom .between r with
        | none => rfl
        | some us => simp
  | integer n =>
    have hvalid := Lib.integerNumeral_valid n.toInt
    apply readsAs_word
    · rw [text_integer, ← Lib.integerNumeral_text]
      exact hvalid.text_ne_nil
    · intro c hc
      rw [text_integer, ← Lib.integerNumeral_text] at hc
      exact hvalid.isWordChar hc
    · rw [text_integer, Lib.wordToken_integer]
      rfl
  | float f =>
    apply readsAs_word
    · rw [text_float]
      exact print_ne_nil f
    · intro c hc
      rw [text_float] at hc
      exact isWordChar_print hc
    · rw [text_float]
      rfl
  | null => exact readsAs_word nofun (List.all_eq_true.mp rfl) rfl
  | boolean b =>
    cases b with
    | true => exact readsAs_word nofun (List.all_eq_true.mp rfl) rfl
    | false => exact readsAs_word nofun (List.all_eq_true.mp rfl) rfl
  | string s =>
    intro r _
    rw [text_string, List.cons_append, List.append_assoc, List.singleton_append,
      lexFrom_between_string h]
    cases lexFrom .between r <;> rfl

/-- The tokens of the whole text. -/
theorem lex_text {v : Document} (h : v.All Document.CleanStrings) : lex v.text = v.tokens := by
  have hread := readsAs h [] nofun
  rw [List.append_nil] at hread
  rw [lex, hread]
  cases v.tokens with
  | none => rfl
  | some ts =>
    show some (ts ++ []) = some ts
    rw [List.append_nil]

end Tokens

end Nox.Json
