import Mathlib.Data.List.TakeWhile
import Nox.Lib.Stores

/-!
# Formatted text in a string

`string_vprintf` formats into a buffer of 128 bytes first.  A text that fits is appended from
there, as a text that ends with its first zero.  For one that does not fit the string is made
longer, and it is formatted once more: behind the end of the string as it is then.
-/

namespace Nox.Text

open Stores

section Model

/-! ## Formatting -/

/-- `vsnprintf` of a text: what it writes, and the length it returns. -/
def vsnprintf (size : Nat) (text : Bytes) : Bytes × Nat :=
  (if size = 0 then [] else text.take (size - 1) ++ [0], text.length)

/-- The characters of a string after bytes have been stored from one of them on. -/
def overwrite (string : Bytes) (off : Nat) (bytes : Bytes) : Bytes :=
  (string.take off ++ bytes ++ string.drop (off + bytes.length)).take string.length

/-- `string_vprintf`: the string, and what is stored through a pointer into it. -/
def stringVprintf (string text : Bytes) : Bytes × List Store :=
  let (buffer, n) := vsnprintf 128 text
  -- a negative `n` would be compared as an unsigned number
  if 128 ≤ n then
    let string := string ++ List.replicate n 0
    let bytes := (vsnprintf (n + 1) text).1
    (overwrite string string.length bytes, [⟨string.length, bytes⟩])
  else (string ++ buffer.takeWhile (· ≠ 0), [])

/-- `string_printf`, once for each text. -/
def stringPrintfs (string : Bytes) (texts : List Bytes) : Bytes :=
  texts.foldl (fun string text => (stringVprintf string text).1) string

/-- `string_format` -/
def stringFormat (text : Bytes) : Bytes := (stringVprintf [] text).1

/-- The text is behind what the string held, and nothing has been stored outside the characters of
the string and their terminator. -/
structure Appends (string text : Bytes) : Prop where
  content : (stringVprintf string text).1 = string ++ text
  within : ∀ s ∈ (stringVprintf string text).2,
    0 ≤ s.off ∧ s.stop ≤ (stringVprintf string text).1.length + 1

/-- Every call appends its text, and all of them one behind the other. -/
structure Concatenates (string : Bytes) (texts : List Bytes) : Prop where
  each : ∀ before text after, texts = before ++ text :: after →
    Appends (stringPrintfs string before) text
  whole : stringPrintfs string texts = string ++ texts.flatten

end Model

section Calls

/-! ## Texts that are appended -/

variable {string text : Bytes} {texts : List Bytes}

/-- Nothing of the string is reached from its end on. -/
theorem overwrite_end (string bytes : Bytes) : overwrite string string.length bytes = string := by
  rw [overwrite, List.take_length, List.append_assoc, List.take_left]

theorem takeWhile_zero : (text ++ [0]).takeWhile (· ≠ 0) = text ↔ 0 ∉ text := by
  constructor
  · intro h hzero
    rw [← h] at hzero
    have hne := List.mem_takeWhile_imp (p := fun b : UInt8 => decide (b ≠ 0)) hzero
    exact absurd hne (by decide)
  · intro h
    have hpos : ∀ b ∈ text, decide (b ≠ 0) = true := by
      intro b hb
      refine decide_eq_true fun hzero => h ?_
      rwa [← hzero]
    rw [List.takeWhile_append_of_pos hpos]
    exact List.append_nil text

theorem stringVprintf_short (h : text.length < 128) :
    stringVprintf string text = (string ++ (text ++ [0]).takeWhile (· ≠ 0), []) := by
  have htake : text.take 127 = text := List.take_of_length_le (by omega)
  unfold stringVprintf vsnprintf
  dsimp only
  rw [if_neg (by omega), if_neg (by decide), htake]

/-- A long text is stored where the string has ended. -/
theorem stringVprintf_long (h : 128 ≤ text.length) :
    stringVprintf string text = (string ++ List.replicate text.length 0,
      [⟨(string ++ List.replicate text.length 0).length, text ++ [0]⟩]) := by
  unfold stringVprintf vsnprintf
  dsimp only
  rw [if_pos h, if_neg (Nat.succ_ne_zero _), Nat.add_sub_cancel, List.take_length, overwrite_end]

theorem appends_iff : Appends string text ↔ text.length < 128 ∧ 0 ∉ text := by
  constructor
  · intro h
    have hshort : text.length < 128 := by
      by_contra hlong
      have hcall := @stringVprintf_long string text (by omega)
      have hwithin := h.within
      rw [hcall] at hwithin
      have hin := (hwithin _ List.mem_cons_self).2
      simp only [Store.stop, List.length_append, List.length_singleton] at hin
      omega
    have hcontent := h.content
    rw [stringVprintf_short hshort] at hcontent
    exact ⟨hshort, takeWhile_zero.mp (List.append_cancel_left hcontent)⟩
  · rintro ⟨hshort, hzero⟩
    have hcall := @stringVprintf_short string text hshort
    rw [takeWhile_zero.mpr hzero] at hcall
    refine ⟨congrArg Prod.fst hcall, fun s hs => ?_⟩
    rw [hcall] at hs
    cases hs

/-- Texts are concatenated if each is shorter than the buffer and has no zero in it. -/
theorem concatenates_iff (string : Bytes) (texts : List Bytes) :
    Concatenates string texts ↔ ∀ text ∈ texts, text.length < 128 ∧ 0 ∉ text := by
  constructor
  · intro h text htext
    obtain ⟨before, after, hsplit⟩ := List.append_of_mem htext
    exact appends_iff.mp (h.each before text after hsplit)
  · intro h
    refine ⟨fun before text after hsplit => ?_, ?_⟩
    · exact appends_iff.mpr (h text (hsplit ▸ List.mem_append_right before List.mem_cons_self))
    · induction texts generalizing string with
      | nil => exact (List.append_nil string).symm
      | cons text texts ih =>
        rw [List.forall_mem_cons] at h
        have hcall := (appends_iff.mpr h.1 : Appends string text).content
        have hrest := ih (string ++ text) h.2
        rw [List.flatten_cons, ← List.append_assoc, ← hrest, ← hcall]
        rfl

/-- A text of 128 characters is not appended: as many zeros are. -/
theorem long_not_appended :
    let text : Bytes := List.replicate 128 65
    stringFormat text = List.replicate 128 0 ∧ ¬Concatenates [] [text] := by
  intro text
  have hlength : text.length = 128 := List.length_replicate
  have hcall : stringVprintf [] text = _ := stringVprintf_long hlength.ge
  rw [hlength] at hcall
  refine ⟨congrArg Prod.fst hcall, fun h => ?_⟩
  have hshort := (appends_iff.mp (h.each [] text [] rfl)).1
  omega

end Calls

end Nox.Text
