import Nox.Lib.Bytes

/-!
# A grammar of JSON texts

The bytes that JSON values, and objects among them, are written with.  What may stand in a
string is a parameter, so that texts can be told apart by it.
-/

namespace Nox.Lib.JsonGrammar

section Definitions

def leftBrace : UInt8 := 0x7b
def rightBrace : UInt8 := 0x7d
def leftBracket : UInt8 := 0x5b
def rightBracket : UInt8 := 0x5d
def colon : UInt8 := 0x3a
def comma : UInt8 := 0x2c
def quote : UInt8 := 0x22
def backslash : UInt8 := 0x5c

/-- A brace or a bracket. -/
def isBracket (b : UInt8) : Bool :=
  b = leftBrace || b = rightBrace || b = leftBracket || b = rightBracket

/-- White space. -/
def isSpace (b : UInt8) : Bool := b = 0x20 || b = 0x09 || b = 0x0a || b = 0x0d

def isDigit (b : UInt8) : Bool := 0x30 ≤ b && b ≤ 0x39

def isHexDigit (b : UInt8) : Bool :=
  isDigit b || (0x41 ≤ b && b ≤ 0x46) || (0x61 ≤ b && b ≤ 0x66)

/-- The bytes of numbers, and of `true`, `false` and `null`. -/
def isWordByte (b : UInt8) : Bool :=
  isDigit b || (0x41 ≤ b && b ≤ 0x5a) || (0x61 ≤ b && b ≤ 0x7a) || b = 0x2b || b = 0x2d ||
    b = 0x2e

def Spaces (s : Bytes) : Prop := ∀ b ∈ s, isSpace b = true

/-- What stands behind a backslash: a quote, a backslash, a slash, or one of `bfnrt`. -/
def escapes : Bytes := [0x22, 0x5c, 0x2f, 0x62, 0x66, 0x6e, 0x72, 0x74]

/-- What stands between the quotes of a string. -/
inductive Content : Bytes → Prop
  | nil : Content []
  | plain {b : UInt8} {s : Bytes} (hquote : b ≠ quote) (hbackslash : b ≠ backslash)
      (hcontrol : 0x20 ≤ b) (hs : Content s) : Content (b :: s)
  | escape {b : UInt8} {s : Bytes} (hb : b ∈ escapes) (hs : Content s) :
      Content (backslash :: b :: s)
  | unicode {ds s : Bytes} (hlength : ds.length = 4) (hds : ∀ d ∈ ds, isHexDigit d = true)
      (hs : Content s) : Content (backslash :: 0x75 :: (ds ++ s))

def quoted (s : Bytes) : Bytes := quote :: (s ++ [quote])

inductive Kind
  | value
  | spaced
  | elements
  | object
  | member
  | members

/-- The texts of a kind, where `S` holds of what stands in the strings.  Every number and
every name is a word. -/
inductive Text (S : Bytes → Prop) : Kind → Bytes → Prop
  | word {w : Bytes} (hne : w ≠ []) (hw : ∀ b ∈ w, isWordByte b = true) : Text S .value w
  | string {s : Bytes} (hs : S s) : Text S .value (quoted s)
  | emptyArray {s : Bytes} (hs : Spaces s) :
      Text S .value (leftBracket :: (s ++ [rightBracket]))
  | array {t : Bytes} (ht : Text S .elements t) :
      Text S .value (leftBracket :: (t ++ [rightBracket]))
  | ofObject {t : Bytes} (ht : Text S .object t) : Text S .value t
  | spaced {s t s' : Bytes} (hs : Spaces s) (ht : Text S .value t) (hs' : Spaces s') :
      Text S .spaced (s ++ (t ++ s'))
  | element {t : Bytes} (ht : Text S .spaced t) : Text S .elements t
  | elements {t ts : Bytes} (ht : Text S .spaced t) (hts : Text S .elements ts) :
      Text S .elements (t ++ comma :: ts)
  | emptyObject {s : Bytes} (hs : Spaces s) : Text S .object (leftBrace :: (s ++ [rightBrace]))
  | object {t : Bytes} (ht : Text S .members t) : Text S .object (leftBrace :: (t ++ [rightBrace]))
  | entry {s k s' t : Bytes} (hs : Spaces s) (hk : S k) (hs' : Spaces s')
      (ht : Text S .spaced t) : Text S .member (s ++ (quoted k ++ (s' ++ colon :: t)))
  | member {t : Bytes} (ht : Text S .member t) : Text S .members t
  | members {t ts : Bytes} (ht : Text S .member t) (hts : Text S .members ts) :
      Text S .members (t ++ comma :: ts)

/-- The text of a JSON object. -/
def IsObject (t : Bytes) : Prop := Text Content .object t

/-- The text of a JSON object without braces and brackets in its strings. -/
def IsPlainObject (t : Bytes) : Prop :=
  Text (fun s => Content s ∧ ∀ b ∈ s, isBracket b = false) .object t

end Definitions

section Rules

variable {S : Bytes → Prop} {t : Bytes}

/-- An object stands in braces. -/
theorem Text.braces (h : Text S .object t) : ∃ inner, t = leftBrace :: (inner ++ [rightBrace]) := by
  cases h with
  | emptyObject _ => exact ⟨_, rfl⟩
  | object _ => exact ⟨_, rfl⟩

end Rules

end Nox.Lib.JsonGrammar
