import Mathlib.Data.List.Basic

/-!
# JSON texts

A JSON text is read in two steps.  `lex` goes through it character by character and
gives the tokens; `events` goes through these with a stack of open arrays and objects
and gives the events of the text, from which its document can be built.  Comments
count as white space.
-/

namespace Nox.Lib.Json

section Numbers

/-! ## Numbers -/

/-- The decimal number `±digits · 10 ^ exp`. -/
structure Decimal where
  neg : Bool
  digits : Nat
  exp : Int
  deriving DecidableEq, Repr

/-- A number as it is written. -/
structure Numeral where
  neg : Bool
  int : List Char
  frac : Option (List Char)
  exp : Option (Bool × List Char)

/-- How a numeral is written. -/
def Numeral.text (n : Numeral) : List Char :=
  (if n.neg then ['-'] else []) ++ n.int ++ n.frac.elim [] (fun ds => '.' :: ds) ++
    n.exp.elim [] fun e => 'e' :: (if e.1 then '-' else '+') :: e.2

/-- The digits a text begins with, and what follows them. -/
def spanDigits (cs : List Char) : List Char × List Char :=
  (cs.takeWhile Char.isDigit, cs.dropWhile Char.isDigit)

/-- The digits in front, if there are any. -/
def digits1 (cs : List Char) : Option (List Char × List Char) :=
  match spanDigits cs with
  | ([], _) => none
  | p => some p

def readSign : List Char → Bool × List Char
  | '-' :: cs => (true, cs)
  | cs => (false, cs)

def readFrac : List Char → Option (Option (List Char) × List Char)
  | '.' :: cs => (digits1 cs).map fun p => (some p.1, p.2)
  | cs => some (none, cs)

def readExpSign : List Char → Bool × List Char
  | '-' :: cs => (true, cs)
  | '+' :: cs => (false, cs)
  | cs => (false, cs)

def readExp : List Char → Option (Option (Bool × List Char) × List Char)
  | [] => some (none, [])
  | c :: cs =>
    if c = 'e' ∨ c = 'E' then
      let (neg, cs) := readExpSign cs
      (digits1 cs).map fun p => (some (neg, p.1), p.2)
    else some (none, c :: cs)

/-- The whole word is a number: a leading zero stands alone. -/
def readNumeral (cs : List Char) : Option Numeral := do
  let (neg, cs) := readSign cs
  let (int, cs) ← digits1 cs
  if int.head? = some '0' ∧ int.length ≠ 1 then none
  let (frac, cs) ← readFrac cs
  let (exp, cs) ← readExp cs
  if cs = [] then some ⟨neg, int, frac, exp⟩ else none

/-- The number that is written. -/
def Numeral.value (n : Numeral) : Decimal where
  neg := n.neg
  digits := Nat.ofDigitChars 10 (n.int ++ n.frac.getD []) 0
  exp :=
    (n.exp.elim 0 fun e =>
        if e.1 then -(Nat.ofDigitChars 10 e.2 0 : Int) else Nat.ofDigitChars 10 e.2 0) -
      (n.frac.getD []).length

/-- A number without fraction and exponent is an integer. -/
def Numeral.isInteger (n : Numeral) : Bool :=
  n.frac.isNone && n.exp.isNone

end Numbers

section Tokens

/-! ## Tokens -/

inductive Token
  | leftBrace
  | rightBrace
  | leftBracket
  | rightBracket
  | colon
  | comma
  | string (s : List Char)
  | integer (n : Int)
  | float (d : Decimal)
  | true
  | false
  | null
  deriving DecidableEq

def isSpace (c : Char) : Bool :=
  c = ' ' || c = '\t' || c = '\n' || c = '\r'

def punctuation (c : Char) : Option Token :=
  if c = '\x7b' then some .leftBrace
  else if c = '\x7d' then some .rightBrace
  else if c = '[' then some .leftBracket
  else if c = ']' then some .rightBracket
  else if c = ':' then some .colon
  else if c = ',' then some .comma
  else none

/-- The characters of numbers and of the three names. -/
def isWordChar (c : Char) : Bool :=
  c.isAlpha || c.isDigit || c = '+' || c = '-' || c = '.'

def wordToken (w : List Char) : Option Token :=
  if w = ['t', 'r', 'u', 'e'] then some .true
  else if w = ['f', 'a', 'l', 's', 'e'] then some .false
  else if w = ['n', 'u', 'l', 'l'] then some .null
  else
    (readNumeral w).map fun n =>
      if n.isInteger then
        .integer (if n.value.neg then -(n.value.digits : Int) else n.value.digits)
      else .float n.value

def hexValue (c : Char) : Option Nat :=
  if c.isDigit then some (c.toNat - '0'.toNat)
  else if 'a' ≤ c ∧ c ≤ 'f' then some (c.toNat - 'a'.toNat + 10)
  else if 'A' ≤ c ∧ c ≤ 'F' then some (c.toNat - 'A'.toNat + 10)
  else none

def escapeChar (c : Char) : Option Char :=
  if c = '"' then some '"'
  else if c = '\\' then some '\\'
  else if c = '/' then some '/'
  else if c = 'b' then some '\x08'
  else if c = 'f' then some '\x0c'
  else if c = 'n' then some '\n'
  else if c = 'r' then some '\r'
  else if c = 't' then some '\t'
  else none

def isHighSurrogate (n : Nat) : Bool := 0xd800 ≤ n && n < 0xdc00

def isLowSurrogate (n : Nat) : Bool := 0xdc00 ≤ n && n < 0xe000

/-- Where a reader of characters is. -/
inductive Lex
  | between
  | word (acc : List Char)
  | string (acc : List Char)
  -- behind a backslash
  | escape (acc : List Char)
  -- in the digits behind `\u`, with the high surrogate before them if there is one
  | hex (acc : List Char) (high : Option Nat) (digits : List Char)
  -- behind a high surrogate, and behind the backslash after it
  | high (acc : List Char) (high : Nat)
  | highEscape (acc : List Char) (high : Nat)
  -- behind a slash, in a comment, and behind a star in a comment
  | slash
  | comment
  | star

/-- A character between tokens. -/
def startToken (c : Char) : Option (Lex × List Token) :=
  if c = '"' then some (.string [], [])
  else if c = '/' then some (.slash, [])
  else if isSpace c then some (.between, [])
  else if isWordChar c then some (.word [c], [])
  else (punctuation c).map fun t => (.between, [t])

/-- The four digits behind `\u` are read. -/
def decodeUnit (acc : List Char) (high : Option Nat) (n : Nat) : Option Lex :=
  match high with
  | some h =>
    if isLowSurrogate n then
      some (.string (acc ++ [Char.ofNat (0x10000 + (h - 0xd800) * 0x400 + (n - 0xdc00))]))
    else none
  | none =>
    if isHighSurrogate n then some (.high acc n)
    else if isLowSurrogate n then none
    else some (.string (acc ++ [Char.ofNat n]))

def lexStep : Lex → Char → Option (Lex × List Token)
  | .between, c => startToken c
  | .word acc, c =>
    if isWordChar c then some (.word (acc ++ [c]), [])
    else do
      let t ← wordToken acc
      let (st, ts) ← startToken c
      return (st, t :: ts)
  | .string acc, c =>
    if c = '"' then some (.between, [.string acc])
    else if c = '\\' then some (.escape acc, [])
    else if c.toNat < 0x20 then none
    else some (.string (acc ++ [c]), [])
  | .escape acc, c =>
    if c = 'u' then some (.hex acc none [], [])
    else (escapeChar c).map fun x => (.string (acc ++ [x]), [])
  | .hex acc high ds, c =>
    match hexValue c with
    | none => none
    | some _ =>
      if ds.length < 3 then some (.hex acc high (ds ++ [c]), [])
      else
        (decodeUnit acc high ((ds ++ [c]).foldl (fun n d => n * 16 + (hexValue d).getD 0) 0)).map
          (·, [])
  | .high acc h, c => if c = '\\' then some (.highEscape acc h, []) else none
  | .highEscape acc h, c => if c = 'u' then some (.hex acc (some h) [], []) else none
  | .slash, c => if c = '*' then some (.comment, []) else none
  | .comment, c => if c = '*' then some (.star, []) else some (.comment, [])
  | .star, c =>
    if c = '/' then some (.between, [])
    else if c = '*' then some (.star, [])
    else some (.comment, [])

/-- The tokens of the rest of a text. -/
def lexFrom : Lex → List Char → Option (List Token)
  | .between, [] => some []
  | .word acc, [] => (wordToken acc).map fun t => [t]
  | _, [] => none
  | st, c :: cs => do
    let (st', ts) ← lexStep st c
    let rest ← lexFrom st' cs
    return ts ++ rest

def lex (cs : List Char) : Option (List Token) :=
  lexFrom .between cs

end Tokens

section Events

/-! ## Events -/

inductive Event
  | arrayBegin
  | arrayEnd
  | objectBegin
  | objectEnd
  | key (s : List Char)
  | string (s : List Char)
  | integer (n : Int)
  | float (d : Decimal)
  | true
  | false
  | null
  deriving DecidableEq

/-- What a reader of tokens waits for. -/
inductive Expect
  -- an array or an object, and nothing else
  | start
  | value
  | valueOrEnd
  | keyOrEnd
  | key
  | colon
  | next
  deriving DecidableEq

/-- A reader of tokens: the open arrays (`true`) and objects (`false`), the innermost
first. -/
structure Reader where
  expect : Expect
  stack : List Bool
  deriving DecidableEq

/-- The event of a token that is a value of its own. -/
def scalar : Token → Option Event
  | .string s => some (.string s)
  | .integer n => some (.integer n)
  | .float d => some (.float d)
  | .true => some .true
  | .false => some .false
  | .null => some .null
  | _ => none

/-- A value begins.  At most `depth` arrays and objects may be open. -/
def readValue (depth : Nat) (r : Reader) : Token → Option (Reader × Event)
  | .leftBracket =>
    if r.stack.length < depth then some (⟨.valueOrEnd, true :: r.stack⟩, .arrayBegin) else none
  | .leftBrace =>
    if r.stack.length < depth then some (⟨.keyOrEnd, false :: r.stack⟩, .objectBegin) else none
  | t => if r.expect = .start then none else (scalar t).map ({ r with expect := .next }, ·)

/-- An array or an object ends. -/
def readEnd (r : Reader) : Token → Option (Reader × Event)
  | .rightBracket =>
    match r.stack with
    | true :: stack => some (⟨.next, stack⟩, .arrayEnd)
    | _ => none
  | .rightBrace =>
    match r.stack with
    | false :: stack => some (⟨.next, stack⟩, .objectEnd)
    | _ => none
  | _ => none

def readStep (depth : Nat) (r : Reader) (t : Token) : Option (Reader × List Event) :=
  match r.expect, t with
  | .valueOrEnd, .rightBracket => (readEnd r t).map fun p => (p.1, [p.2])
  | .start, _ => (readValue depth r t).map fun p => (p.1, [p.2])
  | .value, _ => (readValue depth r t).map fun p => (p.1, [p.2])
  | .valueOrEnd, _ => (readValue depth r t).map fun p => (p.1, [p.2])
  | .keyOrEnd, .rightBrace => (readEnd r t).map fun p => (p.1, [p.2])
  | .keyOrEnd, .string s => some ({ r with expect := .colon }, [.key s])
  | .key, .string s => some ({ r with expect := .colon }, [.key s])
  | .colon, .colon => some ({ r with expect := .value }, [])
  | .next, .comma =>
    match r.stack with
    | true :: _ => some ({ r with expect := .value }, [])
    | false :: _ => some ({ r with expect := .key }, [])
    | [] => none
  | .next, _ => (readEnd r t).map fun p => (p.1, [p.2])
  | _, _ => none

/-- The events of the rest of a text: at its end nothing may be open. -/
def eventsFrom (depth : Nat) (r : Reader) : List Token → Option (List Event)
  | [] => if r = ⟨.next, []⟩ then some [] else none
  | t :: ts => do
    let (r', es) ← readStep depth r t
    let rest ← eventsFrom depth r' ts
    return es ++ rest

/-- The events of a text, if it is one. -/
def events (depth : Nat) (cs : List Char) : Option (List Event) := do
  eventsFrom depth ⟨.start, []⟩ (← lex cs)

end Events

end Nox.Lib.Json
