import Mathlib.Algebra.Group.Nat.Defs
import Mathlib.Data.List.Basic
import Nox.Lib.Bytes
import Nox.Lib.Outcome

/-!
# The character parser

`JSON_parser_char` takes a text byte by byte.  A table tells from the state and the class of a byte
the next state or what is to be done; characters of a value are kept in a buffer until the value
ends, and a stack says what is open.  Where the source asserts something, or goes by an index into
the buffer or the stack, the model asks for it: such a step is a fault.
-/

namespace Nox.Json.Parser

section Tables

/-! ## Classes and states -/

/-- `enum classes` -/
inductive CharClass
  | space
  | white
  | lcurb
  | rcurb
  | lsqrb
  | rsqrb
  | colon
  | comma
  | quote
  | backs
  | slash
  | plus
  | minus
  | point
  | zero
  | digit
  | lowA
  | lowB
  | lowC
  | lowD
  | lowE
  | lowF
  | lowL
  | lowN
  | lowR
  | lowS
  | lowT
  | lowU
  | abcdf
  | e
  | etc
  | star
  deriving DecidableEq, Repr

/-- The class of a byte: `ascii_class`, and `C_ETC` from 128 on. -/
def charClass (c : UInt8) : Option CharClass :=
  if c = 0x20 then some .space
  else if c = 0x09 ∨ c = 0x0a ∨ c = 0x0d then some .white
  else if c < 0x20 then none
  else if c = 0x22 then some .quote
  else if c = 0x2a then some .star
  else if c = 0x2b then some .plus
  else if c = 0x2c then some .comma
  else if c = 0x2d then some .minus
  else if c = 0x2e then some .point
  else if c = 0x2f then some .slash
  else if c = 0x30 then some .zero
  else if 0x31 ≤ c ∧ c ≤ 0x39 then some .digit
  else if c = 0x3a then some .colon
  else if c = 0x45 then some .e
  else if 0x41 ≤ c ∧ c ≤ 0x46 then some .abcdf
  else if c = 0x5b then some .lsqrb
  else if c = 0x5c then some .backs
  else if c = 0x5d then some .rsqrb
  else if c = 0x61 then some .lowA
  else if c = 0x62 then some .lowB
  else if c = 0x63 then some .lowC
  else if c = 0x64 then some .lowD
  else if c = 0x65 then some .lowE
  else if c = 0x66 then some .lowF
  else if c = 0x6c then some .lowL
  else if c = 0x6e then some .lowN
  else if c = 0x72 then some .lowR
  else if c = 0x73 then some .lowS
  else if c = 0x74 then some .lowT
  else if c = 0x75 then some .lowU
  else if c = 0x7b then some .lcurb
  else if c = 0x7d then some .rcurb
  else some .etc

/-- `enum states` -/
inductive State
  | go
  | ok
  | ob
  | ke
  | co
  | va
  | ar
  | st
  | es
  | u1
  | u2
  | u3
  | u4
  | mi
  | ze
  | it
  | fr
  | e1
  | e2
  | e3
  | t1
  | t2
  | t3
  | f1
  | f2
  | f3
  | f4
  | n1
  | n2
  | n3
  | c1
  | c2
  | c3
  | fx
  | d1
  | d2
  deriving DecidableEq, Repr

/-- `enum actions`, and the actions from -9 to -2. -/
inductive Action
  | cb
  | ce
  | fa
  | tr
  | nu
  | de
  | df
  | sb
  | mx
  | zx
  | ix
  | ex
  | uc
  | emptyEnd
  | objectEnd
  | arrayEnd
  | objectBegin
  | arrayBegin
  | stringEnd
  | comma
  | colon
  deriving DecidableEq, Repr

/-- What stands in a cell of the table. -/
inductive Cell
  | error
  | move (state : State)
  | act (action : Action)
  deriving DecidableEq, Repr

def CharClass.isHex : CharClass → Bool
  | zero | digit | lowA | lowB | lowC | lowD | lowE | lowF | abcdf | e => true
  | _ => false

def CharClass.isBlank : CharClass → Bool
  | space | white => true
  | _ => false

/-- The row of `E3`: a value has ended, or it ends here. -/
def endCell : CharClass → Cell
  | .space | .white => .move .ok
  | .rcurb => .act .objectEnd
  | .rsqrb => .act .arrayEnd
  | .comma => .act .comma
  | _ => .error

/-- The row of `VA`. -/
def valueCell : CharClass → Cell
  | .space | .white => .move .va
  | .lcurb => .act .objectBegin
  | .lsqrb => .act .arrayBegin
  | .quote => .act .sb
  | .slash => .act .cb
  | .minus => .act .mx
  | .zero => .act .zx
  | .digit => .act .ix
  | .lowF => .act .fa
  | .lowN => .act .nu
  | .lowT => .act .tr
  | _ => .error

/-- The row of a state with one class that goes on. -/
def onlyCell (class' : CharClass) (cell : Cell) (c : CharClass) : Cell :=
  if c = class' then cell else .error

/-- `state_transition_table` -/
def transition : State → CharClass → Cell
  | .go, c =>
    match c with
    | .space | .white => .move .go
    | .lcurb => .act .objectBegin
    | .lsqrb => .act .arrayBegin
    | .slash => .act .cb
    | _ => .error
  | .ok, c => if c = .slash then .act .cb else endCell c
  | .ob, c =>
    match c with
    | .space | .white => .move .ob
    | .rcurb => .act .emptyEnd
    | .quote => .act .sb
    | .slash => .act .cb
    | _ => .error
  | .ke, c =>
    match c with
    | .space | .white => .move .ke
    | .quote => .act .sb
    | .slash => .act .cb
    | _ => .error
  | .co, c =>
    match c with
    | .space | .white => .move .co
    | .colon => .act .colon
    | .slash => .act .cb
    | _ => .error
  | .va, c => valueCell c
  | .ar, c =>
    match c with
    | .space | .white => .move .ar
    | .rsqrb => .act .arrayEnd
    | _ => valueCell c
  | .st, c =>
    match c with
    | .white => .error
    | .quote => .act .stringEnd
    | .backs => .act .ex
    | _ => .move .st
  | .es, c =>
    match c with
    | .quote | .backs | .slash | .lowB | .lowF | .lowN | .lowR | .lowT => .move .st
    | .lowU => .move .u1
    | _ => .error
  | .u1, c => if c.isHex then .move .u2 else .error
  | .u2, c => if c.isHex then .move .u3 else .error
  | .u3, c => if c.isHex then .move .u4 else .error
  | .u4, c => if c.isHex then .act .uc else .error
  | .mi, c =>
    match c with
    | .zero => .move .ze
    | .digit => .move .it
    | _ => .error
  | .ze, c =>
    match c with
    | .slash => .act .cb
    | .point => .act .df
    | _ => endCell c
  | .it, c =>
    match c with
    | .slash => .act .cb
    | .point => .act .df
    | .zero | .digit => .move .it
    | .lowE | .e => .act .de
    | _ => endCell c
  | .fr, c =>
    match c with
    | .slash => .act .cb
    | .zero | .digit => .move .fr
    | .lowE | .e => .move .e1
    | _ => endCell c
  | .e1, c =>
    match c with
    | .plus | .minus => .move .e2
    | .zero | .digit => .move .e3
    | _ => .error
  | .e2, c =>
    match c with
    | .zero | .digit => .move .e3
    | _ => .error
  | .e3, c =>
    match c with
    | .zero | .digit => .move .e3
    | _ => endCell c
  | .t1, c => onlyCell .lowR (.move .t2) c
  | .t2, c => onlyCell .lowU (.move .t3) c
  | .t3, c => if c = .slash then .act .cb else onlyCell .lowE (.move .ok) c
  | .f1, c => onlyCell .lowA (.move .f2) c
  | .f2, c => onlyCell .lowL (.move .f3) c
  | .f3, c => onlyCell .lowS (.move .f4) c
  | .f4, c => if c = .slash then .act .cb else onlyCell .lowE (.move .ok) c
  | .n1, c => onlyCell .lowU (.move .n2) c
  | .n2, c => onlyCell .lowL (.move .n3) c
  | .n3, c => if c = .slash then .act .cb else onlyCell .lowL (.move .ok) c
  | .c1, c => onlyCell .star (.move .c2) c
  | .c2, c => if c = .star then .move .c3 else .move .c2
  | .c3, c =>
    match c with
    | .slash => .act .ce
    | .star => .move .c3
    | _ => .move .c2
  | .fx, c =>
    match c with
    | .zero | .digit => .move .fr
    | .lowE | .e => .move .e1
    | _ => endCell c
  | .d1, c => onlyCell .backs (.move .d2) c
  | .d2, c => onlyCell .lowU (.move .u1) c

end Tables

section Machine

/-! ## The parser -/

/-- `JSON_type` but for `JSON_T_NONE` -/
inductive JsonType
  | arrayBegin
  | arrayEnd
  | objectBegin
  | objectEnd
  | integer
  | float
  | null
  | true
  | false
  | string
  | key
  deriving DecidableEq, Repr

/-- A call of the callback, with the buffer that its value is made from. -/
structure Call where
  type : JsonType
  value : Bytes := []
  deriving DecidableEq, Repr

/-- `enum modes` -/
inductive Mode
  | array
  | done
  | key
  | object
  deriving DecidableEq, Repr

/-- `JSON_config`; the callback sees all calls so far and answers whether to go on. -/
structure Config where
  callback : List Call → Bool
  depth : Int
  allowComments : Bool
  handleFloatsManually : Bool
  -- `localeconv()->decimal_point`
  decimalPoint : UInt8

/-- `jc->depth`: -1 is no limit, and there is room for one. -/
def Config.limit (cfg : Config) : Int :=
  if cfg.depth = 0 then 1 else if 0 < cfg.depth then cfg.depth else -1

/-- `JSON_parser_struct`, and the calls made.  The stack has its top in front. -/
structure Jc where
  state : State
  beforeCommentState : State
  -- `none` is `JSON_T_NONE`
  type : Option JsonType
  escaped : Bool
  comment : Bool
  utf16HighSurrogate : Nat
  stack : List Mode
  stackCapacity : Nat
  parseBuffer : Bytes
  parseBufferCapacity : Nat
  calls : List Call
  deriving DecidableEq, Repr

/-- How the parser stops: it returns false after these calls, or an assertion fails or an index
is out of range. -/
inductive Stop
  | refused (calls : List Call)
  | fault
  deriving DecidableEq, Repr

def jsonParserStackSize : Nat := 128
def jsonParserParseBufferSize : Nat := 3500

def Jc.refuse {α : Type} (jc : Jc) : Except Stop α := .error (.refused jc.calls)

/-- `assert` -/
def require (p : Prop) [Decidable p] : Except Stop Unit :=
  if p then .ok () else .error .fault

variable (cfg : Config)

/-- `push` -/
def Jc.push (jc : Jc) (mode : Mode) : Except Stop Jc := do
  let top := jc.stack.length
  let capacity :=
    if cfg.limit < 0 ∧ jc.stackCapacity ≤ top then jc.stackCapacity * 2 else jc.stackCapacity
  if 0 ≤ cfg.limit ∧ cfg.limit ≤ top then jc.refuse
  else
    require (top < capacity)
    return { jc with stack := mode :: jc.stack, stackCapacity := capacity }

/-- `pop` -/
def Jc.pop (jc : Jc) (mode : Mode) : Except Stop Jc :=
  match jc.stack with
  | [] => jc.refuse
  | m :: stack => if m = mode then .ok { jc with stack } else jc.refuse

/-- `jc->stack[jc->top]` -/
def Jc.top (jc : Jc) : Except Stop Mode :=
  match jc.stack with
  | [] => .error .fault
  | m :: _ => .ok m

/-- `parse_buffer_clear` -/
def Jc.bufferClear (jc : Jc) : Jc := { jc with parseBuffer := [] }

/-- `parse_buffer_pop_back_char` -/
def Jc.bufferPopBack (jc : Jc) : Except Stop Jc := do
  require (1 ≤ jc.parseBuffer.length)
  return { jc with parseBuffer := jc.parseBuffer.dropLast }

/-- `parse_buffer_push_back_char`: the character and a zero behind it. -/
def Jc.bufferPushBack (jc : Jc) (c : UInt8) : Except Stop Jc := do
  let count := jc.parseBuffer.length
  let capacity :=
    if jc.parseBufferCapacity ≤ count + 1 then jc.parseBufferCapacity * 2
    else jc.parseBufferCapacity
  require (count + 1 < capacity)
  return { jc with parseBuffer := jc.parseBuffer ++ [c], parseBufferCapacity := capacity }

/-- A call of the callback. -/
def Jc.call (jc : Jc) (type : JsonType) (value : Bytes := []) : Except Stop Jc :=
  let jc := { jc with calls := jc.calls ++ [⟨type, value⟩] }
  if cfg.callback jc.calls then .ok jc else jc.refuse

/-- The types that `assert_is_non_container_type` admits. -/
def JsonType.isScalar : JsonType → Bool
  | null | false | true | float | integer | string => Bool.true
  | _ => Bool.false

/-- What the value of a call is made from. -/
def JsonType.argument (type : JsonType) (buffer : Bytes) : Bytes :=
  match type with
  | float | integer | string => buffer
  | _ => []

/-- `parse_parse_buffer` -/
def Jc.parseParseBuffer (jc : Jc) : Except Stop Jc := do
  match jc.type with
  | none => return jc.bufferClear
  | some type =>
    require (type.isScalar = Bool.true)
    let jc ← jc.call cfg type (type.argument jc.parseBuffer)
    return jc.bufferClear

/-- A `char` as an `unsigned`. -/
def charUnsigned (c : UInt8) : Nat := if c.toNat < 128 then c.toNat else 2 ^ 32 - 256 + c.toNat

/-- `x` of a hexadecimal digit. -/
def hexNibble (c : UInt8) : Nat :=
  let x := charUnsigned c
  if 0x61 ≤ x then x - (0x61 - 10) else if 0x41 ≤ x then x - (0x41 - 10) else x &&& (2 ^ 32 - 1 - 0x30)

def isHighSurrogate (uc : Nat) : Bool := uc &&& 0xfc00 = 0xd800

def isLowSurrogate (uc : Nat) : Bool := uc &&& 0xfc00 = 0xdc00

/-- `DECODE_SURROGATE_PAIR` -/
def decodeSurrogatePair (hi lo : Nat) : Nat := ((hi &&& 0x3ff) <<< 10) + (lo &&& 0x3ff) + 0x10000

def utf8LeadBits : Nat → Nat
  | 0 => 0x00
  | 1 => 0xc0
  | 2 => 0xe0
  | _ => 0xf0

/-- The bytes `decode_unicode_char` writes: one, and `trailBytes` behind it. -/
def unicodeBytes (uc trailBytes : Nat) : Bytes :=
  UInt8.ofNat ((uc >>> (trailBytes * 6)) ||| utf8LeadBits trailBytes) ::
    (List.range trailBytes).reverse.map fun i => UInt8.ofNat (((uc >>> (i * 6)) &&& 0x3f) ||| 0x80)

/-- `decode_unicode_char` -/
def Jc.decodeUnicodeChar (jc : Jc) : Except Stop Jc := do
  require (6 ≤ jc.parseBuffer.length)
  let xs := (jc.parseBuffer.drop (jc.parseBuffer.length - 4)).map hexNibble
  require (∀ x ∈ xs, x < 16)
  let uc := xs.foldl (fun uc x => uc * 16 + x) 0
  let buffer := jc.parseBuffer.take (jc.parseBuffer.length - 6)
  let write (uc trailBytes high : Nat) : Except Stop Jc := do
    let bytes := unicodeBytes uc trailBytes
    require (buffer.length + bytes.length < jc.parseBufferCapacity)
    return { jc with parseBuffer := buffer ++ bytes, utf16HighSurrogate := high }
  if jc.utf16HighSurrogate ≠ 0 then
    if isLowSurrogate uc then write (decodeSurrogatePair jc.utf16HighSurrogate uc) 3 0
    else jc.refuse
  else if uc < 0x80 then write uc 0 0
  else if uc < 0x800 then write uc 1 0
  else if isHighSurrogate uc then
    return { jc with parseBuffer := buffer, utf16HighSurrogate := uc }
  else if isLowSurrogate uc then jc.refuse
  else write uc 2 0

/-- The characters that stand for one that is escaped. -/
def escapedChar : UInt8 → Option Bytes
  | 0x62 => some [0x08]
  | 0x66 => some [0x0c]
  | 0x6e => some [0x0a]
  | 0x72 => some [0x0d]
  | 0x74 => some [0x09]
  | 0x22 => some [0x22]
  | 0x5c => some [0x5c]
  | 0x2f => some [0x2f]
  | 0x75 => some [0x5c, 0x75]
  | _ => none

/-- `add_escaped_char_to_parse_buffer` -/
def Jc.addEscapedChar (jc : Jc) (c : UInt8) : Except Stop Jc := do
  let jc ← { jc with escaped := false }.bufferPopBack
  match escapedChar c with
  | none => jc.refuse
  | some cs => cs.foldlM Jc.bufferPushBack jc

/-- `add_char_to_parse_buffer` -/
def Jc.addChar (jc : Jc) (c : UInt8) (class' : CharClass) : Except Stop Jc :=
  if jc.escaped then jc.addEscapedChar c
  else if ¬jc.comment ∧ (jc.type ≠ none ∨ ¬class'.isBlank) then jc.bufferPushBack c
  else .ok jc

/-- `assert_type_isnt_string_null_or_bool` -/
def Jc.requireNumber (jc : Jc) : Except Stop Unit :=
  require (jc.type ∉ [some .false, some .true, some .null, some .string])

/-- The start of a value that is a word. -/
def Jc.startWord (jc : Jc) (type : JsonType) (state : State) : Except Stop Jc := do
  require (jc.type = none)
  return { jc with type := some type, state }

/-- The end of an array or an object behind a value. -/
def Jc.endContainer (jc : Jc) (type : JsonType) (mode : Mode) : Except Stop Jc := do
  let jc ← jc.bufferPopBack
  let jc ← jc.parseParseBuffer cfg
  let jc ← jc.call cfg type
  let jc ← jc.pop mode
  return { jc with type := none, state := .ok }

/-- The start of an array or an object. -/
def Jc.startContainer (jc : Jc) (type : JsonType) (mode : Mode) (state : State) :
    Except Stop Jc := do
  let jc ← jc.bufferPopBack
  let jc ← jc.call cfg type
  let jc ← jc.push cfg mode
  require (jc.type = none)
  return { jc with state }

/-- The state behind a comment. -/
def Jc.stateBehindComment (jc : Jc) (mode : Mode) : State :=
  match mode with
  | .array | .object => if jc.state = .va ∨ jc.state = .ar then jc.state else .ok
  | _ => jc.state

/-- The actions of `JSON_parser_char`. -/
def Jc.act (jc : Jc) : Action → Except Stop Jc
  | .uc => do
    let jc ← jc.decodeUnicodeChar
    return { jc with state := if jc.utf16HighSurrogate ≠ 0 then .d1 else .st }
  | .ex => .ok { jc with escaped := true, state := .es }
  | .mx => .ok { jc with type := some .integer, state := .mi }
  | .zx => .ok { jc with type := some .integer, state := .ze }
  | .ix => .ok { jc with type := some .integer, state := .it }
  | .de => do
    jc.requireNumber
    return { jc with type := some .float, state := .e1 }
  | .df => do
    jc.requireNumber
    if cfg.handleFloatsManually then return { jc with type := some .float, state := .fx }
    else
      require (jc.parseBuffer.getLast? = some 0x2e)
      return { jc with
        parseBuffer := jc.parseBuffer.dropLast ++ [cfg.decimalPoint]
        type := some .float
        state := .fx }
  | .sb => jc.bufferClear.startWord .string .st
  | .nu => jc.startWord .null .n1
  | .fa => jc.startWord .false .f1
  | .tr => jc.startWord .true .t1
  | .ce => do
    require (jc.parseBuffer.length = 0)
    require (jc.type = none)
    return { jc with comment := false, state := jc.beforeCommentState }
  | .cb =>
    if cfg.allowComments then do
      let jc ← jc.bufferPopBack
      let jc ← jc.parseParseBuffer cfg
      require (jc.parseBuffer.length = 0)
      require (jc.type ≠ some .string)
      let mode ← jc.top
      return { jc with
        beforeCommentState := jc.stateBehindComment mode
        type := none
        state := .c1
        comment := true }
    else jc.refuse
  | .emptyEnd => do
    let jc ← jc.bufferClear.call cfg .objectEnd
    let jc ← jc.pop .key
    return { jc with state := .ok }
  | .objectEnd => jc.endContainer cfg .objectEnd .object
  | .arrayEnd => jc.endContainer cfg .arrayEnd .array
  | .objectBegin => jc.startContainer cfg .objectBegin .key .ob
  | .arrayBegin => jc.startContainer cfg .arrayBegin .array .ar
  | .stringEnd => do
    let jc ← jc.bufferPopBack
    match ← jc.top with
    | .key =>
      require (jc.type = some .string)
      let jc ← { jc with type := none, state := .co }.call cfg .key jc.parseBuffer
      return jc.bufferClear
    | .array | .object =>
      require (jc.type = some .string)
      let jc ← jc.parseParseBuffer cfg
      return { jc with type := none, state := .ok }
    | .done => jc.refuse
  | .comma => do
    let jc ← jc.bufferPopBack
    let jc ← jc.parseParseBuffer cfg
    match ← jc.top with
    | .object =>
      let jc ← jc.pop .object
      let jc ← jc.push cfg .key
      require (jc.type ≠ some .string)
      return { jc with type := none, state := .ke }
    | .array =>
      require (jc.type ≠ some .string)
      return { jc with type := none, state := .va }
    | _ => jc.refuse
  | .colon => do
    let jc ← jc.bufferPopBack
    let jc ← jc.pop .key
    let jc ← jc.push cfg .object
    require (jc.type = none)
    return { jc with state := .va }

/-- `JSON_parser_char` -/
def Jc.char (jc : Jc) (c : UInt8) : Except Stop Jc :=
  match charClass c with
  | none => jc.refuse
  | some class' => do
    let jc ← jc.addChar c class'
    match transition jc.state class' with
    | .error => jc.refuse
    | .move state => return { jc with state }
    | .act action => jc.act cfg action

/-- `new_JSON_parser` -/
def start : Except Stop Jc :=
  let capacity := if 0 < cfg.limit then cfg.limit.toNat else jsonParserStackSize
  Jc.push cfg ⟨.go, .go, none, false, false, 0, [], capacity, [], jsonParserParseBufferSize, []⟩
    .done

/-- `JSON_parser_done` -/
def Jc.done (jc : Jc) : Except Stop (List Call) := do
  if jc.state = .ok then
    let jc ← jc.pop .done
    return jc.calls
  else jc.refuse

/-- The text is given to the parser, and `JSON_parser_done` is called if it takes all of it. -/
def parse (text : Bytes) : Except Stop (List Call) := do
  let jc ← start cfg
  let jc ← text.foldlM (Jc.char cfg) jc
  jc.done

/-- How `json_object::json_object` sets the parser up, its callback returning 1. -/
def objectConfig (depth : Int) (decimalPoint : UInt8) : Config where
  callback := fun _ => true
  depth
  allowComments := true
  handleFloatsManually := false
  decimalPoint

end Machine

end Nox.Json.Parser
