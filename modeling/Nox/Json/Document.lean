import Nox.Interserver.Json
import Nox.Lib.Binary32

/-!
# JSON documents

The constructor of `json_object` feeds a text to `JSON_parser` and builds a document
from its events.  The documents here have in their floats the numbers themselves;
what the builders see of them is the `JsonObject` that prints the same.
-/

namespace Nox.Json

open Lib (Binary32)
open Lib.Json (Event)
open Interserver (JsonObject)

section Documents

/-! ## Documents -/

scoped instance lawfulKey : LawfulBEq (List Char) := inferInstance

/-- A `json_object` with its payload.  The entries of a dictionary stand in the
iteration order of the hash map. -/
inductive Document
  | array (elems : List Document)
  | dict (entries : List (List Char × Document))
  | integer (value : BitVec 32)
  | float (value : Binary32)
  | null
  | boolean (value : Bool)
  | string (value : List Char)

mutual

/-- The object that prints the same. -/
def Document.toObject : Document → JsonObject
  | .array xs => .array (elemsToObject xs)
  | .dict es => .dict (entriesToObject es)
  | .integer n => .integer n.toInt
  | .float f => .float (String.ofList f.print)
  | .null => .null
  | .boolean b => .boolean b
  | .string s => .string (String.ofList s)

def elemsToObject : List Document → List JsonObject
  | [] => []
  | x :: xs => x.toObject :: elemsToObject xs

def entriesToObject : List (List Char × Document) → List (String × JsonObject)
  | [] => []
  | (k, x) :: es => (String.ofList k, x.toObject) :: entriesToObject es

end

/-- `get_string()` -/
def Document.text (v : Document) : List Char :=
  (v.toObject.getString false).toList

mutual

/-- The same type and the same payload; a dictionary has no order. -/
def Document.Same : Document → Document → Prop
  | .array xs, .array ys => SameElems xs ys
  | .dict es, .dict fs => es.length = fs.length ∧ SameEntries es fs
  | .integer m, .integer n => m = n
  | .float f, .float g => f = g
  | .null, .null => True
  | .boolean a, .boolean b => a = b
  | .string s, .string t => s = t
  | _, _ => False

def SameElems : List Document → List Document → Prop
  | [], [] => True
  | x :: xs, y :: ys => x.Same y ∧ SameElems xs ys
  | _, _ => False

def SameEntries : List (List Char × Document) → List (List Char × Document) → Prop
  | [], _ => True
  | (k, x) :: es, fs => (∃ y, fs.lookup k = some y ∧ x.Same y) ∧ SameEntries es fs

end

/-- What holds of all documents in a list and of all in a dictionary holds of all. -/
@[elab_as_elim]
theorem Document.induct {motive : Document → Prop}
    (array : ∀ xs, (∀ x ∈ xs, motive x) → motive (.array xs))
    (dict : ∀ es, (∀ e ∈ es, motive e.2) → motive (.dict es))
    (integer : ∀ n, motive (.integer n)) (float : ∀ f, motive (.float f))
    (null : motive .null) (boolean : ∀ b, motive (.boolean b))
    (string : ∀ s, motive (.string s)) (v : Document) : motive v := by
  apply Document.rec (motive_1 := motive) (motive_2 := fun xs => ∀ x ∈ xs, motive x)
    (motive_3 := fun es => ∀ e ∈ es, motive e.2) (motive_4 := fun e => motive e.2)
  · exact array
  · exact dict
  · exact integer
  · exact float
  · exact null
  · exact boolean
  · exact string
  · nofun
  · intro x xs hx hxs y hy
    rcases List.mem_cons.mp hy with rfl | hy
    · exact hx
    · exact hxs y hy
  · nofun
  · intro e es he hes f hf
    rcases List.mem_cons.mp hf with rfl | hf
    · exact he
    · exact hes f hf
  · intro k x hx
    exact hx

end Documents

section Building

/-! ## The constructor -/

/-- An array or a dictionary that is open. -/
inductive Container
  | array (elems : List Document)
  | dict (entries : List (List Char × Document))

def Container.close : Container → Document
  | .array xs => .array xs
  | .dict es => .dict es

/-- `push_back`, or `insert`, which leaves a key alone that is there. -/
def Container.add (key : List Char) (x : Document) : Container → Container
  | .array xs => .array (xs ++ [x])
  | .dict es => if key ∈ es.map Prod.fst then .dict es else .dict (es ++ [(key, x)])

/-- `lastkey` and `mystack`, each container with the key that was the last one when it
was begun.  In the code it is in its parent from then on; here it comes there when it
ends, with nothing else between. -/
structure Builder where
  lastkey : List Char
  stack : List (List Char × Container)
  root : Option Document

def Builder.init : Builder where
  lastkey := []
  stack := []
  root := none

def Builder.attach (b : Builder) (key : List Char) (x : Document) : Builder :=
  match b.stack with
  | [] => { b with root := some x }
  | (k, c) :: rest => { b with stack := (k, c.add key x) :: rest }

/-- The string a `char *` is. -/
def cString (s : List Char) : List Char :=
  s.takeWhile (· ≠ '\x00')

/-- `sscanf` gives the nearest integer of 64 bits. -/
def scanInteger (n : Int) : Int :=
  max (-2 ^ 63) (min n (2 ^ 63 - 1))

/-- `cb` -/
def Builder.cb (b : Builder) : Event → Builder
  | .arrayBegin => { b with stack := (b.lastkey, .array []) :: b.stack }
  | .objectBegin => { b with stack := (b.lastkey, .dict []) :: b.stack }
  | .arrayEnd | .objectEnd =>
    match b.stack with
    | [] => b
    | (k, c) :: rest => { b with stack := rest }.attach k c.close
  | .key s => { b with lastkey := cString s }
  | .string s => b.attach b.lastkey (.string (cString s))
  | .integer n => b.attach b.lastkey (.integer (BitVec.ofInt 32 (scanInteger n)))
  | .float d => b.attach b.lastkey (.float (Binary32.ofDecimal d))
  | .true => b.attach b.lastkey (.boolean true)
  | .false => b.attach b.lastkey (.boolean false)
  | .null => b.attach b.lastkey .null

/-- What the events of a text build.  One place of the parser's stack is its own. -/
def build (depth : Nat) (str : List Char) : Option Document := do
  let es ← Lib.Json.events (depth - 1) str
  (es.foldl Builder.cb .init).root

/-- `json_object::json_object`: a text that is none gives `JSONT_NULL`. -/
def jsonObject (depth : Nat) (str : List Char) : Document :=
  (build depth str).getD .null

end Building

end Nox.Json
