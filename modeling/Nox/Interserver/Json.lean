import Nox.Lib.Bytes
import Nox.Lib.Outcome

/-!
# JSON objects as the builders see them

`json_object` with `get_string`, and the accessors the builders use.  The
accessors cast the `void *` of an object without looking at its type, so a
lookup in something that is no dictionary is undefined; such a use is the fault
`typeConfusion` here, beside the `std::invalid_argument` the builders throw.
-/

namespace Nox.Interserver

/-- The type is the constructor.  The entries of a dictionary stand in the
iteration order of the hash map. -/
inductive JsonObject
  | array (elems : List JsonObject)
  | dict (entries : List (String × JsonObject))
  | integer (value : Int)
  -- the text the stream operator prints for the `float`
  | float (text : String)
  | null
  | boolean (value : Bool)
  | string (value : String)

/-- What stops a builder. -/
inductive Fault
  -- `std::invalid_argument` with its message
  | invalidArgument (what : String)
  -- an object used as what it is not
  | typeConfusion
  deriving DecidableEq, Repr

namespace JsonObject

mutual

/-- `get_string`.  Strings are not escaped, and of an empty dictionary only the
closing brace is left. -/
def getString : JsonObject → Bool → String
  | array elems, _ => "[" ++ elemsString elems ++ "]"
  | dict [], _ => "\x7d"
  | dict (kv :: entries), _ => "\x7b" ++ entriesString (kv :: entries) ++ "\x7d"
  | integer n, _ => toString n
  | float text, _ => text
  | null, _ => "null"
  | boolean b, _ => if b then "true" else "false"
  | string s, noquotes => if noquotes then s else "\"" ++ s ++ "\""

def elemsString : List JsonObject → String
  | [] => ""
  | [x] => x.getString false
  | x :: xs => x.getString false ++ "," ++ elemsString xs

def entriesString : List (String × JsonObject) → String
  | [] => ""
  | [(k, v)] => "\"" ++ k ++ "\":" ++ v.getString false
  | (k, v) :: kvs => "\"" ++ k ++ "\":" ++ v.getString false ++ "," ++ entriesString kvs

end

/-- `get_dict_value` -/
def getDictValue : JsonObject → String → Except Fault (Option JsonObject)
  | dict entries, key => .ok ((entries.find? (·.1 == key)).map (·.2))
  | _, _ => .error .typeConfusion

/-- `FIND_IF_EXISTS`: the text of the value under a key. -/
def findIfExists (args : JsonObject) (key : String) : Except Fault (Option String) := do
  return (← args.getDictValue key).map (·.getString true)

/-- The elements a cast to `json_array` gives. -/
def elements : JsonObject → Except Fault (List JsonObject)
  | array elems => .ok elems
  | _ => .error .typeConfusion

/-- The text under a key, as a lookup that cannot fault. -/
def text? (args : JsonObject) (key : String) : Option String :=
  match args with
  | dict entries => ((entries.find? (·.1 == key)).map (·.2)).map (·.getString true)
  | _ => none

/-- The objects a builder may look keys up in. -/
def IsDict (args : JsonObject) : Prop := ∃ entries, args = dict entries

theorem findIfExists_dict {args : JsonObject} (h : args.IsDict) (key : String) :
    args.findIfExists key = .ok (args.text? key) := by
  obtain ⟨entries, rfl⟩ := h
  rfl

theorem isDict_of_findIfExists {args : JsonObject} {key : String} {r : Option String}
    (h : args.findIfExists key = .ok r) : args.IsDict ∧ args.text? key = r := by
  cases args with
  | dict entries =>
    refine ⟨⟨entries, rfl⟩, ?_⟩
    rw [findIfExists_dict ⟨entries, rfl⟩] at h
    exact Except.ok.inj h
  | array _ => cases h
  | integer _ => cases h
  | float _ => cases h
  | null => cases h
  | boolean _ => cases h
  | string _ => cases h

end JsonObject

/-- A dictionary of strings. -/
def dictOf (entries : List (String × String)) : JsonObject :=
  .dict (entries.map fun e => (e.1, .string e.2))

end Nox.Interserver
