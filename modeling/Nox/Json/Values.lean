import Nox.Json.Callback
import Nox.Lib.JsonEvents
import Mathlib.Data.List.TakeWhile

/-!
# Values as they are written

A value as it is written is what `JSON_parser` tells of it, event by event.  The document it denotes
has of the members with one key the first.  What the callback makes of it is that document as long
as no string or key of it has a null character and its integers fit; a `char *` ends at the first
null character, and an `int` has 32 bits.
-/

namespace Nox.Json

open Lib (Binary32)
open Lib.Json

section Values

/-! ## Values -/

/-- A value as it is written. -/
inductive Value
  | array (elems : List Value)
  | object (members : List (List Char × Value))
  | integer (n : Int)
  | float (d : Lib.Json.Decimal)
  | boolean (b : Bool)
  | null
  | string (s : List Char)

mutual

/-- What the parser tells of a value. -/
def Value.events : Value → List Event
  | .array vs => .arrayBegin :: (elemsEvents vs ++ [.arrayEnd])
  | .object ms => .objectBegin :: (membersEvents ms ++ [.objectEnd])
  | .integer n => [.integer n]
  | .float d => [.float d]
  | .boolean true => [.true]
  | .boolean false => [.false]
  | .null => [.null]
  | .string s => [.string s]

def elemsEvents : List Value → List Event
  | [] => []
  | v :: vs => v.events ++ elemsEvents vs

def membersEvents : List (List Char × Value) → List Event
  | [] => []
  | (k, v) :: ms => .key k :: (v.events ++ membersEvents ms)

end

mutual

/-- The document a value denotes, if it has one: an `int` has to hold its integers.  Of the members
of a key the first is kept; `seen` are the keys before. -/
def Value.denoted : Value → Option Document
  | .array vs => (elemsDenoted vs).map .array
  | .object ms => (membersDenoted [] ms).map .dict
  | .integer n => if -2 ^ 31 ≤ n ∧ n < 2 ^ 31 then some (.integer (BitVec.ofInt 32 n)) else none
  | .float d => some (.float (Binary32.ofDecimal d))
  | .boolean b => some (.boolean b)
  | .null => some .null
  | .string s => some (.string s)

def elemsDenoted : List Value → Option (List Document)
  | [] => some []
  | v :: vs => do return (← v.denoted) :: (← elemsDenoted vs)

def membersDenoted (seen : List (List Char)) :
    List (List Char × Value) → Option (List (List Char × Document))
  | [] => some []
  | (k, v) :: ms =>
    if k ∈ seen then membersDenoted seen ms
    else do return (k, ← v.denoted) :: (← membersDenoted (seen ++ [k]) ms)

end

mutual

/-- The document that is made of a value. -/
def Value.made : Value → Document
  | .array vs => .array (elemsMade vs)
  | .object ms => .dict (membersMade [] ms)
  | .integer n => .integer (BitVec.ofInt 32 (scanInteger n))
  | .float d => .float (Binary32.ofDecimal d)
  | .boolean b => .boolean b
  | .null => .null
  | .string s => .string (cString s)

def elemsMade : List Value → List Document
  | [] => []
  | v :: vs => v.made :: elemsMade vs

def membersMade (seen : List (List Char)) :
    List (List Char × Value) → List (List Char × Document)
  | [] => []
  | (k, v) :: ms =>
    if cString k ∈ seen then membersMade seen ms
    else (cString k, v.made) :: membersMade (seen ++ [cString k]) ms

end

mutual

/-- What is kept of the value has no null character in a string or a key, and no integer that an
`int` cannot hold. -/
def Value.Plain : Value → Prop
  | .array vs => PlainElems vs
  | .object ms => PlainMembers [] ms
  | .integer n => -2 ^ 31 ≤ n ∧ n < 2 ^ 31
  | .string s => '\x00' ∉ s
  | _ => True

def PlainElems : List Value → Prop
  | [] => True
  | v :: vs => v.Plain ∧ PlainElems vs

def PlainMembers (seen : List (List Char)) : List (List Char × Value) → Prop
  | [] => True
  | (k, v) :: ms =>
    if k ∈ seen then PlainMembers seen ms
    else '\x00' ∉ k ∧ v.Plain ∧ PlainMembers (seen ++ [k]) ms

end

/-- What holds of all values in an array and of all members of an object holds of all. -/
@[elab_as_elim]
theorem Value.induct {motive : Value → Prop}
    (array : ∀ vs, (∀ v ∈ vs, motive v) → motive (.array vs))
    (object : ∀ ms, (∀ m ∈ ms, motive m.2) → motive (.object ms))
    (integer : ∀ n, motive (.integer n)) (float : ∀ d, motive (.float d))
    (boolean : ∀ b, motive (.boolean b)) (null : motive .null)
    (string : ∀ s, motive (.string s)) (v : Value) : motive v := by
  apply Value.rec (motive_1 := motive) (motive_2 := fun vs => ∀ v ∈ vs, motive v)
    (motive_3 := fun ms => ∀ m ∈ ms, motive m.2) (motive_4 := fun m => motive m.2)
  · exact array
  · exact object
  · exact integer
  · exact float
  · exact boolean
  · exact null
  · exact string
  · nofun
  · intro x xs hx hxs y hy
    rcases List.mem_cons.mp hy with rfl | hy
    · exact hx
    · exact hxs y hy
  · nofun
  · intro e es he hes f hf
    rcases List.mem_cons.mp hf with rfl | hf
    · exact he
    · exact hes f hf
  · intro k x hx
    exact hx

end Values

section Events

/-! ## The events of a text -/

/-- What is still to come behind a value: of each array that is open its last elements, and of each
object its last members. -/
def Following : List Bool → List Event → Prop
  | [], es => es = []
  | true :: stack, es =>
    ∃ vs rest, es = elemsEvents vs ++ .arrayEnd :: rest ∧ Following stack rest
  | false :: stack, es =>
    ∃ ms rest, es = membersEvents ms ++ .objectEnd :: rest ∧ Following stack rest

/-- What is still to come at a reader of tokens. -/
def Owed (r : Reader) (es : List Event) : Prop :=
  match r.expect with
  | .start | .value | .colon => ∃ v : Value, ∃ rest, es = v.events ++ rest ∧ Following r.stack rest
  | .key => ∃ k, ∃ v : Value, ∃ rest, es = .key k :: (v.events ++ rest) ∧ Following r.stack rest
  | .valueOrEnd | .keyOrEnd | .next => Following r.stack es

theorem Following.value {stack : List Bool} {es : List Event} (h : Following (true :: stack) es)
    (v : Value) : Following (true :: stack) (v.events ++ es) := by
  obtain ⟨vs, rest, rfl, hrest⟩ := h
  exact ⟨v :: vs, rest, by simp [elemsEvents], hrest⟩

theorem Following.member {stack : List Bool} {es : List Event} (h : Following (false :: stack) es)
    (k : List Char) (v : Value) : Following (false :: stack) (.key k :: (v.events ++ es)) := by
  obtain ⟨ms, rest, rfl, hrest⟩ := h
  exact ⟨(k, v) :: ms, rest, by simp [membersEvents], hrest⟩

/-- A value comes where one is due. -/
theorem owed_value {x : Expect} {stack : List Bool} {es : List Event}
    (hx : x = .start ∨ x = .value ∨ x = .valueOrEnd) (hfits : Reader.Fits ⟨x, stack⟩)
    (h : Following stack es) (v : Value) : Owed ⟨x, stack⟩ (v.events ++ es) := by
  rcases hx with rfl | rfl | rfl
  · exact ⟨v, es, rfl, h⟩
  · exact ⟨v, es, rfl, h⟩
  · rcases stack with _ | ⟨_ | _, stack⟩
    · cases hfits
    · cases hfits
    · exact h.value v

theorem exists_value_of_scalar {t : Token} {e : Event} (h : scalar t = some e) :
    ∃ v : Value, v.events = [e] := by
  cases t with
  | string s => cases h; exact ⟨.string s, rfl⟩
  | integer n => cases h; exact ⟨.integer n, rfl⟩
  | float d => cases h; exact ⟨.float d, rfl⟩
  | true => cases h; exact ⟨.boolean true, rfl⟩
  | false => cases h; exact ⟨.boolean false, rfl⟩
  | null => cases h; exact ⟨.null, rfl⟩
  | _ => cases h

theorem owed_of_reads {depth : Nat} {r r' : Reader} {t : Token} {es fs : List Event}
    (hfits : r.Fits) (h : Reads depth r t r' es) (howed : Owed r' fs) : Owed r (es ++ fs) := by
  cases h with
  | arrayBegin x stack hx =>
    obtain ⟨vs, rest, rfl, hrest⟩ := howed
    have hvalue := owed_value hx hfits hrest (.array vs)
    simpa [Value.events] using hvalue
  | objectBegin x stack hx =>
    obtain ⟨ms, rest, rfl, hrest⟩ := howed
    have hvalue := owed_value hx hfits hrest (.object ms)
    simpa [Value.events] using hvalue
  | scalar x stack t e hx ht =>
    obtain ⟨v, hv⟩ := exists_value_of_scalar ht
    rw [← hv]
    exact owed_value (.inr hx) hfits howed v
  | arrayEnd x stack hx =>
    rcases hx with rfl | rfl <;> exact ⟨[], fs, rfl, howed⟩
  | objectEnd x stack hx =>
    rcases hx with rfl | rfl <;> exact ⟨[], fs, rfl, howed⟩
  | key x stack s hx =>
    obtain ⟨v, rest, rfl, hrest⟩ := howed
    rcases hx with rfl | rfl
    · rcases stack with _ | ⟨_ | _, stack⟩
      · cases hfits
      · exact hrest.member s v
      · cases hfits
    · exact ⟨s, v, rest, rfl, hrest⟩
  | colon stack => exact howed
  | commaArray stack =>
    obtain ⟨v, rest, rfl, hrest⟩ := howed
    exact hrest.value v
  | commaObject stack =>
    obtain ⟨k, v, rest, rfl, hrest⟩ := howed
    exact hrest.member k v

theorem owed_of_eventsFrom {depth : Nat} {r : Reader} {ts : List Token} {es : List Event}
    (hfits : r.Fits) (h : eventsFrom depth r ts = some es) : Owed r es := by
  induction ts generalizing r es with
  | nil =>
    simp only [eventsFrom] at h
    split at h
    · next hr =>
      cases h
      rw [hr]
      exact (rfl : ([] : List Event) = [])
    · cases h
  | cons t ts ih =>
    obtain ⟨⟨r', us⟩, hstep, hrest⟩ := Option.bind_eq_some_iff.mp h
    obtain ⟨vs, hvs, heq⟩ := Option.bind_eq_some_iff.mp hrest
    cases heq
    have hreads := readStep_cases hstep
    exact owed_of_reads hfits hreads (ih (hreads.fits hfits) hvs)

/-- What the parser tells of a text is what it tells of a value. -/
theorem exists_value_of_events {depth : Nat} {str : List Char} {es : List Event}
    (h : events depth str = some es) : ∃ v : Value, es = v.events := by
  obtain ⟨ts, -, hfrom⟩ := Option.bind_eq_some_iff.mp h
  obtain ⟨v, rest, rfl, hrest⟩ := owed_of_eventsFrom (r := ⟨.start, []⟩) rfl hfrom
  cases hrest
  exact ⟨v, List.append_nil _⟩

end Events

section Built

/-! ## What is built of a value -/

/-- The value comes into the container that is open, under the last key. -/
def Attached (v : Value) : Prop :=
  ∀ b : Builder, ∃ key,
    v.events.foldl Builder.cb b = { b.attach b.lastkey v.made with lastkey := key }

theorem foldl_elemsEvents {vs : List Value} (hvs : ∀ v ∈ vs, Attached v) (lastkey k : List Char)
    (xs : List Document) (rest : List (List Char × Container)) (root : Option Document) :
    ∃ key, (elemsEvents vs).foldl Builder.cb ⟨lastkey, (k, .array xs) :: rest, root⟩ =
      ⟨key, (k, .array (xs ++ elemsMade vs)) :: rest, root⟩ := by
  induction vs generalizing lastkey xs with
  | nil => exact ⟨lastkey, by simp [elemsEvents, elemsMade]⟩
  | cons v vs ih =>
    obtain ⟨key, hv⟩ := hvs v List.mem_cons_self ⟨lastkey, (k, .array xs) :: rest, root⟩
    obtain ⟨key', hrest⟩ := ih (fun w hw => hvs w (List.mem_cons_of_mem v hw)) key
      (xs ++ [v.made])
    refine ⟨key', ?_⟩
    rw [elemsEvents, List.foldl_append, hv]
    simpa [elemsMade, Builder.attach, Container.add] using hrest

theorem foldl_membersEvents {ms : List (List Char × Value)} (hms : ∀ m ∈ ms, Attached m.2)
    (lastkey k : List Char) (es : List (List Char × Document))
    (rest : List (List Char × Container)) (root : Option Document) :
    ∃ key, (membersEvents ms).foldl Builder.cb ⟨lastkey, (k, .dict es) :: rest, root⟩ =
      ⟨key, (k, .dict (es ++ membersMade (es.map Prod.fst) ms)) :: rest, root⟩ := by
  induction ms generalizing lastkey es with
  | nil => exact ⟨lastkey, by simp [membersEvents, membersMade]⟩
  | cons m ms ih =>
    obtain ⟨s, v⟩ := m
    obtain ⟨key, hv⟩ := hms (s, v) List.mem_cons_self ⟨cString s, (k, .dict es) :: rest, root⟩
    have ih := fun es => ih (fun w hw => hms w (List.mem_cons_of_mem (s, v) hw)) key es
    rw [membersEvents, List.foldl_cons, List.foldl_append]
    simp only [Builder.cb, hv, Builder.attach, Container.add, membersMade]
    split
    · next hmem => simpa using ih es
    · next hmem => simpa using ih (es ++ [(cString s, v.made)])

theorem attached (v : Value) : Attached v := by
  induction v using Value.induct with
  | array vs ih =>
    intro b
    obtain ⟨key, h⟩ := foldl_elemsEvents ih b.lastkey b.lastkey [] b.stack b.root
    refine ⟨key, ?_⟩
    rw [Value.events, List.foldl_cons, List.foldl_append]
    simp only [Builder.cb]
    rw [h]
    simp only [List.nil_append, List.foldl_cons, List.foldl_nil, Builder.cb, Container.close,
      Value.made, Builder.attach]
    split <;> rfl
  | object ms ih =>
    intro b
    obtain ⟨key, h⟩ := foldl_membersEvents ih b.lastkey b.lastkey [] b.stack b.root
    refine ⟨key, ?_⟩
    rw [Value.events, List.foldl_cons, List.foldl_append]
    simp only [Builder.cb]
    rw [h]
    simp only [List.nil_append, List.foldl_cons, List.foldl_nil, Builder.cb, Container.close,
      Value.made, Builder.attach, List.map_nil]
    split <;> rfl
  | integer n => exact fun b => ⟨_, rfl⟩
  | float d => exact fun b => ⟨_, rfl⟩
  | boolean b' =>
    intro b
    cases b' <;> exact ⟨_, rfl⟩
  | null => exact fun b => ⟨_, rfl⟩
  | string s => exact fun b => ⟨_, rfl⟩

/-- The callback, told of a value, ends with nothing open, and the object is what is made of it. -/
theorem cb_events (v : Value) :
    (v.events.foldl Callback.cb .init).mystack = [] ∧
      (v.events.foldl Callback.cb .init).Is v.made := by
  obtain ⟨key, h⟩ := attached v .init
  have hbuilds := builds_init.run v.events
  rw [h] at hbuilds
  exact hbuilds.is rfl rfl

/-- What is built of a text is what the callback has at its end. -/
theorem is_of_build {depth : Nat} {str : List Char} {x : Document}
    (h : build depth str = some x) :
    ∃ es, events (depth - 1) str = some es ∧ (es.foldl Callback.cb .init).mystack = [] ∧
      (es.foldl Callback.cb .init).Is x := by
  obtain ⟨es, hes, hroot⟩ := Option.bind_eq_some_iff.mp h
  obtain ⟨v, rfl⟩ := exists_value_of_events hes
  obtain ⟨key, hbuilt⟩ := attached v .init
  rw [hbuilt] at hroot
  cases hroot
  exact ⟨v.events, hes, cb_events v⟩

end Built

section Denoted

/-! ## What is built and what is denoted -/

theorem not_mem_cString (s : List Char) : '\x00' ∉ cString s := by
  intro h
  have hne := List.mem_takeWhile_imp h
  simp at hne

theorem cString_eq_iff {s : List Char} : cString s = s ↔ '\x00' ∉ s := by
  rw [cString, List.takeWhile_eq_self_iff]
  constructor
  · intro h hmem
    simpa using h _ hmem
  · intro h c hc
    have hne : c ≠ '\x00' := fun heq => h (heq ▸ hc)
    simpa using hne

theorem mem_membersMade {seen : List (List Char)} {ms : List (List Char × Value)}
    {e : List Char × Document} (h : e ∈ membersMade seen ms) : '\x00' ∉ e.1 := by
  induction ms generalizing seen with
  | nil => cases h
  | cons m ms ih =>
    obtain ⟨k, v⟩ := m
    rw [membersMade] at h
    split at h
    · exact ih h
    · rcases List.mem_cons.mp h with rfl | h
      · exact not_mem_cString k
      · exact ih h

theorem scanInteger_eq {n : Int} (h : -2 ^ 31 ≤ n ∧ n < 2 ^ 31) : scanInteger n = n := by
  simp only [scanInteger]
  omega

theorem elemsDenoted_eq_iff {vs : List Value}
    (h : ∀ v ∈ vs, v.denoted = some v.made ↔ v.Plain) :
    elemsDenoted vs = some (elemsMade vs) ↔ PlainElems vs := by
  induction vs with
  | nil => exact ⟨fun _ => trivial, fun _ => rfl⟩
  | cons v vs ih =>
    have ih := ih fun w hw => h w (List.mem_cons_of_mem v hw)
    simp only [elemsDenoted, elemsMade, PlainElems, ← h v List.mem_cons_self, ← ih]
    cases v.denoted <;> cases elemsDenoted vs <;> simp

/-- Of the members before, no key has a null character. -/
theorem membersDenoted_eq_iff {seen : List (List Char)} {ms : List (List Char × Value)}
    (hseen : ∀ k ∈ seen, '\x00' ∉ k) (h : ∀ m ∈ ms, m.2.denoted = some m.2.made ↔ m.2.Plain) :
    membersDenoted seen ms = some (membersMade seen ms) ↔ PlainMembers seen ms := by
  induction ms generalizing seen with
  | nil => exact ⟨fun _ => trivial, fun _ => rfl⟩
  | cons m ms ih =>
    obtain ⟨k, v⟩ := m
    have hms := fun w hw => h w (List.mem_cons_of_mem (k, v) hw)
    by_cases hk : '\x00' ∈ k
    · -- the key stays in what is denoted, and no key of what is made is like it
      have hnot : k ∉ seen := fun hmem => hseen k hmem hk
      have hplain : ¬PlainMembers seen ((k, v) :: ms) := by
        simp [PlainMembers, hnot, hk]
      refine iff_of_false (fun heq => ?_) hplain
      have hmem : ∀ x ∈ membersMade seen ((k, v) :: ms), '\x00' ∉ x.1 := fun x hx =>
        mem_membersMade hx
      simp only [membersDenoted, if_neg hnot] at heq
      obtain ⟨x, hx, heq⟩ := Option.bind_eq_some_iff.mp heq
      obtain ⟨es, hes, heq⟩ := Option.bind_eq_some_iff.mp heq
      have hhead : (k, x) ∈ membersMade seen ((k, v) :: ms) := by
        rw [← Option.some.inj heq]
        exact List.mem_cons_self
      exact hmem _ hhead hk
    · have hkey : cString k = k := cString_eq_iff.mpr hk
      by_cases hmem : k ∈ seen
      · simp only [membersDenoted, membersMade, PlainMembers, hkey, if_pos hmem]
        exact ih hseen hms
      · have ih := @ih (seen ++ [k]) (by
          intro s hs
          rcases List.mem_append.mp hs with hs | hs
          · exact hseen s hs
          · rw [List.mem_singleton.mp hs]
            exact hk) hms
        simp only [membersDenoted, membersMade, PlainMembers, hkey, if_neg hmem, ← ih,
          ← h (k, v) List.mem_cons_self]
        cases v.denoted <;> cases membersDenoted (seen ++ [k]) ms <;> simp [hk]

/-- The document made of a value is the one it denotes if and only if the value is plain. -/
theorem denoted_eq_made_iff (v : Value) : v.denoted = some v.made ↔ v.Plain := by
  induction v using Value.induct with
  | array vs ih =>
    have h := elemsDenoted_eq_iff ih
    simp only [Value.denoted, Value.made, Value.Plain, ← h]
    cases elemsDenoted vs <;> simp
  | object ms ih =>
    have h := @membersDenoted_eq_iff [] ms nofun ih
    simp only [Value.denoted, Value.made, Value.Plain, ← h]
    cases membersDenoted [] ms <;> simp
  | integer n =>
    simp only [Value.denoted, Value.made, Value.Plain]
    constructor
    · intro h
      by_contra hn
      rw [if_neg hn] at h
      cases h
    · intro h
      rw [if_pos h, scanInteger_eq h]
  | float d => exact ⟨fun _ => trivial, fun _ => rfl⟩
  | boolean b => exact ⟨fun _ => trivial, fun _ => rfl⟩
  | null => exact ⟨fun _ => trivial, fun _ => rfl⟩
  | string s =>
    simp only [Value.denoted, Value.made, Value.Plain, Option.some.injEq, Document.string.injEq]
    exact eq_comm.trans cString_eq_iff

/-- The callback, told of a value, ends with nothing open, and with the document that the value
denotes as the object, if and only if no string or key that is kept has a null character and an
`int` holds every integer that is kept. -/
theorem object_denoted_iff (v : Value) :
    ((v.events.foldl Callback.cb .init).mystack = [] ∧
      ∃ w, v.denoted = some w ∧ (v.events.foldl Callback.cb .init).Is w) ↔ v.Plain := by
  obtain ⟨hstack, his⟩ := cb_events v
  rw [← denoted_eq_made_iff]
  constructor
  · rintro ⟨-, w, hw, hisw⟩
    rw [hw, his.unique hisw]
  · intro h
    exact ⟨hstack, v.made, h, his⟩

/-- The text behind a null character is lost. -/
theorem null_character_cuts :
    ∃ v : Value, events 19 "[\"a\\u0000b\"]".toList = some v.events ∧
      ¬∃ w, v.denoted = some w ∧ (v.events.foldl Callback.cb .init).Is w := by
  refine ⟨.array [.string ['a', '\x00', 'b']], by decide +kernel, ?_⟩
  rintro ⟨w, hw, hisw⟩
  obtain rfl := (cb_events _).2.unique hisw
  simp [Value.denoted, elemsDenoted, Value.made, elemsMade, cString] at hw

end Denoted

end Nox.Json
