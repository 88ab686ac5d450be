import Nox.Lib.Bytes
import Mathlib.Data.List.Nodup
import Mathlib.Logic.Function.Basic

/-!
# Netlink attributes

`put_unspec` appends an attribute to a message, and `Nl_policy::parse` finds the attributes in the
body of one.  It stays inside of every body and keeps to the policy (`parse_safe`).  What has been
composed is found again, except for contents so large that the length of the attribute does not
fit its 16 bits (`parse_composed_iff`).
-/

namespace Nox.Netlink

section Compose

/-! ## Composing -/

structure Attribute where
  type : UInt16
  content : Bytes
  deriving DecidableEq, Repr

/-- `NLA_HDRLEN` -/
def nlaHdrlen : Nat := 4

/-- `NLA_ALIGN`, which is `NLMSG_ALIGN` too. -/
def nlaAlign (len : Nat) : Nat := (len + 3) / 4 * 4

def uint16Max : Nat := 65535

/-- An attribute with its header, whose length has 16 bits, and its padding. -/
def Attribute.bytes (a : Attribute) : Bytes :=
  leBytes 2 (a.content.length + nlaHdrlen) ++ leBytes 2 a.type.toNat ++
    (a.content ++ List.replicate (nlaAlign a.content.length - a.content.length) 0)

/-- `put_unspec` behind what the body of the message has; nothing when it throws. -/
def putUnspec (body : Bytes) (a : Attribute) : Option Bytes :=
  if a.content.length > uint16Max then none else some (body ++ a.bytes)

/-- The body after calls of `put_unspec`. -/
def compose (attributes : List Attribute) : Option Bytes := attributes.foldlM putUnspec []

end Compose

section Policy

/-! ## Policies -/

/-- `Nl_attr::Type` -/
inductive ValueType
  | sentinel | unspec | u8 | u16 | u32 | u64 | string | flag | msecs | nested | nestedCompat
  | nulString | binary
  deriving DecidableEq, Repr

structure NlAttr where
  attrType : UInt16
  valueType : ValueType
  minLen : Nat
  maxLen : Nat
  required : Bool
  deriving DecidableEq, Repr

/-- `init` asserts that there is one element of a type at most. -/
structure NlPolicy where
  elements : List NlAttr
  nodup : (elements.map (·.attrType)).Nodup

/-- `elements[type]` -/
def NlPolicy.element (P : NlPolicy) (type : UInt16) : Option NlAttr :=
  P.elements.find? (·.attrType == type)

/-- The required elements that are not among the attributes. -/
def NlPolicy.missing (P : NlPolicy) (attrs : UInt16 → Option Nat) : Nat :=
  P.elements.countP fun e => e.required && (attrs e.attrType).isNone

def NlPolicy.nRequired (P : NlPolicy) : Nat := P.elements.countP (·.required)

end Policy

section Parse

/-! ## Parsing -/

/-- The attributes are found at their distances from the front of the body. -/
structure ParseState where
  off : Nat
  attrs : UInt16 → Option Nat
  stillRequired : Nat

inductive Turn
  | reject
  | next (s : ParseState)

inductive Parsed
  | outside
  | rejected
  | accepted (attrs : UInt16 → Option Nat)

/-- A number in the buffer; none outside of it. -/
def readU16 (body : Bytes) (off : Nat) : Option Nat :=
  if off + 2 ≤ body.length then some (leNat ((body.drop off).take 2)) else none

/-- Whether the last byte of an attribute is what its element asks for. -/
def NlAttr.terminated (e : NlAttr) (body : Bytes) (last : Nat) : Option Bool :=
  if e.valueType = .nulString then body[last]?.map (· == 0) else some true

namespace NlPolicy

variable (P : NlPolicy) (body : Bytes)

/-- The state behind an attribute that has an element. -/
def found (s : ParseState) (type : UInt16) (e : NlAttr) (off : Nat) : ParseState where
  off := off
  attrs := Function.update s.attrs type (some s.off)
  stillRequired :=
    if e.required && (s.attrs type).isNone then s.stillRequired - 1 else s.stillRequired

/-- What is done with an attribute when its header has been read. -/
def readAttribute (s : ParseState) (nlaLen : Nat) (type : UInt16) : Option Turn :=
  let len := nlaLen - nlaHdrlen
  let alignedLen := nlaAlign len
  let off := s.off + nlaHdrlen + alignedLen
  if nlaLen < nlaHdrlen then some .reject
  else if alignedLen > body.length - (s.off + nlaHdrlen) then some .reject
  else
    match P.element type with
    | none => some (.next { s with off := off })
    | some e =>
      if len < e.minLen ∨ len > e.maxLen then some .reject
      else (e.terminated body (s.off + nlaLen - 1)).map fun terminated =>
        if terminated then .next (found s type e off) else .reject

/-- The body of the loop of `parse`; none where it would read outside of the buffer. -/
def turn (s : ParseState) : Option Turn :=
  if body.length - s.off < nlaHdrlen then some .reject
  else do
    let nlaLen ← readU16 body s.off
    let type ← readU16 body (s.off + 2)
    P.readAttribute body s nlaLen (UInt16.ofNat type)

/-- An attribute with an element: its header and its content are in the buffer, and it has the
length that the element asks for. -/
def Placed (type : UInt16) (off : Nat) : Prop :=
  ∃ e ∈ P.elements, e.attrType = type ∧ ∃ nlaLen, readU16 body off = some nlaLen ∧
    readU16 body (off + 2) = some type.toNat ∧ nlaHdrlen ≤ nlaLen ∧ off + nlaLen ≤ body.length ∧
    e.minLen ≤ nlaLen - nlaHdrlen ∧ nlaLen - nlaHdrlen ≤ e.maxLen

variable {P body} {s s' : ParseState}

theorem le_nlaAlign (n : Nat) : n ≤ nlaAlign n := by
  unfold nlaAlign
  omega

theorem readU16_lt {off n : Nat} (h : readU16 body off = some n) : n < 2 ^ 16 := by
  unfold readU16 at h
  split at h
  · cases h
    refine (leNat_lt _).trans_le (Nat.pow_le_pow_right (by omega) ?_ : 256 ^ _ ≤ 256 ^ 2)
    exact List.length_take_le 2 _
  · cases h

theorem element_mem {type : UInt16} {e : NlAttr} (h : P.element type = some e) :
    e ∈ P.elements ∧ e.attrType = type :=
  ⟨List.mem_of_find?_eq_some h, by simpa using List.find?_some h⟩

/-- All that a pass through the loop can lead to. -/
theorem turn_next (h : P.turn body s = some (.next s')) :
    s.off + nlaHdrlen ≤ body.length ∧ s.off + nlaHdrlen ≤ s'.off ∧ s'.off ≤ body.length ∧
      ((s'.attrs = s.attrs ∧ s'.stillRequired = s.stillRequired) ∨
        ∃ type e, P.element type = some e ∧ P.Placed body type s.off ∧
          s' = found s type e s'.off) := by
  unfold turn at h
  split at h
  · cases h
  · next hheader =>
    obtain ⟨nlaLen, hlen, h⟩ := Option.bind_eq_some_iff.mp h
    obtain ⟨type, htype, h⟩ := Option.bind_eq_some_iff.mp h
    unfold readAttribute at h
    dsimp only at h
    split_ifs at h with hshort hlong
    · cases h
    · cases h
    have hle := le_nlaAlign (nlaLen - nlaHdrlen)
    have hhdr : nlaHdrlen = 4 := rfl
    split at h
    · cases h
      exact ⟨by omega, Nat.le_add_right _ _, by dsimp only; omega, Or.inl ⟨rfl, rfl⟩⟩
    · next e he =>
      split at h
      · cases h
      next hbounds =>
      obtain ⟨terminated, -, h⟩ := Option.map_eq_some_iff.mp h
      split at h
      · cases h
        obtain ⟨hmem, heq⟩ := element_mem he
        have htoNat : (UInt16.ofNat type).toNat = type := Nat.mod_eq_of_lt (readU16_lt htype)
        refine ⟨by omega, Nat.le_add_right _ _, by simp only [found]; omega, Or.inr
          ⟨_, e, he, ⟨e, hmem, heq, nlaLen, hlen, ?_, ?_⟩, rfl⟩⟩
        · rw [htoNat]
          exact htype
        · omega
      · cases h

/-- The loop of `parse`, and what is left to do behind it. -/
def parseLoop (P : NlPolicy) (body : Bytes) (s : ParseState) : Parsed :=
  if body.length ≤ s.off then
    if s.stillRequired = 0 then .accepted s.attrs else .rejected
  else
    match _h : P.turn body s with
    | none => .outside
    | some .reject => .rejected
    | some (.next s') => parseLoop P body s'
termination_by body.length - s.off
decreasing_by
  have hnext := turn_next ‹_›
  simp only [nlaHdrlen] at hnext
  omega

/-- `parse`; `attrs` has a place for every type of the policy, as it asserts. -/
def parse (P : NlPolicy) (body : Bytes) : Parsed :=
  P.parseLoop body ⟨0, fun _ => none, P.nRequired⟩

end NlPolicy

end Parse

section Safety

/-! ## Safety -/

namespace NlPolicy

variable {P : NlPolicy} {body : Bytes} {s s' : ParseState}

theorem readU16_eq_some {off : Nat} (h : off + 2 ≤ body.length) :
    readU16 body off = some (leNat ((body.drop off).take 2)) := if_pos h

theorem readAttribute_isSome {nlaLen : Nat} {type : UInt16} (h : s.off + nlaHdrlen ≤ body.length) :
    (P.readAttribute body s nlaLen type).isSome := by
  unfold readAttribute
  dsimp only
  split_ifs with hshort hlong
  · rfl
  · rfl
  split
  · rfl
  · next e _ =>
    split_ifs with hbounds
    · rfl
    have hle := le_nlaAlign (nlaLen - nlaHdrlen)
    have hhdr : nlaHdrlen = 4 := rfl
    have hlast : s.off + nlaLen - 1 < body.length := by omega
    rw [Option.isSome_map, NlAttr.terminated]
    split
    · rw [List.getElem?_eq_getElem hlast]
      rfl
    · rfl

/-- What is read is inside of the buffer. -/
theorem turn_isSome (P : NlPolicy) (body : Bytes) (s : ParseState) : (P.turn body s).isSome := by
  unfold turn
  split
  · rfl
  · next hheader =>
    simp only [nlaHdrlen] at hheader
    rw [readU16_eq_some (by omega), readU16_eq_some (by omega)]
    exact readAttribute_isSome (by simp only [nlaHdrlen]; omega)

/-- One required element is found. -/
theorem countP_found (l : List NlAttr) (hnd : (l.map (·.attrType)).Nodup) {e : NlAttr}
    (he : e ∈ l) {attrs : UInt16 → Option Nat} (off : Nat) :
    (l.countP fun x => x.required &&
        (Function.update attrs e.attrType (some off) x.attrType).isNone) =
      (l.countP fun x => x.required && (attrs x.attrType).isNone) -
        if e.required && (attrs e.attrType).isNone then 1 else 0 := by
  induction l with
  | nil => cases he
  | cons x l ih =>
    obtain ⟨hnot, hnd⟩ := List.nodup_cons.mp hnd
    rw [List.countP_cons, List.countP_cons]
    rcases List.mem_cons.mp he with rfl | hmem
    · -- the others have other types
      have hothers : (l.countP fun x =>
          x.required && (Function.update attrs e.attrType (some off) x.attrType).isNone) =
          l.countP fun x => x.required && (attrs x.attrType).isNone := by
        refine List.countP_congr fun x hx => ?_
        have hne : x.attrType ≠ e.attrType := fun heq =>
          hnot (List.mem_map.mpr ⟨x, hx, heq⟩)
        rw [Function.update_of_ne hne]
      rw [hothers, Function.update_self]
      simp
    · have hne : x.attrType ≠ e.attrType := fun heq =>
        hnot (List.mem_map.mpr ⟨e, hmem, heq.symm⟩)
      rw [Function.update_of_ne hne, ih hnd hmem]
      -- the element that is found has been counted
      have hpos : (if (e.required && (attrs e.attrType).isNone) = true then 1 else 0) ≤
          l.countP fun x => x.required && (attrs x.attrType).isNone := by
        split
        · next hcond => exact List.countP_pos_iff.mpr ⟨e, hmem, hcond⟩
        · exact Nat.zero_le _
      omega

theorem missing_found {type : UInt16} {e : NlAttr} (h : P.element type = some e)
    (attrs : UInt16 → Option Nat) (off : Nat) :
    P.missing (Function.update attrs type (some off)) =
      P.missing attrs - if e.required && (attrs type).isNone then 1 else 0 := by
  obtain ⟨hmem, rfl⟩ := element_mem h
  exact countP_found P.elements P.nodup hmem off

/-- What holds between the passes of the loop. -/
structure Inv (P : NlPolicy) (body : Bytes) (s : ParseState) : Prop where
  off_le : s.off ≤ body.length
  still : s.stillRequired = P.missing s.attrs
  placed : ∀ type off, s.attrs type = some off → P.Placed body type off

theorem inv_start (P : NlPolicy) (body : Bytes) :
    P.Inv body ⟨0, fun _ => none, P.nRequired⟩ where
  off_le := Nat.zero_le _
  still := by
    refine List.countP_congr fun e _ => ?_
    simp
  placed := fun _ _ h => nomatch h

theorem Inv.turn (h : P.Inv body s) (hs : P.turn body s = some (.next s')) : P.Inv body s' := by
  obtain ⟨-, -, hle, hcases⟩ := turn_next hs
  rcases hcases with ⟨hattrs, hstill⟩ | ⟨type, e, he, hplaced, heq⟩
  · exact ⟨hle, by rw [hstill, hattrs, h.still], fun type off ho => h.placed type off (hattrs ▸ ho)⟩
  · refine ⟨hle, ?_, fun type' off ho => ?_⟩
    · rw [heq]
      simp only [found]
      rw [missing_found he, h.still]
      split <;> rfl
    · rw [heq] at ho
      simp only [found] at ho
      by_cases htype : type' = type
      · rw [htype, Function.update_self] at ho
        cases ho
        rw [htype]
        exact hplaced
      · rw [Function.update_of_ne htype] at ho
        exact h.placed type' off ho

/-- All that is required is there when nothing is missing. -/
theorem missing_eq_zero {attrs : UInt16 → Option Nat} (h : P.missing attrs = 0) :
    ∀ e ∈ P.elements, e.required = true → (attrs e.attrType).isSome := by
  intro e he hreq
  have hnone := List.countP_eq_zero.mp h e he
  rw [hreq, Bool.true_and] at hnone
  exact Option.isSome_iff_ne_none.mpr fun heq => hnone (by rw [heq]; rfl)

/-- What `parse` has found keeps to the policy. -/
def Keeps (P : NlPolicy) (body : Bytes) (attrs : UInt16 → Option Nat) : Prop :=
  (∀ e ∈ P.elements, e.required = true → (attrs e.attrType).isSome) ∧
    ∀ type off, attrs type = some off → P.Placed body type off

/-- `parse` reads inside of the buffer, and what it finds keeps to the policy. -/
def Safe (P : NlPolicy) (body : Bytes) : Prop :=
  P.parse body ≠ .outside ∧ ∀ attrs, P.parse body = .accepted attrs → P.Keeps body attrs

theorem Inv.parseLoop {s : ParseState} (h : P.Inv body s) :
    P.parseLoop body s ≠ .outside ∧
      ∀ attrs, P.parseLoop body s = .accepted attrs → P.Keeps body attrs := by
  rw [NlPolicy.parseLoop]
  split
  · split
    · next hstill =>
      refine ⟨nofun, ?_⟩
      rintro _ ⟨⟩
      exact ⟨missing_eq_zero (h.still ▸ hstill), h.placed⟩
    · exact ⟨nofun, nofun⟩
  · split
    · next hnone =>
      have hsome := turn_isSome P body s
      rw [hnone] at hsome
      cases hsome
    · exact ⟨nofun, nofun⟩
    · next s' hs => exact (h.turn hs).parseLoop
termination_by body.length - s.off
decreasing_by
  have hnext := turn_next ‹_›
  simp only [nlaHdrlen] at hnext
  omega

theorem parse_safe (P : NlPolicy) (body : Bytes) : P.Safe body := (inv_start P body).parseLoop

end NlPolicy

end Safety

section RoundTrip

/-! ## Round trips -/

/-- What a policy asks of one attribute. -/
def NlPolicy.AdmitsOne (P : NlPolicy) (a : Attribute) : Prop :=
  ∀ e, P.element a.type = some e → e.minLen ≤ a.content.length ∧ a.content.length ≤ e.maxLen ∧
    (e.valueType = .nulString → a.content.getLast? = some 0)

/-- The attributes that a policy is for. -/
structure NlPolicy.Admits (P : NlPolicy) (attributes : List Attribute) : Prop where
  each : ∀ a ∈ attributes, P.AdmitsOne a
  required : ∀ e ∈ P.elements, e.required = true → ∃ a ∈ attributes, a.type = e.attrType

/-- The payload of an attribute, which `get_data` and `nla_len` tell. -/
def contentAt (body : Bytes) (off : Nat) : Bytes :=
  (body.drop (off + nlaHdrlen)).take ((readU16 body off).getD 0 - nlaHdrlen)

/-- The content of the last attribute of a type. -/
def lastOf (attributes : List Attribute) (type : UInt16) : Option Bytes :=
  ((attributes.filter (·.type == type)).getLast?).map (·.content)

/-- For each type of the policy the last attribute of that type has been found. -/
def NlPolicy.Finds (P : NlPolicy) (body : Bytes) (attributes : List Attribute)
    (attrs : UInt16 → Option Nat) : Prop :=
  ∀ type, (attrs type).map (contentAt body) =
    if (P.element type).isSome then lastOf attributes type else none

/-- `parse` succeeds, and has found the attributes. -/
def NlPolicy.RoundTrips (P : NlPolicy) (body : Bytes) (attributes : List Attribute) : Prop :=
  ∃ attrs, P.parse body = .accepted attrs ∧ P.Finds body attributes attrs

/-- The largest content whose length, with the header, is a number of 16 bits. -/
def maxContent : Nat := uint16Max - nlaHdrlen

variable {P : NlPolicy} {a : Attribute} {attributes : List Attribute} {body pre post : Bytes}
  {s s' : ParseState}

theorem bytes_length (a : Attribute) :
    a.bytes.length = nlaHdrlen + nlaAlign a.content.length := by
  have hle := NlPolicy.le_nlaAlign a.content.length
  simp only [Attribute.bytes, List.length_append, leBytes_length, List.length_replicate, nlaHdrlen]
  omega

/-- What `put_unspec` accepts is appended. -/
theorem compose_eq (h : compose attributes = some body) :
    body = attributes.flatMap Attribute.bytes ∧
      ∀ a ∈ attributes, a.content.length ≤ uint16Max := by
  have hgen : ∀ (l : List Attribute) (start : Bytes), l.foldlM putUnspec start = some body →
      body = start ++ l.flatMap Attribute.bytes ∧ ∀ a ∈ l, a.content.length ≤ uint16Max := by
    intro l
    induction l with
    | nil =>
      intro start hfold
      cases hfold
      exact ⟨(List.append_nil _).symm, fun _ h => nomatch h⟩
    | cons a l ih =>
      intro start hfold
      rw [List.foldlM_cons] at hfold
      obtain ⟨next, hput, hrest⟩ := Option.bind_eq_some_iff.mp hfold
      unfold putUnspec at hput
      split at hput
      · cases hput
      · next hsize =>
        cases hput
        obtain ⟨hbody, hall⟩ := ih _ hrest
        refine ⟨?_, List.forall_mem_cons.mpr ⟨Nat.le_of_not_lt hsize, hall⟩⟩
        rw [hbody, List.flatMap_cons, List.append_assoc]
  exact hgen attributes [] h

theorem readU16_append (pre post : Bytes) (n : Nat) :
    readU16 (pre ++ (leBytes 2 n ++ post)) pre.length = some (n % 2 ^ 16) := by
  have hlength : pre.length + 2 ≤ (pre ++ (leBytes 2 n ++ post)).length := by
    simp only [List.length_append, leBytes_length]
    omega
  rw [NlPolicy.readU16_eq_some hlength, List.drop_left, List.take_left' (leBytes_length 2 n),
    leNat_leBytes]
  rfl

/-- The header of an attribute behind others. -/
theorem readU16_bytes (hbody : body = pre ++ (a.bytes ++ post)) :
    readU16 body pre.length = some ((a.content.length + nlaHdrlen) % 2 ^ 16) ∧
      readU16 body (pre.length + 2) = some a.type.toNat := by
  constructor
  · rw [hbody, Attribute.bytes, List.append_assoc, List.append_assoc]
    exact readU16_append _ _ _
  · have hsplit : body = pre ++ leBytes 2 (a.content.length + nlaHdrlen) ++
        (leBytes 2 a.type.toNat ++ ((a.content ++
          List.replicate (nlaAlign a.content.length - a.content.length) 0) ++ post)) := by
      rw [hbody, Attribute.bytes]
      simp only [List.append_assoc]
    have hlength : (pre ++ leBytes 2 (a.content.length + nlaHdrlen)).length = pre.length + 2 := by
      rw [List.length_append, leBytes_length]
    rw [hsplit, ← hlength, readU16_append, Nat.mod_eq_of_lt a.type.toNat_lt]

/-- The content of an attribute is behind its header. -/
theorem bytes_split (hbody : body = pre ++ (a.bytes ++ post)) :
    ∃ front back : Bytes, front.length = pre.length + nlaHdrlen ∧
      body = front ++ (a.content ++ back) := by
  refine ⟨pre ++ (leBytes 2 (a.content.length + nlaHdrlen) ++ leBytes 2 a.type.toNat),
    List.replicate (nlaAlign a.content.length - a.content.length) 0 ++ post, ?_, ?_⟩
  · simp only [List.length_append, leBytes_length, nlaHdrlen]
  · rw [hbody, Attribute.bytes]
    simp only [List.append_assoc]

theorem length_mod (h : a.content.length ≤ maxContent) :
    (a.content.length + nlaHdrlen) % 2 ^ 16 = a.content.length + nlaHdrlen := by
  have hhdr : nlaHdrlen = 4 := rfl
  have hmax : maxContent = 65531 := rfl
  omega

theorem contentAt_bytes (hbody : body = pre ++ (a.bytes ++ post))
    (hsize : a.content.length ≤ maxContent) : contentAt body pre.length = a.content := by
  obtain ⟨front, back, hfront, hsplit⟩ := bytes_split hbody
  rw [contentAt, (readU16_bytes hbody).1, Option.getD_some, length_mod hsize,
    Nat.add_sub_cancel, ← hfront, hsplit, List.drop_left, List.take_left]

theorem terminated_bytes (hbody : body = pre ++ (a.bytes ++ post)) {e : NlAttr}
    (h : e.valueType = .nulString → a.content.getLast? = some 0) :
    e.terminated body (pre.length + (a.content.length + nlaHdrlen) - 1) = some true := by
  unfold NlAttr.terminated
  split
  · next hnul =>
    obtain ⟨front, back, hfront, hsplit⟩ := bytes_split hbody
    have hlast := h hnul
    rw [List.getLast?_eq_getElem?] at hlast
    have hlt := (List.getElem?_eq_some_iff.mp hlast).1
    have hindex : pre.length + (a.content.length + nlaHdrlen) - 1 =
        front.length + (a.content.length - 1) := by omega
    rw [hsplit, hindex, List.getElem?_append_right (Nat.le_add_right _ _), Nat.add_sub_cancel_left,
      List.getElem?_append_left hlt, hlast]
    rfl
  · rfl

/-- The loop takes an attribute that has been composed. -/
theorem turn_bytes (hbody : body = pre ++ (a.bytes ++ post)) (hoff : s.off = pre.length)
    (hsize : a.content.length ≤ maxContent) (hadmits : P.AdmitsOne a) :
    ∃ s', P.turn body s = some (.next s') ∧ s'.off = (pre ++ a.bytes).length ∧
      s'.attrs = if (P.element a.type).isSome then
        Function.update s.attrs a.type (some pre.length) else s.attrs := by
  obtain ⟨hlen, htype⟩ := readU16_bytes hbody
  rw [length_mod hsize] at hlen
  have hbytes := bytes_length a
  have hlength : body.length = pre.length + (a.bytes.length + post.length) := by
    rw [hbody, List.length_append, List.length_append]
  have hsub : a.content.length + nlaHdrlen - nlaHdrlen = a.content.length := Nat.add_sub_cancel ..
  have hnext : s.off + nlaHdrlen + nlaAlign a.content.length = (pre ++ a.bytes).length := by
    rw [List.length_append, hbytes, hoff, Nat.add_assoc]
  rw [NlPolicy.turn, if_neg (by omega), hoff, hlen, htype]
  change ∃ s', P.readAttribute body s (a.content.length + nlaHdrlen) (UInt16.ofNat a.type.toNat) =
    some (.next s') ∧ _
  rw [UInt16.ofNat_toNat]
  unfold NlPolicy.readAttribute
  dsimp only
  rw [hsub, if_neg (by omega), if_neg (by omega)]
  cases he : P.element a.type with
  | none => exact ⟨_, rfl, hnext, rfl⟩
  | some e =>
    obtain ⟨hmin, hmax, hnul⟩ := hadmits e he
    dsimp only
    rw [if_neg (by omega), hoff, terminated_bytes hbody hnul]
    refine ⟨_, rfl, ?_, ?_⟩
    · rw [← hnext, hoff]
      rfl
    · simp only [NlPolicy.found, hoff]
      rfl

/-- Its length has wrapped around to less than that of a header. -/
theorem turn_large (hbody : body = pre ++ (a.bytes ++ post)) (hoff : s.off = pre.length)
    (hsize : a.content.length ≤ uint16Max) (hlarge : maxContent < a.content.length) :
    P.turn body s = some .reject := by
  obtain ⟨hlen, htype⟩ := readU16_bytes hbody
  have hhdr : nlaHdrlen = 4 := rfl
  have hmax : maxContent = 65531 := rfl
  have huint : uint16Max = 65535 := rfl
  have hbytes := bytes_length a
  have hlength : body.length = pre.length + (a.bytes.length + post.length) := by
    rw [hbody, List.length_append, List.length_append]
  rw [NlPolicy.turn, if_neg (by omega), hoff, hlen, htype]
  change P.readAttribute body s _ _ = _
  unfold NlPolicy.readAttribute
  dsimp only
  rw [if_pos (by omega)]

theorem parseLoop_next (h : P.turn body s = some (.next s')) :
    P.parseLoop body s = P.parseLoop body s' := by
  have hnext := NlPolicy.turn_next h
  have hhdr : nlaHdrlen = 4 := rfl
  rw [NlPolicy.parseLoop, if_neg (by omega)]
  split
  · next heq => rw [h] at heq; cases heq
  · next heq => rw [h] at heq; cases heq
  · next heq =>
    rw [h] at heq
    cases heq
    rfl

theorem parseLoop_reject (hlt : s.off < body.length) (h : P.turn body s = some .reject) :
    P.parseLoop body s = .rejected := by
  rw [NlPolicy.parseLoop, if_neg (Nat.not_le_of_lt hlt)]
  split
  · next heq => rw [h] at heq; cases heq
  · rfl
  · next heq => rw [h] at heq; cases heq

theorem lastOf_append (done : List Attribute) (a : Attribute) (type : UInt16) :
    lastOf (done ++ [a]) type = if a.type = type then some a.content else lastOf done type := by
  unfold lastOf
  rw [List.filter_append]
  by_cases h : a.type = type
  · simp [h]
  · simp [h]

theorem lastOf_isSome {type : UInt16} (h : ∃ a ∈ attributes, a.type = type) :
    (lastOf attributes type).isSome := by
  obtain ⟨a, ha, rfl⟩ := h
  have hmem : a ∈ attributes.filter (·.type == a.type) :=
    List.mem_filter.mpr ⟨ha, beq_self_eq_true _⟩
  rw [lastOf, Option.isSome_map, List.getLast?_eq_some_getLast (List.ne_nil_of_mem hmem)]
  rfl

theorem NlPolicy.element_isSome {e : NlAttr} (he : e ∈ P.elements) :
    (P.element e.attrType).isSome :=
  List.find?_isSome.mpr ⟨e, he, beq_self_eq_true _⟩

/-- Attributes that have been found are not missing. -/
theorem missing_of_finds {attrs : UInt16 → Option Nat} (h : P.Finds body attributes attrs)
    (hadmits : P.Admits attributes) : P.missing attrs = 0 := by
  refine List.countP_eq_zero.mpr fun e he hcond => ?_
  obtain ⟨hreq, hnone⟩ := Bool.and_eq_true_iff.mp hcond
  have hfound := h e.attrType
  rw [if_pos (NlPolicy.element_isSome he), Option.isNone_iff_eq_none.mp hnone] at hfound
  have hsome := lastOf_isSome (hadmits.required e he hreq)
  rw [← hfound] at hsome
  cases hsome

/-- The loop behind the first attributes finds the others too, unless one of them is too
large. -/
theorem parseLoop_composed (P : NlPolicy) (hadmits : P.Admits attributes)
    (hsize : ∀ a ∈ attributes, a.content.length ≤ uint16Max)
    (hbody : body = attributes.flatMap Attribute.bytes) (rest done : List Attribute)
    (hsplit : attributes = done ++ rest) {s : ParseState}
    (hoff : s.off = (done.flatMap Attribute.bytes).length) (hfinds : P.Finds body done s.attrs)
    (hinv : P.Inv body s) :
    (∃ attrs, P.parseLoop body s = .accepted attrs ∧ P.Finds body attributes attrs) ↔
      ∀ a ∈ rest, a.content.length ≤ maxContent := by
  induction rest generalizing done s with
  | nil =>
    rw [List.append_nil] at hsplit
    subst hsplit
    refine iff_of_true ⟨s.attrs, ?_, hfinds⟩ fun _ h => nomatch h
    rw [NlPolicy.parseLoop, if_pos (by rw [hoff, hbody]), if_pos]
    rw [hinv.still, missing_of_finds hfinds hadmits]
  | cons a rest ih =>
    have hpos : body = done.flatMap Attribute.bytes ++
        (a.bytes ++ rest.flatMap Attribute.bytes) := by
      rw [hbody, hsplit, List.flatMap_append, List.flatMap_cons]
    have hmem : a ∈ attributes := by
      rw [hsplit]
      exact List.mem_append_right _ List.mem_cons_self
    rw [List.forall_mem_cons]
    by_cases hfits : a.content.length ≤ maxContent
    · obtain ⟨s', hturn, hoff', hattrs⟩ := turn_bytes hpos hoff hfits (hadmits.each a hmem)
      rw [parseLoop_next hturn, and_iff_right hfits]
      refine ih (done ++ [a]) ?_ ?_ (fun type => ?_) (hinv.turn hturn)
      · rw [hsplit, List.append_assoc, List.singleton_append]
      · rw [hoff', List.flatMap_append, List.flatMap_singleton]
      · have hdone := hfinds type
        rw [hattrs, lastOf_append]
        by_cases htype : a.type = type
        · subst htype
          by_cases hsome : (P.element a.type).isSome = true
          · rw [if_pos hsome, if_pos hsome, if_pos rfl, Function.update_self, Option.map_some,
              contentAt_bytes hpos hfits]
          · rw [if_neg hsome] at hdone
            rw [if_neg hsome, if_neg hsome]
            exact hdone
        · have hne : Function.update s.attrs a.type
              (some (done.flatMap Attribute.bytes).length) type = s.attrs type :=
            Function.update_of_ne (Ne.symm htype) _ _
          rw [if_neg htype]
          split
          · rw [hne]
            exact hdone
          · exact hdone
    · have hlt : s.off < body.length := by
        rw [hoff, hpos, List.length_append, List.length_append, bytes_length]
        have hhdr : nlaHdrlen = 4 := rfl
        omega
      have hreject := turn_large (P := P) hpos hoff (hsize a hmem) (Nat.lt_of_not_le hfits)
      refine iff_of_false ?_ fun h => hfits h.1
      rintro ⟨attrs, haccepted, -⟩
      rw [parseLoop_reject hlt hreject] at haccepted
      cases haccepted

/-- Of attributes that a policy admits, `parse` finds what has been composed exactly if no content
is larger than the length of an attribute can tell; of any body it finds only what the policy
allows. -/
theorem parse_composed_iff (P : NlPolicy) (attributes : List Attribute) (body : Bytes)
    (h : compose attributes = some body) (hadmits : P.Admits attributes) :
    (P.RoundTrips body attributes ∧ ∀ bytes, P.Safe bytes) ↔
      ∀ a ∈ attributes, a.content.length ≤ maxContent := by
  obtain ⟨hbody, hsize⟩ := compose_eq h
  rw [and_iff_left (NlPolicy.parse_safe P)]
  refine parseLoop_composed P hadmits hsize hbody attributes [] rfl rfl (fun type => ?_)
    (NlPolicy.inv_start P body)
  split <;> rfl

/-- A policy that asks for a number of 16 bits, and takes a string. -/
def pairPolicy : NlPolicy where
  elements := [⟨1, .u16, 2, 2, true⟩, ⟨2, .nulString, 1, 16, false⟩]
  nodup := by decide

/-- The number is given twice, with a string between. -/
theorem pairPolicy_roundTrips :
    pairPolicy.RoundTrips ([6, 0, 1, 0, 7, 0, 0, 0] ++ [7, 0, 2, 0, 104, 105, 0, 0] ++
        [6, 0, 1, 0, 9, 0, 0, 0])
      [⟨1, [7, 0]⟩, ⟨2, [104, 105, 0]⟩, ⟨1, [9, 0]⟩] ∧ ∀ bytes, pairPolicy.Safe bytes := by
  refine (parse_composed_iff pairPolicy _ _ rfl ⟨?_, ?_⟩).mpr ?_
  · unfold NlPolicy.AdmitsOne
    decide
  · decide
  · decide

/-- A policy that takes any attribute of type 1. -/
def anyPolicy : NlPolicy where
  elements := [⟨1, .binary, 0, uint16Max, false⟩]
  nodup := by decide

/-- A content of the largest length that `put_unspec` accepts is not found again. -/
theorem content_not_found {content : Bytes} (hlength : content.length = uint16Max) :
    ∃ body, compose [⟨1, content⟩] = some body ∧ anyPolicy.Admits [⟨1, content⟩] ∧
      ¬ anyPolicy.RoundTrips body [⟨1, content⟩] := by
  have hadmits : anyPolicy.Admits [⟨1, content⟩] := by
    refine ⟨fun a ha e he => ?_, fun e he hreq => ?_⟩
    · cases List.mem_singleton.mp ha
      cases he
      exact ⟨Nat.zero_le _, hlength.le, nofun⟩
    · cases List.mem_singleton.mp he
      cases hreq
  have hcompose : compose [⟨1, content⟩] =
      some ([Attribute.mk 1 content].flatMap Attribute.bytes) := by
    have hput : putUnspec [] ⟨1, content⟩ = some (Attribute.bytes ⟨1, content⟩) :=
      if_neg (by rw [hlength]; exact Nat.lt_irrefl _)
    rw [compose, List.foldlM_cons, hput, List.flatMap_singleton]
    rfl
  refine ⟨_, hcompose, hadmits, fun hround => ?_⟩
  have hfits := (parseLoop_composed anyPolicy hadmits
    (fun a ha => by cases List.mem_singleton.mp ha; exact hlength.le) rfl _ [] rfl rfl
    (fun type => by split <;> rfl) (NlPolicy.inv_start anyPolicy _)).mp hround
  have hle := hfits _ List.mem_cons_self
  rw [hlength] at hle
  exact absurd hle (by decide)

/-- The largest content that `put_unspec` accepts is not found again. -/
theorem largest_not_found :
    ∃ body, compose [⟨1, List.replicate 65535 0⟩] = some body ∧
      anyPolicy.Admits [⟨1, List.replicate 65535 0⟩] ∧
      ¬ anyPolicy.RoundTrips body [⟨1, List.replicate 65535 0⟩] :=
  content_not_found List.length_replicate

end RoundTrip

end Nox.Netlink
