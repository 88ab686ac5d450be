import Nox.Interserver.Interactors
import Nox.Lib.Outcome

/-!
# How a builder can end

The elements of a set are taken for dictionaries, and what is read for a set for an
array: `get_dict_value` and the builders' loops cast without looking.  For each builder
there is a verdict: on which elements its casts are right, and which of these it accepts.
-/

namespace Nox.Interserver

open Nox.Oxm JsonObject
open Lib (Verdict ok_bind)
open Lib.Verdict (Until)

section Texts

/-! ## Lookups in a dictionary -/

/-- There is a text under the key. -/
def Has (T : Texts) (key : String) : Prop := (T key).isSome = true

/-- Under the key there is one of the words. -/
def Says (T : Texts) (key : String) (words : List String) : Prop :=
  ∃ value ∈ words, T key = some value

/-- On a dictionary it throws where the condition fails, and has no other fault. -/
abbrev ThrowsUnless {α : Type} (x : Except Fault α) (passes : Prop) : Prop :=
  Verdict .typeConfusion x True passes

variable {α β : Type} {args : JsonObject} {passes : Prop}

theorem throwsUnless_ok (a : α) (h : passes) : ThrowsUnless (.ok a) passes :=
  (Verdict.ok a).congr Iff.rfl fun _ => ⟨fun _ => h, fun _ => trivial⟩

theorem throwsUnless_invalidArgument (what : String) (h : ¬passes) :
    ThrowsUnless (invalidArgument what : Except Fault α) passes := by
  have hne : Fault.invalidArgument what ≠ .typeConfusion := nofun
  exact (Verdict.throws hne).congr Iff.rfl fun _ => ⟨False.elim, h⟩

theorem ThrowsUnless.bind {x : Except Fault α} {f : α → Except Fault β} {passes' : Prop}
    (hx : ThrowsUnless x passes) (hf : ∀ a, x = .ok a → ThrowsUnless (f a) passes') :
    ThrowsUnless (x >>= f) (passes ∧ passes') :=
  (Verdict.bind hx hf).congr ⟨fun _ => trivial, fun _ => ⟨trivial, fun _ => trivial⟩⟩
    fun _ => Iff.rfl

theorem ThrowsUnless.ite {c : Prop} [Decidable c] {x y : Except Fault α} {passes' : Prop}
    (hx : c → ThrowsUnless x passes) (hy : ¬c → ThrowsUnless y passes') :
    ThrowsUnless (if c then x else y) (if c then passes else passes') :=
  (Verdict.ite hx hy).congr (iff_of_eq (ite_self True)) fun _ => Iff.rfl

theorem throwsUnless_require (h : args.IsDict) (key what : String) :
    ThrowsUnless (require args key what) (Has args.text? key) := by
  unfold require Has
  rw [findIfExists_dict h]
  cases args.text? key with
  | none => exact throwsUnless_invalidArgument what nofun
  | some value => exact throwsUnless_ok value rfl

theorem text_of_require {key what value : String}
    (hv : require args key what = .ok value) : args.text? key = some value := by
  obtain ⟨r, hr, hrest⟩ := bind_eq_ok.mp hv
  obtain ⟨-, htext⟩ := isDict_of_findIfExists hr
  cases r with
  | none => cases hrest
  | some v =>
    cases hrest
    exact htext

/-- A text that has to be there, and what is done with it. -/
theorem throwsUnless_require_bind (h : args.IsDict) {key what : String}
    {f : String → Except Fault β} (hhas : passes → Has args.text? key)
    (hf : ∀ value, args.text? key = some value → ThrowsUnless (f value) passes) :
    ThrowsUnless (require args key what >>= f) passes := by
  have hrequire := throwsUnless_require h key what
  apply (hrequire.bind fun value hv => hf value (text_of_require hv)).congr Iff.rfl
  exact fun _ => ⟨And.right, fun hp => ⟨hhas hp, hp⟩⟩

/-- The same where more can go wrong. -/
theorem verdict_require_bind (h : args.IsDict) {key what : String} {f : String → Except Fault β}
    {safe passes : String → Prop} (hf : ∀ value, args.text? key = some value →
      Verdict .typeConfusion (f value) (safe value) (passes value)) :
    Verdict .typeConfusion (require args key what >>= f)
      (∀ value, args.text? key = some value → safe value)
      (∃ value, args.text? key = some value ∧ passes value) := by
  unfold require
  rw [findIfExists_dict h, ok_bind]
  cases htext : args.text? key with
  | none => exact (throwsUnless_invalidArgument what (id : ¬False)).congr (by simp) fun _ => by simp
  | some value => exact (hf value htext).congr (by simp) fun _ => by simp

/-- A text whose content does not matter. -/
theorem verdict_has_bind (h : args.IsDict) {key what : String} {f : String → Except Fault β}
    {safe : Prop} (hf : ∀ value, Verdict .typeConfusion (f value) safe passes) :
    Verdict .typeConfusion (require args key what >>= f) (Has args.text? key → safe)
      (Has args.text? key ∧ passes) := by
  apply (Verdict.bind (throwsUnless_require h key what) fun value _ => hf value).congr
  · exact ⟨And.right, fun hs => ⟨trivial, hs⟩⟩
  · exact fun _ => Iff.rfl

theorem throwsUnless_readNum (h : args.IsDict) (w : Nat) (key : String) (d : Nat) :
    ThrowsUnless (readNum w args key (.ok d)) True := by
  unfold readNum
  rw [findIfExists_dict h]
  cases args.text? key with
  | none => exact throwsUnless_ok d trivial
  | some value => exact throwsUnless_ok _ trivial

theorem throwsUnless_readNum_required (h : args.IsDict) (w : Nat) (key what : String) :
    ThrowsUnless (readNum w args key (invalidArgument what)) (Has args.text? key) := by
  unfold readNum Has
  rw [findIfExists_dict h]
  cases args.text? key with
  | none => exact throwsUnless_invalidArgument what nofun
  | some value => exact throwsUnless_ok _ rfl

theorem has_of_text {T : Texts} {key value : String} (h : T key = some value) : Has T key := by
  rw [Has, h]
  rfl

theorem says_iff {T : Texts} {key value : String} {words : List String} (h : T key = some value) :
    Says T key words ↔ value ∈ words := by
  constructor
  · rintro ⟨word, hword, hsays⟩
    rw [h] at hsays
    cases hsays
    exact hword
  · exact fun hmem => ⟨value, hmem, h⟩

theorem Says.has {T : Texts} {key : String} {words : List String} (h : Says T key words) :
    Has T key := by
  obtain ⟨value, -, htext⟩ := h
  exact has_of_text htext

theorem checkArg_ne_typeConfusion (parse : String → JsonObject) (key : String) (type : ArgType)
    (value : String) : checkArg parse key type value ≠ .error .typeConfusion := by
  unfold checkArg
  cases type <;> dsimp only
  case eString => nofun
  all_goals split <;> nofun

theorem checkArgs_cons (parse : String → JsonObject) (p : String × ArgType) (l : ArgumentsList) :
    checkArgs parse (p :: l) args = (args.findIfExists p.1 >>= fun r => match r with
      | none => return ()
      | some value => checkArg parse p.1 p.2 value) >>= fun _ => checkArgs parse l args := by
  rfl

theorem checkArgs_ne_typeConfusion (h : args.IsDict) (parse : String → JsonObject)
    (l : ArgumentsList) : checkArgs parse l args ≠ .error .typeConfusion := by
  induction l with
  | nil => nofun
  | cons p l ih =>
    rw [checkArgs_cons, findIfExists_dict h]
    cases args.text? p.1 with
    | none => exact ih
    | some value =>
      intro heq
      have hne := checkArg_ne_typeConfusion parse p.1 p.2 value
      cases hcheck : checkArg parse p.1 p.2 value with
      | ok u =>
        simp only [bind, Except.bind, hcheck] at heq
        exact ih heq
      | error e =>
        simp only [bind, Except.bind, hcheck] at heq
        exact hne (hcheck.trans heq)

theorem throwsUnless_checkArgs (h : args.IsDict) (parse : String → JsonObject)
    (l : ArgumentsList) :
    ThrowsUnless (checkArgs parse l args) (checkArgs parse l args = .ok ()) where
  avoids := ⟨fun _ => trivial, fun _ => checkArgs_ne_typeConfusion h parse l⟩
  returns := fun _ => ⟨fun ⟨_, hok⟩ => hok, fun hok => ⟨(), hok⟩⟩

theorem findIfExists_of_not_isDict (h : ¬args.IsDict) (key : String) :
    args.findIfExists key = .error .typeConfusion := by
  cases args with
  | dict entries => exact absurd ⟨entries, rfl⟩ h
  | _ => rfl

/-- What is no dictionary does not survive the first lookup. -/
theorem checkArgs_of_not_isDict (h : ¬args.IsDict) (parse : String → JsonObject)
    {l : ArgumentsList} (hl : l ≠ []) : checkArgs parse l args = .error .typeConfusion := by
  cases l with
  | nil => exact absurd rfl hl
  | cons p l =>
    rw [checkArgs_cons, findIfExists_of_not_isDict h]
    rfl

/-- A builder that begins with checks of its arguments. -/
theorem verdict_checked {parse : String → JsonObject} {l : ArgumentsList} (hl : l ≠ [])
    {x : Except Fault α} {safe : Prop}
    (h : args.IsDict → checkArgs parse l args = .ok () → Verdict .typeConfusion x safe passes) :
    Verdict .typeConfusion (checkArgs parse l args >>= fun _ => x)
      (args.IsDict ∧ (checkArgs parse l args = .ok () → safe))
      (checkArgs parse l args = .ok () ∧ passes) := by
  by_cases hdict : args.IsDict
  · refine (Verdict.bind (throwsUnless_checkArgs hdict parse l) fun _ hok => h hdict hok).congr ?_ ?_
    · exact and_congr_left fun _ => ⟨fun _ => hdict, fun _ => trivial⟩
    · exact fun _ => Iff.rfl
  · rw [checkArgs_of_not_isDict hdict parse hl]
    exact Verdict.fails.congr ⟨False.elim, fun hs => hdict hs.1⟩ False.elim

end Texts

section Actions

/-! ## Actions -/

/-- What an action of a type has to say. -/
def ActionComplete (T : Texts) (type : String) : Prop :=
  if type = "output" then Has T "out_port"
  else if type = "set_queue" then Has T "queue_id"
  else if type = "group" then Has T "group_id"
  else if type = "push" then Says T "tag_type" ["vlan", "mpls", "pbb"] ∧ Has T "ethertype"
  else if type = "pop" then
    Says T "tag_type" ["vlan"] ∨ Says T "tag_type" ["mpls"] ∧ Has T "ethertype"
  else if type = "change_ttl" then
    Says T "ttl_action" ["set"] ∧ Has T "ttl" ∧ Says T "ttl_type" ["ip", "mpls"] ∨
    Says T "ttl_action" ["decrement"] ∧ Says T "ttl_type" ["ip", "mpls"] ∨
    Says T "ttl_action" ["copy"] ∧ Says T "ttl_type" ["in", "out"]
  else True

/-- The actions that are not refused. -/
def ActionAccepted (parse : String → JsonObject) (p : JsonObject) : Prop :=
  checkArgs parse actionTags p = .ok () ∧
    ∃ type, p.text? "action_type" = some type ∧ ActionComplete p.text? type

variable {α β : Type} {args : JsonObject} {passes : Prop} (acts : Actions)

theorem throwsUnless_word {value word : String} {words : List String} {x y : Except Fault α}
    (hx : value = word → ThrowsUnless x True) (hy : ThrowsUnless y (value ∈ words)) :
    ThrowsUnless (if value = word then x else y) (value ∈ word :: words) := by
  apply (Verdict.ite hx fun _ => hy).congr (by simp)
  intro _
  by_cases h : value = word <;> simp [h]

theorem throwsUnless_noWord {value : String} (what : String) :
    ThrowsUnless (invalidArgument what : Except Fault α) (value ∈ []) :=
  throwsUnless_invalidArgument what nofun

/-- A text of a vocabulary. -/
theorem throwsUnless_says (h : args.IsDict) {key what : String} {words : List String}
    {f : String → Except Fault β} (hf : ∀ value, ThrowsUnless (f value) (value ∈ words)) :
    ThrowsUnless (require args key what >>= f) (Says args.text? key words) := by
  apply throwsUnless_require_bind h Says.has
  intro value hv
  rw [says_iff hv]
  exact hf value

/-- A text of a vocabulary, what it means and what comes after. -/
theorem verdict_says_bind {γ : Type} (h : args.IsDict) {key what : String} {words : List String}
    {g : String → Except Fault β} {f : β → Except Fault γ} {safe : Prop}
    (hg : ∀ value, ThrowsUnless (g value) (value ∈ words))
    (hf : ∀ b, Verdict .typeConfusion (f b) safe passes) :
    Verdict .typeConfusion (require args key what >>= fun value => g value >>= f)
      (Says args.text? key words → safe) (Says args.text? key words ∧ passes) := by
  apply (verdict_require_bind h fun value _ => Verdict.bind (hg value) fun b _ => hf b).congr
  · constructor
    · rintro hs ⟨value, hmem, htext⟩
      exact (hs value htext).2 hmem
    · exact fun hs value htext => ⟨trivial, fun hmem => hs ⟨value, hmem, htext⟩⟩
  · rintro -
    constructor
    · exact fun ⟨value, htext, hmem, hp⟩ => ⟨⟨value, hmem, htext⟩, hp⟩
    · exact fun ⟨⟨value, hmem, htext⟩, hp⟩ => ⟨value, htext, hmem, hp⟩

/-- A text that may be any. -/
theorem throwsUnless_has (h : args.IsDict) {key what : String} {f : String → β} :
    ThrowsUnless (require args key what >>= fun value => .ok (f value)) (Has args.text? key) := by
  apply throwsUnless_require_bind h id
  exact fun value hv => throwsUnless_ok _ (has_of_text hv)

theorem throwsUnless_constructPush (h : args.IsDict) : ThrowsUnless (constructPush args acts)
    (Says args.text? "tag_type" ["vlan", "mpls", "pbb"] ∧ Has args.text? "ethertype") := by
  apply throwsUnless_require_bind h fun hp => hp.1.has
  intro tt htt
  apply throwsUnless_require_bind h And.right
  intro et het
  rw [says_iff htt, and_iff_left (has_of_text het)]
  apply throwsUnless_word fun _ => throwsUnless_ok _ trivial
  apply throwsUnless_word fun _ => throwsUnless_ok _ trivial
  apply throwsUnless_word fun _ => throwsUnless_ok _ trivial
  exact throwsUnless_noWord _

theorem throwsUnless_constructPop (h : args.IsDict) : ThrowsUnless (constructPop args acts)
    (Says args.text? "tag_type" ["vlan"] ∨
      Says args.text? "tag_type" ["mpls"] ∧ Has args.text? "ethertype") := by
  apply throwsUnless_require_bind h fun hp => hp.elim Says.has fun hp => hp.1.has
  intro tt htt
  rw [says_iff htt, says_iff htt]
  split
  · next heq => exact throwsUnless_ok _ (by simp [heq])
  split
  · next heq => exact (throwsUnless_has h).congr Iff.rfl fun _ => by simp [heq]
  · exact throwsUnless_invalidArgument _ (by simp [*])

theorem throwsUnless_constructSetTtl (h : args.IsDict) : ThrowsUnless (constructSetTtl args acts)
    (Has args.text? "ttl" ∧ Says args.text? "ttl_type" ["ip", "mpls"]) := by
  apply throwsUnless_require_bind h And.left
  intro ttl httl
  rw [and_iff_right (has_of_text httl)]
  apply throwsUnless_says h
  intro type
  apply throwsUnless_word fun _ => throwsUnless_ok _ trivial
  apply throwsUnless_word fun _ => throwsUnless_ok _ trivial
  exact throwsUnless_noWord _

theorem throwsUnless_constructDecTtl (h : args.IsDict) : ThrowsUnless (constructDecTtl args acts)
    (Says args.text? "ttl_type" ["ip", "mpls"]) := by
  apply throwsUnless_says h
  intro type
  apply throwsUnless_word fun _ => throwsUnless_ok _ trivial
  apply throwsUnless_word fun _ => throwsUnless_ok _ trivial
  exact throwsUnless_noWord _

theorem throwsUnless_constructCopyTtl (h : args.IsDict) :
    ThrowsUnless (constructCopyTtl args acts) (Says args.text? "ttl_type" ["in", "out"]) := by
  apply throwsUnless_says h
  intro type
  apply throwsUnless_word fun _ => throwsUnless_ok _ trivial
  apply throwsUnless_word fun _ => throwsUnless_ok _ trivial
  exact throwsUnless_noWord _

theorem throwsUnless_constructChangeTtl (h : args.IsDict) :
    ThrowsUnless (constructChangeTtl args acts)
      (Says args.text? "ttl_action" ["set"] ∧ Has args.text? "ttl" ∧
          Says args.text? "ttl_type" ["ip", "mpls"] ∨
        Says args.text? "ttl_action" ["decrement"] ∧
          Says args.text? "ttl_type" ["ip", "mpls"] ∨
        Says args.text? "ttl_action" ["copy"] ∧ Says args.text? "ttl_type" ["in", "out"]) := by
  apply throwsUnless_require_bind h fun hp => hp.elim (fun hp => hp.1.has) fun hp =>
    hp.elim (fun hp => hp.1.has) fun hp => hp.1.has
  intro ta hta
  simp only [says_iff hta, List.mem_singleton]
  split
  · next heq =>
    exact (throwsUnless_constructSetTtl acts h).congr Iff.rfl fun _ => by simp [heq]
  split
  · next heq =>
    exact (throwsUnless_constructDecTtl acts h).congr Iff.rfl fun _ => by simp [heq]
  split
  · next heq =>
    exact (throwsUnless_constructCopyTtl acts h).congr Iff.rfl fun _ => by simp [heq]
  · exact throwsUnless_invalidArgument _ (by simp [*])

theorem throwsUnless_constructFieldNumber (h : args.IsDict) (ps : List MatchField) :
    ThrowsUnless (constructFieldNumber args acts ps) True := by
  induction ps with
  | nil => exact throwsUnless_ok _ trivial
  | cons p ps ih =>
    rw [constructFieldNumber, findIfExists_dict h]
    cases args.text? p.name with
    | none => exact ih
    | some value =>
      show ThrowsUnless (if _ then _ else _) _
      split
      · exact throwsUnless_ok _ trivial
      · exact ih

/-- The checks have been made that the texts of addresses pass. -/
theorem throwsUnless_constructSetField (h : args.IsDict) {parse : String → JsonObject}
    (hcheck : checkArgs parse actionTags args = .ok ()) :
    ThrowsUnless (constructSetField args acts) True := by
  have heth : ∀ key, (key, ArgType.eMAC) ∈ actionTags → ∀ value, args.text? key = some value →
      ∀ f : Bytes → Actions,
        ThrowsUnless (readEthernetaddr value >>= fun octet => .ok (f octet)) True := by
    intro key hmem value hv f
    have hfind : args.findIfExists key = .ok (some value) := by rw [findIfExists_dict h, hv]
    have hvalid := checkArg_of_checkArgs hcheck hmem hfind
    unfold readEthernetaddr
    cases hread : ethernetaddr value with
    | some octet => exact throwsUnless_ok _ trivial
    | none =>
      simp only [checkArg, hread] at hvalid
      cases hvalid
  unfold constructSetField
  simp only [findFirst_dict h, findIfExists_dict h, ok_bind]
  split
  · exact throwsUnless_ok _ trivial
  split
  · exact throwsUnless_ok _ trivial
  split
  · next value hsrc => exact heth "eth_src" (by decide) value hsrc _
  · next value _ hdst => exact heth "eth_dst" (by decide) value hdst _
  · exact throwsUnless_constructFieldNumber acts h _

/-- An action is safe where it is a dictionary. -/
theorem verdict_constructAction (parse : String → JsonObject) :
    Verdict .typeConfusion (constructAction args acts parse) args.IsDict
      (ActionAccepted parse args) := by
  have htags : actionTags ≠ [] := nofun
  have hrest : args.IsDict → checkArgs parse actionTags args = .ok () →
      ThrowsUnless (require args "action_type" "missing action_type field in action\n" >>= fun
        value => if value = "output" then constructOutput args acts
          else if value = "set_queue" then constructSetQueue args acts
          else if value = "group" then constructGroup args acts
          else if value = "push" then constructPush args acts
          else if value = "pop" then constructPop args acts
          else if value = "change_ttl" then constructChangeTtl args acts
          else if value = "set_field" then constructSetField args acts
          else return acts)
        (∃ type, args.text? "action_type" = some type ∧ ActionComplete args.text? type) := by
    intro h hcheck
    apply throwsUnless_require_bind h fun ⟨_, htext, _⟩ => has_of_text htext
    intro type htype
    have hcomplete : (∃ type, args.text? "action_type" = some type ∧
        ActionComplete args.text? type) ↔ ActionComplete args.text? type := by
      simp [htype]
    rw [hcomplete, ActionComplete]
    apply ThrowsUnless.ite fun _ => throwsUnless_has h
    intro _
    apply ThrowsUnless.ite fun _ => throwsUnless_has h
    intro _
    apply ThrowsUnless.ite fun _ => throwsUnless_has h
    intro _
    apply ThrowsUnless.ite fun _ => throwsUnless_constructPush acts h
    intro _
    apply ThrowsUnless.ite fun _ => throwsUnless_constructPop acts h
    intro _
    apply ThrowsUnless.ite fun _ => throwsUnless_constructChangeTtl acts h
    intro _
    split
    · exact throwsUnless_constructSetField acts h hcheck
    · exact throwsUnless_ok _ trivial
  apply (verdict_checked htags hrest).congr
  · exact ⟨And.left, fun h => ⟨h, fun _ => trivial⟩⟩
  · exact fun _ => Iff.rfl

end Actions

section Sets

/-! ## Sets -/

/-- What is read for the set is an array, and all its elements are safe until one is
refused. -/
def SetTyped (parse : String → JsonObject) (typed accepted : JsonObject → Prop)
    (args : JsonObject) (key : String) : Prop :=
  ∀ value, args.text? key = some value →
    ∃ ar, parse value = .array ar ∧ Until typed accepted ar

def SetAccepted (parse : String → JsonObject) (accepted : JsonObject → Prop) (args : JsonObject)
    (key : String) : Prop :=
  ∀ value, args.text? key = some value → ∃ ar, parse value = .array ar ∧ ∀ p ∈ ar, accepted p

variable {σ : Type} {args : JsonObject} {parse : String → JsonObject}
  {typed accepted : JsonObject → Prop}

theorem verdict_constructSet {construct : Nat → σ → JsonObject → Except Fault σ}
    (h : ∀ i s p, Verdict .typeConfusion (construct i s p) (typed p) (accepted p))
    (value : String) (init : σ) :
    Verdict .typeConfusion (constructSet parse construct value init)
      (∃ ar, parse value = .array ar ∧ Until typed accepted ar)
      (∃ ar, parse value = .array ar ∧ ∀ p ∈ ar, accepted p) := by
  unfold constructSet
  cases hparse : parse value with
  | array ar =>
    apply (Verdict.foldlM (fun s p _ => h p.2 s p.1) init).congr
    · rw [Verdict.until_map Prod.fst, List.zipIdx_map_fst]
      exact ⟨fun h => ⟨ar, rfl, h⟩, fun ⟨_, heq, h⟩ => by cases heq; exact h⟩
    · rintro -
      constructor
      · intro hall
        refine ⟨ar, rfl, fun p hp => ?_⟩
        rw [← List.zipIdx_map_fst 0 ar] at hp
        obtain ⟨q, hq, rfl⟩ := List.mem_map.mp hp
        exact hall q hq
      · rintro ⟨_, heq, hall⟩ q hq
        cases heq
        exact hall q.1 (by rw [← List.zipIdx_map_fst 0 ar]; exact List.mem_map_of_mem hq)
  | _ => exact Verdict.fails.congr ⟨False.elim, fun ⟨_, heq, _⟩ => nomatch heq⟩ False.elim

theorem verdict_constructSetIfExists (hdict : args.IsDict)
    {construct : Nat → σ → JsonObject → Except Fault σ}
    (h : ∀ i s p, Verdict .typeConfusion (construct i s p) (typed p) (accepted p)) (key : String)
    (init : σ) : Verdict .typeConfusion (constructSetIfExists parse construct args key init)
      (SetTyped parse typed accepted args key) (SetAccepted parse accepted args key) := by
  unfold constructSetIfExists SetTyped SetAccepted
  rw [findIfExists_dict hdict, ok_bind]
  cases args.text? key with
  | none => exact (throwsUnless_ok init trivial).congr (by simp) fun _ => by simp
  | some value => exact (verdict_constructSet h value init).congr (by simp) fun _ => by simp

end Sets

section Elements

/-! ## Instructions, buckets and bands -/

variable {args : JsonObject} (parse : String → JsonObject)

def ActionSetTyped (args : JsonObject) : Prop :=
  SetTyped parse IsDict (ActionAccepted parse) args "action_set"

def ActionSetAccepted (args : JsonObject) : Prop :=
  SetAccepted parse (ActionAccepted parse) args "action_set"

theorem verdict_constructActionSet (h : args.IsDict) :
    Verdict .typeConfusion (constructActionSet parse args) (ActionSetTyped parse args)
      (ActionSetAccepted parse args) := by
  unfold constructActionSet ActionSetTyped ActionSetAccepted
  apply verdict_constructSetIfExists h
  exact fun _ ac p => verdict_constructAction ac parse

/-- What an instruction of a type has to say. -/
def InstructionComplete (args : JsonObject) (type : String) : Prop :=
  if type = "goto_table" then Has args.text? "goto_id"
  else if type = "write_metadata" then Has args.text? "metadata"
  else if type = "write_actions" then ActionSetAccepted parse args
  else if type = "apply_actions" then ActionSetAccepted parse args
  else if type = "clear_actions" then True
  else if type = "meter" then Has args.text? "meter_id"
  else True

/-- An instruction is a dictionary, and where it writes or applies actions, their set
is typed. -/
def InstructionTyped (p : JsonObject) : Prop :=
  p.IsDict ∧ (checkArgs parse instrTags p = .ok () → ∀ type, p.text? "instr_type" = some type →
    type = "write_actions" ∨ type = "apply_actions" → ActionSetTyped parse p)

def InstructionAccepted (p : JsonObject) : Prop :=
  checkArgs parse instrTags p = .ok () ∧
    ∃ type, p.text? "instr_type" = some type ∧ InstructionComplete parse p type

theorem throwsUnless_constructWriteMetadata (h : args.IsDict) (instr : Instruction) :
    ThrowsUnless (constructWriteMetadata args instr) (Has args.text? "metadata") := by
  apply throwsUnless_require_bind h id
  intro value hv
  dsimp only
  rw [findIfExists_dict h, ok_bind]
  cases args.text? "metadata_mask" with
  | none => exact throwsUnless_ok _ (has_of_text hv)
  | some mask => exact throwsUnless_ok _ (has_of_text hv)

/-- The set of actions is all that can go wrong with an instruction. -/
theorem verdict_constructActions (h : args.IsDict) {α : Type} (f : Actions → α) :
    Verdict .typeConfusion (constructActionSet parse args >>= fun ac => .ok (f ac))
      (ActionSetTyped parse args) (ActionSetAccepted parse args) :=
  (verdict_constructActionSet parse h).bind_ok

theorem verdict_constructInstruction (instr : Instruction) :
    Verdict .typeConfusion (constructInstruction parse args instr) (InstructionTyped parse args)
      (InstructionAccepted parse args) := by
  have htags : instrTags ≠ [] := nofun
  apply verdict_checked htags
  intro h _
  apply verdict_require_bind h
  intro type _
  unfold InstructionComplete
  split
  · next heq => exact (throwsUnless_has h).congr (by simp [heq]) fun _ => Iff.rfl
  split
  · next heq =>
    exact (throwsUnless_constructWriteMetadata h instr).congr (by simp [heq]) fun _ => Iff.rfl
  split
  · next heq => exact (verdict_constructActions parse h _).congr (by simp [heq]) fun _ => Iff.rfl
  split
  · next heq => exact (verdict_constructActions parse h _).congr (by simp [heq]) fun _ => Iff.rfl
  split
  · next heq => exact (throwsUnless_ok _ trivial).congr (by simp [heq]) fun _ => Iff.rfl
  split
  · next heq => exact (throwsUnless_has h).congr (by simp [heq]) fun _ => Iff.rfl
  · exact (throwsUnless_ok _ trivial).congr (by simp [*]) fun _ => Iff.rfl

/-- A bucket is a dictionary with a set of actions. -/
def BucketTyped (p : JsonObject) : Prop :=
  p.IsDict ∧ (checkArgs parse bucketTags p = .ok () → ActionSetTyped parse p)

def BucketAccepted (p : JsonObject) : Prop :=
  checkArgs parse bucketTags p = .ok () ∧ ActionSetAccepted parse p

/-- A number that may be missing changes nothing. -/
theorem verdict_readNum_bind (h : args.IsDict) {w d : Nat} {key : String} {β : Type}
    {f : Nat → Except Fault β} {safe passes : Prop}
    (hf : ∀ n, Verdict .typeConfusion (f n) safe passes) :
    Verdict .typeConfusion (readNum w args key (.ok d) >>= f) safe passes := by
  apply (Verdict.bind (throwsUnless_readNum h w key d) fun n _ => hf n).congr
  · exact ⟨fun hs => hs.2 trivial, fun hs => ⟨trivial, fun _ => hs⟩⟩
  · exact fun _ => iff_of_eq (true_and _)

/-- A number that has to be there. -/
theorem verdict_readNum_required_bind (h : args.IsDict) {w : Nat} {key what : String} {β : Type}
    {f : Nat → Except Fault β} {safe passes : Prop}
    (hf : ∀ n, Verdict .typeConfusion (f n) safe passes) :
    Verdict .typeConfusion (readNum w args key (invalidArgument what) >>= f)
      (Has args.text? key → safe) (Has args.text? key ∧ passes) := by
  apply (Verdict.bind (throwsUnless_readNum_required h w key what) fun n _ => hf n).congr
  · exact ⟨And.right, fun hs => ⟨trivial, hs⟩⟩
  · exact fun _ => Iff.rfl

theorem verdict_constructBucket :
    Verdict .typeConfusion (constructBucket parse args) (BucketTyped parse args)
      (BucketAccepted parse args) := by
  have htags : bucketTags ≠ [] := nofun
  apply verdict_checked htags
  intro h _
  apply verdict_readNum_bind h
  intro weight
  apply verdict_readNum_bind h
  intro watchPort
  apply verdict_readNum_bind h
  intro watchGroup
  exact verdict_constructActions parse h _

/-- The bands that are not refused. -/
def BandAccepted (p : JsonObject) : Prop :=
  Has p.text? "rate" ∧ Has p.text? "burst_size" ∧
    (Says p.text? "meter_type" ["drop"] ∨
      Says p.text? "meter_type" ["dscp_remark"] ∧ Has p.text? "prec_level")

theorem throwsUnless_constructBand (h : args.IsDict) :
    ThrowsUnless (constructBand args) (BandAccepted args) := by
  refine Verdict.congr (verdict_readNum_required_bind h fun rate =>
    verdict_readNum_required_bind h fun burstSize => (?_ : ThrowsUnless _
      (Says args.text? "meter_type" ["drop"] ∨
        Says args.text? "meter_type" ["dscp_remark"] ∧ Has args.text? "prec_level")))
    (by simp) fun _ => Iff.rfl
  apply throwsUnless_require_bind h fun hp => hp.elim Says.has fun hp => hp.1.has
  intro type htype
  rw [says_iff htype, says_iff htype]
  split
  · next heq => exact throwsUnless_ok _ (by simp [heq])
  split
  · next heq =>
    apply (verdict_readNum_required_bind h fun n => throwsUnless_ok _ trivial).congr
    · simp
    · simp [heq]
  · exact throwsUnless_invalidArgument _ (by simp [*])

theorem verdict_constructBand :
    Verdict .typeConfusion (constructBand args) args.IsDict (BandAccepted args) := by
  by_cases h : args.IsDict
  · exact (throwsUnless_constructBand h).congr ⟨fun _ => h, fun _ => trivial⟩ fun _ => Iff.rfl
  · have hfail : constructBand args = .error .typeConfusion := by
      unfold constructBand readNum
      rw [findIfExists_of_not_isDict h]
      rfl
    rw [hfail]
    exact Verdict.fails.congr ⟨False.elim, h⟩ False.elim

theorem verdict_constructMatch (junk : Junk) (f : OflMatch) :
    Verdict .typeConfusion (constructMatch parse junk args f) args.IsDict
      (checkArgs parse matchTags args = .ok ()) := by
  have htags : matchTags ≠ [] := nofun
  have hrest : args.IsDict → checkArgs parse matchTags args = .ok () → ThrowsUnless (do
      let f ← constructIpv4 junk args f
      let f ← constructIpv6 junk args f
      let f ← constructEth junk args f
      matchTagsSpecial.foldlM (constructSpecial args) f) True := by
    intro h hcheck
    obtain ⟨f', hok, -⟩ := constructMatch_entries h hcheck junk
    rw [constructMatch, hcheck, ok_bind] at hok
    rw [hok]
    exact Verdict.ok f'
  apply (verdict_checked htags hrest).congr
  · exact ⟨And.left, fun h => ⟨h, fun _ => trivial⟩⟩
  · exact fun _ => iff_of_eq (and_true _)

end Elements

end Nox.Interserver
