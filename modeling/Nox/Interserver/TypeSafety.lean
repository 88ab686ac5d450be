import Nox.Interserver.RequestVerdicts
import Nox.Json.Document

/-!
# Type safety of requests

Where a request has a value of the wrong type.  The texts of values are made by type,
but a body is taken for a dictionary, and its sets for arrays.
-/

namespace Nox.Interserver

open JsonObject
open Lib (ok_bind)

section Bodies

/-! ## Bodies -/

variable (parse : String → JsonObject) (junk : Nat → Junk) {body : JsonObject}

/-- The body names a switch that is there. -/
def NamesSwitch (dpids : List DatapathId) (body : JsonObject) : Prop :=
  ∃ t, body.text? "dpid" = some t ∧ atoi t ≠ 0 ∧ UInt64.ofInt (atoi t) ∈ dpids

/-- A body is a dictionary, and where it comes to its sets, they are typed. -/
def BodyTyped (dpids : List DatapathId) (body : JsonObject) : Prop :=
  body.IsDict ∧ ∀ type, body.text? "type" = some type → NamesSwitch dpids body →
    RequestTyped parse body type

theorem liftFault_avoids {α : Type} {x : Except Fault α} :
    liftFault x ≠ .error .undefined ↔ x ≠ .error .typeConfusion := by
  cases x with
  | ok a => simp [liftFault]
  | error e => cases e <;> simp [liftFault]

theorem getDictValue_avoids {jobj : JsonObject} {key : String} :
    liftFault (jobj.getDictValue key) ≠ .error .undefined ↔ jobj.IsDict := by
  rw [liftFault_avoids]
  cases jobj with
  | dict entries => exact ⟨fun _ => ⟨entries, rfl⟩, fun _ => nofun⟩
  | _ => exact ⟨fun h => absurd rfl h, fun ⟨_, heq⟩ => nomatch heq⟩

theorem text_of_getDictValue {jobj : JsonObject} {key : String} {t : Option JsonObject}
    (h : jobj.getDictValue key = .ok t) : jobj.text? key = t.map (·.getString true) := by
  cases jobj with
  | dict entries =>
    cases h
    rfl
  | _ => cases h

theorem text_of_getDictValue_error {jobj : JsonObject} {key : String} {e : Fault}
    (h : jobj.getDictValue key = .error e) : jobj.text? key = none := by
  cases jobj with
  | dict entries => cases h
  | _ => rfl

theorem httpRequestError_avoids {α : Type} (response : String) (type : HttpStatus) :
    (httpRequestError response type : Except Thrown α) ≠ .error .undefined :=
  nofun

theorem interpretCheckerror_avoids (h : body.IsDict) :
    interpretCheckerror body ≠ .error .undefined := by
  apply Lib.avoids_bind_iff.mpr
  refine ⟨getDictValue_avoids.mpr h, fun t _ => ?_⟩
  cases t <;> nofun

theorem interpretDpid_avoids (h : body.IsDict) : interpretDpid body ≠ .error .undefined := by
  apply Lib.avoids_bind_iff.mpr
  refine ⟨getDictValue_avoids.mpr h, fun t _ => ?_⟩
  cases t with
  | none => exact httpRequestError_avoids _ _
  | some t =>
    dsimp only
    split
    · exact httpRequestError_avoids _ _
    · nofun

theorem interpretDpid_ok {did : DatapathId} :
    interpretDpid body = .ok did ↔
      ∃ t, body.text? "dpid" = some t ∧ atoi t ≠ 0 ∧ UInt64.ofInt (atoi t) = did := by
  unfold interpretDpid
  cases hget : body.getDictValue "dpid" with
  | error e =>
    rw [text_of_getDictValue_error hget]
    cases e <;> exact ⟨nofun, nofun⟩
  | ok t =>
    rw [text_of_getDictValue hget]
    cases t with
    | none => exact ⟨nofun, nofun⟩
    | some t =>
      simp only [liftFault, ok_bind, Option.map_some, Option.some.injEq, exists_eq_left']
      split
      · next hzero => exact ⟨nofun, fun h => absurd hzero h.1⟩
      · next hzero =>
        constructor
        · intro h
          cases h
          exact ⟨hzero, rfl⟩
        · rintro ⟨-, rfl⟩
          rfl

theorem interpretType_avoids {M : Type} (reslv : Resolver M) :
    interpretType reslv body ≠ .error .undefined ↔ body.IsDict := by
  refine Lib.avoids_bind_iff.trans ⟨fun h => getDictValue_avoids.mp h.1, fun h =>
    ⟨getDictValue_avoids.mpr h, fun t _ => ?_⟩⟩
  cases t with
  | none => exact httpRequestError_avoids _ _
  | some t =>
    dsimp only
    split
    · nofun
    · exact httpRequestError_avoids _ _

theorem interpretType_ok {M : Type} {reslv : Resolver M} {tp : String} :
    interpretType reslv body = .ok tp ↔
      body.text? "type" = some tp ∧ tp ∈ reslv.map (·.1) := by
  unfold interpretType
  cases hget : body.getDictValue "type" with
  | error e =>
    rw [text_of_getDictValue_error hget]
    cases e <;> exact ⟨nofun, nofun⟩
  | ok t =>
    rw [text_of_getDictValue hget]
    cases t with
    | none => exact ⟨nofun, nofun⟩
    | some t =>
      simp only [liftFault, ok_bind, Option.map_some, Option.some.injEq]
      split
      · next hmem =>
        constructor
        · intro h
          cases h
          exact ⟨rfl, hmem⟩
        · rintro ⟨rfl, -⟩
          rfl
      · next hmem =>
        constructor
        · nofun
        · rintro ⟨rfl, h⟩
          exact absurd h hmem

theorem resolveRequest_avoids {M : Type} (interactor : Interactor M) (dpids : List DatapathId)
    (h : body.IsDict) (sendGood : Int) :
    resolveRequest interactor dpids body sendGood ≠ .error .undefined ↔
      (NamesSwitch dpids body →
        interactor.requestMsgCreator body ≠ .error .typeConfusion) := by
  have hrest : ∀ did msg, (if sendGood ≠ 0 then
        httpRequestError "nox_core sending interactor msg error\n" .internalServerError
      else do
        let checkerror ← interpretCheckerror body
        return ⟨interactor.isModify, checkerror, did, msg⟩ : Except Thrown (Accepted M)) ≠
          .error .undefined := by
    intro did msg
    split
    · exact httpRequestError_avoids _ _
    · exact Lib.avoids_bind_iff.mpr ⟨interpretCheckerror_avoids h, fun _ _ => nofun⟩
  have hcheck : ∀ did, dpidCheck dpids did ≠ .error .undefined := by
    intro did
    unfold dpidCheck
    split
    · nofun
    · exact httpRequestError_avoids _ _
  have hok : ∀ did u, dpidCheck dpids did = .ok u ↔ did ∈ dpids := by
    intro did u
    unfold dpidCheck
    split
    · next hmem => exact ⟨fun _ => hmem, fun _ => rfl⟩
    · next hmem => exact ⟨nofun, fun h => absurd h hmem⟩
  unfold resolveRequest
  simp only [Lib.avoids_bind_iff, liftFault_avoids, interpretDpid_ok]
  constructor
  · rintro ⟨-, hall⟩ ⟨t, htext, hne, hmem⟩
    exact ((hall _ ⟨t, htext, hne, rfl⟩).2 () ((hok _ ()).mpr hmem)).1
  · intro hsafe
    refine ⟨interpretDpid_avoids h, fun did hdid => ⟨hcheck did, fun u hu => ?_⟩⟩
    obtain ⟨t, htext, hne, rfl⟩ := hdid
    exact ⟨hsafe ⟨t, htext, hne, (hok _ u).mp hu⟩, fun msg _ => hrest _ msg⟩

theorem lookup_of_mem {M : Type} {reslv : Resolver M} {tp : String}
    (h : tp ∈ reslv.map (·.1)) :
    ∃ interactor, reslv.lookup tp = some interactor ∧ (tp, interactor) ∈ reslv := by
  obtain ⟨e, he, heq⟩ := List.mem_map.mp h
  have hsome : (reslv.lookup tp).isSome = true :=
    List.lookup_isSome_iff.mpr ⟨e, he, by simp [heq]⟩
  obtain ⟨interactor, hlookup⟩ := Option.isSome_iff_exists.mp hsome
  obtain ⟨l₁, l₂, rfl, -⟩ := List.lookup_eq_some_iff.mp hlookup
  exact ⟨interactor, hlookup, List.mem_append_right l₁ List.mem_cons_self⟩

theorem requestTyped_of_not_mem {tp : String}
    (h : tp ∉ (msgResolver parse junk).map (·.1)) (args : JsonObject) :
    RequestTyped parse args tp := by
  have hne : ∀ name ∈ ["flow_info", "agr_flow_info", "flow_mod", "group_mod", "meter_mod"],
      name ∈ (msgResolver parse junk).map (·.1) := by
    simp only [msgResolver, List.map_cons, List.map_nil]
    decide
  simp only [List.forall_mem_cons] at hne
  obtain ⟨h₁, h₂, h₃, h₄, h₅, -⟩ := hne
  have hnot : ∀ {name}, name ∈ (msgResolver parse junk).map (·.1) → tp ≠ name := by
    rintro name hmem rfl
    exact h hmem
  simp only [RequestTyped, hnot h₁, hnot h₂, hnot h₃, hnot h₄, hnot h₅, or_self, if_false]

/-- A body is typed where it is a dictionary and its creator, if it comes to one, is
safe. -/
theorem bodyTyped_iff (dpids : List DatapathId) (h : body.IsDict) (sendGood : Int) :
    BodyTyped parse dpids body ↔ ∀ tp, interpretType (msgResolver parse junk) body = .ok tp →
      ∃ interactor, (msgResolver parse junk).lookup tp = some interactor ∧
        resolveRequest interactor dpids body sendGood ≠ .error .undefined := by
  constructor
  · rintro ⟨-, hall⟩ tp htp
    obtain ⟨htext, hmem⟩ := interpretType_ok.mp htp
    obtain ⟨interactor, hlookup, hinteractor⟩ := lookup_of_mem hmem
    refine ⟨interactor, hlookup, (resolveRequest_avoids interactor dpids h sendGood).mpr ?_⟩
    intro hswitch
    rw [(verdict_requestMsgCreator parse junk hinteractor h).avoids]
    exact hall tp htext hswitch
  · intro hall
    refine ⟨h, fun tp htext hswitch => ?_⟩
    by_cases hmem : tp ∈ (msgResolver parse junk).map (·.1)
    · obtain ⟨interactor, hlookup, hsafe⟩ := hall tp (interpretType_ok.mpr ⟨htext, hmem⟩)
      obtain ⟨interactor', hlookup', hinteractor⟩ := lookup_of_mem hmem
      cases hlookup.symm.trans hlookup'
      rw [← (verdict_requestMsgCreator parse junk hinteractor h).avoids]
      exact (resolveRequest_avoids interactor dpids h sendGood).mp hsafe hswitch
    · exact requestTyped_of_not_mem parse junk hmem body

theorem resolveData_avoids (dpids : List DatapathId) (data : String) (sendGood : Int) :
    resolveData (msgResolver parse junk) parse dpids data sendGood ≠ .error .undefined ↔
      (data ≠ "" → parse data ≠ .null → BodyTyped parse dpids (parse data)) := by
  unfold resolveData
  split
  · next heq => exact ⟨fun _ hne => absurd heq hne, fun _ => httpRequestError_avoids _ _⟩
  · next hne =>
    split
    · next hnull => exact ⟨fun _ _ h => absurd hnull h, fun _ => httpRequestError_avoids _ _⟩
    · next hnull =>
      rw [Lib.avoids_bind_iff, interpretType_avoids]
      constructor
      · rintro ⟨h, hall⟩ - -
        apply (bodyTyped_iff parse junk dpids h sendGood).mpr
        intro tp htp
        have hsafe := hall tp htp
        obtain ⟨-, hmem⟩ := interpretType_ok.mp htp
        obtain ⟨interactor, hlookup, -⟩ := lookup_of_mem hmem
        rw [hlookup] at hsafe
        exact ⟨interactor, hlookup, hsafe⟩
      · intro htyped
        have hbody := htyped hne hnull
        refine ⟨hbody.1, fun tp htp => ?_⟩
        obtain ⟨interactor, hlookup, hsafe⟩ :=
          (bodyTyped_iff parse junk dpids hbody.1 sendGood).mp hbody tp htp
        rw [hlookup]
        exact hsafe

/-- The behaviour on a request is defined exactly where its body, and every set it comes
to, is typed. -/
theorem handleRequest_isSome_iff (s : Processor) (r : RequestMsg) (sendGood : Int) :
    (s.handleRequest (msgResolver parse junk) parse r sendGood).isSome = true ↔
      (r.url = "/switches/info" → r.data ≠ "" → parse r.data ≠ .null →
        BodyTyped parse s.dpids (parse r.data)) := by
  unfold Processor.handleRequest
  dsimp only
  split
  · next hurl =>
    simp only [hurl, true_implies]
    rw [← resolveData_avoids parse junk s.dpids r.data sendGood]
    have hdpids : (s.opened r).dpids = s.dpids := rfl
    rw [hdpids]
    split
    · next heq => simp [heq]
    · next heq => simp [heq]
    · next heq => simp [heq]
    · next heq => simp [heq]
  · next hurl => exact ⟨fun _ h => absurd h hurl, fun _ => rfl⟩

/-- `json_object` on a text, with the depth it has by default. -/
def parseJson (str : String) : JsonObject :=
  (Json.jsonObject 20 str.toList).toObject

/-- The parser accepts `[]`, and the key `type` is looked up in the empty list. -/
theorem array_body_undefined :
    parseJson "[]" = .array [] ∧
      (Processor.handleRequest (msgResolver parseJson fun _ => Junk.fill 0) parseJson
        { autoMutex := false, replyState := false, dpids := [1], slot := 0, serial := 0 }
        { url := "/switches/info", data := "[]", id := 1 } 0).isNone = true :=
  ⟨rfl, rfl⟩

end Bodies

end Nox.Interserver
