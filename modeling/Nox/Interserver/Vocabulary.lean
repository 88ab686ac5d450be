import Nox.Interserver.TypeSafety

/-!
# Texts that are not recognised

Fields of a request hold words of a vocabulary, or numbers.  What is no such text should
be refused.  The validators and the branches of the builders refuse some of them; an
unknown command of `flow_mod` deletes, the fields of a band are not checked, and a type of
action or instruction that is not known is passed over.
-/

namespace Nox.Interserver

open JsonObject
open Lib (Verdict)

section Vocabularies

/-! ## Vocabularies -/

/-- What a field may hold: words, and numbers too if it is a number with reserved names. -/
structure Vocabulary where
  words : List String
  numbers : Bool

/-- The text is one of the words, or a numeral where there are numbers. -/
def Vocabulary.Knows (v : Vocabulary) (text : String) : Prop :=
  text ∈ v.words ∨ v.numbers = true ∧ (numeralValue text).isSome = true

instance (v : Vocabulary) (text : String) : Decidable (v.Knows text) :=
  inferInstanceAs (Decidable (_ ∨ _ ∧ _))

abbrev VocabularyList := List (String × Vocabulary)

def words (ws : List String) : Vocabulary := ⟨ws, false⟩

def number : Vocabulary := ⟨[], true⟩

/-- The arguments that are registered as numbers. -/
def numbersOf (l : ArgumentsList) : VocabularyList :=
  (l.filter fun p => p.2 = .eNum).map fun p => (p.1, number)

def actionVocabulary : VocabularyList :=
  [("action_type",
      words ["output", "set_queue", "group", "push", "pop", "change_ttl", "set_field"]),
    ("tag_type", words ["vlan", "mpls", "pbb"]),
    ("ttl_action", words ["set", "decrement", "copy"]),
    ("ttl_type", words ["ip", "mpls", "in", "out"]),
    ("out_port", ⟨["in_port", "table", "normal", "flood", "controller", "local"], true⟩)] ++
  numbersOf actionTags

def instrVocabulary : VocabularyList :=
  ("instr_type", words ["goto_table", "write_metadata", "write_actions", "apply_actions",
    "clear_actions", "meter"]) :: numbersOf instrTags

def bandVocabulary : VocabularyList :=
  ("meter_type", words ["drop", "dscp_remark"]) :: numbersOf bandTags

/-- The fields of a request itself.  In a request for information the ports, tables, groups,
meters and queues are numbers: no names are reserved. -/
def requestVocabulary (type : String) : VocabularyList :=
  if type = "flow_mod" then
    ("command", words ["add", "modify", "modify_strict", "delete", "delete_strict"]) ::
      numbersOf flowModArgs
  else if type = "group_mod" then
    ("command", words ["add", "modify", "delete"]) ::
      ("group_type", words ["all", "select", "indirect", "fast_failover"]) ::
      numbersOf groupModArgs
  else if type = "port_mod" then numbersOf portModArgs
  else if type = "meter_mod" then
    ("command", words ["add", "modify", "delete"]) ::
      ("meter_id", ⟨["slowpath", "controller", "all"], true⟩) :: numbersOf meterModArgs
  else if type = "flow_info" ∨ type = "agr_flow_info" then
    [("table_id", number), ("out_port", number), ("out_group", number)]
  else if type = "port_stats" ∨ type = "queue_config" then [("port", number)]
  else if type = "queue_stats" then [("port", number), ("queue_id", number)]
  else if type = "group_stats" then [("group_id", number)]
  else if type = "meter_stats" ∨ type = "meter_config" then [("meter_id", number)]
  else []

end Vocabularies

section Unrecognised

/-! ## Requests with an unrecognised text -/

/-- The value under a key. -/
def valueUnder (args : JsonObject) (key : String) : Option JsonObject :=
  match args with
  | dict entries => (entries.find? (·.1 == key)).map (·.2)
  | _ => none

/-- A field holds a string that its vocabulary does not know. -/
def HoldsUnknown (vocabulary : VocabularyList) (args : JsonObject) : Prop :=
  ∃ p ∈ vocabulary, ∃ text, valueUnder args p.1 = some (.string text) ∧ ¬p.2.Knows text

variable (parse : String → JsonObject)

/-- The elements of a set: of an array its own, of a text those of the array it is
parsed to. -/
def setElements (args : JsonObject) (key : String) : List JsonObject :=
  match valueUnder args key with
  | some (.array elems) => elems
  | some (.string text) =>
    match parse text with
    | .array elems => elems
    | _ => []
  | _ => []

/-- Beside `action_type`, the keys of a `set_field` are names of fields. -/
def NamesUnknownField (p : JsonObject) : Prop :=
  valueUnder p "action_type" = some (.string "set_field") ∧
    ∃ key, key ≠ "action_type" ∧ key ∉ fields.map (·.name) ∧ (valueUnder p key).isSome = true

def ActionUnrecognised (p : JsonObject) : Prop :=
  HoldsUnknown actionVocabulary p ∨ NamesUnknownField p

def InstructionUnrecognised (p : JsonObject) : Prop :=
  HoldsUnknown instrVocabulary p ∨ ∃ a ∈ setElements parse p "action_set", ActionUnrecognised a

def BucketUnrecognised (p : JsonObject) : Prop :=
  HoldsUnknown (numbersOf bucketTags) p ∨
    ∃ a ∈ setElements parse p "action_set", ActionUnrecognised a

/-- Somewhere in a request of a type there is a text that is not recognised. -/
def Unrecognised (type : String) (args : JsonObject) : Prop :=
  HoldsUnknown (requestVocabulary type) args ∨
  type = "flow_mod" ∧
    (∃ p ∈ setElements parse args "instruction_set", InstructionUnrecognised parse p) ∨
  type = "group_mod" ∧ (∃ p ∈ setElements parse args "buckets", BucketUnrecognised parse p) ∨
  type = "meter_mod" ∧ ∃ p ∈ setElements parse args "meter_bands", HoldsUnknown bandVocabulary p

end Unrecognised

section Refused

/-! ## Refused requests -/

variable (parse : String → JsonObject) (junk : Nat → Junk) {type : String} {args : JsonObject}

/-- The builder of the type reports an error, and a request with this body, whatever the state of
the processor, is answered with an error while nothing is sent. -/
structure Refused (type : String) (args : JsonObject) : Prop where
  builder : ∃ interactor, (type, interactor) ∈ msgResolver parse junk ∧
    ∃ what, interactor.requestMsgCreator args = .error (.invalidArgument what)
  answered : args.text? "type" = some type → ∀ (s : Processor) (r : RequestMsg) (sendGood : Int),
    parse r.data = args → ∃ s' e, s.handleRequest (msgResolver parse junk) parse r sendGood =
      some (s', some e, none) ∧ e.msg.type ≠ .ok

/-- A request with a text that is not recognised is refused. -/
def NoGuess (type : String) (args : JsonObject) : Prop :=
  Unrecognised parse type args → Refused parse junk type args

/-- The errors of the builders are those they report. -/
theorem reports_iff {α : Type} {x : Except Fault α} {safe passes : Prop}
    (h : Verdict .typeConfusion x safe passes) :
    (∃ what, x = .error (.invalidArgument what)) ↔ safe ∧ ¬passes := by
  constructor
  · rintro ⟨what, rfl⟩
    have hsafe : safe := h.avoids.mp nofun
    refine ⟨hsafe, fun hpasses => ?_⟩
    obtain ⟨a, ha⟩ := (h.returns hsafe).mpr hpasses
    cases ha
  · rintro ⟨hsafe, hpasses⟩
    cases hx : x with
    | ok a => exact absurd ((h.returns hsafe).mp ⟨a, hx⟩) hpasses
    | error e =>
      cases e with
      | invalidArgument what => exact ⟨what, rfl⟩
      | typeConfusion => exact absurd hx (h.avoids.mpr hsafe)

theorem isDict_of_valueUnder {key : String} {value : JsonObject}
    (h : valueUnder args key = some value) : args.IsDict := by
  cases args with
  | dict entries => exact ⟨entries, rfl⟩
  | _ => cases h

theorem isDict_of_setElements {key : String} {p : JsonObject} (h : p ∈ setElements parse args key) :
    args.IsDict := by
  cases hvalue : valueUnder args key with
  | some value => exact isDict_of_valueUnder hvalue
  | none =>
    rw [setElements, hvalue] at h
    cases h

theorem Unrecognised.isDict (h : Unrecognised parse type args) : args.IsDict := by
  obtain ⟨p, -, text, htext, -⟩ | ⟨-, p, hp, -⟩ | ⟨-, p, hp, -⟩ | ⟨-, p, hp, -⟩ := h
  · exact isDict_of_valueUnder htext
  · exact isDict_of_setElements parse hp
  · exact isDict_of_setElements parse hp
  · exact isDict_of_setElements parse hp

/-- Only requests that have fields of their own can have such a text. -/
theorem Unrecognised.type_mem (h : Unrecognised parse type args) :
    type ∈ (msgResolver parse junk).map (·.1) := by
  by_contra hno
  simp only [msgResolver, List.map_cons, List.map_nil, List.mem_cons, not_or] at hno
  simp [Unrecognised, HoldsUnknown, requestVocabulary, hno] at h

/-- A message is sent only for a request whose builder has made it. -/
theorem resolveData_ok {M : Type} {reslv : Resolver M} {dpids : List DatapathId} {data : String}
    {sendGood : Int} {a : Accepted M} (h : resolveData reslv parse dpids data sendGood = .ok a) :
    ∃ tp interactor, (parse data).text? "type" = some tp ∧ (tp, interactor) ∈ reslv ∧
      interactor.requestMsgCreator (parse data) = .ok a.msg := by
  unfold resolveData at h
  split at h
  · cases h
  split at h
  · cases h
  obtain ⟨tp, htp, h⟩ := bind_eq_ok.mp h
  obtain ⟨htext, hmem⟩ := interpretType_ok.mp htp
  obtain ⟨interactor, hlookup, hinteractor⟩ := lookup_of_mem hmem
  rw [hlookup] at h
  obtain ⟨did, -, h⟩ := bind_eq_ok.mp h
  obtain ⟨-, -, h⟩ := bind_eq_ok.mp h
  obtain ⟨msg, hmsg, h⟩ := bind_eq_ok.mp h
  split at h
  · cases h
  obtain ⟨checkerror, -, h⟩ := bind_eq_ok.mp h
  cases h
  refine ⟨tp, interactor, htext, hinteractor, ?_⟩
  cases hcreated : interactor.requestMsgCreator (parse data) with
  | ok m =>
    rw [hcreated] at hmsg
    exact congrArg Except.ok (Except.ok.inj hmsg)
  | error e =>
    rw [hcreated] at hmsg
    cases e <;> cases hmsg

/-- What is not built is answered with an error. -/
theorem handleRequest_of_not_ok {M : Type} {reslv : Resolver M} {s : Processor} {r : RequestMsg}
    {sendGood : Int} (hno : ∀ a, resolveData reslv parse s.dpids r.data sendGood ≠ .ok a)
    (hsome : (s.handleRequest reslv parse r sendGood).isSome = true) :
    ∃ s' e, s.handleRequest reslv parse r sendGood = some (s', some e, none) ∧
      e.msg.type ≠ .ok := by
  have hdpids : (s.opened r).dpids = s.dpids := rfl
  unfold Processor.handleRequest at hsome ⊢
  dsimp only at hsome ⊢
  rw [hdpids] at hsome ⊢
  split
  · next hurl =>
    split
    · next a hok => exact absurd hok (hno a)
    · next m herr =>
      exact ⟨_, _, rfl, refuses_resolveData reslv parse s.dpids r.data sendGood m herr⟩
    · exact ⟨_, _, rfl, nofun⟩
    · next hundefined => simp [hurl, hundefined] at hsome
  · exact ⟨_, _, rfl, nofun⟩

/-- The requests that are refused are those whose casts are right and that are not accepted. -/
theorem refused_iff (hdict : args.IsDict) (hmem : type ∈ (msgResolver parse junk).map (·.1)) :
    Refused parse junk type args ↔
      RequestTyped parse args type ∧ ¬RequestAccepted parse args type := by
  constructor
  · rintro ⟨⟨interactor, hinteractor, hreports⟩, -⟩
    exact (reports_iff (verdict_requestMsgCreator parse junk hinteractor hdict)).mp hreports
  · rintro ⟨htyped, hno⟩
    obtain ⟨interactor, -, hinteractor⟩ := lookup_of_mem hmem
    have hverdict := verdict_requestMsgCreator parse junk hinteractor hdict
    refine ⟨⟨interactor, hinteractor, (reports_iff hverdict).mpr ⟨htyped, hno⟩⟩, ?_⟩
    rintro htype s r sendGood rfl
    apply handleRequest_of_not_ok parse
    · intro a hok
      obtain ⟨tp, interactor', htext, hmem', hmsg⟩ := resolveData_ok parse hok
      cases htype.symm.trans htext
      have hverdict' := verdict_requestMsgCreator parse junk hmem' hdict
      exact hno ((hverdict'.returns htyped).mp ⟨_, hmsg⟩)
    · rw [handleRequest_isSome_iff]
      refine fun _ _ _ => ⟨hdict, fun type' htext _ => ?_⟩
      cases htype.symm.trans htext
      exact htyped

/-- A text that is not recognised is refused exactly where the request is typed as far as it is
read and its checks or its missing fields refuse it. -/
theorem noGuess_iff (type : String) (args : JsonObject) :
    NoGuess parse junk type args ↔ (Unrecognised parse type args →
      RequestTyped parse args type ∧ ¬RequestAccepted parse args type) :=
  forall_congr' fun h => refused_iff parse junk (h.isDict parse) (h.type_mem parse junk)

/-- A request to modify flows. -/
def flowModRequest (command : String) : JsonObject :=
  .dict [("type", .string "flow_mod"), ("dpid", .string "1"), ("command", .string command)]

/-- What is no command deletes the flows. -/
theorem unknown_command_deletes :
    (∃ mod, interFlowMod parseJson (fun _ => Junk.fill 0) (flowModRequest "remove") =
      .ok (.flowMod mod) ∧ mod.command = .delete) ∧
    ¬NoGuess parseJson (fun _ => Junk.fill 0) "flow_mod" (flowModRequest "remove") := by
  have hunrecognised : Unrecognised parseJson "flow_mod" (flowModRequest "remove") :=
    .inl ⟨_, List.mem_cons_self, "remove", rfl, by decide⟩
  have hcheck : checkArgs parseJson flowModArgs (flowModRequest "remove") = .ok () := rfl
  have haccepted : RequestAccepted parseJson (flowModRequest "remove") "flow_mod" :=
    ⟨hcheck, rfl, nofun, nofun⟩
  refine ⟨⟨_, rfl, rfl⟩, fun h => ?_⟩
  have hmem := hunrecognised.type_mem parseJson fun _ => Junk.fill 0
  exact ((refused_iff parseJson _ ⟨_, rfl⟩ hmem).mp (h hunrecognised)).2 haccepted

end Refused

end Nox.Interserver
