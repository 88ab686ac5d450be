import Nox.Interserver.Memory
import Nox.Lib.SlotArray

/-!
# Objects that share a counter

`Actions` and `Instruction` grow an array of pointers of their own, but count what is in it with
a static member: all objects of a class have one counter, which each constructor sets to zero.
-/

namespace Nox.Interserver

open Ofl
open Lib (SlotArray)

section Creators

/-! ## Creators -/

/-- The creator of an action, on the array.  There is none where it would write to what it has
no memory for. -/
def createAction (actNum : Nat) (acts : SlotArray OflAction) :
    OflAction → Option (SlotArray OflAction)
  -- the type is written to what the slot points to, before it points to the header
  | .untyped => do
    let acts := acts.grow actNum
    let _ ← acts.load actNum
    acts.store actNum .untyped
  -- the array is made as long as it is
  | .setMplsTtl mplsTtl => (acts.realloc actNum).store actNum (.setMplsTtl mplsTtl)
  | a => (acts.grow actNum).store actNum a

/-- The creator of an instruction, on the array. -/
def createInstruction (instNum : Nat) (insts : SlotArray OflInstruction) (i : OflInstruction) :
    Option (SlotArray OflInstruction) :=
  (insts.realloc (instNum + 1)).store instNum i

/-- `enum ofp_action_type` -/
inductive OfpActionType
  | output | copyTtlOut | copyTtlIn | setMplsTtl | decMplsTtl | pushVlan | popVlan | pushMpls
  | popMpls | setQueue | group | setNwTtl | decNwTtl | setField | pushPbb | popPbb
  | experimenter
  deriving DecidableEq, Repr

/-- The creators of `Actions`, two of them named `CreateOutput`. -/
inductive ActionCreator
  | output (port maxLen : Nat)
  | outputTo (port : Nat)
  | setField (field : String) (value : Bytes)
  | copyTTL (type : OfpActionType)
  | decTTL (type : OfpActionType)
  | pushAction (type : OfpActionType) (ethertype : Nat)
  | popVlan
  | popMpls (ethertype : Nat)
  | setNwTTL (nwTtl : Nat)
  | setMplsTTL (mplsTtl : Nat)
  | setQueue (queueId : Nat)
  | groupAction (groupId : Nat)

/-- The entry that is put into the array; nothing where the type is refused. -/
def ActionCreator.entry : ActionCreator → Option OflAction
  | output port maxLen => some (.output port maxLen)
  | outputTo port => some (.output port 0)
  | setField field value =>
    some (.setField ((findField field).elim 0 fun fld => fld.index.header) value)
  | copyTTL .copyTtlIn | copyTTL .copyTtlOut => some .untyped
  | copyTTL _ => none
  | decTTL .decMplsTtl => some (.header .decMplsTtl)
  | decTTL .decNwTtl => some (.header .decNwTtl)
  | decTTL _ => none
  | pushAction .pushMpls ethertype => some (.push .pushMpls ethertype)
  | pushAction .pushVlan ethertype => some (.push .pushVlan ethertype)
  | pushAction .pushPbb ethertype => some (.push .pushPbb ethertype)
  | pushAction _ _ => none
  | popVlan => some (.header .popVlan)
  | popMpls ethertype => some (.popMpls ethertype)
  | setNwTTL nwTtl => some (.setNwTtl nwTtl)
  | setMplsTTL mplsTtl => some (.setMplsTtl mplsTtl)
  | setQueue queueId => some (.setQueue queueId)
  | groupAction groupId => some (.group groupId)

/-- The creators of `Instruction`, two of them named `CreateWriteMetadata`. -/
inductive InstructionCreator
  | apply (actions : Actions)
  | goToTable (tableId : Nat)
  | write (actions : Actions)
  | writeAllMetadata (metadata : Nat)
  | writeMetadata (metadata metadataMask : Nat)
  | clearActions
  | meterInstruction (meterId : Nat)

def InstructionCreator.entry : InstructionCreator → OflInstruction
  | apply actions => .applyActions actions
  | goToTable tableId => .gotoTable tableId
  | write actions => .writeActions actions
  | writeAllMetadata metadata => .writeMetadata metadata 0xffffffffffffffff
  | writeMetadata metadata metadataMask => .writeMetadata metadata metadataMask
  | clearActions => .clearActions
  | meterInstruction meterId => .meter meterId

/-- The type of an action without parameters, and that of one that pushes a tag. -/
def headerAction? : OfpActionType → Option HeaderAction
  | .copyTtlOut => some .copyTtlOut
  | .copyTtlIn => some .copyTtlIn
  | .decMplsTtl => some .decMplsTtl
  | .popVlan => some .popVlan
  | .decNwTtl => some .decNwTtl
  | .popPbb => some .popPbb
  | _ => none

def pushAction? : OfpActionType → Option PushAction
  | .pushVlan => some .pushVlan
  | .pushMpls => some .pushMpls
  | .pushPbb => some .pushPbb
  | _ => none

/-- What the creators add to the actions of a request that is built. -/
def ActionCreator.added : ActionCreator → Actions
  | output port maxLen => [.output port maxLen]
  | outputTo port => createOutput [] port
  | setField field value => createSetField [] field value
  | copyTTL type => (headerAction? type).elim [] (createCopyTTL [])
  | decTTL type => (headerAction? type).elim [] (createDecTTL [])
  | pushAction type ethertype =>
    (pushAction? type).elim [] fun type => createPushAction [] type ethertype
  | popVlan => createPopVlan []
  | popMpls ethertype => createPopMpls [] ethertype
  | setNwTTL nwTtl => createSetNwTTL [] nwTtl
  | setMplsTTL mplsTtl => createSetMplsTTL [] mplsTtl
  | setQueue queueId => createSetQueue [] queueId
  | groupAction groupId => createGroupAction [] groupId

/-- They add their entries. -/
theorem ActionCreator.added_eq (call : ActionCreator) : call.added = call.entry.toList := by
  cases call with
  | copyTTL type | decTTL type => cases type <;> rfl
  | pushAction type ethertype => cases type <;> rfl
  | _ => rfl

end Creators

section Classes

/-! ## Classes -/

/-- An object: `act_num` or `inst_num`, and the array. -/
abbrev ArrayObject (α : Type) := Nat × SlotArray α

/-- A call on an object; none where it would write behind the array or read a slot that has not
been assigned. -/
def ArrayObject.call {κ α : Type} (push : SlotArray.Push α) (entry : κ → Option α)
    (s : ArrayObject α) (k : κ) : Option (ArrayObject α) :=
  match entry k with
  | none => some s
  | some a => (push s.1 s.2 a).map fun array => (s.1 + 1, array)

/-- A class whose objects have an array each and one counter. -/
structure CountingClass (κ α : Type) where
  -- what a call of a creator adds to its object
  made : κ → List α
  create : Nat → SlotArray α → κ → Option (Nat × SlotArray α)
  -- what the destructor frees
  destroy : Nat → SlotArray α → Option (List α)

/-- `Actions` has no destructor. -/
def actionsClass : CountingClass ActionCreator OflAction where
  made := fun call => call.entry.toList
  create := fun actNum acts => ArrayObject.call createAction ActionCreator.entry (actNum, acts)
  destroy := fun _ _ => some []

def instructionClass : CountingClass InstructionCreator OflInstruction where
  made := fun call => [call.entry]
  create := fun instNum insts =>
    ArrayObject.call createInstruction (some ∘ InstructionCreator.entry) (instNum, insts)
  destroy := fun instNum insts => insts.entries instNum

/-- A call, with the number of its object. -/
inductive ObjectCall (κ : Type)
  | construct (o : Nat)
  | create (o : Nat) (call : κ)
  | destroy (o : Nat)

def ObjectCall.object {κ : Type} : ObjectCall κ → Nat
  | .construct o | .create o _ | .destroy o => o

/-- The arrays of the objects that are alive, and the counter of the class. -/
structure ClassState (α : Type) where
  arrays : Nat → Option (SlotArray α)
  num : Nat

namespace CountingClass

variable {κ α : Type}

def init : ClassState α := ⟨fun _ => none, 0⟩

/-- What a call does, and what it frees. -/
def step (C : CountingClass κ α) (s : ClassState α) :
    ObjectCall κ → Option (ClassState α × List α)
  | .construct o => some (⟨Function.update s.arrays o (some (.malloc 1)), 0⟩, [])
  | .create o call => do
    let array ← s.arrays o
    let (num, array) ← C.create s.num array call
    return (⟨Function.update s.arrays o (some array), num⟩, [])
  | .destroy o => do
    let array ← s.arrays o
    let freed ← C.destroy s.num array
    return ({ s with arrays := Function.update s.arrays o none }, freed)

/-- The state after calls. -/
def run (C : CountingClass κ α) (s : ClassState α) (calls : List (ObjectCall κ)) :
    Option (ClassState α) :=
  calls.foldlM (fun s call => (C.step s call).map Prod.fst) s

/-- A call that a program can make: of the constructor for an object that is not there, of others
for one that is. -/
def Possible (s : ClassState α) : ObjectCall κ → Prop
  | .construct o => s.arrays o = none
  | .create o _ | .destroy o => (s.arrays o).isSome = true

/-- What the calls on an object, the last first, have put into it. -/
def entriesOf (C : CountingClass κ α) : List (ObjectCall κ) → List α
  | [] => []
  | .construct _ :: _ => []
  | .create _ call :: calls => C.entriesOf calls ++ C.made call
  | .destroy _ :: calls => C.entriesOf calls

/-- What an object's own calls have put into it. -/
def own (C : CountingClass κ α) (o : Nat) (calls : List (ObjectCall κ)) : List α :=
  C.entriesOf (calls.filter (·.object = o))

/-- What a class leaves to its users: which calls of creators do no harm, and with which entries an
object may be destroyed. -/
structure Contract (κ α : Type) where
  call : κ → Prop
  destroyed : List α → Prop

/-- The counter is that of the object: a new one comes when those alive are empty, and entries are
added to the only one. -/
def Fits (C : CountingClass κ α) (contract : Contract κ α) (s : ClassState α)
    (calls : List (ObjectCall κ)) : ObjectCall κ → Prop
  | .construct _ => ∀ p, (s.arrays p).isSome = true → C.own p calls = []
  | .create o call =>
    contract.call call ∧ (C.made call = [] ∨ ∀ p, (s.arrays p).isSome = true → p = o)
  | .destroy o => contract.destroyed (C.own o calls)

/-- The states of runs whose calls all fit, with the calls, the last first. -/
inductive Reached (C : CountingClass κ α) (contract : Contract κ α) :
    ClassState α → List (ObjectCall κ) → Prop
  | init : Reached C contract init []
  | step {s c e s' f} : Reached C contract s c → Possible s e → C.Fits contract s c e →
    C.step s e = some (s', f) → Reached C contract s' (e :: c)

/-- Each object has the entries of its own calls, and as many are counted. -/
def Independent (C : CountingClass κ α) (s : ClassState α) (calls : List (ObjectCall κ)) : Prop :=
  ∀ o array, s.arrays o = some array →
    s.num = (C.own o calls).length ∧ array.entries s.num = some (C.own o calls)

end CountingClass

/-- `CreateSetMplsTTL`, and `CreateCopyTTL` of a type that it does not refuse, are not sound. -/
def ActionCreator.Sound : ActionCreator → Prop
  | setMplsTTL _ => False
  | copyTTL type => type ≠ .copyTtlIn ∧ type ≠ .copyTtlOut
  | _ => True

/-- Without a destructor nothing is freed. -/
def actionsContract : CountingClass.Contract ActionCreator OflAction where
  call := ActionCreator.Sound
  destroyed := fun own => own = []

def instructionContract : CountingClass.Contract InstructionCreator OflInstruction where
  call := fun _ => True
  destroyed := fun _ => True

end Classes

section Independence

/-! ## Independence -/

namespace CountingClass

variable {κ α : Type} {C : CountingClass κ α} {contract : Contract κ α} {s s' : ClassState α}
  {calls : List (ObjectCall κ)} {call : ObjectCall κ} {o : Nat} {own : List α}

/-- What a class does for an object whose counter is right. -/
structure Lawful (C : CountingClass κ α) (contract : Contract κ α) : Prop where
  create : ∀ {own array call}, contract.call call → array.Full own →
    ∃ array', C.create own.length array call =
        some ((own ++ C.made call).length, array') ∧ array'.Full (own ++ C.made call)
  destroy : ∀ {own array}, contract.destroyed own → array.Full own →
    C.destroy own.length array = some own

theorem own_construct (C : CountingClass κ α) :
    C.own o (.construct o :: calls) = [] := by
  simp [CountingClass.own, ObjectCall.object, entriesOf]

theorem own_create (C : CountingClass κ α) (k : κ) :
    C.own o (.create o k :: calls) = C.own o calls ++ C.made k := by
  simp [CountingClass.own, ObjectCall.object, entriesOf]

/-- Calls on others add nothing. -/
theorem own_of_ne (C : CountingClass κ α) (h : call.object ≠ o) :
    C.own o (call :: calls) = C.own o calls := by
  simp [CountingClass.own, h]

/-- The counter and the array of each object are as its own calls say. -/
def Good (C : CountingClass κ α) (s : ClassState α) (calls : List (ObjectCall κ)) : Prop :=
  ∀ o array, s.arrays o = some array →
    s.num = (C.own o calls).length ∧ array.Full (C.own o calls)

theorem Good.independent (h : C.Good s calls) : C.Independent s calls := by
  intro o array harray
  obtain ⟨hnum, hfull⟩ := h o array harray
  exact ⟨hnum, Lib.SlotArray.entries_eq_some_iff.mpr ⟨hnum.symm, hfull.holds⟩⟩

/-- A call changes the array of its object, and the counter of all. -/
theorem good_update {num : Nat} {new : Option (SlotArray α)} (ho : call.object = o)
    (hnew : ∀ array, new = some array →
      num = (C.own o (call :: calls)).length ∧ array.Full (C.own o (call :: calls)))
    (hothers : ∀ p array, p ≠ o → s.arrays p = some array →
      num = (C.own p calls).length ∧ array.Full (C.own p calls)) :
    C.Good ⟨Function.update s.arrays o new, num⟩ (call :: calls) := by
  intro p array harray
  dsimp only at harray
  by_cases hp : p = o
  · rw [hp, Function.update_self] at harray
    rw [hp]
    exact hnew array harray
  · rw [Function.update_of_ne hp] at harray
    rw [own_of_ne C (ho ▸ Ne.symm hp)]
    exact hothers p array hp harray

/-- A call that fits does no harm. -/
theorem Good.step (hC : C.Lawful contract) (h : C.Good s calls) (hpossible : Possible s call)
    (hfits : C.Fits contract s calls call) :
    ∃ s' freed, C.step s call = some (s', freed) ∧ C.Good s' (call :: calls) ∧
      ∀ o, call = .destroy o → freed = C.own o calls := by
  cases call with
  | construct o =>
    refine ⟨_, _, rfl, good_update rfl ?_ fun p array _ harray => ?_, nofun⟩
    · rintro _ ⟨⟩
      rw [own_construct]
      exact ⟨rfl, Lib.SlotArray.full_malloc⟩
    · have hnil : C.own p calls = [] := hfits p (by rw [harray]; rfl)
      obtain ⟨-, hfull⟩ := h p array harray
      rw [hnil] at hfull ⊢
      exact ⟨rfl, hfull⟩
  | create o k =>
    obtain ⟨array, harray⟩ := Option.isSome_iff_exists.mp hpossible
    obtain ⟨hnum, hfull⟩ := h o array harray
    obtain ⟨array', hcreate, hfull'⟩ := hC.create hfits.1 hfull
    have hstep : C.step s (.create o k) = some (⟨Function.update s.arrays o (some array'),
        (C.own o calls ++ C.made k).length⟩, []) := by
      rw [← hnum] at hcreate
      simp [CountingClass.step, harray, hcreate]
    refine ⟨_, _, hstep, good_update rfl ?_ fun p arrayp hp harrayp => ?_, nofun⟩
    · rintro _ ⟨⟩
      rw [own_create]
      exact ⟨rfl, hfull'⟩
    · rcases hfits.2 with hnone | honly
      · rw [hnone, List.append_nil, ← hnum]
        exact h p arrayp harrayp
      · exact absurd (honly p (by rw [harrayp]; rfl)) hp
  | destroy o =>
    obtain ⟨array, harray⟩ := Option.isSome_iff_exists.mp hpossible
    obtain ⟨hnum, hfull⟩ := h o array harray
    have hdestroy := hC.destroy hfits hfull
    have hstep : C.step s (.destroy o) =
        some (⟨Function.update s.arrays o none, s.num⟩, C.own o calls) := by
      rw [← hnum] at hdestroy
      simp [CountingClass.step, harray, hdestroy]
    refine ⟨_, _, hstep, good_update rfl nofun fun p arrayp _ harrayp => h p arrayp harrayp, ?_⟩
    rintro _ ⟨⟩
    rfl

theorem Reached.good (hC : C.Lawful contract) (h : C.Reached contract s calls) :
    C.Good s calls := by
  induction h with
  | init => exact fun _ _ => nofun
  | step _ hpossible hfits hstep ih =>
    obtain ⟨s', freed, hstep', hgood, -⟩ := ih.step hC hpossible hfits
    rw [hstep] at hstep'
    cases hstep'
    exact hgood

/-- Independence holds in runs whose calls fit, and the next call that fits frees what it should. -/
theorem Reached.independent (hC : C.Lawful contract) (h : C.Reached contract s calls) :
    C.Independent s calls ∧ ∀ call, Possible s call → C.Fits contract s calls call →
      ∃ s' freed, C.step s call = some (s', freed) ∧
        ∀ o, call = .destroy o → freed = C.own o calls := by
  refine ⟨(h.good hC).independent, fun call hpossible hfits => ?_⟩
  obtain ⟨s', freed, hstep, -, hfreed⟩ := (h.good hC).step hC hpossible hfits
  exact ⟨s', freed, hstep, hfreed⟩

/-- The object is the only one that is alive. -/
structure Only (s : ClassState α) (o : Nat) : Prop where
  there : (s.arrays o).isSome = true
  only : ∀ p, (s.arrays p).isSome = true → p = o

/-- A call changes the array of its object only. -/
theorem arrays_of_step {freed : List α} (h : C.step s call = some (s', freed)) {p : Nat}
    (hp : p ≠ call.object) : s'.arrays p = s.arrays p := by
  cases call with
  | construct o =>
    cases h
    exact Function.update_of_ne hp _ _
  | create o k =>
    obtain ⟨array, -, h⟩ := Option.bind_eq_some_iff.mp h
    obtain ⟨created, -, h⟩ := Option.bind_eq_some_iff.mp h
    cases h
    exact Function.update_of_ne hp _ _
  | destroy o =>
    obtain ⟨array, -, h⟩ := Option.bind_eq_some_iff.mp h
    obtain ⟨freed, -, h⟩ := Option.bind_eq_some_iff.mp h
    cases h
    exact Function.update_of_ne hp _ _

/-- Where no object is alive one may come. -/
theorem Reached.construct (h : C.Reached contract s calls) (hnone : ∀ p, s.arrays p = none)
    (o : Nat) : ∃ s', C.Reached contract s' (.construct o :: calls) ∧ Only s' o := by
  have hdead (p : Nat) : (s.arrays p).isSome ≠ true := by
    rw [hnone p]
    exact Bool.false_ne_true
  refine ⟨_, .step h (hnone o) (fun p hp => absurd hp (hdead p)) rfl, ?_, fun p hp => ?_⟩
  · dsimp only
    rw [Function.update_self]
    rfl
  · by_contra hne
    dsimp only at hp
    rw [Function.update_of_ne hne] at hp
    exact hdead p hp

/-- The only object may get an entry. -/
theorem Reached.create (hC : C.Lawful contract) (h : C.Reached contract s calls)
    (honly : Only s o) {k : κ} (hk : contract.call k) :
    ∃ s', C.Reached contract s' (.create o k :: calls) ∧ Only s' o := by
  have hpossible : Possible s (.create o k) := honly.there
  have hfits : C.Fits contract s calls (.create o k) := ⟨hk, .inr honly.only⟩
  obtain ⟨s', freed, hstep, -⟩ := (h.good hC).step hC hpossible hfits
  refine ⟨s', h.step hpossible hfits hstep, ?_, fun p hp => ?_⟩
  · obtain ⟨array, -, hstep⟩ := Option.bind_eq_some_iff.mp hstep
    obtain ⟨created, -, hstep⟩ := Option.bind_eq_some_iff.mp hstep
    cases hstep
    dsimp only
    rw [Function.update_self]
    rfl
  · by_contra hne
    rw [arrays_of_step hstep hne] at hp
    exact hne (honly.only p hp)

/-- The only object may go, and then there is none. -/
theorem Reached.destroy (hC : C.Lawful contract) (h : C.Reached contract s calls)
    (honly : Only s o) (hown : contract.destroyed (C.own o calls)) :
    ∃ s', C.Reached contract s' (.destroy o :: calls) ∧ ∀ p, s'.arrays p = none := by
  have hpossible : Possible s (.destroy o : ObjectCall κ) := honly.there
  have hfits : C.Fits contract s calls (.destroy o) := hown
  obtain ⟨s', freed, hstep, -⟩ := (h.good hC).step hC hpossible hfits
  refine ⟨s', h.step hpossible hfits hstep, fun p => ?_⟩
  by_cases hp : p = o
  · obtain ⟨array, -, hstep⟩ := Option.bind_eq_some_iff.mp hstep
    obtain ⟨freed, -, hstep⟩ := Option.bind_eq_some_iff.mp hstep
    cases hstep
    dsimp only
    rw [hp, Function.update_self]
  · rw [arrays_of_step hstep hp]
    exact Option.not_isSome_iff_eq_none.mp fun hsome => hp (honly.only p hsome)

end CountingClass

/-- The creators that store their action where the array has a slot for it. -/
def OflAction.Stored (a : OflAction) : Prop := a ≠ .untyped ∧ OflAction.HasSlot a

/-- Most creators put their action behind those there are. -/
theorem createAction_full {acts : SlotArray OflAction} {own : List OflAction} {a : OflAction}
    (ha : OflAction.Stored a) (h : acts.Full own) :
    ∃ acts', createAction own.length acts a = some acts' ∧ acts'.Full (own ++ [a]) := by
  obtain ⟨hholds, hlength⟩ := h.grow
  obtain ⟨acts', hstore, hfull⟩ := hholds.full_of_store hlength a
  refine ⟨acts', ?_, hfull⟩
  cases a with
  | untyped => exact absurd rfl ha.1
  | setMplsTtl => exact ha.2.elim
  | _ => exact hstore

/-- The others write to what is not theirs. -/
theorem createAction_eq_none {acts : SlotArray OflAction} {own : List OflAction} {a : OflAction}
    (ha : ¬OflAction.Stored a) (h : acts.Full own) : createAction own.length acts a = none := by
  cases a with
  | untyped => simp [createAction, h.load_grow]
  | setMplsTtl =>
    have hlength : (acts.realloc own.length).slots.length = own.length :=
      Lib.SlotArray.length_realloc
    simp [createAction, Lib.SlotArray.store, hlength]
  | _ => exact absurd ⟨nofun, trivial⟩ ha

theorem createAction_stores : Lib.SlotArray.Stores createAction OflAction.Stored := by
  intro acts own a h
  by_cases ha : OflAction.Stored a
  · exact Or.inl ⟨ha, createAction_full ha h⟩
  · exact Or.inr ⟨ha, createAction_eq_none ha h⟩

theorem createInstruction_full {insts : SlotArray OflInstruction} {own : List OflInstruction}
    (h : insts.Full own) (i : OflInstruction) :
    ∃ insts', createInstruction own.length insts i = some insts' ∧ insts'.Full (own ++ [i]) :=
  (h.holds.realloc (Nat.le_succ _)).full_of_store Lib.SlotArray.length_realloc i

theorem createInstruction_stores : Lib.SlotArray.Stores createInstruction fun _ => True :=
  fun _ _ i h => Or.inl ⟨trivial, createInstruction_full h i⟩

/-- A creator is sound when its entry, if there is one, can be stored. -/
theorem ActionCreator.sound_iff (call : ActionCreator) :
    (∀ a, call.entry = some a → OflAction.Stored a) ↔ call.Sound := by
  have hone (a : OflAction) (ha : OflAction.Stored a) :
      ∀ b, some a = some b → OflAction.Stored b := by
    rintro _ ⟨⟩
    exact ha
  cases call with
  | setMplsTTL mplsTtl =>
    refine iff_of_false (fun h => ?_) id
    exact (h _ rfl).2
  | copyTTL type =>
    cases type with
    | copyTtlIn => exact iff_of_false (fun h => (h _ rfl).1 rfl) fun h => h.1 rfl
    | copyTtlOut => exact iff_of_false (fun h => (h _ rfl).1 rfl) fun h => h.2 rfl
    | _ => exact iff_of_true nofun ⟨nofun, nofun⟩
  | decTTL type =>
    refine iff_of_true ?_ trivial
    cases type with
    | decMplsTtl | decNwTtl => exact hone _ ⟨nofun, trivial⟩
    | _ => exact nofun
  | pushAction type ethertype =>
    refine iff_of_true ?_ trivial
    cases type with
    | pushVlan | pushMpls | pushPbb => exact hone _ ⟨nofun, trivial⟩
    | _ => exact nofun
  | _ => exact iff_of_true (hone _ ⟨nofun, trivial⟩) trivial

/-- A class whose creators put their entry, if they have one, behind those there are. -/
theorem create_full {κ α : Type} {push : SlotArray.Push α} {entry : κ → Option α}
    {own : List α} {array : SlotArray α} {k : κ}
    (hpush : ∀ a, entry k = some a → ∃ array', push own.length array a = some array' ∧
      array'.Full (own ++ [a])) (h : array.Full own) :
    ∃ array', ArrayObject.call push entry (own.length, array) k =
        some ((own ++ (entry k).toList).length, array') ∧
      array'.Full (own ++ (entry k).toList) := by
  unfold ArrayObject.call
  cases hk : entry k with
  | none => exact ⟨array, by simp, by simpa using h⟩
  | some a =>
    obtain ⟨array', harray', hfull⟩ := hpush a hk
    exact ⟨array', by simp [harray'], hfull⟩

theorem actionsClass_lawful : actionsClass.Lawful actionsContract where
  create := fun {_ _ call} hcall hfull =>
    create_full (fun a ha => createAction_full (call.sound_iff.mpr hcall a ha) hfull) hfull
  destroy := fun {own array} hown hfull => by
    cases (hown : own = [])
    rfl

theorem instructionClass_lawful : instructionClass.Lawful instructionContract where
  create := fun _ hfull =>
    @create_full _ _ createInstruction (some ∘ InstructionCreator.entry) _ _ _
      (fun i _ => createInstruction_full hfull i) hfull
  destroy := fun _ hfull =>
    Lib.SlotArray.entries_eq_some_iff.mpr ⟨rfl, hfull.holds⟩

section Objects

variable {s : ClassState OflAction} {t : ClassState OflInstruction}
  {calls : List (ObjectCall ActionCreator)} {calls' : List (ObjectCall InstructionCreator)}

/-- The objects of both classes are independent in runs where an object comes when those alive are
empty and entries are added to the only one. -/
theorem objects_independent (h : actionsClass.Reached actionsContract s calls)
    (h' : instructionClass.Reached instructionContract t calls') :
    (actionsClass.Independent s calls ∧
      ∀ call, CountingClass.Possible s call → actionsClass.Fits actionsContract s calls call →
        ∃ s' freed, actionsClass.step s call = some (s', freed) ∧
          ∀ o, call = .destroy o → freed = actionsClass.own o calls) ∧
    instructionClass.Independent t calls' ∧
      ∀ call, CountingClass.Possible t call →
        instructionClass.Fits instructionContract t calls' call →
        ∃ t' freed, instructionClass.step t call = some (t', freed) ∧
          ∀ o, call = .destroy o → freed = instructionClass.own o calls' :=
  ⟨h.independent actionsClass_lawful, h'.independent instructionClass_lawful⟩

/-- Three actions of one object, the last call first. -/
def actionCalls : List (ObjectCall ActionCreator) :=
  [.create 0 (.output 1 0), .create 0 (.setQueue 2), .create 0 (.pushAction .pushVlan 33024),
    .construct 0]

/-- An instruction object with one entry is destroyed, and another one gets two. -/
def instructionCalls : List (ObjectCall InstructionCreator) :=
  [.create 1 (.goToTable 4), .create 1 (.apply [.output 1 0, .group 7]), .construct 1, .destroy 0,
    .create 0 .clearActions, .construct 0]

theorem objects_independent_two :
    ∃ s t, actionsClass.Independent s actionCalls ∧
      instructionClass.Independent t instructionCalls ∧
      ∃ t', instructionClass.step t (.destroy 1) =
        some (t', [.applyActions [.output 1 0, .group 7], .gotoTable 4]) := by
  have hnone {α : Type} (p : Nat) : (CountingClass.init : ClassState α).arrays p = none := rfl
  obtain ⟨s₁, hs, honly⟩ := CountingClass.Reached.construct (C := actionsClass) .init hnone 0
  obtain ⟨s₂, hs, honly⟩ := hs.create actionsClass_lawful honly (k := .pushAction .pushVlan 33024)
    trivial
  obtain ⟨s₃, hs, honly⟩ := hs.create actionsClass_lawful honly (k := .setQueue 2) trivial
  obtain ⟨s, hs, -⟩ := hs.create actionsClass_lawful honly (k := .output 1 0) trivial
  obtain ⟨t₁, ht, honly⟩ := CountingClass.Reached.construct (C := instructionClass) .init hnone 0
  obtain ⟨t₂, ht, honly⟩ := ht.create instructionClass_lawful honly (k := .clearActions) trivial
  obtain ⟨t₃, ht, hgone⟩ := ht.destroy instructionClass_lawful honly trivial
  obtain ⟨t₄, ht, honly⟩ := ht.construct hgone 1
  obtain ⟨t₅, ht, honly⟩ := ht.create instructionClass_lawful honly
    (k := .apply [.output 1 0, .group 7]) trivial
  obtain ⟨t, ht, honly⟩ := ht.create instructionClass_lawful honly (k := .goToTable 4) trivial
  obtain ⟨⟨hindependent, -⟩, hindependent', hnext⟩ := objects_independent hs ht
  obtain ⟨t', freed, hstep, hfreed⟩ := hnext (.destroy 1) honly.there trivial
  rw [hfreed 1 rfl] at hstep
  exact ⟨s, t, hindependent, hindependent', t', hstep⟩

/-- A second object resets the counter of the first one, and a destructor reads behind its array
when the other object has more entries. -/
theorem counter_is_shared :
    (∃ s, actionsClass.run CountingClass.init
        [.construct 0, .create 0 (.output 1 0), .construct 1] = some s ∧
      ¬actionsClass.Independent s [.construct 1, .create 0 (.output 1 0), .construct 0]) ∧
    ∃ t, instructionClass.run CountingClass.init [.construct 0, .create 0 .clearActions,
        .construct 1, .create 1 .clearActions, .create 1 .clearActions] = some t ∧
      (instructionClass.step t (.destroy 0)).isNone = true := by
  refine ⟨⟨_, rfl, fun h => ?_⟩, _, rfl, rfl⟩
  obtain ⟨hnum, -⟩ := h 0 _ rfl
  cases hnum

end Objects

end Independence

end Nox.Interserver
