import Mathlib.Logic.Function.Basic
import Mathlib.Data.List.Basic
import Mathlib.Data.List.Induction
import Mathlib.Data.List.Nodup
import Mathlib.Data.List.TakeWhile

/-!
# Log levels

Each module has a level for each facility, and a message is logged where its level is at most
that.  The levels are set by words `module:facility:level`; a `Vlog_module` keeps the largest of
its module's levels beside it.  The caches are right after any calls, and a string of words does
what its words say, unless the first that is no such word has nothing but colons, or too many
(`levels_configured`).
-/

namespace Nox.Logging

section Definitions

/-! ## Names -/

/-- `FACILITY_SYSLOG` and `FACILITY_CONSOLE` -/
inductive Facility
  | syslog
  | console
  deriving DecidableEq, Repr

/-- The facilities in the order of the loops over them. -/
def Facility.all : List Facility := [.syslog, .console]

/-- `facility_names` -/
def Facility.name : Facility → String
  | syslog => "syslog"
  | console => "console"

/-- `LEVEL_EMER` is 0. -/
abbrev Level := Nat

def levelEmer : Level := 0
def levelWarn : Level := 2

/-- `level_names` -/
def levelNames : List String := ["EMER", "ERR", "WARN", "INFO", "DBG"]

def maxModuleNameLen : Nat := 64

/-- What `c_str()` shows of a string. -/
def cStr (s : List Char) : List Char := s.takeWhile (· ≠ '\x00')

/-- `!strcasecmp(name, s)` -/
def sameName (name : String) (s : List Char) : Bool :=
  name.toList.map Char.toLower = (cStr s).map Char.toLower

def getLevelVal (name : List Char) : Option Level := levelNames.findIdx? (sameName · name)

def getFacilityVal (name : List Char) : Option Facility :=
  Facility.all.find? (sameName ·.name name)

/-- The name a module is known by. -/
def shortName (name : List Char) : List Char := (cStr name).take maxModuleNameLen

/-! ## Modules and levels -/

/-- `Vlog_impl`, with what the caches hold; a cache is told by its address. -/
structure Vlog (P : Type) where
  moduleToName : List (List Char)
  nameToModule : List Char → Option Nat
  levels : Facility → List Level
  defaultLevels : Facility → Level
  minLevelCaches : List (P × Nat)
  cached : P → Level

namespace Vlog

variable {P : Type} [DecidableEq P]

def nModules (v : Vlog P) : Nat := v.moduleToName.length

/-- `levels[facility][module]` -/
def levelAt (v : Vlog P) (module : Nat) (facility : Facility) : Level :=
  (v.levels facility)[module]?.getD levelEmer

def minLoggableLevel (v : Vlog P) (module : Nat) : Level :=
  Facility.all.foldl (fun minLevel facility => max minLevel (v.levelAt module facility)) levelEmer

def isLoggable (v : Vlog P) (module : Nat) (level : Int) : Bool :=
  Facility.all.any fun facility => level ≤ v.levelAt module facility

/-- `Vlog_module::is_enabled` of the one with this cache -/
def isEnabled (v : Vlog P) (p : P) (level : Int) : Bool := level ≤ v.cached p

def revalidateCacheEntry (v : Vlog P) (entry : P × Nat) : Vlog P :=
  { v with cached := Function.update v.cached entry.1 (v.minLoggableLevel entry.2) }

def revalidateCache (v : Vlog P) : Vlog P := v.minLevelCaches.foldl revalidateCacheEntry v

/-- `get_module_val`; none is -1. -/
def getModuleVal (v : Vlog P) (name : List Char) (create : Bool) : Option Nat × Vlog P :=
  match v.nameToModule (shortName name) with
  | some module => (some module, v)
  | none =>
    if !create then (none, v)
    else
      let module := v.moduleToName.length
      (some module, { v with
        moduleToName := v.moduleToName ++ [shortName name]
        nameToModule := Function.update v.nameToModule (shortName name) (some module)
        levels := fun facility => v.levels facility ++ [v.defaultLevels facility] })

/-- `set_facility_level`; no module is `ANY_MODULE`. -/
def setFacilityLevel (v : Vlog P) (facility : Facility) (module : Option Nat) (level : Level) :
    Vlog P :=
  match module with
  | none => { v with
      defaultLevels := Function.update v.defaultLevels facility level
      levels := Function.update v.levels facility (List.replicate v.nModules level) }
  | some module => { v with
      levels := Function.update v.levels facility ((v.levels facility).set module level) }

/-- `set_levels`; no facility is `ANY_FACILITY`. -/
def setLevels (v : Vlog P) (facility : Option Facility) (module : Option Nat) (level : Level) :
    Vlog P :=
  let v := match facility with
    | none => Facility.all.foldl (fun (v : Vlog P) facility =>
        v.setFacilityLevel facility module level) v
    | some facility => v.setFacilityLevel facility module level
  v.revalidateCache

/-- `register_cache`; none where an assertion fails. -/
def registerCache (v : Vlog P) (module : Nat) (p : P) : Option (Vlog P) :=
  if p ∉ v.minLevelCaches.map (·.1) ∧ module < v.nModules then
    some (revalidateCacheEntry { v with minLevelCaches := v.minLevelCaches ++ [(p, module)] }
      (p, module))
  else none

def unregisterCache (v : Vlog P) (p : P) : Option (Vlog P) :=
  if p ∈ v.minLevelCaches.map (·.1) then
    some { v with minLevelCaches := v.minLevelCaches.filter (·.1 ≠ p) }
  else none

/-- A `Vlog` when it has been constructed; the memory holds anything. -/
def init (memory : P → Level) : Vlog P :=
  (getModuleVal ⟨[], fun _ => none, fun _ => [], fun _ => levelWarn, [], memory⟩
    "uninitialized".toList true).2

end Vlog

/-! ## Words -/

/-- `boost::tokenizer` with a `char_separator`, which gives no empty tokens. -/
def tokens (sep : Char → Bool) (s : List Char) : List (List Char) :=
  (s.splitOnP sep).filter (· ≠ [])

def sepwhite (c : Char) : Bool := c == ' ' || c == '\t'

def sepcol (c : Char) : Bool := c == ':'

def any : List Char := "ANY".toList

def ack : List Char := "ack".toList

/-- How a call ends: it returns a text, throws one, or reads a token that there is not. -/
inductive Outcome
  | returned (text : List Char)
  | thrown (text : List Char)
  | pastEnd
  deriving DecidableEq

/-- The facility that a token names; no facility is `ANY_FACILITY`, and a token may name none. -/
def facilityOf (token : List Char) : Option (Option Facility) :=
  if token = any then some none else (getFacilityVal token).map some

namespace Vlog

variable {P : Type} [DecidableEq P]

/-- The module that a token names, which is created if there is none. -/
def moduleOf (v : Vlog P) (token : List Char) : Option (Option Nat) × Vlog P :=
  if token = any then (some none, v)
  else
    let r := v.getModuleVal token true
    (r.1.map some, r.2)

/-- What is done with a word, and how the call ends if it does. -/
def setWord (v : Vlog P) (word : List Char) : Vlog P × Option Outcome :=
  let invalid := Outcome.thrown ("invalid token ".toList ++ word)
  match tokens sepcol word with
  | [] => (v, some .pastEnd)
  | m :: rest =>
    match v.moduleOf m with
    | (none, v) => (v, some (.returned ("unknown module ".toList ++ m)))
    | (some module, v) =>
      match rest with
      | [] => (v, some invalid)
      | f :: rest =>
        match facilityOf f with
        | none => (v, some (.returned ("unknown facility ".toList ++ f)))
        | some facility =>
          match rest with
          | [] => (v, some invalid)
          | l :: rest =>
            match getLevelVal l with
            | none => (v, some (.returned ("unknown level ".toList ++ l)))
            | some level =>
              match rest with
              | _ :: _ => (v, some invalid)
              | [] => (v.setLevels facility module level, none)

/-- What a call comes to: how it ends, the levels then, and the words for which it set levels. -/
structure Result (P : Type) where
  outcome : Outcome
  vlog : Vlog P
  applied : List (List Char)

def setWords (v : Vlog P) : List (List Char) → Result P
  | [] => ⟨.returned ack, v, []⟩
  | word :: words =>
    match v.setWord word with
    | (v, some outcome) => ⟨outcome, v, []⟩
    | (v, none) =>
      let r := v.setWords words
      { r with applied := word :: r.applied }

def setLevelsFromString (v : Vlog P) (s : List Char) : Result P := v.setWords (tokens sepwhite s)

end Vlog

/-! ## What strings are for -/

/-- What a word says: a level, for one facility or all and for one module or all. -/
structure Setting where
  facility : Option Facility
  module : Option (List Char)
  level : Level

/-- What the three parts of a word say. -/
def settingOf : List (List Char) → Option Setting
  | [m, f, l] => do
    let facility ← facilityOf f
    let level ← getLevelVal l
    return ⟨facility, if m = any then none else some (shortName m), level⟩
  | _ => none

/-- What a word `module:facility:level` says. -/
def setting (word : List Char) : Option Setting :=
  let parts := word.splitOnP sepcol
  if [] ∈ parts then none else settingOf parts

/-- The levels of modules by their names. -/
abbrev Levels := Facility → List Char → Level

def Setting.apply (levels : Levels) (s : Setting) : Levels := fun facility name =>
  if (s.facility = none ∨ s.facility = some facility) ∧
      (s.module = none ∨ s.module = some (shortName name)) then s.level
  else levels facility name

/-- The level of a module, or the one that it will have when it is created. -/
def Vlog.level {P : Type} (v : Vlog P) : Levels := fun facility name =>
  match v.nameToModule (shortName name) with
  | some module => v.levelAt module facility
  | none => v.defaultLevels facility

def Outcome.IsError : Outcome → Prop
  | returned text => text ≠ ack
  | thrown _ => True
  | pastEnd => False

/-- A string does what its words say: the words up to the first that is none are applied, and if
there is such a word, the call reports an error. -/
structure Configures {P : Type} [DecidableEq P] (v : Vlog P) (s : List Char) : Prop where
  inside : (v.setLevelsFromString s).outcome ≠ .pastEnd
  formed : (∀ word ∈ tokens sepwhite s, (setting word).isSome) →
    (v.setLevelsFromString s).outcome = .returned ack
  malformed : (¬∀ word ∈ tokens sepwhite s, (setting word).isSome) →
    (v.setLevelsFromString s).outcome.IsError
  applied : (v.setLevelsFromString s).applied =
    (tokens sepwhite s).takeWhile fun word => (setting word).isSome
  levels : (v.setLevelsFromString s).vlog.level =
    (((tokens sepwhite s).takeWhile fun word => (setting word).isSome).filterMap setting).foldl
      Setting.apply v.level

/-- The first word that is no `module:facility:level`, if there is one, has a part that is not
empty, and says nothing without its empty parts either. -/
def Orderly (s : List Char) : Prop :=
  ∀ word, (tokens sepwhite s).find? (fun word => (setting word).isNone) = some word →
    tokens sepcol word ≠ [] ∧ settingOf (tokens sepcol word) = none

/-- What is done with levels. -/
inductive VlogOp (P : Type)
  | setLevels (facility : Option Facility) (module : Option Nat) (level : Level)
  | setLevelsFromString (s : List Char)
  | getModuleVal (name : List Char) (create : Bool)
  | registerCache (module : Nat) (p : P)
  | unregisterCache (p : P)

/-- None where an assertion fails, or a token is read that there is not. -/
def Vlog.step {P : Type} [DecidableEq P] (v : Vlog P) : VlogOp P → Option (Vlog P)
  | .setLevels facility module level =>
    if level < levelNames.length ∧ ∀ m ∈ module, m < v.nModules then
      some (v.setLevels facility module level)
    else none
  | .setLevelsFromString s =>
    let r := v.setLevelsFromString s
    if r.outcome = .pastEnd then none else some r.vlog
  | .getModuleVal name create => some (v.getModuleVal name create).2
  | .registerCache module p => v.registerCache module p
  | .unregisterCache p => v.unregisterCache p

def Vlog.run {P : Type} [DecidableEq P] (v : Vlog P) (ops : List (VlogOp P)) : Option (Vlog P) :=
  ops.foldlM Vlog.step v

end Definitions

section Caches

/-! ## Caches -/

variable {P : Type} {v w : Vlog P} {name : List Char} {facility : Facility}
  {module : Nat} {level : Level}

/-- The two ways between modules and their names agree, and every module has its levels. -/
structure Named (v : Vlog P) : Prop where
  names : ∀ name module, v.nameToModule name = some module ↔ v.moduleToName[module]? = some name
  levels : ∀ facility, (v.levels facility).length = v.nModules

/-- The caches, each registered once, have what they should. -/
structure Sound (v : Vlog P) : Prop extends Named v where
  nodup : (v.minLevelCaches.map (·.1)).Nodup
  inside : ∀ e ∈ v.minLevelCaches, e.2 < v.nModules
  cached : ∀ e ∈ v.minLevelCaches, v.cached e.1 = v.minLoggableLevel e.2

theorem Named.lt (h : Named v) (hname : v.nameToModule name = some module) :
    module < v.nModules :=
  (List.getElem?_eq_some_iff.mp ((h.names name module).mp hname)).1

/-- A cached level admits what the levels do. -/
theorem Sound.admits (h : Sound v) {e : P × Nat} (he : e ∈ v.minLevelCaches) (level : Int) :
    v.isEnabled e.1 level = v.isLoggable e.2 level := by
  have hmin : v.cached e.1 = max (max 0 (v.levelAt e.2 .syslog)) (v.levelAt e.2 .console) :=
    h.cached e he
  have hany : v.isLoggable e.2 level = (decide (level ≤ (v.levelAt e.2 .syslog : Int)) ||
      (decide (level ≤ (v.levelAt e.2 .console : Int)) || false)) := rfl
  unfold Vlog.isEnabled
  rw [hmin, hany, Bool.eq_iff_iff, Bool.or_false, Bool.or_eq_true, decide_eq_true_eq,
    decide_eq_true_eq, decide_eq_true_eq]
  omega

variable [DecidableEq P]

theorem Vlog.foldl_revalidate (es : List (P × Nat)) : es.foldl Vlog.revalidateCacheEntry v =
    { v with cached := es.foldl (fun cached e =>
        Function.update cached e.1 (v.minLoggableLevel e.2)) v.cached } := by
  induction es generalizing v with
  | nil => rfl
  | cons e es ih => exact ih

theorem foldl_update {es : List (P × Nat)} {value : Nat → Level}
    {cached : P → Level} (hnodup : (es.map (·.1)).Nodup) {e : P × Nat} (he : e ∈ es) :
    es.foldl (fun cached e => Function.update cached e.1 (value e.2)) cached e.1 = value e.2 := by
  induction es using List.reverseRecOn with
  | nil => cases he
  | append_singleton es e' ih =>
    rw [List.foldl_append, List.foldl_cons, List.foldl_nil]
    rw [List.map_append, List.nodup_append] at hnodup
    obtain ⟨hes, -, hdisj⟩ := hnodup
    rcases List.mem_append.mp he with he | he
    · have hne : e.1 ≠ e'.1 :=
        hdisj e.1 (List.mem_map_of_mem he) e'.1 (List.mem_map_of_mem List.mem_cons_self)
      rw [Function.update_of_ne hne]
      exact ih hes he
    · rw [List.mem_singleton.mp he, Function.update_self]

/-- When the caches have been revalidated, they have what they should. -/
theorem Named.revalidateCache (h : Named v) (hnodup : (v.minLevelCaches.map (·.1)).Nodup)
    (hinside : ∀ e ∈ v.minLevelCaches, e.2 < v.nModules) : Sound v.revalidateCache := by
  rw [Vlog.revalidateCache, Vlog.foldl_revalidate]
  exact ⟨⟨h.names, h.levels⟩, hnodup, hinside, fun e he => foldl_update hnodup he⟩

omit [DecidableEq P] in
/-- A new module has the default levels, and the others keep theirs. -/
theorem Named.levelAt_append (h : Named v) (hlt : module < v.nModules) (name : List Char)
    (names : List Char → Option Nat) : Vlog.levelAt { v with
      moduleToName := v.moduleToName ++ [name]
      nameToModule := names
      levels := fun facility => v.levels facility ++ [v.defaultLevels facility] } module facility =
    v.levelAt module facility := by
  unfold Vlog.levelAt
  dsimp only
  rw [List.getElem?_append_left (by rw [h.levels]; exact hlt)]

omit [DecidableEq P] in
/-- A module is looked up, or created with the levels it was to have. -/
theorem Sound.getModuleVal (h : Sound v) (name : List Char) (create : Bool) :
    Sound (v.getModuleVal name create).2 ∧ (v.getModuleVal name create).2.level = v.level := by
  unfold Vlog.getModuleVal
  split
  · exact ⟨h, rfl⟩
  · next hnone =>
    split
    · exact ⟨h, rfl⟩
    · generalize hshort : shortName name = short at hnone ⊢
      have hfresh : ∀ module, v.moduleToName[module]? ≠ some short := fun module hmodule => by
        rw [(h.names short module).mpr hmodule] at hnone
        cases hnone
      dsimp only
      refine ⟨⟨⟨fun name' module => ?_, fun facility => ?_⟩, h.nodup, fun e he => ?_,
        fun e he => ?_⟩, ?_⟩
      · dsimp only
        by_cases heq : name' = short
        · subst heq
          rw [Function.update_self]
          rcases Nat.lt_trichotomy module v.moduleToName.length with hlt | rfl | hgt
          · rw [List.getElem?_append_left hlt]
            refine iff_of_false (fun hs => ?_) (hfresh module)
            rw [Option.some.inj hs] at hlt
            exact Nat.lt_irrefl _ hlt
          · simp
          · refine iff_of_false (fun hs => ?_) fun hs => ?_
            · rw [Option.some.inj hs] at hgt
              exact Nat.lt_irrefl _ hgt
            · rw [List.getElem?_eq_none (by simp; omega)] at hs
              cases hs
        · rw [Function.update_of_ne heq, h.names]
          by_cases hlt : module < v.moduleToName.length
          · rw [List.getElem?_append_left hlt]
          · rw [List.getElem?_append_right (Nat.le_of_not_lt hlt),
              List.getElem?_eq_none (Nat.le_of_not_lt hlt)]
            refine iff_of_false (by rintro ⟨⟩) fun hs => heq ?_
            exact List.mem_singleton.mp (List.mem_of_getElem? hs)
      · dsimp only
        rw [List.length_append, h.levels, Vlog.nModules, Vlog.nModules, List.length_append]
        rfl
      · have hlt := h.inside e he
        change e.2 < (v.moduleToName ++ [short]).length
        rw [List.length_append]
        exact Nat.lt_succ_of_lt hlt
      · have hmin : ∀ facility, _ = v.levelAt e.2 facility := fun facility =>
          h.levelAt_append (h.inside e he) short
            (Function.update v.nameToModule short (some v.moduleToName.length))
        unfold Vlog.minLoggableLevel
        dsimp only
        simp only [hmin]
        exact h.cached e he
      · funext facility name'
        unfold Vlog.level
        dsimp only
        by_cases heq : shortName name' = short
        · rw [heq, Function.update_self, hnone]
          dsimp only
          unfold Vlog.levelAt
          dsimp only
          have hlength : v.moduleToName.length = (v.levels facility).length :=
            (h.levels facility).symm
          rw [hlength, List.getElem?_concat_length]
          rfl
        · rw [Function.update_of_ne heq]
          cases hmodule : v.nameToModule (shortName name') with
          | none => rfl
          | some module => exact h.levelAt_append (h.lt hmodule) _ _

end Caches

section Settings

/-! ## Settings -/

variable {P : Type} {v : Vlog P} {facility : Option Facility} {module : Option Nat}
  {name : Option (List Char)} {level : Level}

/-- A module as `set_levels` gets it, and as a word names it. -/
def Refers (v : Vlog P) (module : Option Nat) (name : Option (List Char)) : Prop :=
  (module = none ∧ name = none) ∨ ∃ m n, module = some m ∧ name = some n ∧ v.nameToModule n = some m

theorem Named.setFacilityLevel (h : Named v) (facility : Facility) (module : Option Nat)
    (level : Level) : Named (v.setFacilityLevel facility module level) := by
  cases module with
  | none =>
    refine ⟨h.names, fun facility' => ?_⟩
    change (Function.update v.levels facility (List.replicate v.nModules level)
      facility').length = _
    by_cases heq : facility' = facility
    · rw [heq, Function.update_self, List.length_replicate]
      rfl
    · rw [Function.update_of_ne heq]
      exact h.levels facility'
  | some m =>
    refine ⟨h.names, fun facility' => ?_⟩
    change (Function.update v.levels facility ((v.levels facility).set m level)
      facility').length = _
    by_cases heq : facility' = facility
    · rw [heq, Function.update_self, List.length_set]
      exact h.levels facility
    · rw [Function.update_of_ne heq]
      exact h.levels facility'

theorem Vlog.nameToModule_setFacilityLevel (v : Vlog P) (facility : Facility)
    (module : Option Nat) (level : Level) :
    (v.setFacilityLevel facility module level).nameToModule = v.nameToModule := by
  cases module <;> rfl

theorem Vlog.minLevelCaches_setFacilityLevel (v : Vlog P) (facility : Facility)
    (module : Option Nat) (level : Level) :
    (v.setFacilityLevel facility module level).minLevelCaches = v.minLevelCaches := by
  cases module <;> rfl

theorem Vlog.nModules_setFacilityLevel (v : Vlog P) (facility : Facility)
    (module : Option Nat) (level : Level) :
    (v.setFacilityLevel facility module level).nModules = v.nModules := by
  cases module <;> rfl

/-- A level is set for the modules that are meant, and for those that are yet to be created if all
are. -/
theorem Named.level_setFacilityLevel (h : Named v) (hrefers : Refers v module name)
    (facility : Facility) (level : Level) : (v.setFacilityLevel facility module level).level =
      Setting.apply v.level ⟨some facility, name, level⟩ := by
  funext facility' name'
  unfold Setting.apply
  dsimp only
  by_cases hfacility : facility' = facility
  · subst hfacility
    rcases hrefers with ⟨rfl, rfl⟩ | ⟨m, n, rfl, rfl, hn⟩
    · rw [if_pos ⟨Or.inr rfl, Or.inl rfl⟩]
      change (match v.nameToModule (shortName name') with | some m => _ | none => _) = _
      cases hmodule : v.nameToModule (shortName name') with
      | none => exact Function.update_self ..
      | some m =>
        change (Function.update v.levels facility' _ facility')[m]?.getD levelEmer = level
        rw [Function.update_self, List.getElem?_replicate, if_pos (h.lt hmodule)]
        rfl
    · change (match v.nameToModule (shortName name') with | some m => _ | none => _) = _
      by_cases hname : n = shortName name'
      · subst hname
        rw [if_pos ⟨Or.inr rfl, Or.inr rfl⟩, hn]
        change (Function.update v.levels facility' _ facility')[m]?.getD levelEmer = level
        rw [Function.update_self, List.getElem?_set_self (by rw [h.levels]; exact h.lt hn)]
        rfl
      · rw [if_neg (by simp [hname])]
        unfold Vlog.level
        cases hmodule : v.nameToModule (shortName name') with
        | none => rfl
        | some m' =>
          have hne : m ≠ m' := by
            rintro rfl
            have hsame := ((h.names _ _).mp hn).symm.trans ((h.names _ _).mp hmodule)
            exact hname (Option.some.inj hsame)
          change (Function.update v.levels facility' _ facility')[m']?.getD levelEmer = _
          rw [Function.update_self, List.getElem?_set_ne hne]
          rfl
  · rw [if_neg (by simp [Ne.symm hfacility])]
    have hlevels : (v.setFacilityLevel facility module level).levels facility' =
        v.levels facility' := by
      cases module <;> exact Function.update_of_ne hfacility _ _
    have hdefault : (v.setFacilityLevel facility module level).defaultLevels facility' =
        v.defaultLevels facility' := by
      cases module with
      | none => exact Function.update_of_ne hfacility _ _
      | some m => rfl
    unfold Vlog.level Vlog.levelAt
    rw [Vlog.nameToModule_setFacilityLevel, hlevels, hdefault]

theorem Setting.apply_all (levels : Levels) (name : Option (List Char)) (level : Level) :
    Setting.apply levels ⟨none, name, level⟩ =
      Facility.all.foldl (fun levels facility =>
        Setting.apply levels ⟨some facility, name, level⟩) levels := by
  funext facility name'
  unfold Facility.all Setting.apply
  cases facility <;> simp

variable [DecidableEq P]

/-- Levels are set, and the caches follow. -/
theorem Sound.setLevels (h : Sound v) (facility : Option Facility) (module : Option Nat)
    (level : Level) : Sound (v.setLevels facility module level) := by
  have hsound {w : Vlog P} (hnamed : Named w) (hcaches : w.minLevelCaches = v.minLevelCaches)
      (hmodules : w.nModules = v.nModules) : Sound w.revalidateCache :=
    hnamed.revalidateCache (hcaches ▸ h.nodup) fun e he => by
      rw [hmodules]
      exact h.inside e (hcaches ▸ he)
  unfold Vlog.setLevels
  cases facility with
  | none =>
    refine hsound ((h.toNamed.setFacilityLevel _ _ _).setFacilityLevel _ _ _) ?_ ?_
    · change ((v.setFacilityLevel .syslog module level).setFacilityLevel .console module
        level).minLevelCaches = _
      rw [Vlog.minLevelCaches_setFacilityLevel, Vlog.minLevelCaches_setFacilityLevel]
    · change ((v.setFacilityLevel .syslog module level).setFacilityLevel .console module
        level).nModules = _
      rw [Vlog.nModules_setFacilityLevel, Vlog.nModules_setFacilityLevel]
  | some facility =>
    exact hsound (h.toNamed.setFacilityLevel _ _ _) (Vlog.minLevelCaches_setFacilityLevel ..)
      (Vlog.nModules_setFacilityLevel ..)

theorem Vlog.level_revalidateCache (v : Vlog P) : v.revalidateCache.level = v.level := by
  rw [Vlog.revalidateCache, Vlog.foldl_revalidate]
  rfl

theorem Sound.level_setLevels (h : Sound v) (hrefers : Refers v module name)
    (facility : Option Facility) (level : Level) : (v.setLevels facility module level).level =
      Setting.apply v.level ⟨facility, name, level⟩ := by
  unfold Vlog.setLevels
  rw [Vlog.level_revalidateCache]
  cases facility with
  | none =>
    have hrefers' : Refers (v.setFacilityLevel .syslog module level) module name := by
      unfold Refers
      rw [Vlog.nameToModule_setFacilityLevel]
      exact hrefers
    rw [Setting.apply_all]
    change ((v.setFacilityLevel .syslog module level).setFacilityLevel .console module
      level).level = _
    rw [(h.toNamed.setFacilityLevel _ _ _).level_setFacilityLevel hrefers',
      h.toNamed.level_setFacilityLevel hrefers]
    rfl
  | some facility => exact h.toNamed.level_setFacilityLevel hrefers facility level

end Settings

section Words

/-! ## Words -/

variable {P : Type} [DecidableEq P] {v : Vlog P} {word : List Char} {st : Setting}

omit [DecidableEq P] in
/-- A token names a module, which there is then. -/
theorem Sound.moduleOf (h : Sound v) (token : List Char) : ∃ module v',
    v.moduleOf token = (some module, v') ∧ Sound v' ∧ v'.level = v.level ∧
      Refers v' module (if token = any then none else some (shortName token)) := by
  unfold Vlog.moduleOf
  by_cases hany : token = any
  · rw [if_pos hany, if_pos hany]
    exact ⟨none, v, rfl, h, rfl, Or.inl ⟨rfl, rfl⟩⟩
  · rw [if_neg hany, if_neg hany]
    obtain ⟨hsound, hlevel⟩ := h.getModuleVal token true
    have hsome : ∃ m, (v.getModuleVal token true).1 = some m ∧
        (v.getModuleVal token true).2.nameToModule (shortName token) = some m := by
      unfold Vlog.getModuleVal
      split
      · next m hm => exact ⟨m, rfl, hm⟩
      · exact ⟨v.moduleToName.length, rfl, Function.update_self ..⟩
    obtain ⟨m, hfirst, hname⟩ := hsome
    dsimp only
    rw [hfirst]
    exact ⟨some m, _, rfl, hsound, hlevel, Or.inr ⟨m, _, rfl, rfl, hname⟩⟩

theorem isError_returned (text : String) (token : List Char)
    (h : text.toList.head? = some 'u') : (Outcome.returned (text.toList ++ token)).IsError := by
  intro heq
  obtain ⟨rest, htext⟩ := List.head?_eq_some_iff.mp h
  rw [htext] at heq
  cases heq

/-- What a word says without its empty parts. -/
def meaning (word : List Char) : Option Setting := settingOf (tokens sepcol word)

/-- A word of three tokens is applied if they say something; any other ends the call. -/
theorem Sound.setWord (h : Sound v) (word : List Char) :
    (∃ st v', meaning word = some st ∧ v.setWord word = (v', none) ∧
      Sound v' ∧ v'.level = st.apply v.level) ∨
    (∃ v' outcome, meaning word = none ∧
      v.setWord word = (v', some outcome) ∧ Sound v' ∧ v'.level = v.level ∧
      (tokens sepcol word = [] → outcome = .pastEnd) ∧
      (tokens sepcol word ≠ [] → outcome.IsError)) := by
  unfold Vlog.setWord meaning
  cases tokens sepcol word with
  | nil => exact Or.inr ⟨v, .pastEnd, rfl, rfl, h, rfl, fun _ => rfl, fun hne => absurd rfl hne⟩
  | cons m rest =>
    obtain ⟨module, v', hmodule, hsound, hlevel, hrefers⟩ := h.moduleOf m
    dsimp only
    rw [hmodule]
    cases rest with
    | nil =>
      exact Or.inr ⟨v', .thrown _, rfl, rfl, hsound, hlevel, nofun, fun _ => trivial⟩
    | cons f rest =>
      dsimp only
      cases hfacility : facilityOf f with
      | none =>
        refine Or.inr ⟨v', .returned _, ?_, rfl, hsound, hlevel, nofun,
          fun _ => isError_returned "unknown facility " f (by decide)⟩
        match rest with
        | [] => rfl
        | [l] =>
          rw [settingOf, hfacility]
          rfl
        | l :: l' :: rest => rfl
      | some facility =>
        cases rest with
        | nil =>
          exact Or.inr ⟨v', .thrown _, rfl, rfl, hsound, hlevel, nofun, fun _ => trivial⟩
        | cons l rest =>
          dsimp only
          cases hl : getLevelVal l with
          | none =>
            refine Or.inr ⟨v', .returned _, ?_, rfl, hsound, hlevel, nofun,
              fun _ => isError_returned "unknown level " l (by decide)⟩
            cases rest with
            | nil =>
              rw [settingOf, hfacility, hl]
              rfl
            | cons l' rest => rfl
          | some level =>
            cases rest with
            | cons l' rest =>
              exact Or.inr ⟨v', .thrown _, rfl, rfl, hsound, hlevel, nofun, fun _ => trivial⟩
            | nil =>
              refine Or.inl ⟨_, _, by rw [settingOf, hfacility, hl]; rfl, rfl,
                hsound.setLevels _ _ _, ?_⟩
              rw [hsound.level_setLevels hrefers, hlevel]

/-- The words are applied up to the first that says nothing, which ends the call. -/
theorem Sound.setWords (h : Sound v) (words : List (List Char)) : Sound (v.setWords words).vlog ∧
    (v.setWords words).applied =
      (words.takeWhile fun word => (meaning word).isSome) ∧
    (v.setWords words).vlog.level =
      ((words.takeWhile fun word => (meaning word).isSome).filterMap meaning).foldl
         Setting.apply v.level ∧
    match words.find? fun word => (meaning word).isNone with
    | none => (v.setWords words).outcome = .returned ack
    | some word => (tokens sepcol word = [] → (v.setWords words).outcome = .pastEnd) ∧
        (tokens sepcol word ≠ [] → (v.setWords words).outcome.IsError) := by
  induction words generalizing v with
  | nil => exact ⟨h, rfl, rfl, rfl⟩
  | cons word words ih =>
    unfold Vlog.setWords
    rcases h.setWord word with ⟨st, v', hst, hword, hsound, hlevel⟩ |
      ⟨v', outcome, hst, hword, hsound, hlevel, houtcome⟩
    · obtain ⟨hsound', happlied, hlevels, houtcome⟩ := ih hsound
      have hsome : (meaning word).isSome = true := by rw [hst]; rfl
      have hnone : (meaning word).isNone ≠ true := by simp [hst]
      rw [hword, List.takeWhile_cons_of_pos (p := fun word => (meaning word).isSome) hsome,
        List.find?_cons_of_neg (p := fun word => (meaning word).isNone) hnone]
      refine ⟨hsound', ?_, ?_, houtcome⟩
      · dsimp only
        rw [happlied]
      · dsimp only
        rw [List.filterMap_cons_some hst, List.foldl_cons, ← hlevel]
        exact hlevels
    · have hsome : (meaning word).isSome ≠ true := by simp [hst]
      have hnone : (meaning word).isNone = true := by rw [hst]; rfl
      rw [hword, List.takeWhile_cons_of_neg (p := fun word => (meaning word).isSome) hsome,
        List.find?_cons_of_pos (p := fun word => (meaning word).isNone) hnone]
      exact ⟨hsound, rfl, hlevel, houtcome⟩

theorem meaning_of_setting (h : setting word = some st) : meaning word = some st := by
  unfold setting at h
  dsimp only at h
  split at h
  · cases h
  · next hnil =>
    have htokens : tokens sepcol word = word.splitOnP sepcol :=
      List.filter_eq_self.mpr fun part hpart => by
        have hne : part ≠ [] := fun heq => hnil (heq ▸ hpart)
        exact decide_eq_true hne
    rw [meaning, htokens]
    exact h

theorem meaning_eq {word : List Char} (h : (setting word).isSome) :
    meaning word = setting word := by
  obtain ⟨st, hst⟩ := Option.isSome_iff_exists.mp h
  rw [hst, meaning_of_setting hst]

section Lists

variable {words : List (List Char)} (h : ∀ word ∈ words, (setting word).isSome)
include h

theorem meaning_isSome : ∀ word ∈ words, (meaning word).isSome := fun word hmem => by
  rw [meaning_eq (h word hmem)]
  exact h word hmem

theorem takeWhile_meaning : (words.takeWhile fun word => (meaning word).isSome) = words :=
  List.takeWhile_eq_self_iff.mpr (meaning_isSome h)

theorem filterMap_meaning : words.filterMap meaning = words.filterMap setting :=
  List.filterMap_congr fun word hmem => meaning_eq (h word hmem)

end Lists

theorem takeWhile_first {p : List Char → Bool} {before rest : List (List Char)} {word : List Char}
    (hbefore : ∀ w ∈ before, p w) (hword : p word = false) :
    (before ++ word :: rest).takeWhile p = before := by
  rw [List.takeWhile_append_of_pos hbefore, List.takeWhile_cons_of_neg (by simp [hword]),
    List.append_nil]

end Words

section Runs

/-! ## Runs -/

variable {P : Type} [DecidableEq P] {v v' : Vlog P}

/-- A string of words that are all settings does what they say. -/
theorem Sound.configures_of_all (h : Sound v) {s : List Char}
    (hall : ∀ word ∈ tokens sepwhite s, (setting word).isSome) : Configures v s := by
  obtain ⟨-, happlied, hlevels, houtcome⟩ := h.setWords (tokens sepwhite s)
  have hself := List.takeWhile_eq_self_iff.mpr hall
  have hnone : (tokens sepwhite s).find? (fun word => (meaning word).isNone) = none :=
    List.find?_eq_none.mpr fun word hmem => by
      rw [Option.isNone_iff_eq_none, ← ne_eq, ← Option.isSome_iff_ne_none]
      exact meaning_isSome hall word hmem
  rw [hnone] at houtcome
  rw [takeWhile_meaning hall] at happlied hlevels
  have hreturned : (v.setLevelsFromString s).outcome = .returned ack := houtcome
  refine ⟨?_, fun _ => hreturned, fun hnot => absurd hall hnot, happlied.trans hself.symm, ?_⟩
  · rw [hreturned]
    rintro ⟨⟩
  · rw [hself, ← filterMap_meaning hall]
    exact hlevels

section First

variable {s word : List Char} {before rest : List (List Char)}

/-- A word that is no setting, but says something without its empty parts, is applied. -/
theorem Sound.not_configures (h : Sound v) (hsplit : tokens sepwhite s = before ++ word :: rest)
    (hbefore : ∀ w ∈ before, (setting w).isSome) (hword : setting word = none)
    (hmeaning : (meaning word).isSome) : ¬Configures v s := by
  obtain ⟨-, happlied, -⟩ := h.setWords (tokens sepwhite s)
  intro hconf
  have hlong := happlied.symm.trans hconf.applied
  rw [hsplit, takeWhile_first hbefore (by rw [hword]; rfl),
    List.takeWhile_append_of_pos (meaning_isSome hbefore),
    List.takeWhile_cons_of_pos (p := fun word => (meaning word).isSome) hmeaning] at hlong
  have hlength := congrArg List.length hlong
  simp at hlength

/-- Else it ends the call with an error, if there is anything in it. -/
theorem Sound.configures_iff_of_first (h : Sound v)
    (hsplit : tokens sepwhite s = before ++ word :: rest)
    (hbefore : ∀ w ∈ before, (setting w).isSome) (hword : setting word = none)
    (hmeaning : meaning word = none) : Configures v s ↔ tokens sepcol word ≠ [] := by
  obtain ⟨-, happlied, hlevels, houtcome⟩ := h.setWords (tokens sepwhite s)
  have hsome := meaning_isSome hbefore
  have hfirst : (tokens sepwhite s).find? (fun word => (meaning word).isNone) = some word := by
    refine List.find?_eq_some_iff_append.mpr ⟨by simp [hmeaning], before, rest, hsplit, ?_⟩
    exact fun w hmem => by simpa using hsome w hmem
  have hstrict : (tokens sepwhite s).takeWhile (fun word => (setting word).isSome) = before := by
    rw [hsplit, takeWhile_first hbefore (by rw [hword]; rfl)]
  have hfront : (tokens sepwhite s).takeWhile (fun word => (meaning word).isSome) = before := by
    rw [hsplit, takeWhile_first hsome (by rw [hmeaning]; rfl)]
  rw [hfirst] at houtcome
  rw [hfront] at happlied hlevels
  constructor
  · exact fun hconf htokens => hconf.inside (houtcome.1 htokens)
  · intro htokens
    have herror : (v.setLevelsFromString s).outcome.IsError := houtcome.2 htokens
    refine ⟨fun hpast => ?_, fun hall => ?_, fun _ => herror, happlied.trans hstrict.symm, ?_⟩
    · rw [hpast] at herror
      exact herror
    · have hcontra := hall word (hsplit ▸ List.mem_append_right _ List.mem_cons_self)
      rw [hword] at hcontra
      cases hcontra
    · rw [hstrict, ← filterMap_meaning hbefore]
      exact hlevels

end First

/-- A string does what its words say just if it is orderly. -/
theorem Sound.configures_iff (h : Sound v) (s : List Char) : Configures v s ↔ Orderly s := by
  unfold Orderly
  cases hfind : (tokens sepwhite s).find? fun word => (setting word).isNone with
  | none =>
    refine iff_of_true (h.configures_of_all fun word hmem => ?_) fun word hword => ?_
    · have hnone := List.find?_eq_none.mp hfind word hmem
      simpa [Option.isSome_iff_ne_none] using hnone
    · cases hword
  | some word =>
    obtain ⟨hword, before, rest, hsplit, hbefore⟩ := List.find?_eq_some_iff_append.mp hfind
    have hword : setting word = none := by simpa using hword
    have hbefore : ∀ w ∈ before, (setting w).isSome := fun w hmem => by simpa using hbefore w hmem
    have horderly : (∀ w, some word = some w → tokens sepcol w ≠ [] ∧ meaning w = none) ↔
        tokens sepcol word ≠ [] ∧ meaning word = none := by simp
    refine Iff.trans ?_ horderly.symm
    cases hm : meaning word with
    | some st =>
      refine iff_of_false (h.not_configures hsplit hbefore hword (by rw [hm]; rfl)) fun hnot => ?_
      cases hnot.2
    | none =>
      rw [h.configures_iff_of_first hsplit hbefore hword hm]
      exact (and_iff_left rfl).symm

omit [DecidableEq P] in
theorem sound_init (memory : P → Level) : Sound (Vlog.init memory) := by
  refine (Sound.getModuleVal ?_ _ _).1
  exact ⟨⟨fun _ _ => by simp, fun _ => rfl⟩, List.nodup_nil, nofun, nofun⟩

theorem Sound.registerCache (h : Sound v) {module : Nat} {p : P}
    (hreg : v.registerCache module p = some v') : Sound v' := by
  unfold Vlog.registerCache at hreg
  split at hreg
  · next hfresh =>
    cases hreg
    refine ⟨⟨h.names, h.levels⟩, ?_, fun e he => ?_, fun e he => ?_⟩
    · change ((v.minLevelCaches ++ [(p, module)]).map (·.1)).Nodup
      rw [List.map_append]
      refine List.nodup_append.mpr ⟨h.nodup, List.nodup_singleton p, ?_⟩
      rintro a ha b hb rfl
      rw [List.mem_singleton.mp hb] at ha
      exact hfresh.1 ha
    · rcases List.mem_append.mp he with he | he
      · exact h.inside e he
      · rw [List.mem_singleton.mp he]
        exact hfresh.2
    · change Function.update v.cached p (v.minLoggableLevel module) e.1 = v.minLoggableLevel e.2
      rcases List.mem_append.mp he with he | he
      · have hne : e.1 ≠ p := fun heq => hfresh.1 (heq ▸ List.mem_map_of_mem he)
        rw [Function.update_of_ne hne]
        exact h.cached e he
      · rw [List.mem_singleton.mp he, Function.update_self]
  · cases hreg

theorem Sound.unregisterCache (h : Sound v) {p : P} (hunreg : v.unregisterCache p = some v') :
    Sound v' := by
  unfold Vlog.unregisterCache at hunreg
  split at hunreg
  · cases hunreg
    refine ⟨⟨h.names, h.levels⟩, ?_, fun e he => ?_, fun e he => ?_⟩
    · exact h.nodup.sublist (List.filter_sublist.map _)
    · exact h.inside e (List.mem_filter.mp he).1
    · exact h.cached e (List.mem_filter.mp he).1
  · cases hunreg

theorem Sound.step (h : Sound v) {op : VlogOp P} (hstep : v.step op = some v') : Sound v' := by
  cases op with
  | setLevels facility module level =>
    change (if _ then some _ else none) = some v' at hstep
    split at hstep
    · cases hstep
      exact h.setLevels facility module level
    · cases hstep
  | setLevelsFromString s =>
    change (if _ then none else some _) = some v' at hstep
    split at hstep
    · cases hstep
    · cases hstep
      exact (h.setWords _).1
  | getModuleVal name create =>
    cases hstep
    exact (h.getModuleVal name create).1
  | registerCache module p => exact h.registerCache hstep
  | unregisterCache p => exact h.unregisterCache hstep

theorem Sound.run (h : Sound v) {ops : List (VlogOp P)} (hrun : v.run ops = some v') :
    Sound v' := by
  induction ops generalizing v with
  | nil =>
    cases hrun
    exact h
  | cons op ops ih =>
    rw [Vlog.run, List.foldlM_cons] at hrun
    obtain ⟨v₁, hstep, hrest⟩ := Option.bind_eq_some_iff.mp hrun
    exact ih (h.step hstep) hrest

/-- After any calls every cache admits what the levels do, and a string then does what its words
say just if it is orderly. -/
theorem levels_configured (memory : P → Level) (ops : List (VlogOp P))
    (hrun : (Vlog.init memory).run ops = some v) :
    (∀ e ∈ v.minLevelCaches, ∀ level : Int, v.isEnabled e.1 level = v.isLoggable e.2 level) ∧
      ∀ s, Configures v s ↔ Orderly s :=
  have hsound := (sound_init memory).run hrun
  ⟨fun _ he => hsound.admits he, hsound.configures_iff⟩

/-- A module `ctl` is created and has its cache registered, and its level is set. -/
theorem ctl_configured : ∃ v : Vlog Nat,
    (Vlog.init fun _ => 0).run [.getModuleVal "ctl".toList true, .registerCache 1 7,
      .setLevelsFromString "ctl:console:dbg".toList] = some v ∧
    (∀ e ∈ v.minLevelCaches, ∀ level : Int, v.isEnabled e.1 level = v.isLoggable e.2 level) ∧
      ∀ s, Configures v s ↔ Orderly s :=
  ⟨_, rfl, levels_configured (fun _ => 0) [.getModuleVal "ctl".toList true, .registerCache 1 7,
    .setLevelsFromString "ctl:console:dbg".toList] rfl⟩

/-- Of a colon alone a token is read that there is not, and a colon too many is not seen. -/
theorem colons_misread : ¬Configures (Vlog.init fun _ : Nat => 0) ":".toList ∧
    ¬Configures (Vlog.init fun _ : Nat => 0) "ctl::console:dbg".toList := by
  refine ⟨fun h => h.inside rfl, fun h => ?_⟩
  have herror := h.malformed fun hall => by
    have hword := hall "ctl::console:dbg".toList List.mem_cons_self
    cases hword
  exact herror rfl

end Runs

end Nox.Logging
