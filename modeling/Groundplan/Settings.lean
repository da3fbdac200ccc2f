import Groundplan.Plain
import Groundplan.Problem
import Groundplan.Text.Case
import Groundplan.Yaml.Document

/-!
# Settings

The settings of an engine, read from a mapping of plain data or from a file.

## Main definitions

- `Settings`, `Settings.standard`
- `Settings.ofPlain`: the settings that plain data tell
- `Settings.ofFile`: the settings that a file tells
-/

namespace Groundplan

/-- Settings of an engine. -/
structure Settings where
  /-- How many nodes may be evaluated at a time. -/
  maxWorkers : Nat
  /-- After so many failures no further nodes are started; zero means that there is no limit. -/
  maxErrors : Nat
  /-- The most instances of one template; zero means that there is no limit. -/
  maxInstances : Nat
  logLevel : String
deriving DecidableEq, Repr, Inhabited

namespace Settings

/-- The settings where none are given. -/
def standard : Settings := ⟨4, 0, 0, "INFO"⟩

/-- The levels of a log, from the most to the least talkative. -/
def logLevels : List String :=
  ["TRACE", "DEBUG", "INFO", "SUCCESS", "WARNING", "ERROR", "CRITICAL"]

/-- The names of all settings in ascending order. -/
def names : List String :=
  ["log_level", "max_errors", "max_instances", "max_workers"]

/-- Refuse settings. -/
private def refuseSettings {α : Type} (detail : String) (hints : List String) : Outcome α :=
  fail (.configuration detail hints) none

/-- A setting that must be a whole number and not negative. -/
private def countSetting (entries : List (Plain × Plain)) (name : String) (default : Nat) :
    Outcome Nat :=
  let given := entries.findRev? fun entry => entry.1.coincide (.text name)
  match given.map Prod.snd with
  | none => .ok default
  | some value =>
    let refused : Outcome Nat :=
      refuseSettings ("'" ++ name ++ "' must be a non-negative integer, got " ++ value.shown) []
    match value with
    | .integer i => if 0 ≤ i then .ok i.toNat else refused
    | _ => refused

/-- The level of the log. -/
private def levelSetting (entries : List (Plain × Plain)) : Outcome String :=
  let given := entries.findRev? fun entry => entry.1.coincide (.text "log_level")
  match given.map Prod.snd with
  | none => .ok standard.logLevel
  | some value =>
    let refused : Outcome String :=
      refuseSettings ("'log_level' must be one of " ++ ", ".intercalate logLevels ++ ", got "
        ++ value.shown) []
    match value with
    | .text s => if logLevels.contains (Text.upper s) then .ok (Text.upper s) else refused
    | _ => refused

/-- Whether a key comes before another one or coincides with it: numbers by their value, other keys
by their text. -/
private def keyAtMost (a b : Plain) : Bool :=
  match a.numeric?, b.numeric? with
  | some m, some n => !n.less m
  | _, _ => decide (a.display ≤ b.display)

/-- The keys that name no setting, in ascending order. -/
private def unknownKeys (entries : List (Plain × Plain)) : List String :=
  let unknown := (entries.map Prod.fst).filter fun key =>
    !names.any fun name => key.coincide (.text name)
  (Sorting.sortBy keyAtMost unknown).map Plain.display

/-- The settings that a mapping tells; those that it leaves out are standard. -/
def ofEntries (entries : List (Plain × Plain)) : Outcome Settings := do
  match unknownKeys entries with
  | key :: _ =>
    refuseSettings ("unknown configuration key '" ++ key ++ "'")
      ["valid keys: " ++ ", ".intercalate names]
  | [] =>
    let maxWorkers ← countSetting entries "max_workers" standard.maxWorkers
    let maxErrors ← countSetting entries "max_errors" standard.maxErrors
    let maxInstances ← countSetting entries "max_instances" standard.maxInstances
    if maxWorkers < 1 then refuseSettings "'max_workers' must be at least 1" []
    let logLevel ← levelSetting entries
    return ⟨maxWorkers, maxErrors, maxInstances, logLevel⟩

/-- The settings that plain data tell. -/
def ofPlain (data : Plain) : Outcome Settings :=
  match data with
  | .dictionary entries => ofEntries entries
  | data =>
    refuseSettings ("engine configuration must be a mapping, got " ++ data.typeName) []

/-! ## Files -/

/-- Whether data tell nothing. -/
private def tellsNothing : Plain → Bool
  | .null | .bool false | .text "" | .list [] | .dictionary [] => true
  | .integer i => i == 0
  | .double x => (x.asDecimal?.map Decimal.isZero).getD false
  | _ => false

/-- The part of a document that holds the settings: the mapping under the key `engine`, if there is
one, and else the whole document.  A document that tells nothing is an empty mapping. -/
def engineSection (document : Plain) : Plain :=
  let document := if tellsNothing document then .dictionary [] else document
  match document with
  | .dictionary entries =>
    match (entries.find? fun entry => entry.1.coincide (.text "engine")).map Prod.snd with
    | some (.dictionary inner) => .dictionary inner
    | _ => document
  | _ => document

/-- The settings that a file with a name tells by its text; there is no text if there is no such
file. -/
def ofFile (name : String) (text : Option String) : Outcome Settings :=
  match text with
  | none => refuseSettings ("configuration file not found: " ++ name) []
  | some text =>
    match Yaml.read? text with
    | none => refuseSettings ("invalid YAML in " ++ name ++ ": ") []
    | some document => ofPlain (engineSection document)

end Settings

end Groundplan
