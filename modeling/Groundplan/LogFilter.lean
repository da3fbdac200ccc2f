import Groundplan.Table
import Groundplan.Text.Case
import Groundplan.Text.Search

/-!
# Log filters

A log filter tells from which level on messages are logged.  It is written as a list of parts
between commas: a part without an equals sign is the level of all modules, a part
`module=level` is the level of one module, and the level `false` silences a module.

## Main definitions

- `LogFilter`, `ModuleLevel`
- `LogFilter.read`: the filter that a text writes
-/

namespace Groundplan

/-- What is logged of one module. -/
inductive ModuleLevel where
  | silent
  | atLeast (level : String)
deriving DecidableEq, Repr, Inhabited

/-- A log filter. -/
structure LogFilter where
  /-- The level of all modules that have none of their own, in lower case. -/
  level : String
  /-- The levels of modules; the empty name stands for all that have none of their own. -/
  modules : Table String ModuleLevel
deriving DecidableEq, Repr, Inhabited

namespace LogFilter

/-- One part of a written filter. -/
inductive Part where
  | overall (level : String)
  | single (name : String) (level : ModuleLevel)
deriving DecidableEq, Repr

/-- The part that a text writes; the name ends at the first equals sign. -/
def Part.ofText (text : String) : Part :=
  match Text.cut? ['='] text.toList with
  | none => .overall text
  | some (name, level) =>
    let level := Text.strip (String.ofList level)
    .single (Text.strip (String.ofList name))
      (if level = "false" then .silent else .atLeast (Text.upper level))

/-- The parts of a written filter, without blanks around them; empty parts do not count. -/
def parts (text : String) : List Part :=
  (((Text.splitOn "," text).map Text.strip).filter fun part => !part.isEmpty).map Part.ofText

/-- A filter that one more part has been added to. -/
def add (filter : LogFilter) : Part → LogFilter
  | .overall level => { filter with level := level }
  | .single name level => { filter with modules := Table.put filter.modules name level }

/-- The filter in which modules without a level of their own have the overall one. -/
def completed (filter : LogFilter) : LogFilter :=
  if Table.has filter.modules "" then filter
  else { filter with modules := Table.put filter.modules "" (.atLeast (Text.upper filter.level)) }

/-- The overall level where a caller names none. -/
def standardLevel : String := "info"

/-- The filter that a text writes, in upper or lower case.  A filter that is not given is the
default level, which also holds where the text names no overall level. -/
def read (given : Option String) (default : String) : LogFilter :=
  ((parts (Text.lower (given.getD default))).foldl add ⟨Text.lower default, []⟩).completed

end LogFilter

end Groundplan
