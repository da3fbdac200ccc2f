import Groundplan.Library.Collection

/-!
# Functions that convert

## Main definitions

- `Library.conversionFunctions`: conversions between kinds, and JSON text, with their signatures
-/

namespace Groundplan

namespace Library

/-- A function of one value of any kind, which may be null. -/
def conversionFunction (name : String) (policy : UnknownPolicy) (run : Value → Outcome Value) :
    Function :=
  ⟨plainSignature name [(Param.any "value").orNull] policy,
    fun
    | [v] => run v
    | _ => unsuited name⟩

/-- All functions that convert. -/
def conversionFunctions : List Function := [
  conversionFunction "tostring" .shallow Value.toStringValue,
  conversionFunction "tonumber" .shallow Value.toNumberValue,
  conversionFunction "tobool" .shallow Value.toBoolValue,
  conversionFunction "tolist" .shallow Value.toListValue,
  conversionFunction "toset" .shallow Value.toSetValue,
  conversionFunction "tomap" .shallow Value.toMapValue,
  conversionFunction "jsonencode" .deep fun v => (ofArithmetic v.toJson).map .string]

end Library

end Groundplan
