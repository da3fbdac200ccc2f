import Groundplan.Library.Conversions
import Groundplan.Library.Format
import Groundplan.Library.Networks
import Groundplan.Library.Numeric
import Groundplan.Library.Texts

/-!
# The standard library of functions

## Main definitions

- `Library.standard`: the functions that expressions may call
-/

namespace Groundplan

/-- The functions that expressions may call, apart from those that absorb errors. -/
def Library.standard : Library :=
  collectionFunctions ++ numericFunctions ++ textFunctions ++ [formatFunction]
    ++ conversionFunctions ++ networkFunctions

end Groundplan
