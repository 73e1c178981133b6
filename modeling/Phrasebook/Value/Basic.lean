import Phrasebook.Members
import Phrasebook.Number.Double

/-!
# Values

The structured values that arguments spell and handlers return (`Value`). The members of an object
keep the order in which their names first appeared, and a name that is given again takes the later
value: `Value.ofMembers` builds an object from the members as they were written.
-/

namespace Phrasebook

/-- A structured value. Whole numbers and doubles are different values, also when equal. -/
inductive Value where
  | null
  | bool (b : Bool)
  | int (n : Int)
  | float (x : Number.Double)
  | string (text : String)
  | array (items : List Value)
  | object (members : List (String × Value))

namespace Value

instance : Inhabited Value := ⟨.null⟩

/-- The object with the given members, of which later ones replace earlier ones of the same name. -/
def ofMembers (written : List (String × Value)) : Value :=
  .object (Members.collect written)

end Value

end Phrasebook
