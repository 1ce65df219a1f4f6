import TwoWayPeg.Json.Basic

/-!
# Records in JSON

A record is written as an object with its fields in order. It is read from an object in which no
field of the record is repeated and other fields do not matter, or from an array with exactly the
values of the fields.

A value that does not matter may be any form that is well made. Where a value is taken in before it
is known whether it matters, it must have a value in all its parts and not nest too deeply.
-/

namespace TwoWayPeg.Json

/-- The values of a field in the order in which they stand. -/
def valuesOf (name : String) (fields : List (String × Json)) : List Json :=
  fields.filterMap fun f => if f.1 = name then some f.2 else none

/-- The value of a field that is not repeated, with nothing in place of a missing one. -/
def single? (name : String) (fields : List (String × Json)) : Option (Option Json) :=
  match valuesOf name fields with
  | [] => some none
  | [j] => some (some j)
  | _ => none

/-- The values of the fields with given names. -/
def record? (names : List String) : Json → Option (List (Option Json))
  | .obj fields => names.mapM fun name => single? name fields
  | .arr items => if items.length = names.length then some (items.map some) else none
  | _ => none

/-- The values of fields none of which may be missing. -/
def fullRecord? (names : List String) (j : Json) : Option (List Json) :=
  (record? names j).bind fun values => values.mapM id

/-- How many arrays and objects may stand inside each other in a text whose values are taken in. -/
def maxNesting : Nat := 127

mutual

/-- Whether a value has a value in all its parts, and no more than `levels` arrays and objects
inside each other. -/
def fits (levels : Nat) : Json → Bool
  | .unvalued => false
  | .arr items => 0 < levels && itemsFit (levels - 1) items
  | .obj fields => 0 < levels && fieldsFit (levels - 1) fields
  | _ => true

/-- Whether all items fit. -/
def itemsFit (levels : Nat) : List Json → Bool
  | [] => true
  | item :: rest => fits levels item && itemsFit levels rest

/-- Whether the values of all fields fit. -/
def fieldsFit (levels : Nat) : List (String × Json) → Bool
  | [] => true
  | (_, value) :: rest => fits levels value && fieldsFit levels rest

end

/-- A number below a bound. -/
def naturalBelow? (bound : Nat) : Json → Option Nat
  | .natural n => if n < bound then some n else none
  | _ => none

/-- A text. -/
def text? : Json → Option String
  | .str s => some s
  | _ => none

/-- The items of an array. -/
def items? : Json → Option (List Json)
  | .arr items => some items
  | _ => none

/-- The fields of an object. -/
def fields? : Json → Option (List (String × Json))
  | .obj fields => some fields
  | _ => none

end TwoWayPeg.Json
