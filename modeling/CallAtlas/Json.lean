/-!
# JSON values

Reports are written as JSON and configurations may be read from it. A number written without a
fraction or an exponent is an integer as long as it fits into a word; every other number is a
float.
-/

namespace CallAtlas

/-- A value of the data format. -/
inductive Json where
  | null
  | bool (value : Bool)
  | int (value : Int)
  | float (value : Float)
  | str (value : String)
  | arr (items : List Json)
  /-- The fields of an object; their order is that of the writer. -/
  | obj (fields : List (String × Json))
  deriving Inhabited

namespace Json

/-- The largest integer of the format, the largest word of 64 bits. -/
def maxInt : Nat := 18446744073709551615

/-- The magnitude of the smallest integer of the format, a word of 64 bits with a sign. -/
def minIntMagnitude : Nat := 9223372036854775808

/-- The value of a field of an object. -/
def field? : Json → String → Option Json
  | obj fields, name => fields.lookup name
  | _, _ => none

end Json

end CallAtlas
