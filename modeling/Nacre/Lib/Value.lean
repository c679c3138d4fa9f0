/-
Values as a JavaScript runtime holds them: what `JSON.parse` gives, with
the numbers it can overflow to, and the ones only a program makes.

`typeof` and the lookup of a property are readers into options: a property
that is not there, or not of the type asked for, is none.
-/
import Nacre.Lib.Json
import Nacre.Lib.Number

inductive Value where
  | null
  | bool (b : Bool)
  | number (n : Number)
  | string (s : List UInt16)
  | array (items : List Value)
  | object (fields : List (List UInt16 × Value))

namespace Value

/-- `typeof v === 'string'`. -/
def string? : Option Value → Option (List UInt16)
  | some (.string s) => some s
  | _ => none

def number? : Option Value → Option Number
  | some (.number n) => some n
  | _ => none

def bool? : Option Value → Option Bool
  | some (.bool b) => some b
  | _ => none

/-- `Array.isArray(v)`. -/
def array? : Option Value → Option (List Value)
  | some (.array items) => some items
  | _ => none

/-- A property of what is an object and not null; an array is one, and has
none but its items and its length. -/
def field (v : Value) (key : String) : Option Value :=
  match v with
  | .object fields => fields.lookup (Json.units key)
  | _ => none

/-- `v !== null && typeof v === 'object'`. -/
def isObject : Value → Bool
  | .array _ | .object _ => true
  | _ => false

def isArray : Value → Bool
  | .array _ => true
  | _ => false

end Value
