import Mathlib.Data.List.Infix
import Pilot.V33.Context

/-!
# Wire values

The JSON values of the messages and the decimals read from them.
-/

namespace Pilot.V1

open V33 (parseFloat)

/-- A JSON value. -/
inductive Json where
  | null
  | bool (b : Bool)
  | number (x : ℚ)
  | infinity
  | nan
  | text (s : String)
  | array (items : List Json)
  | object (fields : List (String × Json))

/-- The field of an object, null where it is absent. -/
def Json.field (v : Json) (key : String) : Json :=
  match v with
  | .object fields => ((fields.find? fun f => f.1 == key).map Prod.snd).getD .null
  | _ => .null

/-- The decimal a text of ASCII denotes: blanks around it and underscores in it are ignored. The
source also reads the other digits and blanks of Unicode, which no venue sends. -/
def decimalOfText (s : String) : Option ℚ :=
  let chars := (s.toList.dropWhile Char.isWhitespace).reverse.dropWhile Char.isWhitespace
  parseFloat (chars.reverse.filter fun c => c ≠ '_')

/-- A wire numeric as a decimal; what is no finite number gives nothing. -/
def toDecimal (v : Json) : Option ℚ :=
  match v with
  | .number x => some x
  | .text s => decimalOfText s
  | _ => none

/-- What a loop over the value yields, if it can be looped over. -/
def Json.iterate (v : Json) : Option (List Json) :=
  match v with
  | .array items => some items
  | .text s => some (s.toList.map fun c => .text (String.singleton c))
  | .object fields => some (fields.map fun f => .text f.1)
  | _ => none

/-- The value is the given text. -/
def Json.isText (v : Json) (s : String) : Bool :=
  match v with
  | .text t => t == s
  | _ => false

/-- What counts as true. -/
def Json.truthy (v : Json) : Bool :=
  match v with
  | .null => false
  | .bool b => b
  | .number x => x ≠ 0
  | .infinity | .nan => true
  | .text s => s ≠ ""
  | .array items => !items.isEmpty
  | .object fields => !fields.isEmpty

/-- The value can be a key: arrays and objects cannot. -/
def Json.hashable (v : Json) : Bool :=
  match v with
  | .array _ | .object _ => false
  | _ => true

/-- The text of a value that is a text. -/
def Json.text? (v : Json) : Option String :=
  match v with
  | .text s => some s
  | _ => none

/-- The text of a value that is a non-empty text. -/
def Json.name? (v : Json) : Option String := v.text?.filter (· ≠ "")

/-- The whole number written by digits, with single underscores between digits ignored. -/
def wholeOfDigits (digits : List Char) : Option ℤ :=
  if digits = [] ∨ digits.head? = some '_' ∨ digits.getLast? = some '_' ∨
      ['_', '_'] <:+: digits ∨ ¬digits.all fun c => c.isDigit || c = '_' then none
  else
    some ((digits.filter fun c => c ≠ '_').foldl
      (fun n c => 10 * n + ((c.toNat : ℤ) - '0'.toNat)) 0)

/-- The whole number a text denotes. -/
def wholeOfText (s : String) : Option ℤ :=
  let chars := (s.toList.dropWhile Char.isWhitespace).reverse.dropWhile Char.isWhitespace
  match chars.reverse with
  | '-' :: digits => (wholeOfDigits digits).map Neg.neg
  | '+' :: digits => wholeOfDigits digits
  | digits => wholeOfDigits digits

/-- A wire number as a whole number, with nothing for what is no number. An infinite one
raises. -/
def toInt (v : Json) : Option (Option ℤ) :=
  match v with
  | .infinity => none
  | .bool b => some (some (if b then 1 else 0))
  | .number x => some (some (truncInt x))
  | .text s => some (wholeOfText s)
  | _ => some none

end Pilot.V1
