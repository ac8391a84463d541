import DialectBridge.Number.Digits
import DialectBridge.Number.Shortest
import DialectBridge.Text.Quoted

/-!
# JSON values

Integers are exact and stay apart from numbers with a fraction or an exponent. The members of an
object keep their order; a member that is given twice has the later value at the earlier place.
`Json.display` is the form in which messages show a value, and `Json.obstacle?` says what keeps them
from it: an integer with too many digits is not written, and neither is a value inside too many
others.
-/

set_option autoImplicit false

namespace DialectBridge

/-- A JSON value. -/
inductive Json where
  | null
  | bool (value : Bool)
  | int (value : Int)
  | float (value : Binary64)
  | str (value : String)
  | arr (items : List Json)
  | obj (members : List (String × Json))
  deriving Repr

namespace Json

/-- The member of an object with the given name. -/
def get? (members : List (String × Json)) (key : String) : Option Json :=
  (members.find? fun member => member.1 == key).map (·.2)

/-- The members after setting one: a new name goes to the end, a known one keeps its place. -/
def put (members : List (String × Json)) (key : String) (value : Json) : List (String × Json) :=
  match members with
  | [] => [(key, value)]
  | member :: rest =>
    if member.1 == key then (key, value) :: rest else member :: put rest key value

/-- The kind of a value, in the words of messages. -/
def kindName : Json → String
  | .null => "NoneType"
  | .bool _ => "bool"
  | .int _ => "int"
  | .float _ => "float"
  | .str _ => "str"
  | .arr _ => "list"
  | .obj _ => "dict"

mutual

/-- A value as messages show it. -/
def display : Json → String
  | .null => "None"
  | .bool true => "True"
  | .bool false => "False"
  | .int value => toString value
  | .float value => value.display
  | .str value => Quoted.display value
  | .arr items => "[" ++ displayItems items ++ "]"
  | .obj members => "\x7b" ++ displayMembers members ++ "\x7d"

/-- The items of a list, with commas between them. -/
def displayItems : List Json → String
  | [] => ""
  | [item] => item.display
  | item :: rest => item.display ++ ", " ++ displayItems rest

/-- The members of an object, with commas between them. -/
def displayMembers : List (String × Json) → String
  | [] => ""
  | [(key, value)] => Quoted.display key ++ ": " ++ value.display
  | (key, value) :: rest =>
    Quoted.display key ++ ": " ++ value.display ++ ", " ++ displayMembers rest

end

/-- What keeps a value from being shown. -/
inductive Obstacle where
  /-- An integer in it has more digits than are written. -/
  | integerTooLong
  /-- A value in it is inside too many others. -/
  | tooDeep
  deriving DecidableEq, Repr

/-- How many values may be open at once while a value is shown. This is more than a text that is
read can have in it. -/
def showingLimit : Nat := 990

mutual

/-- What keeps a value from being shown, where `room` values may be open at once: the first obstacle
on the way through the value. -/
def obstacle? (room : Nat) (value : Json) : Option Obstacle :=
  match room, value with
  | 0, _ => some .tooDeep
  | _ + 1, .int value => if Digits.areFew value then none else some .integerTooLong
  | room + 1, .arr items => obstacleInItems? room items
  | room + 1, .obj members => obstacleInMembers? room members
  | _ + 1, .null | _ + 1, .bool _ | _ + 1, .float _ | _ + 1, .str _ => none

/-- What keeps the items of a list from being shown. -/
def obstacleInItems? (room : Nat) (items : List Json) : Option Obstacle :=
  match items with
  | [] => none
  | item :: rest => (obstacle? room item).or (obstacleInItems? room rest)

/-- What keeps the members of an object from being shown. -/
def obstacleInMembers? (room : Nat) (members : List (String × Json)) : Option Obstacle :=
  match members with
  | [] => none
  | (_, value) :: rest => (obstacle? room value).or (obstacleInMembers? room rest)

end

end Json

end DialectBridge
