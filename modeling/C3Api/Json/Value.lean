import Mathlib.Data.Rat.Cast.Defs

/-!
# JSON values

A value keeps the members of its objects in order and with their repetitions, so
that a reader which takes the last of several members of a name (a map) and one which takes
the first (a scanner) both have their meaning.
-/

namespace C3Api

inductive Json where
  | null
  | bool (value : Bool)
  | num (value : ℚ)
  | str (text : String)
  | arr (items : List Json)
  | obj (members : List (String × Json))

namespace Json

abbrev Obj := List (String × Json)

/-- The member a map holds: the last one of its name. -/
def last (members : Obj) (key : String) : Option Json := members.reverse.lookup key

/-- The member a scan finds: the first one of its name. -/
def first (members : Obj) (key : String) : Option Json := members.lookup key

def str? : Json → Option String
  | str text => some text
  | _ => none

def arr? : Json → Option (List Json)
  | arr items => some items
  | _ => none

def obj? : Json → Option Obj
  | obj members => some members
  | _ => none

def num? : Json → Option ℚ
  | num value => some value
  | _ => none

def int (n : Int) : Json := num n

def int? : Json → Option Int
  | num value => if value.den = 1 then some value.num else none
  | _ => none

@[simp] theorem int?_int (n : Int) : (int n).int? = some n := by
  simp [int, int?]

end Json

end C3Api
