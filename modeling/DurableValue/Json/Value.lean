/-
  DurableValue.Json.Value — JSON values.

  Whole numbers from -2^63 up to 2^64 - 1 are exact; every other number is a binary64. The members of an object are in
  the order of their keys, each key once; `insert` keeps them so.
-/
import DurableValue.Decimal.Binary64

namespace DurableValue.Json

inductive Value where
  | null
  | bool (b : Bool)
  | int (n : Int)
  | float (x : Decimal.Binary64)
  | string (s : String)
  | array (items : List Value)
  | object (members : List (String × Value))
  deriving Repr, Inhabited

namespace Value

mutual

/-- Equality as programs see it: a whole number differs from a float, and the two zeros are equal. -/
def same : Value → Value → Bool
  | null, null => true
  | bool a, bool b => a == b
  | int a, int b => a == b
  | float a, float b => a.eq b
  | string a, string b => a == b
  | array a, array b => sameItems a b
  | object a, object b => sameMembers a b
  | _, _ => false

def sameItems : List Value → List Value → Bool
  | [], [] => true
  | a :: as, b :: bs => same a b && sameItems as bs
  | _, _ => false

def sameMembers : List (String × Value) → List (String × Value) → Bool
  | [], [] => true
  | (k, a) :: as, (l, b) :: bs => k == l && same a b && sameMembers as bs
  | _, _ => false

end

/-- Puts a member in its place; an old one of the same key gives way. -/
def insert {α : Type} (key : String) (v : α) : List (String × α) → List (String × α)
  | [] => [(key, v)]
  | (k, w) :: rest =>
    if key < k then (key, v) :: (k, w) :: rest
    else if key = k then (key, v) :: rest
    else (k, w) :: insert key v rest

end Value

end DurableValue.Json
