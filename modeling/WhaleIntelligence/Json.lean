import WhaleIntelligence.Lib.FixedPoint

/- JSON values, as `serde_json` reads them and `jsonb` stores them.

   The keys of an object are distinct in either. A number is an integer of the range
   of `i64` and `u64`, or else a floating-point number. -/
namespace WhaleIntelligence
open FixedPoint

inductive JsonNumber
  | int (n : Int)
  | float (q : Rat)
  deriving DecidableEq, Repr

inductive Json
  | null
  | bool (b : Bool)
  | number (n : JsonNumber)
  | string (s : String)
  | array (items : List Json)
  | object (members : List (String × Json))

/-- `n as f64`: the nearest number of 53 binary digits. -/
def f64OfInt (n : Int) : Rat :=
  if n.natAbs < 2 ^ 53 then n
  else roundHalfEven n (2 ^ (n.natAbs.log2 - 52)) * 2 ^ (n.natAbs.log2 - 52)

namespace Json

/-- `jsonb_typeof(v) = 'object'`. -/
def isObject : Json → Bool
  | .object _ => true
  | _ => false

/-- `jsonb_each`. -/
def each : Json → List (String × Json)
  | .object members => members
  | _ => []

/-! ## `serde_json::Value` -/

/-- `get` with a key. -/
def get : Json → String → Option Json
  | .object members, key => members.lookup key
  | _, _ => none

def asStr : Json → Option String
  | .string s => some s
  | _ => none

def asArray : Json → Option (List Json)
  | .array items => some items
  | _ => none

def asObject : Json → Option (List (String × Json))
  | .object members => some members
  | _ => none

def asU64 : Json → Option Nat
  | .number (.int n) => if 0 ≤ n ∧ n < 2 ^ 64 then some n.toNat else none
  | _ => none

def asI64 : Json → Option Int
  | .number (.int n) => if -2 ^ 63 ≤ n ∧ n < 2 ^ 63 then some n else none
  | _ => none

def asF64 : Json → Option Rat
  | .number (.int n) => some (f64OfInt n)
  | .number (.float q) => some q
  | _ => none

/-- `v.get(key).and_then(|v| v.as_str())`. -/
def strAt (v : Json) (key : String) : Option String := (v.get key).bind asStr

/-- `v.get(key).and_then(|v| v.as_array())`. -/
def arrayAt (v : Json) (key : String) : Option (List Json) := (v.get key).bind asArray

end Json

end WhaleIntelligence
