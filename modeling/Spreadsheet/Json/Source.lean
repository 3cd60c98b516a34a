import Spreadsheet.Json.Basic

/-!
# JSON as written

The structure of a JSON text before anything in it is interpreted: numbers are digits, members
stand in their order with repetitions, and a string that names half a surrogate pair is still
there. What is never interpreted is never refused for its meaning, and whoever reads a value
decides what repetitions mean.
-/

namespace Spreadsheet.Json

open Number

/-- The parts of a number. -/
structure Numeral where
  negative : Bool
  whole : List Char
  /-- The digits behind the point, if there is one. -/
  fraction : Option (List Char)
  /-- The sign and the digits of the power of ten, if there is one. -/
  power : Option (Bool × List Char)

/-- A JSON text by its structure. -/
inductive Source where
  | null
  | bool (b : Bool)
  | number (n : Numeral)
  /-- A string, absent when its escapes name no character. -/
  | text (s : Option String)
  | array (items : List Source)
  | object (members : List (Option String × Source))
deriving Inhabited

/-- The number of arrays and objects that may stand inside each other. -/
def maxLevels : Nat := 127

/-- Opens one more level, if one is left. -/
def openLevel? : Nat → Option Nat
  | 0 => none
  | room + 1 => some room

namespace Numeral

/-- Appends digits to a significand as long as it fits 64 bits, and says how many were used. -/
def gather (significand : Nat) : List Char → Nat × Nat
  | [] => (significand, 0)
  | c :: cs =>
    let next := 10 * significand + digitValue c
    if next < wordSize then
      let (s, used) := gather next cs
      (s, used + 1)
    else
      (significand, 0)

/-- A significand times a power of ten, rounded after each step: one product or quotient with a
power that a double holds, and before it as many quotients by `1e308` as it takes. A result that is
too large is none. -/
def scaled? (x : Float) (power : Int) : Option Float :=
  if power.natAbs ≤ 308 then
    let factor := Float.ofScientific 1 false power.natAbs
    if power < 0 then
      some (x / factor)
    else if (x * factor).isInf then
      none
    else
      some (x * factor)
  else if x == 0.0 then
    some x
  else if h : power < 0 then
    scaled? (x / 1e308) (power + 308)
  else
    none
termination_by power.natAbs
decreasing_by omega

/-- The power of ten of a numeral; one of more than 31 bits is beyond any double. -/
def exponent (n : Numeral) : Int :=
  match n.power with
  | none => 0
  | some (negative, digits) => if negative then -(digitsValue digits : Int) else digitsValue digits

/-- The number: an integer where the notation and 64 bits allow, a double otherwise. Digits that no
longer fit the significand count as zeros before the point and as nothing behind it. Minus zero is
a double, and a number too large for a double is none. -/
def toJson? (n : Numeral) : Option Json :=
  let (significand, used) := gather 0 n.whole
  let missing := n.whole.length - used
  if n.fraction.isNone && n.power.isNone && missing == 0
      && (!n.negative || (0 < significand && significand ≤ Nat.pow 2 63)) then
    some (.int (if n.negative then -significand else significand))
  else
    let (significand, places) := gather significand (n.fraction.getD [])
    let power := (missing : Int) - places + n.exponent
    (scaled? (Float.ofNat significand) power).map fun x => .float (withSign n.negative x)

end Numeral

namespace Source

mutual

/-- The value of a text when `room` more levels may be opened. -/
def toJson? (room : Nat) : Source → Option Json
  | .null => some .null
  | .bool b => some (.bool b)
  | .number n => n.toJson?
  | .text s => s.map .text
  | .array items =>
    match openLevel? room with
    | none => none
    | some room => (itemsToJson? room items).map .array
  | .object members =>
    match openLevel? room with
    | none => none
    | some room => (membersToJson? room members).map fun ms => .object (sortMembers ms)

def itemsToJson? (room : Nat) : List Source → Option (List Json)
  | [] => some []
  | x :: xs =>
    match toJson? room x with
    | none => none
    | some j => (itemsToJson? room xs).map (j :: ·)

def membersToJson? (room : Nat) : List (Option String × Source) → Option (List (String × Json))
  | [] => some []
  | (key, x) :: xs =>
    match key, toJson? room x with
    | some k, some j => (membersToJson? room xs).map ((k, j) :: ·)
    | _, _ => none

end

/-! ## Records and variants -/

/-- The fields of a record in the order of `names`: an array lists them, at most all, and an object
names them, none twice. Members of other names are not looked at. -/
def fields? (names : List String) : Source → Option (List (Option Source))
  | .array items =>
    if items.length ≤ names.length then
      some (names.zipIdx.map fun (_, i) => items[i]?)
    else
      none
  | .object members => do
    let members ← members.mapM fun (key, x) => key.map (·, x)
    if names.all fun name => members.countP (·.1 = name) ≤ 1 then
      some (names.map fun name => members.lookup name)
    else
      none
  | _ => none

/-- The tag of a variant with what belongs to it: a string is a tag alone, and an object of one
member is a tag with a value. -/
def variant? : Source → Option (String × Option Source)
  | .text (some tag) => some (tag, none)
  | .object [(some tag, x)] => some (tag, some x)
  | _ => none

/-- Whether nothing belongs to a tag; `null` is nothing. -/
def isUnit : Option Source → Bool
  | none | some .null => true
  | _ => false

def bool? : Source → Option Bool
  | .bool b => some b
  | _ => none

def text? : Source → Option String
  | .text s => s
  | _ => none

/-- An integer in a range. -/
def int? (least most : Int) : Source → Option Int
  | .number n =>
    match n.toJson? with
    | some (.int k) => if least ≤ k ∧ k ≤ most then some k else none
    | _ => none
  | _ => none

/-- A number as a double. -/
def float? : Source → Option Float
  | .number n =>
    match n.toJson? with
    | some (.int k) => some (Float.ofInt k)
    | some (.float x) => some x
    | _ => none
  | _ => none

end Source

end Spreadsheet.Json
