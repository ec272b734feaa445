import BuildTargets.Json

/-!
# Records in Json

A record is an object with known names or an array of its fields in order. Members with other
names do not count; a known name may not be repeated. What a field makes of a member that is not
there is up to the record.
-/

namespace BuildTargets.Json.Value

def text? : Value → Option String
  | string (.text text) => some text
  | _ => none

def bool? : Value → Option Bool
  | bool value => some value
  | _ => none

/-- A whole number from `low` to `high`. -/
def integer? (low high : Int) : Value → Option Int
  | integer value => if low ≤ value ∧ value ≤ high then some value else none
  | _ => none

/-- A whole number of 64 bits without a sign. -/
def word? (value : Value) : Option Nat := (value.integer? 0 18446744073709551615).map Int.toNat

def list? {α : Type} (element? : Value → Option α) : Value → Option (List α)
  | array elements => elements.mapM element?
  | _ => none

/-- Nothing for `null`, otherwise something. -/
def nullable? {α : Type} (some? : Value → Option α) : Value → Option (Option α)
  | null => some none
  | value => (some? value).map some

/-- The members of an object, none of whose names is broken. -/
def members? : Value → Option (List (String × Value))
  | object members => members.mapM fun (name, value) =>
      match name with
      | .text name => some (name, value)
      | .broken _ => none
  | _ => none

/-- The fields of a record, which are there or not. An array holds at least `least` of them. -/
def fields? (names : List String) (least : Nat) (value : Value) : Option (List (Option Value)) :=
  match value with
  | array elements =>
    if least ≤ elements.length ∧ elements.length ≤ names.length then
      some ((List.range names.length).map fun position => elements[position]?)
    else none
  | _ =>
    match value.members? with
    | none => none
    | some members => names.mapM fun name =>
      match members.filter fun member => member.1 == name with
      | [] => some none
      | [member] => some (some member.2)
      | _ => none

/-- The name of one of several variants: a text, or an object whose one member is that name with
nothing in it. -/
def variant? (value : Value) : Option String :=
  match value with
  | object [(.text name, null)] => some name
  | _ => value.text?

end BuildTargets.Json.Value
