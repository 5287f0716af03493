import ReversePolish.Value.Basic
/-!
# Equality and order of values

Two values are comparable if they are of one kind, both numeric or both strings. Strings are ordered
lexicographically by code points, integers exactly whatever their representation, and as soon as a
float takes part the floats decide: equality is then approximate, the order is not.
-/

namespace ReversePolish.Value

/-- Whether two values are equal (`Value.eq`). Null equals null alone, and errors are equal if their
codes are. -/
def equal (a b : Value) : Bool :=
  match a, b with
  | .null, .null => true
  | .error x, .error y => x == y
  | .string s, .string t => s == t
  | a, b =>
    match a.number?, b.number? with
    | some x, some y => x.equal y
    | _, _ => false

/-- Whether two values are both numeric or both strings (`Value.comparable`). -/
def sameKind (a b : Value) : Bool :=
  (a.isNumeric && b.isNumeric) || (a.isString && b.isString)

/-- The order of two values, if they have one (`Value.ordering`). -/
def order? (a b : Value) : Option Ordering :=
  match a, b with
  | .string s, .string t => some (Ord.compare s t)
  | a, b =>
    match a.number?, b.number? with
    | some x, some y => x.order? y
    | _, _ => none

def lt (a b : Value) : Bool := a.order? b == some .lt

def gt (a b : Value) : Bool := a.order? b == some .gt

/-- Whether `a` is below `b`, or equal to it and of the same kind. -/
def le (a b : Value) : Bool := a.lt b || (a.sameKind b && a.equal b)

/-- Whether `a` is above `b`, or equal to it and of the same kind. -/
def ge (a b : Value) : Bool := a.gt b || (a.sameKind b && a.equal b)

/-- The three-way comparison. Errors, nulls, values of different kinds and what is not a number
have no order, and the failure says which of these it was. -/
def compare (a b : Value) : Except ValueError Ordering :=
  match a, b with
  | .error code, _ | _, .error code => .error code
  | .null, _ | _, .null => .error .isNull
  | a, b =>
    match a.order? b with
    | some o => .ok o
    | none => if a.sameKind b then .error .ieee754 else .error .typeMismatch

/-- The number that stands for an outcome of a comparison. -/
def ofOrdering : Ordering → Value
  | .lt => .integer (-1)
  | .eq => .integer 0
  | .gt => .integer 1

/-- The three-way comparison as a value (`operators.sign`). -/
def comparison (a b : Value) : Value := ofExcept ofOrdering (a.compare b)

/-- On which side of the range from `lower` to `upper` the value `v` lies, zero if it is inside (the
result of `operators.cmp3`). The lower bound is looked at first. -/
def position (v lower upper : Value) : Value :=
  match v.compare lower, v.compare upper with
  | .error code, _ | _, .error code => .error code
  | .ok .lt, _ => .integer (-1)
  | _, .ok .gt => .integer 1
  | _, _ => .integer 0

end ReversePolish.Value
