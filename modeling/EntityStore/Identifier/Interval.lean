import EntityStore.Identifier.Schema
/-!
# Intervals of identifiers

An interval pins the leading fields of an identifier to one value each, may bound the next field from one or both
sides, and leaves the rest free.  `Interval.ofBounds` takes the two ends field by field and accepts exactly the
pairs of that form, because only then the identifiers between form one contiguous run in canonical order.
-/
namespace EntityStore

variable {X : Scalars}

/-- What an interval asks of one field. -/
inductive Bound (X : Scalars) where
  | equal (v : Value X)
  /-- Bounded from at least one side. -/
  | within (lower upper : Option (Value X))
  | free
deriving DecidableEq

/-- Why two ends span no interval. -/
inductive IntervalFault where
  | width (schema : String) (fields lower upper : Nat)
  | crossed
  | scattered

def IntervalFault.toError : IntervalFault → Error
  | .width schema fields lower upper =>
    .invalidArgument s!"{schema} has {fields} id fields, got bounds of {lower} and {upper}"
  | .crossed => .invalidRange "min must be less or equal to max"
  | .scattered =>
    .invalidRange "Fields of min and max must be filled in specific order: (equal)*(different)?(null)*"

namespace Bound

/-- The bound of a field from its two ends. -/
def ofEnds : Option (Value X) → Option (Value X) → Except IntervalFault (Bound X)
  | none, none => .ok .free
  | none, some b => .ok (.within none (some b))
  | some a, none => .ok (.within (some a) none)
  | some a, some b =>
    match a.compare b with
    | .lt => .ok (.within (some a) (some b))
    | .eq => .ok (.equal a)
    | .gt => .error .crossed

def isEqual : Bound X → Bool
  | .equal _ => true
  | _ => false

def isFree : Bound X → Bool
  | .free => true
  | _ => false

/-- Whether a filled cell satisfies the bound. -/
def admits : Bound X → Value X → Bool
  | .equal v, c => c = v
  | .within lower upper, c =>
    lower.all (fun v => v.compare c ≠ .gt) && upper.all (fun v => c.compare v ≠ .gt)
  | .free, _ => true

def equal? : Bound X → Option (Value X)
  | .equal v => some v
  | _ => none

def lower? : Bound X → Option (Value X)
  | .within lower _ => lower
  | _ => none

def upper? : Bound X → Option (Value X)
  | .within _ upper => upper
  | _ => none

/-- The bounds of all fields, or the first fault. -/
def ofRows : Cells X → Cells X → Except IntervalFault (List (Bound X))
  | a :: as, b :: bs =>
    match ofEnds a b with
    | .error fault => .error fault
    | .ok bound =>
      match ofRows as bs with
      | .error fault => .error fault
      | .ok bounds => .ok (bound :: bounds)
  | _, _ => .ok []

/-- Pinned fields first, then at most one bounded field, then free ones. -/
def isContiguous (bounds : List (Bound X)) : Bool := ((bounds.dropWhile isEqual).drop 1).all isFree

end Bound

/-- A contiguous run of identifiers. -/
structure Interval (X : Scalars) where
  schema : Schema
  /-- One bound for each field. -/
  bounds : List (Bound X)

namespace Interval

/-- The interval between two flattened ends, both included. -/
def ofBounds (schema : Schema) (lower upper : Cells X) : Except Error (Interval X) :=
  if lower.length ≠ schema.width ∨ upper.length ≠ schema.width then
    .error (IntervalFault.width schema.simpleName schema.width lower.length upper.length).toError
  else
    match Bound.ofRows lower upper with
    | .error fault => .error fault.toError
    | .ok bounds =>
      if Bound.isContiguous bounds then .ok { schema, bounds } else .error IntervalFault.scattered.toError

/-- The identifiers that agree with the filled cells of one row. -/
def ofCells (schema : Schema) (cells : Cells X) : Except Error (Interval X) := ofBounds schema cells cells

/-- Whether a complete row lies in the interval. -/
def containsCells (r : Interval X) (cells : Cells X) : Except Error Bool :=
  if cells.length ≠ r.schema.width ∨ Cells.isPartial cells then
    .error (.invalidArgument "Id fields cannot be null")
  else .ok ((r.bounds.zip cells).all fun p => p.2.all p.1.admits)

/-- The values that a reading of bounds picks, with the names of their fields. -/
def named (r : Interval X) (pick : Bound X → Option (Value X)) : List (String × Value X) :=
  (r.schema.fieldNames.zip r.bounds).filterMap fun p => (pick p.2).map (fun v => (p.1, v))

/-- The pinned fields. -/
def pinned (r : Interval X) : List (String × Value X) := r.named Bound.equal?

/-- The fields bounded from below. -/
def lower (r : Interval X) : List (String × Value X) := r.named Bound.lower?

/-- The fields bounded from above. -/
def upper (r : Interval X) : List (String × Value X) := r.named Bound.upper?

def text (r : Interval X) : String :=
  let parts := r.pinned.map (fun p => p.1 ++ "=" ++ p.2.text) ++
    r.lower.map (fun p => p.1 ++ ">=" ++ p.2.text) ++ r.upper.map (fun p => p.1 ++ "<=" ++ p.2.text)
  s!"Range({r.schema.simpleName}: " ++ ", ".intercalate parts ++ ")"

end Interval

end EntityStore
