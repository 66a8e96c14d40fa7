import DirectiveSchema.Session

/-!
What containers and other data have in common: whether a datum counts as true, and the elements
that it yields one after the other.
-/
namespace DirectiveSchema.Container

/-- Whether a datum counts as true: null, zero and whatever is empty do not. -/
def isTruthy : Value → Action Bool
  | .null => pure false
  | .bool b => pure b
  | .int n => pure (n != 0)
  | .float x => pure (!x.isZero)
  | .text s => pure (s != "")
  | .bytes bs => pure (!bs.isEmpty)
  | .tuple _ items => pure (!items.isEmpty)
  | .list r => return !((← get).list r).isEmpty
  | .set r => return !((← get).set r).isEmpty
  | .dict r => return !((← get).dict r).isEmpty
  | _ => pure true

def characters (s : String) : List Value := s.toList.map fun c => .text c.toString

/-- The elements of a datum in their order; a dictionary yields its keys. -/
def elements (v : Value) : Action (List Value) :=
  match v with
  | .list r => return (← get).list r
  | .set r => return ((← get).set r).map Member.value
  | .dict r => return ((← get).dict r).map Entry.key
  | .bytes bs => pure (bs.map fun b => .int b.toNat)
  | _ =>
    match v.row?, v.text? with
    | some items, _ => pure items
    | none, some s => pure (characters s)
    | none, none => throw (.notIterable v.className)

/-- The texts that data hold, of which the first has the given position. -/
def texts (position : Nat) : List Value → Action (List String)
  | [] => pure []
  | v :: vs =>
    match v.text? with
    | none => throw (.joinedNotText position v.className)
    | some s => return s :: (← texts (position + 1) vs)

/-- Texts with a blank between each and the next. -/
def spaced (words : List String) : String := " ".intercalate words

/-- The texts among the elements of a datum, joined by blanks. -/
def joined (v : Value) : Action String := do
  let items ← tryCatch (elements v) fun _ => throw .notJoinable
  return spaced (← texts 0 items)

/-- The texts of the data that count as true, joined by blanks. -/
def joinedTruthy (vs : List Value) : Action String := do
  return spaced (← texts 0 (← vs.filterM isTruthy))

end DirectiveSchema.Container
