import DirectiveSchema.Equality

/-!
Sets and dictionaries are searched by hash keys. Numbers hash by value, a location like its tag,
rows by their elements, wrappers by kind and type, arguments by name and type, directives by name
and locations, other objects by identity; lists, sets and dictionaries do not hash. An element is
found when a kept key equals its own and the element kept there is the same datum or an equal one.
-/
namespace DirectiveSchema

namespace HashKey

/-- The key of a datum of at most the given depth. -/
def ofWithin (supply : Supplier) : Nat → Value → Action HashKey
  | 0, _ => throw .endless
  | n + 1, v =>
    let key := ofWithin supply n
    match v with
    | .null => pure .null
    | .unnamed => pure .unnamed
    | .bool b => pure (.integer b.toInt)
    | .int i => pure (.integer i)
    | .float x => pure (float x)
    | .text s => pure (.text s)
    | .location l => pure (.text l.tag)
    | .bytes bs => pure (.bytes bs)
    | .foreign tag _ => pure (.tagged tag)
    | .deferred d => pure (.tagged d.tag)
    | .named r => pure (.object .named r.index)
    | .scalar r => pure (.object .scalar r.index)
    | .tuple _ items => return row (← items.mapM key)
    | .config _ name locations args description =>
      return row (← [name, locations, args, description].mapM key)
    | .wrapper w r => do
      let t ← key (← Types.wrapped supply w r)
      return row [.wrapper w, t]
    | .argument r => do
      let name ← Arguments.name r
      let t ← Arguments.type supply r
      let name ← key name
      return row [name, ← key t]
    | .directive r => do
      let d := (← get).directive r
      let name ← key d.name
      return row [name, ← key d.locations.value]
    | .list _ | .set _ | .dict _ => throw (.unhashable v.className)

def of (supply : Supplier) (v : Value) : Action HashKey :=
  Action.boundedPairs v.depth fun n => ofWithin supply n v

end HashKey

namespace Container

/-- Adds an element unless the collection holds it. -/
def addMember (supply : Supplier) (members : List Member) (v : Value) : Action (List Member) := do
  let m : Member := ⟨← HashKey.of supply v, v⟩
  if ← Equality.holds (Equality.equal supply) m members then return members
  return members ++ [m]

/-- The elements without repetitions, in order of their first appearance. -/
def distinct (supply : Supplier) (items : List Value) : Action (List Member) :=
  items.foldlM (addMember supply) []

/-- Puts an entry. A repeated key keeps its first place and takes the last value. -/
def put (supply : Supplier) (e : Entry) : List Entry → Action (List Entry)
  | [] => pure [e]
  | e' :: rest => do
    if ← Equality.hit (Equality.equal supply) e'.hash e'.key e.hash e.key then
      return { e' with value := e.value } :: rest
    return e' :: (← put supply e rest)

/-- Assigns a value to a key. -/
def assign (supply : Supplier) (entries : List Entry) (k v : Value) : Action (List Entry) := do
  put supply ⟨← HashKey.of supply k, k, v⟩ entries

/-- The entries of a dictionary that is given by assignments in order. -/
def dictionary (supply : Supplier) (pairs : List (Value × Value)) : Action (List Entry) :=
  pairs.foldlM (fun entries p => assign supply entries p.1 p.2) []

/-- The value under a key of a dictionary. -/
def valueAt? (supply : Supplier) (entries : List Entry) (k : Value) : Action (Option Value) := do
  let hash ← HashKey.of supply k
  Equality.lookup? (Equality.equal supply) hash k entries

end Container

end DirectiveSchema
