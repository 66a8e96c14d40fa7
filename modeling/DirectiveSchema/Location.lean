/-!
The places of an executable document where a directive may stand. The set is closed: seven
locations, each with its tag.
-/
namespace DirectiveSchema

inductive Location where
  | query
  | mutation
  | subscription
  | field
  | fragmentDefinition
  | fragmentSpread
  | inlineFragment
deriving DecidableEq, Inhabited, Repr

namespace Location

/-- The locations in the order of their definition. -/
def all : List Location :=
  [query, mutation, subscription, field, fragmentDefinition, fragmentSpread, inlineFragment]

def tag : Location → String
  | query => "QUERY"
  | mutation => "MUTATION"
  | subscription => "SUBSCRIPTION"
  | field => "FIELD"
  | fragmentDefinition => "FRAGMENT_DEFINITION"
  | fragmentSpread => "FRAGMENT_SPREAD"
  | inlineFragment => "INLINE_FRAGMENT"

/-- The tags in alphabetical order. -/
def sortedTags : List String :=
  (all.map tag).mergeSort fun a b => decide (a < b ∨ a = b)

def ofTag? (s : String) : Option Location := all.find? fun l => l.tag == s

theorem mem_all (l : Location) : l ∈ all := by cases l <;> decide

theorem tag_injective {l m : Location} (h : l.tag = m.tag) : l = m := by
  cases l <;> cases m <;> first | rfl | exact absurd h (by decide)

theorem ofTag?_tag (l : Location) : ofTag? l.tag = some l := by cases l <;> decide

theorem tag_of_ofTag? {s : String} {l : Location} (h : ofTag? s = some l) : l.tag = s := by
  simpa using List.find?_some h

end Location

end DirectiveSchema
