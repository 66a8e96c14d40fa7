/-!
Kinds of faults and the order in which one kind is a case of another. Two kinds matter to the
coercions of scalars: a rejected value and a rejected type of value.
-/
namespace DirectiveSchema

inductive FaultKind where
  | value
  | type
  | key
  | overflow
  | unicode
  | runtime
  | recursion
  | access
  | unbound
  | index
  | missingFile
  | folder
  | library
  | schema
  | definition
  | missingName
  | invalidName
  | missingLocations
  | serialization
  | parsing
  | exit
  | command
deriving DecidableEq, Inhabited, Repr

namespace FaultKind

/-- The next more general kind. -/
def parent? : FaultKind → Option FaultKind
  | unicode => some value
  | recursion => some runtime
  | schema => some library
  | definition => some schema
  | missingName => some definition
  | invalidName => some definition
  | missingLocations => some definition
  | serialization => some library
  | parsing => some library
  | _ => none

/-- The kinds that a kind is a case of, itself first. -/
def lineage (k : FaultKind) : List FaultKind :=
  k :: match k.parent? with
    | none => []
    | some p => p :: match p.parent? with
      | none => []
      | some q => q :: q.parent?.toList

def isA (k general : FaultKind) : Bool := k.lineage.contains general

/-- The kinds that a report on an error lists, in its order. -/
def reported : List FaultKind :=
  [value, type, key, overflow, unicode, runtime, library, schema, definition, missingName,
    invalidName, missingLocations, serialization, parsing]

theorem isA_refl (k : FaultKind) : k.isA k = true := by simp [isA, lineage]

theorem isA_iff {k general : FaultKind} : k.isA general = true ↔ general ∈ k.lineage := by
  simp [isA]

theorem isA_trans {a b c : FaultKind} (hab : a.isA b = true) (hbc : b.isA c = true) :
    a.isA c = true := by
  have closed : ∀ b ∈ a.lineage, ∀ c ∈ b.lineage, c ∈ a.lineage := by cases a <;> decide
  exact isA_iff.2 (closed b (isA_iff.1 hab) c (isA_iff.1 hbc))

end FaultKind

end DirectiveSchema
