import DirectiveSchema.Proofs.Idempotence

/-!
What refusals show. A datum that is no location, no name, no built-in scalar or no identifier is
refused by a fault whose message holds its text. Two of these messages are made by a format with one
place, and there a tuple is not shown: it is taken as the list of what to fill in.
-/
namespace DirectiveSchema

open BuiltIn

variable {α : Type} {s s' : Session} {v : Value} {write : Value → Action String} {act : Action α}

/-! ### Messages that hold a text -/

/-- A fault of a kind whose message holds a text. -/
structure Fault.Shows (f : Fault) (kind : FaultKind) (text : String) : Prop where
  kind : f.kind = kind
  message : text.toList <:+: f.message.toList

namespace Fault

end Fault

/-! ### Formats with one place -/

/-- An action that refuses a datum by a fault with its text. -/
def refuse (fault : String → Fault) (text : Action String) : Action α := do throw (fault (← text))

namespace Scalars

end Scalars

/-! ### Refusals -/

end DirectiveSchema
