/-!
Notices: what the library reports on the side. Building a directive is noted for debugging; the
validation of a collection warns of missing and of unknown locations.
-/
namespace DirectiveSchema

inductive Notice where
  | created (name : String) (locations : List String)
  | noLocation (name : String)
  | unknownLocation (shown name : String)
deriving DecidableEq, Repr

namespace Notice

def isWarning : Notice → Bool
  | created _ _ => false
  | _ => true

def message : Notice → String
  | created name locations =>
    "Created directive @" ++ name ++ " (locations: " ++ ", ".intercalate locations ++ ")"
  | noLocation name => "Directive \"@" ++ name ++ "\" has no location"
  | unknownLocation shown name =>
    "Unknown location " ++ shown ++ " on directive \"@" ++ name ++ "\""

end Notice

end DirectiveSchema
