import DirectiveSchema.Proofs.Casting

/-!
Directives that can be stored with types of any kind: what their arguments wrap in the end is a
scalar, built in or not, or a named type. Their pictures show what stands for every argument and
every type in them, and restoring such a picture builds a directive over all of these.
-/
namespace DirectiveSchema

/-- An innermost type that has a picture and a name that can be compared: a built-in scalar, or a
scalar or another named type that is made of simple data. -/
inductive Session.Basic (s : Session) : Value → Prop where
  | builtIn {r : Ref .scalar} {c : ScalarType} : BuiltIn.isScalar r = true →
      s.node? (.scalar r) = some (.scalar c) → s.IsSimple (Display.typeName c.name) →
        s.Basic (.scalar r)
  | scalar {r : Ref .scalar} {c : ScalarType} {description : Value} :
      BuiltIn.isScalar r = false → s.node? (.scalar r) = some (.scalar c) →
        c.description = some description → s.IsSimple (Display.typeName c.name) →
          s.IsSimple description → s.Basic (.scalar r)
  | named {r : Ref .named} {c : NamedType} : s.node? (.named r) = some (.named c) →
      (∀ x ∈ c.contents, s.IsSimple x) → s.Basic (.named r)

/-- An argument that can be stored: its attributes are there and simple. Whatever was observed
before, its type resolves to a finite chain of wrappers over an innermost type that has a
picture. -/
structure PortableArgument (s : Session) (q : Ref .argument) : Prop where
  live : q.index < s.arguments.size
  name : (s.argument q).name.isSome = true
  description : (s.argument q).description.isSome = true
  hasDefault : (s.argument q).hasDefault.isSome = true
  simple {x : Value} : x ∈ (s.argument q).data → s.IsSimple x
  resolves {s' : Session} : s.Leads s' → ∃ y s'', (Arguments.type Deferred.supplier q >>=
    Types.unwrap Deferred.supplier) s' = .ok y s'' ∧ s''.Basic y

theorem Session.Basic.later {s u : Session} {v : Value} (h : s.Basic v) (later : s.Extends u) :
    u.Basic v := by
  cases h with
  | builtIn builtIn node name =>
    exact .builtIn builtIn (later.node?_single rfl node) (later.isSimple name)
  | scalar custom node described name description =>
    exact .scalar custom (later.node?_single rfl node) described (later.isSimple name)
      (later.isSimple description)
  | named node parts =>
    exact .named (later.node?_single rfl node) fun x hx => later.isSimple (parts x hx)

/-- The type of an argument over an innermost type is that type at any time. -/
theorem Argument.Over.resolves {s s' : Session} {q : Ref .argument} {v : Value}
    (h : (s.argument q).Over v) (live : q.index < s.arguments.size) (basic : s.Basic v)
    (later : s.Leads s') : ∃ y s'', (Arguments.type Deferred.supplier q >>=
      Types.unwrap Deferred.supplier) s' = .ok y s'' ∧ s''.Basic y := by
  obtain ⟨s₁, typed⟩ := (h.settles (later.extends.argument live)).type Deferred.supplier
  have further : s'.Extends s₁ := (Session.Extends.growth.supplier.type [] q).of_ok typed
  have ends : Types.unwrap Deferred.supplier v s₁ = .ok v s₁ := by
    cases basic <;> rfl
  exact ⟨v, s₁, (Action.bind_of_ok typed).trans ends, basic.later (later.extends.trans further)⟩

namespace Snapshot

variable {s s' u t : Session} {v x : Value} {n N : Nat}
  {seen seen' seen₁ seen₂ seen₃ seen₄ : List Value}
  {f next : Value → Taking Snapshot} {supply : Supplier} {p : Snapshot}

/-! ### Innermost types -/

/-- Before anything is restored, nothing was met. -/
theorem Faithful.start (u : Session) : Faithful u [] [] u [] where
  remains := .refl u
  data met := nomatch met
  nodes met := nomatch met
  mirrors filed := nomatch filed.met
  apart filed := nomatch filed.met
  once _ met := nomatch met
  custom met := nomatch met

end Snapshot

end DirectiveSchema
