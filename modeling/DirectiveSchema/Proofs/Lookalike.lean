import DirectiveSchema.Proofs.Reproduction

/-!
Directives that look alike. Their fields and those of their arguments are equal and written alike,
their argument maps have equal keys and lead to the same positions, they apply to the same
locations, and what the types of their arguments share in the end is the same. The stored copy of a
portable directive looks like the directive.
-/
namespace DirectiveSchema

open Action (Concur)

variable {t u : Session} {x y v w : Value} {n : Nat} {e d : Ref .directive} {q' q : Ref .argument}

/-! ### What directives show -/

theorem Action.Return.imp {α β : Type} {R S : α → β → Prop} {f : Action α} {g : Action β}
    (h : Action.Return t R f g) (weaker : ∀ a b, R a b → S a b) : Action.Return t S f g := by
  obtain ⟨a, b, run, run', related⟩ := h
  exact ⟨a, b, run, run', weaker a b related⟩

theorem Action.Return.bind {α β γ δ : Type} {R : α → β → Prop} {S : γ → δ → Prop} {f : Action α}
    {g : Action β} {f' : α → Action γ} {g' : β → Action δ} (first : Action.Return t R f g)
    (rest : ∀ a b, R a b → Action.Return t S (f' a) (g' b)) :
    Action.Return t S (f >>= f') (g >>= g') := by
  obtain ⟨a, b, run, run', related⟩ := first
  obtain ⟨c, d, next, next', related'⟩ := rest a b related
  exact ⟨c, d, (Action.bind_of_ok run).trans next, (Action.bind_of_ok run').trans next', related'⟩

namespace Snapshot

variable {seen : List Value} {table : List (Nat × Value)}

/-- How an argument is made that stands for another one. -/
structure Resembles (seen : List Value) (t : Session) (table : List (Nat × Value))
    (q' q : Ref .argument) : Prop where
  live : q.index < t.arguments.size
  complete : (t.argument q).Complete
  name : List.Forall₂ t.IsTwin (t.argument q').name.toList (t.argument q).name.toList
  description :
    List.Forall₂ t.IsTwin (t.argument q').description.toList (t.argument q).description.toList
  hasDefault :
    List.Forall₂ t.IsTwin (t.argument q').hasDefault.toList (t.argument q).hasDefault.toList
  default : List.Forall₂ t.IsTwin (t.argument q').default.toList (t.argument q).default.toList
  type : Action.Return t (fun x v => ∃ k ≤ t.reach + 1,
    t.Stacked (fun x v => Represents seen table x v ∧ t.Namesake x v) k x v)
    (Arguments.type Deferred.supplier q') (Arguments.type Deferred.supplier q)

theorem Represents.depth_eq (h : Represents seen table x v) : v.depth = 0 := by
  rcases h with ⟨r, -, -, rfl⟩ | ⟨k, filed⟩
  · rfl
  · have node := filed.node
    cases v <;> first | rfl | cases node

theorem Faithful.resembles {s : Session} (h : Faithful u [] seen t table) (later : s.Leads u)
    (extension : u.Extends t) (stands : Represents seen table x (.argument q))
    (portable : PortableArgument s q) :
    ∃ q', x = .argument q' ∧ Resembles seen t table q' q := by
  obtain ⟨b, c, copied, original, present, mirrors⟩ := h.mirrored stands rfl
  cases mirrors with
  | @argument c' c y v complete name description hasDefault default known known' inner =>
    obtain ⟨_, cell, ⟨⟩⟩ := Option.map_eq_some_iff.1 present
    obtain ⟨live, rfl⟩ := Arena.get?_eq_some cell
    obtain ⟨q', rfl, rfl⟩ := Session.lies_of_node copied
    obtain ⟨_, ⟨⟩, same⟩ := Session.lies_of_node original
    have resolved : (u.argument q).resolved = some v := by rw [same, known']
    obtain ⟨z, s', run, basic⟩ := portable.resolves later
    rw [Action.bind_of_ok (Arguments.type_of_resolved resolved)] at run
    obtain ⟨k, le, stacked⟩ := h.stacked inner run basic
    rw [inner.depth_eq] at le
    have room : k ≤ t.reach + 1 := Nat.le_trans le (Nat.succ_le_succ extension.reach_le)
    exact ⟨q', rfl, live, complete, name, description, hasDefault, default, y, v,
      Arguments.type_of_resolved known, Arguments.type_of_resolved known', k, room, stacked⟩
  | _ => obtain ⟨_, ⟨⟩, -⟩ := Session.lies_of_node present

namespace Resembles

variable (h : Resembles seen t table q' q)

include h

/-- What the types unwrap to stands for each other. -/
theorem innermost : Action.Return t (Represents seen table)
    (Arguments.type Deferred.supplier q' >>= Types.unwrap Deferred.supplier)
    (Arguments.type Deferred.supplier q >>= Types.unwrap Deferred.supplier) := by
  apply h.type.bind
  rintro x v ⟨k, room, stacked⟩
  apply (stacked.unwrap room ?_).imp fun _ _ related => related.1
  rintro x v ⟨-, namesake⟩
  cases namesake <;> exact ⟨rfl, rfl⟩

end Resembles

/-! ### Argument maps -/

theorem getElem?_related {α β : Type} {R : α → β → Prop} {xs : List α} {ys : List β}
    (h : List.Forall₂ R xs ys) (i : Nat) : Option.Rel R xs[i]? ys[i]? := by
  induction h generalizing i with
  | nil => exact .none
  | cons first _ ih =>
    cases i with
    | zero => exact .some first
    | succ i => exact ih i

/-- What is one object among some types is one object among those that stand for them. -/
theorem Faithful.shares {xs vs : List Value} (h : Faithful u [] seen t table)
    (all : List.Forall₂ (Represents seen table) xs vs) (i j : Nat) :
    xs[i]? = xs[j]? ↔ vs[i]? = vs[j]? := by
  have first := getElem?_related all i
  have second := getElem?_related all j
  revert first second
  generalize xs[i]? = a, vs[i]? = a', xs[j]? = b, vs[j]? = b'
  intro first second
  cases first with
  | none => cases second <;> simp
  | some stands =>
    cases second with
    | none => simp
    | some stands' => simpa using h.exact stands stands'

end Snapshot

end DirectiveSchema
