import DirectiveSchema.Proofs.Requests

/-!
Directives are immutable. Whatever is requested, a directive that exists keeps its fields, and with
them its hash; it refuses to be changed, and so does its argument map.
-/
namespace DirectiveSchema

open BuiltIn

/-- The directives of a session are those of another, in which there may be more. -/
def Session.KeepsDirectives (s s' : Session) : Prop := s.directives.Extends Eq s'.directives

namespace Session.KeepsDirectives

variable {s s' : Session}

theorem refl (s : Session) : s.KeepsDirectives s := Arena.Extends.refl (fun _ => rfl) _

theorem lasting : Lasting Session.KeepsDirectives where
  refl := refl
  trans h h' := h.trans Eq.trans h'

theorem beside (same : s'.directives = s.directives) : s.KeepsDirectives s' := by
  rw [KeepsDirectives, same]
  exact refl s

/-- What is assigned is no attribute of a directive. -/
theorem ofSet (v : Value) (key : String) (new : Value) :
    Keeps Session.KeepsDirectives (Access.set v key new) := by
  unfold Access.set
  split
  · exact lasting.throw _
  · split
    all_goals first
      | exact fun _ => beside rfl
      | exact lasting.throw _

/-- A directive has no attribute that could be taken away. -/
theorem directives_without (s : Session) (v : Value) (key : String) :
    (Access.without s v key).directives = s.directives := by
  cases v <;> rfl

theorem ofDelete (v : Value) (key : String) :
    Keeps Session.KeepsDirectives (Access.delete v key) := by
  simp only [Access.delete]
  split
  · exact lasting.throwFirst _
  · split
    · exact lasting.throw _
    · exact lasting.throw _
    · refine lasting.bindGet fun s => ?_
      split
      · exact fun s => beside (directives_without s _ key)
      · exact lasting.throw _

theorem ofAppend (v x : Value) : Keeps Session.KeepsDirectives (Access.append v x) := by
  unfold Access.append
  split
  · exact fun _ => beside rfl
  · exact lasting.throw _

/-- The only change of the directives is that new ones are added. -/
theorem custody : Custody Session.KeepsDirectives :=
  { lasting with
    freshTag := fun _ => beside rfl
    newList := fun _ _ => beside rfl
    newSet := fun _ _ => beside rfl
    newDict := fun _ _ => beside rfl
    newNamedType := fun _ _ => beside rfl
    newScalar := fun _ _ => beside rfl
    newWrapper := fun _ _ => beside rfl
    newArgument := fun _ _ => beside rfl
    newDirective := fun _ _ => Arena.Extends.add (fun _ => rfl) _ _
    note := fun _ _ => beside rfl
    count := fun _ _ => beside rfl
    wrapped := lasting.wrapped fun kept _ _ _ => kept
    type := lasting.type fun kept _ _ => kept
    bound := fun _ _ => beside rfl
    noted := fun _ _ => beside rfl
    set := ofSet
    delete := ofDelete
    append := ofAppend
    fillList := fun _ kept => kept
    fillSet := fun _ kept => kept
    fillDict := fun _ kept => kept
    fillNamedType := fun _ kept => kept
    fillWrapper := fun _ kept => kept
    fillArgument := fun _ kept => kept }

theorem directive (h : s.KeepsDirectives s') {r : Ref .directive}
    (live : r.index < s.directives.size) : s'.directive r = s.directive r :=
  (h.cell live).symm

end Session.KeepsDirectives

/-! ### Construction -/

namespace Directives

variable {s s' : Session}

theorem isTruthy_ok (v : Value) (s : Session) : ∃ b, Container.isTruthy v s = .ok b s := by
  cases v <;> exact ⟨_, rfl⟩

theorem assertName_ok {supply : Supplier} {v : Value} {name : { v : Value // v.isName = true }}
    (h : assertName supply v s = .ok name s') : name.val = v ∧ s' = s := by
  unfold assertName at h
  split at h
  · cases h
    exact ⟨rfl, rfl⟩
  · obtain ⟨shown, s₁, -, h⟩ := Action.ok_of_bind h
    cases h

theorem elements_session {v : Value} {vs : List Value} (h : Container.elements v s = .ok vs s') :
    s' = s := by
  cases v <;> cases h <;> rfl

/-- Elements do not depend on which identities are in use. -/
theorem elements_of_nextTag {v : Value} {vs : List Value} {tag : Nat} {t : Session}
    (h : Container.elements v { s with nextTag := tag } = .ok vs t) :
    Container.elements v s = .ok vs s := by
  cases v <;> cases h <;> rfl

theorem newRow_ok {items : List Value} {row : Row} (h : Action.newRow items s = .ok row s') :
    row.items = items ∧ ∃ tag, s' = { s with nextTag := tag } := by
  cases items with
  | nil =>
    cases h
    exact ⟨rfl, s.nextTag, rfl⟩
  | cons v vs =>
    cases h
    exact ⟨rfl, s.nextTag + 1, rfl⟩

/-- A row holds the elements of what it was made of; at most a new identity is taken for it. -/
theorem rowOf_ok {v : Value} {row : Row} (h : rowOf v s = .ok row s') :
    Container.elements v s = .ok row.items s ∧ ∃ tag, s' = { s with nextTag := tag } := by
  unfold rowOf at h
  split at h
  · cases h
    exact ⟨rfl, s.nextTag, rfl⟩
  · obtain ⟨vs, s₁, elements, made⟩ := Action.ok_of_bind h
    cases elements_session elements
    obtain ⟨same, fresh⟩ := newRow_ok made
    exact ⟨same ▸ elements, fresh⟩

theorem argsOf_ok {v : Value} {row : Row} (h : argsOf v s = .ok row s') :
    (v = .null ∧ row.items = [] ∨ Container.elements v s = .ok row.items s) ∧
      ∃ tag, s' = { s with nextTag := tag } := by
  unfold argsOf at h
  split at h
  · obtain ⟨same, fresh⟩ := newRow_ok h
    exact ⟨.inl ⟨rfl, same⟩, fresh⟩
  · obtain ⟨elements, fresh⟩ := rowOf_ok h
    exact ⟨.inr elements, fresh⟩

/-- What a directive is built of: the data that were given, and the elements that the locations and
the arguments had at that time. -/
structure Built (s : Session) (name locations args description : Value) (d : Directive) : Prop where
  name : d.name = name
  description : d.description = description
  locations : Container.elements locations s = .ok d.locations.items s
  args : args = .null ∧ d.args.items = [] ∨ Container.elements args s = .ok d.args.items s

theorem create_ok {name locations args description : Value} {r : Ref .directive}
    (h : create Deferred.supplier name locations args description s = .ok r s') :
    r.index < s'.directives.size ∧ Built s name locations args description (s'.directive r) := by
  simp only [create] at h
  obtain ⟨truth, named⟩ := isTruthy_ok name s
  rw [Action.bind_of_ok named] at h
  cases truth with
  | false => cases h
  | true =>
    obtain ⟨checked, s₁, asserted, run⟩ := Action.ok_of_bind h
    obtain ⟨same, rfl⟩ := assertName_ok asserted
    split at run
    · obtain ⟨args', s₂, argued, run⟩ := Action.ok_of_bind run
      obtain ⟨ofArgs, tag, rfl⟩ := argsOf_ok argued
      obtain ⟨locations', s₃, located, run⟩ := Action.ok_of_bind run
      obtain ⟨ofLocations, tag', rfl⟩ := rowOf_ok located
      obtain ⟨shownName, s₄, -, run⟩ := Action.ok_of_bind run
      obtain ⟨shownLocations, s₅, -, run⟩ := Action.ok_of_bind run
      cases run
      refine ⟨Nat.lt_of_lt_of_eq (Nat.lt_succ_self _) (Arena.size_add _ _).symm, ?_⟩
      have cell (c : Directive) : (s₅.directives.add c).get s₅.directives.size = c :=
        Arena.get_add_self _ c
      show Built _ _ _ _ _ (Arena.get _ _)
      rw [cell]
      exact ⟨same, rfl, elements_of_nextTag ofLocations, ofArgs⟩
    · cases run

end Directives

/-! ### Hash keys -/

namespace HashKey

/-- The key of a directive whose locations are texts. -/
def ofTexts (d : Directive) : HashKey :=
  row [.text (Directives.nameText d.name),
    row (d.locations.items.map fun l => .text (Directives.nameText l))]

theorem ofWithin_of_text (supply : Supplier) {v : Value} (n : Nat)
    (text : v.text?.isSome = true) (s : Session) :
    ofWithin supply (n + 1) v s = .ok (.text (Directives.nameText v)) s := by
  cases v with
  | text | location => rfl
  | _ => cases text

/-- A directive that exists is nested in the session, with its locations. -/
theorem two_le_reach {s : Session} {r : Ref .directive} (live : r.index < s.directives.size) :
    2 ≤ s.reach := by
  have among : (s.directive r).locations.value ∈ s.contents := by
    have cell : s.directive r ∈ s.directives.toList := s.directives.get_mem_toList live
    refine List.mem_append_right _ (List.mem_flatMap.2 ⟨_, cell, ?_⟩)
    simp [Directive.contents]
  have nested : 1 ≤ s.depth := Nat.le_trans (Nat.succ_le_succ (Nat.zero_le _))
    (Value.depth_le_depths among)
  unfold Session.reach
  omega

theorem of_directive {supply : Supplier} {s : Session} {r : Ref .directive}
    (live : r.index < s.directives.size)
    (texts : ∀ l ∈ (s.directive r).locations.items, l.text?.isSome = true) :
    of supply (.directive r) s = .ok (ofTexts (s.directive r)) s := by
  obtain ⟨m, enough, bound⟩ := Action.boundedPairs_succ (Value.depth (.directive r))
    (fun n => ofWithin supply n (.directive r)) s
  obtain ⟨n, rfl⟩ : ∃ n, m = n + 2 := ⟨m - 2, by have := two_le_reach live; omega⟩
  have named : (s.directive r).name.text?.isSome = true := by
    have valid := (s.directive r).named
    cases spelt : (s.directive r).name.text? with
    | some n => rfl
    | none => simp [Value.isName, spelt] at valid
  have locations : ofWithin supply (n + 2) (s.directive r).locations.value s =
      .ok (row ((s.directive r).locations.items.map fun l => .text (Directives.nameText l))) s := by
    have keys := Action.mapM_of_ok fun l hl => ofWithin_of_text supply n (texts l hl) s
    exact Action.bind_of_ok keys
  rw [of, bound]
  show (ofWithin supply (n + 2) (s.directive r).name >>= _) s = _
  rw [Action.bind_of_ok (ofWithin_of_text supply (n + 1) named s), Action.bind_of_ok locations]
  rfl

end HashKey

/-! ### Every later session -/

namespace Directives

variable {s s' : Session} {r : Ref .directive}

/-- What holds of a directive in any session that comes to pass: its fields are those that it was
built with, it refuses to be changed, and it has one hash. -/
structure Frozen (r : Ref .directive) (d : Directive) (s : Session) : Prop where
  cell : s.directive r = d
  named : d.name.isName = true
  set {e new : Expression} {key : String} {v : Value} {s₁ s₂ : Session} :
    e.eval Deferred.supplier s = .ok (.directive r) s₁ →
      new.eval Deferred.supplier s₁ = .ok v s₂ →
        (Request.set e key new).perform Deferred.supplier s = .error .frozenDirective s₂
  delete {e : Expression} {key : String} {s₁ : Session} :
    e.eval Deferred.supplier s = .ok (.directive r) s₁ →
      (Request.delete e key).perform Deferred.supplier s = .error .frozenDirective s₁
  mapSet (e key new : Expression) :
    ∃ f s', (Request.mapSet e key new).perform Deferred.supplier s = .error f s'
  mapDelete (e key : Expression) :
    ∃ f s', (Request.mapDelete e key).perform Deferred.supplier s = .error f s'
  hash : (∀ l ∈ d.locations.items, l.text?.isSome = true) →
    HashKey.of Deferred.supplier (.directive r) s = .ok (HashKey.ofTexts d) s

theorem frozen_of_live (live : r.index < s.directives.size) : Frozen r (s.directive r) s where
  cell := rfl
  named := (s.directive r).named
  set evaluated renewed := by
    simp only [Request.perform]
    rw [Action.bind_of_ok evaluated, Action.bind_of_ok renewed]
    rfl
  delete evaluated := by
    simp only [Request.perform]
    rw [Action.bind_of_ok evaluated]
    rfl
  mapSet e key new :=
    Action.error_of_bind (fun _ => Action.error_of_bind fun _ => Action.error_of_bind fun _ =>
      Action.error_of_bind fun _ s => ⟨.frozenMapping false, s, rfl⟩) s
  mapDelete e key :=
    Action.error_of_bind (fun _ => Action.error_of_bind fun _ => Action.error_of_bind
      fun _ s => ⟨.frozenMapping true, s, rfl⟩) s
  hash := HashKey.of_directive live

/-- A directive stays what it was built as, whatever is requested. -/
theorem directive_never_changes (live : r.index < s.directives.size) (qs : List Request) :
    Frozen r (s.directive r) (s.runAll qs).2 ∧
      ∀ {s₀ s₁ : Session} {name locations args description : Value},
        create Deferred.supplier name locations args description s₀ = .ok r s₁ →
          s₁.KeepsDirectives s →
            Built s₀ name locations args description ((s.runAll qs).2.directive r) := by
  have kept : s.KeepsDirectives (s.runAll qs).2 :=
    Session.KeepsDirectives.custody.runAll s qs
  refine ⟨?_, ?_⟩
  · have frozen := frozen_of_live (Nat.lt_of_lt_of_le live kept.size)
    rwa [kept.directive live] at frozen
  · intro s₀ s₁ name locations args description created since
    obtain ⟨born, built⟩ := create_ok created
    rwa [kept.directive live, since.directive born]

/-- The requests of someone who tries to change a directive. -/
def tampering : List Request :=
  [.set (.ref "IncludeDirective") "name" (.text "other"),
    .delete (.ref "IncludeDirective") "locations",
    .get (.ref "IncludeDirective") "args" (some "args"),
    .append (.ref "args") .null,
    .mapSet (.ref "IncludeDirective") (.text "if") .null,
    .copy (.ref "IncludeDirective") .stored (some "copy")]

theorem include_directive_withstands_tampering : includeRef.index < session.directives.size ∧
    Frozen includeRef includeDirective (session.runAll tampering).2 := by
  have live : includeRef.index < session.directives.size := by decide
  exact ⟨live, (directive_never_changes live tampering).1⟩

end Directives

end DirectiveSchema
