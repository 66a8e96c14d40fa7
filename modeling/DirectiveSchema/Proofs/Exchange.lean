import DirectiveSchema.Proofs.Concord

/-!
Exchanging data for their copies. Whatever a datum is compared with, a copy of it that is alike
compares in the same way; it hashes in the same way, and it is found where the datum is found.
-/
namespace DirectiveSchema

open Action (Concur)

variable {s : Session} {supply : Supplier} {x y z : Value} {m n N N' : Nat}

namespace Equality

variable {eq eq' : Value → Value → Action Bool} {xs ys zs : List Value}

section

variable {ms ms' others : List Member}

end

section

variable {es es' others : List Entry}

end

/-! ### Comparisons within a bound -/

/-- A datum without parts is compared at once. -/
theorem equalWithin_atom (atom : x.isAtom = true) (z : Value) (N : Nat) :
    equalWithin supply (N + 1) x z = pure (z.row?.isNone && atomsEqual x z) ∧
      equalWithin supply (N + 1) z x = pure (z.row?.isNone && atomsEqual z x) := by
  cases x <;> first
    | cases atom; done
    | cases z <;> exact ⟨rfl, rfl⟩

end Equality

/-! ### Keys -/

namespace HashKey

/-- The fields by which an argument is hashed, among what it is made of. -/
theorem keyFields_of_complete (supply : Supplier) {q : Ref .argument}
    (h : (s.argument q).Complete) : ∃ name type, Arguments.name q s = .ok name s ∧
      Arguments.type supply q s = .ok type s ∧ ∃ description hasDefault rest,
        (Body.argument (s.argument q)).parts =
          name :: description :: hasDefault :: type :: rest := by
  obtain ⟨name, named⟩ := Option.isSome_iff_exists.1 h.name
  obtain ⟨description, described⟩ := Option.isSome_iff_exists.1 h.description
  obtain ⟨hasDefault, decided⟩ := Option.isSome_iff_exists.1 h.hasDefault
  obtain ⟨type, resolved⟩ := Option.isSome_iff_exists.1 h.resolved
  refine ⟨name, type, ?_, Arguments.type_of_resolved resolved, description, hasDefault,
    (s.argument q).default.toList ++ (s.argument q).extra.contents, ?_⟩
  · rw [Arguments.name_eq, named]
    rfl
  · simp only [Body.parts, named, described, decided, resolved, Option.toList, List.cons_append,
      List.nil_append]

/-- Data that are alike have one key, or none. Types that are known are not asked for again, so the
session stays as it is. -/
theorem concur_ofWithin (h : s.Alike n x y) (le : n ≤ N) (le' : n ≤ N') :
    Concur s Eq (ofWithin supply N x) (ofWithin supply N' y) := by
  induction n generalizing x y N N' with
  | zero => cases h
  | succ n ih =>
    obtain ⟨M, rfl⟩ : ∃ M, N = M + 1 := ⟨N - 1, by omega⟩
    obtain ⟨M', rfl⟩ : ∃ M', N' = M' + 1 := ⟨N' - 1, by omega⟩
    rcases h with ⟨rfl, atom⟩ | ⟨b, c, body, body', fits, parts⟩
    · cases x <;> first
        | cases atom; done
        | exact .pure rfl
    have keyed : List.Forall₂ (fun z w => Concur s Eq (ofWithin supply M z) (ofWithin supply M' w))
        b.parts c.parts := parts.imp fun z w like => ih like (by omega) (by omega)
    have keys : Concur s (List.Forall₂ Eq) (b.parts.mapM (ofWithin supply M))
        (c.parts.mapM (ofWithin supply M')) := .mapM keyed
    have made := Session.makes_of_body body
    have made' := Session.makes_of_body body'
    cases b <;> cases c <;> try exact fits.elim
    case tuple =>
      obtain ⟨tag, rfl⟩ := made
      obtain ⟨tag', rfl⟩ := made'
      refine keys.map fun as bs same => ?_
      rw [List.forall₂_eq_eq_eq] at same
      rw [same]
    case config =>
      obtain ⟨tag, rfl⟩ := made
      obtain ⟨tag', rfl⟩ := made'
      refine keys.map fun as bs same => ?_
      rw [List.forall₂_eq_eq_eq] at same
      rw [same]
    case wrapper w c w' c' =>
      obtain ⟨r, rfl, -, rfl⟩ := made
      obtain ⟨r', rfl, -, rfl⟩ := made'
      obtain ⟨rfl, known, known'⟩ := fits
      obtain ⟨t, resolved⟩ := Option.isSome_iff_exists.1 known
      obtain ⟨t', resolved'⟩ := Option.isSome_iff_exists.1 known'
      simp only [Body.parts, resolved, resolved', Option.toList] at keyed
      have type := (List.forall₂_cons.1 keyed).1
      have read : Types.wrapped supply w r s = .ok t s := Types.wrapped_of_resolved resolved
      have read' : Types.wrapped supply w r' s = .ok t' s := Types.wrapped_of_resolved resolved'
      have kept : Concur s Eq (do return row [.wrapper w, ← ofWithin supply M t])
          (do return row [.wrapper w, ← ofWithin supply M' t']) :=
        type.map fun a b same => by rw [same]
      exact kept.congr (Action.bind_of_ok read) (Action.bind_of_ok read')
    case argument =>
      obtain ⟨r, rfl, -, rfl⟩ := made
      obtain ⟨r', rfl, -, rfl⟩ := made'
      obtain ⟨complete, complete', -⟩ := fits
      obtain ⟨name, type, named, typed, _, _, _, inside⟩ := keyFields_of_complete supply complete
      obtain ⟨name', type', named', typed', _, _, _, inside'⟩ :=
        keyFields_of_complete supply complete'
      rw [inside, inside'] at keyed
      obtain ⟨names, keyed⟩ := List.forall₂_cons.1 keyed
      obtain ⟨-, keyed⟩ := List.forall₂_cons.1 keyed
      obtain ⟨-, keyed⟩ := List.forall₂_cons.1 keyed
      have types := (List.forall₂_cons.1 keyed).1
      refine Concur.bind (R := fun a b => a = name ∧ b = name')
        (.inl ⟨_, _, named, named', rfl, rfl⟩) ?_
      rintro _ _ ⟨rfl, rfl⟩
      refine Concur.bind (R := fun a b => a = type ∧ b = type')
        (.inl ⟨_, _, typed, typed', rfl, rfl⟩) ?_
      rintro _ _ ⟨rfl, rfl⟩
      refine names.bind fun _ _ first => types.map fun _ _ second => ?_
      rw [first, second]
    case directive =>
      obtain ⟨r, rfl, -, rfl⟩ := made
      obtain ⟨r', rfl, -, rfl⟩ := made'
      simp only [Body.parts, Directive.contents] at keyed
      obtain ⟨name, rest⟩ := List.forall₂_cons.1 keyed
      obtain ⟨-, rest⟩ := List.forall₂_cons.1 rest
      have locations := (List.forall₂_cons.1 rest).1
      refine Concur.read (name.bind fun _ _ first => locations.map fun _ _ second => ?_)
      rw [first, second]
    all_goals
      obtain ⟨r, rfl, -⟩ := made
      obtain ⟨r', rfl, -⟩ := made'
      exact .throw _

end HashKey

end DirectiveSchema
