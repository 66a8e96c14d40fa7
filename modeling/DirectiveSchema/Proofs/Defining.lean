import DirectiveSchema.Proofs.Lettering

/-!
Directives are built alike. Paired names are valid in both sessions or in neither, paired locations
and arguments are gathered into paired tuples, and both directives are noted by the same texts. With
this, whatever data are evaluated in two sessions, they are evaluated alike.
-/
namespace DirectiveSchema

open Pairing

variable {φ ψ : Pairing} {strict : Prop} {ws ws' : List Value} {v v' : Value}

namespace Pairing.Relates

theorem isLocationsList_eq (h : φ.Relates v v') :
    Directives.isLocationsList v' = Directives.isLocationsList v := by
  cases h <;> rfl

end Pairing.Relates

/-- Notices matter to neither session. -/
theorem Abreast.noted {s t : Session} (h : Abreast φ s t) (journal journal' : List Notice) :
    Abreast φ { s with journal } { t with journal := journal' } := by
  obtain ⟨home, ahead⟩ := h
  refine Abreast.evolves ⟨home, ahead.of_left (fun k => ?_) (fun k i => ?_) rfl⟩ (.noted t _)
  · rcases k with _ | ⟨⟩ <;> rfl
  · cases k <;> rfl

namespace Tallies

theorem note (n : Notice) : Tallies strict φ (Action.note n) (Action.note n) Same :=
  fun _ _ abreast => .ok rfl rfl (le_refl φ) (abreast.noted _ _) rfl

theorem assertName (writes : φ.RelatesAll ws ws') (related : φ.Relates v v') :
    Tallies False φ (Directives.assertName (.writes ws) v) (Directives.assertName (.writes ws') v')
      fun ψ a b => ψ.Relates a.val b.val := by
  cases named : v.isName with
  | true =>
    have named' : v'.isName = true := related.isName_eq.trans named
    simp only [Directives.assertName, dif_pos named, dif_pos named']
    exact pure related
  | false =>
    have named' : v'.isName = false := related.isName_eq.trans named
    simp only [Directives.assertName, named, named', Bool.false_eq_true, dite_false]
    refine (label writes related).bind fun le same => ?_
    rw [same]
    refine fault ⟨rfl, rfl, rfl, .some (related.mono le)⟩ False.elim

theorem rowOf (related : φ.Relates v v') :
    Tallies False φ (Directives.rowOf v) (Directives.rowOf v') RelatesRows := by
  have gathered : Tallies False φ (do Action.newRow (← Container.elements v))
      (do Action.newRow (← Container.elements v')) RelatesRows :=
    (elements related).bind fun _ related => tandem.newRow related
  cases related with
  | tuple tag same parts => exact pure (.tuple tag same parts)
  | _ => exact gathered

theorem argsOf (related : φ.Relates v v') :
    Tallies False φ (Directives.argsOf v) (Directives.argsOf v') RelatesRows := by
  have row := rowOf related
  cases related with
  | null => exact tandem.newRow .nil
  | _ => exact row

theorem create {name name' locations locations' args args' description description' : Value}
    (names : φ.Relates name name') (places : φ.Relates locations locations')
    (arguments : φ.Relates args args') (descriptions : φ.Relates description description') :
    Tallies False φ (Directives.create (.writes []) name locations args description)
      (Directives.create (.writes []) name' locations' args' description') RelatesRefs := by
  simp only [Directives.create]
  refine test (isTruthy names) (fun {ψ₁} le₁ => ?_) fun _ => throwFirst (.inl rfl)
  refine (assertName .nil (names.mono le₁)).bind fun {ψ₂ name name'} le₂ names => ?_
  have le₂ := le_trans le₁ le₂
  rw [places.isLocationsList_eq]
  split
  · refine (argsOf (arguments.mono le₂)).bind fun {ψ₃ args args'} le₃ arguments => ?_
    have places := places.mono (le_trans le₂ le₃)
    refine (rowOf places).bind fun {ψ₄ locations locations'} le₄ places => ?_
    refine (label .nil (names.mono (le_trans le₃ le₄))).bind fun {ψ₅ shown shown'} le₅ same => ?_
    subst same
    have places₅ := (Relates.mono places le₅).items
    refine ((labels .nil).texts places₅).bind fun {ψ₆ texts texts'} le₆ same => ?_
    subst same
    have le₆ := le_trans le₅ le₆
    have le₄ := le_trans le₄ le₆
    have names := names.mono (le_trans le₃ le₄)
    have descriptions := descriptions.mono (le_trans le₂ (le_trans le₃ le₄))
    have places : ψ₆.Relates locations.value locations'.value := Relates.mono places le₆
    have arguments : ψ₆.Relates args.value args'.value := Relates.mono arguments le₄
    refine (tandem.newDirective ⟨names, descriptions, places, arguments⟩).bind
      fun {ψ₇ r r'} le₇ paired => ?_
    exact (note _).bind fun le₈ _ => pure (le₈ _ _ _ paired)
  · exact throwFirst (.inl rfl)

/-- Data are gathered into sets, dictionaries and directives alike. -/
theorem comparing : Comparing (Tallies False) Deferred.supplier Deferred.supplier where
  distinct := fun {φ _ _} => @distinct φ [] [] _ _
  dictionary := fun {φ _ _} => @dictionary φ [] [] _ _
  create := create

/-- Data are evaluated alike. -/
theorem eval (e : Expression) (quiet : e.isQuiet false = true) (φ : Pairing) :
    Tallies False φ (e.eval Deferred.supplier) (e.eval Deferred.supplier) Relates :=
  tandem.eval (fun _ => comparing) e quiet φ

/-! ### What is asked of a directive -/

section

variable {r r' : Ref .directive} (paired : φ (some .directive) r.index r'.index)

include paired

theorem toConfig : Tallies False φ (Directives.toConfig r) (Directives.toConfig r') Relates := by
  refine read fun s t abreast => ?_
  have related := abreast.directive paired
  refine (tandem.newList related.locations.items).bind fun {ψ₁ l l'} le₁ locations => ?_
  refine (tandem.newList (related.args.mono le₁).items).bind fun {ψ₂ a a'} le₂ args => ?_
  refine tandem.freshTag.bind fun {ψ₃ n n'} le₃ tag => pure ?_
  have le₂₃ := le_trans le₂ le₃
  have le := le_trans le₁ le₂₃
  exact .config tag (related.name.mono le) (.list (le₂₃ _ _ _ locations)) (.list (le₃ _ _ _ args))
    (related.description.mono le)

theorem appliesTo (related : φ.Relates v v') :
    Tallies False φ (Directives.appliesTo (.writes ws) r v)
      (Directives.appliesTo (.writes ws') r' v') Same :=
  read fun _ _ abreast => member (abreast.directive paired).locations.items related

end

end Tallies

end DirectiveSchema
