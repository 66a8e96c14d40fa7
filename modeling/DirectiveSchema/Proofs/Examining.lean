import DirectiveSchema.Proofs.Defining

/-!
Validations and attributes tally. Directives are found valid in both sessions or in neither, with
the same message, and attributes, elements and argument maps are read alike. A notice that fails
does not concern a validation, so it does not matter in which of the sessions it does.
-/
namespace DirectiveSchema

open Pairing

variable {α β : Type} {φ ψ : Pairing} {strict : Prop} {v v' w w' : Value}

namespace Tallies

/-! ### Validation -/

/-- Whatever becomes of a step whose faults are passed over, both sessions go on. -/
theorem swallow {x y : Action Unit} {post : Pairing → Unit → Unit → Prop}
    (h : Tallies True φ x y post) :
    Tallies strict φ (tryCatch x fun _ => Pure.pure ()) (tryCatch y fun _ => Pure.pure ())
      Same := by
  intro s t abreast
  cases h s t abreast with
  | ok run run' le abreast' =>
    exact .ok (Action.tryCatch_of_ok run) (Action.tryCatch_of_ok run') le abreast' rfl
  | error run run' le abreast' =>
    exact .ok (Action.tryCatch_of_error run) (Action.tryCatch_of_error run') le abreast' rfl
  | endless run _ _ _ goesOn =>
    obtain ⟨ψ, le, abreast'⟩ := goesOn trivial
    cases run' : y t with
    | ok b t' =>
      rw [Action.after_of_ok run'] at abreast'
      exact .ok (Action.tryCatch_of_error run) (Action.tryCatch_of_ok run') le abreast' rfl
    | error e t' =>
      rw [Action.after_of_error run'] at abreast'
      exact .ok (Action.tryCatch_of_error run) (Action.tryCatch_of_error run') le abreast' rfl

/-- Faults are turned into others alike. -/
theorem rethrow {x : Action α} {y : Action β} {post : Pairing → α → β → Prop}
    {g : Fault → Fault} (h : Tallies False φ x y post)
    (alike : ∀ {ψ e f}, φ ≤ ψ → ψ.RelatesFaults e f → ψ.RelatesFaults (g e) (g f))
    (endless : ∀ e, e.kind = .recursion → (g e).kind = .recursion) :
    Tallies False φ (tryCatch x fun e => MonadExcept.throw (g e))
      (tryCatch y fun e => MonadExcept.throw (g e)) post := by
  intro s t abreast
  cases h s t abreast with
  | ok run run' le abreast' related =>
    exact .ok (Action.tryCatch_of_ok run) (Action.tryCatch_of_ok run') le abreast' related
  | error run run' le abreast' related =>
    exact .error (Action.tryCatch_of_error run) (Action.tryCatch_of_error run') le abreast'
      (alike le related) False.elim
  | endless run kind coherent same =>
    exact .endless (Action.tryCatch_of_error run) (endless _ kind) coherent same False.elim

theorem warnUnknown (name : String) (related : φ.Relates v v') :
    Tallies strict φ (Validation.warnUnknown (.writes []) name v)
      (Validation.warnUnknown (.writes []) name v') Same := by
  have warned : Tallies True φ
      (do Action.note (.unknownLocation (← Display.literal (.writes []) v) name))
      (do Action.note (.unknownLocation (← Display.literal (.writes []) v') name)) Same := by
    refine (literal .nil related).bindKept (fun _ _ => Evolves.note _) fun {_ shown _} _ same => ?_
    subst same
    exact note _
  exact swallow warned

theorem warnLocations (name : String) {ls ls' : List Value} (related : φ.RelatesAll ls ls') :
    Tallies False φ (Validation.warnLocations (.writes []) name ls)
      (Validation.warnLocations (.writes []) name ls') Same := by
  induction ls generalizing φ ls' with
  | nil =>
    cases related with
    | nil => exact pure rfl
  | cons v ls ih =>
    cases related with
    | cons first rest =>
      simp only [Validation.warnLocations, first.isLocation_eq]
      split
      · exact ih rest
      · exact (warnUnknown name first).bind fun le _ => ih (RelatesAll.mono le rest)

theorem checkLocations (name : String) {ls ls' : List Value} (related : φ.RelatesAll ls ls') :
    Tallies False φ (Validation.checkLocations (.writes []) name ls)
      (Validation.checkLocations (.writes []) name ls') Same := by
  have empty : ls'.isEmpty = ls.isEmpty := by cases related <;> rfl
  simp only [Validation.checkLocations, empty]
  split
  · exact (note _).bind fun le _ => warnLocations name (RelatesAll.mono le related)
  · exact warnLocations name related

theorem nameText_eq (related : φ.Relates v v') :
    Directives.nameText v' = Directives.nameText v := by
  rw [Directives.nameText, related.text?_eq, Directives.nameText]

theorem checkedName {r r' : Ref .argument} (paired : φ (some .argument) r.index r'.index) :
    Tallies False φ (Validation.argumentName (.writes []) r)
      (Validation.argumentName (.writes []) r') Relates := by
  have name : Tallies False φ
      (do return (← Directives.assertName (.writes []) (← Arguments.name r)).val)
      (do return (← Directives.assertName (.writes []) (← Arguments.name r')).val) Relates :=
    (argumentName paired).bind fun _ related =>
      (assertName .nil related).mapKept fun _ related => related
  refine rethrow (g := fun f => if f.kind.isA .invalidName then .invalidArgumentName f else f)
    name (fun {ψ e f} _ related => ?_) fun e endless => ?_
  · simp only [related.kind]
    split
    · exact ⟨rfl, related.message, congrArg some related.kind, .none⟩
    · exact related
  · have plain : e.kind.isA .invalidName = false := by
      rw [endless]
      rfl
    rw [plain]
    exact endless

/-- The names that were seen are the same, so the same argument is found to be repeated. -/
theorem checkArguments (directive : String) (seen : List String) {as as' : List Value}
    (related : φ.RelatesAll as as') :
    Tallies False φ (Validation.checkArguments (.writes []) directive seen as)
      (Validation.checkArguments (.writes []) directive seen as') Same := by
  induction as generalizing φ as' seen with
  | nil =>
    cases related with
    | nil => exact pure rfl
  | cons a as ih =>
    cases related with
    | cons first rest =>
      simp only [Validation.checkArguments]
      refine (label .nil first).bind fun {ψ₁ shown shown'} le₁ same => ?_
      subst same
      cases first with
      | argument paired =>
        have paired := le₁ _ _ _ paired
        refine (checkedName paired).bind fun {ψ₂ name name'} le₂ named => ?_
        have paired := le₂ _ _ _ paired
        rw [nameText_eq named]
        split
        · exact throwFirst (.inl rfl)
        refine (type paired).bind fun {ψ₃ t t'} le₃ typed => ?_
        have paired := le₃ _ _ _ paired
        refine (isInput typed).bind fun {ψ₄ ok ok'} le₄ same => ?_
        subst same
        have paired := le₄ _ _ _ paired
        refine (type paired).bind fun {ψ₅ t t'} le₅ typed => ?_
        refine (label .nil typed).bind fun {ψ₆ text text'} le₆ same => ?_
        subst same
        have le := le_trans (le_trans le₁ le₂) (le_trans (le_trans le₃ le₄) (le_trans le₅ le₆))
        split
        · exact ih _ (RelatesAll.mono le rest)
        · exact throwFirst (.inl rfl)
      | _ => exact throw (.inl rfl)

theorem checkDirectives (seen : List String) {ds ds' : List Value} (related : φ.RelatesAll ds ds') :
    Tallies False φ (Validation.checkDirectives (.writes []) seen ds)
      (Validation.checkDirectives (.writes []) seen ds') Same := by
  induction ds generalizing φ ds' seen with
  | nil =>
    cases related with
    | nil => exact pure rfl
  | cons d ds ih =>
    cases related with
    | cons first rest =>
      simp only [Validation.checkDirectives]
      refine (literal .nil first).bind fun {ψ₁ shown shown'} le₁ same => ?_
      subst same
      cases first with
      | directive paired =>
        refine read fun s t abreast => ?_
        have related := abreast.directive (le₁ _ _ _ paired)
        rw [nameText_eq related.name]
        split
        · exact throwFirst (.inl rfl)
        refine (checkLocations _ related.locations.items).bind fun {ψ₂ _ _} le₂ _ => ?_
        refine (checkArguments _ _ (related.args.mono le₂).items).bind fun {ψ₃ _ _} le₃ _ => ?_
        exact ih _ (RelatesAll.mono (le_trans le₁ (le_trans le₂ le₃)) rest)
      | _ => exact throw (.inl rfl)

theorem validate (related : φ.Relates v v') :
    Tallies False φ (Validation.validate (.writes []) v) (Validation.validate (.writes []) v')
      Same :=
  (elements related).bind fun _ related => checkDirectives [] related

/-! ### Attributes -/

theorem extra (className key : String) {as bs : Attributes} (related : φ.RelatesAttributes as bs) :
    Tallies strict φ (Access.extra className key as) (Access.extra className key bs) Relates := by
  have found : φ.RelatesParts (as.get? key) (bs.get? key) := related.lookup key
  unfold Access.extra
  generalize as.get? key = v at found ⊢
  generalize bs.get? key = w at found ⊢
  cases found with
  | none => exact throw (.inl rfl)
  | some related => exact pure related

theorem get (key : String) (related : φ.Relates v v') :
    Tallies strict φ (Access.get (.writes ws) v key) (Access.get (.writes ws') v' key)
      Relates := by
  refine read fun s t abreast => ?_
  cases related with
  | named paired =>
    have related := abreast.namedType paired
    dsimp only
    split
    · exact pure (typeName related.name)
    · exact extra _ _ related.extra
  | scalar paired =>
    have related := abreast.scalar paired
    dsimp only
    split
    · exact pure (typeName related.name)
    · exact present _ _ related.description
    · exact extra _ _ related.extra
  | wrapper w paired =>
    dsimp only
    split
    · exact wrapped w paired
    · exact extra _ _ (abreast.wrapper paired).extra
  | argument paired =>
    dsimp only
    split
    · exact argumentName paired
    · exact argumentDescription paired
    · exact argumentHasDefault paired
    · exact argumentDefault paired
    · exact type paired
    · exact (argumentRequired paired).mapKept fun _ same => same ▸ .bool _
    · exact extra _ _ (abreast.argument paired).extra
  | directive paired =>
    have related := abreast.directive paired
    dsimp only
    split
    · exact pure related.name
    · exact pure related.description
    · exact pure related.locations
    · exact pure related.args
    · exact pure related.args
    · exact throw (.inl rfl)
  | config tag name locations args description =>
    dsimp only
    split
    · exact pure name
    · exact pure locations
    · exact pure args
    · exact pure description
    · exact throw (.inl rfl)
  | location l =>
    dsimp only
    split
    · exact pure (.text _)
    · exact pure (.text _)
    · exact throw (.inl rfl)
  | _ => exact throw (.inl rfl)

/-! ### Elements and argument maps -/

theorem indexOf?_eq (related : φ.Relates v v') : Access.indexOf? v' = Access.indexOf? v := by
  cases related <;> rfl

theorem elementAt {items items' : List Value} (among : φ.RelatesAll items items')
    (related : φ.Relates v v') (key : φ.Relates w w') :
    Tallies strict φ (Access.elementAt v items w) (Access.elementAt v' items' w') Relates := by
  have found (n : Nat) : φ.RelatesParts items[n]? items'[n]? := by
    induction among generalizing n with
    | nil => exact .none
    | cons first _ ih =>
      cases n with
      | zero => exact .some first
      | succ n => exact ih n
  simp only [Access.elementAt, indexOf?_eq key, among.length_eq, related.className_eq,
    key.className_eq]
  split
  · exact throw (.inl rfl)
  · cases Access.position? items'.length _ with
    | none => exact throw (.inl rfl)
    | some n =>
      have found := found n
      simp only [Option.bind_some]
      generalize items[n]? = x at found ⊢
      generalize items'[n]? = y at found ⊢
      cases found with
      | none => exact throw (.inl rfl)
      | some related => exact pure related

/-- What was looked for is found, or the fault shows the key. -/
theorem foundOr {found found' : Option Value} (related : φ.RelatesParts found found')
    (key : φ.Relates w w') :
    Tallies strict φ
      (match found with
        | some x => Pure.pure x
        | none => do MonadExcept.throw (.missingKey (← Display.literal (.writes []) w)))
      (match found' with
        | some x => Pure.pure x
        | none => do MonadExcept.throw (.missingKey (← Display.literal (.writes []) w')))
      Relates := by
  cases related with
  | some related => exact pure related
  | none =>
    refine (literal .nil key).bindKept (fun _ _ => Evolves.lasting.throw _) fun _ same => ?_
    subst same
    exact throw (.inl rfl)

theorem item (related : φ.Relates v v') (key : φ.Relates w w') :
    Tallies False φ (Access.item (.writes []) v w) (Access.item (.writes []) v' w') Relates := by
  have positioned : Tallies False φ
      (do Access.elementAt v (← Container.elements v) w)
      (do Access.elementAt v' (← Container.elements v') w') Relates :=
    (elements related).bind fun le among => elementAt among (related.mono le) (key.mono le)
  cases related with
  | list | bytes | tuple | config | text | location => exact positioned
  | dict paired =>
    refine read fun s t abreast => ?_
    exact (valueAt (abreast.dict paired) key).bind fun le found => foundOr found (key.mono le)
  | _ => exact throw (.inl rfl)

theorem asDirective (operation : String) (related : φ.Relates v v') :
    Tallies strict φ (Access.asDirective v operation) (Access.asDirective v' operation)
      RelatesRefs := by
  cases related with
  | directive paired => exact pure paired
  | _ => exact throw (.inl rfl)

theorem addNamed {es es' : List Entry} (entries : φ.RelatesDicts es es')
    (related : φ.Relates v v') :
    Tallies False φ (Access.addNamed (.writes []) es v) (Access.addNamed (.writes []) es' v')
      RelatesDicts :=
  (get "name" related).bind fun le name =>
    assign (entries.imp fun _ _ e => e.mono le) name (related.mono le)

theorem argumentMap {r r' : Ref .directive} (paired : φ (some .directive) r.index r'.index) :
    Tallies False φ (Access.argumentMap (.writes []) r) (Access.argumentMap (.writes []) r')
      RelatesDicts :=
  read fun _ _ abreast => foldlM (R := Relates) (S := RelatesDicts)
    (fun le related => related.mono le) addNamed (abreast.directive paired).args.items .nil

theorem mapGet (related : φ.Relates v v') (key : φ.Relates w w') :
    Tallies False φ (Access.mapGet (.writes []) v w) (Access.mapGet (.writes []) v' w')
      Relates := by
  have map : Tallies False φ (Access.mapOf (.writes []) v) (Access.mapOf (.writes []) v')
      RelatesDicts :=
    (asDirective "argument_map" related).bind fun _ paired => argumentMap paired
  refine map.bind fun {ψ₁ es es'} le₁ entries => ?_
  exact (valueAt entries (key.mono le₁)).bind fun le₂ found =>
    foundOr found (key.mono (le_trans le₁ le₂))

theorem fromConfig (related : φ.Relates v v') :
    Tallies False φ (Access.fromConfig (.writes []) v) (Access.fromConfig (.writes []) v')
      RelatesRefs := by
  refine (get "name" related).bind fun {ψ₁ name name'} le₁ names => ?_
  have related := related.mono le₁
  refine (get "locations" related).bind fun {ψ₂ locations locations'} le₂ places => ?_
  have related := related.mono le₂
  refine (get "args" related).bind fun {ψ₃ args args'} le₃ arguments => ?_
  have related := related.mono le₃
  refine (get "description" related).bind fun {ψ₄ description description'} le₄ descriptions => ?_
  have le₃₄ := le_trans le₃ le₄
  exact create (names.mono (le_trans le₂ le₃₄)) (places.mono le₃₄) (arguments.mono le₄)
    descriptions

end Tallies

end DirectiveSchema
