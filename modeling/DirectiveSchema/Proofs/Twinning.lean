import DirectiveSchema.Proofs.Examining
import DirectiveSchema.Copy

/-!
Copies tally. Shallow and deep copies of paired data are paired, and are made of the same parts:
what was copied before is met again in both sessions, since what a copy carries along is paired as
well, and a cell is filled in both sessions once its parts are copied.
-/
namespace DirectiveSchema

open Pairing

variable {α β α' β' σ : Type} {φ ψ : Pairing} {strict : Prop} {v v' : Value} {k : CellKind}
  {i j : Nat} {c c' : Cell}

/-! ### What is copied alike -/

/-- The built-in scalars stand for themselves in every session. -/
theorem Abreast.isScalar_eq {s t : Session} (h : Abreast φ s t) {r r' : Ref .scalar}
    (paired : φ (some .scalar) r.index r'.index) : BuiltIn.isScalar r' = BuiltIn.isScalar r := by
  obtain ⟨_, ahead⟩ := h
  have same {q : Ref .scalar} (builtIn : BuiltIn.isScalar q = true) :
      φ (some .scalar) q.index q.index := ahead.scalars builtIn
  rw [Bool.eq_iff_iff]
  constructor
  · intro builtIn
    have : r = r' := congrArg Ref.mk ((ahead.one.iff paired (same builtIn)).2 rfl)
    rwa [this]
  · intro builtIn
    have : r' = r := congrArg Ref.mk ((ahead.one.iff paired (same builtIn)).1 rfl)
    rwa [this]

/-! ### Cells that are known -/

theorem Arena.put_add {α : Type} (a : Arena α) (x y : α) : (a.add x).put a.size y = a.add y := by
  obtain ⟨cells⟩ := a
  simp only [put, add, size, mk.injEq]
  refine Array.ext (by simp) fun j hj hj' => ?_
  have bound : j < cells.size + 1 := by simpa using hj'
  rw [Array.getElem_setIfInBounds (by simpa using bound), Array.getElem_push, Array.getElem_push]
  split <;> split <;> first | rfl | omega

/-- A cell that is filled at once is added as it is. -/
theorem Session.put_add (s : Session) (kind : c.kind = c'.kind) :
    (s.add c).put (s.count c.kind) c' = s.add c' := by
  cases c <;> cases c' <;> cases kind <;>
    simp only [add, put, putList, putSet, putDict, putNamedType, putScalar, putWrapper, putArgument,
      count, Cell.kind, Arena.put_add]

theorem Action.newCell_eq (kind : c.kind = c'.kind) :
    newCell c' = (do
      let i ← newCell c
      modify fun s => s.put i c'
      return i) := by
  funext s
  show EStateM.Result.ok (s.count c'.kind) (s.add c') =
    EStateM.Result.ok (s.count c.kind) ((s.add c).put (s.count c.kind) c')
  rw [s.put_add kind, kind]

namespace Tallies

/-- Paired cells are filled alike. -/
theorem fill (paired : φ (some k) i j) (kind : c.kind = k) (cells : φ.RelatesCells c c')
    (resolved : c.resolved? = none → c'.resolved? = none) :
    Tallies strict φ (modify fun s => s.put i c : Action Unit) (modify fun s => s.put j c') Same :=
  fun _ _ ⟨home, ahead⟩ =>
    .ok rfl rfl (le_refl φ) ⟨home, ahead.put paired kind cells resolved⟩ rfl

/-- Whether a scalar is built in is known to tally only where sessions are abreast. -/
theorem of_isScalar {x : Action α} {y : Action β} {post : Pairing → α → β → Prop}
    {r r' : Ref .scalar} (paired : φ (some .scalar) r.index r'.index)
    (h : BuiltIn.isScalar r' = BuiltIn.isScalar r → Tallies strict φ x y post) :
    Tallies strict φ x y post :=
  fun s t abreast => h (abreast.isScalar_eq paired) s t abreast

/-- New cells may be known already, as those of copies are: they are added blank and filled. -/
theorem newCell (cells : φ.RelatesCells c c')
    (resolved : c.resolved? = none → c'.resolved? = none) :
    Tallies False φ (Action.newCell c) (Action.newCell c') fun ψ i j => ψ (some c.kind) i j := by
  have blank := tandem.newCell (cells.resolve .null) (c'.resolved?_resolve_null)
  rw [c.kind_resolve] at blank
  rw [Action.newCell_eq (c.kind_resolve .null), Action.newCell_eq (c'.kind_resolve .null)]
  exact blank.bind fun le paired =>
    (fill paired rfl (cells.mono le) resolved).mapKept fun le' _ => le' _ _ _ paired

theorem newWrapper {c c' : WrappingType} (related : φ.RelatesWrappers c c')
    (resolved : c.resolved = none → c'.resolved = none) :
    Tallies False φ (Action.newWrapper c) (Action.newWrapper c') RelatesRefs :=
  (newCell (c := .wrapper c) (.wrapper related) resolved).mapKept (f := Ref.mk) (g := Ref.mk)
    fun _ cell => cell

theorem newArgument {c c' : Argument} (related : φ.RelatesArguments c c')
    (resolved : c.resolved = none → c'.resolved = none) :
    Tallies False φ (Action.newArgument c) (Action.newArgument c') RelatesRefs :=
  (newCell (c := .argument c) (.argument related) resolved).mapKept (f := Ref.mk) (g := Ref.mk)
    fun _ cell => cell

/-- A wrapper over a type that both sessions know. -/
theorem known (related : φ.Relates v v') :
    φ.RelatesWrappers (Types.known v) (Types.known v') :=
  ⟨.some related, related.kept.informs, .nil⟩

/-! ### Shallow copies -/

theorem shallowCopy (related : φ.Relates v v') :
    Tallies False φ (v.shallowCopy (.writes [])) (v'.shallowCopy (.writes [])) Relates := by
  have related' := related
  cases related with
  | foreign text tag => exact tandem.freshTag.mapKept fun _ tag => .foreign text tag
  | config tag name locations args description =>
    exact tandem.freshTag.mapKept fun le tag =>
      .config tag (name.mono le) (locations.mono le) (args.mono le) (description.mono le)
  | list paired =>
    exact read fun s t abreast => (tandem.newList (abreast.list paired)).mapKept fun _ cell =>
      .list cell
  | set paired =>
    exact read fun s t abreast => (tandem.newSet (abreast.set paired)).mapKept fun _ cell =>
      .set cell
  | dict paired =>
    exact read fun s t abreast => (tandem.newDict (abreast.dict paired)).mapKept fun _ cell =>
      .dict cell
  | named paired =>
    exact read fun s t abreast =>
      (tandem.newNamedType (abreast.namedType paired)).mapKept fun _ cell => .named cell
  | @scalar r r' paired =>
    refine of_isScalar paired fun same => ?_
    simp only [Value.shallowCopy, same]
    split
    · exact pure related'
    · refine read fun s t abreast => ?_
      have cell := abreast.scalar paired
      refine (present "ScalarType" "description" cell.description).bind
        fun {ψ₁ d d'} le₁ description => ?_
      have copied : ψ₁.RelatesScalars
          { s.scalar r with
            name := some (Display.typeName (s.scalar r).name)
            description := some d
            extra := [] }
          { t.scalar r' with
            name := some (Display.typeName (t.scalar r').name)
            description := some d'
            extra := [] } :=
        ⟨.some ((typeName cell.name).mono le₁), .some description, cell.serialize.mono le₁,
          cell.parse.mono le₁, .nil⟩
      exact (tandem.newScalar copied).mapKept fun _ cell => .scalar cell
  | wrapper w paired =>
    refine (wrapped w paired).bind fun {ψ₁ _ _} le₁ _ => ?_
    refine (wrapped w (le₁ _ _ _ paired)).bind fun {ψ₂ _ _} le₂ type => ?_
    exact (newWrapper (known type) type.kept.eq_none).mapKept fun _ cell => .wrapper w cell
  | @argument r r' paired =>
    refine (type paired).bind fun {ψ₁ u u'} le₁ type => read fun s t abreast => ?_
    have cell := abreast.argument (le₁ _ _ _ paired)
    have copied : ψ₁.RelatesArguments
        { s.argument r with source := u, resolved := Types.kept u }
        { t.argument r' with source := u', resolved := Types.kept u' } :=
      { cell with source := type, resolved := type.kept.informs }
    exact (newArgument copied type.kept.eq_none).mapKept fun _ cell => .argument cell
  | deferred => exact throw (.inl rfl)
  | _ => exact pure related'

end Tallies

/-! ### What is carried along -/

/-- Actions that carry something along, which is related in both sessions, and tally. -/
structure Carries (R : Pairing → σ → σ → Prop) (φ : Pairing) (x : StateT σ Action α)
    (y : StateT σ Action β) (post : Pairing → α → β → Prop) : Prop where
  tallies {c c' : σ} : R φ c c' →
    Tallies False φ (x c) (y c') fun ψ p q => post ψ p.1 q.1 ∧ R ψ p.2 q.2

namespace Carries

variable {R : Pairing → σ → σ → Prop} {mid post : Pairing → α → β → Prop}
  {next : Pairing → α' → β' → Prop} {x : StateT σ Action α} {y : StateT σ Action β}
  {f : α → StateT σ Action α'} {g : β → StateT σ Action β'}

theorem pure {a : α} {b : β} (related : post φ a b) :
    Carries R φ (Pure.pure a) (Pure.pure b) post :=
  ⟨fun carried => .pure ⟨related, carried⟩⟩

theorem throw {e : Fault} (plain : e.IsPlain) :
    Carries R φ (MonadExcept.throw e : StateT σ Action α)
      (MonadExcept.throw e : StateT σ Action β) post :=
  ⟨fun _ _ _ abreast => .error rfl rfl (le_refl φ) abreast (.refl plain) False.elim⟩

theorem bind (first : Carries R φ x y mid)
    (rest : ∀ {ψ a b}, φ ≤ ψ → mid ψ a b → Carries R ψ (f a) (g b) next) :
    Carries R φ (x >>= f) (y >>= g) next :=
  ⟨fun carried => (first.tallies carried).bind fun le related =>
    (rest le related.1).tallies related.2⟩

theorem map {f : α → α'} {g : β → β'} (first : Carries R φ x y mid)
    (rest : ∀ {ψ a b}, φ ≤ ψ → mid ψ a b → next ψ (f a) (g b)) :
    Carries R φ (do return f (← x)) (do return g (← y)) next :=
  first.bind fun le related => pure (rest le related)

theorem weaken (first : Carries R φ x y mid)
    (rest : ∀ {ψ a b}, φ ≤ ψ → mid ψ a b → post ψ a b) : Carries R φ x y post :=
  ⟨fun carried => (first.tallies carried).weaken fun le related =>
    ⟨rest le related.1, related.2⟩⟩

/-- What does not touch what is carried. -/
theorem lift (mono : ∀ {φ ψ c c'}, φ ≤ ψ → R φ c c' → R ψ c c') {x : Action α} {y : Action β}
    (tally : Tallies False φ x y post) :
    Carries R φ (liftM x : StateT σ Action α) (liftM y : StateT σ Action β) post :=
  ⟨fun carried => tally.bind fun le related => .pure ⟨related, mono le carried⟩⟩

/-- What is carried is looked at. -/
theorem look {f : σ → StateT σ Action α} {g : σ → StateT σ Action β}
    (rest : ∀ {c c'}, R φ c c' → Carries R φ (f c) (g c') post) :
    Carries R φ (get >>= f) (get >>= g) post :=
  ⟨fun carried => (rest carried).tallies carried⟩

/-- The sessions are looked at. -/
theorem read {f : Session → StateT σ Action α} {g : Session → StateT σ Action β}
    (rest : ∀ s t, Abreast φ s t → Carries R φ (f s) (g t) post) :
    Carries R φ (getThe Session >>= f) (getThe Session >>= g) post :=
  ⟨fun {c c'} carried => Tallies.read (f := fun s => f s c) (g := fun t => g t c')
    fun s t abreast => (rest s t abreast).tallies carried⟩

theorem of_one (h : φ.OneToOne → Carries R φ x y post) : Carries R φ x y post :=
  ⟨fun carried => .of_one fun one => (h one).tallies carried⟩

theorem of_isScalar {r r' : Ref .scalar} (paired : φ (some .scalar) r.index r'.index)
    (h : BuiltIn.isScalar r' = BuiltIn.isScalar r → Carries R φ x y post) :
    Carries R φ x y post :=
  ⟨fun carried => .of_isScalar paired fun same => (h same).tallies carried⟩

theorem mapM {S : Pairing → α → β → Prop} {T : Pairing → α' → β' → Prop}
    (mono : ∀ {φ ψ a b}, φ ≤ ψ → S φ a b → S ψ a b)
    (mono' : ∀ {φ ψ a b}, φ ≤ ψ → T φ a b → T ψ a b)
    (step : ∀ {φ a b}, S φ a b → Carries R φ (f a) (g b) T) {as : List α} {bs : List β}
    (related : List.Forall₂ (S φ) as bs) :
    Carries R φ (as.mapM f) (bs.mapM g) fun ψ => List.Forall₂ (T ψ) := by
  induction as generalizing φ bs with
  | nil =>
    cases related with
    | nil => exact pure .nil
  | cons a as ih =>
    cases related with
    | cons first rest =>
      rw [List.mapM_cons, List.mapM_cons]
      refine (step first).bind fun {ψ _ _} le related => ?_
      exact (ih (rest.imp fun _ _ => mono le)).map fun le' rest => .cons (mono' le' related) rest

theorem foldlM {S : Pairing → α → β → Prop} {T : Pairing → α' → β' → Prop}
    {f : α' → α → StateT σ Action α'} {g : β' → β → StateT σ Action β'}
    (mono : ∀ {φ ψ a b}, φ ≤ ψ → S φ a b → S ψ a b)
    (step : ∀ {φ a b c d}, T φ c d → S φ a b → Carries R φ (f c a) (g d b) T)
    {as : List α} {bs : List β} (related : List.Forall₂ (S φ) as bs) {c : α'} {d : β'}
    (done : T φ c d) : Carries R φ (as.foldlM f c) (bs.foldlM g d) T := by
  induction as generalizing φ bs c d with
  | nil =>
    cases related with
    | nil => exact pure done
  | cons a as ih =>
    cases related with
    | cons first rest =>
      rw [List.foldlM_cons, List.foldlM_cons]
      exact (step done first).bind fun le done => ih (rest.imp fun _ _ => mono le) done

/-- The four fields of a record or of a directive, in their order. -/
theorem fields {T : Pairing → α → β → Prop} {f : Value → StateT σ Action α}
    {g : Value → StateT σ Action β} (mono : ∀ {φ ψ a b}, φ ≤ ψ → T φ a b → T ψ a b)
    (step : ∀ {φ v v'}, φ.Relates v v' → Carries R φ (f v) (g v') T)
    {v₁ v₁' v₂ v₂' v₃ v₃' v₄ v₄' : Value} (h₁ : φ.Relates v₁ v₁') (h₂ : φ.Relates v₂ v₂')
    (h₃ : φ.Relates v₃ v₃') (h₄ : φ.Relates v₄ v₄')
    {rest : α → α → α → α → StateT σ Action α'} {rest' : β → β → β → β → StateT σ Action β'}
    (last : ∀ {ψ a a' b b' c c' d d'}, φ ≤ ψ → T ψ a a' → T ψ b b' → T ψ c c' → T ψ d d' →
      Carries R ψ (rest a b c d) (rest' a' b' c' d') next) :
    Carries R φ
      (do rest (← f v₁) (← f v₂) (← f v₃) (← f v₄))
      (do rest' (← g v₁') (← g v₂') (← g v₃') (← g v₄')) next := by
  refine (step h₁).bind fun {ψ₁ a a'} le₁ first => ?_
  refine (step (h₂.mono le₁)).bind fun {ψ₂ b b'} le₂ second => ?_
  have le₁₂ := le_trans le₁ le₂
  refine (step (h₃.mono le₁₂)).bind fun {ψ₃ c c'} le₃ third => ?_
  have le₁₃ := le_trans le₁₂ le₃
  refine (step (h₄.mono le₁₃)).bind fun {ψ₄ d d'} le₄ fourth => ?_
  have le₃₄ := le_trans le₃ le₄
  exact last (le_trans le₁₃ le₄) (mono (le_trans le₂ le₃₄) first) (mono le₃₄ second)
    (mono le₄ third) fourth

/-- Paired cells are filled alike. -/
theorem fill (mono : ∀ {φ ψ c c'}, φ ≤ ψ → R φ c c' → R ψ c c') {k : CellKind} {i j : Nat}
    {c c' : Cell} (paired : φ (some k) i j) (kind : c.kind = k) (cells : φ.RelatesCells c c')
    (resolved : c.resolved? = none → c'.resolved? = none) :
    Carries R φ (modifyThe Session fun s => s.put i c) (modifyThe Session fun s => s.put j c')
      Same :=
  lift (R := R) mono (.fill paired kind cells resolved)

end Carries

/-! ### Deep copies -/

namespace DeepCopy

/-- Copies of parts that are made alike. -/
abbrev CopiesAlike (φ : Pairing) (x y : Copying Value) : Prop :=
  Carries RelatesAssignments φ x y Relates

theorem Memo.find?_related (one : φ.OneToOne) {memo memo' : Memo}
    (h : φ.RelatesAssignments memo memo') (related : φ.Relates v v') :
    φ.RelatesParts (memo.find? v) (memo'.find? v') := by
  induction h with
  | nil => exact .none
  | @cons p q _ _ first _ ih =>
    simp only [Memo.find?, List.find?_cons, first.1.same_eq one related] at ih ⊢
    cases p.1.same v with
    | true => exact .some first.2
    | false => exact ih

theorem sameItems_eq (one : φ.OneToOne) {xs xs' ys ys' : List Value} (h : φ.RelatesAll xs xs')
    (h' : φ.RelatesAll ys ys') : sameItems xs' ys' = sameItems xs ys := by
  unfold sameItems
  induction h generalizing ys ys' with
  | nil => rfl
  | cons first _ ih =>
    cases h' with
    | nil => rfl
    | cons second rest =>
      rw [List.zip_cons_cons, List.zip_cons_cons, List.all_cons, List.all_cons, ih rest,
        first.same_eq one second]

section

variable {f f' : Value → Copying Value}
  (parts : ∀ {φ v v'}, φ.Relates v v' → CopiesAlike φ (f v) (f' v'))

theorem memorized (related : φ.Relates v v') {copy copy' : Value} (copies : φ.Relates copy copy') :
    CopiesAlike φ (remember v copy) (remember v' copy') :=
  ⟨fun carried => .pure ⟨copies, .cons ⟨related, copies⟩ carried⟩⟩

theorem lifted {α β : Type} {x : Action α} {y : Action β} {post : Pairing → α → β → Prop}
    (tally : Tallies False φ x y post) :
    Carries RelatesAssignments φ (liftM x : Copying α) (liftM y : Copying β) post :=
  .lift (R := RelatesAssignments) RelatesAssignments.mono tally

include parts

theorem partCopied {v v' : Option Value} (related : φ.RelatesParts v v') :
    Carries RelatesAssignments φ (part f v) (part f' v') RelatesParts := by
  cases related with
  | none => exact .pure .none
  | some related => exact (parts related).map fun _ related => .some related

theorem attributesCopied {as as' : Attributes} (related : φ.RelatesAttributes as as') :
    Carries RelatesAssignments φ (attributes f as) (attributes f' as') RelatesAttributes := by
  refine Carries.mapM (S := fun φ (p q : String × Value) => p.1 = q.1 ∧ φ.Relates p.2 q.2)
    (T := fun φ (p q : String × Value) => p.1 = q.1 ∧ φ.Relates p.2 q.2)
    (fun le related => ⟨related.1, related.2.mono le⟩)
    (fun le related => ⟨related.1, related.2.mono le⟩) (fun related => ?_) related
  exact (parts related.2).map fun _ copied => ⟨related.1, copied⟩

theorem allCopied {vs vs' : List Value} (related : φ.RelatesAll vs vs') :
    Carries RelatesAssignments φ (vs.mapM f) (vs'.mapM f') RelatesAll :=
  Carries.mapM (S := Relates) (T := Relates) (fun le related => related.mono le)
    (fun le related => related.mono le) parts related

theorem addEntryCopied {es es' : List Entry} {e e' : Entry} (entries : φ.RelatesDicts es es')
    (entry : φ.RelatesEntries e e') :
    Carries RelatesAssignments φ (addEntry (.writes []) f es e) (addEntry (.writes []) f' es' e')
      RelatesDicts := by
  refine (parts entry.value).bind fun {ψ₁ x x'} le₁ value => ?_
  refine (parts (entry.key.mono le₁)).bind fun {ψ₂ y y'} le₂ key => ?_
  have le := le_trans le₁ le₂
  exact lifted (.assign (entries.imp fun _ _ e => e.mono le) key (value.mono le₂))

omit parts in
/-- A cell is remembered before its parts are copied, and filled then. -/
theorem filled {k : CellKind} {r r' : Ref k} {c c' : Cell} (paired : RelatesRefs φ r r')
    (cells : φ.RelatesCells c c') (kind : c.kind = k)
    (resolved : c.resolved? = none → c'.resolved? = none) {copy copy' : Value}
    (copied : φ.Relates copy copy') :
    CopiesAlike φ (do
        modifyThe Session fun s => s.put r.index c
        return copy)
      (do
        modifyThe Session fun s => s.put r'.index c'
        return copy') :=
  (Carries.fill (R := RelatesAssignments) RelatesAssignments.mono paired kind cells resolved).bind
    fun le _ => .pure (copied.mono le)

/-- What is copied for a name and further attributes, or for the parts of a cell, is kept in a new
cell of its own; each part is paired as soon as it is copied. -/
theorem ofObjectCopied (related : φ.Relates v v') :
    CopiesAlike φ (ofObject (.writes []) f v) (ofObject (.writes []) f' v') := by
  have related' := related
  cases related with
  | foreign text tag =>
    exact (lifted Tallies.tandem.freshTag).bind fun le tag =>
      memorized (related'.mono le) (.foreign text tag)
  | tuple tag same items =>
    refine (allCopied parts related'.items).bind fun {ψ₁ xs xs'} le₁ copies => ?_
    refine .look fun {memo memo'} carried => .of_one fun one => ?_
    have found := Memo.find?_related one carried (related'.mono le₁)
    generalize Memo.find? memo _ = x at found ⊢
    generalize Memo.find? memo' _ = x' at found ⊢
    cases found with
    | some copied => exact .pure copied
    | none =>
      simp only [sameItems_eq one (RelatesAll.mono le₁ related'.items) copies]
      split
      · exact .pure (related'.mono le₁)
      · exact (lifted (Tallies.tandem.newRow copies)).bind fun le₂ row =>
          memorized (related'.mono (le_trans le₁ le₂)) row
  | config tag name locations args description =>
    refine Carries.fields (T := Relates) (fun le copied => copied.mono le) parts name locations args
      description fun {ψ₁ _ _ _ _ _ _ _ _} le₁ name locations args description => ?_
    refine (lifted Tallies.tandem.freshTag).bind fun {ψ₂ n n'} le₂ tag => ?_
    exact memorized (related'.mono (le_trans le₁ le₂))
      (.config tag (name.mono le₂) (locations.mono le₂) (args.mono le₂) (description.mono le₂))
  | list paired =>
    refine .read fun s t abreast => ?_
    refine (lifted (Tallies.tandem.newList .nil)).bind fun {ψ₁ r r'} le₁ new => ?_
    refine (memorized (related'.mono le₁) (.list new)).bind fun {ψ₂ x x'} le₂ copied => ?_
    have items := RelatesAll.mono (le_trans le₁ le₂) (abreast.list paired)
    refine (allCopied parts items).bind fun {ψ₃ xs xs'} le₃ copies => ?_
    exact filled (le_trans le₂ le₃ _ _ _ new) (.list copies) rfl (fun _ => rfl) (copied.mono le₃)
  | set paired =>
    refine .read fun s t abreast => ?_
    refine (Carries.mapM (S := RelatesMembers) (T := Relates) (fun le m => m.mono le)
      (fun le related => related.mono le) (fun m => parts m.value) (abreast.set paired)).bind
      fun {ψ₁ xs xs'} le₁ copies => ?_
    refine (lifted (.distinct copies)).bind fun {ψ₂ ms ms'} le₂ members => ?_
    refine (lifted (Tallies.tandem.newSet members)).bind fun le₃ new => ?_
    exact memorized (related'.mono (le_trans le₁ (le_trans le₂ le₃))) (.set new)
  | dict paired =>
    refine .read fun s t abreast => ?_
    refine (lifted (Tallies.tandem.newDict .nil)).bind fun {ψ₁ r r'} le₁ new => ?_
    refine (memorized (related'.mono le₁) (.dict new)).bind fun {ψ₂ x x'} le₂ copied => ?_
    have entries : ψ₂.RelatesDicts _ _ :=
      (abreast.dict paired).imp fun _ _ e => e.mono (le_trans le₁ le₂)
    refine (Carries.foldlM (S := RelatesEntries) (T := RelatesDicts) (fun le e => e.mono le)
      (addEntryCopied parts) entries .nil).bind fun {ψ₃ es es'} le₃ copies => ?_
    exact filled (le_trans le₂ le₃ _ _ _ new) (.dict copies) rfl (fun _ => rfl) (copied.mono le₃)
  | named paired =>
    refine .read fun s t abreast => ?_
    refine (lifted (Tallies.tandem.newNamedType ⟨.none, .nil⟩)).bind fun {ψ₁ r r'} le₁ new => ?_
    refine (memorized (related'.mono le₁) (.named new)).bind fun {ψ₂ x x'} le₂ copied => ?_
    have cell := abreast.namedType paired
    have le₁₂ := le_trans le₁ le₂
    refine (partCopied parts (RelatesParts.mono le₁₂ cell.name)).bind fun {ψ₃ a a'} le₃ name => ?_
    refine (attributesCopied parts (RelatesAttributes.mono (le_trans le₁₂ le₃) cell.extra)).bind
      fun {ψ₄ b b'} le₄ extra => ?_
    have le₃₄ := le_trans le₃ le₄
    exact filled (le_trans le₂ le₃₄ _ _ _ new)
      (.named ⟨RelatesParts.mono le₄ name, extra⟩) rfl (fun _ => rfl) (copied.mono le₃₄)
  | @scalar r r' paired =>
    refine .of_isScalar paired fun same => ?_
    simp only [ofObject, same]
    split
    · exact .pure related'
    · refine .read fun s t abreast => ?_
      have cell := abreast.scalar paired
      refine (lifted (.present "ScalarType" "description" cell.description)).bind
        fun {ψ₁ d d'} le₁ description => ?_
      refine (parts ((Tallies.typeName cell.name).mono le₁)).bind fun {ψ₂ a a'} le₂ name => ?_
      refine (parts (description.mono le₂)).bind fun {ψ₃ b b'} le₃ description => ?_
      have le₁₃ := le_trans le₁ (le_trans le₂ le₃)
      have copied : ψ₃.RelatesScalars
          { s.scalar r with name := some a, description := some b, extra := [] }
          { t.scalar r' with name := some a', description := some b', extra := [] } :=
        ⟨.some (name.mono le₃), .some description, cell.serialize.mono le₁₃,
          cell.parse.mono le₁₃, .nil⟩
      exact (lifted (Tallies.tandem.newScalar copied)).bind fun le₄ new =>
        memorized (related'.mono (le_trans le₁₃ le₄)) (.scalar new)
  | wrapper w paired =>
    refine (lifted (.wrapped w paired)).bind fun {ψ₁ _ _} le₁ _ => ?_
    refine (lifted (.wrapped w (le₁ _ _ _ paired))).bind fun {ψ₂ u u'} le₂ type => ?_
    refine (lifted (Tallies.tandem.newWrapper ⟨.none, .none _, .nil⟩ rfl)).bind
      fun {ψ₃ r r'} le₃ new => ?_
    have le₁₃ := le_trans le₁ (le_trans le₂ le₃)
    refine (memorized (related'.mono le₁₃) (.wrapper w new)).bind fun {ψ₄ x x'} le₄ copied => ?_
    refine (parts (type.mono (le_trans le₃ le₄))).bind fun {ψ₅ y y'} le₅ type => ?_
    exact filled (le_trans le₄ le₅ _ _ _ new) (.wrapper (Tallies.known type)) rfl type.kept.eq_none
      (copied.mono le₅)
  | argument paired =>
    refine (lifted (.type paired)).bind fun {ψ₁ u u'} le₁ type => ?_
    refine .read fun s t abreast => ?_
    have cell := abreast.argument (le₁ _ _ _ paired)
    have blank : ψ₁.RelatesArguments .blank .blank :=
      ⟨.none, .none, .none, .none, .null, .none _, .nil⟩
    refine (lifted (Tallies.tandem.newArgument blank rfl)).bind fun {ψ₂ r r'} le₂ new => ?_
    have le₁₂ := le_trans le₁ le₂
    refine (memorized (related'.mono le₁₂) (.argument new)).bind fun {ψ₃ x x'} le₃ copied => ?_
    have le := le_trans le₂ le₃
    refine (partCopied parts (RelatesParts.mono le cell.name)).bind fun {ψ₄ a a'} le₄ name => ?_
    have le := le_trans le le₄
    refine (partCopied parts (RelatesParts.mono le cell.description)).bind
      fun {ψ₅ b b'} le₅ description => ?_
    have le := le_trans le le₅
    refine (partCopied parts (RelatesParts.mono le cell.hasDefault)).bind
      fun {ψ₆ c c'} le₆ hasDefault => ?_
    have le := le_trans le le₆
    refine (partCopied parts (RelatesParts.mono le cell.default)).bind
      fun {ψ₇ d d'} le₇ default => ?_
    have le := le_trans le le₇
    refine (parts (type.mono le)).bind fun {ψ₈ e e'} le₈ type => ?_
    have le := le_trans le le₈
    refine (attributesCopied parts (RelatesAttributes.mono le cell.extra)).bind
      fun {ψ₉ g g'} le₉ extra => ?_
    have le₈ := le_trans le₈ le₉
    have le₇ := le_trans le₇ le₈
    have le₆ := le_trans le₆ le₇
    have le₅ := le_trans le₅ le₆
    have type := type.mono le₉
    have built : ψ₉.RelatesArguments ⟨a, b, c, d, e, Types.kept e, g⟩
        ⟨a', b', c', d', e', Types.kept e', g'⟩ :=
      ⟨RelatesParts.mono le₅ name, RelatesParts.mono le₆ description,
        RelatesParts.mono le₇ hasDefault, RelatesParts.mono le₈ default, type,
        type.kept.informs, extra⟩
    exact filled (le_trans le₃ (le_trans le₄ le₅) _ _ _ new) (.argument built) rfl
      type.kept.eq_none (copied.mono (le_trans le₄ le₅))
  | deferred => exact .throw (.inl rfl)
  | _ => exact .pure related'

end

theorem copiedWithin {n m : Nat} (le : n ≤ m) (related : φ.Relates v v') :
    CopiesAlike φ (copyWithin (.writes []) n v) (copyWithin (.writes []) m v') := by
  induction n generalizing m φ v v' with
  | zero => exact ⟨fun _ => .noRoom rfl False.elim⟩
  | succ n ih =>
    obtain ⟨m, rfl⟩ := Nat.exists_eq_add_of_lt le
    refine .look fun {memo memo'} carried => .of_one fun one => ?_
    have found := Memo.find?_related one carried related
    generalize Memo.find? memo v = x at found ⊢
    generalize Memo.find? memo' v' = x' at found ⊢
    cases found with
    | some copied => exact .pure copied
    | none => exact ofObjectCopied (fun related => ih (Nat.le_add_right n m) related) related

end DeepCopy

theorem Tallies.deepCopy (related : φ.Relates v v') :
    Tallies False φ (DeepCopy.copy (.writes []) v) (DeepCopy.copy (.writes []) v') Relates :=
  boundedPairs related.depth_eq fun _ _ _ le =>
    ((DeepCopy.copiedWithin le related).tallies .nil).mapKept fun _ related => related.1

end DirectiveSchema
