import DirectiveSchema.Proofs.Twinning

/-!
Stored copies tally. Paired data have snapshots of one shape, over paired atoms: what was pictured
before has the same number in both sessions. From such snapshots paired objects are built, in the
same order and under the same numbers.
-/
namespace DirectiveSchema

open Pairing

variable {α β : Type} {φ ψ : Pairing} {v v' : Value}

namespace Pairing

mutual

/-- Snapshots of one shape over paired data. -/
inductive Likens (φ : Pairing) : Snapshot → Snapshot → Prop where
  | atom {v v' : Value} : φ.Relates v v' → Likens φ (.atom v) (.atom v')
  | nan : Likens φ .nan .nan
  | seen (k : Nat) : Likens φ (.seen k) (.seen k)
  | foreign (k : Nat) (text : String) : Likens φ (.foreign k text) (.foreign k text)
  | tuple (slot : Slot) {ps ps' : List Snapshot} :
      LikensAll φ ps ps' → Likens φ (.tuple slot ps) (.tuple slot ps')
  | config (slot : Slot) {p₁ p₁' p₂ p₂' p₃ p₃' p₄ p₄' : Snapshot} : Likens φ p₁ p₁' →
      Likens φ p₂ p₂' → Likens φ p₃ p₃' → Likens φ p₄ p₄' →
        Likens φ (.config slot p₁ p₂ p₃ p₄) (.config slot p₁' p₂' p₃' p₄')
  | list (k : Nat) {ps ps' : List Snapshot} :
      LikensAll φ ps ps' → Likens φ (.list k ps) (.list k ps')
  | set (k : Nat) {ps ps' : List Snapshot} :
      LikensAll φ ps ps' → Likens φ (.set k ps) (.set k ps')
  | dict (k : Nat) {ps ps' : List (Snapshot × Snapshot)} :
      LikensEntries φ ps ps' → Likens φ (.dict k ps) (.dict k ps')
  | named (k : Nat) {name name' : Option Snapshot} {extra extra' : List (String × Snapshot)} :
      LikensPart φ name name' → LikensAttributes φ extra extra' →
        Likens φ (.named k name extra) (.named k name' extra')
  | scalar (slot : Slot) {name name' description description' : Snapshot}
      {serialize serialize' parse parse' : Coercion} : Likens φ name name' →
      Likens φ description description' → φ.RelatesCoercions serialize serialize' →
        φ.RelatesCoercions parse parse' → Likens φ (.scalar slot name description serialize parse)
          (.scalar slot name' description' serialize' parse')
  | wrapper (k : Nat) (w : Wrapper) {type type' : Snapshot} :
      Likens φ type type' → Likens φ (.wrapper k w type) (.wrapper k w type')
  | argument (k : Nat) {name name' description description' hasDefault hasDefault' default
        default' : Option Snapshot} {type type' : Snapshot}
        {extra extra' : List (String × Snapshot)} :
      LikensPart φ name name' → LikensPart φ description description' →
      LikensPart φ hasDefault hasDefault' → LikensPart φ default default' → Likens φ type type' →
        LikensAttributes φ extra extra' →
          Likens φ (.argument k name description hasDefault default type extra)
            (.argument k name' description' hasDefault' default' type' extra')
  | directive (slot : Slot) {p₁ p₁' p₂ p₂' p₃ p₃' p₄ p₄' : Snapshot} : Likens φ p₁ p₁' →
      Likens φ p₂ p₂' → Likens φ p₃ p₃' → Likens φ p₄ p₄' →
        Likens φ (.directive slot p₁ p₂ p₃ p₄) (.directive slot p₁' p₂' p₃' p₄')

inductive LikensAll (φ : Pairing) : List Snapshot → List Snapshot → Prop where
  | nil : LikensAll φ [] []
  | cons {p p' : Snapshot} {ps ps' : List Snapshot} :
      Likens φ p p' → LikensAll φ ps ps' → LikensAll φ (p :: ps) (p' :: ps')

inductive LikensEntries (φ : Pairing) :
    List (Snapshot × Snapshot) → List (Snapshot × Snapshot) → Prop where
  | nil : LikensEntries φ [] []
  | cons {p p' q q' : Snapshot} {ps ps' : List (Snapshot × Snapshot)} : Likens φ p p' →
      Likens φ q q' → LikensEntries φ ps ps' → LikensEntries φ ((p, q) :: ps) ((p', q') :: ps')

inductive LikensPart (φ : Pairing) : Option Snapshot → Option Snapshot → Prop where
  | none : LikensPart φ none none
  | some {p p' : Snapshot} : Likens φ p p' → LikensPart φ (some p) (some p')

inductive LikensAttributes (φ : Pairing) :
    List (String × Snapshot) → List (String × Snapshot) → Prop where
  | nil : LikensAttributes φ [] []
  | cons {p p' : Snapshot} (key : String) {ps ps' : List (String × Snapshot)} : Likens φ p p' →
      LikensAttributes φ ps ps' → LikensAttributes φ ((key, p) :: ps) ((key, p') :: ps')

end

mutual

theorem Likens.mono (le : φ ≤ ψ) {p p' : Snapshot} (h : φ.Likens p p') : ψ.Likens p p' := by
  cases h with
  | atom related => exact .atom (related.mono le)
  | nan => exact .nan
  | seen k => exact .seen k
  | foreign k text => exact .foreign k text
  | tuple slot items => exact .tuple slot (items.mono le)
  | config slot h₁ h₂ h₃ h₄ =>
    exact .config slot (h₁.mono le) (h₂.mono le) (h₃.mono le) (h₄.mono le)
  | list k items => exact .list k (items.mono le)
  | set k items => exact .set k (items.mono le)
  | dict k entries => exact .dict k (entries.mono le)
  | named k name extra => exact .named k (name.mono le) (extra.mono le)
  | scalar slot name description serialize parse =>
    exact .scalar slot (name.mono le) (description.mono le) (serialize.mono le) (parse.mono le)
  | wrapper k w type => exact .wrapper k w (type.mono le)
  | argument k name description hasDefault default type extra =>
    exact .argument k (name.mono le) (description.mono le) (hasDefault.mono le) (default.mono le)
      (type.mono le) (extra.mono le)
  | directive slot h₁ h₂ h₃ h₄ =>
    exact .directive slot (h₁.mono le) (h₂.mono le) (h₃.mono le) (h₄.mono le)

theorem LikensAll.mono (le : φ ≤ ψ) {ps ps' : List Snapshot} (h : φ.LikensAll ps ps') :
    ψ.LikensAll ps ps' := by
  cases h with
  | nil => exact .nil
  | cons first rest => exact .cons (first.mono le) (rest.mono le)

theorem LikensEntries.mono (le : φ ≤ ψ) {ps ps' : List (Snapshot × Snapshot)}
    (h : φ.LikensEntries ps ps') : ψ.LikensEntries ps ps' := by
  cases h with
  | nil => exact .nil
  | cons key value rest => exact .cons (key.mono le) (value.mono le) (rest.mono le)

theorem LikensPart.mono (le : φ ≤ ψ) {p p' : Option Snapshot} (h : φ.LikensPart p p') :
    ψ.LikensPart p p' := by
  cases h with
  | none => exact .none
  | some part => exact .some (part.mono le)

theorem LikensAttributes.mono (le : φ ≤ ψ) {ps ps' : List (String × Snapshot)}
    (h : φ.LikensAttributes ps ps') : ψ.LikensAttributes ps ps' := by
  cases h with
  | nil => exact .nil
  | cons key first rest => exact .cons key (first.mono le) (rest.mono le)

end

theorem LikensAll.of_forall₂ {ps ps' : List Snapshot} (h : List.Forall₂ φ.Likens ps ps') :
    φ.LikensAll ps ps' := by
  induction h with
  | nil => exact .nil
  | cons first _ ih => exact .cons first ih

theorem LikensEntries.of_forall₂ {ps ps' : List (Snapshot × Snapshot)}
    (h : List.Forall₂ (fun p p' => φ.Likens p.1 p'.1 ∧ φ.Likens p.2 p'.2) ps ps') :
    φ.LikensEntries ps ps' := by
  induction h with
  | nil => exact .nil
  | cons first _ ih => exact .cons first.1 first.2 ih

theorem LikensAttributes.of_forall₂ {ps ps' : List (String × Snapshot)}
    (h : List.Forall₂ (fun p p' => p.1 = p'.1 ∧ φ.Likens p.2 p'.2) ps ps') :
    φ.LikensAttributes ps ps' := by
  induction h with
  | nil => exact .nil
  | @cons p p' _ _ first _ ih =>
    obtain ⟨key, p⟩ := p
    obtain ⟨_, p'⟩ := p'
    obtain ⟨rfl, first⟩ := first
    exact .cons key first ih

end Pairing

namespace Snapshot

/-! ### Snapshots that are taken -/

theorem number?_eq (one : φ.OneToOne) (related : φ.Relates v v') {seen seen' : List Value}
    (carried : φ.RelatesAll seen seen') : number? v' seen' = number? v seen := by
  induction carried with
  | nil => rfl
  | cons first rest ih =>
    simp only [number?, first.same_eq one related, rest.length_eq, ih]

/-- Snapshots that are taken alike. -/
abbrev TakesAlike (φ : Pairing) (x y : Taking Snapshot) : Prop := Carries RelatesAll φ x y Likens

theorem enterTallies (related : φ.Relates v v') : Carries RelatesAll φ (enter v) (enter v') Same :=
  ⟨fun carried => .pure ⟨carried.length_eq.symm, .cons related carried⟩⟩

theorem leaveTallies (related : φ.Relates v v') :
    Carries RelatesAll φ (leave v) (leave v') Same := by
  refine .of_one fun one => ⟨fun {seen seen'} carried => ?_⟩
  have same := number?_eq one related carried
  have slots : (slotOf v' seen').1 = (slotOf v seen).1 ∧
      φ.RelatesAll (slotOf v seen).2 (slotOf v' seen').2 := by
    simp only [slotOf, same]
    split
    · exact ⟨rfl, carried⟩
    · exact ⟨congrArg Slot.new carried.length_eq.symm, .cons related carried⟩
  exact .pure slots

theorem lifted {x : Action α} {y : Action β} {post : Pairing → α → β → Prop}
    (tally : Tallies False φ x y post) :
    Carries RelatesAll φ (liftM x : Taking α) (liftM y : Taking β) post :=
  .lift (R := RelatesAll) (fun le seen => RelatesAll.mono le seen) tally

section

variable {f f' next next' : Value → Taking Snapshot}
  (parts : ∀ {φ v v'}, φ.Relates v v' → TakesAlike φ (f v) (f' v'))
  (types : ∀ {φ v v'}, φ.Relates v v' → TakesAlike φ (next v) (next' v'))

include parts

theorem partTaken {v v' : Option Value} (related : φ.RelatesParts v v') :
    Carries RelatesAll φ (part f v) (part f' v') LikensPart := by
  cases related with
  | none => exact .pure .none
  | some related => exact (parts related).map fun _ taken => .some taken

theorem attributesTaken {as as' : Attributes} (related : φ.RelatesAttributes as as') :
    Carries RelatesAll φ (attributes f as) (attributes f' as') LikensAttributes := by
  refine (Carries.mapM (S := fun φ (p q : String × Value) => p.1 = q.1 ∧ φ.Relates p.2 q.2)
    (T := fun φ (p q : String × Snapshot) => p.1 = q.1 ∧ φ.Likens p.2 q.2)
    (fun le related => ⟨related.1, related.2.mono le⟩)
    (fun le taken => ⟨taken.1, taken.2.mono le⟩) (fun related => ?_) related).weaken
    fun _ taken => .of_forall₂ taken
  exact (parts related.2).map fun _ taken => ⟨related.1, taken⟩

theorem allTaken {vs vs' : List Value} (related : φ.RelatesAll vs vs') :
    Carries RelatesAll φ (vs.mapM f) (vs'.mapM f') LikensAll :=
  (Carries.mapM (S := Relates) (T := Likens) (fun le related => related.mono le)
    (fun le taken => taken.mono le) parts related).weaken fun _ taken => .of_forall₂ taken

include types

theorem wrappedTaken (related : φ.Relates v v') :
    TakesAlike φ (ofWrapped f next v) (ofWrapped f' next' v') := by
  simp only [ofWrapped, related.isWrapper_eq]
  split
  · exact parts related
  · exact types related

theorem ofObjectTaken (related : φ.Relates v v') :
    TakesAlike φ (ofObject (.writes []) f next v) (ofObject (.writes []) f' next' v') := by
  have related' := related
  cases related with
  | nan => exact .pure .nan
  | foreign text tag => exact (enterTallies related').map fun _ same => same ▸ .foreign _ text
  | tuple tag same items =>
    simp only [ofObject, List.isEmpty_iff_length_eq_zero, same]
    split
    · exact .pure (.atom related')
    · refine (allTaken parts related'.items).bind fun {ψ₁ ps ps'} le₁ taken => ?_
      refine (leaveTallies (related'.mono le₁)).map fun le₂ same => ?_
      subst same
      exact .tuple _ (taken.mono le₂)
  | config tag name locations args description =>
    refine Carries.fields (T := Likens) (fun le taken => taken.mono le) parts name locations args
      description fun {ψ₁ _ _ _ _ _ _ _ _} le₁ name locations args description => ?_
    refine (leaveTallies (related'.mono le₁)).map fun {ψ₂ k k'} le₂ same => ?_
    subst same
    exact .config _ (name.mono le₂) (locations.mono le₂) (args.mono le₂) (description.mono le₂)
  | list paired =>
    refine (enterTallies related').bind fun {ψ₁ k k'} le₁ same => .read fun s t abreast => ?_
    subst same
    exact (allTaken parts (abreast.list (le₁ _ _ _ paired))).map fun _ taken => .list _ taken
  | set paired =>
    refine (enterTallies related').bind fun {ψ₁ k k'} le₁ same => .read fun s t abreast => ?_
    subst same
    refine (Carries.mapM (S := RelatesMembers) (T := Likens) (fun le m => m.mono le)
      (fun le taken => taken.mono le) (fun m => parts m.value)
      (abreast.set (le₁ _ _ _ paired))).map fun _ taken => .set _ (.of_forall₂ taken)
  | dict paired =>
    refine (enterTallies related').bind fun {ψ₁ k k'} le₁ same => .read fun s t abreast => ?_
    subst same
    refine (Carries.mapM (S := RelatesEntries)
      (T := fun φ (p q : Snapshot × Snapshot) => φ.Likens p.1 q.1 ∧ φ.Likens p.2 q.2)
      (fun le e => e.mono le) (fun le taken => ⟨taken.1.mono le, taken.2.mono le⟩)
      (fun e => ?_) (abreast.dict (le₁ _ _ _ paired))).map
      fun _ taken => .dict _ (.of_forall₂ taken)
    exact (parts e.key).bind fun le key =>
      (parts (e.value.mono le)).map fun le' value => ⟨key.mono le', value⟩
  | named paired =>
    refine (enterTallies related').bind fun {ψ₁ k k'} le₁ same => .read fun s t abreast => ?_
    subst same
    have cell := abreast.namedType (le₁ _ _ _ paired)
    refine (partTaken parts cell.name).bind fun {ψ₂ a a'} le₂ name => ?_
    exact (attributesTaken parts (RelatesAttributes.mono le₂ cell.extra)).map fun le₃ extra =>
      .named _ (name.mono le₃) extra
  | @scalar r r' paired =>
    refine .of_isScalar paired fun same => ?_
    simp only [ofObject, same]
    split
    · exact .pure (.atom related')
    · refine .read fun s t abreast => ?_
      have cell := abreast.scalar paired
      refine (lifted (.present "ScalarType" "description" cell.description)).bind
        fun {ψ₁ d d'} le₁ description => ?_
      refine (parts ((Tallies.typeName cell.name).mono le₁)).bind fun {ψ₂ a a'} le₂ name => ?_
      refine (parts (description.mono le₂)).bind fun {ψ₃ b b'} le₃ description => ?_
      have le₁₃ := le_trans le₁ (le_trans le₂ le₃)
      refine (leaveTallies (related'.mono le₁₃)).map fun {ψ₄ k k'} le₄ same => ?_
      subst same
      have le₁₄ := le_trans le₁₃ le₄
      exact .scalar _ (name.mono (le_trans le₃ le₄)) (description.mono le₄)
        (cell.serialize.mono le₁₄) (cell.parse.mono le₁₄)
  | wrapper w paired =>
    refine (lifted (.wrapped w paired)).bind fun {ψ₁ _ _} le₁ _ => ?_
    refine (lifted (.wrapped w (le₁ _ _ _ paired))).bind fun {ψ₂ u u'} le₂ type => ?_
    refine (enterTallies (related'.mono (le_trans le₁ le₂))).bind fun {ψ₃ k k'} le₃ same => ?_
    subst same
    exact (wrappedTaken parts types (type.mono le₃)).map fun _ taken => .wrapper _ w taken
  | argument paired =>
    refine (lifted (.type paired)).bind fun {ψ₁ u u'} le₁ type => .read fun s t abreast => ?_
    have cell := abreast.argument (le₁ _ _ _ paired)
    refine (enterTallies (related'.mono le₁)).bind fun {ψ₂ k k'} le same => ?_
    subst same
    refine (partTaken parts (RelatesParts.mono le cell.name)).bind fun {ψ₃ a a'} le₃ name => ?_
    have le := le_trans le le₃
    refine (partTaken parts (RelatesParts.mono le cell.description)).bind
      fun {ψ₄ b b'} le₄ description => ?_
    have le := le_trans le le₄
    refine (partTaken parts (RelatesParts.mono le cell.hasDefault)).bind
      fun {ψ₅ c c'} le₅ hasDefault => ?_
    have le := le_trans le le₅
    refine (partTaken parts (RelatesParts.mono le cell.default)).bind
      fun {ψ₆ d d'} le₆ default => ?_
    have le := le_trans le le₆
    refine (types (type.mono le)).bind fun {ψ₇ e e'} le₇ type => ?_
    have le := le_trans le le₇
    refine (attributesTaken parts (RelatesAttributes.mono le cell.extra)).map
      fun {ψ₈ g g'} le₈ extra => ?_
    have le₇ := le_trans le₇ le₈
    have le₆ := le_trans le₆ le₇
    have le₅ := le_trans le₅ le₆
    exact .argument _ (name.mono (le_trans le₄ le₅)) (description.mono le₅) (hasDefault.mono le₆)
      (default.mono le₇) (type.mono le₈) extra
  | directive paired =>
    refine .read fun s t abreast => ?_
    have cell := abreast.directive paired
    refine Carries.fields (T := Likens) (fun le taken => taken.mono le) parts cell.name
      cell.locations cell.args cell.description
      fun {ψ₁ _ _ _ _ _ _ _ _} le₁ name locations args description => ?_
    refine (leaveTallies (related'.mono le₁)).map fun {ψ₂ k k'} le₂ same => ?_
    subst same
    exact .directive _ (name.mono le₂) (locations.mono le₂) (args.mono le₂) (description.mono le₂)
  | deferred => exact .throw (.inl rfl)
  | @float x number =>
    cases x with
    | nan => cases number
    | _ => exact .pure (.atom related')
  | _ => exact .pure (.atom related')

omit parts in
/-- A part is pictured with less room. -/
theorem roundTaken {n m : Nat} (le : n ≤ m) (related : φ.Relates v v') :
    TakesAlike φ (takeRound (.writes []) next n v) (takeRound (.writes []) next' m v') := by
  induction n generalizing m φ v v' with
  | zero => exact ⟨fun _ => .noRoom rfl False.elim⟩
  | succ n ih =>
    obtain ⟨m, rfl⟩ := Nat.exists_eq_add_of_lt le
    refine .look fun {seen seen'} carried => .of_one fun one => ?_
    simp only [number?_eq one related carried]
    split
    · exact .pure (.seen _)
    · exact ofObjectTaken (fun related => ih (Nat.le_add_right n m) related) types related

end

/-- A type is pictured in a round of its own, of which fewer may follow. -/
theorem takenWithin {n m : Nat} (le : n ≤ m) (related : φ.Relates v v') :
    TakesAlike φ (takeWithin (.writes []) n v) (takeWithin (.writes []) m v') := by
  induction n generalizing m φ v v' with
  | zero => exact ⟨fun _ => .noRoom rfl False.elim⟩
  | succ n ih =>
    obtain ⟨m, rfl⟩ := Nat.exists_eq_add_of_lt le
    refine ⟨fun {seen seen'} carried => ?_⟩
    simp only [takeWithin]
    refine .boundedPairs related.depth_eq fun _ _ _ le => ?_
    exact (roundTaken (fun related => ih (Nat.le_add_right n m) related) le related).tallies carried

theorem takeTallies (related : φ.Relates v v') :
    Tallies False φ (take (.writes []) v) (take (.writes []) v') Likens :=
  .boundedPairs related.depth_eq fun _ _ _ le =>
    ((takenWithin le related).tallies .nil).mapKept fun _ taken => taken.1

/-! ### Snapshots that are restored -/

/-- Objects that are restored alike, under the same numbers. -/
abbrev RestoresAlike (φ : Pairing) (x y : Restoring Value) : Prop :=
  Carries RelatesAttributes φ x y Relates

theorem liftedRestoring {x : Action α} {y : Action β} {post : Pairing → α → β → Prop}
    (tally : Tallies False φ x y post) :
    Carries RelatesAttributes φ (liftM x : Restoring α) (liftM y : Restoring β) post :=
  .lift (R := RelatesAttributes) (fun le built => RelatesAttributes.mono le built) tally

theorem settleTallies (k : Nat) (related : φ.Relates v v') :
    RestoresAlike φ (settle k v) (settle k v') :=
  ⟨fun carried => .pure ⟨related, .cons ⟨rfl, related⟩ carried⟩⟩

theorem builtTallies (k : Nat) : RestoresAlike φ (built k) (built k) :=
  .look fun carried => .pure (RelatesAttributes.lookup carried k).getD

theorem placeTallies (slot : Slot) (related : φ.Relates v v') :
    RestoresAlike φ (place slot v) (place slot v') := by
  cases slot with
  | new k => exact settleTallies k related
  | old k => exact builtTallies k

/-- An object is numbered, its content is built, and it is filled. -/
theorem fillTallies {kind : CellKind} {content : Type} (k : Nat) {new : Action (Ref kind)}
    {value : Ref kind → Value} {put : Session → Ref kind → content → Session}
    {build build' : Restoring content} (cell : content → Cell)
    (puts : ∀ s r c, put s r c = s.put r.index (cell c))
    (kinds : ∀ c, (cell c).kind = kind) (news : ∀ φ, Tallies False φ new new RelatesRefs)
    (values : ∀ {ψ : Pairing} {r r' : Ref kind}, ψ.RelatesRefs r r' →
      ψ.Relates (value r) (value r'))
    (builds : ∀ {ψ}, φ ≤ ψ → Carries RelatesAttributes ψ build build' fun ψ c c' =>
      ψ.RelatesCells (cell c) (cell c') ∧
        ((cell c).resolved? = none → (cell c').resolved? = none)) :
    RestoresAlike φ (fill k new value put build) (fill k new value put build') := by
  refine (liftedRestoring (news φ)).bind fun {ψ₁ r r'} le₁ paired => ?_
  refine (settleTallies k (values paired)).bind fun {ψ₂ v v'} le₂ related => ?_
  refine (builds (le_trans le₁ le₂)).bind fun {ψ₃ c c'} le₃ built => ?_
  simp only [puts]
  refine (Carries.fill (R := RelatesAttributes) (fun le built => RelatesAttributes.mono le built)
    (le_trans le₂ le₃ _ _ _ paired) (kinds c) built.1 built.2).bind fun le₄ _ => ?_
  exact .pure (related.mono (le_trans le₃ le₄))

theorem makeTallies {parts : Type} (slot : Slot) {build build' : Restoring parts}
    {construct construct' : parts → Action Value} {T : Pairing → parts → parts → Prop}
    (builds : Carries RelatesAttributes φ build build' T)
    (constructs : ∀ {ψ p p'}, φ ≤ ψ → T ψ p p' →
      Tallies False ψ (construct p) (construct' p') Relates) :
    RestoresAlike φ (make slot build construct) (make slot build' construct') :=
  builds.bind fun le built => (liftedRestoring (constructs le built)).bind fun _ related =>
    placeTallies slot related

/-- The four fields of a record or of a directive. -/
structure RelatesFields (φ : Pairing) (f f' : Fields) : Prop where
  name : φ.Relates f.name f'.name
  locations : φ.Relates f.locations f'.locations
  args : φ.Relates f.args f'.args
  description : φ.Relates f.description f'.description

theorem fieldsTallies {x₁ x₁' x₂ x₂' x₃ x₃' x₄ x₄' : Restoring Value}
    (h₁ : ∀ {ψ}, φ ≤ ψ → RestoresAlike ψ x₁ x₁') (h₂ : ∀ {ψ}, φ ≤ ψ → RestoresAlike ψ x₂ x₂')
    (h₃ : ∀ {ψ}, φ ≤ ψ → RestoresAlike ψ x₃ x₃') (h₄ : ∀ {ψ}, φ ≤ ψ → RestoresAlike ψ x₄ x₄') :
    Carries RelatesAttributes φ (fields x₁ x₂ x₃ x₄) (fields x₁' x₂' x₃' x₄') RelatesFields := by
  refine (h₁ (le_refl φ)).bind fun {ψ₁ _ _} le₁ name => ?_
  refine (h₂ le₁).bind fun {ψ₂ _ _} le₂ locations => ?_
  refine (h₃ (le_trans le₁ le₂)).bind fun {ψ₃ _ _} le₃ args => ?_
  refine (h₄ (le_trans le₁ (le_trans le₂ le₃))).map fun {ψ₄ _ _} le₄ description => ?_
  have le₃₄ := le_trans le₃ le₄
  exact ⟨name.mono (le_trans le₂ le₃₄), locations.mono le₃₄, args.mono le₄, description⟩

mutual

/-- From snapshots of one shape paired objects are built. -/
theorem restoreTallies {φ : Pairing} (p : Snapshot) {p' : Snapshot} (h : φ.Likens p p') :
    RestoresAlike φ (restoreWith (.writes []) p) (restoreWith (.writes []) p') := by
  cases h with
  | atom related => exact .pure related
  | nan => exact (liftedRestoring Tallies.tandem.freshTag).map fun _ tag => .nan tag
  | seen k => exact builtTallies k
  | foreign k text =>
    exact (liftedRestoring Tallies.tandem.freshTag).bind fun _ tag =>
      settleTallies k (.foreign text tag)
  | tuple slot items =>
    exact makeTallies slot (restoreAllTallies _ items) fun _ related =>
      (Tallies.tandem.newRow related).mapKept fun _ row => row
  | config slot h₁ h₂ h₃ h₄ =>
    refine makeTallies slot (fieldsTallies (fun le => restoreTallies _ (h₁.mono le))
      (fun le => restoreTallies _ (h₂.mono le)) (fun le => restoreTallies _ (h₃.mono le))
      fun le => restoreTallies _ (h₄.mono le)) fun _ built => ?_
    exact Tallies.tandem.freshTag.mapKept fun le tag => .config tag (built.name.mono le)
      (built.locations.mono le) (built.args.mono le) (built.description.mono le)
  | list k items =>
    exact fillTallies k Cell.list (fun _ _ _ => rfl) (fun _ => rfl)
      (fun _ => Tallies.tandem.newList .nil) .list fun le =>
        (restoreAllTallies _ (items.mono le)).weaken fun _ built => ⟨.list built, fun _ => rfl⟩
  | set k items =>
    exact fillTallies k Cell.set (fun _ _ _ => rfl) (fun _ => rfl)
      (fun _ => Tallies.tandem.newSet .nil) .set fun le =>
        (restoreAllTallies _ (items.mono le)).bind fun _ built =>
          (liftedRestoring (.distinct built)).weaken fun _ built => ⟨.set built, fun _ => rfl⟩
  | dict k entries =>
    exact fillTallies k Cell.dict (fun _ _ _ => rfl) (fun _ => rfl)
      (fun _ => Tallies.tandem.newDict .nil) .dict fun le =>
        (restoreEntriesTallies _ (entries.mono le)).bind fun _ built =>
          (liftedRestoring (.dictionary built)).weaken fun _ built => ⟨.dict built, fun _ => rfl⟩
  | named k name extra =>
    refine fillTallies k Cell.named (fun _ _ _ => rfl) (fun _ => rfl)
      (fun _ => Tallies.tandem.newNamedType ⟨.none, .nil⟩) .named fun le => ?_
    refine (restorePartTallies _ (name.mono le)).bind fun {ψ₁ _ _} le₁ name => ?_
    exact (restoreAttributesTallies _ (extra.mono (le_trans le le₁))).map fun le₂ extra =>
      ⟨.named ⟨RelatesParts.mono le₂ name, extra⟩, fun _ => rfl⟩
  | scalar slot name description serialize parse =>
    refine makeTallies (T := fun ψ (p p' : Value × Value) =>
      φ ≤ ψ ∧ ψ.Relates p.1 p'.1 ∧ ψ.Relates p.2 p'.2) slot ?_ fun le built => ?_
    · refine (restoreTallies _ name).bind fun {ψ₁ _ _} le₁ name => ?_
      exact (restoreTallies _ (description.mono le₁)).map fun le₂ description =>
        ⟨le_trans le₁ le₂, name.mono le₂, description⟩
    · exact (Tallies.tandem.newScalar ⟨.some built.2.1, .some built.2.2, serialize.mono built.1,
        parse.mono built.1, .nil⟩).mapKept fun _ new => .scalar new
  | wrapper k w type =>
    refine fillTallies k Cell.wrapper (fun _ _ _ => rfl) (fun _ => rfl)
      (fun _ => Tallies.tandem.newWrapper ⟨.none, .none _, .nil⟩ rfl) (.wrapper w) fun le => ?_
    exact (restoreTallies _ (type.mono le)).map fun _ type =>
      ⟨.wrapper (Tallies.known type), type.kept.eq_none⟩
  | argument k name description hasDefault default type extra =>
    have blank {ψ : Pairing} : ψ.RelatesArguments .blank .blank :=
      ⟨.none, .none, .none, .none, .null, .none _, .nil⟩
    refine fillTallies k Cell.argument (fun _ _ _ => rfl) (fun _ => rfl)
      (fun _ => Tallies.tandem.newArgument blank rfl) .argument fun le => ?_
    refine (restorePartTallies _ (name.mono le)).bind fun {ψ₁ a a'} le₁ name => ?_
    have le := le_trans le le₁
    refine (restorePartTallies _ (description.mono le)).bind fun {ψ₂ b b'} le₂ description => ?_
    have le := le_trans le le₂
    refine (restorePartTallies _ (hasDefault.mono le)).bind fun {ψ₃ c c'} le₃ hasDefault => ?_
    have le := le_trans le le₃
    refine (restorePartTallies _ (default.mono le)).bind fun {ψ₄ d d'} le₄ default => ?_
    have le := le_trans le le₄
    refine (restoreTallies _ (type.mono le)).bind fun {ψ₅ e e'} le₅ type => ?_
    have le := le_trans le le₅
    refine (restoreAttributesTallies _ (extra.mono le)).map fun {ψ₆ g g'} le₆ extra => ?_
    have le₅ := le_trans le₅ le₆
    have le₄ := le_trans le₄ le₅
    have le₃ := le_trans le₃ le₄
    have type := type.mono le₆
    exact ⟨.argument ⟨RelatesParts.mono (le_trans le₂ le₃) name, RelatesParts.mono le₃ description,
      RelatesParts.mono le₄ hasDefault, RelatesParts.mono le₅ default, type, type.kept.informs,
      extra⟩, type.kept.eq_none⟩
  | directive slot h₁ h₂ h₃ h₄ =>
    refine makeTallies slot (fieldsTallies (fun le => restoreTallies _ (h₁.mono le))
      (fun le => restoreTallies _ (h₂.mono le)) (fun le => restoreTallies _ (h₃.mono le))
      fun le => restoreTallies _ (h₄.mono le)) fun _ built => ?_
    exact (Tallies.create built.name built.locations built.args built.description).mapKept
      fun _ new => .directive new

theorem restoreAllTallies {φ : Pairing} (ps : List Snapshot) {ps' : List Snapshot}
    (h : φ.LikensAll ps ps') :
    Carries RelatesAttributes φ (restoreAll (.writes []) ps) (restoreAll (.writes []) ps')
      RelatesAll := by
  cases h with
  | nil => exact .pure .nil
  | cons first rest =>
    refine (restoreTallies _ first).bind fun {ψ _ _} le first => ?_
    exact (restoreAllTallies _ (rest.mono le)).map fun le rest => .cons (first.mono le) rest

theorem restoreEntriesTallies {φ : Pairing} (ps : List (Snapshot × Snapshot))
    {ps' : List (Snapshot × Snapshot)} (h : φ.LikensEntries ps ps') :
    Carries RelatesAttributes φ (restoreEntries (.writes []) ps) (restoreEntries (.writes []) ps')
      RelatesAssignments := by
  cases h with
  | nil => exact .pure .nil
  | cons key value rest =>
    refine (restoreTallies _ key).bind fun {ψ₁ _ _} le₁ key => ?_
    refine (restoreTallies _ (value.mono le₁)).bind fun {ψ₂ _ _} le₂ value => ?_
    refine (restoreEntriesTallies _ (rest.mono (le_trans le₁ le₂))).map fun le₃ rest => ?_
    exact .cons ⟨key.mono (le_trans le₂ le₃), value.mono le₃⟩ rest

theorem restorePartTallies {φ : Pairing} (p : Option Snapshot) {p' : Option Snapshot}
    (h : φ.LikensPart p p') :
    Carries RelatesAttributes φ (restorePart (.writes []) p) (restorePart (.writes []) p')
      RelatesParts := by
  cases h with
  | none => exact .pure .none
  | some part => exact (restoreTallies _ part).map fun _ related => .some related

theorem restoreAttributesTallies {φ : Pairing} (ps : List (String × Snapshot))
    {ps' : List (String × Snapshot)} (h : φ.LikensAttributes ps ps') :
    Carries RelatesAttributes φ (restoreAttributes (.writes []) ps)
      (restoreAttributes (.writes []) ps') RelatesAttributes := by
  cases h with
  | nil => exact .pure .nil
  | cons key first rest =>
    refine (restoreTallies _ first).bind fun {ψ _ _} le first => ?_
    exact (restoreAttributesTallies _ (rest.mono le)).map fun le rest =>
      .cons ⟨rfl, first.mono le⟩ rest

end

end Snapshot

theorem Tallies.storedCopy (related : φ.Relates v v') :
    Tallies False φ (Snapshot.copy (.writes []) v) (Snapshot.copy (.writes []) v') Relates :=
  (Snapshot.takeTallies related).bind fun _ taken =>
    ((Snapshot.restoreTallies _ taken).tallies .nil).mapKept fun _ related => related.1

end DirectiveSchema
