import DirectiveSchema.Proofs.Gathering

/-!
Texts tally. What is written of data shows no identities, so that paired data are written alike; the
one identity test, whether a container is being written already, does not notice a one-to-one
pairing. All of this is strict: a text is a part of an answer, and answers go on after a fault that
was met in one of their parts.
-/
namespace DirectiveSchema

open Pairing

variable {φ ψ : Pairing} {strict : Prop} {ws ws' : List Value} {v v' : Value}

/-- Data that are being written in both sessions have the same containers among them. -/
theorem Pairing.RelatesAll.isWriting_eq (one : φ.OneToOne) (writes : φ.RelatesAll ws ws')
    (related : φ.Relates v v') :
    (Supplier.writes ws').isWriting v' = (Supplier.writes ws).isWriting v := by
  show ws'.any v'.same = ws.any v.same
  induction writes with
  | nil => rfl
  | cons first _ ih => rw [List.any_cons, List.any_cons, related.same_eq one first, ih]

/-- What is mapped to the same, one by one. -/
theorem Tallies.mapSame {α β γ : Type} {R : Pairing → α → β → Prop} {f : α → Action γ}
    {g : β → Action γ} (kept : strict → ∀ b, Keeps Evolves (g b))
    (mono : ∀ {φ ψ a b}, φ ≤ ψ → R φ a b → R ψ a b)
    (step : ∀ {φ a b}, R φ a b → Tallies strict φ (f a) (g b) Same) {as : List α} {bs : List β}
    (related : List.Forall₂ (R φ) as bs) : Tallies strict φ (as.mapM f) (bs.mapM g) Same := by
  refine (mapM (R := R) (S := Same) kept mono (fun _ same => same) step related).weaken
    fun _ same => ?_
  exact (List.forall₂_eq_eq_eq ▸ same.imp fun _ _ => Eq.symm : _ = _).symm

/-- From a pairing on, what is written of paired data is the same text. -/
structure Letters (strict : Prop) (φ : Pairing) (label label' : Value → Action String) : Prop where
  tallies {ψ : Pairing} {v v' : Value} : φ ≤ ψ → ψ.Relates v v' →
    Tallies strict ψ (label v) (label' v') Same
  kept : strict → ∀ v, Keeps Evolves (label' v)

namespace Letters

variable {label label' : Value → Action String} (h : Letters strict φ label label')

include h

theorem mono (le : φ ≤ ψ) : Letters strict ψ label label' :=
  ⟨fun le' related => h.tallies (le_trans le le') related, h.kept⟩

theorem text (related : φ.Relates v v') : Tallies strict φ (label v) (label' v') Same :=
  h.tallies (le_refl φ) related

/-- The texts of paired data, one after the other. -/
theorem texts {vs vs' : List Value} (related : φ.RelatesAll vs vs') :
    Tallies strict φ (vs.mapM label) (vs'.mapM label') Same :=
  Tallies.mapSame (R := fun ψ v v' => φ ≤ ψ ∧ ψ.Relates v v') h.kept
    (fun le related => ⟨le_trans related.1 le, related.2.mono le⟩)
    (fun related => h.tallies related.1 related.2)
    (related.imp fun _ _ related => ⟨le_refl φ, related⟩)

/-- The text that fills the one place of a format. -/
theorem fill (related : φ.Relates v v') :
    Tallies strict φ (Display.fill label v) (Display.fill label' v') Same := by
  have rows := related.row?
  unfold Display.fill
  generalize v.row? = xs at rows ⊢
  generalize v'.row? = ys at rows ⊢
  cases rows with
  | none => exact h.text related
  | some parts =>
    cases parts with
    | nil => exact .throw (.inl rfl)
    | cons first rest =>
      cases rest with
      | nil => exact h.text first
      | cons =>
        exact (h.text first).bindKept (fun _ _ => Evolves.lasting.throw _) fun _ _ =>
          .throw (.inl rfl)

theorem directiveLiteral {d d' : Directive} (related : φ.RelatesDirectives d d') :
    Tallies strict φ (Display.directiveLiteral label d) (Display.directiveLiteral label' d')
      Same := by
  refine (h.text related.name).bindKept (fun holds _ => ?_) fun {ψ name name'} le same => ?_
  · exact Evolves.lasting.bind (Evolves.lasting.mapM (h.kept holds) _) fun _ =>
      Evolves.lasting.pure _
  · subst same
    have locations : ψ.RelatesAll d.locations.items d'.locations.items :=
      (related.locations.mono le).items
    exact ((h.mono le).texts locations).mapKept fun _ same => by rw [same]

end Letters

namespace Tallies

theorem integer (i : Int) : Tallies strict φ (Display.integer i) (Display.integer i) Same := by
  simp only [Display.integer]
  split
  · exact throw (.inl rfl)
  · exact pure rfl

theorem nameLabel (related : φ.Relates v v') :
    Tallies strict φ (Display.nameLabel v) (Display.nameLabel v') Same := by
  simp only [Display.nameLabel, related.text?_eq, related.className_eq]
  split
  · exact pure rfl
  · exact throw (.inl rfl)

theorem typeName {name name' : Option Value} (related : φ.RelatesParts name name') :
    φ.Relates (Display.typeName name) (Display.typeName name') := by
  cases related with
  | none => exact .unnamed
  | some related => exact related

/-- A container is written alike, or a mark stands in its place. -/
theorem enter {mark : String} {body body' : Supplier → Action String}
    (writes : φ.RelatesAll ws ws') (related : φ.Relates v v')
    (inside : φ.RelatesAll (v :: ws) (v' :: ws') →
      Tallies strict φ (body (.writes (v :: ws))) (body' (.writes (v' :: ws'))) Same) :
    Tallies strict φ (Display.enter (.writes ws) v mark body)
      (Display.enter (.writes ws') v' mark body') Same := by
  refine of_one fun one => ?_
  simp only [Display.enter, writes.isWriting_eq one related]
  split
  · exact pure rfl
  · exact inside (.cons related writes)

/-- Parts are written with less room, and inside a container it is being written. -/
theorem write {n m : Nat} (le : n ≤ m) (form : Display.Form) (writes : φ.RelatesAll ws ws')
    (related : φ.Relates v v') :
    Tallies strict φ (Display.write n (.writes ws) form v) (Display.write m (.writes ws') form v')
      Same := by
  induction n generalizing m ws ws' φ form v v' with
  | zero => exact noRoom rfl fun _ => Evolves.observed.write m ws' form v'
  | succ n ih =>
    obtain ⟨m, rfl⟩ := Nat.exists_eq_add_of_lt le
    have letters {ψ : Pairing} {us us' : List Value} (writes : ψ.RelatesAll us us')
        (form : Display.Form) : Letters strict ψ (Display.write n (.writes us) form)
          (Display.write (n + m) (.writes us') form) :=
      ⟨fun le' related => ih (Nat.le_add_right n m) form (RelatesAll.mono le' writes) related,
        fun _ => Evolves.observed.write (n + m) us' form⟩
    have lasting := Evolves.lasting
    have kept := Evolves.observed.write (n + m)
    have related' := related
    cases related with
    | null | unnamed | bool | float | nan | text | bytes | location | foreign | deferred =>
      exact pure rfl
    | int i => exact integer i
    | tuple tag same parts =>
      simp only [Display.write]
      refine enter writes related' fun writes' => ?_
      refine ((letters writes' .literal).texts related'.items).mapKept fun _ texts => ?_
      rw [texts, same]
    | config tag name locations args description =>
      simp only [Display.write]
      have literals {ψ : Pairing} (le : φ ≤ ψ) := letters (RelatesAll.mono le writes) .literal
      refine ((literals (le_refl φ)).text name).bindKept (fun _ _ => ?_)
        fun {ψ₁ a a'} le₁ same => ?_
      · exact lasting.bind (kept _ _ _) fun _ => lasting.bind (kept _ _ _) fun _ =>
          lasting.bind (kept _ _ _) fun _ => lasting.pure _
      subst same
      refine ((literals le₁).text (locations.mono le₁)).bindKept (fun _ _ => ?_)
        fun {ψ₂ b b'} le₂ same => ?_
      · exact lasting.bind (kept _ _ _) fun _ => lasting.bind (kept _ _ _) fun _ => lasting.pure _
      subst same
      have le₂ := le_trans le₁ le₂
      refine ((literals le₂).text (args.mono le₂)).bindKept (fun _ _ => ?_)
        fun {ψ₃ c c'} le₃ same => ?_
      · exact lasting.bind (kept _ _ _) fun _ => lasting.pure _
      subst same
      have le₃ := le_trans le₂ le₃
      exact ((literals le₃).text (description.mono le₃)).mapKept fun _ same => by rw [same]
    | list paired =>
      simp only [Display.write]
      refine enter writes related' fun writes' => read fun s t abreast => ?_
      refine ((letters writes' .literal).texts (abreast.list paired)).mapKept fun _ texts => ?_
      rw [texts]
    | set paired =>
      simp only [Display.write]
      refine enter writes related' fun writes' => read fun s t abreast => ?_
      have inside := letters writes' .literal
      refine (mapSame (R := fun ψ m m' => φ ≤ ψ ∧ ψ.RelatesMembers m m') (fun _ _ => kept _ _ _)
        (fun le member => ⟨le_trans member.1 le, member.2.mono le⟩)
        (fun member => inside.tallies member.1 member.2.value)
        ((abreast.set paired).imp fun _ _ member => ⟨le_refl φ, member⟩)).mapKept fun _ texts => ?_
      rw [texts]
    | dict paired =>
      simp only [Display.write]
      refine enter writes related' fun writes' => read fun s t abreast => ?_
      have inside := letters writes' .literal
      refine (mapSame (R := fun ψ e e' => φ ≤ ψ ∧ ψ.RelatesEntries e e') (fun _ _ => ?_)
        (fun le entry => ⟨le_trans entry.1 le, entry.2.mono le⟩) (fun {ψ e e'} entry => ?_)
        ((abreast.dict paired).imp fun _ _ entry => ⟨le_refl φ, entry⟩)).mapKept fun _ texts => ?_
      · exact lasting.bind (kept _ _ _) fun _ => lasting.bind (kept _ _ _) fun _ => lasting.pure _
      · refine (inside.tallies entry.1 entry.2.key).bindKept (fun _ _ => ?_)
          fun {χ a a'} le same => ?_
        · exact lasting.bind (kept _ _ _) fun _ => lasting.pure _
        · subst same
          exact (inside.tallies (le_trans entry.1 le) (entry.2.value.mono le)).mapKept
            fun _ same => by rw [same]
      · rw [texts]
    | named paired =>
      refine read fun s t abreast => ?_
      have name := typeName (abreast.namedType paired).name
      cases form with
      | label => exact nameLabel name
      | literal => exact ((letters writes .label).text name).mapKept fun _ text => by rw [text]
    | scalar paired =>
      refine read fun s t abreast => ?_
      have name := typeName (abreast.scalar paired).name
      cases form with
      | label => exact nameLabel name
      | literal => exact ((letters writes .label).text name).mapKept fun _ text => by rw [text]
    | wrapper w paired =>
      refine (wrapped w paired).bindKept (fun _ t => ?_) fun {ψ t t'} le type => ?_
      · have filled := Evolves.observed.fill (kept ws' .label) t
        have literal := kept ws' .literal t
        cases form <;> cases w
        all_goals first
          | exact lasting.bind filled fun _ => lasting.pure _
          | exact lasting.bind literal fun _ => lasting.pure _
      · have writes := RelatesAll.mono le writes
        cases form <;> cases w
        all_goals first
          | exact ((letters writes .label).fill type).mapKept fun _ text => by rw [text]
          | exact ((letters writes .literal).text type).mapKept fun _ text => by rw [text]
    | argument paired =>
      simp only [Display.write]
      refine (argumentName paired).bindKept (fun _ _ => ?_) fun {ψ₁ name name'} le₁ named => ?_
      · exact lasting.bind (Evolves.observed.type _ _) fun _ => lasting.bind (kept _ _ _) fun _ =>
          lasting.bind (kept _ _ _) fun _ => lasting.pure _
      refine (type (le₁ _ _ _ paired)).bindKept (fun _ _ => ?_) fun {ψ₂ t t'} le₂ typed => ?_
      · exact lasting.bind (kept _ _ _) fun _ => lasting.bind (kept _ _ _) fun _ => lasting.pure _
      have letters := letters (RelatesAll.mono (le_trans le₁ le₂) writes) .label
      refine (letters.text (named.mono le₂)).bindKept (fun _ _ => ?_) fun {ψ₃ a a'} le₃ same => ?_
      · exact lasting.bind (kept _ _ _) fun _ => lasting.pure _
      subst same
      exact (letters.tallies le₃ (typed.mono le₃)).mapKept fun _ same => by rw [same]
    | directive paired =>
      refine read fun s t abreast => ?_
      have related := abreast.directive paired
      cases form with
      | label =>
        exact ((letters writes .label).text related.name).mapKept fun _ text => by rw [text]
      | literal => exact (letters writes .label).directiveLiteral related

theorem label (writes : φ.RelatesAll ws ws') (related : φ.Relates v v') :
    Tallies strict φ (Display.label (.writes ws) v) (Display.label (.writes ws') v') Same :=
  boundedPairs related.depth_eq fun _ _ _ le => write le .label writes related

/-- The labels of a session that is ahead. -/
theorem labels (writes : φ.RelatesAll ws ws') :
    Letters strict φ (Display.label (.writes ws)) (Display.label (.writes ws')) :=
  ⟨fun le related => label (RelatesAll.mono le writes) related,
    fun _ => Evolves.observed.label ws'⟩

theorem literal (writes : φ.RelatesAll ws ws') (related : φ.Relates v v') :
    Tallies strict φ (Display.literal (.writes ws) v) (Display.literal (.writes ws') v') Same := by
  have plain : Tallies strict φ
      (Action.boundedPairs v.depth fun n => Display.write n (.writes ws) .literal v)
      (Action.boundedPairs v'.depth fun n => Display.write n (.writes ws') .literal v') Same :=
    boundedPairs related.depth_eq fun _ _ _ le => write le .literal writes related
  cases related with
  | directive paired =>
    exact read fun s t abreast => (labels writes).directiveLiteral (abreast.directive paired)
  | _ => exact plain

/-- The label as a datum. -/
theorem labelValue (writes : φ.RelatesAll ws ws') (related : φ.Relates v v') :
    Tallies strict φ (Display.labelValue (.writes ws) v) (Display.labelValue (.writes ws') v')
      Relates := by
  have named {name name' : Value} (related : φ.Relates name name') : Tallies strict φ
      (if name.text?.isSome then Pure.pure name
        else MonadExcept.throw (Fault.labelNotText name.className))
      (if name'.text?.isSome then Pure.pure name'
        else MonadExcept.throw (Fault.labelNotText name'.className)) Relates := by
    rw [related.text?_eq, related.className_eq]
    split
    · exact pure related
    · exact throw (.inl rfl)
  have text : Tallies strict φ
      (do return Value.text (← Display.label (.writes ws) v))
      (do return Value.text (← Display.label (.writes ws') v')) Relates :=
    (label writes related).mapKept fun _ same => same ▸ .text _
  cases related with
  | named paired => exact read fun s t abreast => named (typeName (abreast.namedType paired).name)
  | scalar paired => exact read fun s t abreast => named (typeName (abreast.scalar paired).name)
  | _ => exact text

end Tallies

end DirectiveSchema
