import DirectiveSchema.Proofs.Coercion
import DirectiveSchema.Proofs.Verdict

/-!
Coercions of what was coerced before. A value that a built-in scalar made, in either direction, is
given back by both directions, whatever was requested meanwhile. Only a location that a type is
named by is made and not given back: it is the label of the type, and its own label is its tag.
-/
namespace DirectiveSchema

open BuiltIn

variable {s s' u : Session} {supply : Supplier} {r : Ref .scalar} {c : Coercion} {v w : Value}

/-- A location becomes its tag, and any other datum stays itself. -/
def Value.untagged : Value → Value
  | .location l => .text l.tag
  | v => v

/-- Whether a datum is a type that has a name of its own. -/
def Value.isNamed : Value → Bool
  | .named _ | .scalar _ => true
  | _ => false

/-- Every built-in scalar has the coercions that it was built with. -/
def Session.IsEquipped (s : Session) : Prop :=
  ∀ r, isScalar r = true → (session.scalar r).SameCoercions (s.scalar r)

theorem Session.IsEquipped.later (h : s.IsEquipped) (kept : s.KeepsCoercions s')
    (live : scalarRefs.length ≤ s.scalars.size) : s'.IsEquipped := by
  intro r builtIn
  have own := h r builtIn
  have fits : ∀ r ∈ scalarRefs, r.index < scalarRefs.length := by decide
  have same := kept.cell (Nat.lt_of_lt_of_le (fits r (List.contains_iff_mem.1 builtIn)) live)
  exact ⟨same.serialize.trans own.serialize, same.parse.trans own.parse⟩

namespace Scalars

/-! ### What coercions make -/

/-- Whether a datum is what a built-in scalar makes: a datum of its result type, or a location that
is the label of a type. -/
inductive Makes : Ref .scalar → Value → Value → Prop where
  | result {r : Ref .scalar} {v w : Value} : isResult r w = true → Makes r v w
  | label {v : Value} {l : Location} : v.isNamed = true → Makes stringRef v (.location l)

/-- A label is a text, or else the location that a type is named by. -/
theorem label_is_text_or_name (run : Display.labelValue supply v s = .ok w s') :
    (∃ t, w = .text t) ∨ v.isNamed = true ∧ ∃ l, w = .location l := by
  have shown (run : (do return Value.text (← Display.label supply v)) s = .ok w s') :
      ∃ t, w = .text t := by
    obtain ⟨t, s₁, -, returned⟩ := Action.ok_of_bind run
    cases returned
    exact ⟨t, rfl⟩
  have named {name : Value} (run : (if name.text?.isSome then pure name
      else throw (.labelNotText name.className) : Action Value) s = .ok w s') :
      (∃ t, w = .text t) ∨ ∃ l, w = .location l := by
    split at run
    · rename_i text
      cases run
      cases w with
      | text t => exact .inl ⟨t, rfl⟩
      | location l => exact .inr ⟨l, rfl⟩
      | _ => cases text
    · cases run
  cases v with
  | named t => exact (named run).imp_right fun located => ⟨rfl, located⟩
  | scalar t => exact (named run).imp_right fun located => ⟨rfl, located⟩
  | _ => exact .inl (shown run)

theorem makes_of_label (texts : r = stringRef ∨ r = identifierRef ∧ v.isNamed = false)
    (run : Display.labelValue supply v s = .ok w s') : Makes r v w := by
  rcases label_is_text_or_name run with ⟨t, rfl⟩ | ⟨named, l, rfl⟩
  · apply Makes.result
    rcases texts with rfl | ⟨rfl, -⟩ <;> rfl
  · rcases texts with rfl | ⟨-, single⟩
    · exact .label named
    · rw [named] at single
      cases single

theorem makes_stringIn (run : stringIn supply v s = .ok w s') : Makes stringRef v w := by
  unfold stringIn at run
  split at run
  · obtain ⟨_, _, -, thrown⟩ := Action.ok_of_bind run
    cases thrown
  · obtain ⟨_, _, -, thrown⟩ := Action.ok_of_bind run
    cases thrown
  · obtain ⟨_, _, -, thrown⟩ := Action.ok_of_bind run
    cases thrown
  · exact makes_of_label (.inl rfl) run

theorem makes_stringOut (run : stringOut supply v s = .ok w s') : Makes stringRef v w := by
  unfold stringOut at run
  split at run
  · cases run
    exact .result rfl
  · exact makes_stringIn run

theorem makes_identifier (run : identifier supply v s = .ok w s') : Makes identifierRef v w := by
  unfold identifier at run
  split at run
  · exact makes_of_label (.inr ⟨rfl, rfl⟩) run
  · exact makes_of_label (.inr ⟨rfl, rfl⟩) run
  · exact makes_of_label (.inr ⟨rfl, rfl⟩) run
  · obtain ⟨_, _, -, thrown⟩ := Action.ok_of_bind run
    cases thrown

/-- Only integers of the range come out of the range check. -/
theorem inRange_of_integer {n : Int} (run : integer supply v s = .ok n s') :
    inRange n = true := by
  obtain ⟨m, s₁, -, checked⟩ := Action.ok_of_bind run
  split at checked
  · rename_i range
    cases checked
    exact range
  · obtain ⟨_, _, -, thrown⟩ := Action.ok_of_bind checked
    cases thrown

theorem makes_apply (own : isCoercionOf r c = true) (run : apply supply c v s = .ok w s') :
    Makes r v w := by
  cases c with
  | integer =>
    cases eq_of_beq own
    obtain ⟨n, s₁, coerced, returned⟩ := Action.ok_of_bind run
    cases returned
    exact .result (by simpa [isResult] using inRange_of_integer coerced)
  | float =>
    cases eq_of_beq own
    obtain ⟨x, s₁, -, returned⟩ := Action.ok_of_bind run
    cases returned
    exact .result rfl
  | truth =>
    cases eq_of_beq own
    obtain ⟨b, s₁, -, returned⟩ := Action.ok_of_bind run
    cases returned
    exact .result rfl
  | stringOut =>
    cases eq_of_beq own
    exact makes_stringOut run
  | stringIn =>
    cases eq_of_beq own
    exact makes_stringIn run
  | identifier =>
    cases eq_of_beq own
    exact makes_identifier run
  | _ => cases own

/-! ### What was made is given back -/

theorem labelValue_of_text {t : String} (spelt : v.text? = some t) :
    Display.labelValue supply v u = .ok (.text t) u := by
  have labelled : (do return Value.text (← Display.label supply v)) u = .ok (.text t) u :=
    Action.bind_of_ok (Validation.label_of_text spelt u)
  cases v with
  | text | location => exact labelled
  | _ => cases spelt

theorem integer_of_inRange {n : Int} (range : inRange n = true) :
    integer supply (.int n) u = .ok n u := by
  simp only [integer, wholeNumber, pure_bind, range, if_true]
  rfl

/-- Both coercions of a scalar give back what one of them made. -/
theorem apply_made (own : isCoercionOf r c = true) (made : Makes r v w) :
    apply supply c w u = .ok w.untagged u := by
  cases made with
  | @label _ l =>
    have tagged : (Value.location l).text? = some l.tag := rfl
    cases c with
    | stringOut | stringIn => exact labelValue_of_text tagged
    | _ => cases own
  | result result =>
    cases w with
    | int n =>
      obtain ⟨same, range⟩ := Bool.and_eq_true_iff.1 result
      cases eq_of_beq same
      cases c with
      | integer => exact Action.bind_of_ok (integer_of_inRange range)
      | _ => cases own
    | float x =>
      cases eq_of_beq result
      cases c with
      | float => rfl
      | _ => cases own
    | bool b =>
      cases eq_of_beq result
      cases c with
      | truth => rfl
      | _ => cases own
    | text t =>
      have spelt : (Value.text t).text? = some t := rfl
      cases c with
      | stringOut | stringIn | identifier => exact labelValue_of_text spelt
      | integer | float | truth =>
        cases eq_of_beq own
        cases result
      | _ => cases own
    | _ => cases result

/-! ### Serialization and parsing -/

theorem ok_of_guarded {wrap : Fault → Fault} {act : Action Value}
    (run : guarded wrap act s = .ok w s') : act s = .ok w s' := by
  cases result : act s with
  | ok a s₁ => exact (Action.tryCatch_of_ok result).symm.trans run
  | error f s₁ => cases (Action.tryCatch_of_error result).symm.trans run

theorem keepsCoercions_of_ok {wrap : Fault → Fault}
    (run : guarded wrap (apply Deferred.supplier c v) s = .ok w s') : s.KeepsCoercions s' := by
  have kept := Session.KeepsCoercions.custody.observed.toChecked.coerced wrap c v s
  rwa [Action.after_of_ok run] at kept

/-- What was made by a built-in scalar, and in which session. -/
theorem makes_of_coerced (equipped : s.IsEquipped) (builtIn : isScalar r = true)
    (run : serialize Deferred.supplier r v s = .ok w s' ∨
      parse Deferred.supplier r v s = .ok w s') : Makes r v w ∧ s.KeepsCoercions s' := by
  have same := equipped r builtIn
  obtain ⟨out, inward⟩ := isCoercionOf_session r (List.contains_iff_mem.1 builtIn)
  rcases run with run | run
  · exact ⟨makes_apply (same.serialize ▸ out) (ok_of_guarded run), keepsCoercions_of_ok run⟩
  · exact ⟨makes_apply (same.parse ▸ inward) (ok_of_guarded run), keepsCoercions_of_ok run⟩

/-- What was made is given back in both directions wherever the scalars have their coercions. -/
theorem gives_back (equipped : u.IsEquipped) (builtIn : isScalar r = true) (made : Makes r v w) :
    serialize Deferred.supplier r w u = .ok w.untagged u ∧
      parse Deferred.supplier r w u = .ok w.untagged u := by
  have same := equipped r builtIn
  obtain ⟨out, inward⟩ := isCoercionOf_session r (List.contains_iff_mem.1 builtIn)
  exact ⟨Action.tryCatch_of_ok (apply_made (same.serialize ▸ out) made),
    Action.tryCatch_of_ok (apply_made (same.parse ▸ inward) made)⟩

theorem equal_tag (l : Location) :
    Equality.equal supply (.text l.tag) (.location l) u = .ok true u := by
  obtain ⟨n, -, bounded⟩ := Action.boundedPairs_succ 0
    (fun n => Equality.equalWithin supply n (.text l.tag) (.location l)) u
  refine Eq.trans bounded ?_
  simp only [Equality.equalWithin, Value.row?, Equality.atomsEqual, Equality.numbersEqual?,
    Value.text?, beq_self_eq_true]
  rfl

/-- The data that both directions of a scalar give back. A location is not given back but its tag,
which equals it, and is made of nothing but a type that is named by it. -/
def GivesBack (u : Session) (r : Ref .scalar) (v w : Value) : Prop :=
  serialize Deferred.supplier r w u = .ok w.untagged u ∧
    parse Deferred.supplier r w u = .ok w.untagged u ∧
      (w.untagged = w ∨ r = stringRef ∧ v.isNamed = true ∧
        Equality.equal Deferred.supplier w.untagged w u = .ok true u)

theorem session_isEquipped (qs : List Request) : (session.runAll qs).2.IsEquipped :=
  fun _ builtIn => coercions_of_isScalar builtIn qs

/-- Whatever a built-in scalar returned, in either direction, is given back by both directions from
then on. -/
theorem coerced_values_are_given_back (qs later : List Request) {r : Ref .scalar} {v w : Value}
    {s' : Session} (builtIn : isScalar r = true)
    (coerced : serialize Deferred.supplier r v (session.runAll qs).2 = .ok w s' ∨
      parse Deferred.supplier r v (session.runAll qs).2 = .ok w s') :
    GivesBack (s'.runAll later).2 r v w := by
  obtain ⟨made, kept⟩ := makes_of_coerced (session_isEquipped qs) builtIn coerced
  have first := Session.KeepsCoercions.custody.runAll session qs
  have whole : scalarRefs.length ≤ session.scalars.size := by decide
  have live := Nat.le_trans whole first.size
  have last := Session.KeepsCoercions.lasting.trans kept
    (Session.KeepsCoercions.custody.runAll s' later)
  obtain ⟨out, inward⟩ := gives_back ((session_isEquipped qs).later last live) builtIn made
  refine ⟨out, inward, ?_⟩
  cases made with
  | label named => exact .inr ⟨rfl, named, equal_tag _⟩
  | result result =>
    left
    cases w with
    | location => cases result
    | _ => rfl

/-- A type that is named by a location. -/
def namedByLocation : List Request :=
  [.declareType "t" (.named (some "Obj")), .set (.ref "t") "name" (.location .field)]

theorem location_of_a_type_is_the_label_of_it :
    let s := (session.runAll namedByLocation).2
    serialize Deferred.supplier stringRef (.named ⟨0⟩) s = .ok (.location .field) s := rfl

/-- The label of a type that is named by a location is given back as a tag, after an attribute of
the scalar was changed. -/
theorem tag_of_a_label_is_given_back :
    let s := (session.runAll namedByLocation).2
    let renamed : List Request := [.set (.ref "String") "name" .null]
    isScalar stringRef = true ∧
      serialize Deferred.supplier stringRef (.named ⟨0⟩) s = .ok (.location .field) s ∧
      GivesBack (s.runAll renamed).2 stringRef (.named ⟨0⟩) (.location .field) :=
  ⟨rfl, location_of_a_type_is_the_label_of_it,
    coerced_values_are_given_back namedByLocation _ rfl
      (.inl location_of_a_type_is_the_label_of_it)⟩

/-- A location that is made of a type is no fixed point. -/
theorem location_of_a_type_is_not_given_back :
    ¬∀ (qs : List Request) (r : Ref .scalar) (v w : Value) (s' : Session), isScalar r = true →
      (serialize Deferred.supplier r v (session.runAll qs).2 = .ok w s' ∨
        parse Deferred.supplier r v (session.runAll qs).2 = .ok w s') →
      serialize Deferred.supplier r w s' = .ok w s' ∧ parse Deferred.supplier r w s' = .ok w s' := by
  intro fixed
  obtain ⟨again, -⟩ := fixed namedByLocation stringRef (.named ⟨0⟩) (.location .field) _ rfl
    (.inl location_of_a_type_is_the_label_of_it)
  have tag : serialize Deferred.supplier stringRef (.location .field)
      (session.runAll namedByLocation).2 = .ok (.text "FIELD") (session.runAll namedByLocation).2 :=
    rfl
  cases tag.symm.trans again

end Scalars

end DirectiveSchema
