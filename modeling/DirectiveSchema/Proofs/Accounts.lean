import DirectiveSchema.Proofs.Enrolment

/-!
Evaluations and access on the account of a census. The value of an expression belongs to the census
that counts what was built for it, and so do the answers of deferred types; attributes and elements
of what belongs to a census belong to it.
-/
namespace DirectiveSchema

variable {α β : Type} {s s' : Session} {u v x : Value} {W W' : Census} {steady : Bool}
  {answer : List Value → Deferred → Action Value}

open Census.Admits

namespace Census.Admits

/-! ### Evaluation -/

theorem lookup (name : String) : W.Yields steady (Expression.lookup name) :=
  bindGet fun s fits => by
    split
    · rename_i found
      exact pure (fits.binding found)
    · exact throw _

theorem createArgument {name source description : Value} {default : Option Value}
    (hn : name.Belongs W) (hs : source.Belongs W) (hd : W.Includes default.toList)
    (hx : description.Belongs W) :
    W.Admits steady (Arguments.create name source default description)
      fun W' r => (Value.argument r).Belongs W' := by
  exact newArgument (Argument.includes_contents.2 ⟨⟨includes_some.2 hn, includes_some.2 hx,
    includes_some.2 (Value.belongs_of_leaf rfl rfl), hd⟩, hs, W.includes_nil, W.includes_nil⟩)

theorem belongs_getD {o : Option Value} (held : W.Includes o.toList) :
    (o.getD .null).Belongs W := by
  cases o with
  | none => exact Value.belongs_of_leaf rfl rfl
  | some v => exact includes_some.1 held

theorem buildArgument {name type default description : Option Value}
    (hn : W.Includes name.toList) (ht : W.Includes type.toList) (hd : W.Includes default.toList)
    (hx : W.Includes description.toList) :
    W.Yields steady (Expression.buildArgument name type default description) := by
  unfold Expression.buildArgument
  split
  · exact (createArgument (includes_some.1 hn) (includes_some.1 ht) hd (belongs_getD hx)).bind
      fun _ _ _ hr => pure hr
  · exact throw _

theorem buildScalar {name : Option Value} {serialize parse : Coercion} {description : Option Value}
    (hn : W.Includes name.toList) (hs : W.Includes serialize.contents)
    (hp : W.Includes parse.contents) (hx : W.Includes description.toList) :
    W.Yields steady (Expression.buildScalar name serialize parse description) := by
  unfold Expression.buildScalar
  split
  · exact (newScalar (ScalarType.includes_holdings.2
      ⟨⟨⟨⟨hn, includes_some.2 (belongs_getD hx)⟩, W.includes_nil⟩, hs⟩, hp⟩)).bind
        fun _ _ _ hr => pure hr
  · exact throw _

end Census.Admits

namespace Census.Answers

theorem buildDirective (h : Answers answer) (ws : List Value) (route : Route)
    {name locations args description : Option Value}
    (hn : W.Includes name.toList) (hl : W.Includes locations.toList)
    (ha : W.Includes args.toList) (hx : W.Includes description.toList) :
    W.Yields steady
      (Expression.buildDirective ⟨ws, answer⟩ route name locations args description) := by
  unfold Expression.buildDirective
  split
  · exact (h.create ws (includes_some.1 hn) (includes_some.1 hl) (belongs_getD ha)
      (belongs_getD hx)).bind fun _ _ _ hr => .pure hr
  · exact .throw _

mutual

/-- The value of an expression belongs to the census, with all that was built for it. -/
theorem eval (h : Answers answer) (ws : List Value) (e : Expression) (W : Census) :
    W.Yields true (e.eval ⟨ws, answer⟩) := by
  cases e with
  | null | bool | int | text | bytes | location => exact .pure (Value.belongs_of_leaf rfl rfl)
  | float x =>
    cases x with
    | nan => exact freshTag.bind fun _ _ _ _ => .pure (Value.belongs_of_leaf rfl rfl)
    | finite | infinite => exact .pure (Value.belongs_of_leaf rfl rfl)
  | foreign text => exact freshTag.bind fun _ _ _ _ => .pure (Value.belongs_of_leaf rfl rfl)
  | list items =>
    exact (h.evalAll ws items W).bind fun _ _ _ hvs => (newList hvs).bind fun _ _ _ hr => .pure hr
  | tuple items =>
    exact (h.evalAll ws items W).bind fun _ _ _ hvs => (newRow hvs).bind fun _ _ _ hr => .pure hr
  | set items =>
    refine (h.evalAll ws items W).bind fun _ _ _ hvs => (h.distinct ws hvs).bind fun _ _ _ hms => ?_
    exact (newSet hms).bind fun _ _ _ hr => .pure hr
  | dict entries =>
    refine (h.evalEntries ws entries W).bind fun _ _ _ hps => ?_
    refine (h.dictionary ws hps).bind fun _ _ _ hes => ?_
    exact (newDict hes).bind fun _ _ _ hr => .pure hr
  | ref name => exact Admits.lookup name
  | type t => exact h.evalType ws t W
  | argument name type default description =>
    refine (h.evalField ws name W).bind fun _ m₁ _ h₁ => ?_
    refine (h.evalTypeField ws type _).bind fun _ m₂ _ h₂ => ?_
    refine (h.evalField ws default _).bind fun _ m₃ _ h₃ => ?_
    refine (h.evalField ws description _).bind fun _ m₄ _ h₄ => ?_
    exact buildArgument (((h₁.mono m₂).mono m₃).mono m₄) ((h₂.mono m₃).mono m₄) (h₃.mono m₄) h₄
  | directive route name locations args description =>
    refine (h.evalField ws name W).bind fun _ m₁ _ h₁ => ?_
    refine (h.evalField ws locations _).bind fun _ m₂ _ h₂ => ?_
    refine (h.evalField ws args _).bind fun _ m₃ _ h₃ => ?_
    refine (h.evalField ws description _).bind fun _ m₄ _ h₄ => ?_
    exact h.buildDirective ws route (((h₁.mono m₂).mono m₃).mono m₄) ((h₂.mono m₃).mono m₄)
      (h₃.mono m₄) h₄

theorem evalType (h : Answers answer) (ws : List Value) (t : TypeExpression) (W : Census) :
    W.Yields true (t.eval ⟨ws, answer⟩) := by
  cases t with
  | ref name => exact Admits.lookup name
  | wrap w t => exact (h.evalType ws t W).bind fun _ _ _ hv => wrap w hv
  | named name =>
    refine (newNamedType fun v hv => ?_).bind fun _ _ _ hr => .pure hr
    have text : ∃ n, v = .text n := by
      cases name with
      | none => simp [NamedType.contents, Attributes.contents] at hv
      | some n =>
        exact ⟨n, by simpa [NamedType.contents, Attributes.contents] using hv⟩
    obtain ⟨n, rfl⟩ := text
    exact Value.belongs_of_leaf rfl rfl
  | scalar name serialize parse description =>
    refine (h.evalField ws name W).bind fun _ m₁ _ h₁ => ?_
    refine (h.evalCoercion ws serialize _).bind fun _ m₂ _ h₂ => ?_
    refine (h.evalCoercion ws parse _).bind fun _ m₃ _ h₃ => ?_
    refine (h.evalField ws description _).bind fun _ m₄ _ h₄ => ?_
    exact buildScalar (((h₁.mono m₂).mono m₃).mono m₄) ((h₂.mono m₃).mono m₄) (h₃.mono m₄) h₄
  | value v => exact h.eval ws v W
  | deferred counter t =>
    exact freshTag.bind fun _ _ _ _ => .pure (Value.belongs_of_leaf rfl rfl)
  | raising kind message => exact .throw _

theorem evalCoercion (h : Answers answer) (ws : List Value) (c : CoercionExpression) (W : Census) :
    W.Admits true (c.eval ⟨ws, answer⟩) fun W' c => W'.Includes c.contents := by
  cases c with
  | constant v =>
    refine (h.eval ws v W).bind fun _ _ _ hv => .pure fun x hx => ?_
    cases List.mem_singleton.1 hx
    exact hv
  | _ => exact .pure fun _ hx => absurd hx List.not_mem_nil

theorem evalAll (h : Answers answer) (ws : List Value) (es : List Expression) (W : Census) :
    W.Admits true (DirectiveSchema.evalAll ⟨ws, answer⟩ es) fun W' vs => W'.Includes vs := by
  cases es with
  | nil => exact .pure fun _ hx => absurd hx List.not_mem_nil
  | cons e es =>
    refine (h.eval ws e W).bind fun _ _ _ hv => ?_
    refine (h.evalAll ws es _).bind fun _ more _ hvs => .pure ?_
    intro x hx
    rcases List.mem_cons.1 hx with rfl | hx
    · exact hv.mono more
    · exact hvs x hx

theorem evalEntries (h : Answers answer) (ws : List Value)
    (es : List (Expression × Expression)) (W : Census) :
    W.Admits true (DirectiveSchema.evalEntries ⟨ws, answer⟩ es)
      fun W' ps => ∀ p ∈ ps, p.1.Belongs W' ∧ p.2.Belongs W' := by
  cases es with
  | nil => exact .pure fun _ hx => absurd hx List.not_mem_nil
  | cons p es =>
    obtain ⟨k, v⟩ := p
    refine (h.eval ws k W).bind fun _ _ _ hk => (h.eval ws v _).bind fun _ m₂ _ hv => ?_
    refine (h.evalEntries ws es _).bind fun _ m₃ _ hps => .pure fun p hp => ?_
    rcases List.mem_cons.1 hp with rfl | hp
    · exact ⟨(hk.mono m₂).mono m₃, hv.mono m₃⟩
    · exact hps p hp

theorem evalField (h : Answers answer) (ws : List Value) (e : Option Expression) (W : Census) :
    W.Admits true (DirectiveSchema.evalField ⟨ws, answer⟩ e)
      fun W' o => W'.Includes o.toList := by
  cases e with
  | none => exact .pure fun _ hx => absurd hx List.not_mem_nil
  | some e =>
    refine (h.eval ws e W).bind fun _ _ _ hv => .pure fun x hx => ?_
    cases List.mem_singleton.1 hx
    exact hv

theorem evalTypeField (h : Answers answer) (ws : List Value) (t : Option TypeExpression)
    (W : Census) : W.Admits true (DirectiveSchema.evalTypeField ⟨ws, answer⟩ t)
      fun W' o => W'.Includes o.toList := by
  cases t with
  | none => exact .pure fun _ hx => absurd hx List.not_mem_nil
  | some t =>
    refine (h.evalType ws t W).bind fun _ _ _ hv => .pure fun x hx => ?_
    cases List.mem_singleton.1 hx
    exact hv

end

end Census.Answers

namespace Census

theorem Answers.evaluate (h : Answers answer) (W : Census) (ws : List Value) (d : Deferred) :
    W.Yields true (d.evaluate ⟨ws, answer⟩) :=
  (Admits.count d.counter).bind fun _ _ _ _ => h.evalType ws d.body _

/-- The induction is on the calls that may lie inside a call. -/
theorem answers_callWithin (n : Nat) : Answers (Deferred.callWithin n) := by
  induction n with
  | zero =>
    refine ⟨fun W ws d => ?_, Session.Extends.growth.callWithin 0⟩
    have silent : Answers fun _ _ => throw .endless :=
      ⟨fun _ _ _ => .throw _, fun _ _ => Session.Extends.lasting.throw _⟩
    unfold Deferred.callWithin
    split
    · exact silent.evaluate W ws d
    · exact .throw _
  | succ n ih =>
    exact ⟨fun W ws d => ih.evaluate W ws d, Session.Extends.growth.callWithin (n + 1)⟩

/-- The answers of deferred types belong to the census. -/
theorem answers : Answers Deferred.supplier.answer where
  yields W ws d := .bounded fun n => (answers_callWithin n).yields W ws d
  extension := Session.Extends.growth.call

/-- Whatever is observed, the session is as a larger census says. -/
theorem observed : Observed Deferred.supplier.answer (Session.Tallies steady W) := answers.observed

/-- What is observed is admitted in any time. -/
theorem Admits.observing {act : Action α}
    (kept : Observed Deferred.supplier.answer (Session.Tallies steady W) →
      Keeps (Session.Tallies steady W) act) : W.Admits steady act fun _ _ => True :=
  answers.admits kept

theorem Admits.value (e : Expression) (W : Census) :
    W.Yields steady (e.eval Deferred.supplier) := (answers.eval [] e W).weaken

theorem Admits.typeValue (t : TypeExpression) (W : Census) :
    W.Yields steady (t.eval Deferred.supplier) := (answers.evalType [] t W).weaken

theorem Admits.wrapped (w : Wrapper) (r : Ref .wrapper) :
    W.Yields steady (Types.wrapped Deferred.supplier w r) := (answers.wrapped [] w r).weaken

theorem Admits.type (q : Ref .argument) : W.Yields steady (Arguments.type Deferred.supplier q) :=
  (answers.type [] q).weaken

end Census

/-! ### Access -/

namespace Census.Admits

theorem extra {className key : String} {as : Attributes} (held : W.Includes as.contents) :
    W.Yields steady (Access.extra className key as) := by
  unfold Access.extra
  split
  · rename_i found
    refine pure (held _ ?_)
    obtain ⟨l₁, l₂, split, -⟩ := List.lookup_eq_some_iff.1 found
    rw [split]
    simp [Attributes.contents]
  · exact throw _

theorem present {className key : String} {o : Option Value} (held : W.Includes o.toList) :
    W.Yields steady (Arguments.present className key o) := by
  cases o with
  | none => exact throw _
  | some v => exact pure (held v (by simp))

theorem belongs_typeName {name : Option Value} (held : W.Includes name.toList) :
    (Display.typeName name).Belongs W := by
  cases name with
  | none => exact Value.belongs_of_leaf rfl rfl
  | some v => exact held v (by simp)

/-- An attribute of a datum belongs to the census. -/
theorem get (belongs : v.Belongs W) (key : String) :
    W.Yields steady (Access.get Deferred.supplier v key) := by
  unfold Access.get
  refine bindGet fun s fits => ?_
  split
  · obtain ⟨hn, hx⟩ := NamedType.includes_contents.1 (fits.namedType ‹_›)
    split
    · exact pure (belongs_typeName hn)
    · exact extra hx
  · obtain ⟨⟨⟨⟨hn, hd⟩, hx⟩, -⟩, -⟩ := ScalarType.includes_holdings.1 (fits.scalar ‹_›)
    split
    · exact pure (belongs_typeName hn)
    · exact present hd
    · exact extra hx
  · split
    · exact wrapped _ _
    · exact extra (WrappingType.includes_contents.1 (fits.wrapper ‹_›)).2
  · rename_i q
    obtain ⟨-, -, -, hx⟩ := Argument.includes_contents.1 (fits.argument q)
    split
    · exact bindGet fun s fits => present (Argument.includes_contents.1 (fits.argument q)).1.1
    · exact bindGet fun s fits => present (Argument.includes_contents.1 (fits.argument q)).1.2.1
    · exact bindGet fun s fits => present (Argument.includes_contents.1 (fits.argument q)).1.2.2.1
    · refine bindGet fun s fits => ?_
      split
      · rename_i v stored
        have held := (Argument.includes_contents.1 (fits.argument q)).1.2.2.2
        exact pure (includes_some.1 (stored ▸ held))
      · exact throw _
    · exact type q
    · exact (observing fun o => o.required q).bind fun _ _ _ _ =>
        pure (Value.belongs_of_leaf rfl rfl)
    · exact extra hx
  · obtain ⟨name, description, locations, args⟩ := directive fits (r := ‹_›) rfl
    split
    all_goals first
      | exact pure name
      | exact pure description
      | exact pure locations
      | exact pure args
      | exact throw _
  · obtain ⟨name, locations, args, description⟩ := Value.belongs_config.1 belongs
    split
    all_goals first
      | exact pure name
      | exact pure description
      | exact pure locations
      | exact pure args
      | exact throw _
  · split
    all_goals first
      | exact pure (Value.belongs_of_leaf rfl rfl)
      | exact throw _
  · exact throw _

theorem elementAt {items : List Value} (held : W.Includes items) (v key : Value) :
    W.Yields steady (Access.elementAt v items key) := by
  unfold Access.elementAt
  split
  · exact throw _
  · split
    · rename_i found
      obtain ⟨i, -, at_⟩ := Option.bind_eq_some_iff.1 found
      exact pure (held _ (List.mem_of_getElem? at_))
    · exact throw _

theorem item (belongs : v.Belongs W) (key : Value) :
    W.Yields steady (Access.item Deferred.supplier v key) := by
  have indexed : W.Yields steady (do Access.elementAt v (← Container.elements v) key) :=
    (elements belongs).bind fun _ _ _ held => elementAt held v key
  unfold Access.item
  split
  · exact indexed
  · exact indexed
  · refine bindGet fun s fits => ?_
    refine (answers.valueAt [] (fits.dict _)).bind fun _ _ found hfound => ?_
    cases found with
    | some x => exact pure (hfound x rfl)
    | none => exact (observing fun o => o.literal [] key).bind fun _ _ _ _ => throw _
  · split
    · exact indexed
    · exact throw _

theorem asDirective (belongs : v.Belongs W) (operation : String) :
    W.Admits steady (Access.asDirective v operation)
      fun W' r => (Value.directive r).Belongs W' := by
  unfold Access.asDirective
  split
  · exact pure belongs
  · exact throw _

theorem argumentMap (r : Ref .directive) :
    W.Admits steady (Access.argumentMap Deferred.supplier r) Entries := by
  refine bindGet fun s fits => ?_
  obtain ⟨-, -, -, args⟩ := directive fits (r := r) rfl
  refine foldlM (fun _ he => absurd he List.not_mem_nil) fun a ha W₁ m₁ es hes => ?_
  have member := (Value.belongs_tuple.1 args a ha).mono m₁
  exact (get member "name").bind fun _ m₂ _ hn =>
    answers.assign [] (hes.mono m₂) hn (member.mono m₂)

theorem fromConfig (belongs : v.Belongs W) :
    W.Admits steady (Access.fromConfig Deferred.supplier v)
      fun W' r => (Value.directive r).Belongs W' := by
  refine (get belongs "name").bind fun _ m₁ _ h₁ => ?_
  refine (get (belongs.mono m₁) "locations").bind fun _ m₂ _ h₂ => ?_
  refine (get ((belongs.mono m₁).mono m₂) "args").bind fun _ m₃ _ h₃ => ?_
  refine (get (((belongs.mono m₁).mono m₂).mono m₃) "description").bind fun _ m₄ _ h₄ => ?_
  exact answers.create [] (((h₁.mono m₂).mono m₃).mono m₄) ((h₂.mono m₃).mono m₄) (h₃.mono m₄) h₄

end Census.Admits

end DirectiveSchema
