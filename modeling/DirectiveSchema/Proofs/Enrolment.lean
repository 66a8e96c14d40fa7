import DirectiveSchema.Proofs.Admission

/-!
What is read and what is evaluated belongs to the census. The answers of deferred types do, so the
types of wrappers and of arguments do; the elements, the attributes and the parts of what belongs to
the census belong to it; and so does the value of an expression, with all that was built for it.
-/
namespace DirectiveSchema

variable {α β : Type} {s s' : Session} {u v x : Value} {W W' : Census} {steady : Bool}
  {answer : List Value → Deferred → Action Value}

/-- The action returns a datum that belongs to a census which counts what was built. -/
abbrev Census.Yields (steady : Bool) (W : Census) (act : Action Value) : Prop :=
  W.Admits steady act fun W' v => v.Belongs W'

/-- Answers that belong to the census and change nothing that exists, but for types that are
resolved. -/
structure Census.Answers (answer : List Value → Deferred → Action Value) : Prop where
  yields (W : Census) (ws : List Value) (d : Deferred) : W.Yields true (answer ws d)
  extension (ws : List Value) (d : Deferred) : Keeps Session.Extends (answer ws d)

theorem Types.includes_kept {t : Value} (belongs : t.Belongs W) :
    W.Includes (Types.kept t).toList := fun _ hv =>
  Types.eq_of_kept (Option.mem_toList.1 hv) ▸ belongs

namespace Census.Answers

/-! ### Types -/

theorem demand (h : Answers answer) (ws : List Value) (belongs : v.Belongs W) :
    W.Yields true (Types.demand ⟨ws, answer⟩ v) := by
  cases v with
  | deferred d => exact h.yields W ws d
  | _ => exact .pure belongs

/-- A wrapper that is resolved by its answer is none of those that lapsed: they are resolved. -/
theorem wrapped (h : Answers answer) (ws : List Value) (w : Wrapper) (r : Ref .wrapper) :
    W.Yields true (Types.wrapped ⟨ws, answer⟩ w r) := by
  intro s fits
  cases unresolved : (s.wrapper r).resolved with
  | some t =>
    have run : Types.wrapped ⟨ws, answer⟩ w r s = .ok t s := Types.wrapped_of_resolved unresolved
    rw [Action.after_of_ok run, Action.result?_of_ok run]
    refine ⟨W, .refl W, fits, fun a same => ?_⟩
    cases same
    exact fits.wrapper r t (by simp [WrappingType.contents, unresolved])
  | none =>
    cases based : (s.wrapper r).source with
    | none =>
      have run : Types.wrapped ⟨ws, answer⟩ w r s = _ := Types.wrapped_of_blank unresolved based
      rw [Action.after_of_error run, Action.result?_of_error run]
      exact ⟨W, .refl W, fits, fun _ same => by cases same⟩
    | some source =>
      have belongs : source.Belongs W :=
        fits.wrapper r source (by simp [WrappingType.contents, based])
      obtain ⟨W', more, fits', result⟩ := h.demand ws belongs s fits
      cases answered : Types.demand ⟨ws, answer⟩ source s with
      | error f s' =>
        have run := Types.wrapped_of_fault (w := w) unresolved based answered
        rw [Action.after_of_error answered] at fits'
        rw [Action.after_of_error run, Action.result?_of_error run]
        exact ⟨W', more, fits', fun _ same => by cases same⟩
      | ok t s' =>
        have run := Types.wrapped_of_demand (w := w) unresolved based answered
        rw [Action.after_of_ok answered] at fits'
        rw [Action.after_of_ok run, Action.result?_of_ok run]
        have known : t.Belongs W' := result t (Action.result?_of_ok answered)
        have live : r.index < s.wrappers.size := by
          refine Nat.lt_of_not_le fun dead => ?_
          rw [Session.wrapper, Arena.get_of_le dead] at based
          cases based
        have extension : s.Extends s' :=
          (Session.Extends.lasting.demand h.extension ws source).of_ok answered
        have source' := (extension.wrapper live).source
        obtain ⟨⟨base, -⟩, extra⟩ := WrappingType.includes_contents.1 (fits'.wrapper r)
        refine ⟨W', more, fits'.putWrapper r (WrappingType.includes_contents.2
          ⟨⟨base, Types.includes_kept known⟩, extra⟩) ?_ ?_ ?_, fun a same => by
            cases same; exact known⟩
        · exact fun classed t based' nonNull => fits'.wraps classed based' nonNull
        · intro u kept
          cases Types.eq_of_kept kept
          exact ⟨source, source'.trans based, mayResolve_of_demand answered⟩
        · intro lapsed
          rw [more.same rfl] at lapsed
          obtain ⟨-, d, t, -, resolved, -⟩ := fits.lapsed lapsed
          rw [show s.wrapper ⟨r.index⟩ = s.wrapper r from rfl, unresolved] at resolved
          cases resolved

theorem type (h : Answers answer) (ws : List Value) (q : Ref .argument) :
    W.Yields true (Arguments.type ⟨ws, answer⟩ q) := by
  intro s fits
  cases unresolved : (s.argument q).resolved with
  | some t =>
    have run : Arguments.type ⟨ws, answer⟩ q s = .ok t s := Arguments.type_of_resolved unresolved
    rw [Action.after_of_ok run, Action.result?_of_ok run]
    refine ⟨W, .refl W, fits, fun a same => ?_⟩
    cases same
    exact fits.argument q t (by simp [Argument.contents, unresolved])
  | none =>
    have belongs : (s.argument q).source.Belongs W :=
      fits.argument q _ (by simp [Argument.contents])
    obtain ⟨W', more, fits', result⟩ := h.demand ws belongs s fits
    cases answered : Types.demand ⟨ws, answer⟩ (s.argument q).source s with
    | error f s' =>
      have run := Arguments.type_of_fault unresolved answered
      rw [Action.after_of_error answered] at fits'
      rw [Action.after_of_error run, Action.result?_of_error run]
      exact ⟨W', more, fits', fun _ same => by cases same⟩
    | ok t s' =>
      have run := Arguments.type_of_demand unresolved answered
      rw [Action.after_of_ok answered] at fits'
      rw [Action.after_of_ok run, Action.result?_of_ok run]
      have known : t.Belongs W' := result t (Action.result?_of_ok answered)
      obtain ⟨public_, source, -, extra⟩ := Argument.includes_contents.1 (fits'.argument q)
      exact ⟨W', more, fits'.putArgument q (Argument.includes_contents.2
        ⟨public_, source, Types.includes_kept known, extra⟩), fun a same => by
          cases same; exact known⟩

/-- Whatever is observed, the session is as a larger census says. -/
theorem observed (h : Answers answer) : Observed answer (Session.Tallies steady W) :=
  { Session.Tallies.lasting with
    wrapped := fun ws w r => Admits.keeps fun _ _ => (h.wrapped ws w r).weaken
    type := fun ws q => Admits.keeps fun _ _ => (h.type ws q).weaken
    note := fun n => Admits.keeps fun _ _ => Admits.note n }

end Census.Answers

/-! ### Containers -/

namespace Census.Admits

theorem elements (belongs : v.Belongs W) :
    W.Admits steady (Container.elements v) fun W' vs => W'.Includes vs := by
  unfold Container.elements
  split
  · exact bindGet fun s fits => pure (fits.list _)
  · refine bindGet fun s fits => pure fun x hx => ?_
    obtain ⟨m, hm, rfl⟩ := List.mem_map.1 hx
    exact fits.set _ m hm
  · refine bindGet fun s fits => pure fun x hx => ?_
    obtain ⟨e, he, rfl⟩ := List.mem_map.1 hx
    exact (fits.dict _ e he).1
  · refine pure fun x hx => ?_
    obtain ⟨b, -, rfl⟩ := List.mem_map.1 hx
    exact Value.belongs_of_leaf rfl rfl
  · split
    · rename_i items text row
      refine pure ?_
      cases v with
      | tuple tag =>
        cases row
        exact Value.belongs_tuple.1 belongs
      | config tag name locations args description =>
        cases row
        obtain ⟨h₁, h₂, h₃, h₄⟩ := Value.belongs_config.1 belongs
        intro x hx
        simp only [List.mem_cons, List.not_mem_nil, or_false] at hx
        rcases hx with rfl | rfl | rfl | rfl <;> assumption
      | _ => cases row
    · refine pure fun x hx => ?_
      obtain ⟨c, -, rfl⟩ := List.mem_map.1 hx
      exact Value.belongs_of_leaf rfl rfl
    · exact throw _

/-- The members of a collection belong to the census. -/
abbrev Members (W : Census) (ms : List Member) : Prop := ∀ m ∈ ms, m.value.Belongs W

/-- The keys and the values of a collection belong to the census. -/
abbrev Entries (W : Census) (es : List Entry) : Prop :=
  ∀ e ∈ es, e.key.Belongs W ∧ e.value.Belongs W

theorem Members.mono {ms : List Member} (h : Members W ms) (more : W.Extends steady W') :
    Members W' ms := fun m hm => (h m hm).mono more

theorem Entries.mono {es : List Entry} (h : Entries W es) (more : W.Extends steady W') :
    Entries W' es := fun e he => ⟨(h e he).1.mono more, (h e he).2.mono more⟩

end Census.Admits

namespace Census.Answers

open Admits

variable (h : Answers answer) (ws : List Value)

include h

/-- What is observed is admitted in any time. -/
theorem admits {act : Action α} (kept : Observed answer (Session.Tallies steady W) →
    Keeps (Session.Tallies steady W) act) : W.Admits steady act fun _ _ => True :=
  ofKeeps (kept h.observed)

theorem addMember {ms : List Member} (members : Members W ms) (belongs : v.Belongs W) :
    W.Admits steady (Container.addMember ⟨ws, answer⟩ ms v) Members := by
  simp only [Container.addMember]
  refine (h.admits fun o => o.hash ws v).bind fun W₁ more key _ => ?_
  refine (h.admits fun o => o.holds (o.equal ws) _ _).bind fun W₂ more' found _ => ?_
  have old := (members.mono more).mono more'
  split
  · exact .pure old
  · refine .pure fun m hm => ?_
    rcases List.mem_append.1 hm with hm | hm
    · exact old m hm
    · cases List.mem_singleton.1 hm
      exact (belongs.mono more).mono more'

theorem distinct {vs : List Value} (belong : W.Includes vs) :
    W.Admits steady (Container.distinct ⟨ws, answer⟩ vs) Members :=
  .foldlM (fun _ hm => absurd hm List.not_mem_nil) fun _ hv _ more _ members =>
    h.addMember ws members ((belong _ hv).mono more)

theorem put {e : Entry} {es : List Entry} (belongs : e.key.Belongs W ∧ e.value.Belongs W)
    (entries : Entries W es) : W.Admits steady (Container.put ⟨ws, answer⟩ e es) Entries := by
  induction es generalizing W with
  | nil =>
    refine .pure fun e' he' => ?_
    cases List.mem_singleton.1 he'
    exact belongs
  | cons e' es ih =>
    have first := entries e' List.mem_cons_self
    have others : Entries W es := fun d hd => entries d (List.mem_cons_of_mem e' hd)
    simp only [Container.put]
    refine (h.admits fun o => o.hit (o.equal ws) _ _ _ _).bind fun W₁ more found _ => ?_
    have belongs₁ := And.intro (belongs.1.mono more) (belongs.2.mono more)
    split
    · refine .pure fun d hd => ?_
      rcases List.mem_cons.1 hd with rfl | hd
      · exact ⟨first.1.mono more, belongs₁.2⟩
      · exact others.mono more d hd
    · refine (ih belongs₁ (others.mono more)).bind fun W₂ more' es' rest => .pure fun d hd => ?_
      rcases List.mem_cons.1 hd with rfl | hd
      · exact ⟨(first.1.mono more).mono more', (first.2.mono more).mono more'⟩
      · exact rest d hd

theorem assign {es : List Entry} {k : Value} (entries : Entries W es) (key : k.Belongs W)
    (value : v.Belongs W) : W.Admits steady (Container.assign ⟨ws, answer⟩ es k v) Entries :=
  (h.admits fun o => o.hash ws k).bind fun _ more _ _ =>
    h.put ws ⟨key.mono more, value.mono more⟩ (entries.mono more)

theorem dictionary {pairs : List (Value × Value)}
    (belong : ∀ p ∈ pairs, p.1.Belongs W ∧ p.2.Belongs W) :
    W.Admits steady (Container.dictionary ⟨ws, answer⟩ pairs) Entries :=
  .foldlM (fun _ he => absurd he List.not_mem_nil) fun _ hp _ more _ entries =>
    h.assign ws entries ((belong _ hp).1.mono more) ((belong _ hp).2.mono more)

theorem lookup {es : List Entry} {key : HashKey} {k : Value} (entries : Entries W es) :
    W.Admits steady (Equality.lookup? (Equality.equal ⟨ws, answer⟩) key k es)
      fun W' found => ∀ v, found = some v → v.Belongs W' := by
  induction es generalizing W with
  | nil => exact .pure fun v same => by cases same
  | cons e es ih =>
    simp only [Equality.lookup?]
    refine (h.admits fun o => o.hit (o.equal ws) _ _ _ _).bind fun W₁ more found _ => ?_
    split
    · refine .pure fun v same => ?_
      cases same
      exact (entries e List.mem_cons_self).2.mono more
    · exact ih (entries.mono more |> fun all d hd => all d (List.mem_cons_of_mem e hd))

theorem valueAt {es : List Entry} {k : Value} (entries : Entries W es) :
    W.Admits steady (Container.valueAt? ⟨ws, answer⟩ es k)
      fun W' found => ∀ v, found = some v → v.Belongs W' :=
  (h.admits fun o => o.hash ws k).bind fun _ more _ _ => h.lookup ws (entries.mono more)

end Census.Answers

/-! ### Directives -/

namespace Census.Admits

theorem rowOf (belongs : v.Belongs W) :
    W.Admits steady (Directives.rowOf v) fun W' row => row.value.Belongs W' := by
  unfold Directives.rowOf
  split
  · exact pure belongs
  · exact (elements belongs).bind fun _ _ _ included => newRow included

theorem argsOf (belongs : v.Belongs W) :
    W.Admits steady (Directives.argsOf v) fun W' row => row.value.Belongs W' := by
  unfold Directives.argsOf
  split
  · exact newRow fun _ hx => absurd hx List.not_mem_nil
  · exact rowOf belongs

/-- The fields of a directive. -/
theorem directive {r : Ref .directive} {d : Directive} (fits : s.Fits W)
    (cell : s.directive r = d) : d.name.Belongs W ∧ d.description.Belongs W ∧ d.locations.value.Belongs W ∧
      d.args.value.Belongs W := by
  subst cell
  have held := fits.directive r
  simp only [Directive.contents] at held
  exact ⟨held _ (by simp), held _ (by simp), held _ (by simp), held _ (by simp)⟩

theorem toConfig (r : Ref .directive) : W.Yields steady (Directives.toConfig r) := by
  refine bindGet fun s fits => ?_
  obtain ⟨name, description, locations, args⟩ := directive fits (r := r) rfl
  refine (newList (Value.belongs_tuple.1 locations)).bind fun W₁ more l hl => ?_
  refine (newList (Value.belongs_tuple.1 (args.mono more))).bind fun W₂ more' a ha => ?_
  refine freshTag.bind fun W₃ more'' tag _ => pure (Value.belongs_config.2 ⟨?_, ?_, ?_, ?_⟩)
  · exact ((name.mono more).mono more').mono more''
  · exact (hl.mono more').mono more''
  · exact ha.mono more''
  · exact ((description.mono more).mono more').mono more''

end Census.Admits

namespace Census.Answers

open Admits

variable (h : Answers answer) (ws : List Value)

include h

theorem assertName (v : Value) :
    W.Admits steady (Directives.assertName ⟨ws, answer⟩ v) fun _ name => name.val = v := by
  unfold Directives.assertName
  split
  · exact .pure rfl
  · exact (h.admits fun o => o.label ws v).bind fun _ _ _ _ => .throw _

theorem create {name locations args description : Value} (hn : name.Belongs W)
    (hl : locations.Belongs W) (ha : args.Belongs W) (hd : description.Belongs W) :
    W.Admits steady (Directives.create ⟨ws, answer⟩ name locations args description)
      fun W' r => (Value.directive r).Belongs W' := by
  simp only [Directives.create]
  refine (h.admits fun o => o.isTruthy name).bind fun W₁ m₁ named _ => ?_
  cases named with
  | false => exact .throw _
  | true =>
    refine (h.assertName ws name).bind fun W₂ m₂ valid same => ?_
    split
    · refine (argsOf ((ha.mono m₁).mono m₂)).bind fun W₃ m₃ args' ha' => ?_
      refine (rowOf (((hl.mono m₁).mono m₂).mono m₃)).bind fun W₄ m₄ locations' hl' => ?_
      refine (h.admits fun o => o.label ws _).bind fun W₅ m₅ _ _ => ?_
      refine (h.admits fun o => o.mapM (o.label ws) _).bind fun W₆ m₆ _ _ => ?_
      have later := (((m₁.trans m₂).trans m₃).trans m₄).trans (m₅.trans m₆)
      refine (newDirective fun v hv => ?_).bind fun W₇ m₇ r hr => ?_
      · simp only [Directive.contents, List.mem_cons, List.not_mem_nil, or_false] at hv
        rcases hv with rfl | rfl | rfl | rfl
        · exact same ▸ hn.mono later
        · exact hd.mono later
        · exact hl'.mono (m₅.trans m₆)
        · exact ha'.mono (m₄.trans (m₅.trans m₆))
      · exact (note _).bind fun W₈ m₈ _ _ => .pure (hr.mono m₈)
    · exact .throw _

end Census.Answers

end DirectiveSchema
