import DirectiveSchema.Proofs.Taking

/-!
Picturing directives. The type of an argument is a finite chain of wrappers over a scalar; it is
followed while it is pictured, and what is found stays known in later sessions.
-/
namespace DirectiveSchema.Snapshot

variable {α β : Type} {G : Grade} {kind : Session → Value → Prop} {D : Depiction} {supply : Supplier} {s s' u : Session}
  {v x : Value} {k n N : Nat} {seen seen' : List Value} {f next : Value → Taking Snapshot}

/-! ### Types and arguments -/

/-- What is observed before a part is pictured. -/
theorem Takes.lift {x : Action α} {g : α → Taking β} {P : Session → List Value → β → Prop} {a : α}
    (run : x s = .ok a s') (later : s.Leads s') (h : Takes s' seen (g a) P) :
    Takes s seen (liftM x >>= g) P := by
  obtain ⟨b, seen', s'', run', later', post⟩ := h
  exact ⟨b, seen', s'', (Action.bindWith_of_ok (Action.lift_of_ok run)).trans run',
    later.trans later', post⟩

/-- A wrapper of which something is known exists. -/
theorem live_of_known {r : Ref .wrapper}
    (h : (s.wrapper r).source.isSome = true ∨ (s.wrapper r).resolved.isSome = true) :
    r.index < s.wrappers.size := by
  refine Nat.lt_of_not_le fun outside => ?_
  have blank : s.wrapper r = default := Arena.get_of_le outside
  rw [blank] at h
  rcases h with h | h <;> cases h

/-- A type that is not null is kept where it was asked for. -/
theorem wrapped_kept {w : Wrapper} {r : Ref .wrapper} {t : Value}
    (h : Types.wrapped Deferred.supplier w r s = .ok t s') (known : t.isNull = false) :
    ∃ c, s'.body? (.wrapper w r) = some (.wrapper w c) ∧ c.resolved = some t := by
  cases resolved : (s.wrapper r).resolved with
  | some y =>
    rw [Types.wrapped_of_resolved resolved] at h
    cases h
    refine ⟨s.wrapper r, ?_, resolved⟩
    rw [Session.body?, Arena.get?_of_lt (live_of_known (.inr (by rw [resolved]; rfl)))]
    rfl
  | none =>
    cases based : (s.wrapper r).source with
    | none =>
      rw [Types.wrapped_of_blank resolved based] at h
      cases h
    | some source =>
      have live := live_of_known (s := s) (r := r) (.inl (by rw [based]; rfl))
      cases demanded : Types.demand Deferred.supplier source s with
      | error e s₁ =>
        rw [Types.wrapped_of_fault resolved based demanded] at h
        cases h
      | ok y s₁ =>
        rw [Types.wrapped_of_demand resolved based demanded] at h
        cases h
        have grown := (Session.Extends.growth.demand Session.Extends.growth.call [] source).of_ok
          demanded
        refine ⟨_, congrArg (Option.map (Body.wrapper w)) (Arena.get?_put_self
          (Nat.lt_of_lt_of_le live grown.wrappers.size)), Types.kept_of_not_isNull known⟩

theorem type_kept {q : Ref .argument} {t : Value} (live : q.index < s.arguments.size)
    (h : Arguments.type Deferred.supplier q s = .ok t s') (known : t.isNull = false) :
    ∃ c, s'.body? (.argument q) = some (.argument c) ∧ c.resolved = some t := by
  cases resolved : (s.argument q).resolved with
  | some y =>
    rw [Arguments.type_of_resolved resolved] at h
    cases h
    refine ⟨s.argument q, ?_, resolved⟩
    rw [Session.body?, Arena.get?_of_lt live]
    rfl
  | none =>
    cases demanded : Types.demand Deferred.supplier (s.argument q).source s with
    | error e s₁ =>
      rw [Arguments.type_of_fault resolved demanded] at h
      cases h
    | ok y s₁ =>
      rw [Arguments.type_of_demand resolved demanded] at h
      cases h
      have grown := (Session.Extends.growth.demand Session.Extends.growth.call [] _).of_ok demanded
      refine ⟨_, congrArg (Option.map Body.argument) (Arena.get?_put_self
        (Nat.lt_of_lt_of_le live grown.arguments.size)), Types.kept_of_not_isNull known⟩

theorem isNull_of_unwrapWithin {K : Nat} {t y : Value}
    (h : Types.unwrapWithin supply K t s = .ok y s') (known : y.isNull = false) :
    t.isNull = false := by
  cases t with
  | null =>
    cases K <;> cases h <;> cases known
  | _ => rfl

theorem eq_of_unwrapWithin {K : Nat} {t y : Value} (h : Types.unwrapWithin supply K t s = .ok y s')
    (leaf : t.isWrapper = false) : t = y ∧ s = s' := by
  cases t <;> first
    | cases leaf; done
    | cases K <;> cases h <;> exact ⟨rfl, rfl⟩

/-- A way to picture types and arguments that hold data of some kind: objects that were met before,
and objects whose parts are pictured in this way. -/
structure Scheme (G : Grade) (kind : Session → Value → Prop) (supply : Supplier) (D : Depiction) :
    Prop where
  met {u : Session} {seen : List Value} {v : Value} {k : Nat} (typed : v.isTyped = true) :
    number? v seen = some k → D u seen v (.seen k) seen
  wrapper {u : Session} {seen seen₁ : List Value} {w : Wrapper} {r : Ref .wrapper}
    {c : WrappingType} {type : Value} {p : Snapshot} (new : number? (.wrapper w r) seen = none)
    (nested : u.body? (.wrapper w r) = some (.wrapper w c)) (resolved : c.resolved = some type)
    (known : type.isNull = false) (inner : D u (.wrapper w r :: seen) type p seen₁) :
    D u seen (.wrapper w r) (.wrapper seen.length w p) seen₁
  argument {u : Session} {seen seen₁ seen₂ seen₃ seen₄ seen₅ seen₆ : List Value}
    {q : Ref .argument} {c : Argument} {type : Value} {p : Snapshot}
    {name description hasDefault default : Option Snapshot} {extra : List (String × Snapshot)}
    (new : number? (.argument q) seen = none)
    (nested : u.body? (.argument q) = some (.argument c)) (complete : c.Complete)
    (data : ∀ x ∈ c.data, kind u x)
    (resolved : c.resolved = some type) (known : type.isNull = false)
    (first : DepictsPart G supply u (.argument q :: seen) c.name name seen₁)
    (second : DepictsPart G supply u seen₁ c.description description seen₂)
    (third : DepictsPart G supply u seen₂ c.hasDefault hasDefault seen₃)
    (fourth : DepictsPart G supply u seen₃ c.default default seen₄)
    (fifth : D u seen₄ type p seen₅)
    (sixth : DepictsAttributes G supply u seen₅ c.extra extra seen₆) :
    D u seen (.argument q)
      (.argument seen.length name description hasDefault default p extra) seen₆

theorem scheme_depicts (G : Grade) (supply : Supplier) :
    Scheme G (fun _ _ => True) supply (Depicts G supply) where
  met _ := depicts_seen
  wrapper _ := depicts_wrapper
  argument _ nested complete _ := depicts_argument nested complete

theorem Scheme.pictured (scheme : Scheme G kind supply D) (typed : v.isTyped = true)
    (h : number? v seen = some k) : Pictured D v seen u seen (.seen k) := by
  refine ⟨scheme.met typed h, fun _ => ?_⟩
  obtain ⟨x, met, same⟩ := exists_of_number? h
  exact eq_of_same_of_isTyped same typed ▸ met

/-- A chain of wrappers is pictured as deep as it is long, and what lies in the end within them is
pictured in a round of its own. -/
theorem takes_chain (scheme : Scheme G kind Deferred.supplier D) {K : Nat} {t y : Value}
    (h : Types.unwrapWithin Deferred.supplier K t s = .ok y s') (known : y.isNull = false)
    (innermost : ∀ seen, Takes s' seen (next y) (Pictured D y seen)) (le : K ≤ N)
    (seen : List Value) :
    Takes s seen (ofWrapped (takeRound Deferred.supplier next N) next t) (Pictured D t seen) := by
  induction K generalizing s t N seen with
  | zero =>
    cases wraps : t.isWrapper with
    | false =>
      obtain ⟨rfl, rfl⟩ := eq_of_unwrapWithin h wraps
      rw [ofWrapped, wraps]
      exact innermost seen
    | true =>
      cases t with
      | wrapper => cases h
      | _ => cases wraps
  | succ K ih =>
    cases wraps : t.isWrapper with
    | false =>
      obtain ⟨rfl, rfl⟩ := eq_of_unwrapWithin h wraps
      rw [ofWrapped, wraps]
      exact innermost seen
    | true =>
      obtain ⟨w, q, rfl⟩ : ∃ w q, t = .wrapper w q := by
        cases t with
        | wrapper w q => exact ⟨w, q, rfl⟩
        | _ => cases wraps
      obtain ⟨M, rfl⟩ : ∃ M, N = M + 1 := ⟨N - 1, by omega⟩
      obtain ⟨t, s₁, wrapped, rest⟩ := Action.ok_of_bind h
      have nonNull := isNull_of_unwrapWithin rest known
      obtain ⟨c, body, resolved⟩ := wrapped_kept wrapped nonNull
      have later : s.Leads s₁ :=
        ((Later.observed Deferred.supplier.answer).wrapped [] w q).of_ok wrapped
      have again : Types.wrapped Deferred.supplier w q s₁ = .ok t s₁ := by
        obtain ⟨_, ⟨⟩, -, rfl⟩ := Session.makes_of_body body
        exact Types.wrapped_of_resolved resolved
      refine takes_round (fun new => Takes.lift wrapped later (Takes.lift again .refl ?_))
        (scheme.pictured rfl)
      have inner := (ih (N := M) rest (by omega) (.wrapper w q :: seen)).follow
        (g := fun p => Snapshot.wrapper seen.length w p)
        (S := fun u seen' p => D u seen (.wrapper w q) p seen' ∧
          (t.isTyped = true → t ∈ seen')) fun u seen' p extension _ post => by
            obtain ⟨c', body', settles⟩ := extension.body_wrapper body
            exact ⟨scheme.wrapper new body' (settles.resolved resolved) nonNull post.1, post.2⟩
      refine (inner.enter fun u seen' p extension post => ?_).imp
        fun u seen' p _ _ post => ⟨post.1.1, fun _ => post.2⟩
      obtain ⟨c', body', settles⟩ := extension.body_wrapper body
      exact ⟨fun _ => ⟨_, t, body', settles.resolved resolved, nonNull, post.2⟩,
        fun hx => absurd hx List.not_mem_nil⟩

/-- A built-in scalar stays itself. -/
theorem takes_builtIn {r : Ref .scalar} (builtIn : BuiltIn.isScalar r = true) (L : Nat)
    (seen : List Value) : Takes s seen (takeWithin Deferred.supplier (L + 1) (.scalar r))
      (Pictured (Depicts G Deferred.supplier) (.scalar r) seen) :=
  have atom : (Value.scalar r).isAtom = true := builtIn
  have nests : s.Nests Session.Plain 1 (.scalar r) :=
    .of_isAtom atom (Session.plain_of_isAtom atom) 0
  takes_plain (N := (s.reach + 1) * (s.reach + 1)) _ _ nests (Nat.mul_pos (by simp) (by simp)) s
    .refl seen

/-- The type of an argument is pictured in a round of its own. -/
theorem takes_next (scheme : Scheme G kind Deferred.supplier D) {t y : Value} (L : Nat)
    (h : Types.unwrap Deferred.supplier t s = .ok y s') (known : y.isNull = false)
    (innermost : ∀ L seen, Takes s' seen (takeWithin Deferred.supplier (L + 1) y)
      (Pictured D y seen)) (seen : List Value) :
    Takes s seen (takeWithin Deferred.supplier (L + 2) t) (Pictured D t seen) := by
  have enough : s.reach + t.depth + 1 ≤ (s.reach + t.depth + 1) * (s.reach + t.depth + 1) :=
    Nat.le_mul_self _
  have taken : Takes s seen (ofWrapped (takeRound Deferred.supplier
      (takeWithin Deferred.supplier (L + 1)) _) (takeWithin Deferred.supplier (L + 1)) t)
      (Pictured D t seen) := takes_chain scheme h known (innermost L) enough seen
  cases wraps : t.isWrapper with
  | true =>
    rw [ofWrapped, if_pos wraps] at taken
    exact taken
  | false =>
    obtain ⟨rfl, rfl⟩ := eq_of_unwrapWithin h wraps
    exact innermost (L + 1) seen

/-- What an argument holds is there and plain, but for its type. -/
structure PlainArgument (s : Session) (c : Argument) : Prop where
  name : c.name.isSome = true
  description : c.description.isSome = true
  hasDefault : c.hasDefault.isSome = true
  plain {x : Value} : x ∈ c.name.toList ++ c.description.toList ++ c.hasDefault.toList ++
    c.default.toList ++ c.extra.contents → s.IsPlain x

/-- Whatever was observed before, the type of an argument resolves to a finite chain of wrappers
over a scalar of some kind. -/
def ResolvesTo (scalars : Ref .scalar → Prop) (s : Session) (q : Ref .argument) : Prop :=
  ∀ s', s.Leads s' → ∃ r s'', (Arguments.type Deferred.supplier q >>=
    Types.unwrap Deferred.supplier) s' = .ok (.scalar r) s'' ∧ scalars r

theorem complete_of_settles {c c' : Argument} (h : c.Complete) (settles : c.Settles c') :
    c'.Complete where
  name := settles.name ▸ h.name
  description := settles.description ▸ h.description
  hasDefault := settles.hasDefault ▸ h.hasDefault
  resolved := by
    obtain ⟨t, resolved⟩ := Option.isSome_iff_exists.1 h.resolved
    rw [settles.resolved resolved]
    rfl

/-- What an argument holds is pictured one after the other, its type included. -/
theorem takes_content (scheme : Scheme G kind supply D) {q : Ref .argument} {c : Argument} {t : Value}
    (new : number? (.argument q) seen = none)
    (body : s.body? (.argument q) = some (.argument c)) (complete : c.Complete)
    (resolved : c.resolved = some t) (known : t.isNull = false)
    (data : ∀ x ∈ c.data, Pictures (Depicts G supply) s f x)
    (kinds : ∀ u, s.Extends u → ∀ x ∈ c.data, kind u x)
    (types : ∀ s', s.Leads s' → ∀ seen, Takes s' seen (next t) (Pictured D t seen)) :
    Takes s (.argument q :: seen) (do
      let name ← part f c.name
      let description ← part f c.description
      let hasDefault ← part f c.hasDefault
      let default ← part f c.default
      let type ← next t
      return .argument seen.length name description hasDefault default type
        (← attributes f c.extra))
      fun u seen' p => D u seen (.argument q) p seen' ∧ (t.isTyped = true → t ∈ seen') := by
  simp only [Argument.data, List.mem_append] at data
  have names := takes_part (v := c.name) fun x hx => data x (.inl (.inl (.inl (.inl hx))))
  have descriptions {s'} (later : s.Leads s') := takes_part (v := c.description) fun x hx =>
    (data x (.inl (.inl (.inl (.inr hx))))).later later
  have flags {s'} (later : s.Leads s') := takes_part (v := c.hasDefault) fun x hx =>
    (data x (.inl (.inl (.inr hx)))).later later
  have defaults {s'} (later : s.Leads s') := takes_part (v := c.default) fun x hx =>
    (data x (.inl (.inr hx))).later later
  have extras {s'} (later : s.Leads s') := takes_attributes (e := c.extra) fun x hx =>
    (data x (.inr hx)).later later
  refine ((names _).bind fun s₁ seen₁ a l₁ _ => (descriptions l₁ seen₁).bind fun s₂ seen₂ b l₂ _ =>
    (flags (l₁.trans l₂) seen₂).bind fun s₃ seen₃ d l₃ _ =>
      (defaults ((l₁.trans l₂).trans l₃) seen₃).bind fun s₄ seen₄ e l₄ _ =>
        (types s₄ (((l₁.trans l₂).trans l₃).trans l₄) seen₄).bind fun s₅ seen₅ p l₅ _ =>
          (extras ((((l₁.trans l₂).trans l₃).trans l₄).trans l₅) seen₅).follow
            (S := fun u seen₆ z => ∃ extra, z = Snapshot.argument seen.length a b d e p extra ∧
              DepictsAttributes G supply u seen₅ c.extra extra seen₆)
            fun u seen₆ extra _ _ post => ⟨extra, rfl, post⟩).imp ?_
  rintro u seen₆ z extension - ⟨seen₁, a, ha, -, seen₂, b, hb, -, seen₃, d, hd, -, seen₄, e, he,
    -, seen₅, p, hp, more, extra, rfl, hextra⟩
  obtain ⟨c', body', settles⟩ := extension.body_argument body
  refine ⟨?_, fun typed => more (hp.2 typed)⟩
  rw [← settles.name] at ha
  rw [← settles.description] at hb
  rw [← settles.hasDefault] at hd
  rw [← settles.default] at he
  rw [← settles.extra] at hextra
  exact scheme.argument new body' (complete_of_settles complete settles)
    (settles.data ▸ kinds u extension) (settles.resolved resolved) known ha hb hd he hp.1 hextra

/-- Whatever was observed before, the type of an argument resolves to an innermost type that is
pictured in a round of its own. -/
def Innermost (D : Depiction) (s : Session) (q : Ref .argument) : Prop :=
  ∀ s', s.Leads s' → ∃ y s'', (Arguments.type Deferred.supplier q >>=
    Types.unwrap Deferred.supplier) s' = .ok y s'' ∧ y.isNull = false ∧ ∀ L seen,
      Takes s'' seen (takeWithin Deferred.supplier (L + 1) y) (Pictured D y seen)

theorem takes_argument (scheme : Scheme G kind Deferred.supplier D) {q : Ref .argument}
    (live : q.index < s.arguments.size) (plain : PlainArgument s (s.argument q))
    (kinds : ∀ u, s.Extends u → ∀ x ∈ (s.argument q).data, kind u x)
    (innermost : Innermost D s q) (le : s.extent ≤ N) (L : Nat) :
    Pictures D s (takeRound Deferred.supplier (takeWithin Deferred.supplier (L + 2)) (N + 1))
      (.argument q) := by
  intro s' later seen
  obtain ⟨y, s'', run, some, -⟩ := innermost s' later
  obtain ⟨t, s₁, typed, unwrapped⟩ := Action.ok_of_bind run
  have known := isNull_of_unwrapWithin unwrapped some
  have later₁ : s'.Leads s₁ :=
    ((Later.observed Deferred.supplier.answer).type [] q).of_ok typed
  have whole : s.Leads s₁ := later.trans later₁
  obtain ⟨c, body, resolved⟩ := type_kept
    (Nat.lt_of_lt_of_le live later.extends.arguments.size) typed known
  have settles : (s.argument q).Settles c := by
    obtain ⟨_, ⟨⟩, -, rfl⟩ := Session.makes_of_body body
    exact whole.extends.argument live
  have complete : c.Complete := ⟨settles.name ▸ plain.name, settles.description ▸ plain.description,
    settles.hasDefault ▸ plain.hasDefault, by rw [resolved]; rfl⟩
  have data : ∀ x ∈ c.data, Pictures (Depicts G Deferred.supplier) s₁
      (takeRound Deferred.supplier (takeWithin Deferred.supplier (L + 2)) N) x := by
    intro x hx
    rw [settles.data] at hx
    obtain ⟨n, nests⟩ := plain.plain hx
    have among : x ∈ s.contents := s.mem_contents_of_argument live (Argument.data_subset _ hx)
    exact (takes_plain _ _ (nests.extent (Value.depth_le_depths among)) le).later whole
  -- Whatever is pictured before it, the type of the argument is still the same chain of wrappers.
  have types : ∀ s₂, s₁.Leads s₂ → ∀ seen, Takes s₂ seen (takeWithin Deferred.supplier (L + 2) t)
      (Pictured D t seen) := by
    intro s₂ later₂ seen
    obtain ⟨y, s₃, run, some, pictured⟩ := innermost s₂ (whole.trans later₂)
    obtain ⟨c', body', settles'⟩ := later₂.extends.body_argument body
    obtain ⟨_, ⟨⟩, -, rfl⟩ := Session.makes_of_body body'
    rw [Action.bind_of_ok (Arguments.type_of_resolved (settles'.resolved resolved))] at run
    exact takes_next scheme L run some pictured seen
  refine takes_round (fun new => Takes.lift typed later₁ ?_) (scheme.pictured rfl)
  have inner := takes_content scheme new body complete resolved known data
    (fun u extension => settles.data ▸ kinds u (whole.extends.trans extension)) types
  obtain ⟨_, ⟨⟩, -, rfl⟩ := Session.makes_of_body body
  refine (inner.enter fun u seen' p extension post => ?_).read.imp
    fun u seen' p _ _ post => ⟨post.1.1, fun _ => post.2⟩
  obtain ⟨c', body', settles'⟩ := extension.body_argument body
  exact ⟨fun _ => ⟨_, t, body', settles'.resolved resolved, known, post.2⟩, fun hx => by cases hx⟩

theorem ResolvesTo.innermost {q : Ref .argument}
    (h : ResolvesTo (BuiltIn.isScalar · = true) s q) :
    Innermost (Depicts G Deferred.supplier) s q := by
  intro s' later
  obtain ⟨r, s'', run, builtIn⟩ := h s' later
  exact ⟨.scalar r, s'', run, rfl, takes_builtIn builtIn⟩

/-! ### Directives -/

end DirectiveSchema.Snapshot
