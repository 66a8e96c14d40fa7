import DirectiveSchema.Proofs.Census

/-!
Actions that a census admits. What an action builds is counted, and what it returns belongs to the
census that counts it: so it is with every evaluation, with every look into data, and with the
answers of deferred types, by which wrappers and arguments are resolved.
-/
namespace DirectiveSchema

variable {α β : Type} {s s' : Session} {u v x : Value} {W W' : Census} {steady : Bool}

namespace Action

variable {act : Action α} {f : α → Action β} {a : α}

theorem after_bind_of_ok (h : act s = .ok a s') : (act >>= f).after s = (f a).after s' := by
  simp only [after, bind_of_ok h]

theorem result?_bind_of_ok (h : act s = .ok a s') : (act >>= f).result? s = (f a).result? s' := by
  simp only [result?, bind_of_ok h]

theorem result?_of_error {e : Fault} (h : act s = .error e s') : act.result? s = none := by
  simp only [result?, h]

end Action

/-- Run in a session that a census describes, the action leaves one that a larger census describes,
and what it returns satisfies a condition on that census. -/
def Census.Admits (steady : Bool) (W : Census) (act : Action α) (post : Census → α → Prop) : Prop :=
  ∀ s, s.Fits W → ∃ W', W.Extends steady W' ∧ (act.after s).Fits W' ∧
    ∀ a, act.result? s = some a → post W' a

/-- Sessions of which the later one is described by a larger census, whichever census describes the
first, as long as it counts what a given one does. -/
def Session.Tallies (steady : Bool) (W : Census) (s s' : Session) : Prop :=
  ∀ W₁, W.Extends steady W₁ → s.Fits W₁ → ∃ W₂, W₁.Extends steady W₂ ∧ s'.Fits W₂

theorem Session.Tallies.lasting : Lasting (Session.Tallies steady W) where
  refl _ W₁ _ fits := ⟨W₁, .refl W₁, fits⟩
  trans h h' W₁ beyond fits := by
    obtain ⟨W₂, more, fits₂⟩ := h W₁ beyond fits
    obtain ⟨W₃, more', fits₃⟩ := h' W₂ (beyond.trans more) fits₂
    exact ⟨W₃, more.trans more', fits₃⟩

namespace Census.Admits

variable {act : Action α} {post post' : Census → α → Prop} {next : Census → β → Prop}

theorem pure {a : α} (h : post W a) : Admits steady W (Pure.pure a) post := by
  refine fun s fits => ⟨W, .refl W, fits, fun b same => ?_⟩
  cases same
  exact h

theorem throw (f : Fault) : Admits steady W (throw f : Action α) post :=
  fun s fits => ⟨W, .refl W, fits, fun _ same => by cases same⟩

theorem bind {f : α → Action β} (first : Admits steady W act post)
    (rest : ∀ W', W.Extends steady W' → ∀ a, post W' a → Admits steady W' (f a) next) :
    Admits steady W (act >>= f) next := by
  intro s fits
  obtain ⟨W₁, more, fits₁, result⟩ := first s fits
  cases run : act s with
  | ok a s₁ =>
    rw [Action.after_of_ok run] at fits₁
    obtain ⟨W₂, more', fits₂, result'⟩ :=
      rest W₁ more a (result a (Action.result?_of_ok run)) s₁ fits₁
    rw [Action.after_bind_of_ok run, Action.result?_bind_of_ok run]
    exact ⟨W₂, more.trans more', fits₂, result'⟩
  | error e s₁ =>
    rw [Action.after_of_error run] at fits₁
    rw [Action.after_of_error (Action.bind_of_error run),
      Action.result?_of_error (Action.bind_of_error run)]
    exact ⟨W₁, more, fits₁, fun _ same => by cases same⟩

/-- What is read of the session is as its census says. -/
theorem bindGet {f : Session → Action β}
    (rest : ∀ s, s.Fits W → Admits steady W (f s) next) :
    Admits steady W (MonadState.get >>= f) next := fun s fits => rest s fits s fits

theorem imp (h : Admits steady W act post)
    (more : ∀ W', W.Extends steady W' → ∀ a, post W' a → post' W' a) :
    Admits steady W act post' := by
  intro s fits
  obtain ⟨W', ext, fits', result⟩ := h s fits
  exact ⟨W', ext, fits', fun a same => more W' ext a (result a same)⟩

/-- What keeps the record of lapses is admitted in any time. -/
theorem weaken (h : Admits true W act post) : Admits steady W act post := by
  intro s fits
  obtain ⟨W', more, rest⟩ := h s fits
  exact ⟨W', more.weaken, rest⟩

theorem ofKeeps (h : Keeps (Session.Tallies steady W) act) :
    Admits steady W act fun _ _ => True := by
  intro s fits
  obtain ⟨W', more, fits'⟩ := h s W (.refl W) fits
  exact ⟨W', more, fits', fun _ _ => trivial⟩

theorem keeps (h : ∀ W', W.Extends steady W' → Admits steady W' act post) :
    Keeps (Session.Tallies steady W) act := by
  intro s W₁ beyond fits
  obtain ⟨W₂, more, fits', -⟩ := h W₁ beyond s fits
  exact ⟨W₂, more, fits'⟩

theorem mapM {f : α → Action β} {as : List α}
    (mono : ∀ {W W' : Census} {b : β}, W.Extends steady W' → next W b → next W' b)
    (h : ∀ a ∈ as, ∀ W', W.Extends steady W' → Admits steady W' (f a) next) :
    Admits steady W (as.mapM f) fun W' bs => ∀ b ∈ bs, next W' b := by
  induction as generalizing W with
  | nil => exact pure fun _ hb => absurd hb List.not_mem_nil
  | cons a as ih =>
    rw [List.mapM_cons]
    refine (h a List.mem_cons_self W (.refl W)).bind fun W₁ more b hb => ?_
    refine (ih fun c hc W' ext => h c (List.mem_cons_of_mem a hc) W' (more.trans ext)).bind ?_
    intro W₂ more' bs hbs
    refine pure fun c hc => ?_
    rcases List.mem_cons.1 hc with rfl | hc
    · exact mono more' hb
    · exact hbs c hc

theorem foldlM {f : β → α → Action β} {as : List α} {b : β} (start : next W b)
    (h : ∀ a ∈ as, ∀ W', W.Extends steady W' → ∀ b, next W' b → Admits steady W' (f b a) next) :
    Admits steady W (as.foldlM f b) next := by
  induction as generalizing W b with
  | nil => exact pure start
  | cons a as ih =>
    rw [List.foldlM_cons]
    refine (h a List.mem_cons_self W (.refl W) b start).bind fun W₁ more b' hb' => ih hb' ?_
    exact fun c hc W' ext => h c (List.mem_cons_of_mem a hc) W' (more.trans ext)

theorem bounded {outside : Nat} {f : Nat → Action α} (h : ∀ n, Admits steady W (f n) post) :
    Admits steady W (Action.bounded outside f) post := bindGet fun _ _ => h _

theorem boundedPairs {outside : Nat} {f : Nat → Action α} (h : ∀ n, Admits steady W (f n) post) :
    Admits steady W (Action.boundedPairs outside f) post := bounded fun _ => h _

end Census.Admits

/-- Data that belong to a census, all of them. -/
def Census.Includes (W : Census) (vs : List Value) : Prop := ∀ v ∈ vs, v.Belongs W

theorem Census.Includes.mono {vs : List Value} (h : W.Includes vs) (more : W.Extends steady W') :
    W'.Includes vs := fun v hv => (h v hv).mono more

theorem Census.includes_nil (W : Census) : W.Includes [] := fun _ hv => absurd hv List.not_mem_nil

theorem Census.includes_append {vs us : List Value} :
    W.Includes (vs ++ us) ↔ W.Includes vs ∧ W.Includes us := List.forall_mem_append

theorem Census.includes_some : W.Includes (some v).toList ↔ v.Belongs W :=
  ⟨fun h => h v List.mem_cons_self, fun h _ hv => List.mem_singleton.1 hv ▸ h⟩

/-! What cells hold, part by part. -/

theorem NamedType.includes_contents {c : NamedType} :
    W.Includes c.contents ↔ W.Includes c.name.toList ∧ W.Includes c.extra.contents :=
  Census.includes_append

theorem ScalarType.includes_holdings {c : ScalarType} : W.Includes c.holdings ↔
    (((W.Includes c.name.toList ∧ W.Includes c.description.toList) ∧
      W.Includes c.extra.contents) ∧ W.Includes c.serialize.contents) ∧
        W.Includes c.parse.contents := by
  simp only [ScalarType.holdings, ScalarType.contents, Census.includes_append]

theorem WrappingType.includes_contents {c : WrappingType} : W.Includes c.contents ↔
    (W.Includes c.source.toList ∧ W.Includes c.resolved.toList) ∧ W.Includes c.extra.contents := by
  simp only [WrappingType.contents, Census.includes_append]

theorem Argument.includes_contents {c : Argument} : W.Includes c.contents ↔
    (W.Includes c.name.toList ∧ W.Includes c.description.toList ∧ W.Includes c.hasDefault.toList ∧
      W.Includes c.default.toList) ∧ c.source.Belongs W ∧ W.Includes c.resolved.toList ∧
        W.Includes c.extra.contents := by
  have parts : W.Includes c.contents ↔ W.Includes (c.name.toList ++ c.description.toList ++
      c.hasDefault.toList ++ c.default.toList ++ [c.source] ++ c.resolved.toList ++
        c.extra.contents) := by
    simp only [Argument.contents, List.append_assoc, List.cons_append, List.nil_append]
  have source : W.Includes [c.source] ↔ c.source.Belongs W := by
    simp only [Census.Includes, List.mem_singleton, forall_eq]
  rw [parts]
  simp only [Census.includes_append, source, and_assoc]

/-! ### Building -/

namespace Census

/-- A census that counts one more cell of a kind. -/
def bump (W : Census) (k : CellKind) : Census :=
  { W with count := fun j => if j = k then W.count j + 1 else W.count j }

/-- A census that counts one more wrapper. -/
def enrol (W : Census) (w : Wrapper) : Census :=
  { W.bump .wrapper with classes := W.classes ++ [w] }

theorem extends_bump (W : Census) (k : CellKind) : W.Extends steady (W.bump k) where
  count j := by
    simp only [bump]
    split <;> omega
  classes known := known
  lapsed _ among := among
  same _ := rfl

theorem extends_enrol (W : Census) (w : Wrapper) : W.Extends steady (W.enrol w) :=
  { (W.extends_bump .wrapper : W.Extends steady _) with
    classes := fun {i w'} known => by
      obtain ⟨live, -⟩ := List.getElem?_eq_some_iff.1 known
      simpa [enrol, List.getElem?_append_left live] using known
    same := fun _ => rfl }

theorem count_lt_bump (W : Census) (k : CellKind) : W.count k < (W.bump k).count k := by
  simp [bump]

end Census

namespace Session.Fits

/-- One more cell, not of a wrapper, is counted. -/
theorem bump (h : s.Fits W) (k : CellKind) (same : s'.wrappers = s.wrappers)
    (stores : s'.Stores (W.bump k))
    (count : ∀ j, s'.count j = if j = k then s.count j + 1 else s.count j) :
    s'.Fits (W.bump k) :=
  h.beside same stores (fun j => by rw [count, h.count]; rfl) rfl rfl

end Session.Fits

namespace Census.Admits

/-- What is built has the position that comes after those that are counted. -/
theorem built {k : CellKind} {new : Session → Ref k × Session} {value : Ref k → Value}
    (fits : ∀ s, s.Fits W → (new s).2.Fits (W.bump k))
    (position : ∀ s, (new s).1.index = s.count k)
    (cell : ∀ r, (value r).cell? = some (k, r.index)) (plain : ∀ r, (value r).isWrapper = false) :
    Admits steady W (modifyGet new : Action (Ref k)) fun W' r => (value r).Belongs W' := by
  refine fun s h => ⟨W.bump k, W.extends_bump k, fits s h, fun r same => ?_⟩
  cases same
  refine Value.belongs_of_counted (cell _) (plain _) ?_
  rw [position, h.count]
  exact W.count_lt_bump k

theorem newList {items : List Value} (held : W.Includes items) :
    Admits steady W (Action.newList items) fun W' r => (Value.list r).Belongs W' := by
  refine built (fun s h => ?_) (fun _ => rfl) (fun _ => rfl) fun _ => rfl
  have more : W.Extends true (W.bump .list) := W.extends_bump .list
  refine h.bump .list rfl { h.mono more with lists := (h.lists.mono more).add (held.mono more) } ?_
  exact fun j => by cases j <;> simp [Session.count]

theorem newSet {members : List Member} (held : ∀ m ∈ members, m.value.Belongs W) :
    Admits steady W (Action.newSet members) fun W' r => (Value.set r).Belongs W' := by
  refine built (fun s h => ?_) (fun _ => rfl) (fun _ => rfl) fun _ => rfl
  have more : W.Extends true (W.bump .set) := W.extends_bump .set
  refine h.bump .set rfl { h.mono more with sets := (h.sets.mono more).add fun v hv => ?_ } ?_
  · obtain ⟨m, hm, rfl⟩ := List.mem_map.1 hv
    exact (held m hm).mono more
  · exact fun j => by cases j <;> simp [Session.count]

theorem newDict {entries : List Entry}
    (held : ∀ e ∈ entries, e.key.Belongs W ∧ e.value.Belongs W) :
    Admits steady W (Action.newDict entries) fun W' r => (Value.dict r).Belongs W' := by
  refine built (fun s h => ?_) (fun _ => rfl) (fun _ => rfl) fun _ => rfl
  have more : W.Extends true (W.bump .dict) := W.extends_bump .dict
  refine h.bump .dict rfl { h.mono more with dicts := (h.dicts.mono more).add fun v hv => ?_ } ?_
  · obtain ⟨e, he, hv⟩ := List.mem_flatMap.1 hv
    simp only [Entry.contents, List.mem_cons, List.not_mem_nil, or_false] at hv
    rcases hv with rfl | rfl
    · exact (held e he).1.mono more
    · exact (held e he).2.mono more
  · exact fun j => by cases j <;> simp [Session.count]

theorem newNamedType {c : NamedType} (held : W.Includes c.contents) :
    Admits steady W (Action.newNamedType c) fun W' r => (Value.named r).Belongs W' := by
  refine built (fun s h => ?_) (fun _ => rfl) (fun _ => rfl) fun _ => rfl
  have more : W.Extends true (W.bump .named) := W.extends_bump .named
  refine h.bump .named rfl
    { h.mono more with namedTypes := (h.namedTypes.mono more).add (held.mono more) } ?_
  exact fun j => by cases j <;> simp [Session.count]

theorem newScalar {c : ScalarType} (held : W.Includes c.holdings) :
    Admits steady W (Action.newScalar c) fun W' r => (Value.scalar r).Belongs W' := by
  refine built (fun s h => ?_) (fun _ => rfl) (fun _ => rfl) fun _ => rfl
  have more : W.Extends true (W.bump .scalar) := W.extends_bump .scalar
  refine h.bump .scalar rfl
    { h.mono more with scalars := (h.scalars.mono more).add (held.mono more) } ?_
  exact fun j => by cases j <;> simp [Session.count]

theorem newArgument {c : Argument} (held : W.Includes c.contents) :
    Admits steady W (Action.newArgument c) fun W' r => (Value.argument r).Belongs W' := by
  refine built (fun s h => ?_) (fun _ => rfl) (fun _ => rfl) fun _ => rfl
  have more : W.Extends true (W.bump .argument) := W.extends_bump .argument
  refine h.bump .argument rfl
    { h.mono more with arguments := (h.arguments.mono more).add (held.mono more) } ?_
  exact fun j => by cases j <;> simp [Session.count]

theorem newArgument_blank :
    Admits steady W (Action.newArgument .blank) fun W' r => (Value.argument r).Belongs W' :=
  newArgument fun _ hv => List.mem_singleton.1 hv ▸ Value.belongs_of_leaf rfl rfl

theorem newDirective {c : Directive} (held : W.Includes c.contents) :
    Admits steady W (Action.newDirective c) fun W' r => (Value.directive r).Belongs W' := by
  refine built (fun s h => ?_) (fun _ => rfl) (fun _ => rfl) fun _ => rfl
  have more : W.Extends true (W.bump .directive) := W.extends_bump .directive
  refine h.bump .directive rfl
    { h.mono more with directives := (h.directives.mono more).add (held.mono more) } ?_
  exact fun j => by cases j <;> simp [Session.count]

/-- A wrapper is built under its class, unless it would be a non-null type over a non-null type
that nothing accounts for. -/
theorem newWrapper (w : Wrapper) {c : WrappingType} (held : W.Includes c.contents)
    (wraps : w = .nonNull → ∀ t, c.source = some t → t.isNonNull = true → W.lapsed ≠ [])
    (resolves : ∀ u, c.resolved = some u → ∃ t, c.source = some t ∧ MayResolve t u) :
    Admits steady W (Action.newWrapper c) fun W' r => (Value.wrapper w r).Belongs W' := by
  intro s h
  have more : W.Extends true (W.enrol w) := W.extends_enrol w
  let t : Session := { s with wrappers := s.wrappers.add c }
  have stores : t.Stores (W.enrol w) :=
    { h.mono more with wrappers := (h.wrappers.mono more).add (held.mono more) }
  have cases (q : Ref .wrapper) :
      t.wrapper q = s.wrapper q ∨ q.index = s.wrappers.size ∧ t.wrapper q = c :=
    s.wrappers.get_add_cases c q.index
  have fits : t.Fits (W.enrol w) :=
    { stores with
      count := fun k => by
        have := h.count k
        cases k <;> simp_all [t, Session.count, Census.enrol, Census.bump]
      classes := by simp [t, Census.enrol, h.classes]
      wraps := fun {i u} classed based nonNull => by
        rcases cases ⟨i⟩ with old | ⟨new, cell⟩
        · rw [old] at based
          have live : i < W.classes.length := by
            refine Nat.lt_of_not_le fun dead => ?_
            rw [Session.wrapper, Arena.get_of_le (h.classes ▸ dead)] at based
            cases based
          refine h.wraps (i := i) ?_ based nonNull
          simpa [Census.enrol, List.getElem?_append_left live] using classed
        · have last : i = W.classes.length := new.trans h.classes.symm
          rw [cell] at based
          exact wraps (by simpa [Census.enrol, last] using classed) u based nonNull
      resolves := fun {q u} known => by
        rcases cases q with old | ⟨-, cell⟩
        · rw [old] at known ⊢
          exact h.resolves known
        · rw [cell] at known ⊢
          exact resolves u known
      lapsed := fun {i} hi => by
        obtain ⟨classed, lapses⟩ := h.lapsed hi
        refine ⟨more.classes classed, ?_⟩
        rcases cases ⟨i⟩ with old | ⟨new, -⟩
        · rw [Session.Lapses, old]
          exact lapses
        · obtain ⟨live, -⟩ := List.getElem?_eq_some_iff.1 classed
          exact absurd (new.trans h.classes.symm) (Nat.ne_of_lt live) }
  refine ⟨W.enrol w, W.extends_enrol w, fits, fun r same => ?_⟩
  cases same
  refine Value.belongs_wrapper.2 ⟨?_, ?_⟩
  · have := h.count .wrapper
    simp_all [Session.count, Census.enrol, Census.bump]
  · simp [Census.enrol, ← h.classes]

theorem freshTag : Admits steady W Action.freshTag fun _ _ => True :=
  fun _ h => ⟨W, .refl W, h.beside rfl { h.toStores with } h.count rfl rfl, fun _ _ => trivial⟩

theorem newRow {items : List Value} (held : W.Includes items) :
    Admits steady W (Action.newRow items) fun W' row => row.value.Belongs W' := by
  cases items with
  | nil => exact pure (Value.belongs_tuple.2 held)
  | cons v vs =>
    exact freshTag.bind fun W' more tag _ => pure (Value.belongs_tuple.2 (held.mono more))

theorem note (n : Notice) : Admits steady W (Action.note n) fun _ _ => True :=
  fun _ h => ⟨W, .refl W, h.beside rfl { h.toStores with } h.count rfl rfl, fun _ _ => trivial⟩

theorem count (counter : String) :
    Admits steady W (modify fun s => { s with calls := counter :: s.calls } : Action Unit)
      fun _ _ => True :=
  fun _ h => ⟨W, .refl W, h.beside rfl { h.toStores with } h.count rfl rfl, fun _ _ => trivial⟩

/-- A wrapper over anything but a non-null type, or of another class, is built. -/
theorem wrap (w : Wrapper) {source : Value} (held : source.Belongs W) :
    Admits steady W (Types.wrap w source) fun W' t => t.Belongs W' := by
  simp only [Types.wrap]
  split
  · exact throw _
  · rename_i admissible
    refine (newWrapper w (fun v hv => ?_) ?_ ?_).bind fun W' _ r hr => pure hr
    · have same : v = source := by
        simpa [WrappingType.contents, Attributes.contents] using hv
      exact same ▸ held
    · rintro rfl t ⟨⟩ nonNull
      exact absurd ⟨rfl, nonNull⟩ admissible
    · rintro u ⟨⟩

end Census.Admits

end DirectiveSchema
