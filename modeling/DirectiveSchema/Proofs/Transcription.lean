import DirectiveSchema.Proofs.Accounts
import DirectiveSchema.Proofs.Picturing
import DirectiveSchema.Proofs.Resolution

/-!
Copies on the account of a census. A copy is a non-null type only if its original is one, so the
copy of a non-null type wraps a non-null type only if its original does; then a lapse is behind it,
which is put on record.
-/
namespace DirectiveSchema

variable {α β γ σ : Type} {s s' : Session} {u v x : Value} {W W' : Census}

open Census.Admits

/-! ### The record of lapses -/

theorem Census.extends_record (W : Census) (i : Nat) :
    W.Extends false { W with lapsed := i :: W.lapsed } where
  count _ := Nat.le_refl _
  classes known := known
  lapsed _ among := List.mem_cons_of_mem i among
  same still := by cases still

/-- A wrapper that lapsed may be put on record. -/
theorem Session.Fits.record (h : s.Fits W) {r : Ref .wrapper}
    (classed : W.classes[r.index]? = some .nonNull) (lapses : s.Lapses r) :
    s.Fits { W with lapsed := r.index :: W.lapsed } :=
  { h.mono (W.extends_record r.index) with
    count := h.count
    classes := h.classes
    wraps := fun _ _ _ => List.cons_ne_nil _ _
    resolves := h.resolves
    lapsed := fun {i} hi => by
      rcases List.mem_cons.1 hi with rfl | hi
      · exact ⟨classed, lapses⟩
      · exact h.lapsed hi }

namespace Census.Admits

/-- A type that is wrapped is read. If a non-null type wraps a non-null type, then it lapsed, or
something else did before it was built. -/
theorem recorded {w : Wrapper} {r : Ref .wrapper} (belongs : (Value.wrapper w r).Belongs W) :
    W.Admits false (Types.wrapped Deferred.supplier w r) fun W' t =>
      t.Belongs W' ∧ (w = .nonNull → t.isNonNull = true → W'.lapsed ≠ []) := by
  intro s fits
  obtain ⟨W', more, fits', result⟩ := wrapped w r s fits
  by_cases doubled : ∃ t, (Types.wrapped Deferred.supplier w r).result? s = some t ∧
      w = .nonNull ∧ t.isNonNull = true
  · obtain ⟨t, returned, rfl, nonNull⟩ := doubled
    cases run : Types.wrapped Deferred.supplier .nonNull r s with
    | error e s' =>
      rw [Action.result?_of_error run] at returned
      cases returned
    | ok t' s' =>
      rw [Action.result?_of_ok run] at returned result
      rw [Action.after_of_ok run] at fits' ⊢
      cases returned
      have known : t.isNull = false := by cases t <;> first | rfl | cases nonNull
      obtain ⟨c, cell, resolved⟩ := Snapshot.wrapped_kept run known
      obtain ⟨c', read, same⟩ := Option.map_eq_some_iff.1 cell
      cases same
      obtain ⟨-, rfl⟩ := Arena.get?_eq_some read
      have classed := more.classes (Value.belongs_wrapper.1 belongs).2
      obtain ⟨source, based, rfl | ⟨d, rfl⟩⟩ := fits'.resolves (r := r) resolved
      · refine ⟨W', more, fits', fun a same => ?_⟩
        rw [Action.result?_of_ok run] at same
        cases same
        exact ⟨result t rfl, fun _ _ => fits'.wraps classed based nonNull⟩
      · refine ⟨_, more.trans (W'.extends_record r.index),
          fits'.record classed ⟨d, t, based, resolved, nonNull⟩, fun a same => ?_⟩
        rw [Action.result?_of_ok run] at same
        cases same
        exact ⟨(result t rfl).mono (W'.extends_record r.index), fun _ _ => List.cons_ne_nil _ _⟩
  · refine ⟨W', more, fits', fun t returned => ⟨result t returned, fun class_ nonNull => ?_⟩⟩
    exact absurd ⟨t, returned, class_, nonNull⟩ doubled

end Census.Admits

/-! ### Shallow copies -/

/-- What a copy has in common with its original on the account of a census. -/
structure Value.Transcribes (v : Value) (W : Census) (x : Value) : Prop where
  belongs : x.Belongs W
  nonNull : x.isNonNull = true → v.isNonNull = true

theorem Value.Transcribes.mono {steady : Bool} (h : v.Transcribes W x)
    (more : W.Extends steady W') : v.Transcribes W' x := ⟨h.belongs.mono more, h.nonNull⟩

theorem Value.isNonNull_wrapper (w : Wrapper) (r r' : Ref .wrapper) :
    (Value.wrapper w r).isNonNull = (Value.wrapper w r').isNonNull := by cases w <;> rfl

theorem Value.transcribes_self (belongs : v.Belongs W) : v.Transcribes W v := ⟨belongs, id⟩

/-- Anything may be copied to what is not a non-null type. -/
theorem Value.transcribes_of_other (belongs : x.Belongs W) (other : x.isNonNull = false) :
    v.Transcribes W x := ⟨belongs, fun nonNull => by rw [other] at nonNull; cases nonNull⟩

namespace Types

theorem includes_known {t : Value} (belongs : t.Belongs W) : W.Includes (known t).contents :=
  WrappingType.includes_contents.2
    ⟨⟨Census.includes_some.2 belongs, includes_kept belongs⟩, W.includes_nil⟩

theorem mayResolve_known {t u : Value} (h : (known t).resolved = some u) :
    ∃ source, (known t).source = some source ∧ MayResolve source u :=
  ⟨t, rfl, .inl (eq_of_kept h).symm⟩

end Types

namespace Census.Admits

theorem shallowCopy (belongs : v.Belongs W) :
    W.Admits false (v.shallowCopy Deferred.supplier) fun W' x => v.Transcribes W' x := by
  have made {W : Census} {x : Value} (h : x.Belongs W) (other : x.isNonNull = false) :
      W.Admits false (Pure.pure x : Action Value) fun W' x => v.Transcribes W' x :=
    pure (Value.transcribes_of_other h other)
  unfold Value.shallowCopy
  split
  · exact freshTag.bind fun _ _ _ _ => made (Value.belongs_of_leaf rfl rfl) rfl
  · refine freshTag.bind fun _ more _ _ => made (Value.belongs_config.2 ?_) rfl
    exact Value.belongs_config.1 (belongs.mono more)
  · exact bindGet fun s fits => (newList (fits.list _)).bind fun _ _ _ h => made h rfl
  · exact bindGet fun s fits => (newSet (fits.set _)).bind fun _ _ _ h => made h rfl
  · exact bindGet fun s fits => (newDict (fits.dict _)).bind fun _ _ _ h => made h rfl
  · exact bindGet fun s fits => (newNamedType (fits.namedType _)).bind fun _ _ _ h => made h rfl
  · split
    · exact pure (Value.transcribes_self belongs)
    · refine bindGet fun s fits => ?_
      obtain ⟨⟨⟨⟨hn, hd⟩, -⟩, hs⟩, hp⟩ := ScalarType.includes_holdings.1 (fits.scalar ‹_›)
      refine (present hd).bind fun W₁ m d hd => ?_
      refine (newScalar (ScalarType.includes_holdings.2 ?_)).bind fun _ _ _ h => made h rfl
      exact ⟨⟨⟨⟨includes_some.2 ((belongs_typeName hn).mono m), includes_some.2 hd⟩,
        W₁.includes_nil⟩, Includes.mono hs m⟩, Includes.mono hp m⟩
  · refine (wrapped _ _).bind fun W₁ m₁ _ _ => ?_
    refine (recorded (belongs.mono m₁)).bind fun W₂ m₂ t ht => ?_
    refine (newWrapper _ (Types.includes_known ht.1) ?_ ?_).bind
      fun W₃ m₃ r hr => pure ⟨hr, fun nonNull => ?_⟩
    · rintro class_ t' ⟨⟩ nonNull
      exact ht.2 class_ nonNull
    · exact fun u hu => Types.mayResolve_known hu
    · exact (Value.isNonNull_wrapper _ _ _).trans nonNull
  · refine (type _).bind fun W₁ m₁ t ht => bindGet fun s fits => ?_
    obtain ⟨public_, -, -, hx⟩ := Argument.includes_contents.1 (fits.argument ‹_›)
    refine (newArgument (Argument.includes_contents.2 ?_)).bind fun _ _ _ h => made h rfl
    exact ⟨public_, ht, Types.includes_kept ht, hx⟩
  · exact throw _
  · exact pure (Value.transcribes_self belongs)

end Census.Admits

/-! ### What is carried along -/

/-- What is good stays so as the census grows. -/
def Census.Lasts (good : Census → σ → Prop) : Prop :=
  ∀ W W' c, W.Extends false W' → good W c → good W' c

/-- An action that carries something along is admitted: what it carries stays good, and what it
returns satisfies a condition. -/
def Census.Carries (good : Census → σ → Prop) (W : Census) (act : StateT σ Action α)
    (post : Census → α → Prop) : Prop :=
  ∀ carried, good W carried →
    W.Admits false (act carried) fun W' p => good W' p.2 ∧ post W' p.1

namespace Census.Carries

variable {good : Census → σ → Prop} {act : StateT σ Action α} {post : Census → α → Prop}
  {next : Census → β → Prop}

theorem pure {a : α} (h : post W a) : W.Carries good (Pure.pure a) post :=
  fun _ holds => Admits.pure ⟨holds, h⟩

theorem throw (f : Fault) : W.Carries good (MonadExcept.throw f : StateT σ Action α) post :=
  fun _ _ => Admits.throw f

theorem bind {f : α → StateT σ Action β} (first : W.Carries good act post)
    (rest : ∀ W', W.Extends false W' → ∀ a, post W' a → W'.Carries good (f a) next) :
    W.Carries good (act >>= f) next :=
  fun carried holds => (first carried holds).bind fun W' more p hp => rest W' more p.1 hp.2 p.2 hp.1

theorem imp {post' : Census → α → Prop} (h : W.Carries good act post)
    (weaker : ∀ W', W.Extends false W' → ∀ a, post W' a → post' W' a) :
    W.Carries good act post' :=
  fun carried holds => (h carried holds).imp fun W' more p hp => ⟨hp.1, weaker W' more p.1 hp.2⟩

theorem lift {act : Action α} (lasts : Lasts good) (h : W.Admits false act post) :
    W.Carries good (liftM act : StateT σ Action α) post :=
  fun _ holds => h.bind fun _ more _ ha => Admits.pure ⟨lasts _ _ _ more holds, ha⟩

theorem bindCarried {f : σ → StateT σ Action β}
    (rest : ∀ carried, good W carried → W.Carries good (f carried) next) :
    W.Carries good (MonadState.get >>= f) next :=
  fun carried holds => rest carried holds carried holds

theorem bindSession {f : Session → StateT σ Action β}
    (rest : ∀ s, s.Fits W → W.Carries good (f s) next) :
    W.Carries good (getThe Session >>= f) next :=
  fun carried holds s fits => rest s fits carried holds s fits

theorem change {f : Session → Session} (h : ∀ s, s.Fits W → (f s).Fits W) :
    W.Carries good (modifyThe Session f : StateT σ Action Unit) fun _ _ => True :=
  fun _ holds s fits => ⟨W, .refl W, h s fits, fun p same => by cases same; exact ⟨holds, trivial⟩⟩

theorem mapM (next : Census → β → Prop) {f : α → StateT σ Action β} {as : List α}
    (mono : ∀ {W W' : Census} {b : β}, W.Extends false W' → next W b → next W' b)
    (h : ∀ a ∈ as, ∀ W', W.Extends false W' → W'.Carries good (f a) next) :
    W.Carries good (as.mapM f) fun W' bs => ∀ b ∈ bs, next W' b := by
  induction as generalizing W with
  | nil => exact pure fun _ hb => absurd hb List.not_mem_nil
  | cons a as ih =>
    rw [List.mapM_cons]
    refine (h a List.mem_cons_self W (.refl W)).bind fun W₁ more b hb => ?_
    refine (ih fun c hc W' ext => h c (List.mem_cons_of_mem a hc) W' (more.trans ext)).bind ?_
    intro W₂ more' bs hbs
    refine pure fun c hc => ?_
    rcases List.mem_cons.1 hc with rfl | hc
    · exact mono more' hb
    · exact hbs c hc

theorem foldlM {f : β → α → StateT σ Action β} {as : List α} {b : β} (start : next W b)
    (h : ∀ a ∈ as, ∀ W', W.Extends false W' → ∀ b, next W' b → W'.Carries good (f b a) next) :
    W.Carries good (as.foldlM f b) next := by
  induction as generalizing W b with
  | nil => exact pure start
  | cons a as ih =>
    rw [List.foldlM_cons]
    refine (h a List.mem_cons_self W (.refl W) b start).bind fun W₁ more b' hb' => ih hb' ?_
    exact fun c hc W' ext => h c (List.mem_cons_of_mem a hc) W' (more.trans ext)

/-- A wrapper is filled after it was built. Nothing lapses in it before: it is not known over what
it wraps. -/
theorem fillWrapper {w : Wrapper} (mark : Value → σ → σ) {build : StateT σ Action γ}
    {content : γ → WrappingType} (lasts : Lasts good) (kept : KeepsWith Session.KeepsTypes build)
    (marked : ∀ {W' r c}, (Value.wrapper w r).Belongs W' → good W' c →
      good W' (mark (.wrapper w r) c))
    (built : ∀ W', W.Extends false W' → W'.Carries good build fun W'' c =>
      W''.Includes (content c).contents ∧
      (w = .nonNull → ∀ t, (content c).source = some t → t.isNonNull = true → W''.lapsed ≠ []) ∧
      ∀ u, (content c).resolved = some u →
        ∃ t, (content c).source = some t ∧ MayResolve t u) :
    W.Carries good (do
      let r ← liftM (Action.newWrapper .blank)
      let v ← modifyGet fun c => (Value.wrapper w r, mark (.wrapper w r) c)
      let c ← build
      modifyThe Session fun s => s.putWrapper r (content c)
      return v) fun W' x => x.Belongs W' ∧ ∃ r, x = .wrapper w r := by
  intro carried holds s fits
  have blank : W.Admits false (Action.newWrapper .blank) fun W' r =>
      (Value.wrapper w r).Belongs W' :=
    newWrapper w (fun _ hv => absurd hv List.not_mem_nil) (fun _ _ based => by cases based)
      fun _ known => by cases known
  obtain ⟨W₁, m₁, fits₁, result₁⟩ := blank s fits
  let r : Ref .wrapper := ⟨s.wrappers.size⟩
  let s₁ : Session := { s with wrappers := s.wrappers.add .blank }
  have belongs : (Value.wrapper w r).Belongs W₁ := result₁ r rfl
  have good₁ := marked belongs (lasts _ _ _ m₁ holds)
  obtain ⟨W₂, m₂, fits₂, result₂⟩ := built W₁ m₁ (mark (.wrapper w r) carried) good₁ s₁ fits₁
  have later := kept (mark (.wrapper w r) carried) s₁
  let rest : γ × σ → Action (Value × σ) := fun p => do
    modify fun s => s.putWrapper r (content p.1)
    return (.wrapper w r, p.2)
  have same : (build (mark (.wrapper w r) carried) >>= rest) s₁ = (do
      let r ← liftM (Action.newWrapper .blank)
      let v ← modifyGet fun c => (Value.wrapper w r, mark (.wrapper w r) c)
      let c ← build
      modifyThe Session fun s => s.putWrapper r (content c)
      return v : StateT σ Action Value) carried s := rfl
  simp only [Action.after, Action.result?, ← same]
  cases run : build (mark (.wrapper w r) carried) s₁ with
  | error e s₂ =>
    rw [Action.bind_of_error run]
    rw [Action.after_of_error run] at fits₂
    exact ⟨W₂, m₁.trans m₂, fits₂, fun _ none => by cases none⟩
  | ok p s₂ =>
    rw [Action.bind_of_ok run]
    rw [Action.after_of_ok run] at fits₂ later
    obtain ⟨good₂, included, wraps, resolves⟩ := result₂ p (Action.result?_of_ok run)
    have live : r.index < s₁.wrappers.size := by simp [s₁, r]
    refine ⟨W₂, m₁.trans m₂, fits₂.putWrapper r included (fun classed => ?_) resolves
      fun lapsed => ?_, fun a returned => ?_⟩
    · refine wraps ?_
      have known := (Value.belongs_wrapper.1 (belongs.mono m₂)).2
      rw [classed] at known
      cases known
      rfl
    · obtain ⟨-, d, t, based, -⟩ := fits₂.lapsed lapsed
      have blank : (s₁.wrapper r) = .blank := s.wrappers.get_add_self .blank
      have source : (s₂.wrapper r).source = (s₁.wrapper r).source := (later.wrapper live).source
      rw [show s₂.wrapper ⟨r.index⟩ = s₂.wrapper r from rfl, source, blank] at based
      cases based
    · cases returned
      exact ⟨good₂, belongs.mono m₂, r, rfl⟩

end Census.Carries

/-! ### Deep copies -/

theorem Value.eq_of_isNonNull (h : v.isNonNull = true) : ∃ r, v = .wrapper .nonNull r := by
  cases v with
  | wrapper w r =>
    cases w with
    | nonNull => exact ⟨r, rfl⟩
    | list | plain => cases h
  | _ => cases h

/-- Identical data are of one class. -/
theorem Value.isNonNull_of_same (same : u.same v = true) (h : u.isNonNull = true) :
    v.isNonNull = true := by
  obtain ⟨r, rfl⟩ := eq_of_isNonNull h
  cases v with
  | wrapper w r' =>
    simp only [Value.same, Bool.and_eq_true, beq_iff_eq] at same
    rw [← same.1]
    rfl
  | _ => cases same

namespace Census

/-- What is remembered are copies. -/
def Remembers (W : Census) (memo : DeepCopy.Memo) : Prop :=
  ∀ p ∈ memo, p.1.Transcribes W p.2

theorem Remembers.lasts : Lasts Remembers := fun _ _ _ more h p hp => (h p hp).mono more

theorem Remembers.cons {memo : DeepCopy.Memo} (h : W.Remembers memo) (copies : v.Transcribes W x) :
    W.Remembers ((v, x) :: memo) := by
  intro p hp
  rcases List.mem_cons.1 hp with rfl | hp
  · exact copies
  · exact h p hp

theorem Remembers.find? {memo : DeepCopy.Memo} (h : W.Remembers memo)
    (found : memo.find? v = some x) : v.Transcribes W x := by
  obtain ⟨p, hp, rfl⟩ := Option.map_eq_some_iff.1 found
  have copies := h p (List.mem_of_find?_eq_some hp)
  have same : p.1.same v = true := by simpa using List.find?_some hp
  exact ⟨copies.belongs, fun nonNull => Value.isNonNull_of_same same (copies.nonNull nonNull)⟩

/-- An action by which a copy of a datum is made. -/
abbrev Copies (W : Census) (v : Value) (act : DeepCopy.Copying Value) : Prop :=
  W.Carries Remembers act fun W' x => v.Transcribes W' x

end Census

namespace Census.Carries

variable {f : Value → DeepCopy.Copying Value}

theorem remember (copies : v.Transcribes W x) :
    W.Carries Remembers (DeepCopy.remember v x) fun _ y => y = x :=
  fun _ holds => Admits.pure ⟨holds.cons copies, rfl⟩

theorem remembered (belongs : x.Belongs W) (other : x.isNonNull = false) :
    W.Copies v (DeepCopy.remember v x) :=
  fun _ holds => Admits.pure ⟨holds.cons (Value.transcribes_of_other belongs other),
    Value.transcribes_of_other belongs other⟩

variable (parts : ∀ {W : Census} {v : Value}, v.Belongs W → W.Copies v (f v))

include parts

theorem copied (belongs : v.Belongs W) :
    W.Carries Remembers (f v) fun W' x => x.Belongs W' :=
  (parts belongs).imp fun _ _ _ h => h.belongs

theorem copyAll {vs : List Value} (belong : W.Includes vs) :
    W.Carries Remembers (vs.mapM f) fun W' xs => W'.Includes xs :=
  mapM Value.Belongs (fun more h => h.mono more) fun v hv _ more =>
    copied parts ((belong v hv).mono more)

theorem copyPart {o : Option Value} (belong : W.Includes o.toList) :
    W.Carries Remembers (DeepCopy.part f o) fun W' o => W'.Includes o.toList := by
  cases o with
  | none => exact pure fun _ hx => absurd hx List.not_mem_nil
  | some v =>
    refine (copied parts (belong v (by simp))).bind fun _ _ x hx => pure fun y hy => ?_
    cases List.mem_singleton.1 hy
    exact hx

theorem copyAttributes {as : Attributes} (belong : W.Includes as.contents) :
    W.Carries Remembers (DeepCopy.attributes f as) fun W' as => W'.Includes as.contents := by
  refine (mapM (fun W p => p.2.Belongs W) (fun more h => h.mono more)
    fun p hp W' more => ?_).imp fun W' _ as h v hv => ?_
  · have held := (belong p.2 (List.mem_map_of_mem hp)).mono more
    exact (copied parts held).bind fun _ _ x hx => pure hx
  · obtain ⟨p, hp, rfl⟩ := List.mem_map.1 hv
    exact h p hp

theorem addEntry {es : List Entry} {e : Entry} (entries : Entries W es)
    (belongs : e.key.Belongs W ∧ e.value.Belongs W) :
    W.Carries Remembers (DeepCopy.addEntry Deferred.supplier f es e) Entries := by
  refine (copied parts belongs.2).bind fun _ m₁ v hv => ?_
  refine (copied parts (belongs.1.mono m₁)).bind fun _ m₂ k hk => ?_
  exact lift Remembers.lasts
    (answers.assign [] ((entries.mono m₁).mono m₂) hk (hv.mono m₂))

/-- Parts are copied before the object that they belong to, or after it was remembered. -/
theorem copyObject (kept : ∀ v, KeepsWith Session.KeepsTypes (f v)) (belongs : v.Belongs W) :
    W.Copies v (DeepCopy.ofObject Deferred.supplier f v) := by
  unfold DeepCopy.ofObject
  split
  · exact (lift Remembers.lasts freshTag).bind fun _ _ _ _ =>
      remembered (Value.belongs_of_leaf rfl rfl) rfl
  · refine (copyAll parts (Value.belongs_tuple.1 belongs)).bind fun W₁ m₁ xs hxs => ?_
    refine bindCarried fun memo holds => ?_
    split
    · rename_i found
      exact pure (holds.find? found)
    · split
      · exact pure (Value.transcribes_self (belongs.mono m₁))
      · exact (lift Remembers.lasts (newRow hxs)).bind fun _ _ _ hr => remembered hr rfl
  · obtain ⟨hn, hl, ha, hd⟩ := Value.belongs_config.1 belongs
    refine (copied parts hn).bind fun _ m₁ _ h₁ => ?_
    refine (copied parts (hl.mono m₁)).bind fun _ m₂ _ h₂ => ?_
    refine (copied parts ((ha.mono m₁).mono m₂)).bind fun _ m₃ _ h₃ => ?_
    refine (copied parts (((hd.mono m₁).mono m₂).mono m₃)).bind fun _ m₄ _ h₄ => ?_
    refine (lift Remembers.lasts freshTag).bind fun _ m₅ _ _ =>
      remembered (Value.belongs_config.2 ?_) rfl
    exact ⟨(((h₁.mono m₂).mono m₃).mono m₄).mono m₅, ((h₂.mono m₃).mono m₄).mono m₅,
      (h₃.mono m₄).mono m₅, h₄.mono m₅⟩
  · rename_i r
    refine bindSession fun s fits => ?_
    refine (lift Remembers.lasts (newList (includes_nil _))).bind fun _ m₁ new hnew => ?_
    have copies : (Value.list r).Transcribes _ (.list new) := Value.transcribes_of_other hnew rfl
    refine (remember copies).bind fun _ m₂ copy same => ?_
    refine (copyAll parts (Includes.mono (Includes.mono (fits.list r) m₁) m₂)).bind
      fun _ m₃ xs hxs => ?_
    refine (change fun s fits => fits.putList new hxs).bind fun _ m₄ _ _ => pure ?_
    exact same ▸ ((copies.mono m₂).mono m₃).mono m₄
  · refine bindSession fun s fits => ?_
    refine (mapM Value.Belongs (fun more h => h.mono more) fun m hm _ more =>
      copied parts ((fits.set _ m hm).mono more)).bind fun _ m₁ xs hxs => ?_
    refine (lift Remembers.lasts (answers.distinct [] hxs).weaken).bind fun _ m₂ ms hms => ?_
    exact (lift Remembers.lasts (newSet hms)).bind fun _ _ _ hr => remembered hr rfl
  · rename_i r
    refine bindSession fun s fits => ?_
    refine (lift Remembers.lasts (newDict fun _ he => absurd he List.not_mem_nil)).bind
      fun _ m₁ new hnew => ?_
    have copies : (Value.dict r).Transcribes _ (.dict new) := Value.transcribes_of_other hnew rfl
    refine (remember copies).bind fun _ m₂ copy same => ?_
    have entries := Entries.mono (Entries.mono (fits.dict r) m₁) m₂
    refine (foldlM (fun _ he => absurd he List.not_mem_nil) fun e he _ more es hes =>
      addEntry parts hes (Entries.mono entries more e he)).bind fun _ m₃ es hes => ?_
    refine (change fun s fits => fits.putDict new hes).bind fun _ m₄ _ _ => pure ?_
    exact same ▸ ((copies.mono m₂).mono m₃).mono m₄
  · rename_i r
    refine bindSession fun s fits => ?_
    obtain ⟨hn, hx⟩ := NamedType.includes_contents.1 (fits.namedType r)
    refine (lift Remembers.lasts (newNamedType fun _ hx => absurd hx List.not_mem_nil)).bind
      fun _ m₁ new hnew => ?_
    have copies : (Value.named r).Transcribes _ (.named new) := Value.transcribes_of_other hnew rfl
    refine (remember copies).bind fun _ m₂ copy same => ?_
    have m₂' := m₁.trans m₂
    refine (copyPart parts (Includes.mono hn m₂')).bind fun _ m₃ _ h₃ => ?_
    refine (copyAttributes parts (Includes.mono hx (m₂'.trans m₃))).bind fun _ m₄ _ h₄ => ?_
    refine (change fun s fits => fits.putNamedType new ?_).bind fun _ m₅ _ _ => pure ?_
    · exact NamedType.includes_contents.2 ⟨Includes.mono h₃ m₄, h₄⟩
    · exact same ▸ copies.mono (m₂.trans (m₃.trans (m₄.trans m₅)))
  · split
    · exact pure (Value.transcribes_self belongs)
    · refine bindSession fun s fits => ?_
      obtain ⟨⟨⟨⟨hn, hd⟩, -⟩, hs⟩, hp⟩ := ScalarType.includes_holdings.1 (fits.scalar ‹_›)
      refine (lift Remembers.lasts (present hd)).bind fun _ m₁ d hd => ?_
      refine (copied parts ((belongs_typeName hn).mono m₁)).bind fun _ m₂ _ h₂ => ?_
      refine (copied parts (hd.mono m₂)).bind fun W₃ m₃ _ h₃ => ?_
      have m := m₁.trans (m₂.trans m₃)
      refine (lift Remembers.lasts (newScalar (ScalarType.includes_holdings.2
        ⟨⟨⟨⟨?_, ?_⟩, W₃.includes_nil⟩, ?_⟩, ?_⟩))).bind fun _ _ _ hr => remembered hr rfl
      · exact includes_some.2 (h₂.mono m₃)
      · exact includes_some.2 h₃
      · exact Includes.mono hs m
      · exact Includes.mono hp m
  · rename_i w r
    refine (lift Remembers.lasts (wrapped w r)).bind fun _ m₁ _ _ => ?_
    refine (lift Remembers.lasts (recorded (belongs.mono m₁))).bind fun _ m₂ t ht => ?_
    refine (fillWrapper (fun copy memo => (.wrapper w r, copy) :: memo) Remembers.lasts
      (kept t) (fun belongs holds => ?_) fun W' m => ?_).imp fun W' _ x h => ?_
    · exact holds.cons ⟨belongs, fun h => (Value.isNonNull_wrapper w _ _).trans h⟩
    · refine (parts (ht.1.mono m)).imp fun W'' m' x copies => ⟨fun y hy => ?_, ?_, ?_⟩
      · exact Types.includes_known copies.belongs y hy
      · rintro class_ t' ⟨⟩ nonNull
        exact (m.trans m').nonempty (ht.2 class_ (copies.nonNull nonNull))
      · exact fun u hu => Types.mayResolve_known hu
    · obtain ⟨belongs', r', rfl⟩ := h
      exact ⟨belongs', fun h => (Value.isNonNull_wrapper w _ _).trans h⟩
  · rename_i q
    refine (lift Remembers.lasts (type q)).bind fun _ m₁ t ht => bindSession fun s fits => ?_
    obtain ⟨⟨hn, hd, hh, hv⟩, -, -, hx⟩ := Argument.includes_contents.1 (fits.argument q)
    refine (lift Remembers.lasts newArgument_blank).bind fun _ m₂ new hnew => ?_
    have copies : (Value.argument q).Transcribes _ (.argument new) :=
      Value.transcribes_of_other hnew rfl
    refine (remember copies).bind fun _ m₃ copy same => ?_
    have m₃' := m₂.trans m₃
    refine (copyPart parts (Includes.mono hn m₃')).bind fun _ m₄ _ h₄ => ?_
    have m₄' := m₃'.trans m₄
    refine (copyPart parts (Includes.mono hd m₄')).bind fun _ m₅ _ h₅ => ?_
    have m₅' := m₄'.trans m₅
    refine (copyPart parts (Includes.mono hh m₅')).bind fun _ m₆ _ h₆ => ?_
    have m₆' := m₅'.trans m₆
    refine (copyPart parts (Includes.mono hv m₆')).bind fun _ m₇ _ h₇ => ?_
    have m₇' := m₆'.trans m₇
    refine (copied parts (ht.mono m₇')).bind fun _ m₈ t' h₈ => ?_
    refine (copyAttributes parts (Includes.mono hx (m₇'.trans m₈))).bind fun _ m₉ _ h₉ => ?_
    have m₇ := m₇.trans (m₈.trans m₉)
    have m₆ := m₆.trans m₇
    have m₅ := m₅.trans m₆
    refine (change fun s fits => fits.putArgument new ?_).bind fun _ m _ _ => pure ?_
    · exact Argument.includes_contents.2
        ⟨⟨Includes.mono h₄ m₅, Includes.mono h₅ m₆, Includes.mono h₆ m₇,
          Includes.mono h₇ (m₈.trans m₉)⟩, h₈.mono m₉, Types.includes_kept (h₈.mono m₉), h₉⟩
    · exact same ▸ copies.mono (m₃.trans (m₄.trans (m₅.trans m)))
  · exact throw _
  · exact pure (Value.transcribes_self belongs)

end Census.Carries

namespace Census

theorem Carries.copyWithin (n : Nat) {W : Census} {v : Value} (belongs : v.Belongs W) :
    W.Copies v (DeepCopy.copyWithin Deferred.supplier n v) := by
  induction n generalizing W v with
  | zero => exact .throw _
  | succ n ih =>
    refine .bindCarried fun memo holds => ?_
    split
    · rename_i found
      exact .pure (holds.find? found)
    · exact Carries.copyObject (fun h => ih h) (Session.KeepsTypes.custody.furnishing.copyWithin n) belongs

theorem Admits.deepCopy (belongs : v.Belongs W) :
    W.Admits false (DeepCopy.copy Deferred.supplier v) fun W' x => v.Transcribes W' x :=
  boundedPairs fun n =>
    (Carries.copyWithin n belongs [] fun _ hp => absurd hp List.not_mem_nil).bind fun _ _ _ hx => pure hx.2

end Census

end DirectiveSchema
