import DirectiveSchema.Proofs.Storing

/-!
Requests on the account of a census. Whatever is requested, what the session holds afterwards
belongs to a census that counts at least as much, and so it is with a run of requests: the sessions
that come to pass are described by censuses of which each counts what the one before does.
-/
namespace DirectiveSchema

variable {α β : Type} {s s' : Session} {u v x : Value} {W W' : Census} {steady : Bool}

open Census.Admits

/-! ### Changes of attributes -/

theorem Attributes.mem_contents_put {as : Attributes} {key : String}
    (h : x ∈ (as.put key v).contents) : x = v ∨ x ∈ as.contents := by
  induction as with
  | nil => exact .inl (List.mem_singleton.1 h)
  | cons p as ih =>
    obtain ⟨k, u⟩ := p
    simp only [put] at h
    split at h
    · exact (List.mem_cons.1 h).imp_right (List.mem_cons_of_mem u)
    · rcases List.mem_cons.1 h with rfl | h
      · exact .inr List.mem_cons_self
      · exact (ih h).imp_right (List.mem_cons_of_mem u)

theorem Attributes.mem_contents_erase {as : Attributes} {key : String}
    (h : x ∈ (as.erase key).contents) : x ∈ as.contents := by
  obtain ⟨p, hp, rfl⟩ := List.mem_map.1 h
  exact List.mem_map_of_mem (List.mem_of_mem_filter hp)

namespace Attributes

theorem includes_put {as : Attributes} (belongs : v.Belongs W) (held : W.Includes as.contents)
    (key : String) : W.Includes (as.put key v).contents := fun x hx =>
  (mem_contents_put hx).elim (fun same => same ▸ belongs) (held x)

theorem includes_erase {as : Attributes} (held : W.Includes as.contents) (key : String) :
    W.Includes (as.erase key).contents := fun x hx => held x (mem_contents_erase hx)

end Attributes

namespace Session.Fits

/-- The attributes that were added to a wrapper may be changed. -/
theorem putExtra (h : s.Fits W) (r : Ref .wrapper) {extra : Attributes}
    (held : W.Includes extra.contents) :
    (s.putWrapper r { s.wrapper r with extra }).Fits W := by
  obtain ⟨types, -⟩ := WrappingType.includes_contents.1 (h.wrapper r)
  exact h.putWrapper r (WrappingType.includes_contents.2 ⟨types, held⟩)
    (fun classed _ based => h.wraps classed based) (fun _ known => h.resolves known)
    fun _ => ⟨rfl, rfl⟩

/-- What is assigned to an attribute belongs to the census. -/
theorem assign (h : s.Fits W) (belongs : x.Belongs W) (v : Value) (key : String) :
    ((Access.set v key x).after s).Fits W := by
  have given := Census.includes_some.2 belongs
  unfold Access.set
  split
  · exact h
  · split
    · rename_i r _
      obtain ⟨hn, hx⟩ := NamedType.includes_contents.1 (h.namedType r)
      refine h.putNamedType r ?_
      split
      · exact NamedType.includes_contents.2 ⟨given, hx⟩
      · exact NamedType.includes_contents.2 ⟨hn, Attributes.includes_put belongs hx _⟩
    · rename_i r _
      obtain ⟨⟨⟨⟨hn, hd⟩, hx⟩, hs⟩, hp⟩ := ScalarType.includes_holdings.1 (h.scalar r)
      refine h.putScalar r ?_
      split
      · exact ScalarType.includes_holdings.2 ⟨⟨⟨⟨given, hd⟩, hx⟩, hs⟩, hp⟩
      · exact ScalarType.includes_holdings.2 ⟨⟨⟨⟨hn, given⟩, hx⟩, hs⟩, hp⟩
      · exact ScalarType.includes_holdings.2
          ⟨⟨⟨⟨hn, hd⟩, Attributes.includes_put belongs hx _⟩, hs⟩, hp⟩
    · rename_i r _
      have held := (WrappingType.includes_contents.1 (h.wrapper r)).2
      exact h.putExtra r (Attributes.includes_put belongs held key)
    · rename_i q _
      obtain ⟨⟨hn, hd, hh, hv⟩, hs, ht, hx⟩ := Argument.includes_contents.1 (h.argument q)
      refine h.putArgument q ?_
      split
      · exact Argument.includes_contents.2 ⟨⟨given, hd, hh, hv⟩, hs, ht, hx⟩
      · exact Argument.includes_contents.2 ⟨⟨hn, given, hh, hv⟩, hs, ht, hx⟩
      · exact Argument.includes_contents.2 ⟨⟨hn, hd, given, hv⟩, hs, ht, hx⟩
      · exact Argument.includes_contents.2
          ⟨⟨hn, hd, hh, hv⟩, hs, ht, Attributes.includes_put belongs hx _⟩
    · exact h
    · exact h
    · exact h

theorem without (h : s.Fits W) (v : Value) (key : String) : (Access.without s v key).Fits W := by
  cases v with
  | named r =>
    obtain ⟨hn, hx⟩ := NamedType.includes_contents.1 (h.namedType r)
    refine h.putNamedType r ?_
    split
    · exact NamedType.includes_contents.2 ⟨W.includes_nil, hx⟩
    · exact NamedType.includes_contents.2 ⟨hn, Attributes.includes_erase hx _⟩
  | scalar r =>
    obtain ⟨⟨⟨⟨hn, hd⟩, hx⟩, hs⟩, hp⟩ := ScalarType.includes_holdings.1 (h.scalar r)
    refine h.putScalar r ?_
    split
    · exact ScalarType.includes_holdings.2 ⟨⟨⟨⟨W.includes_nil, hd⟩, hx⟩, hs⟩, hp⟩
    · exact ScalarType.includes_holdings.2 ⟨⟨⟨⟨hn, W.includes_nil⟩, hx⟩, hs⟩, hp⟩
    · exact ScalarType.includes_holdings.2
        ⟨⟨⟨⟨hn, hd⟩, Attributes.includes_erase hx _⟩, hs⟩, hp⟩
  | wrapper w r =>
    have held := (WrappingType.includes_contents.1 (h.wrapper r)).2
    exact h.putExtra r (Attributes.includes_erase held key)
  | argument q =>
    obtain ⟨⟨hn, hd, hh, hv⟩, hs, ht, hx⟩ := Argument.includes_contents.1 (h.argument q)
    refine h.putArgument q ?_
    split
    · exact Argument.includes_contents.2 ⟨⟨W.includes_nil, hd, hh, hv⟩, hs, ht, hx⟩
    · exact Argument.includes_contents.2 ⟨⟨hn, W.includes_nil, hh, hv⟩, hs, ht, hx⟩
    · exact Argument.includes_contents.2 ⟨⟨hn, hd, W.includes_nil, hv⟩, hs, ht, hx⟩
    · exact Argument.includes_contents.2
        ⟨⟨hn, hd, hh, hv⟩, hs, ht, Attributes.includes_erase hx _⟩
  | _ => exact h

end Session.Fits

namespace Census.Admits

/-- What leaves the census as it is. -/
theorem settled {act : Action α} (h : ∀ s, s.Fits W → (act.after s).Fits W) :
    W.Admits steady act fun _ _ => True :=
  fun s fits => ⟨W, .refl W, h s fits, fun _ _ => trivial⟩

theorem set (belongs : x.Belongs W) (v : Value) (key : String) :
    W.Admits steady (Access.set v key x) fun _ _ => True :=
  settled fun _ fits => fits.assign belongs v key

theorem delete (v : Value) (key : String) :
    W.Admits steady (Access.delete v key) fun _ _ => True := by
  simp only [Access.delete]
  split
  · exact settled fun _ fits => fits
  · split
    · exact throw _
    · exact throw _
    · refine bindGet fun s _ => ?_
      split
      · exact settled fun _ fits => fits.without _ key
      · exact throw _

theorem append (belongs : x.Belongs W) (v : Value) :
    W.Admits steady (Access.append v x) fun _ _ => True := by
  unfold Access.append
  split
  · rename_i r
    refine settled fun s fits => fits.putList r fun y hy => ?_
    rcases List.mem_append.1 hy with hy | hy
    · exact fits.list r y hy
    · exact List.mem_singleton.1 hy ▸ belongs
  · exact throw _

theorem bindName (name : Option String) (belongs : v.Belongs W) :
    W.Admits steady (Request.bindName name v) fun _ _ => True := by
  cases name with
  | none => exact pure trivial
  | some x =>
    refine settled fun s fits => fits.beside rfl { fits.toStores with bindings := fun {p} hp => ?_ }
      fits.count rfl rfl
    rcases List.mem_cons.1 hp with rfl | hp
    · exact belongs
    · exact fits.bindings hp

theorem describe (belongs : v.Belongs W) :
    W.Admits steady (Description.of Deferred.supplier v) fun _ _ => True :=
  observing fun o => o.describe v (fun r => keeps fun _ _ => toConfig r) fun w =>
    keeps fun _ more => wrap w (belongs.mono more)

/-! ### Requests -/

theorem showBound (name : Option String) (belongs : v.Belongs W) :
    W.Admits steady (Request.showBound Deferred.supplier name v) fun _ _ => True :=
  (observing fun o => o.answer v).bind fun _ more _ _ =>
    (bindName name (belongs.mono more)).bind fun _ _ _ _ => pure trivial

theorem classBound (name : Option String) (belongs : v.Belongs W) :
    W.Admits steady (Request.classBound name v) fun _ _ => True :=
  (bindName name belongs).bind fun _ _ _ _ => pure trivial

/-- The census of a session may have to count more after a request. -/
theorem perform (q : Request) (W : Census) :
    W.Admits false (q.perform Deferred.supplier) fun _ _ => True := by
  have shows {act : Action Value} {W : Census} {post : Census → Value → Prop}
      (h : W.Admits false act post) : W.Admits false (do Answer.of Deferred.supplier (← act))
        fun _ _ => True := h.bind fun _ _ _ _ => observing fun o => o.answer _
  cases q with
  | isValidName e | isLocation e => exact (value e W).bind fun _ _ _ _ => pure trivial
  | assertValidName e =>
    exact (value e W).bind fun _ _ _ _ => (observing fun o => o.assertName [] _).bind
      fun _ _ _ _ => observing fun o => o.answer _
  | getLocation e =>
    exact (value e W).bind fun _ _ _ _ => shows (observing fun o => o.location _)
  | serialize scalar e | parse scalar e =>
    refine (value scalar W).bind fun _ _ _ _ => (value e _).bind fun _ _ _ _ => ?_
    exact observing fun o => o.bind (o.asScalar _ _) fun _ =>
      o.bind (o.bindGet fun _ => o.coerced _ _ _) o.answer
  | coerceInteger e =>
    exact (value e W).bind fun _ _ _ _ =>
      observing fun o => o.bind (o.coerceInteger _) fun _ => o.pure _
  | coerceFloat e =>
    exact (value e W).bind fun _ _ _ _ =>
      observing fun o => o.bind (o.coerceFloat _) fun _ => o.pure _
  | specifiedScalar e =>
    exact (value e W).bind fun _ _ _ _ => observing fun o => o.bind (o.specifiedScalar _) o.answer
  | demand t =>
    refine (typeValue t W).bind fun _ _ _ hv => ?_
    exact shows (answers.demand [] hv).weaken
  | isInputType e =>
    exact (value e W).bind fun _ _ _ _ =>
      observing fun o => o.bind (o.isInput [] _) fun _ => o.pure _
  | unwrapType e =>
    exact (value e W).bind fun _ _ _ _ => observing fun o => o.bind (o.unwrap [] _) o.answer
  | nullableType e =>
    exact (value e W).bind fun _ _ _ _ => observing fun o => o.bind (o.nullable [] _) o.answer
  | isSpecifiedDirective e =>
    exact (value e W).bind fun _ _ _ _ =>
      observing fun o => o.bind (o.isSpecified _) fun _ => o.pure _
  | validate e =>
    exact (value e W).bind fun _ _ _ _ =>
      observing fun o => o.bind (o.validate [] _) fun _ => o.pure _
  | error kind args =>
    exact (value args W).bind fun _ _ _ _ => observing fun o =>
      o.bind (o.elements _) fun _ => o.describeError kind _
  | library => exact observing fun o => o.describeLibrary
  | describe e => exact (value e W).bind fun _ _ _ hv => describe hv
  | declare name e => exact (value e W).bind fun _ _ _ hv => classBound _ hv
  | declareType name t => exact (typeValue t W).bind fun _ _ _ hv => classBound _ hv
  | value e => exact (value e W).bind fun _ _ _ _ => observing fun o => o.answer _
  | get e key name =>
    exact (value e W).bind fun _ _ _ hv => (get hv key).bind fun _ _ _ hx => showBound _ hx
  | set e key new =>
    exact (value e W).bind fun _ _ _ _ => (value new _).bind fun _ _ _ hx =>
      (set hx _ key).bind fun _ _ _ _ => pure trivial
  | delete e key =>
    exact (value e W).bind fun _ _ _ _ => (delete _ key).bind fun _ _ _ _ => pure trivial
  | item e key name =>
    exact (value e W).bind fun _ _ _ hv => (value key _).bind fun _ more _ _ =>
      (item (hv.mono more) _).bind fun _ _ _ hx => showBound _ hx
  | append e x =>
    exact (value e W).bind fun _ _ _ _ => (value x _).bind fun _ _ _ hx =>
      (append hx _).bind fun _ _ _ _ => pure trivial
  | label e =>
    exact (value e W).bind fun _ _ _ _ => observing fun o => o.bind (o.labelValue [] _) o.answer
  | literal e =>
    exact (value e W).bind fun _ _ _ _ =>
      observing fun o => o.bind (o.literal [] _) fun _ => o.pure _
  | equal a b | unequal a b =>
    exact (value a W).bind fun _ _ _ _ => (value b _).bind fun _ _ _ _ =>
      observing fun o => o.bind (o.equal [] _ _) fun _ => o.pure _
  | same a b =>
    exact (value a W).bind fun _ _ _ _ => (value b _).bind fun _ _ _ _ => pure trivial
  | hashEqual a b =>
    exact (value a W).bind fun _ _ _ _ => (value b _).bind fun _ _ _ _ =>
      observing fun o => o.bind (o.hash [] _) fun _ => o.bind (o.hash [] _) fun _ => o.pure _
  | distinct e =>
    exact (value e W).bind fun _ _ _ _ => observing fun o =>
      o.bind (o.elements _) fun _ => o.bind (o.distinct [] _) fun _ => o.pure _
  | copy e mode name =>
    exact (value e W).bind fun _ _ _ hv => (copy mode hv).bind fun _ _ _ hx =>
      classBound _ hx.belongs
  | wrap w e name =>
    simp only [Request.perform]
    refine (value e W).bind fun _ _ v hv => ?_
    split
    · exact settled fun _ fits => fits
    · exact (wrap w hv).bind fun _ _ _ hx => showBound _ hx
  | calls counter => exact bindGet fun _ _ => pure trivial
  | appliesTo e l =>
    exact (value e W).bind fun _ _ _ _ => (value l _).bind fun _ _ _ _ => observing fun o =>
      o.bind (o.asDirective _ _) fun _ => o.bind (o.appliesTo [] _ _) fun _ => o.pure _
  | toConfig e name =>
    exact (value e W).bind fun _ _ _ hv => (asDirective hv _).bind fun _ _ r _ =>
      (toConfig r).bind fun _ _ _ hx => showBound _ hx
  | fromConfig e name =>
    exact (value e W).bind fun _ _ _ hv => (fromConfig hv).bind fun _ _ _ hr => showBound _ hr
  | mapGet e key =>
    exact (value e W).bind fun _ _ _ _ => (value key _).bind fun _ _ _ _ =>
      observing fun o => o.bind (o.mapGet _ _) o.answer
  | mapSet e key new =>
    exact (value e W).bind fun _ _ _ _ => (value key _).bind fun _ _ _ _ =>
      (value new _).bind fun _ _ _ _ => observing fun o => o.bind (o.mapOf _) fun _ => o.throw _
  | mapDelete e key =>
    exact (value e W).bind fun _ _ _ _ => (value key _).bind fun _ _ _ _ =>
      observing fun o => o.bind (o.mapOf _) fun _ => o.throw _
  | tasks => exact pure trivial
  | task name args shell files =>
    have given (W : Census) : W.Admits false (args.mapM fun a => do
        return (a.1, ← a.2.eval Deferred.supplier)) fun _ _ => True :=
      observing fun o => o.mapM (fun a => o.bind (keeps fun W' _ => value a.2 W') fun _ =>
        o.pure _) args
    exact (given W).bind fun _ _ args _ => observing fun o =>
      o.bind (o.runTask args shell name _) fun _ => o.pure _
  | join parts =>
    refine observing fun o => o.attemptText (o.bind (o.mapM (fun e => keeps fun W' _ => value e W')
      parts) fun vs => ?_)
    exact o.bind (o.filterM o.isTruthy vs) fun _ => o.bind (o.texts _ _) fun _ => o.pure _
  | requirements folder paths files => exact pure trivial
  | writtenVersion folder files => exact pure trivial
  | package folder files => exact pure trivial

end Census.Admits

/-! ### Runs -/

namespace Session

theorem Fits.run (h : s.Fits W) (q : Request) :
    ∃ W', W.Extends false W' ∧ (s.run q).2.Fits W' := by
  simp only [Session.run]
  have quiet : Fits W { s with journal := [] } := h.beside rfl { h.toStores with } h.count rfl rfl
  have observed : Observed Deferred.supplier.answer (Tallies false W) := Census.observed
  have kept := observed.guard (keeps fun W' _ => perform q W') { s with journal := [] }
  obtain ⟨W', more, fits⟩ := kept W (.refl W) quiet
  refine ⟨W', more, ?_⟩
  cases result : Answer.guard Deferred.supplier (q.perform Deferred.supplier)
      { s with journal := [] } with
  | ok o s' =>
    rw [Action.after_of_ok result] at fits
    exact fits.beside rfl { fits.toStores with } fits.count rfl rfl
  | error f s' =>
    rw [Action.after_of_error result] at fits
    exact fits.beside rfl { fits.toStores with bindings := fun hp => (h.bindings hp).mono more }
      fits.count rfl rfl

theorem runAll_append (s : Session) (qs rs : List Request) :
    (s.runAll (qs ++ rs)).2 = ((s.runAll qs).2.runAll rs).2 := by
  induction qs generalizing s with
  | nil => rfl
  | cons q qs ih => exact ih (s.run q).2

/-- The sessions of a run, one after the other. -/
theorem Fits.runAll (h : s.Fits W) (qs : List Request) : ∃ C : Nat → Census, C 0 = W ∧
    (∀ n, (C n).Extends false (C (n + 1))) ∧ ∀ n, (s.runAll (qs.take n)).2.Fits (C n) := by
  induction qs generalizing s W with
  | nil => exact ⟨fun _ => W, rfl, fun _ => .refl W, fun n => by rw [List.take_nil]; exact h⟩
  | cons q qs ih =>
    obtain ⟨W', more, fits⟩ := h.run q
    obtain ⟨C, rfl, chain, rest⟩ := ih fits
    refine ⟨fun n => n.casesOn W C, rfl, fun n => ?_, fun n => ?_⟩
    · cases n with
      | zero => exact more
      | succ n => exact chain n
    · cases n with
      | zero => exact h
      | succ n => exact rest n

end Session

end DirectiveSchema
