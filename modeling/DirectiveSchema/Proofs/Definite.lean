import DirectiveSchema.Proofs.Deciding

/-!
Data that can be compared. A definite datum is finitely nested, and whatever was observed before,
all that it is made of can be found out: attributes are there, types answer, and no set or
dictionary holds anything twice. Definite data are compared by their shapes.
-/
namespace DirectiveSchema

open Equality

variable {s s' u : Session} {x y v : Value} {n N : Nat}

/-! ### Types that are asked for -/

theorem Value.eq_of_demand {supply : Supplier} {source t v : Value} (known : source.known? = some v)
    (h : Types.demand supply source s = .ok t s') : t = v := by
  cases source with
  | deferred => cases known
  | _ =>
    cases h
    exact Option.some.inj known

/-- An answer that is kept, or that is no different each time, is the type from then on. -/
theorem Types.kept_or_known {supply : Supplier} {source t : Value}
    (h : Types.demand supply source s = .ok t s')
    (settled : ((Types.kept t).or source.known?).isSome = true) :
    (Types.kept t).or source.known? = some t := by
  cases null : t.isNull with
  | false => simp only [kept_of_not_isNull null, Option.some_or]
  | true =>
    rw [kept_of_isNull null, Option.none_or] at settled ⊢
    obtain ⟨v, known⟩ := Option.isSome_iff_exists.1 settled
    rw [known, Value.eq_of_demand known h]

namespace Session

theorem Extends.demand {source t : Value}
    (h : Types.demand Deferred.supplier source s = .ok t s') : s.Extends s' :=
  (Extends.lasting.demand (fun ws d => Extends.growth.call ws d) [] source).of_ok h

/-- A type that was asked for is known by then, if it is known at all. -/
theorem type?_of_wrapped {w : Wrapper} {r : Ref .wrapper} {t : Value}
    (live : r.index < s.wrappers.size) (h : Types.wrapped Deferred.supplier w r s = .ok t u)
    (settled : (u.wrapper r).type?.isSome = true) : (u.wrapper r).type? = some t := by
  cases resolved : (s.wrapper r).resolved with
  | some t' =>
    rw [Types.wrapped_of_resolved resolved] at h
    cases h
    rw [WrappingType.type?, resolved, Option.some_or]
  | none =>
    cases based : (s.wrapper r).source with
    | none =>
      rw [Types.wrapped_of_blank resolved based] at h
      cases h
    | some source =>
      cases answered : Types.demand Deferred.supplier source s with
      | error f s' =>
        rw [Types.wrapped_of_fault resolved based answered] at h
        cases h
      | ok t' s' =>
        rw [Types.wrapped_of_demand resolved based answered] at h
        cases h
        have extension := Extends.demand answered
        have cell : (s'.putWrapper r { s'.wrapper r with resolved := Types.kept t }).wrapper r =
            { s'.wrapper r with resolved := Types.kept t } :=
          Arena.get_put_self _ _ (Nat.lt_of_lt_of_le live extension.wrappers.size)
        have source' := (extension.wrapper live).source.trans based
        rw [cell, WrappingType.type?, source', Option.bind_some] at settled ⊢
        exact Types.kept_or_known answered settled

theorem type?_of_type {q : Ref .argument} {t : Value} (live : q.index < s.arguments.size)
    (h : Arguments.type Deferred.supplier q s = .ok t u)
    (settled : (u.argument q).type?.isSome = true) : (u.argument q).type? = some t := by
  cases resolved : (s.argument q).resolved with
  | some t' =>
    rw [Arguments.type_of_resolved resolved] at h
    cases h
    rw [Argument.type?, resolved, Option.some_or]
  | none =>
    cases answered : Types.demand Deferred.supplier (s.argument q).source s with
    | error f s' =>
      rw [Arguments.type_of_fault resolved answered] at h
      cases h
    | ok t' s' =>
      rw [Arguments.type_of_demand resolved answered] at h
      cases h
      have extension := Extends.demand answered
      have cell : (s'.putArgument q { s'.argument q with resolved := Types.kept t }).argument q =
          { s'.argument q with resolved := Types.kept t } :=
        Arena.get_put_self _ _ (Nat.lt_of_lt_of_le live extension.arguments.size)
      have source' := (extension.argument live).source
      rw [cell, Argument.type?, source'] at settled ⊢
      exact Types.kept_or_known answered settled

end Session

/-! ### Data that can be compared -/

/-- Whether a datum lives in the store and is made of others. -/
def Value.isObject : Value → Bool
  | .list _ | .set _ | .dict _ | .wrapper _ _ | .argument _ | .directive _ => true
  | _ => false

/-- No element or key occurs twice: of two that are kept under one hash key the first is not equal
to the second. -/
def Body.Separate (s : Session) : Body → Prop
  | .set members => members.Pairwise fun m k => m.hash = k.hash →
      ∀ u, equal Deferred.supplier m.value k.value s ≠ .ok true u
  | .dict entries => entries.Pairwise fun e k => e.hash = k.hash →
      ∀ u, equal Deferred.supplier e.key k.key s ≠ .ok true u
  | _ => True

/-- What a datum is made of can be found out: it is a number that equals itself or no number, it
exists, its attributes are there, and its type can be asked for and is known from then on; and if it
is a set or a dictionary, nothing occurs in it twice. -/
structure Session.Opens (s : Session) (v : Value) : Prop where
  number : v.isNaN = false
  live : v.isObject = true → (s.body? v).isSome = true
  wrapper {w : Wrapper} {r : Ref .wrapper} : v = .wrapper w r →
    ∃ t u, Types.wrapped Deferred.supplier w r s = .ok t u ∧ (u.layer? v).isSome = true
  argument {q : Ref .argument} : v = .argument q →
    ∃ t u, Arguments.type Deferred.supplier q s = .ok t u ∧ (u.layer? v).isSome = true
  separate {b : Body} : s.body? v = some b → b.Separate s

/-- A datum that is at most so deep and that can be opened down to the ground, whatever was observed
before. -/
def Session.Definite : Nat → Session → Value → Prop
  | 0, _, _ => False
  | n + 1, s, v => ∀ s', s.Leads s' → s'.Opens v ∧ ∀ x ∈ (s'.layer v).parts, Definite n s' x

namespace Session

variable {r : Ref .wrapper} {q : Ref .argument} {w : Wrapper}

theorem Definite.later (h : Definite n s v) (leads : s.Leads s') : Definite n s' v := by
  cases n with
  | zero => cases h
  | succ n => exact fun u later => h u (leads.trans later)

theorem Definite.mono (h : Definite n s v) (le : n ≤ N) : Definite N s v := by
  induction n generalizing N s v with
  | zero => cases h
  | succ n ih =>
    obtain ⟨M, rfl⟩ : ∃ M, N = M + 1 := ⟨N - 1, by omega⟩
    exact fun u later => ⟨(h u later).1, fun x hx => ih ((h u later).2 x hx) (by omega)⟩

theorem Definite.opens (h : Definite (n + 1) s v) : s.Opens v := (h s .refl).1

/-- The parts that are known stay definite. -/
theorem Definite.part {l : Layer Value} (h : Definite (n + 1) s v) (leads : s.Leads u)
    (known : u.layer? v = some l) (hx : x ∈ l.parts) : Definite n u x :=
  (h u leads).2 x (layer_of_some known ▸ hx)

theorem wrapped_keeps (w : Wrapper) (r : Ref .wrapper) :
    Keeps Session.Leads (Types.wrapped Deferred.supplier w r) :=
  (Later.observed Deferred.supplier.answer).wrapped [] w r

theorem Opens.wrapped (h : s.Opens (.wrapper w r)) :
    ∃ t u, Types.wrapped Deferred.supplier w r s = .ok t u ∧ s.Leads u ∧
      u.layer? (.wrapper w r) = some (.wrapper w t) := by
  have live := live_wrapper (h.live rfl)
  obtain ⟨t, u, run, settled⟩ := h.wrapper rfl
  have leads := (wrapped_keeps w r).of_ok run
  have surface := layer?_wrapper (w := w) (Nat.lt_of_lt_of_le live leads.extends.wrappers.size)
  rw [surface, Option.isSome_map] at settled
  exact ⟨t, u, run, leads, by rw [surface, type?_of_wrapped live run settled, Option.map_some]⟩

theorem Opens.typed (h : s.Opens (.argument q)) :
    ∃ name t u, Arguments.name q s = .ok name s ∧
      Arguments.type Deferred.supplier q s = .ok t u ∧ s.Leads u ∧
      ∃ description hasDefault, (u.argument q).description = some description ∧
        (u.argument q).hasDefault = some hasDefault ∧ u.layer? (.argument q) =
          some (.argument name t description hasDefault (u.argument q).default) := by
  have live := live_argument (h.live rfl)
  obtain ⟨t, u, run, settled⟩ := h.argument rfl
  have leads : s.Leads u := ((Later.observed Deferred.supplier.answer).type [] q).of_ok run
  have settles := leads.extends.argument live
  obtain ⟨l, known⟩ := Option.isSome_iff_exists.1 settled
  have surface := layer?_argument (Nat.lt_of_lt_of_le live leads.extends.arguments.size)
  rw [surface] at known
  simp only [Body.layer?, Option.bind_eq_bind, Option.bind_eq_some_iff, Option.pure_def] at known
  obtain ⟨name, named, type, typed, description, described, hasDefault, decided, -⟩ := known
  have type := type?_of_type live run (by rw [typed]; rfl)
  refine ⟨name, t, u, ?_, run, leads, description, hasDefault, described, decided, ?_⟩
  · rw [Arguments.name_eq, ← settles.name, named]
    rfl
  · simp only [surface, Body.layer?, named, type, described, decided, Option.bind_eq_bind,
      Option.bind_some, Option.pure_def]

theorem Opens.argumentKey (h : s.Opens (.argument q)) :
    ∃ key u, Equality.argumentKey Deferred.supplier q s = .ok key u ∧ s.Leads u ∧
      u.layer? (.argument q) =
        some (.argument key.name key.type key.description key.hasDefault key.default) := by
  obtain ⟨name, t, u, readName, run, leads, description, hasDefault, described, decided, surface⟩ :=
    h.typed
  have readDescription : Arguments.description q u = .ok description u := by
    rw [Arguments.description_eq, described]
    rfl
  have readHasDefault : Arguments.hasDefault q u = .ok hasDefault u := by
    rw [Arguments.hasDefault_eq, decided]
    rfl
  refine ⟨{ name, type := t, description, hasDefault, default := (u.argument q).default }, u, ?_,
    leads, surface⟩
  rw [Equality.argumentKey, Action.bind_of_ok readName, Action.bind_of_ok run,
    Action.bind_of_ok readDescription, Action.bind_of_ok readHasDefault]
  rfl

end Session

/-- Two data whose surfaces are known are compared by what lies under them. -/
theorem Decides.surfaces {act : Action Bool} {l m : Layer Value} (left : s.layer? x = some l)
    (right : s.layer? y = some m)
    (h : Decides s act fun u => l.map (u.shape n) = m.map (u.shape n)) :
    Decides s act fun u => u.shape (n + 1) x = u.shape (n + 1) y :=
  h.iff fun u later => by
    rw [Session.shape_of_layer? (later.extends.layer? left),
      Session.shape_of_layer? (later.extends.layer? right)]
    exact Iff.rfl

/-- A bound on nesting that leaves room for any pair of objects. -/
def Session.limit (s : Session) : Nat := (s.reach + 1) * (s.reach + 1)

theorem Session.Extends.limit_le (h : s.Extends u) (d : Nat) :
    s.limit ≤ (u.reach + d + 1) * (u.reach + d + 1) := by
  have reach := h.reach_le
  exact Nat.mul_le_mul (by omega) (by omega)

namespace Session

/-- Under one hash key no two elements are seen as the same: they would be equal. -/
theorem nodup_of_separate {β : Type} {xs : List β} {hash : β → HashKey} {value : β → Value}
    (equals : ∀ a ∈ xs, ∀ b ∈ xs, Decides s (equal Deferred.supplier (value a) (value b)) fun u =>
      u.shape n (value a) = u.shape n (value b))
    (separate : xs.Pairwise fun a b => hash a = hash b →
      ∀ u, equal Deferred.supplier (value a) (value b) s ≠ .ok true u) :
    (xs.map fun a => (hash a, s.shape n (value a))).Nodup := by
  rw [List.Nodup, List.pairwise_map]
  refine separate.imp_of_mem fun {a b} ha hb apart same => ?_
  obtain ⟨hashes, shapes⟩ := Prod.mk.inj same
  obtain ⟨answer, u, run, leads, decided⟩ := equals a ha b hb
  obtain rfl : answer = true := (decided u .refl).2 (leads.extends.shape shapes)
  exact apart hashes u run

end Session

/-! ### Comparing definite data -/

namespace Session

variable {w w' : Wrapper} {r r' : Ref .wrapper} {q q' : Ref .argument} {M : Nat}

theorem Definite.member {r : Ref .set} (hx : Definite (n + 1) s (.set r)) {m : Member}
    (hm : m ∈ s.set r) (leads : s.Leads u) : Definite n u m.value := by
  have surface := layer?_of_body (body?_set (hx.opens.live rfl))
  refine hx.part leads (leads.extends.layer? surface) ?_
  simpa [Layer.parts] using ⟨m, hm, rfl⟩

theorem Definite.entry {r : Ref .dict} (hx : Definite (n + 1) s (.dict r)) {e : Entry}
    (he : e ∈ s.dict r) (leads : s.Leads u) : Definite n u e.key ∧ Definite n u e.value := by
  have surface := layer?_of_body (body?_dict (hx.opens.live rfl))
  refine ⟨hx.part leads (leads.extends.layer? surface) ?_,
    hx.part leads (leads.extends.layer? surface) ?_⟩
  · simpa [Layer.parts] using .inl ⟨e, he, rfl⟩
  · simpa [Layer.parts] using .inr ⟨e, he, rfl⟩

/-- Definite data of a nesting are compared by their shapes from some session on, as elements and on
their own. -/
structure Comparable (s : Session) (n M : Nat) : Prop where
  types {u : Session} {a b : Value} : s.Leads u → Definite n u a → Definite n u b →
    Compares (equalWithin Deferred.supplier M) (fun u => u.shape n) u a b
  equals {u : Session} {a b : Value} : s.Leads u → Definite n u a → Definite n u b →
    Decides u (equal Deferred.supplier a b) fun t => t.shape n a = t.shape n b

namespace Comparable

variable (h : s.Comparable n M)

include h

theorem parts {a b : Value} (leads : s.Leads u) (ha : Definite n u a) (hb : Definite n u b) :
    Compares (element (equalWithin Deferred.supplier M)) (fun u => u.shape n) u a b :=
  (h.types leads ha hb).element fun _ => shape_of_same

theorem wrappers (hx : Definite (n + 1) s (.wrapper w r))
    (hy : Definite (n + 1) s (.wrapper w r')) :
    Decides s (do
      let t ← Types.wrapped Deferred.supplier w r
      equalWithin Deferred.supplier M t (← Types.wrapped Deferred.supplier w r'))
      fun u => u.shape (n + 1) (.wrapper w r) = u.shape (n + 1) (.wrapper w r') := by
  obtain ⟨t, u, run, leads, surface⟩ := hx.opens.wrapped
  obtain ⟨t', u', run', leads', surface'⟩ := (hy.later leads).opens.wrapped
  have surface := leads'.extends.layer? surface
  have later := leads.trans leads'
  refine .after run leads (.after run' leads' (.surfaces surface surface' ?_))
  refine (h.types later (hx.part later surface (by simp [Layer.parts]))
    (hy.part later surface' (by simp [Layer.parts])) u' .refl).iff fun u _ => ?_
  simp [Layer.map]

theorem arguments (hx : Definite (n + 1) s (.argument q)) (hy : Definite (n + 1) s (.argument q')) :
    Decides s (do
      let key ← argumentKey Deferred.supplier q
      argumentKeys (equalWithin Deferred.supplier M) key (← argumentKey Deferred.supplier q'))
      fun u => u.shape (n + 1) (.argument q) = u.shape (n + 1) (.argument q') := by
  obtain ⟨key, u, run, leads, surface⟩ := hx.opens.argumentKey
  obtain ⟨key', u', run', leads', surface'⟩ := (hy.later leads).opens.argumentKey
  have surface := leads'.extends.layer? surface
  have later := leads.trans leads'
  have part {a b : Value} (ha : a ∈ Layer.parts _) (hb : b ∈ Layer.parts _) :=
    h.parts later (hx.part later surface ha) (hy.part later surface' hb)
  refine .after run leads (.after run' leads' (.surfaces surface surface' ?_))
  refine (argumentKeys_decides (part ?_ ?_) (part ?_ ?_) (part ?_ ?_) (part ?_ ?_)
    fun a ha b hb => part ?_ ?_).iff fun u _ => by simp [Layer.map]
  all_goals simp_all [Layer.parts]

theorem directives {r r' : Ref .directive} (hx : Definite (n + 1) s (.directive r))
    (hy : Definite (n + 1) s (.directive r')) :
    Decides s
      (Equality.directives (equalWithin Deferred.supplier M) (s.directive r) (s.directive r'))
      fun u => u.shape (n + 1) (.directive r) = u.shape (n + 1) (.directive r') := by
  have surface := layer?_of_body (body?_directive (hx.opens.live rfl))
  have surface' := layer?_of_body (body?_directive (hy.opens.live rfl))
  have part {a b : Value} (ha : a ∈ Layer.parts _) (hb : b ∈ Layer.parts _) :=
    h.parts .refl (hx.part .refl surface ha) (hy.part .refl surface' hb)
  refine .surfaces surface surface' ((directives_decides (part ?_ ?_) (part ?_ ?_) (part ?_ ?_)
    (part ?_ ?_)).iff fun u _ => by simp [Layer.map])
  all_goals simp [Layer.parts]

theorem members_nodup {r : Ref .set} (hx : Definite (n + 1) s (.set r)) (leads : s.Leads u) :
    ((s.set r).map fun m => (m.hash, u.shape n m.value)).Nodup :=
  nodup_of_separate
    (fun _ ha _ hb => h.equals leads (hx.member ha leads) (hx.member hb leads))
    ((hx.later leads).opens.separate (leads.extends.body_data (body?_set (hx.opens.live rfl)) rfl))

theorem entries_nodup {r : Ref .dict} (hx : Definite (n + 1) s (.dict r)) (leads : s.Leads u) :
    ((s.dict r).map fun e => (e.hash, u.shape n e.key)).Nodup :=
  nodup_of_separate
    (fun _ ha _ hb => h.equals leads (hx.entry ha leads).1 (hx.entry hb leads).1)
    ((hx.later leads).opens.separate (leads.extends.body_data (body?_dict (hx.opens.live rfl)) rfl))

end Comparable

/-- Definite data are compared by their shapes. -/
theorem Definite.compares (hx : Definite n s x) (hy : Definite n s y) (enough : n ≤ N)
    (room : n ≤ s.limit) :
    Compares (equalWithin Deferred.supplier N) (fun u => u.shape n) s x y := by
  induction n generalizing s x y N with
  | zero => cases hx
  | succ n ih =>
    obtain ⟨M, rfl⟩ : ∃ M, N = M + 1 := ⟨N - 1, by omega⟩
    intro s' later
    replace hx := hx.later later
    replace hy := hy.later later
    replace room : n + 1 ≤ s'.limit := Nat.le_trans room (later.extends.limit_le 0)
    have left := hx.opens
    have right := hy.opens
    have inside : s'.Comparable n M := by
      refine ⟨fun {u a b} leads ha hb => ?_, fun {u a b} leads ha hb => ?_⟩
      · exact ih ha hb (Nat.le_of_succ_le_succ enough)
          (Nat.le_trans (Nat.le_of_succ_le room) (leads.extends.limit_le 0))
      · have room' := Nat.le_trans (Nat.le_of_succ_le room) (leads.extends.limit_le a.depth)
        exact ih ha hb room'
          (Nat.le_trans (Nat.le_of_succ_le room) (leads.extends.limit_le 0)) u .refl
    simp only [equalWithin]
    split
    case h_1 w r w' r' =>
      split
      · next same =>
        obtain ⟨rfl, rfl⟩ := same
        exact .yes fun _ _ => rfl
      split
      · next apart =>
        refine .no fun u _ same => apart ?_
        simpa [Value.face, Face.kind?] using kind?_of_shape same
      · next same =>
        obtain rfl : w = w' := by simpa using same
        exact inside.wrappers hx hy
    case h_2 q q' =>
      split
      · next same =>
        subst same
        exact .yes fun _ _ => rfl
      · exact inside.arguments hx hy
    case h_3 r r' =>
      split
      · next same =>
        subst same
        exact .yes fun _ _ => rfl
      · exact inside.directives hx hy
    case h_4 r r' =>
      have surface := layer?_of_body (body?_list (left.live rfl))
      have surface' := layer?_of_body (body?_list (right.live rfl))
      exact .surfaces surface surface' (lists_decides fun a ha b hb =>
        inside.parts .refl (hx.part .refl surface ha) (hy.part .refl surface' hb))
    case h_5 r r' =>
      have surface := layer?_of_body (body?_set (left.live rfl))
      have surface' := layer?_of_body (body?_set (right.live rfl))
      exact .surfaces surface surface' (sets_decides
        (fun m hm k hk => inside.parts .refl (hy.member hk .refl) (hx.member hm .refl))
        fun u later => inside.members_nodup hx later)
    case h_6 r r' =>
      have surface := layer?_of_body (body?_dict (left.live rfl))
      have surface' := layer?_of_body (body?_dict (right.live rfl))
      exact .surfaces surface surface' (dicts_decides
        (fun e he k hk =>
          inside.parts .refl (hy.entry hk .refl).1 (hx.entry he .refl).1)
        (fun e he k hk =>
          inside.parts .refl (hy.entry hk .refl).2 (hx.entry he .refl).2)
        (fun u later => inside.entries_nodup hx later) fun u later => inside.entries_nodup hy later)
    case h_7 wrappers arguments directives lists sets dicts =>
      split
      · next xs ys row row' =>
        have surface : s'.layer? x = some (.row xs) := layer?_of_row row
        have surface' : s'.layer? y = some (.row ys) := layer?_of_row row'
        have rows := rows_decides fun a ha b hb =>
          inside.parts .refl (hx.part .refl surface ha) (hy.part .refl surface' hb)
        exact .surfaces surface surface' (rows.iff fun u _ => by simp [Layer.map])
      · next single single' =>
        have apart : x.face.kind? = y.face.kind? → x.face.kind? = none := by
          intro same
          cases x <;> try rfl
          all_goals cases y <;> try cases same
          · exact (lists _ _ rfl rfl).elim
          · exact (sets _ _ rfl rfl).elim
          · exact (dicts _ _ rfl rfl).elim
          · exact (wrappers _ _ _ _ rfl rfl).elim
          · exact (arguments _ _ rfl rfl).elim
          · exact (directives _ _ rfl rfl).elim
        refine ⟨_, s', rfl, .refl, fun u _ => ?_⟩
        rw [Value.atomsEqual_iff single single' left.number]
        exact (shape_iff_face apart single single').symm
      · next both neither =>
        refine .no fun u _ same => ?_
        cases row : x.row? with
        | none =>
          cases row' : y.row? with
          | none => exact neither row row'
          | some ys => exact shape_row_ne row' row same.symm
        | some xs =>
          cases row' : y.row? with
          | none => exact shape_row_ne row row' same
          | some ys => exact both xs ys row row'

/-! ### Proper data -/

/-- A definite datum that is nested no deeper than the objects that there are, or that deferred
types may still create, have room for. -/
def Proper (s : Session) (v : Value) : Prop := ∃ n ≤ s.limit, s.Definite n v

/-- A bound on nesting holds in later sessions as well. -/
theorem limit_mono (leads : s.Leads u) (room : n ≤ s.limit) : n ≤ u.limit :=
  Nat.le_trans room (leads.extends.limit_le 0)

theorem Proper.later (h : s.Proper v) (leads : s.Leads u) : u.Proper v := by
  obtain ⟨n, room, definite⟩ := h
  exact ⟨n, limit_mono leads room, definite.later leads⟩

/-- Proper data are definite to a common nesting. -/
theorem definite_of_proper {vs : List Value} (h : ∀ v ∈ vs, s.Proper v) :
    ∃ n ≤ s.limit, ∀ v ∈ vs, s.Definite n v := by
  induction vs with
  | nil => exact ⟨0, Nat.zero_le _, fun _ hv => absurd hv List.not_mem_nil⟩
  | cons v vs ih =>
    obtain ⟨m, room, first⟩ := h v List.mem_cons_self
    obtain ⟨n, room', rest⟩ := ih fun x hx => h x (List.mem_cons_of_mem v hx)
    refine ⟨max m n, Nat.max_le.2 ⟨room, room'⟩, List.forall_mem_cons.2 ⟨?_, fun x hx => ?_⟩⟩
    · exact first.mono (Nat.le_max_left m n)
    · exact (rest x hx).mono (Nat.le_max_right m n)

theorem Proper.both (hx : s.Proper x) (hy : s.Proper y) :
    ∃ n ≤ s.limit, s.Definite n x ∧ s.Definite n y := by
  have proper : ∀ v ∈ [x, y], s.Proper v := by simp [hx, hy]
  obtain ⟨n, room, definite⟩ := definite_of_proper proper
  exact ⟨n, room, definite x (by simp), definite y (by simp)⟩

/-- Definite data are equal when they have one shape. -/
theorem Definite.equals (hx : Definite n s x) (hy : Definite n s y) (room : n ≤ s.limit) :
    Decides s (equal Deferred.supplier x y) fun u => u.shape n x = u.shape n y :=
  hx.compares hy (Nat.le_trans room ((Extends.refl s).limit_le x.depth)) room s .refl

end Session

end DirectiveSchema
