import DirectiveSchema.Proofs.Exchange
import DirectiveSchema.Proofs.Immutability
import DirectiveSchema.Proofs.Scan

/-!
Spellings of locations. A location is spelt by itself or by its tag. Directives whose locations are
spelt differently are equal, hash alike and are written alike; they apply to the same locations, and
a collection is validated alike, whichever of them is in it.
-/
namespace DirectiveSchema

open Equality

variable {α β : Type} {s s' u : Session} {supply : Supplier} {x y v : Value}
  {r r' : Ref .directive} {n : Nat}

/-- Two spellings of one location, or one datum of any other kind. -/
inductive Value.Respelt : Value → Value → Prop
  | refl (v : Value) : Respelt v v
  | tag (l : Location) : Respelt (.location l) (.text l.tag)
  | member (l : Location) : Respelt (.text l.tag) (.location l)

/-- Directives that differ at most in the spelling of their locations. -/
structure Directive.Respelt (d d' : Directive) : Prop where
  name : d.name = d'.name
  description : d.description = d'.description
  locations : List.Forall₂ Value.Respelt d.locations.items d'.locations.items
  args : d.args.items = d'.args.items

theorem Directive.Respelt.refl (d : Directive) : d.Respelt d :=
  ⟨rfl, rfl, List.forall₂_same.2 fun v _ => .refl v, rfl⟩

/-! ### Actions on spellings -/

/-- What follows decides: two actions that begin alike end alike when they go on alike. -/
theorem Action.bind_congr {act : Action α} {f g : α → Action β}
    (h : ∀ a s', act s = .ok a s' → f a s' = g a s') : (act >>= f) s = (act >>= g) s := by
  cases run : act s with
  | ok a s' => rw [bind_of_ok run, bind_of_ok run, h a s' run]
  | error f s' => rw [bind_of_error run, bind_of_error run]

/-- Two walks with one bound end alike when they do so under every bound. -/
theorem Action.boundedPairs_congr {outside : Nat} {f g : Nat → Action α}
    (h : ∀ n, f n s = g n s) : boundedPairs outside f s = boundedPairs outside g s := h _

theorem Action.mapM_congr {f : α → Action β} {as bs : List α}
    (h : List.Forall₂ (fun a b => f a = f b) as bs) : as.mapM f = bs.mapM f := by
  induction h with
  | nil => rfl
  | cons first _ ih => rw [List.mapM_cons, List.mapM_cons, first, ih]

namespace Value.Respelt

theorem isLocation (h : Respelt x y) : x.isLocation = y.isLocation := by
  cases h <;> rfl

/-- A spelling that is not known as one of a location spells nothing else. -/
theorem eq_of_unknown (h : Respelt x y) (unknown : x.isLocation = false) : x = y := by
  cases h with
  | refl => rfl
  | tag l | member l => simp [Value.isLocation, Value.text?, Location.ofTag?_tag] at unknown

theorem hash (h : Respelt x y) (n : Nat) :
    HashKey.ofWithin supply n x = HashKey.ofWithin supply n y := by
  cases h with
  | refl => rfl
  | tag | member => cases n <;> rfl

theorem label (h : Respelt x y) : Display.label supply x = Display.label supply y := by
  have spelt (l : Location) :
      Display.label supply (.location l) = Display.label supply (.text l.tag) := by
    funext s
    obtain ⟨n, -, bound⟩ := Action.boundedPairs_succ 0
      (fun n => Display.write n supply .label (.location l)) s
    obtain ⟨m, -, bound'⟩ := Action.boundedPairs_succ 0
      (fun n => Display.write n supply .label (.text l.tag)) s
    exact bound.trans bound'.symm
  cases h with
  | refl => rfl
  | tag l => exact spelt l
  | member l => exact (spelt l).symm

end Value.Respelt

namespace Equality

/-- A text is equal to whatever spells it. -/
theorem equalWithin_of_text {t : String} (text : x.text? = some t) (v : Value) (n : Nat) :
    equalWithin supply (n + 1) x v s = .ok (v.text? == some t) s := by
  have compared : (v.row?.isNone && atomsEqual x v) = (v.text? == some t) := by
    cases x <;> cases text <;> cases v <;>
      simp [Value.row?, atomsEqual, numbersEqual?, Value.text?, eq_comm]
  have atom : x.isAtom = true := by
    cases x <;> cases text <;> rfl
  rw [(equalWithin_atom atom v n).1, compared]
  rfl

theorem element_of_text {t : String} (text : x.text? = some t) (v : Value) (s : Session) :
    element (equal supply) x v s = .ok (v.text? == some t) s := by
  rw [element]
  split
  next same =>
    have spelt : (v.text? == some t) = true := by
      cases x <;> cases text <;> cases v <;> simp_all [Value.same, Value.text?]
    rw [spelt]
    rfl
  · obtain ⟨n, -, bound⟩ := Action.boundedPairs_succ x.depth
      (fun n => equalWithin supply n x v) s
    rw [equal, bound, equalWithin_of_text text]

end Equality

namespace Value.Respelt

theorem text? (h : Respelt x y) : x.text? = y.text? := by
  cases h <;> rfl

/-- Spellings of one location are equal to the same data. -/
theorem element (h : Respelt x y) (v : Value) :
    Equality.element (equal supply) x v = Equality.element (equal supply) y v := by
  have spelt {t : String} (left : x.text? = some t) (right : y.text? = some t) :
      Equality.element (equal supply) x v = Equality.element (equal supply) y v := by
    funext s
    rw [element_of_text left, element_of_text right]
  cases h with
  | refl => rfl
  | tag l => exact spelt rfl rfl
  | member l => exact spelt rfl rfl

/-- They are equal to each other as soon as they are looked at. -/
theorem element_self (h : Respelt x y) (n : Nat) (s : Session) :
    Equality.element (equalWithin supply (n + 1)) x y s = .ok true s := by
  have spelt {t : String} (left : x.text? = some t) (right : y.text? = some t) :
      Equality.element (equalWithin supply (n + 1)) x y s = .ok true s := by
    have equal : equalWithin supply (n + 1) x y s = .ok true s := by
      rw [equalWithin_of_text left, right, beq_self_eq_true]
    exact element_of_equal equal
  cases h with
  | refl =>
    rw [Equality.element, if_pos (Value.same_refl x)]
    rfl
  | tag l => exact spelt rfl rfl
  | member l => exact spelt rfl rfl

end Value.Respelt

/-! ### Directives -/

section

variable {xs ys : List Value} {d d' : Directive} {eq : Value → Value → Action Bool}

theorem Equality.element_refl (eq : Value → Value → Action Bool) (v : Value) (s : Session) :
    element eq v v s = .ok true s := by
  rw [element, if_pos (Value.same_refl v)]
  rfl

theorem Equality.rows_of_element
    (h : List.Forall₂ (fun x y => element eq x y s = .ok true s) xs ys) :
    rows eq xs ys s = .ok true s := by
  induction h with
  | nil => rfl
  | cons first _ ih =>
    rw [rows, Action.bind_of_ok first]
    exact ih

theorem Equality.rows_respelt (h : List.Forall₂ Value.Respelt xs ys) (n : Nat) (s : Session) :
    rows (equalWithin supply (n + 1)) xs ys s = .ok true s :=
  rows_of_element (h.imp fun _ _ spelt => spelt.element_self n s)

/-- Tuples are elements that are equal when their elements are. -/
theorem Equality.element_of_rows {a b : Row}
    (h : rows (equalWithin supply n) a.items b.items s = .ok true s) :
    element (equalWithin supply (n + 1)) a.value b.value s = .ok true s :=
  element_of_equal h

theorem Directive.Respelt.equal (h : d.Respelt d') (n : Nat) (s : Session) :
    directives (equalWithin supply (n + 2)) d d' s = .ok true s := by
  have args : rows (equalWithin supply (n + 1)) d.args.items d'.args.items s = .ok true s := by
    rw [h.args]
    exact rows_of_element (List.forall₂_same.2 fun v _ => element_refl _ v s)
  rw [directives, h.name, h.description, Action.bind_of_ok (element_refl _ _ s)]
  refine (Action.bind_of_ok (element_refl _ _ s)).trans ?_
  refine (Action.bind_of_ok (element_of_rows (rows_respelt h.locations n s))).trans ?_
  exact element_of_rows args

theorem Directive.Respelt.shown (h : d.Respelt d') :
    Display.directiveLiteral (Display.label supply) d =
      Display.directiveLiteral (Display.label supply) d' := by
  rw [Display.directiveLiteral, h.name, Action.mapM_congr (h.locations.imp fun _ _ => (·.label))]
  rfl

end

namespace Directives

theorem equal_of_respelt (h : (s.directive r).Respelt (s.directive r'))
    (live : r.index < s.directives.size) :
    equal supply (.directive r) (.directive r') s = .ok true s := by
  obtain ⟨m, enough, bound⟩ := Action.boundedPairs_succ (Value.depth (.directive r))
    (fun n => equalWithin supply n (.directive r) (.directive r')) s
  obtain ⟨n, rfl⟩ : ∃ n, m = n + 2 := ⟨m - 2, by have := HashKey.two_le_reach live; omega⟩
  rw [equal, bound]
  simp only [equalWithin]
  split
  · rfl
  · exact h.equal n s

theorem hash_of_respelt (h : (s.directive r).Respelt (s.directive r')) :
    HashKey.of supply (.directive r) s = HashKey.of supply (.directive r') s := by
  have row (n : Nat) : HashKey.ofWithin supply n (s.directive r).locations.value =
      HashKey.ofWithin supply n (s.directive r').locations.value := by
    cases n with
    | zero => rfl
    | succ n =>
      exact congrArg (· >>= _) (Action.mapM_congr (h.locations.imp fun _ _ spelt => spelt.hash n))
  refine Action.boundedPairs_congr fun n => ?_
  cases n with
  | zero => rfl
  | succ n => simp only [HashKey.ofWithin, Action.get_bind, h.name, row]

theorem label_of_respelt (h : (s.directive r).Respelt (s.directive r')) :
    Display.label supply (.directive r) s = Display.label supply (.directive r') s := by
  refine Action.boundedPairs_congr fun n => ?_
  cases n with
  | zero => rfl
  | succ n => simp only [Display.write, Action.get_bind, h.name]

theorem literal_of_respelt (h : (s.directive r).Respelt (s.directive r')) :
    Display.literal supply (.directive r) s = Display.literal supply (.directive r') s := by
  rw [Display.literal, Action.get_bind, h.shown]
  rfl

theorem appliesTo_of_respelt (h : (s.directive r).Respelt (s.directive r')) (v : Value) :
    appliesTo supply r v s = appliesTo supply r' v s := by
  have contained {xs ys : List Value} (h : List.Forall₂ Value.Respelt xs ys) :
      contains (equal supply) xs v = contains (equal supply) ys v := by
    induction h with
    | nil => rfl
    | cons first _ ih => rw [contains, contains, first.element, ih]
  rw [appliesTo, appliesTo, Action.get_bind, Action.get_bind, member, member,
    contained h.locations]

/-- Lists are equal when they are so element by element. -/
theorem equalWithin_of_rows {l l' : Ref .list} (size : (s.list l).length = (s.list l').length)
    (h : rows (equalWithin supply n) (s.list l) (s.list l') s = .ok true s) :
    equalWithin supply (n + 1) (.list l) (.list l') s = .ok true s := by
  show (if (s.list l).length = (s.list l').length then
    rows (equalWithin supply n) (s.list l) (s.list l') else pure false : Action Bool) s = _
  rw [if_pos size, h]

/-- Configurations of one name, description and arguments are equal. -/
theorem equal_configs {a b : Nat} {name description : Value} {l l' k k' : Ref .list}
    (locations : List.Forall₂ Value.Respelt (s.list l) (s.list l'))
    (args : s.list k = s.list k') (room : 2 ≤ s.reach) :
    equal supply (.config a name (.list l) (.list k) description)
      (.config b name (.list l') (.list k') description) s = .ok true s := by
  obtain ⟨m, enough, bound⟩ := Action.boundedPairs_succ
    (Value.depth (.config a name (.list l) (.list k) description))
    (fun n => equalWithin supply n (.config a name (.list l) (.list k) description)
      (.config b name (.list l') (.list k') description)) s
  obtain ⟨n, rfl⟩ : ∃ n, m = n + 2 := ⟨m - 2, by omega⟩
  have first : equalWithin supply (n + 2) (.list l) (.list l') s = .ok true s :=
    equalWithin_of_rows locations.length_eq (rows_respelt locations n s)
  have second : equalWithin supply (n + 2) (.list k) (.list k') s = .ok true s := by
    refine equalWithin_of_rows (congrArg _ args) ?_
    rw [args]
    exact rows_of_element (List.forall₂_same.2 fun v _ => element_refl _ v s)
  rw [equal, bound]
  refine rows_of_element (.cons (element_refl _ _ s) (.cons (element_of_equal first) ?_))
  exact .cons (element_of_equal second) (.cons (element_refl _ _ s) .nil)

/-- A configuration has lists of its own. -/
theorem toConfig_ok (r : Ref .directive) (s : Session) : ∃ tag l k t,
    toConfig r s = .ok (.config tag (s.directive r).name (.list l) (.list k)
      (s.directive r).description) t ∧
    t.list l = (s.directive r).locations.items ∧ t.list k = (s.directive r).args.items ∧
    l.index < t.lists.size ∧ k.index < t.lists.size ∧ t.directives = s.directives ∧
    ∀ {p : Ref .list}, p.index < s.lists.size → t.list p = s.list p := by
  have first : s.lists.size < (s.lists.add (s.directive r).locations.items).size := by
    rw [Arena.size_add]
    exact Nat.lt_succ_self _
  refine ⟨s.nextTag, ⟨s.lists.size⟩, ⟨(s.lists.add (s.directive r).locations.items).size⟩, { s with
    lists := (s.lists.add (s.directive r).locations.items).add (s.directive r).args.items
    nextTag := s.nextTag + 1 }, rfl, ?_, ?_, ?_, ?_, rfl, ?_⟩
  · exact (Arena.get_add_of_lt _ _ first).trans (Arena.get_add_self _ _)
  · exact Arena.get_add_self _ _
  · exact first.trans (Nat.lt_of_lt_of_eq (Nat.lt_succ_self _) (Arena.size_add _ _).symm)
  · exact Nat.lt_of_lt_of_eq (Nat.lt_succ_self _) (Arena.size_add _ _).symm
  · intro p live
    exact (Arena.get_add_of_lt _ _ (live.trans first)).trans (Arena.get_add_of_lt _ _ live)

/-- The configurations that are made one after the other are equal. -/
theorem toConfig_of_respelt (h : (s.directive r).Respelt (s.directive r'))
    (live : r.index < s.directives.size) : ∃ c c' t u,
      toConfig r s = .ok c t ∧ toConfig r' t = .ok c' u ∧ equal supply c c' u = .ok true u := by
  obtain ⟨a, l, k, t, first, locations, args, hl, hk, same, -⟩ := toConfig_ok r s
  obtain ⟨b, l', k', u, second, locations', args', -, -, same', kept⟩ := toConfig_ok r' t
  have cell : t.directive r' = s.directive r' := by rw [Session.directive, same]; rfl
  rw [cell] at second locations' args'
  refine ⟨_, _, t, u, first, second, ?_⟩
  rw [h.name, h.description]
  refine equal_configs ?_ ?_ ?_
  · rw [kept hl, locations, locations']
    exact h.locations
  · rw [kept hk, args, args', h.args]
  · exact HashKey.two_le_reach (r := r) (by rw [same', same]; exact live)

end Directives

/-! ### Construction -/

/-- Lists, or tuples, of the same locations in any spelling. -/
inductive Session.Relists (s : Session) : Value → Value → Prop
  | list {l l' : Ref .list} (h : List.Forall₂ Value.Respelt (s.list l) (s.list l')) :
    s.Relists (.list l) (.list l')
  | tuple {a b : Nat} {xs ys : List Value} (h : List.Forall₂ Value.Respelt xs ys) :
    s.Relists (.tuple a xs) (.tuple b ys)

namespace Directives

theorem newRow_of_respelt {xs ys : List Value} (h : List.Forall₂ Value.Respelt xs ys)
    (s : Session) : ∃ tag u, Action.newRow xs s = .ok ⟨tag, xs⟩ u ∧
      Action.newRow ys s = .ok ⟨tag, ys⟩ u := by
  cases h with
  | nil => exact ⟨0, s, rfl, rfl⟩
  | cons => exact ⟨s.nextTag, _, rfl, rfl⟩

theorem rowOf_of_relists (h : s.Relists x y) (tag : Nat) : ∃ a b u,
    rowOf x { s with nextTag := tag } = .ok a u ∧ rowOf y { s with nextTag := tag } = .ok b u ∧
      List.Forall₂ Value.Respelt a.items b.items := by
  cases h with
  | list spelt =>
    obtain ⟨new, u, left, right⟩ := newRow_of_respelt spelt { s with nextTag := tag }
    exact ⟨_, _, u, left, right, spelt⟩
  | tuple spelt => exact ⟨⟨_, _⟩, ⟨_, _⟩, _, rfl, rfl, spelt⟩

/-- Directives that are built from one session: both are refused for one fault, or they get one
place, are noted alike and differ in the spelling of their locations only. -/
def BuiltAlike (s : Session) (f g : Action (Ref .directive)) : Prop :=
  (∃ e u, f s = .error e u ∧ g s = .error e u) ∨
    ∃ r u u', f s = .ok r u ∧ g s = .ok r u' ∧ (u.directive r).Respelt (u'.directive r) ∧
      u' = { u with directives := u'.directives }

theorem BuiltAlike.bind {act : Action α} {f g : α → Action (Ref .directive)}
    (h : ∀ a u, act s = .ok a u → BuiltAlike u (f a) (g a)) :
    BuiltAlike s (act >>= f) (act >>= g) := by
  cases run : act s with
  | error e u => exact .inl ⟨e, u, Action.bind_of_error run, Action.bind_of_error run⟩
  | ok a u =>
    rw [BuiltAlike, Action.bind_of_ok run, Action.bind_of_ok run]
    exact h a u run

theorem create_of_relists {name locations locations' args description : Value}
    (h : s.Relists locations locations') :
    BuiltAlike s (create supply name locations args description)
      (create supply name locations' args description) := by
  have listed : isLocationsList locations = true ∧ isLocationsList locations' = true := by
    cases h <;> exact ⟨rfl, rfl⟩
  refine .bind fun truth s₁ named => ?_
  obtain ⟨b, decided⟩ := isTruthy_ok name s
  cases decided.symm.trans named
  cases truth with
  | false => exact .inl ⟨_, s, rfl, rfl⟩
  | true =>
    refine .bind fun checked s₁ asserted => ?_
    obtain ⟨-, rfl⟩ := assertName_ok asserted
    simp only [listed]
    refine .bind fun args' s₂ argued => ?_
    obtain ⟨-, tag, rfl⟩ := argsOf_ok argued
    obtain ⟨a, b, u, left, right, spelt⟩ := rowOf_of_relists h tag
    rw [BuiltAlike, Action.bind_of_ok left, Action.bind_of_ok right,
      Action.mapM_congr (spelt.imp fun _ _ => (·.label))]
    refine BuiltAlike.bind fun shownName s₃ _ => BuiltAlike.bind fun shownLocations s₄ _ => ?_
    refine .inr ⟨⟨s₄.directives.size⟩, _, _, rfl, rfl, ?_, rfl⟩
    have cell (c : Directive) : (s₄.directives.add c).get s₄.directives.size = c :=
      Arena.get_add_self _ c
    show Directive.Respelt (Arena.get _ _) (Arena.get _ _)
    rw [cell, cell]
    exact ⟨rfl, rfl, spelt, rfl⟩

end Directives

/-! ### Validation -/

namespace Validation

/-- Entries of which one stands for the other: a directive may do so for one whose locations are
spelt differently. -/
def Replaces (s : Session) (v v' : Value) : Prop :=
  v = v' ∨ ∃ r r', v = .directive r ∧ v' = .directive r' ∧ r.index < s.directives.size ∧
    r'.index < s.directives.size ∧ (s.directive r).Respelt (s.directive r')

theorem Replaces.later {v v' : Value} (h : Replaces s v v') (extension : s.Extends u) :
    Replaces u v v' := by
  refine h.imp_right fun ⟨r, r', left, right, live, live', spelt⟩ => ?_
  refine ⟨r, r', left, right, Nat.lt_of_lt_of_le live extension.directives.size,
    Nat.lt_of_lt_of_le live' extension.directives.size, ?_⟩
  rwa [extension.directive live, extension.directive live']

theorem checkLocations_respelt {xs ys : List Value} (h : List.Forall₂ Value.Respelt xs ys)
    (name : String) : checkLocations supply name xs = checkLocations supply name ys := by
  have empty : xs.isEmpty = ys.isEmpty := by cases h <;> rfl
  have warned : warnLocations supply name xs = warnLocations supply name ys := by
    clear empty
    induction h with
    | nil => rfl
    | @cons x y xs ys first _ ih =>
      rw [warnLocations, warnLocations, ih, ← first.isLocation]
      cases known : x.isLocation with
      | true => rfl
      | false => rw [first.eq_of_unknown known]
  rw [checkLocations, checkLocations, empty, warned]

section

variable {rest rest' : List Value}

theorem afterDirective_respelt {d d' : Directive} (h : d.Respelt d')
    (same : ∀ u, s.Leads u → ∀ seen, checkDirectives Deferred.supplier seen rest u =
      checkDirectives Deferred.supplier seen rest' u) (seen : List String) (name : String) :
    afterDirective Deferred.supplier d seen rest name s =
      afterDirective Deferred.supplier d' seen rest' name s := by
  rw [afterDirective, afterDirective, checkLocations_respelt h.locations, h.args]
  refine Action.bind_congr fun _ s₁ warned => Action.bind_congr fun _ s₂ checked => same s₂ ?_ _
  have leads₁ : s.Leads s₁ := (leads.checkLocations [] _ _).of_ok warned
  exact leads₁.trans ((leads.checkArguments [] _ _ _).of_ok checked)

theorem checkDirectives_respelt (h : ∀ u, s.Leads u → (u.directive r).Respelt (u.directive r'))
    (same : ∀ u, s.Leads u → ∀ seen, checkDirectives Deferred.supplier seen rest u =
      checkDirectives Deferred.supplier seen rest' u) (seen : List String) :
    checkDirectives Deferred.supplier seen (.directive r :: rest) s =
      checkDirectives Deferred.supplier seen (.directive r' :: rest') s := by
  rw [checkDirectives_directive, checkDirectives_directive]
  have shown : Display.literal Deferred.supplier (.directive r) s =
      Display.literal Deferred.supplier (.directive r') s :=
    Directives.literal_of_respelt (h s .refl)
  cases run : Display.literal Deferred.supplier (.directive r) s with
  | error f u => rw [Action.bind_of_error run, Action.bind_of_error (shown.symm.trans run)]
  | ok text u =>
    have leads₁ : s.Leads u := (leads.literal [] _).of_ok run
    have spelt := h u leads₁
    rw [Action.bind_of_ok run, Action.bind_of_ok (shown.symm.trans run), Action.get_bind,
      Action.get_bind, spelt.name]
    split
    · rfl
    · exact afterDirective_respelt spelt (fun w since => same w (leads₁.trans since)) seen _

end

/-- The entries of a collection may be replaced by directives whose locations are spelt
differently. -/
theorem checkDirectives_of_replaces {vs vs' : List Value} (h : List.Forall₂ (Replaces s) vs vs')
    (seen : List String) : checkDirectives Deferred.supplier seen vs s =
      checkDirectives Deferred.supplier seen vs' s := by
  induction vs generalizing s vs' seen with
  | nil =>
    cases h
    rfl
  | cons v vs ih =>
    obtain ⟨v', vs', first, rest, rfl⟩ := List.forall₂_cons_left_iff.1 h
    have later : ∀ u, s.Leads u → ∀ seen, checkDirectives Deferred.supplier seen vs u =
        checkDirectives Deferred.supplier seen vs' u := fun u since seen =>
      ih (rest.imp fun _ _ replaces => replaces.later since.extends) seen
    rcases first with rfl | ⟨r, r', rfl, rfl, live, live', spelt⟩
    · cases v with
      | directive r => exact checkDirectives_respelt (fun u _ => .refl _) later seen
      | _ => rfl
    · refine checkDirectives_respelt (fun u since => ?_) later seen
      rwa [since.extends.directive live, since.extends.directive live']

end Validation

/-! ### Interchangeable directives -/

/-- Nothing that is observed tells two directives apart: they are equal, and so are their
configurations; they hash alike, are written alike and apply to the same data; and collections of
which one has the one directive wherever the other has the other are validated alike, with the same
notices. -/
structure Directives.Interchangeable (s : Session) (r r' : Ref .directive) : Prop where
  equal : equal Deferred.supplier (.directive r) (.directive r') s = .ok true s
  hash : HashKey.of Deferred.supplier (.directive r) s =
    HashKey.of Deferred.supplier (.directive r') s
  label : Display.label Deferred.supplier (.directive r) s =
    Display.label Deferred.supplier (.directive r') s
  literal : Display.literal Deferred.supplier (.directive r) s =
    Display.literal Deferred.supplier (.directive r') s
  appliesTo (v : Value) : appliesTo Deferred.supplier r v s = appliesTo Deferred.supplier r' v s
  config : ∃ c c' t u, toConfig r s = .ok c t ∧ toConfig r' t = .ok c' u ∧
    Equality.equal Deferred.supplier c c' u = .ok true u
  validate {collection collection' : Value} {vs vs' : List Value} :
    Container.elements collection s = .ok vs s → Container.elements collection' s = .ok vs' s →
      List.Forall₂ (fun v v' => v = v' ∨ v = .directive r ∧ v' = .directive r') vs vs' →
        Validation.validate Deferred.supplier collection s =
          Validation.validate Deferred.supplier collection' s

/-- How locations are spelt makes no difference: directives that are built with locations and their
tags in each other's place are noted alike, and then nothing tells them apart. -/
theorem Directives.spelling_makes_no_difference :
    (∀ {s : Session} {r r' : Ref .directive}, r.index < s.directives.size →
      r'.index < s.directives.size → (s.directive r).Respelt (s.directive r') →
        Interchangeable s r r') ∧
    ∀ {s : Session} {locations locations' : Value}, s.Relists locations locations' →
      ∀ name args description : Value,
        BuiltAlike s (create Deferred.supplier name locations args description)
          (create Deferred.supplier name locations' args description) := by
  constructor
  · intro s r r' live live' spelt
    refine {
      equal := equal_of_respelt spelt live
      hash := hash_of_respelt spelt
      label := label_of_respelt spelt
      literal := literal_of_respelt spelt
      appliesTo := appliesTo_of_respelt spelt
      config := toConfig_of_respelt spelt live
      validate := ?_ }
    intro collection collection' vs vs' listed listed' replaced
    have replaces : List.Forall₂ (Validation.Replaces s) vs vs' := by
      refine replaced.imp fun v v' => Or.imp_right fun ⟨left, right⟩ => ?_
      exact ⟨r, r', left, right, live, live', spelt⟩
    rw [Validation.validate, Validation.validate, Action.bind_of_ok listed,
      Action.bind_of_ok listed']
    exact Validation.checkDirectives_of_replaces replaces []
  · intro s locations locations' relisted name args description
    exact create_of_relists relisted

namespace Directives

open BuiltIn

/-- Locations and tags, a text that is neither, and a number. -/
def mixedLocations : List Value :=
  [.location .field, .text "QUERY", .text "NOWHERE", .int 3, .location .field]

/-- The same, with two of them spelt differently. -/
def respeltLocations : List Value :=
  [.text "FIELD", .location .query, .text "NOWHERE", .int 3, .location .field]

theorem mixedLocations_respelt : List.Forall₂ Value.Respelt mixedLocations respeltLocations :=
  .cons (.tag .field) (.cons (.member .query) (List.forall₂_same.2 fun v _ => .refl v))

/-- The built-in session with two more directives. -/
def respeltSession : Session := { session with
  directives := (session.directives.add
      { includeDirective with locations := ⟨7, mixedLocations⟩ }).add
    { includeDirective with locations := ⟨8, respeltLocations⟩ }
  nextTag := 9 }

theorem mixed_spellings_make_no_difference :
    (respeltSession.directive ⟨2⟩).Respelt (respeltSession.directive ⟨3⟩) ∧
      Interchangeable respeltSession ⟨2⟩ ⟨3⟩ ∧
      session.Relists (.tuple 7 mixedLocations) (.tuple 8 respeltLocations) ∧
      BuiltAlike session
        (create Deferred.supplier (.text "d") (.tuple 7 mixedLocations) .null .null)
        (create Deferred.supplier (.text "d") (.tuple 8 respeltLocations) .null .null) := by
  have spelt : (respeltSession.directive ⟨2⟩).Respelt (respeltSession.directive ⟨3⟩) :=
    ⟨rfl, rfl, mixedLocations_respelt, rfl⟩
  have relisted : session.Relists (.tuple 7 mixedLocations) (.tuple 8 respeltLocations) :=
    .tuple mixedLocations_respelt
  refine ⟨spelt, ?_, relisted, ?_⟩
  · exact spelling_makes_no_difference.1 (by decide) (by decide) spelt
  · exact spelling_makes_no_difference.2 relisted (.text "d") .null .null

end Directives

end DirectiveSchema
