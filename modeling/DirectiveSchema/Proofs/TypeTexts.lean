import DirectiveSchema.Proofs.Unwrapping

/-!
The texts of types. Lists are written in brackets and non-null types with a mark behind, which can
be read back since neither occurs in a valid name; the literal of a type names the classes of its
wrappers from the outside. So the text of a type tells how it is wrapped and the name of what is in
it, and when names tell the types that they belong to, it tells the type.
-/
namespace DirectiveSchema

variable {s s' u : Session} {a b t v x y : Value} {w : Wrapper} {ws ws' : List Wrapper}
  {W : Census} {m n : Nat} {name name' : String} {supply : Supplier}

/-! ### What texts tell -/

theorem Name.isPart_of_mem (valid : isValid name = true) {c : Char} (among : c ∈ name.toList) :
    isPart c = true := by
  have spelled := (isValid_iff_spells name).1 valid
  cases chars : name.toList with
  | nil =>
    rw [chars] at among
    cases among
  | cons d ds =>
    rw [chars] at spelled among
    cases spelled with
    | intro start parts =>
      rcases List.mem_cons.1 among with rfl | among
      · rw [isPart, start, Bool.true_or]
      · exact parts c among

namespace Types

/-- The label of a type: a list is put into brackets, and a non-null type has a mark behind it. -/
def labelOf : List Wrapper → String → String
  | [], name => name
  | .nonNull :: ws, name => labelOf ws name ++ "!"
  | _ :: ws, name => "[" ++ labelOf ws name ++ "]"

/-- The literal of a type, given that of the type in it. -/
def literalOf : List Wrapper → String → String
  | [], shown => shown
  | w :: ws, shown => w.className ++ "(" ++ literalOf ws shown ++ ")"

theorem getLast?_labelOf : (labelOf (w :: ws) name).toList.getLast? =
    some (if w = .nonNull then '!' else ']') := by
  cases w <;> simp only [labelOf, String.toList_append, List.getLast?_append] <;> rfl

/-- A valid name does not end like the label of a wrapper. -/
theorem labelOf_ne_name (valid : Name.isValid name = true) : labelOf (w :: ws) name' ≠ name := by
  intro same
  have last : (labelOf (w :: ws) name').toList.getLast? = _ := getLast?_labelOf
  rw [same] at last
  have part := Name.isPart_of_mem valid (List.mem_of_getLast? last)
  split at part <;> exact absurd part (by decide)

/-- The label of a type tells how the type is wrapped, and the name that is in it. -/
theorem labelOf_inj (plain : .plain ∉ ws) (plain' : .plain ∉ ws') (valid : Name.isValid name = true)
    (valid' : Name.isValid name' = true) (same : labelOf ws name = labelOf ws' name') :
    ws = ws' ∧ name = name' := by
  induction ws generalizing ws' with
  | nil =>
    cases ws' with
    | nil => exact ⟨rfl, same⟩
    | cons => exact absurd same.symm (labelOf_ne_name valid)
  | cons w ws ih =>
    cases ws' with
    | nil => exact absurd same (labelOf_ne_name valid')
    | cons w' ws' =>
      simp only [List.mem_cons, not_or] at plain plain'
      obtain ⟨first, plain⟩ := plain
      obtain ⟨first', plain'⟩ := plain'
      have inner : w = w' ∧ labelOf ws name = labelOf ws' name' := by
        have ends := congrArg (fun text => text.toList.getLast?) same
        simp only [getLast?_labelOf, Option.some.injEq] at ends
        cases w <;> cases w'
        case plain.plain | plain.list | plain.nonNull | list.plain | nonNull.plain => contradiction
        case list.nonNull | nonNull.list => exact absurd ends (by decide)
        case list.list => exact ⟨rfl, by simpa [labelOf] using same⟩
        case nonNull.nonNull => exact ⟨rfl, (String.append_left_inj "!").1 same⟩
      obtain ⟨rfl, rest⟩ := inner
      obtain ⟨rfl, named⟩ := ih plain plain' rest
      exact ⟨rfl, named⟩

/-- The part of a literal before its first bracket and the part in it can be told apart. -/
theorem bracketed_inj {k k' r r' : String} (free : '(' ∉ k.toList) (free' : '(' ∉ k'.toList)
    (same : k ++ "(" ++ r ++ ")" = k' ++ "(" ++ r' ++ ")") : k = k' ∧ r = r' := by
  have front {k r : String} (free : '(' ∉ k.toList) :
      (k ++ "(" ++ r ++ ")").toList.takeWhile (· != '(') = k.toList := by
    have before : ∀ c ∈ k.toList, (c != '(') = true := fun c among =>
      bne_iff_ne.2 fun equal => free (equal ▸ among)
    rw [String.append_assoc, String.append_assoc, String.toList_append,
      List.takeWhile_append_of_pos before]
    simp
  obtain rfl : k = k' := String.toList_inj.1 <| by rw [← front free, same, front free']
  exact ⟨rfl, by simpa using same⟩

/-- The literal of a type tells how the type is wrapped, and the name that is in it. -/
theorem literalOf_inj (named : v.isType = true) (named' : x.isType = true)
    (single : v.isWrapper = false) (single' : x.isWrapper = false)
    (same : literalOf ws (v.className ++ "(" ++ name ++ ")") =
      literalOf ws' (x.className ++ "(" ++ name' ++ ")")) : ws = ws' ∧ name = name' := by
  have free (w : Wrapper) : '(' ∉ w.className.toList := by cases w <;> decide
  have free' {v : Value} (named : v.isType = true) (single : v.isWrapper = false) :
      '(' ∉ v.className.toList ∧ ∀ w : Wrapper, w.className ≠ v.className := by
    have shown : v.className = "NamedType" ∨ v.className = "ScalarType" := by
      cases v with
      | named => exact .inl rfl
      | scalar => exact .inr rfl
      | wrapper => cases single
      | _ => cases named
    rcases shown with shown | shown <;> rw [shown] <;>
      exact ⟨by decide, fun w => by cases w <;> decide⟩
  obtain ⟨free₁, apart₁⟩ := free' named single
  obtain ⟨free₂, apart₂⟩ := free' named' single'
  induction ws generalizing ws' with
  | nil =>
    cases ws' with
    | nil => exact ⟨rfl, (bracketed_inj free₁ free₂ same).2⟩
    | cons w' ws' => exact absurd (bracketed_inj free₁ (free w') same).1.symm (apart₁ w')
  | cons w ws ih =>
    cases ws' with
    | nil => exact absurd (bracketed_inj (free w) free₂ same).1 (apart₂ w)
    | cons w' ws' =>
      obtain ⟨classes, rest⟩ := bracketed_inj (free w) (free w') same
      obtain ⟨rfl, equal⟩ := ih rest
      obtain rfl : w = w' := by
        revert classes
        cases w <;> cases w' <;> decide
      exact ⟨rfl, equal⟩

end Types

/-! ### What is written -/

/-- What a named type is named by. -/
def Session.nameOf? (s : Session) : Value → Option Value
  | .named r => (s.namedType r).name
  | .scalar r => (s.scalar r).name
  | _ => none

/-- The text of the name of a named type. -/
def Session.nameText? (s : Session) (x : Value) : Option String := (s.nameOf? x).bind Value.text?

namespace Session

theorem nameText?_eq_some : s.nameText? x = some name ↔
    ∃ v, s.nameOf? x = some v ∧ v.text? = some name := Option.bind_eq_some_iff

theorem isType_of_nameOf? (named : s.nameOf? x = some v) :
    x.isType = true ∧ x.isWrapper = false := by
  cases x with
  | named | scalar => exact ⟨rfl, rfl⟩
  | _ => cases named

theorem isType_of_nameText? (named : s.nameText? x = some name) :
    x.isType = true ∧ x.isWrapper = false := by
  obtain ⟨v, given, -⟩ := nameText?_eq_some.1 named
  exact isType_of_nameOf? given

/-- A named type keeps its name. -/
theorem Extends.nameOf? (h : s.Extends u) (named : s.nameOf? x = some v) :
    u.nameOf? x = some v := by
  cases x with
  | named r =>
    have live : r.index < s.namedTypes.size := by
      by_contra beyond
      rw [Session.nameOf?, namedType, Arena.get_of_le (Nat.le_of_not_lt beyond)] at named
      cases named
    have same : s.namedType r = u.namedType r := h.namedTypes.cell live
    rwa [Session.nameOf?, ← same]
  | scalar r =>
    have live : r.index < s.scalars.size := by
      by_contra beyond
      rw [Session.nameOf?, scalar, Arena.get_of_le (Nat.le_of_not_lt beyond)] at named
      cases named
    have same : s.scalar r = u.scalar r := h.scalars.cell live
    rwa [Session.nameOf?, ← same]
  | _ => cases named

theorem Extends.nameText? (h : s.Extends u) (named : s.nameText? x = some name) :
    u.nameText? x = some name := by
  obtain ⟨v, given, text⟩ := nameText?_eq_some.1 named
  exact nameText?_eq_some.2 ⟨v, h.nameOf? given, text⟩

end Session

/-- What is unfolded to a type is a type. -/
theorem Types.Unfolds.isType (h : Unfolds supply s v ws x s') (type : x.isType = true) :
    v.isType = true := by
  cases h with
  | leaf => exact type
  | step => rfl

namespace Display

theorem nameLabel_of_text (text : v.text? = some name) (s : Session) :
    nameLabel v s = .ok name s := by
  rw [nameLabel, text]
  rfl

/-- A type is no tuple that fills more than one place. -/
theorem fill_of_isType (type : v.isType = true) (label : Value → Action String) :
    fill label v = label v := by
  cases v with
  | tuple | config => cases type
  | _ => rfl

/-- The label of a named type is its name. -/
theorem write_name (named : s.nameText? x = some name) :
    write (n + 1) supply .label x s = .ok name s := by
  obtain ⟨v, given, text⟩ := Session.nameText?_eq_some.1 named
  have shown : write (n + 1) supply .label x s = nameLabel (typeName (s.nameOf? x)) s := by
    cases x <;> first | rfl | cases given
  rw [shown, given]
  exact nameLabel_of_text text s

/-- The label of a named type, as a datum, is what the type is named by. -/
theorem labelValue_name (named : s.nameOf? x = some v) (text : v.text? = some name) :
    labelValue supply x s = .ok v s := by
  have shown : labelValue supply x s =
      (if (typeName (s.nameOf? x)).text?.isSome then pure (typeName (s.nameOf? x)) else
        throw (.labelNotText (typeName (s.nameOf? x)).className) : Action Value) s := by
    cases x <;> first | rfl | cases named
  rw [shown, named, typeName, Option.getD_some, text]
  rfl

/-- A type has the label that its wrappers and the name in them make up. -/
theorem write_label (h : Types.Unfolds supply s a ws x s') (plain : .plain ∉ ws)
    (named : s'.nameText? x = some name) :
    write (n + 1 + ws.length) supply .label a s = .ok (Types.labelOf ws name) s' := by
  induction h with
  | leaf => exact write_name named
  | @step s _ _ w _ _ _ ws wrapped rest ih =>
    simp only [List.mem_cons, not_or] at plain
    have inner := ih plain.2 named
    have filled := fill_of_isType (rest.isType (Session.isType_of_nameText? named).1)
      (write (n + 1 + ws.length) supply .label)
    rw [List.length_cons, ← Nat.add_assoc, write, Action.bind_of_ok wrapped]
    cases w with
    | plain => exact absurd rfl plain.1
    | list | nonNull =>
      simp only [filled]
      rw [Action.bind_of_ok inner]
      rfl

/-- The label of a name that is a text. -/
theorem write_text (text : v.text? = some name) (s : Session) :
    write (n + 1) supply .label v s = .ok name s := by
  cases v with
  | text | location =>
    cases text
    rfl
  | _ => cases text

/-- The literal of a named type is made of its class and its name. -/
theorem write_named (named : s.nameText? x = some name) :
    write (n + 1 + 1) supply .literal x s = .ok (x.className ++ "(" ++ name ++ ")") s := by
  obtain ⟨v, given, text⟩ := Session.nameText?_eq_some.1 named
  have shown : write (n + 1 + 1) supply .literal x s = (do
      return x.className ++ "(" ++ (← write (n + 1) supply .label (typeName (s.nameOf? x))) ++ ")" :
        Action String) s := by
    cases x <;> first | rfl | cases given
  rw [shown, given, typeName, Option.getD_some, Action.bind_of_ok (write_text text s)]
  rfl

theorem write_literal (h : Types.Unfolds supply s a ws x s')
    (named : s'.nameText? x = some name) :
    write (n + 1 + 1 + ws.length) supply .literal a s =
      .ok (Types.literalOf ws (x.className ++ "(" ++ name ++ ")")) s' := by
  induction h with
  | leaf => exact write_named named
  | @step s _ _ w _ _ _ ws wrapped rest ih =>
    rw [List.length_cons, ← Nat.add_assoc, write, Action.bind_of_ok wrapped]
    cases w <;> simp only [Action.bind_of_ok (ih named)] <;> rfl

end Display

/-! ### Chains that are followed again -/

namespace Types.Unfolds

theorem unique {s₁ s₂ : Session} (h : Unfolds supply s a ws x s₁)
    (h' : Unfolds supply s a ws' y s₂) : ws = ws' ∧ x = y ∧ s₁ = s₂ := by
  induction h generalizing ws' with
  | leaf single =>
    cases h' with
    | leaf => exact ⟨rfl, rfl, rfl⟩
    | step => cases single
  | step wrapped _ ih =>
    cases h' with
    | leaf single => cases single
    | step wrapped' rest' =>
      cases wrapped.symm.trans wrapped'
      obtain ⟨rfl, rfl, rfl⟩ := ih rest'
      exact ⟨rfl, rfl, rfl⟩

theorem leads (h : Unfolds Deferred.supplier s a ws x s') : s.Leads s' := by
  induction h with
  | leaf => exact .refl
  | step wrapped _ ih => exact ((Session.wrapped_keeps _ _).of_ok wrapped).trans ih

/-- The type of a wrapper that was asked for is there from then on. -/
theorem wrapped_again {r : Ref .wrapper} (run : wrapped Deferred.supplier w r s = .ok t s')
    (type : t.isType = true) (extension : s'.Extends u) :
    wrapped Deferred.supplier w r u = .ok t u := by
  have known : t.isNull = false := by cases t <;> first | rfl | cases type
  obtain ⟨c, cell, resolved⟩ := Snapshot.wrapped_kept run known
  obtain ⟨c', read, same⟩ := Option.map_eq_some_iff.1 cell
  cases same
  obtain ⟨live, rfl⟩ := Arena.get?_eq_some read
  exact wrapped_of_resolved ((extension.wrapper live).resolved resolved)

/-- A chain that was followed to a type is followed again without any effect. -/
theorem again (h : Unfolds Deferred.supplier s a ws x s') (type : x.isType = true)
    (extension : s'.Extends u) : Unfolds Deferred.supplier u a ws x u := by
  induction h with
  | leaf single => exact .leaf single
  | step wrapped rest ih =>
    have later := rest.leads.extends.trans extension
    exact .step (wrapped_again wrapped (rest.isType type) later) (ih type extension)

end Types.Unfolds

/-! ### Types that are spelled -/

/-- From one session to another, a type is spelled: it is unfolded to lists and non-null types, and
to a type in them whose name is valid. -/
structure Types.Spells (s : Session) (a : Value) (ws : List Wrapper) (x : Value) (name : String)
    (s' : Session) : Prop where
  unfolds : Unfolds Deferred.supplier s a ws x s'
  plain : .plain ∉ ws
  named : s'.nameText? x = some name
  valid : Name.isValid name = true

namespace Types.Spells

theorem single (h : Spells s a ws x name s') : x.isType = true ∧ x.isWrapper = false :=
  Session.isType_of_nameText? h.named

theorem isType (h : Spells s a ws x name s') : a.isType = true := h.unfolds.isType h.single.1

theorem leads (h : Spells s a ws x name s') : s.Leads s' := h.unfolds.leads

/-- A type that was spelled is spelled alike from then on, without any effect. -/
theorem again (h : Spells s a ws x name s') (extension : s'.Extends u) :
    Spells u a ws x name u where
  unfolds := h.unfolds.again h.single.1 extension
  plain := h.plain
  named := extension.nameText? h.named
  valid := h.valid

/-- What a wrapper was asked for is spelled by the rest. -/
theorem under {r : Ref .wrapper} {u' : Session} (h : Spells u (.wrapper w r) ws x name u')
    (asked : wrapped Deferred.supplier w r s = .ok t s') (type : t.isType = true)
    (extension : s'.Extends u) : ∃ ws₁, ws = w :: ws₁ ∧ Spells u t ws₁ x name u' := by
  cases h.unfolds with
  | leaf single => cases single
  | step wrapped rest =>
    cases (Unfolds.wrapped_again asked type extension).symm.trans wrapped
    exact ⟨_, rfl, rest, fun among => h.plain (List.mem_cons_of_mem _ among), h.named, h.valid⟩

section

variable (h : Spells s a ws x name s') (fits : s.Fits W) (belongs : a.Belongs W)

include h fits belongs

/-- Nesting may be deeper than a type is. -/
theorem room : ∃ n, (s.reach + a.depth + 1) * (s.reach + a.depth + 1) = n + 1 + 1 + ws.length := by
  have short := h.unfolds.length_le fits belongs
  have some : 1 ≤ s.reach := by
    have type := h.isType
    cases a with
    | named r =>
      have := Nat.lt_of_lt_of_eq (belongs.counted (i := r.index) rfl) (fits.count .named).symm
      simp only [Session.reach, Session.count] at this ⊢
      omega
    | scalar r =>
      have := Nat.lt_of_lt_of_eq (belongs.counted (i := r.index) rfl) (fits.count .scalar).symm
      simp only [Session.reach, Session.count] at this ⊢
      omega
    | wrapper w r =>
      have := Nat.lt_of_lt_of_eq (belongs.counted (i := r.index) rfl) (fits.count .wrapper).symm
      simp only [Session.reach, Session.count] at this ⊢
      omega
    | _ => cases type
  have enough : ws.length + 1 + 1 ≤ (s.reach + a.depth + 1) * (s.reach + a.depth + 1) := by
    nlinarith
  obtain ⟨n, same⟩ := Nat.exists_eq_add_of_le enough
  exact ⟨n, by omega⟩

theorem label : Display.label Deferred.supplier a s = .ok (labelOf ws name) s' := by
  obtain ⟨n, bound⟩ := h.room fits belongs
  show Display.write ((s.reach + a.depth + 1) * (s.reach + a.depth + 1)) _ _ _ s = _
  rw [bound]
  exact Display.write_label h.unfolds h.plain h.named

theorem literal : Display.literal Deferred.supplier a s =
    .ok (literalOf ws (x.className ++ "(" ++ name ++ ")")) s' := by
  obtain ⟨n, bound⟩ := h.room fits belongs
  have written : Display.literal Deferred.supplier a s = Display.write
      ((s.reach + a.depth + 1) * (s.reach + a.depth + 1)) Deferred.supplier .literal a s := by
    have type := h.isType
    cases a <;> first | rfl | cases type
  rw [written, bound]
  exact Display.write_literal h.unfolds h.named

end

end Types.Spells

namespace Session

/-- Wherever it is followed, the chain of a type passes lists and non-null types alone and ends in a
type whose name is valid. -/
def Spelled (s : Session) (a : Value) : Prop :=
  ∀ u, s.Leads u → ∃ ws x name u', Types.Spells u a ws x name u'

/-- A type that is spelled, with so many wrappers. -/
def Tower (s : Session) (n : Nat) (a : Value) : Prop :=
  ∀ u, s.Leads u → ∃ ws x name u', Types.Spells u a ws x name u' ∧ ws.length = n

theorem Spelled.tower (h : s.Spelled a) (fits : s.Fits W) (belongs : a.Belongs W) :
    ∃ n, s.Tower n a := by
  have falls {u u' : Session} {ws : List Wrapper} {x : Value} {name : String} (leads : s.Leads u)
      (spells : Types.Spells u a ws x name u') : s.Falls ws.length (.datum a) :=
    (Stands.falls fits leads.traces (.datum belongs) spells.unfolds).1
  obtain ⟨ws, x, name, u, spells⟩ := h s .refl
  refine ⟨ws.length, fun u leads => ?_⟩
  obtain ⟨ws', x', name', u', spells'⟩ := h u leads
  exact ⟨ws', x', name', u', spells', (falls leads spells').unique (falls .refl spells)⟩

namespace Tower

theorem later (h : s.Tower n a) (leads : s.Leads u) : u.Tower n a :=
  fun t later => h t (leads.trans later)

/-- The ground of a tower is a named type. -/
theorem ground (h : s.Tower 0 a) : a.isType = true ∧ a.isWrapper = false := by
  obtain ⟨ws, x, name, u, spells, length⟩ := h s .refl
  obtain rfl := List.eq_nil_of_length_eq_zero length
  cases spells.unfolds with
  | leaf => exact spells.single

/-- Under the top of a tower is a tower, from the time on at which it was asked for. -/
theorem step (h : s.Tower (n + 1) a) : ∃ w r t s', a = .wrapper w r ∧
    Types.wrapped Deferred.supplier w r s = .ok t s' ∧ s.Leads s' ∧ t.isType = true ∧
      s'.Tower n t := by
  obtain ⟨ws, x, name, u, spells, length⟩ := h s .refl
  cases spells.unfolds with
  | leaf => cases length
  | @step _ s' _ w r t _ ws wrapped rest =>
    have type := rest.isType spells.single.1
    have leads := (wrapped_keeps w r).of_ok wrapped
    refine ⟨w, r, t, s', rfl, wrapped, leads, type, fun v later => ?_⟩
    obtain ⟨ws', x', name', v', spells', length'⟩ := h v (leads.trans later)
    obtain ⟨ws₁, rfl, under⟩ := spells'.under wrapped type later.extends
    exact ⟨ws₁, x', name', v', under, by simpa using length'⟩

end Tower

/-- From now on two types are the same, if so is told: they have the same wrappers and one named
type in them, which is found after one another. -/
def Tells (s : Session) (a b : Value) (answer : Bool) : Prop :=
  ∀ u, s.Leads u → ∀ ws x name t ws' y name' t', Types.Spells u a ws x name t →
    Types.Spells t b ws' y name' t' → (answer = true ↔ ws = ws' ∧ x = y)

/-- A type that wraps nothing is told by being it. -/
theorem tells_of_single (type : a.isType = true) (single : a.isWrapper = false) :
    s.Tells a b (a.same b) := by
  intro u leads ws x name t ws' y name' t' first second
  cases first.unfolds with
  | step => cases single
  | leaf =>
    cases second.unfolds with
    | leaf => cases a <;> cases type <;> cases single <;> cases b <;> simp [Value.same]
    | step => cases a <;> cases type <;> cases single <;> simp [Value.same]

/-- A wrapper is nothing else than a wrapper of its class. -/
theorem tells_of_class {r : Ref .wrapper} (apart : ∀ r', b ≠ .wrapper w r') :
    s.Tells (.wrapper w r) b false := by
  intro u leads ws x name t ws' y name' t' first second
  simp only [Bool.false_eq_true, false_iff, not_and]
  rintro rfl
  cases first.unfolds with
  | leaf single => cases single
  | step =>
    cases second.unfolds with
    | step => exact (apart _ rfl).elim

theorem tells_self : s.Tells a a true := by
  intro u leads ws x name t ws' y name' t' first second
  obtain ⟨rfl, rfl, -⟩ := (first.again (Extends.refl _)).unfolds.unique second.unfolds
  simp

/-- Two wrappers of a class are told by what they were asked for. -/
theorem Tells.wrappers {r r' : Ref .wrapper} {answer : Bool} {c d : Value} {s₁ s₂ : Session}
    (h : s'.Tells c d answer) (asked : Types.wrapped Deferred.supplier w r s = .ok c s₁)
    (asked' : Types.wrapped Deferred.supplier w r' s₁ = .ok d s₂) (type : c.isType = true)
    (type' : d.isType = true) (leads : s₂.Leads s') :
    s'.Tells (.wrapper w r) (.wrapper w r') answer := by
  intro u later ws x name t ws' y name' t' first second
  have later₂ : s₂.Leads u := leads.trans later
  have later₁ : s₁.Leads u := ((wrapped_keeps _ _).of_ok asked').trans later₂
  obtain ⟨ws₁, rfl, under⟩ := first.under asked type later₁.extends
  obtain ⟨ws₁', rfl, under'⟩ := second.under asked' type' (later₂.extends.trans first.leads.extends)
  rw [h u later ws₁ x name t ws₁' y name' t' under under', List.cons.injEq, eq_self, true_and]

/-- Types that are spelled are compared by their wrappers and by what is in them. -/
theorem Tower.compared (ha : s.Tower n a) (hb : s.Tower m b) (room : n ≤ k) :
    ∃ answer s', Equality.equalWithin Deferred.supplier (k + 1) a b s = .ok answer s' ∧
      s.Leads s' ∧ s'.Tells a b answer := by
  induction n generalizing s a b m k with
  | zero =>
    obtain ⟨type, single⟩ := ha.ground
    refine ⟨_, s, ?_, .refl, tells_of_single type single⟩
    cases a <;> cases type <;> cases single <;> cases b <;> rfl
  | succ n ih =>
    obtain ⟨k, rfl⟩ : ∃ l, k = l + 1 := ⟨k - 1, by omega⟩
    obtain ⟨w, r, c, s₁, rfl, asked, leads₁, type, under⟩ := ha.step
    cases b with
    | wrapper w' r' =>
      show ∃ answer s', (if w = w' ∧ r = r' then pure true else if w ≠ w' then pure false else do
        let t ← Types.wrapped Deferred.supplier w r
        Equality.equalWithin Deferred.supplier (k + 1) t
          (← Types.wrapped Deferred.supplier w' r') : Action Bool) s = _ ∧ _
      split
      · next same =>
        obtain ⟨rfl, rfl⟩ := same
        exact ⟨true, s, rfl, .refl, tells_self⟩
      split
      · next classes =>
        refine ⟨false, s, rfl, .refl, tells_of_class fun r'' equal => classes ?_⟩
        cases equal
        rfl
      · next classes =>
        obtain rfl : w = w' := not_not.1 classes
        obtain ⟨m, rfl⟩ : ∃ l, m = l + 1 := by
          cases m with
          | zero => cases hb.ground.2
          | succ m => exact ⟨m, rfl⟩
        obtain ⟨_, _, d, s₂, same, asked', leads₂, type', under'⟩ := (hb.later leads₁).step
        cases same
        obtain ⟨answer, s', run, leads', tells⟩ :=
          ih (under.later leads₂) under' (Nat.le_of_succ_le_succ room)
        refine ⟨answer, s', ?_, (leads₁.trans leads₂).trans leads',
          tells.wrappers asked asked' type type' leads'⟩
        rw [Action.bind_of_ok asked, Action.bind_of_ok asked', run]
    | _ => exact ⟨false, s, rfl, .refl, tells_of_class nofun⟩

variable (ha : s.Spelled a) (hb : s.Spelled b) (fits : s.Fits W) (belongs : a.Belongs W)
  (belongs' : b.Belongs W)

include ha hb fits belongs belongs'

/-- Types that are spelled can be compared, and it is told whether they are the same. -/
theorem Spelled.compared (leads : s.Leads u) :
    ∃ answer u', Equality.equal Deferred.supplier a b u = .ok answer u' ∧ u.Leads u' ∧
      u'.Tells a b answer := by
  obtain ⟨W', more, fits'⟩ := leads.fits fits
  obtain ⟨n, left⟩ := ha.tower fits belongs
  obtain ⟨m, right⟩ := hb.tower fits belongs'
  obtain ⟨ws, x, name, t, spells, rfl⟩ := left u leads
  have short := spells.unfolds.length_le fits' (belongs.mono more)
  obtain ⟨k, bound, run⟩ := Action.boundedPairs_succ a.depth
    (fun n => Equality.equalWithin Deferred.supplier n a b) u
  rw [Equality.equal, run]
  exact (left.later leads).compared (right.later leads) (by omega)

/-- A comparison that was told has one answer from then on. -/
theorem Tells.verdict {answer : Bool} (leads : s.Leads u) (tells : u.Tells a b answer) :
    u.Verdict a b answer := by
  intro t later
  obtain ⟨again, t', run, leads', tells'⟩ :=
    ha.compared hb fits belongs belongs' (leads.trans later)
  have since : u.Leads t' := later.trans leads'
  obtain ⟨ws, x, name, t₁, first⟩ := ha t' (leads.trans since)
  obtain ⟨ws', y, name', t₂, second⟩ := hb t₁ ((leads.trans since).trans first.leads)
  have same : again = true ↔ answer = true :=
    (tells' t' .refl _ _ _ _ _ _ _ _ first second).trans
      (tells t' since _ _ _ _ _ _ _ _ first second).symm
  exact ⟨t', Bool.eq_iff_iff.2 same ▸ run⟩

end Session

/-! ### Printed forms -/

/-- From a session on, an action has one answer, whatever is observed. -/
def Session.Steady {α : Type} (s : Session) (act : Action α) (answer : α) : Prop :=
  ∀ u, s.Leads u → ∃ u', act u = .ok answer u'

/-- Whichever named types two types are found to be over, these are one if they have one name. -/
def Session.NamesTell (s : Session) (a b : Value) : Prop :=
  ∀ u, s.Leads u → ∀ ws x name t ws' y t', Types.Spells u a ws x name t →
    Types.Spells t b ws' y name t' → x = y

/-- Two types can be printed and compared whenever that is asked, the answers are the same each time
from then on, and what is printed is equal when the types are. -/
structure Types.Printed (s : Session) (a b : Value) : Prop where
  labelled {v : Value} {u : Session} : v ∈ [a, b] → s.Leads u →
    ∃ shown text u', Display.labelValue Deferred.supplier v u = .ok shown u' ∧ u.Leads u' ∧
      shown.text? = some text ∧ u'.Steady (Display.labelValue Deferred.supplier v) shown
  written {v : Value} {u : Session} : v ∈ [a, b] → s.Leads u →
    ∃ text u', Display.literal Deferred.supplier v u = .ok text u' ∧ u.Leads u' ∧
      u'.Steady (Display.literal Deferred.supplier v) text
  compared {u : Session} : s.Leads u →
    ∃ answer u', Equality.equal Deferred.supplier a b u = .ok answer u' ∧ u.Leads u' ∧
      u'.Verdict a b answer
  labels {u : Session} {shown shown' : Value} {answer : Bool} : s.Leads u →
    u.Steady (Display.labelValue Deferred.supplier a) shown →
      u.Steady (Display.labelValue Deferred.supplier b) shown' → u.Verdict a b answer →
        (shown.text? = shown'.text? ↔ answer = true)
  literals {u : Session} {text text' : String} {answer : Bool} : s.Leads u →
    u.Steady (Display.literal Deferred.supplier a) text →
      u.Steady (Display.literal Deferred.supplier b) text' → u.Verdict a b answer →
        (text = text' ↔ answer = true)

namespace Types.Spells

variable (h : Spells s a ws x name s') (fits : s.Fits W) (belongs : a.Belongs W)

include h fits belongs

/-- The label of a type, as a datum, has the text that its wrappers and the name in them make up, and
is the same from then on. -/
theorem steady_label : ∃ v, Display.labelValue Deferred.supplier a s = .ok v s' ∧
    v.text? = some (labelOf ws name) ∧ s'.Steady (Display.labelValue Deferred.supplier a) v := by
  cases h.unfolds with
  | leaf =>
    obtain ⟨v, given, text⟩ := Session.nameText?_eq_some.1 h.named
    refine ⟨v, Display.labelValue_name given text, text, fun u leads => ⟨u, ?_⟩⟩
    exact Display.labelValue_name (leads.extends.nameOf? given) text
  | @step _ _ _ w r =>
    have shown {u u' : Session} {text : String}
        (run : Display.label Deferred.supplier (.wrapper w r) u = .ok text u') :
        Display.labelValue Deferred.supplier (.wrapper w r) u = .ok (.text text) u' := by
      simp only [Display.labelValue, pure_bind]
      exact Action.bind_of_ok run
    refine ⟨_, shown (h.label fits belongs), rfl, fun u leads => ?_⟩
    have since : s.Leads u := h.leads.trans leads
    obtain ⟨W', more, fits'⟩ := since.fits fits
    exact ⟨u, shown ((h.again leads.extends).label fits' (belongs.mono more))⟩

theorem steady_literal : s'.Steady (Display.literal Deferred.supplier a)
    (literalOf ws (x.className ++ "(" ++ name ++ ")")) := by
  intro u leads
  have since : s.Leads u := h.leads.trans leads
  obtain ⟨W', more, fits'⟩ := since.fits fits
  exact ⟨u, (h.again leads.extends).literal fits' (belongs.mono more)⟩

end Types.Spells

namespace Session

section

variable (ha : s.Spelled a) (hb : s.Spelled b) (apart : s.NamesTell a b) (fits : s.Fits W)
  (belongs : a.Belongs W) (belongs' : b.Belongs W)

include ha hb apart fits belongs belongs'

/-- Two types are equal when they have the same wrappers, and names in them. -/
theorem Spelled.equal_iff {answer : Bool} {t t' : Session} (leads : s.Leads u)
    (first : Types.Spells u a ws x name t) (second : Types.Spells t b ws' y name' t')
    (verdict : u.Verdict a b answer) : answer = true ↔ ws = ws' ∧ name = name' := by
  have since : u.Leads t' := first.leads.trans second.leads
  obtain ⟨told, v, run, later, tells⟩ := ha.compared hb fits belongs belongs' (leads.trans since)
  obtain ⟨v', again⟩ := verdict t' since
  cases run.symm.trans again
  have first' := first.again (second.leads.extends.trans later.extends)
  have second' := second.again later.extends
  rw [tells v .refl _ _ _ _ _ _ _ _ first' second']
  refine and_congr_right fun _ => ⟨?_, ?_⟩
  · rintro rfl
    exact Option.some.inj (first'.named.symm.trans second'.named)
  · rintro rfl
    exact apart v (leads.trans (since.trans later)) _ _ _ _ _ _ _ first' second'

theorem Spelled.printed : Types.Printed s a b where
  labelled {v u} among leads := by
    obtain ⟨W', more, fits'⟩ := leads.fits fits
    have shown {c : Value} (hc : s.Spelled c) (belongs : c.Belongs W) :
        ∃ shown text u', Display.labelValue Deferred.supplier c u = .ok shown u' ∧ u.Leads u' ∧
          shown.text? = some text ∧ u'.Steady (Display.labelValue Deferred.supplier c) shown := by
      obtain ⟨ws, x, name, u', spells⟩ := hc u leads
      obtain ⟨shown, run, text, again⟩ := spells.steady_label fits' (belongs.mono more)
      exact ⟨shown, _, u', run, spells.leads, text, again⟩
    rcases List.mem_cons.1 among with rfl | among
    · exact shown ha belongs
    · exact List.mem_singleton.1 among ▸ shown hb belongs'
  written {v u} among leads := by
    obtain ⟨W', more, fits'⟩ := leads.fits fits
    have shown {c : Value} (hc : s.Spelled c) (belongs : c.Belongs W) :
        ∃ text u', Display.literal Deferred.supplier c u = .ok text u' ∧ u.Leads u' ∧
          u'.Steady (Display.literal Deferred.supplier c) text := by
      obtain ⟨ws, x, name, u', spells⟩ := hc u leads
      have held := belongs.mono more
      exact ⟨_, u', spells.literal fits' held, spells.leads, spells.steady_literal fits' held⟩
    rcases List.mem_cons.1 among with rfl | among
    · exact shown ha belongs
    · exact List.mem_singleton.1 among ▸ shown hb belongs'
  compared {u} leads := by
    obtain ⟨answer, u', run, later, tells⟩ := ha.compared hb fits belongs belongs' leads
    exact ⟨answer, u', run, later, tells.verdict ha hb fits belongs belongs' (leads.trans later)⟩
  labels {u shown shown' answer} leads again again' verdict := by
    obtain ⟨W', more, fits'⟩ := leads.fits fits
    obtain ⟨ws, x, name, t, first⟩ := ha u leads
    have leads' : s.Leads t := leads.trans first.leads
    obtain ⟨W'', more', fits''⟩ := leads'.fits fits
    obtain ⟨ws', y, name', t', second⟩ := hb t leads'
    obtain ⟨v, run, text, -⟩ := first.steady_label fits' (belongs.mono more)
    obtain ⟨v', run', text', -⟩ := second.steady_label fits'' (belongs'.mono more')
    obtain ⟨_, same⟩ := again u .refl
    obtain ⟨_, same'⟩ := again' t first.leads
    cases run.symm.trans same
    cases run'.symm.trans same'
    rw [text, text', Option.some.injEq,
      ha.equal_iff hb apart fits belongs belongs' leads first second verdict]
    refine ⟨Types.labelOf_inj first.plain second.plain first.valid second.valid, ?_⟩
    rintro ⟨rfl, rfl⟩
    rfl
  literals {u text text' answer} leads again again' verdict := by
    obtain ⟨W', more, fits'⟩ := leads.fits fits
    obtain ⟨ws, x, name, t, first⟩ := ha u leads
    have leads' : s.Leads t := leads.trans first.leads
    obtain ⟨W'', more', fits''⟩ := leads'.fits fits
    obtain ⟨ws', y, name', t', second⟩ := hb t leads'
    obtain ⟨_, same⟩ := again u .refl
    obtain ⟨_, same'⟩ := again' t first.leads
    cases (first.literal fits' (belongs.mono more)).symm.trans same
    cases (second.literal fits'' (belongs'.mono more')).symm.trans same'
    rw [ha.equal_iff hb apart fits belongs belongs' leads first second verdict]
    refine ⟨Types.literalOf_inj first.single.1 second.single.1 first.single.2 second.single.2, ?_⟩
    rintro ⟨rfl, rfl⟩
    rw [apart u leads _ _ _ _ _ _ _ first second]

end

end Session

/-- Types over named types with valid names, that no two named types have in common, are printed
alike when they are equal, however they are wrapped in lists and non-null types, at once or through
references. -/
theorem printed_forms_determine_types (qs : List Request) {a b : Value} :
    let s := (BuiltIn.session.runAll qs).2
    s.Occurs a → s.Occurs b → s.Spelled a → s.Spelled b → s.NamesTell a b →
      Types.Printed s a b := by
  intro s occurs occurs' ha hb apart
  obtain ⟨C, -, -, fits⟩ := BuiltIn.session_fits.runAll qs
  have final : s.Fits (C qs.length) := by simpa using fits qs.length
  exact ha.printed hb apart final (final.belongs occurs) (final.belongs occurs')

namespace Session

theorem Peels.unfolds {s₁ : Session} (h : Peels s a ws x s₁) (single : x.isWrapper = false) :
    Types.Unfolds Deferred.supplier s a ws x s₁ := by
  induction h with
  | shut => exact .leaf single
  | step wrapped _ ih => exact .step wrapped (ih single)

/-- What is told to be wrapped in lists and non-null types, with a named type in them, is spelled. -/
theorem Walks.spells (h : s.Walks (.datum a) ws (.datum x)) (fits : s.Fits W)
    (belongs : a.Belongs W) (plain : .plain ∉ ws) (named : s.nameText? x = some name)
    (valid : Name.isValid name = true) (leads : s.Leads u) :
    ∃ u', Types.Spells u a ws x name u' := by
  obtain ⟨-, u', peels, leads'⟩ := Stands.peels fits leads.traces (.datum belongs) h
  have single := (isType_of_nameText? named).2
  exact ⟨u', peels.unfolds single, plain, (leads.extends.trans leads'.extends).nameText? named, valid⟩

/-- Types that are always spelled over the same two named types tell them by their names. -/
theorem namesTell_of_spells (first : ∀ u, s.Leads u → ∃ u', Types.Spells u a ws x name u')
    (second : ∀ u, s.Leads u → ∃ u', Types.Spells u b ws' y name' u') (h : name = name' → x = y) :
    s.NamesTell a b := by
  intro u leads ws₁ x₁ named t ws₂ y₁ t' spells spells'
  obtain ⟨u₁, told⟩ := first u leads
  obtain ⟨u₂, told'⟩ := second t (leads.trans spells.leads)
  obtain ⟨-, rfl, rfl⟩ := told.unfolds.unique spells.unfolds
  obtain ⟨-, rfl, rfl⟩ := told'.unfolds.unique spells'.unfolds
  refine h (Option.some.inj ?_)
  rw [← told.named, ← told'.named, spells.named, spells'.named]

end Session

/-- A type over references, one that is built at once like it, and one of the same wrappers over
another named type. -/
def printedRequests : List Request :=
  [.declareType "Item" (.named (some "Item")),
    .declareType "inner" (.wrap .nonNull (.deferred "z" (.wrap .list (.ref "Item")))),
    .declareType "late" (.wrap .list (.deferred "y" (.ref "inner"))),
    .declareType "early" (.wrap .list (.wrap .nonNull (.wrap .list (.ref "Item")))),
    .declareType "other" (.wrap .list (.wrap .nonNull (.deferred "x" (.wrap .list (.ref "ID")))))]

theorem late_types_are_printed :
    let s := (BuiltIn.session.runAll printedRequests).2
    let late : Value := .wrapper .list ⟨3⟩
    Types.Printed s late (.wrapper .list ⟨6⟩) ∧ Types.Printed s late (.wrapper .list ⟨8⟩) := by
  intro s late
  have occurs (name : String) {w : Wrapper} {r : Ref .wrapper}
      (bound : (s.binding? name).any (Value.same (.wrapper w r)) = true) :
      s.Occurs (.wrapper w r) := Session.occurs_of_bound bound
  have first := occurs "late" (w := .list) (r := ⟨3⟩) (by decide +kernel)
  have second := occurs "early" (w := .list) (r := ⟨6⟩) (by decide +kernel)
  have third := occurs "other" (w := .list) (r := ⟨8⟩) (by decide +kernel)
  obtain ⟨C, -, -, fits⟩ := BuiltIn.session_fits.runAll printedRequests
  have final : s.Fits (C 5) := fits 5
  have spells (x : Value) (name : String) {a : Value} (occurs : s.Occurs a)
      (told : s.leadsTo x [.list, .nonNull, .list] (.datum a) = true)
      (named : s.nameText? x = some name ∧ Name.isValid name = true) (u : Session)
      (leads : s.Leads u) : ∃ u', Types.Spells u a [.list, .nonNull, .list] x name u' :=
    (Session.walks_of_leadsTo told).spells final (final.belongs occurs) (by decide) named.1 named.2
      leads
  have spells₁ := spells (.named ⟨0⟩) "Item" first (by decide +kernel)
    (by decide +kernel)
  have spells₂ := spells (.named ⟨0⟩) "Item" second (by decide +kernel)
    (by decide +kernel)
  have spells₃ := spells (.scalar ⟨4⟩) "ID" third (by decide +kernel)
    (by decide +kernel)
  have spelled {a : Value} {ws : List Wrapper} {x : Value} {name : String}
      (h : ∀ u, s.Leads u → ∃ u', Types.Spells u a ws x name u') : s.Spelled a :=
    fun u leads => ⟨ws, x, name, h u leads⟩
  refine ⟨printed_forms_determine_types printedRequests first second (spelled spells₁)
    (spelled spells₂) ?_, printed_forms_determine_types printedRequests first third
      (spelled spells₁) (spelled spells₃) ?_⟩
  · exact Session.namesTell_of_spells spells₁ spells₂ fun _ => rfl
  · exact Session.namesTell_of_spells spells₁ spells₃ fun same => absurd same (by decide)

end DirectiveSchema
