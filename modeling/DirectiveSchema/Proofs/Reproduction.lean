import DirectiveSchema.Description
import DirectiveSchema.Proofs.Exchange
import DirectiveSchema.Proofs.Portable

/-!
What stored copies show. A copy answers whatever is asked of it as its original does: simple data
are equal and written alike, types are the same chains of wrappers over types of the same name, and
one object stands for another throughout, so that what was shared is shared still.
-/
namespace DirectiveSchema

open Action (Concur)

variable {t u : Session} {x y v w : Value} {n N k : Nat}

/-! ### Data -/

/-- Two actions that leave the session as it is and return related results. -/
def Action.Return {α β : Type} (t : Session) (R : α → β → Prop) (f : Action α) (g : Action β) :
    Prop := ∃ a b, f t = .ok a t ∧ g t = .ok b t ∧ R a b

namespace Session.IsTwin

/-- Twins are one text, or neither of them is a text. -/
theorem text_or_class (h : t.IsTwin x y) :
    x = y ∨ x.text? = none ∧ y.text? = none ∧ x.className = y.className := by
  obtain ⟨n, twin⟩ := h
  cases n with
  | zero => cases twin.left
  | succ n =>
    rcases twin.cases with ⟨same, -⟩ | ⟨b, c, body, body', data, fits, -⟩
    · exact .inl same
    · right
      have made := Session.makes_of_body body
      have made' := Session.makes_of_body body'
      cases b <;> cases c <;> try first | exact fits.elim | (cases data; done)
      all_goals
        obtain ⟨_, rfl, -⟩ := made
        obtain ⟨_, rfl, -⟩ := made'
        exact ⟨rfl, rfl, rfl⟩

theorem nameLabel (h : t.IsTwin x y) :
    Concur t Eq (Display.nameLabel x) (Display.nameLabel y) := by
  rcases h.text_or_class with rfl | ⟨left, right, same⟩
  · unfold Display.nameLabel
    split
    · exact .pure rfl
    · exact .throw _
  · rw [Display.nameLabel, Display.nameLabel, left, right, same]
    exact .throw _

/-- With as much room for one as for the other, twins are written alike. -/
theorem write (h : t.IsTwin x y) (N : Nat) (form : Display.Form) :
    Concur t Eq (Display.write N Deferred.supplier form x)
      (Display.write N Deferred.supplier form y) := by
  obtain ⟨n, twin⟩ := h
  exact Display.concur_write twin (fun _ h => nomatch h) (fun _ h => nomatch h) (.inr rfl)

end Session.IsTwin

/-! ### Types -/

/-- Innermost types of one kind that have the same name. -/
inductive Session.Namesake (t : Session) : Value → Value → Prop where
  | named {r' r : Ref .named} : t.IsTwin (Display.typeName (t.namedType r').name)
      (Display.typeName (t.namedType r).name) → Namesake t (.named r') (.named r)
  | scalar {r' r : Ref .scalar} : t.IsTwin (Display.typeName (t.scalar r').name)
      (Display.typeName (t.scalar r).name) → Namesake t (.scalar r') (.scalar r)

/-- Two types that are known to be chains of wrappers of the same kinds over related types. -/
inductive Session.Stacked (t : Session) (R : Value → Value → Prop) :
    Nat → Value → Value → Prop where
  | leaf {x v : Value} : R x v → Stacked t R 0 x v
  | wrap {w : Wrapper} {r' r : Ref .wrapper} {x v : Value} {k : Nat} :
      (t.wrapper r').resolved = some x → (t.wrapper r).resolved = some v → Stacked t R k x v →
        Stacked t R (k + 1) (.wrapper w r') (.wrapper w r)

namespace Session.Namesake

theorem write (h : t.Namesake x v) (N : Nat) (form : Display.Form) :
    Concur t Eq (Display.write N Deferred.supplier form x)
      (Display.write N Deferred.supplier form v) := by
  cases N with
  | zero => exact .throw _
  | succ N =>
    cases h with
    | named twin | scalar twin =>
      simp only [Display.write]
      refine .read ?_
      cases form with
      | label => exact twin.nameLabel
      | literal => exact (twin.write N .label).map fun a b same => by rw [same]

theorem labelValue (h : t.Namesake x v) :
    Concur t Eq (Display.labelValue Deferred.supplier x)
      (Display.labelValue Deferred.supplier v) := by
  have shown {a b : Value} (twin : t.IsTwin a b) :
      Concur t Eq
        (if a.text?.isSome then pure a else throw (.labelNotText a.className) : Action Value)
        (if b.text?.isSome then pure b else throw (.labelNotText b.className)) := by
    rcases twin.text_or_class with rfl | ⟨left, right, same⟩
    · split
      · exact .pure rfl
      · exact .throw _
    · rw [left, right, same]
      exact .throw _
  cases h with
  | named twin | scalar twin => exact shown twin

end Session.Namesake

namespace Session.Stacked

variable {R : Value → Value → Prop} {supply : Supplier}

theorem imp {S : Value → Value → Prop} (h : t.Stacked R k x v) (weaker : ∀ {x v}, R x v → S x v) :
    t.Stacked S k x v := by
  induction h with
  | leaf related => exact .leaf (weaker related)
  | wrap known known' _ ih => exact .wrap known known' ih

theorem depth_eq (h : t.Stacked t.Namesake k x v) : x.depth = v.depth := by
  cases h with
  | leaf related => cases related <;> rfl
  | wrap => rfl

theorem fill (h : t.Stacked t.Namesake k x v) {label : Value → Action String}
    (labels : Concur t Eq (label x) (label v)) :
    Concur t Eq (Display.fill label x) (Display.fill label v) := by
  cases h with
  | leaf related => cases related <;> exact labels
  | wrap => exact labels

/-- The induction is on the layers; where they end, the names are written. -/
theorem write (h : t.Stacked t.Namesake k x v) (N : Nat) (form : Display.Form) :
    Concur t Eq (Display.write N Deferred.supplier form x)
      (Display.write N Deferred.supplier form v) := by
  induction h generalizing N form with
  | leaf related => exact related.write N form
  | @wrap w r' r x v k known known' inner ih =>
    cases N with
    | zero => exact .throw _
    | succ N =>
      have resolved : Types.wrapped Deferred.supplier w r' t = .ok x t :=
        Types.wrapped_of_resolved known
      have resolved' : Types.wrapped Deferred.supplier w r t = .ok v t :=
        Types.wrapped_of_resolved known'
      have label := inner.fill (ih N .label)
      have literal := ih N .literal
      simp only [Display.write]
      refine Action.Concur.bind (R := fun a b => a = x ∧ b = v)
        (.inl ⟨x, v, resolved, resolved', rfl, rfl⟩) ?_
      rintro _ _ ⟨rfl, rfl⟩
      cases form <;> cases w
      all_goals first
        | exact label.map fun a b same => by rw [same]
        | exact literal.map fun a b same => by rw [same]

theorem label (h : t.Stacked t.Namesake k x v) :
    Concur t Eq (Display.label Deferred.supplier x) (Display.label Deferred.supplier v) := by
  refine Action.Concur.read ?_
  rw [h.depth_eq]
  exact h.write _ .label

theorem literal (h : t.Stacked t.Namesake k x v) :
    Concur t Eq (Display.literal Deferred.supplier x) (Display.literal Deferred.supplier v) := by
  have other : x.isDirective = false ∧ v.isDirective = false := by
    cases h with
    | leaf related => cases related <;> exact ⟨rfl, rfl⟩
    | wrap => exact ⟨rfl, rfl⟩
  rw [Display.literal_of_isDirective other.1, Display.literal_of_isDirective other.2]
  refine Action.Concur.read ?_
  rw [h.depth_eq]
  exact h.write _ .literal

theorem labelValue (h : t.Stacked t.Namesake k x v) :
    Concur t Eq (Display.labelValue Deferred.supplier x)
      (Display.labelValue Deferred.supplier v) := by
  have label := h.label
  cases h with
  | leaf related => exact related.labelValue
  | wrap => exact label.map fun a b same => by rw [same]

theorem isNonNull_eq (h : t.Stacked t.Namesake k x v) : x.isNonNull = v.isNonNull := by
  cases h with
  | leaf related => cases related <;> rfl
  | @wrap w => cases w <;> rfl

/-- With room for all layers, both chains are followed to their ends. -/
theorem unwrapWithin {N' : Nat} (h : t.Stacked R k x v) (le : k ≤ N) (le' : k ≤ N')
    (leaves : ∀ {x v}, R x v → x.isWrapper = false ∧ v.isWrapper = false) :
    Action.Return t R (Types.unwrapWithin supply N x) (Types.unwrapWithin supply N' v) := by
  induction h generalizing N N' with
  | @leaf x v related =>
    have stays {y : Value} (plain : y.isWrapper = false) (M : Nat) :
        Types.unwrapWithin supply M y t = .ok y t := by
      cases M <;> cases y <;> first | cases plain; done | rfl
    exact ⟨x, v, stays (leaves related).1 N, stays (leaves related).2 N', related⟩
  | wrap known known' _ ih =>
    obtain ⟨M, rfl⟩ : ∃ M, N = M + 1 := ⟨N - 1, by omega⟩
    obtain ⟨M', rfl⟩ : ∃ M', N' = M' + 1 := ⟨N' - 1, by omega⟩
    obtain ⟨a, b, run, run', related⟩ :=
      ih (Nat.le_of_succ_le_succ le) (Nat.le_of_succ_le_succ le')
    exact ⟨a, b, (Action.bind_of_ok (Types.wrapped_of_resolved known)).trans run,
      (Action.bind_of_ok (Types.wrapped_of_resolved known')).trans run', related⟩

theorem unwrap (h : t.Stacked R k x v) (le : k ≤ t.reach + 1)
    (leaves : ∀ {x v}, R x v → x.isWrapper = false ∧ v.isWrapper = false) :
    Action.Return t R (Types.unwrap supply x) (Types.unwrap supply v) := by
  have room (depth : Nat) : k ≤ t.reach + depth + 1 := by omega
  exact h.unwrapWithin (room x.depth) (room v.depth) leaves

end Session.Stacked

/-! ### What stands for a type -/

/-- A node in its cell. -/
def Node.Lies (t : Session) : Node → Value → Prop
  | .named c, v => ∃ r, v = .named r ∧ t.namedType r = c
  | .scalar c, v => ∃ r, v = .scalar r ∧ t.scalar r = c
  | .wrapper w c, v => ∃ r, v = .wrapper w r ∧ t.wrapper r = c
  | .argument c, v => ∃ q, v = .argument q ∧ t.argument q = c

theorem Session.lies_of_node {b : Node} (h : t.node? v = some b) : b.Lies t v := by
  cases v with
  | named r | scalar r | wrapper w r | argument r =>
    obtain ⟨c, cell, rfl⟩ := Option.map_eq_some_iff.1 h
    exact ⟨r, rfl, (Arena.get?_eq_some cell).2⟩
  | _ => cases h

/-- A simple datum is a twin of itself. -/
theorem Session.IsSimple.isTwin (h : t.IsSimple v) : t.IsTwin v v := by
  obtain ⟨n, nests⟩ := h
  suffices like : t.Alike n v v by exact ⟨n, like.twin nests⟩
  induction n generalizing v with
  | zero => cases nests
  | succ n ih =>
    have plain : t.Plain v := nests.1.1
    cases body : t.body? v with
    | none =>
      rw [Session.Plain, body] at plain
      exact .inl ⟨rfl, plain⟩
    | some b =>
      rw [Session.Plain, body] at plain
      refine .inr ⟨b, b, body, body, ?_, List.forall₂_same.2 fun x hx => ih (nests.2 x ?_)⟩
      · obtain ⟨data, sound⟩ := plain
        cases b with
        | set | dict => exact ⟨rfl, sound.2⟩
        | wrapper | argument | directive => cases data
        | _ => trivial
      · rwa [Session.parts_of_body body]

namespace Snapshot

variable {seen : List Value} {table : List (Nat × Value)}

/-- What stands for a type that is not built in is made of what stands for its parts. -/
theorem Faithful.mirrored (h : Faithful u [] seen t table) (stands : Represents seen table x v)
    (custom : v.isNode = true) : ∃ b c, t.node? x = some b ∧ u.node? v = some c ∧
      t.node? v = some c ∧ b.Mirrors t (Represents seen table) c := by
  rcases stands with ⟨r, builtIn, rfl, rfl⟩ | ⟨k, filed⟩
  · have node : (!BuiltIn.isScalar r) = true := custom
    rw [builtIn] at node
    cases node
  · obtain ⟨b, c, copied, present, mirrors⟩ := h.mirrors filed List.not_mem_nil
    exact ⟨b, c, copied, present, h.remains.nodes present, mirrors⟩

/-- Nothing stands for a built-in scalar but itself. -/
theorem Represents.eq_of_builtIn {r : Ref .scalar} (h : Represents seen table x (.scalar r))
    (builtIn : BuiltIn.isScalar r = true) : x = .scalar r := by
  rcases h with ⟨q, -, rfl, same⟩ | ⟨k, filed⟩
  · exact same.symm
  · have node : (!BuiltIn.isScalar r) = true := filed.node
    rw [builtIn] at node
    cases node

/-- What stands for an innermost type has its name. -/
theorem Faithful.namesake (h : Faithful u [] seen t table) (stands : Represents seen table x v)
    (basic : u.Basic v) : t.Namesake x v := by
  have custom (node : v.isNode = true) : t.Namesake x v := by
    obtain ⟨b, c, copied, -, present, mirrors⟩ := h.mirrored stands node
    have lies := Session.lies_of_node copied
    have lies' := Session.lies_of_node present
    cases mirrors with
    | named name =>
      obtain ⟨r', rfl, rfl⟩ := lies
      obtain ⟨r, rfl, rfl⟩ := lies'
      refine .named ?_
      revert name
      cases (t.namedType r').name <;> cases (t.namedType r).name <;> intro name
      · exact (Session.isSimple_of_isAtom rfl rfl).isTwin
      · cases name
      · cases name
      · exact (List.forall₂_cons.1 name).1
    | scalar name =>
      obtain ⟨r', rfl, rfl⟩ := lies
      obtain ⟨r, rfl, rfl⟩ := lies'
      exact .scalar name
    | wrapper | argument => cases basic <;> simp [Node.Lies] at lies'
  cases basic with
  | @builtIn r c builtIn node simple =>
    obtain ⟨_, ⟨⟩, rfl⟩ := Session.lies_of_node (h.remains.nodes node)
    rw [stands.eq_of_builtIn builtIn]
    obtain ⟨n, nests⟩ := simple
    exact .scalar (Session.IsSimple.isTwin ⟨n, h.remains.retains.simple nests⟩)
  | @scalar r c d other =>
    refine custom ?_
    show (!BuiltIn.isScalar r) = true
    rw [other]
    rfl
  | named => exact custom rfl

/-- What stands for a type is wrapped as the type is, over what stands for its innermost type. The
induction is on the room for the layers. -/
theorem Faithful.stacked {K : Nat} {y : Value} {s : Session} (h : Faithful u [] seen t table)
    (stands : Represents seen table x v)
    (run : Types.unwrapWithin Deferred.supplier K v u = .ok y s) (basic : s.Basic y) :
    ∃ k ≤ K, t.Stacked (fun x v => Represents seen table x v ∧ t.Namesake x v) k x v := by
  have leaf {M : Nat} {x v : Value} (stands : Represents seen table x v)
      (run : Types.unwrapWithin Deferred.supplier M v u = .ok y s) (single : v.isWrapper = false) :
      ∃ k ≤ M, t.Stacked (fun x v => Represents seen table x v ∧ t.Namesake x v) k x v := by
    obtain ⟨rfl, rfl⟩ := eq_of_unwrapWithin run single
    exact ⟨0, Nat.zero_le M, .leaf ⟨stands, h.namesake stands basic⟩⟩
  induction K generalizing x v with
  | zero =>
    cases v with
    | wrapper => cases run
    | _ => exact leaf stands run rfl
  | succ K ih =>
    cases v with
    | wrapper w r =>
      obtain ⟨b, c, copied, original, present, mirrors⟩ := h.mirrored stands rfl
      cases mirrors with
      | wrapper known known' inner =>
        obtain ⟨r', rfl, rfl⟩ := Session.lies_of_node copied
        obtain ⟨_, ⟨⟩, rfl⟩ := Session.lies_of_node present
        obtain ⟨_, ⟨⟩, same⟩ := Session.lies_of_node original
        rw [← same] at known'
        have wrapped : Types.wrapped Deferred.supplier w r u = .ok _ u :=
          Types.wrapped_of_resolved known'
        obtain ⟨k, le, stacked⟩ := ih inner ((Action.bind_of_ok wrapped).symm.trans run)
        exact ⟨k + 1, Nat.succ_le_succ le, .wrap known (same ▸ known') stacked⟩
      | _ => obtain ⟨_, ⟨⟩, -⟩ := Session.lies_of_node present
    | _ => exact leaf stands run rfl

/-- One type is stood for by one type, and another one by another. -/
theorem Faithful.exact {x' v' : Value} (h : Faithful u [] seen t table)
    (stands : Represents seen table x v) (stands' : Represents seen table x' v') :
    x = x' ↔ v = v' := by
  have custom {k : Nat} {y w : Value} {r : Ref .scalar} (filed : Filed seen table k y w)
      (builtIn : BuiltIn.isScalar r = true) : y ≠ .scalar r ∧ w ≠ .scalar r := by
    have other : (Value.scalar r).isNode = false := by
      show (!BuiltIn.isScalar r) = false
      rw [builtIn]
      rfl
    obtain ⟨z, held, anew, -⟩ := h.nodes filed.met filed.node
    cases Option.some.inj (held.symm.trans filed.held)
    constructor
    · rintro rfl
      rw [other] at anew
      cases anew
    · rintro rfl
      have node := filed.node
      rw [other] at node
      cases node
  rcases stands with ⟨r, builtIn, rfl, rfl⟩ | ⟨k, filed⟩
  · rcases stands' with ⟨r', -, rfl, rfl⟩ | ⟨k', filed'⟩
    · rfl
    · exact iff_of_false (custom filed' builtIn).1.symm (custom filed' builtIn).2.symm
  · rcases stands' with ⟨r', builtIn, rfl, rfl⟩ | ⟨k', filed'⟩
    · exact iff_of_false (custom filed builtIn).1 (custom filed builtIn).2
    · constructor
      · rintro rfl
        cases h.apart filed filed' rfl
        exact (filed.unique filed').2
      · rintro rfl
        cases h.once filed.node filed.met filed'.met
        exact (filed.unique filed').1

end Snapshot

end DirectiveSchema
