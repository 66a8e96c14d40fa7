import DirectiveSchema.Proofs.Copying
import DirectiveSchema.Proofs.Persistence
import DirectiveSchema.Proofs.Picturing

/-!
Copies of types and arguments. They are numbered like all objects, but no equality tells whether one
is a copy of another: scalars that are not built in are compared by identity. What was met before and
what stands for it afterwards correspond one to one; of each copy it is known what it is made of, and
that the types in it stand for those in the original. So nothing is asked about how types are nested,
and a type may be met again while its copy is still open.
-/
namespace DirectiveSchema

variable {α β : Type} {s t t' t₁ u : Session} {v x y : Value} {k n : Nat}

/-- New cells are filled while whatever existed before stays as it is. -/
theorem Session.Extends.filling : Filling Session.Extends where
  toGrowth := growth
  fillList _ h := { h with lists := h.lists.put fun live => absurd live (Nat.lt_irrefl _) }
  fillSet _ h := { h with sets := h.sets.put fun live => absurd live (Nat.lt_irrefl _) }
  fillDict _ h := { h with dicts := h.dicts.put fun live => absurd live (Nat.lt_irrefl _) }
  fillNamedType _ h :=
    { h with namedTypes := h.namedTypes.put fun live => absurd live (Nat.lt_irrefl _) }
  fillWrapper _ h := { h with wrappers := h.wrappers.put fun live => absurd live (Nat.lt_irrefl _) }
  fillArgument _ h :=
    { h with arguments := h.arguments.put fun live => absurd live (Nat.lt_irrefl _) }

theorem Session.Extends.furnishing : Furnishing Session.Extends fun _ => Session.Extends :=
  filling.furnishing

/-- What a copy of a node is made of, given what stands for types. -/
inductive Node.Mirrors (t : Session) (stands : Value → Value → Prop) : Node → Node → Prop where
  | named {c' c : NamedType} : List.Forall₂ t.IsTwin c'.name.toList c.name.toList →
      Mirrors t stands (.named c') (.named c)
  | scalar {c' c : ScalarType} :
      t.IsTwin (Display.typeName c'.name) (Display.typeName c.name) →
      Mirrors t stands (.scalar c') (.scalar c)
  | wrapper {w : Wrapper} {c' c : WrappingType} {x v : Value} : c'.resolved = some x →
      c.resolved = some v → stands x v → Mirrors t stands (.wrapper w c') (.wrapper w c)
  | argument {c' c : Argument} {x v : Value} : c.Complete →
      List.Forall₂ t.IsTwin c'.name.toList c.name.toList →
      List.Forall₂ t.IsTwin c'.description.toList c.description.toList →
      List.Forall₂ t.IsTwin c'.hasDefault.toList c.hasDefault.toList →
      List.Forall₂ t.IsTwin c'.default.toList c.default.toList →
      c'.resolved = some x → c.resolved = some v → stands x v →
      Mirrors t stands (.argument c') (.argument c)

theorem Node.Mirrors.mono {stands stands' : Value → Value → Prop} {b c : Node}
    (h : b.Mirrors t stands c) (retains : t.Retains t')
    (more : ∀ {x v}, stands x v → stands' x v) : b.Mirrors t' stands' c := by
  have twins {xs vs : List Value} (h : List.Forall₂ t.IsTwin xs vs) :
      List.Forall₂ t'.IsTwin xs vs := h.imp fun _ _ => retains.isTwin
  cases h with
  | named name => exact .named (twins name)
  | scalar name => exact .scalar (retains.isTwin name)
  | wrapper resolved resolved' stand => exact .wrapper resolved resolved' (more stand)
  | argument complete name description hasDefault default resolved resolved' stand =>
    exact .argument complete (twins name) (twins description) (twins hasDefault) (twins default)
      resolved resolved' (more stand)

namespace Snapshot

variable {Q seen seen' seen₁ seen₂ seen₃ : List Value}
  {table table' table₁ table₂ : List (Nat × Value)}

/-! ### What stands for what -/

/-- A node that was met, and what is on the table under its number. -/
structure Filed (seen : List Value) (table : List (Nat × Value)) (k : Nat) (x v : Value) : Prop where
  met : seen.reverse[k]? = some v
  node : v.isNode = true
  held : table.lookup k = some x

/-- What stands for a type or an argument: a built-in scalar for itself, any other what was filed. -/
def Represents (seen : List Value) (table : List (Nat × Value)) (x v : Value) : Prop :=
  (∃ r, BuiltIn.isScalar r = true ∧ x = .scalar r ∧ v = .scalar r) ∨ ∃ k, Filed seen table k x v

/-- What was met so far has copies: simple data are twins of theirs, and nodes mirror theirs, but
for those that are still open. -/
structure Faithful (u : Session) (Q seen : List Value) (t : Session)
    (table : List (Nat × Value)) : Prop where
  remains : u.Remains t
  data {k : Nat} {v : Value} : seen.reverse[k]? = some v → u.IsSimple v →
    ∃ x, table.lookup k = some x ∧ t.IsTwin x v
  nodes {k : Nat} {v : Value} : seen.reverse[k]? = some v → v.isNode = true →
    ∃ x, table.lookup k = some x ∧ x.isNode = true ∧ (t.node? x).isSome = true
  mirrors {k : Nat} {x v : Value} : Filed seen table k x v → v ∉ Q →
    ∃ b c, t.node? x = some b ∧ u.node? v = some c ∧ b.Mirrors t (Represents seen table) c
  apart {k k' : Nat} {x x' v v' : Value} : Filed seen table k x v → Filed seen table k' x' v' →
    x.cell? = x'.cell? → k = k'
  once {k k' : Nat} {v : Value} : v.isNode = true → seen.reverse[k]? = some v →
    seen.reverse[k']? = some v → k = k'
  custom {k : Nat} {r : Ref .scalar} : seen.reverse[k]? = some (.scalar r) →
    BuiltIn.isScalar r = false

/-- What becomes of a session and of the table while a part of a picture is restored. -/
structure Proceeds (seen : List Value) (t : Session) (table : List (Nat × Value)) (t' : Session)
    (table' : List (Nat × Value)) : Prop where
  remains : t.Remains t'
  kept {k : Nat} : k < seen.length → table'.lookup k = table.lookup k

theorem Proceeds.refl (seen : List Value) (t : Session) (table : List (Nat × Value)) :
    Proceeds seen t table t table := ⟨.refl t, fun _ => rfl⟩

theorem Proceeds.trans {t'' : Session} {table'' : List (Nat × Value)} (more : seen <:+ seen₁)
    (h : Proceeds seen t table t' table') (h' : Proceeds seen₁ t' table' t'' table'') :
    Proceeds seen t table t'' table'' where
  remains := h.remains.trans h'.remains
  kept old := (h'.kept (Nat.lt_of_lt_of_le old more.length_le)).trans (h.kept old)

theorem Filed.grow (h : Filed seen table k x v) (more : seen <:+ seen')
    (kept : ∀ {k}, k < seen.length → table'.lookup k = table.lookup k) :
    Filed seen' table' k x v where
  met := reverse_of_suffix more h.met
  node := h.node
  held := (kept (lt_length_of_met h.met)).trans h.held

theorem Represents.grow (h : Represents seen table x v) (more : seen <:+ seen')
    (kept : ∀ {k}, k < seen.length → table'.lookup k = table.lookup k) :
    Represents seen' table' x v := h.imp_right fun ⟨k, filed⟩ => ⟨k, filed.grow more kept⟩

/-- One number is not given to two objects. -/
theorem Filed.unique {x' v' : Value} (h : Filed seen table k x v) (h' : Filed seen table k x' v') :
    x = x' ∧ v = v' :=
  ⟨Option.some.inj (h.held.symm.trans h'.held), Option.some.inj (h.met.symm.trans h'.met)⟩

/-- What was met once one more object was numbered. -/
theorem met_cons {w : Value} (met : (v :: seen).reverse[k]? = some w) :
    seen.reverse[k]? = some w ∧ k < seen.length ∨ k = seen.length ∧ w = v := by
  rcases Nat.lt_or_eq_of_le (Nat.le_of_lt_succ (lt_length_of_met met)) with early | rfl
  · rw [reverse_cons_of_lt v seen early] at met
    exact .inl ⟨met, early⟩
  · rw [reverse_cons_length] at met
    exact .inr ⟨rfl, (Option.some.inj met).symm⟩

theorem lookup_of_lt (early : k < seen.length) :
    List.lookup k ((seen.length, x) :: table) = table.lookup k :=
  lookup_of_ne x table (Nat.ne_of_lt early)

theorem Filed.cons_cases {y w : Value}
    (h : Filed (v :: seen) ((seen.length, x) :: table) k y w) :
    Filed seen table k y w ∨ k = seen.length ∧ w = v ∧ y = x := by
  rcases met_cons h.met with ⟨met, early⟩ | ⟨rfl, rfl⟩
  · exact .inl ⟨met, h.node, (lookup_of_lt early).symm.trans h.held⟩
  · have held := h.held
    rw [lookup_self] at held
    exact .inr ⟨rfl, rfl, (Option.some.inj held).symm⟩

/-! ### Restoring step by step -/

/-- An action that restores a part of a picture: what was met in that part has copies afterwards,
and something holds of the result. -/
structure Rebuilds (u : Session) (Q seen seen' : List Value) (act : Restoring α)
    (post : List (Nat × Value) → Session → α → Prop) : Prop where
  grown : seen <:+ seen'
  run {t : Session} {table : List (Nat × Value)} : Faithful u Q seen t table →
    ∃ a t' table', act table t = .ok (a, table') t' ∧ Proceeds seen t table t' table' ∧
      Faithful u Q seen' t' table' ∧ post table' t' a

/-- What holds of a result while the rest of a picture is restored. -/
def Lasts (seen : List Value) (post : List (Nat × Value) → Session → Prop) : Prop :=
  ∀ {t t' table table'}, Proceeds seen t table t' table' → post table t → post table' t'

namespace Rebuilds

variable {act : Restoring α} {f : α → Restoring β} {P R : List (Nat × Value) → Session → α → Prop}
  {S : α → List (Nat × Value) → Session → β → Prop}

theorem conclude (h : Rebuilds u Q seen seen' act P)
    (weaker : ∀ {table t a}, Faithful u Q seen' t table → P table t a → R table t a) :
    Rebuilds u Q seen seen' act R where
  grown := h.grown
  run faithful := by
    obtain ⟨a, t', table', run, proceeds, kept, post⟩ := h.run faithful
    exact ⟨a, t', table', run, proceeds, kept, weaker kept post⟩

theorem imp (h : Rebuilds u Q seen seen' act P) (weaker : ∀ table t a, P table t a → R table t a) :
    Rebuilds u Q seen seen' act R := h.conclude fun _ => weaker _ _ _

theorem pure (u : Session) (Q seen : List Value) (a : α) :
    Rebuilds u Q seen seen (Pure.pure a) fun _ _ b => b = a where
  grown := List.suffix_refl seen
  run {t table} faithful := ⟨a, t, table, rfl, .refl seen t table, faithful, rfl⟩

theorem bind [Nonempty α] (first : Rebuilds u Q seen seen₁ act P)
    (lasts : ∀ a, Lasts seen₁ fun table t => P table t a)
    (rest : ∀ a, Rebuilds u Q seen₁ seen₂ (f a) (S a)) :
    Rebuilds u Q seen seen₂ (act >>= f) fun table t b => ∃ a, P table t a ∧ S a table t b where
  grown := by
    obtain ⟨a⟩ := ‹Nonempty α›
    exact first.grown.trans (rest a).grown
  run faithful := by
    obtain ⟨a, t₁, table₁, run, proceeds, kept, post⟩ := first.run faithful
    obtain ⟨b, t₂, table₂, run', proceeds', kept', post'⟩ := (rest a).run kept
    refine ⟨b, t₂, table₂, ?_, proceeds.trans first.grown proceeds', kept', a, ?_, post'⟩
    · exact (Action.bindWith_of_ok run).trans run'
    · exact lasts a proceeds' post

/-- What was restored is used without a change of the session. -/
theorem follow {g : α → β} {T : List (Nat × Value) → Session → β → Prop}
    (first : Rebuilds u Q seen seen₁ act P) (next : ∀ table t a, P table t a → T table t (g a)) :
    Rebuilds u Q seen seen₁ (act >>= fun a => Pure.pure (g a)) T where
  grown := first.grown
  run faithful := by
    obtain ⟨a, t', table', run, proceeds, kept, post⟩ := first.run faithful
    exact ⟨g a, t', table', (Action.bindWith_of_ok run).trans rfl, proceeds, kept,
      next table' t' a post⟩

end Rebuilds

/-- A twin of a simple datum is a copy that lasts. -/
theorem firm_of_isTwin (remains : u.Remains t) (simple : u.IsSimple v) (twin : t.IsTwin x v) :
    Firm u [] t x v := by
  obtain ⟨n, nests⟩ := simple
  obtain ⟨m, twin⟩ := twin
  intro t' later j deep
  have retains : t.Retains t' := fun w b _ body => later w b List.not_mem_nil body
  refine (retains.twin twin).like.resize (retains.simple (remains.retains.simple ?_))
  exact nests.within deep

theorem isTwin_of_firm (remains : u.Remains t) (simple : u.IsSimple v) (firm : Firm u [] t x v) :
    t.IsTwin x v := by
  obtain ⟨n, nests⟩ := simple
  exact ⟨n, (firm.alike (G := .simple) nests).twin (remains.retains.simple nests)⟩

theorem twins_of_firm {xs vs : List Value} (remains : u.Remains t)
    (simple : ∀ v ∈ vs, u.IsSimple v) (firms : List.Forall₂ (Firm u [] t) xs vs) :
    List.Forall₂ t.IsTwin xs vs :=
  forall₂_of_mem firms fun _ v hv firm => isTwin_of_firm remains (simple v hv) firm

theorem mem_new_of_met {new : List Value} (met : (new ++ seen).reverse[k]? = some v)
    (late : seen.length ≤ k) : v ∈ new := by
  rw [List.reverse_append, List.getElem?_append_right (by rwa [List.length_reverse])] at met
  exact List.mem_reverse.1 (List.mem_of_getElem? met)

/-- Parts that are simple data are restored as before. -/
theorem Restores.rebuilds {act : Restoring α} {P : List Value → Session → α → Prop}
    (h : Restores .simple u n seen seen' act P) (keeps : KeepsWith Session.Extends act)
    (Q : List Value) : Rebuilds u Q seen seen' act fun _ t a => u.Remains t ∧ P [] t a where
  grown := by
    obtain ⟨new, rfl, -⟩ := h.grown
    exact List.suffix_append new seen
  run {t table} faithful := by
    obtain ⟨new, rfl, among⟩ := h.grown
    have ready : Ready u [] t :=
      ⟨faithful.remains.objects, fun h => absurd h List.not_mem_nil,
        fun h => absurd h List.not_mem_nil⟩
    have hand : AtHand .simple u [] t n seen table := by
      intro k w met nests
      obtain ⟨y, held, twin⟩ := faithful.data met ⟨n, nests⟩
      exact ⟨y, held, firm_of_isTwin faithful.remains ⟨n, nests⟩ twin⟩
    obtain ⟨a, t', table', run, advances, post⟩ := h.run ready hand
    have remains : t.Remains t' := .of_extends advances.agrees ((keeps table).of_ok run)
    have whole := faithful.remains.trans remains
    have simple {k : Nat} {w : Value} (met : (new ++ seen).reverse[k]? = some w)
        (late : seen.length ≤ k) : u.IsSimple w := ⟨n, among w (mem_new_of_met met late)⟩
    have old {k : Nat} {w : Value} (met : (new ++ seen).reverse[k]? = some w)
        (node : w.isNode = true) : k < seen.length := by
      refine Nat.lt_of_not_le fun late => ?_
      rw [(simple met late).isNode_eq] at node
      cases node
    have grown := List.suffix_append new seen
    have back {k : Nat} {y w : Value} (filed : Filed (new ++ seen) table' k y w) :
        Filed seen table k y w := by
      have early := old filed.met filed.node
      refine ⟨?_, filed.node, (advances.kept early).symm.trans filed.held⟩
      rw [← reverse_append_left new seen early]
      exact filed.met
    refine ⟨a, t', table', run, ⟨remains, advances.kept⟩, ⟨whole, ?_, ?_, ?_, ?_, ?_, ?_⟩, whole, post⟩
    · intro k w met datum
      rcases Nat.lt_or_ge k seen.length with early | late
      · rw [reverse_append_left new seen early] at met
        obtain ⟨y, held, twin⟩ := faithful.data met datum
        exact ⟨y, (advances.kept early).trans held, remains.isTwin twin⟩
      · obtain ⟨y, held, firm⟩ := advances.added late met
        exact ⟨y, held, isTwin_of_firm whole datum firm⟩
    · intro k w met node
      have early := old met node
      rw [reverse_append_left new seen early] at met
      obtain ⟨y, held, anew, live⟩ := faithful.nodes met node
      obtain ⟨b, present⟩ := Option.isSome_iff_exists.1 live
      exact ⟨y, (advances.kept early).trans held, anew, by rw [remains.nodes present]; rfl⟩
    · intro k y w filed shut
      obtain ⟨b, c, present, original, mirrors⟩ := faithful.mirrors (back filed) shut
      exact ⟨b, c, remains.nodes present, original,
        mirrors.mono remains.retains fun stands => stands.grow grown advances.kept⟩
    · exact fun filed filed' same => faithful.apart (back filed) (back filed') same
    · intro k k' w node met met'
      have early := old met node
      have early' := old met' node
      rw [reverse_append_left new seen early] at met
      rw [reverse_append_left new seen early'] at met'
      exact faithful.once node met met'
    · intro k r met
      rcases Nat.lt_or_ge k seen.length with early | late
      · rw [reverse_append_left new seen early] at met
        exact faithful.custom met
      · have single : (Value.scalar r).isScalar = false := (simple met late).isScalar_eq
        cases single

/-! ### Nodes that are made and filled -/

/-- Between two sessions nothing differs but what lies in the cell of a node. -/
structure Touches (x : Value) (t t' : Session) : Prop where
  objects {y : Value} : y.cell? ≠ x.cell? → t'.body? y = t.body? y
  nodes {y : Value} : y.cell? ≠ x.cell? → t'.node? y = t.node? y

/-- Under the cell of a node that does not exist there is nothing. -/
theorem cell?_ne_of_present {b : Node} (absent : u.node? x = none) (present : u.node? v = some b) :
    v.cell? ≠ x.cell? := by
  intro same
  have live := Session.node?_isSome_of_cell? (s := u) same (by rw [present]; rfl)
  rw [absent] at live
  cases live

theorem cell?_ne_of_body {b : Body} (node : x.isNode = true) (absent : u.node? x = none)
    (present : u.body? v = some b) : v.cell? ≠ x.cell? := by
  intro same
  obtain ⟨c, found⟩ := Option.isSome_iff_exists.1 (Session.node?_of_body? (s := u) (v := v)
    ((Value.isNode_of_cell? same).trans node) (by rw [present]; rfl))
  exact cell?_ne_of_present absent found same

/-- What is done to new cells leaves what existed before. -/
theorem Touches.remains (h : Touches x t t') (node : x.isNode = true) (absent : u.node? x = none)
    (remains : u.Remains t) : u.Remains t' where
  objects v b _ body := by
    rw [h.objects (cell?_ne_of_body node absent body)]
    exact remains.objects v b List.not_mem_nil body
  nodes {v b} present := by
    rw [h.nodes (cell?_ne_of_present absent present)]
    exact remains.nodes present

theorem Touches.retains (h : Touches x t t') (node : x.isNode = true) : t.Retains t' := by
  intro v b data body
  rw [h.objects fun same => ?_]
  · exact body
  have other := (Value.isNode_of_cell? same).trans node
  cases v with
  | wrapper | argument =>
    obtain ⟨c, -, rfl⟩ := Option.map_eq_some_iff.1 body
    cases data
  | named | scalar => cases body
  | _ => cases other

namespace Faithful

/-- A node is numbered; it is open. -/
theorem enter (h : Faithful u Q seen t table) (new : number? v seen = none) (node : v.isNode = true)
    (remains : t.Remains t₁) (anew : x.isNode = true) (absent : t.node? x = none)
    (made : (t₁.node? x).isSome = true) :
    Faithful u (v :: Q) (v :: seen) t₁ ((seen.length, x) :: table) := by
  have grown : seen <:+ v :: seen := List.suffix_cons v seen
  have live {k : Nat} {y w : Value} (filed : Filed seen table k y w) : y.cell? ≠ x.cell? := by
    obtain ⟨z, held, -, there⟩ := h.nodes filed.met filed.node
    cases Option.some.inj (held.symm.trans filed.held)
    obtain ⟨b, present⟩ := Option.isSome_iff_exists.1 there
    exact cell?_ne_of_present absent present
  have fresh {k : Nat} (met : seen.reverse[k]? = some v) : False :=
    not_mem_of_number? new (List.mem_reverse.1 (List.mem_of_getElem? met))
  refine ⟨h.remains.trans remains, ?_, ?_, ?_, ?_, ?_, ?_⟩
  · intro k w met datum
    rcases met_cons met with ⟨met, early⟩ | ⟨rfl, rfl⟩
    · obtain ⟨y, held, twin⟩ := h.data met datum
      exact ⟨y, (lookup_of_lt early).trans held, remains.isTwin twin⟩
    · rw [datum.isNode_eq] at node
      cases node
  · intro k w met node
    rcases met_cons met with ⟨met, early⟩ | ⟨rfl, rfl⟩
    · obtain ⟨y, held, anew, there⟩ := h.nodes met node
      obtain ⟨b, present⟩ := Option.isSome_iff_exists.1 there
      exact ⟨y, (lookup_of_lt early).trans held, anew, by rw [remains.nodes present]; rfl⟩
    · exact ⟨x, lookup_self _ x table, anew, made⟩
  · intro k y w filed shut
    rcases filed.cons_cases with filed | ⟨-, rfl, -⟩
    · obtain ⟨b, c, present, original, mirrors⟩ :=
        h.mirrors filed fun hw => shut (List.mem_cons_of_mem v hw)
      exact ⟨b, c, remains.nodes present, original,
        mirrors.mono remains.retains fun stands => stands.grow grown lookup_of_lt⟩
    · exact absurd List.mem_cons_self shut
  · intro k k' y y' w w' filed filed' same
    rcases filed.cons_cases with old | ⟨first, -, here⟩
    · rcases filed'.cons_cases with old' | ⟨-, -, here'⟩
      · exact h.apart old old' same
      · exact absurd (same.trans (congrArg Value.cell? here')) (live old)
    · rcases filed'.cons_cases with old' | ⟨first', -, -⟩
      · exact absurd (same.symm.trans (congrArg Value.cell? here)) (live old')
      · exact first.trans first'.symm
  · intro k k' w node met met'
    rcases met_cons met with ⟨old, -⟩ | ⟨first, here⟩
    · rcases met_cons met' with ⟨old', -⟩ | ⟨-, here'⟩
      · exact h.once node old old'
      · exact absurd (here' ▸ old) fresh
    · rcases met_cons met' with ⟨old', -⟩ | ⟨first', -⟩
      · exact absurd (here ▸ old') fresh
      · exact first.trans first'.symm
  · intro k r met
    rcases met_cons met with ⟨old, -⟩ | ⟨-, rfl⟩
    · exact h.custom old
    · exact Bool.not_eq_true' _ ▸ node

/-- An object that is neither a node nor simple may be numbered at any time. -/
theorem pass (h : Faithful u Q seen t table) (other : v.isNode = false)
    (single : v.isScalar = false) (odd : ¬u.IsSimple v) (x : Value) : Faithful u Q (v :: seen) t ((seen.length, x) :: table) := by
  have old {k : Nat} {w : Value} (met : (v :: seen).reverse[k]? = some w) (node : w.isNode = true) :
      seen.reverse[k]? = some w ∧ k < seen.length := by
    refine (met_cons met).resolve_right ?_
    rintro ⟨-, rfl⟩
    rw [other] at node
    cases node
  have back {k : Nat} {y w : Value}
      (filed : Filed (v :: seen) ((seen.length, x) :: table) k y w) : Filed seen table k y w := by
    obtain ⟨met, early⟩ := old filed.met filed.node
    exact ⟨met, filed.node, (lookup_of_lt early).symm.trans filed.held⟩
  refine ⟨h.remains, ?_, ?_, ?_, ?_, ?_, ?_⟩
  · intro k w met datum
    rcases met_cons met with ⟨met, early⟩ | ⟨rfl, rfl⟩
    · obtain ⟨y, held, twin⟩ := h.data met datum
      exact ⟨y, (lookup_of_lt early).trans held, twin⟩
    · exact absurd datum odd
  · intro k w met node
    obtain ⟨met, early⟩ := old met node
    obtain ⟨y, held, live⟩ := h.nodes met node
    exact ⟨y, (lookup_of_lt early).trans held, live⟩
  · intro k y w filed shut
    obtain ⟨b, c, present, original, mirrors⟩ := h.mirrors (back filed) shut
    exact ⟨b, c, present, original, mirrors.mono (Session.Remains.refl t).retains
      fun stands => stands.grow (List.suffix_cons v seen) lookup_of_lt⟩
  · exact fun filed filed' same => h.apart (back filed) (back filed') same
  · exact fun node met met' => h.once node (old met node).1 (old met' node).1
  · intro k r met
    rcases met_cons met with ⟨met, -⟩ | ⟨-, rfl⟩
    · exact h.custom met
    · cases single

/-- The cell of an open node is filled. -/
theorem put (h : Faithful u (v :: Q) seen t table) (filed : Filed seen table k x v)
    (anew : x.isNode = true) (absent : u.node? x = none) (touches : Touches x t t')
    (made : (t'.node? x).isSome = true) : Faithful u (v :: Q) seen t' table where
  remains := touches.remains anew absent h.remains
  data met datum := by
    obtain ⟨y, held, twin⟩ := h.data met datum
    exact ⟨y, held, (touches.retains anew).isTwin twin⟩
  nodes {k' w} met node := by
    obtain ⟨y, held, anew', live⟩ := h.nodes met node
    refine ⟨y, held, anew', ?_⟩
    by_cases same : y.cell? = x.cell?
    · exact Session.node?_isSome_of_cell? same.symm made
    · rwa [touches.nodes same]
  mirrors {k' y w} filed' shut := by
    obtain ⟨b, c, present, original, mirrors⟩ := h.mirrors filed' shut
    have other : y.cell? ≠ x.cell? := by
      intro same
      cases h.apart filed' filed same
      exact shut (by rw [(filed'.unique filed).2]; exact List.mem_cons_self)
    refine ⟨b, c, (touches.nodes other).trans present, original, ?_⟩
    exact mirrors.mono (touches.retains anew) id
  apart := h.apart
  once := h.once
  custom := h.custom

/-- A node is open no more once its copy mirrors it. -/
theorem close (h : Faithful u (v :: Q) seen t table) (filed : Filed seen table k x v)
    (mirrored : ∃ b c, t.node? x = some b ∧ u.node? v = some c ∧
      b.Mirrors t (Represents seen table) c) : Faithful u Q seen t table :=
  { h with
    mirrors := fun {k' y w} filed' shut => by
      by_cases same : w = v
      · subst same
        cases h.once filed'.node filed'.met filed.met
        cases (filed'.unique filed).1
        exact mirrored
      · exact h.mirrors filed' fun hw => (List.mem_cons.1 hw).elim same shut }

/-- Nothing is lost while more is added. -/
theorem later (h : Faithful u Q seen t table) (remains : t.Remains t') :
    Faithful u Q seen t' table where
  remains := h.remains.trans remains
  data met datum := by
    obtain ⟨y, held, twin⟩ := h.data met datum
    exact ⟨y, held, remains.isTwin twin⟩
  nodes met node := by
    obtain ⟨y, held, anew, live⟩ := h.nodes met node
    obtain ⟨b, present⟩ := Option.isSome_iff_exists.1 live
    exact ⟨y, held, anew, by rw [remains.nodes present]; rfl⟩
  mirrors filed shut := by
    obtain ⟨b, c, present, original, mirrors⟩ := h.mirrors filed shut
    exact ⟨b, c, remains.nodes present, original, mirrors.mono remains.retains id⟩
  apart := h.apart
  once := h.once
  custom := h.custom

end Faithful

end Snapshot

end DirectiveSchema
