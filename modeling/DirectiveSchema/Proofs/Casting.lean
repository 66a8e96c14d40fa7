import DirectiveSchema.Proofs.Mirroring

/-!
Pictures of types and arguments. What such a picture is restored to stands for what was pictured. A
type or an argument is numbered before its parts are built, and then filled; a scalar is built of
its parts, and one that is built in stays itself.
-/
namespace DirectiveSchema

variable {s t t' u : Session} {v x : Value} {k n : Nat}

theorem BuiltIn.isScalar_iff {r : Ref .scalar} : isScalar r = true ↔ r.index < 5 := by
  obtain ⟨i⟩ := r
  simp only [isScalar, scalarRefs, integerRef, floatRef, booleanRef, stringRef, identifierRef,
    List.contains_cons, List.contains_nil, Bool.or_false, Bool.or_eq_true, beq_iff_eq, Ref.mk.injEq]
  omega

namespace Arena

variable {α β : Type} [Inhabited α] {a : Arena α} {f : α → β} {b : β} {i : Nat}

theorem map_get?_add (c : α) (h : (a.get? i).map f = some b) :
    ((a.add c).get? i).map f = some b := by
  obtain ⟨d, cell, rfl⟩ := Option.map_eq_some_iff.1 h
  rw [get?_add_of_ne a c (Nat.ne_of_lt (get?_eq_some cell).1), cell]
  rfl

end Arena

namespace Snapshot

variable {supply : Supplier} {p : Snapshot}
  {seen seen' seen₁ seen₂ seen₃ seen₄ seen₅ seen₆ : List Value}

/-! ### Kinds of nodes -/

/-- Besides what was met before, nodes and simple data were met. -/
def Sorted (u : Session) (seen seen' : List Value) : Prop :=
  ∃ new, seen' = new ++ seen ∧ ∀ x ∈ new, x.isNode = true ∨ u.IsSimple x

theorem Sorted.refl (u : Session) (seen : List Value) : Sorted u seen seen :=
  ⟨[], rfl, fun _ hx => absurd hx List.not_mem_nil⟩

theorem Sorted.trans (h : Sorted u seen seen₁) (h' : Sorted u seen₁ seen₂) :
    Sorted u seen seen₂ := by
  obtain ⟨new, rfl, kinds⟩ := h
  obtain ⟨new', rfl, kinds'⟩ := h'
  refine ⟨new' ++ new, (List.append_assoc new' new seen).symm, fun x hx => ?_⟩
  exact (List.mem_append.1 hx).elim (kinds' x) (kinds x)

theorem Sorted.cons (node : v.isNode = true) (h : Sorted u (v :: seen) seen') :
    Sorted u seen seen' := by
  refine Sorted.trans ⟨[v], rfl, fun x hx => ?_⟩ h
  exact .inl (List.mem_singleton.1 hx ▸ node)

theorem Sorted.grown (h : Sorted u seen seen') : seen <:+ seen' := by
  obtain ⟨new, rfl, -⟩ := h
  exact List.suffix_append new seen

section

variable {Q : List Value}

theorem Depicts.sorted (h : Depicts .simple supply u seen v p seen') (simple : u.IsSimple v) :
    ∃ new, seen' = new ++ seen ∧ ∀ x ∈ new, u.IsSimple x := by
  obtain ⟨n, nests⟩ := simple
  obtain ⟨new, same, among⟩ := (h n nests).grown
  exact ⟨new, same, fun x hx => ⟨n, among x hx⟩⟩

theorem sorted_of_simple {new : List Value} (h : ∀ x ∈ new, u.IsSimple x) :
    Sorted u seen (new ++ seen) := ⟨new, rfl, fun x hx => .inr (h x hx)⟩

theorem Depicts.rebuilds (h : Depicts .simple Deferred.supplier u seen v p seen')
    (simple : u.IsSimple v) (Q : List Value) :
    Rebuilds u Q seen seen' (restoreWith Deferred.supplier p) fun _ t x => t.IsTwin x v := by
  obtain ⟨n, nests⟩ := simple
  have extend := Session.Extends.furnishing.restoreWith Session.Extends.growth.toBuilding p
  refine ((h n nests).rebuilds extend Q).imp ?_
  exact fun table t x post => isTwin_of_firm post.1 ⟨n, nests⟩ post.2

theorem DepictsPart.rebuilds {o : Option Value} {p : Option Snapshot}
    (h : DepictsPart .simple Deferred.supplier u seen o p seen')
    (simple : ∀ x ∈ o.toList, u.IsSimple x) : Sorted u seen seen' ∧ ∀ Q,
      Rebuilds u Q seen seen' (restorePart Deferred.supplier p) fun _ t x =>
        List.Forall₂ t.IsTwin x.toList o.toList := by
  obtain ⟨n, nests⟩ := Session.Nests.all simple
  have restores := h n nests
  have extend := Session.Extends.furnishing.restorePart Session.Extends.growth.toBuilding p
  refine ⟨?_, fun Q => (restores.rebuilds extend Q).imp ?_⟩
  · obtain ⟨new, rfl, among⟩ := restores.grown
    exact sorted_of_simple fun x hx => ⟨n, among x hx⟩
  · exact fun table t x post => twins_of_firm post.1 simple post.2

theorem DepictsAttributes.rebuilds {as : Attributes} {ps : List (String × Snapshot)}
    (h : DepictsAttributes .simple Deferred.supplier u seen as ps seen')
    (simple : ∀ x ∈ as.contents, u.IsSimple x) : Sorted u seen seen' ∧ ∀ Q,
      Rebuilds u Q seen seen' (restoreAttributes Deferred.supplier ps) fun _ _ _ => True := by
  obtain ⟨n, nests⟩ := Session.Nests.all simple
  have restores := h n nests
  have extend := Session.Extends.furnishing.restoreAttributes Session.Extends.growth.toBuilding ps
  refine ⟨?_, fun Q => (restores.rebuilds extend Q).imp ?_⟩
  · obtain ⟨new, rfl, among⟩ := restores.grown
    exact sorted_of_simple fun x hx => ⟨n, among x hx⟩
  · exact fun _ _ _ _ => True.intro

end

/-! ### Pictures of types and arguments -/

/-- A picture that was taken of a node after some objects were met: what it is restored to stands
for the node. -/
structure Casts (supply : Supplier) (u : Session) (seen : List Value) (v : Value) (p : Snapshot)
    (seen' : List Value) : Prop where
  sorted : Sorted u seen seen'
  rebuilds (Q : List Value) : Rebuilds u Q seen seen' (restoreWith supply p) fun table _ x =>
    Represents seen' table x v

/-- What stands for a type is a type. -/
theorem Faithful.isNull_of_stands {Q : List Value} {table : List (Nat × Value)}
    (h : Faithful u Q seen t table) (stands : Represents seen table x v) : x.isNull = false := by
  rcases stands with ⟨r, -, rfl, -⟩ | ⟨k, filed⟩
  · rfl
  · obtain ⟨y, held, anew, -⟩ := h.nodes filed.met filed.node
    cases Option.some.inj (held.symm.trans filed.held)
    cases x <;> first | rfl | cases anew

/-- What stands for a type is known. -/
theorem Casts.known (h : Casts supply u seen v p seen') (Q : List Value) :
    Rebuilds u Q seen seen' (restoreWith supply p) fun table _ x =>
      Types.kept x = some x ∧ Represents seen' table x v :=
  (h.rebuilds Q).conclude fun faithful stands =>
    ⟨Types.kept_of_not_isNull (faithful.isNull_of_stands stands), stands⟩

/-- A scalar that is not built in is made anew once its parts are there. -/
theorem Faithful.newScalar {Q : List Value} {table : List (Nat × Value)} {r : Ref .scalar}
    {c : ScalarType} (h : Faithful u Q seen t table) (c' : ScalarType)
    (unseen : number? (.scalar r) seen = none) (custom : BuiltIn.isScalar r = false)
    (nested : u.node? (.scalar r) = some (.scalar c))
    (name : t.IsTwin (Display.typeName c'.name) (Display.typeName c.name)) :
    ∃ r' t', Action.newScalar c' t = .ok r' t' ∧ t.Remains t' ∧
      Faithful u Q (.scalar r :: seen) t' ((seen.length, .scalar r') :: table) ∧
        Represents (.scalar r :: seen) ((seen.length, .scalar r') :: table) (.scalar r')
          (.scalar r) := by
  have node : (Value.scalar r).isNode = true := by
    show (!BuiltIn.isScalar r) = true
    rw [custom]
    rfl
  have present := h.remains.nodes nested
  obtain ⟨_, cell, -⟩ := Option.map_eq_some_iff.1 present
  have live := (Arena.get?_eq_some cell).1
  have anew : (Value.scalar ⟨t.scalars.size⟩).isNode = true := by
    show (!BuiltIn.isScalar ⟨t.scalars.size⟩) = true
    rw [Bool.not_eq_true', ← Bool.not_eq_true, BuiltIn.isScalar_iff]
    rw [← Bool.not_eq_true, BuiltIn.isScalar_iff] at custom
    show ¬t.scalars.size < 5
    omega
  have absent : t.node? (.scalar ⟨t.scalars.size⟩) = none :=
    congrArg (Option.map Node.scalar) (Arena.get?_of_le (Nat.le_refl _))
  obtain ⟨t', made, there, remains⟩ : ∃ t', Action.newScalar c' t = .ok ⟨t.scalars.size⟩ t' ∧
      t'.node? (.scalar ⟨t.scalars.size⟩) = some (.scalar c') ∧ t.Remains t' := by
    refine ⟨_, rfl, ?_, fun y b _ body => ?_, fun {y b} node => ?_⟩
    · rw [Session.node?, Arena.get?_add_self]
      rfl
    · cases y <;> exact body
    · cases y <;> first | exact node | exact Arena.map_get?_add _ node
  have filed : Filed (.scalar r :: seen) ((seen.length, .scalar ⟨t.scalars.size⟩) :: table)
      seen.length (.scalar ⟨t.scalars.size⟩) (.scalar r) :=
    ⟨reverse_cons_length _ seen, node, lookup_self _ _ _⟩
  refine ⟨_, t', made, remains, ?_, .inr ⟨_, filed⟩⟩
  exact (h.enter unseen node remains anew absent (by rw [there]; rfl)).close filed
    ⟨_, _, there, nested, .scalar (remains.isTwin name)⟩

end Snapshot

end DirectiveSchema
