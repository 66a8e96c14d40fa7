import DirectiveSchema.Proofs.Restoring

/-!
Rebuilding objects from their pictures. An object is numbered either before its parts are built, and
then filled, or after them. In both ways what comes of it is a copy of what was pictured.
-/
namespace DirectiveSchema.Snapshot

variable {G : Grade} {supply : Supplier} {u s t t' : Session} {O seen seen₁ seen' : List Value}
  {v x : Value} {p : Snapshot} {n k : Nat}

/-! ### Objects that were met -/

theorem met_of_number? (h : number? v seen = some k) :
    ∃ x, seen.reverse[k]? = some x ∧ x.same v = true := by
  induction seen with
  | nil => cases h
  | cons w seen ih =>
    rw [number?] at h
    split at h
    · cases h
      exact ⟨w, reverse_cons_length w seen, ‹_›⟩
    · obtain ⟨x, found, same⟩ := ih h
      exact ⟨x, (reverse_cons_of_lt w seen (lt_length_of_met found)).trans found, same⟩

theorem not_mem_of_number? (h : number? v seen = none) : v ∉ seen := by
  induction seen with
  | nil => exact List.not_mem_nil
  | cons w seen ih =>
    rw [number?] at h
    split at h
    · cases h
    · rename_i other
      intro hv
      rcases List.mem_cons.1 hv with rfl | hv
      · exact other v.same_refl
      · exact ih h hv

/-- What stands for an object that was met before. -/
theorem depicts_seen (h : number? v seen = some k) : Depicts G supply u seen v (.seen k) seen := by
  intro n nests
  refine ⟨⟨[], rfl, fun _ hx => nomatch hx⟩, fun {O t table} ready met => ?_⟩
  obtain ⟨x, found, same⟩ := met_of_number? h
  cases Value.eq_of_same same (Grade.nests nests)
  obtain ⟨y, held, firm⟩ := met k v found nests
  refine ⟨y, t, table, ?_, .refl u O t seen table, firm⟩
  show EStateM.Result.ok ((table.lookup k).getD .null, table) t = _
  rw [held]
  rfl

/-! ### Data that stand for themselves -/

theorem depicts_self (firm : ∀ O t, Firm u O t v v) : Depicts G supply u seen v (.atom v) seen :=
  fun n _ => (Restores.pure G u n seen v).imp fun O t _ same => same ▸ firm O t

theorem firm_of_isAtom (atom : v.isAtom = true) (O : List Value) (t : Session) :
    Firm u O t v v := by
  intro t' _ j nests
  cases j with
  | zero => cases nests
  | succ j => exact .inl ⟨rfl, atom⟩

theorem firm_empty (tag : Nat) (O : List Value) (t : Session) :
    Firm u O t (.tuple tag []) (.tuple tag []) := by
  intro t' _ j nests
  cases j with
  | zero => cases nests
  | succ j => exact .inr ⟨.tuple [], .tuple [], rfl, rfl, trivial, .nil⟩

/-! ### Objects that are filled -/

/-- How objects of a kind are made and filled. A new object exists under its aliases and under no
other name, and to fill it changes no other one. -/
structure Vessel {kind : CellKind} {content : Type} (new : Action (Ref kind))
    (value : Ref kind → Value) (put : Session → Ref kind → content → Session)
    (aliases : Ref kind → List Value) (body : content → Body) : Prop where
  self (r : Ref kind) : value r ∈ aliases r
  fresh (t : Session) : ∃ r t', new t = .ok r t' ∧
    (∀ x ∈ aliases r, t.body? x = none ∧ (t'.body? x).isSome = true) ∧
      ∀ x, x ∉ aliases r → t'.body? x = t.body? x
  filled {t : Session} {r : Ref kind} (c : content) :
    (t.body? (value r)).isSome = true → (put t r c).body? (value r) = some (body c)
  others {t : Session} {r : Ref kind} (c : content) {x : Value} :
    x ∉ aliases r → (put t r c).body? x = t.body? x

theorem forall₂_of_mem {α β : Type} {R S : α → β → Prop} {xs : List α} {ys : List β}
    (h : List.Forall₂ R xs ys) (step : ∀ x, ∀ y ∈ ys, R x y → S x y) : List.Forall₂ S xs ys := by
  induction h with
  | nil => exact .nil
  | cons first _ ih =>
    exact .cons (step _ _ List.mem_cons_self first)
      (ih fun x y hy => step x y (List.mem_cons_of_mem _ hy))

/-- An object over copies of the parts of another one is a copy of it. -/
theorem firm_of_body {b c : Body} {x : Value} (ready : Ready u O t) (nested : u.body? v = some b)
    (built : ∀ t', t.Agrees O t' → t'.body? x = some c) (fits : c.Fits b)
    (firms : List.Forall₂ (Firm u O t) c.parts b.parts) : Firm u O t x v := by
  intro t' later j nests
  cases j with
  | zero => cases nests
  | succ j =>
    have shut : v ∉ O := by
      intro hv
      rw [ready.foreign hv] at nested
      cases nested
    have present : t'.body? v = some b :=
      later v b shut (ready.agrees v b List.not_mem_nil nested)
    refine .inr ⟨c, b, built t' later, present, fits, forall₂_of_mem firms fun y z hz firm => ?_⟩
    exact firm t' later j (nests.2 z (by rwa [Session.parts_of_body nested]))

/-- While a new object is open, copies of other ones last as before. -/
theorem Firm.enter {A : List Value} {x y : Value} (h : Firm u O t x y)
    (absent : ∀ z ∈ A, t.body? z = none) (unchanged : ∀ z, z ∉ A → t'.body? z = t.body? z) :
    Firm u (A ++ O) t' x y := by
  intro t'' later
  refine h t'' fun z b shut body => ?_
  have other : z ∉ A := by
    intro hz
    rw [absent z hz] at body
    cases body
  refine later z b (fun hz => (List.mem_append.1 hz).elim other shut) ?_
  rwa [unchanged z other]

/-- Copies that last while an object is open last once it is filled. -/
theorem Firm.leave {A : List Value} {x y : Value} (h : Firm u (A ++ O) t x y)
    (unchanged : ∀ z, z ∉ A → t'.body? z = t.body? z) : Firm u O t' x y := by
  intro t'' later
  refine h t'' fun z b shut body => ?_
  rw [List.mem_append, not_or] at shut
  exact later z b shut.2 (by rwa [unchanged z shut.1])

section

variable {kind : CellKind} {content : Type} {new : Action (Ref kind)} {value : Ref kind → Value}
  {put : Session → Ref kind → content → Session} {aliases : Ref kind → List Value}
  {body : content → Body} {build : Restoring content} {b : Body} {r : Ref kind}
  {table : List (Nat × Value)} {t₁ t₂ : Session}

theorem fill_of_ok {table₂ : List (Nat × Value)} {c : content} (made : new t = .ok r t₁)
    (built : build ((k, value r) :: table) t₁ = .ok (c, table₂) t₂) :
    fill k new value put build table t = .ok (value r, table₂) (put t₂ r c) := by
  have settled : settle k (value r) table t₁ = .ok (value r, (k, value r) :: table) t₁ := rfl
  rw [fill, Action.bindWith_of_ok (Action.lift_of_ok made), Action.bindWith_of_ok settled,
    Action.bindWith_of_ok built]
  rfl

/-- An object is open after it was made. -/
theorem Ready.enter (ready : Ready u O t)
    (names : ∀ x ∈ aliases r, t.body? x = none ∧ (t₁.body? x).isSome = true)
    (agrees : t.Agrees [] t₁) : Ready u (aliases r ++ O) t₁ where
  agrees := ready.agrees.trans agrees
  foreign {z} hz := by
    rcases List.mem_append.1 hz with hz | hz
    · cases before : u.body? z with
      | none => rfl
      | some b =>
        have present := ready.agrees z b List.not_mem_nil before
        rw [(names z hz).1] at present
        cases present
    · exact ready.foreign hz
  live {z} hz := by
    rcases List.mem_append.1 hz with hz | hz
    · exact (names z hz).2
    · exact (ready.agrees' agrees).live hz

/-- What is at hand for the parts of an object, once the object itself is open. -/
theorem AtHand.enter (met : AtHand G u O t n seen table) (deeper : ¬u.Nests G.holds n v)
    (absent : ∀ z ∈ aliases r, t.body? z = none)
    (unchanged : ∀ z, z ∉ aliases r → t₁.body? z = t.body? z) :
    AtHand G u (aliases r ++ O) t₁ n (v :: seen) ((seen.length, value r) :: table) := by
  intro j x found nests
  rcases Nat.lt_or_eq_of_le (Nat.le_of_lt_succ (lt_length_of_met found)) with old | rfl
  · rw [reverse_cons_of_lt v seen old] at found
    obtain ⟨y, held, firm⟩ := met j x found nests
    refine ⟨y, ?_, firm.enter absent unchanged⟩
    rwa [lookup_of_ne _ _ (Nat.ne_of_lt old)]
  · rw [reverse_cons_length] at found
    cases found
    exact absurd nests deeper

/-- The picture of an object that is numbered before its parts. -/
theorem depicts_fill (vessel : Vessel new value put aliases body)
    (shape : restoreWith supply p = fill seen.length new value put build)
    (nested : u.body? v = some b)
    (parts : ∀ n, (∀ x ∈ b.parts, u.Nests G.holds n x) →
      Restores G u n (v :: seen) seen' build fun O t c =>
        (body c).Fits b ∧ List.Forall₂ (Firm u O t) (body c).parts b.parts) :
    Depicts G supply u seen v p seen' := by
  intro m nests
  -- The object itself is nested deeper than its parts, so that it is not needed while it is open.
  obtain ⟨n, less, nests', deeper⟩ := nests.least
  have inner := parts n fun x hx => nests'.2 x (by rwa [Session.parts_of_body nested])
  obtain ⟨new', rfl, nested'⟩ := inner.grown
  refine ⟨⟨new' ++ [v], by rw [List.append_assoc]; rfl, fun x hx => ?_⟩, ?_⟩
  · rcases List.mem_append.1 hx with hx | hx
    · exact (nested' x hx).mono (by omega)
    · exact List.mem_singleton.1 hx ▸ nests
  intro O t table ready met
  obtain ⟨r, t₁, made, names, unchanged⟩ := vessel.fresh t
  have absent : ∀ z ∈ aliases r, t.body? z = none := fun z hz => (names z hz).1
  have shut {z : Value} {c : Body} (present : t.body? z = some c) : z ∉ aliases r := by
    intro hz
    rw [absent z hz] at present
    cases present
  have agrees : t.Agrees [] t₁ := by
    intro z c _ present
    rwa [unchanged z (shut present)]
  obtain ⟨c, t₂, table₂, built, advances, fits, firms⟩ := inner.run (ready.enter names agrees)
    ((met.weaken (Nat.le_of_lt less)).enter deeper absent unchanged)
  have agrees' : t.Agrees [] (put t₂ r c) := by
    intro z d none present
    rw [vessel.others c (shut present)]
    exact advances.agrees z d none (agrees z d none present)
  have closed : (t₂.body? (value r)).isSome = true :=
    ((ready.enter names agrees).agrees' advances.agrees).live
      (List.mem_append_left O (vessel.self r))
  have firm : Firm u O (put t₂ r c) (value r) v := by
    refine firm_of_body (ready.agrees' agrees') nested (fun t' later => ?_) fits
      (firms.imp fun x y firm => firm.leave fun z hz => vessel.others c hz)
    refine later _ _ (fun hr => ?_) (vessel.filled c closed)
    have present := ready.live hr
    rw [absent _ (vessel.self r)] at present
    cases present
  refine ⟨value r, put t₂ r c, table₂, ?_, ?_, firm⟩
  · rw [shape]
    exact fill_of_ok made built
  refine ⟨agrees', fun {k} old => ?_, fun {k x} fresh found => ?_⟩
  · rw [advances.kept (Nat.lt_succ_of_lt old), lookup_of_ne _ _ (Nat.ne_of_lt old)]
  · rcases Nat.lt_or_ge k (v :: seen).length with own | later
    · cases Nat.le_antisymm (Nat.le_of_lt_succ own) fresh
      rw [reverse_append_left new' (v :: seen) own, reverse_cons_length] at found
      cases found
      exact ⟨value r, (advances.kept own).trans (lookup_self _ _ _), firm⟩
    · obtain ⟨y, held, copy⟩ := advances.added later found
      exact ⟨y, held, copy.leave fun z hz => vessel.others c hz⟩

end

/-! ### Objects that are built of their parts -/

/-- An object is not met among its own parts. -/
theorem number?_append_eq_none {new : List Value} {m : Nat} (unseen : number? v seen = none)
    (nested : ∀ x ∈ new, u.Nests G.holds n x) (deeper : ¬u.Nests G.holds n v)
    (nests : u.Nests G.holds m v) : number? v (new ++ seen) = none := by
  cases found : number? v (new ++ seen) with
  | none => rfl
  | some k =>
    obtain ⟨x, met, same⟩ := met_of_number? found
    have among := List.mem_reverse.1 (List.mem_of_getElem? met)
    cases Value.eq_of_same same (Grade.nests nests)
    rcases List.mem_append.1 among with hv | hv
    · exact absurd (nested v hv) deeper
    · exact absurd hv (not_mem_of_number? unseen)

/-- The picture of an object that is numbered after its parts. -/
theorem depicts_make {parts : Type} {build : Restoring parts} {construct : parts → Action Value}
    {P : List Value → Session → parts → Prop} {b : Body} (unseen : number? v seen = none)
    (shape : restoreWith supply p = make (slotOf v seen₁).1 build construct)
    (nested : u.body? v = some b)
    (inner : ∀ n, (∀ x ∈ b.parts, u.Nests G.holds n x) → Restores G u n seen seen₁ build P)
    (made : ∀ {O t c}, Ready u O t → P O t c → ∃ x t' b', construct c t = .ok x t' ∧
      t.Agrees [] t' ∧ (∀ t'', t'.Agrees O t'' → t''.body? x = some b') ∧ b'.Fits b ∧
        List.Forall₂ (Firm u O t) b'.parts b.parts) :
    Depicts G supply u seen v p (slotOf v seen₁).2 := by
  intro m nests
  obtain ⟨n, less, nests', deeper⟩ := nests.least
  have restores := inner n fun x hx => nests'.2 x (by rwa [Session.parts_of_body nested])
  obtain ⟨new, rfl, among⟩ := restores.grown
  have fresh := number?_append_eq_none unseen among deeper nests
  simp only [slotOf, fresh] at shape ⊢
  refine ⟨⟨v :: new, rfl, fun x hx => ?_⟩, fun {O t table} ready met => ?_⟩
  · rcases List.mem_cons.1 hx with rfl | hx
    · exact nests
    · exact (among x hx).mono (by omega)
  obtain ⟨c, t₁, table₁, built, advances, post⟩ :=
    restores.run ready (met.weaken (Nat.le_of_lt less))
  have ready₁ := ready.agrees' advances.agrees
  obtain ⟨x, t₂, b', constructed, agrees, body, fits, firms⟩ := made ready₁ post
  have firm : Firm u O t₂ x v := firm_of_body (ready₁.agrees' agrees) nested body fits
    (firms.imp fun y z firm => firm.agrees (agrees.despite O))
  refine ⟨x, t₂, ((new ++ seen).length, x) :: table₁, ?_, ?_, firm⟩
  · rw [shape, make, Action.bindWith_of_ok built,
      Action.bindWith_of_ok (Action.lift_of_ok constructed)]
    rfl
  refine ⟨advances.agrees.trans agrees, fun {k} old => ?_, fun {k y} later found => ?_⟩
  · have inside : k < (new ++ seen).length := by
      rw [List.length_append]
      omega
    exact (lookup_of_ne x table₁ (Nat.ne_of_lt inside)).trans (advances.kept old)
  · rcases Nat.lt_or_eq_of_le (Nat.le_of_lt_succ (lt_length_of_met found)) with inside | rfl
    · rw [reverse_cons_of_lt v _ inside] at found
      obtain ⟨z, held, copy⟩ := advances.added later found
      refine ⟨z, ?_, copy.agrees (agrees.despite O)⟩
      rwa [lookup_of_ne _ _ (Nat.ne_of_lt inside)]
    · rw [reverse_cons_length] at found
      cases found
      exact ⟨x, lookup_self _ x table₁, firm⟩

end DirectiveSchema.Snapshot
