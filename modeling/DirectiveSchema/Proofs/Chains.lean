import DirectiveSchema.Proofs.Descent
import DirectiveSchema.Proofs.Equivalence

/-!
How long chains of wrappers are. A chain that ends passes nothing twice, since what lies under a
wrapper tells the rest of the chain. What it may pass are the wrappers that exist, and those that
the bodies of references build; so there is always room enough to follow it, and what it ends in is
found.
-/
namespace DirectiveSchema

variable {b s s' u : Session} {t v x : Value} {w : Wrapper} {r : Ref .wrapper} {o : Origin}
  {W : Census} {n m : Nat} {ws : List Wrapper} {p q : Subject}

/-! ### The wrappers that references build -/

mutual

/-- The wrappers that an expression builds, from the outside; those that a reference builds when it
is called are among them. -/
def Expression.layers : Expression → List Origin
  | .type t => t.layers
  | _ => []

def TypeExpression.layers : TypeExpression → List Origin
  | .wrap w t => .wrapped w t :: t.layers
  | .value v => v.layers
  | .deferred _ t => t.layers
  | _ => []

end

mutual

theorem Expression.length_layers_le (e : Expression) : e.layers.length ≤ e.weight := by
  cases e with
  | type t =>
    have := t.length_layers_le
    simp only [Expression.layers, Expression.weight]
    omega
  | _ => exact Nat.zero_le _

theorem TypeExpression.length_layers_le (t : TypeExpression) : t.layers.length ≤ t.weight := by
  cases t with
  | wrap w e =>
    have := e.length_layers_le
    simp only [TypeExpression.layers, TypeExpression.weight, List.length_cons]
    omega
  | value v =>
    have := v.length_layers_le
    simp only [TypeExpression.layers, TypeExpression.weight]
    omega
  | deferred counter e =>
    have := e.length_layers_le
    simp only [TypeExpression.layers, TypeExpression.weight]
    omega
  | _ => exact Nat.zero_le _

end

/-- Layers that lie in each other: what an expression builds is among them. -/
def Origin.LiesIn (L : List Origin) : Origin → Prop
  | .wrapped w e => .wrapped w e ∈ L ∧ e.layers ⊆ L
  | .reference e => e.layers ⊆ L
  | _ => True

mutual

theorem Expression.origin_liesIn (e : Expression) : e.origin.LiesIn e.layers := by
  cases e with
  | type t =>
    rw [Expression.origin, Expression.layers]
    exact t.origin_liesIn
  | _ => exact True.intro

theorem TypeExpression.origin_liesIn (t : TypeExpression) : t.origin.LiesIn t.layers := by
  cases t with
  | wrap w e =>
    rw [TypeExpression.origin, TypeExpression.layers]
    exact ⟨List.mem_cons_self, List.subset_cons_self _ _⟩
  | value v =>
    rw [TypeExpression.origin, TypeExpression.layers]
    exact v.origin_liesIn
  | deferred counter e =>
    rw [TypeExpression.origin, TypeExpression.layers]
    exact List.Subset.refl _
  | _ => exact True.intro

end

theorem Origin.LiesIn.mono {L L' : List Origin} (h : o.LiesIn L) (subset : L ⊆ L') :
    o.LiesIn L' := by
  cases o with
  | wrapped w e => exact ⟨subset h.1, List.Subset.trans h.2 subset⟩
  | reference e => exact List.Subset.trans h subset
  | _ => trivial

mutual

theorem Expression.liesIn_layers {e : Expression} (h : o ∈ e.layers) : o.LiesIn e.layers := by
  cases e with
  | type t => exact TypeExpression.liesIn_layers (t := t) h
  | _ => cases h

theorem TypeExpression.liesIn_layers {t : TypeExpression} (h : o ∈ t.layers) :
    o.LiesIn t.layers := by
  cases t with
  | wrap w e =>
    rcases List.mem_cons.1 h with rfl | h
    · exact ⟨List.mem_cons_self, List.subset_cons_self _ _⟩
    · exact (TypeExpression.liesIn_layers h).mono (List.subset_cons_self _ _)
  | value v => exact Expression.liesIn_layers (e := v) h
  | deferred counter e => exact TypeExpression.liesIn_layers (t := e) h
  | _ => cases h

end

/-- The wrappers that the call of a source builds. -/
def Value.layers : Value → List Origin
  | .deferred d => d.body.layers
  | _ => []

theorem Value.length_layers_le (v : Value) : v.layers.length ≤ Session.sourceWeight v := by
  cases v with
  | deferred d => exact d.body.length_layers_le
  | _ => exact Nat.zero_le _

namespace Session

/-- What may be asked for a type when a chain is followed: the sources of wrappers, and what is bound
to names. -/
def sources (b : Session) : List Value :=
  b.wrappers.toList.flatMap (·.source.toList) ++ b.bindings.map Prod.snd

/-- The wrappers that references may build. -/
def layers (b : Session) : List Origin := b.sources.flatMap Value.layers

theorem layers_subset (h : x ∈ b.sources) : x.layers ⊆ b.layers :=
  fun _ among => List.mem_flatMap.2 ⟨x, h, among⟩

theorem liesIn_layers (h : o ∈ b.layers) : o.LiesIn b.layers := by
  obtain ⟨x, source, among⟩ := List.mem_flatMap.1 h
  have inside : o.LiesIn x.layers := by
    cases x with
    | deferred d => exact TypeExpression.liesIn_layers (t := d.body) among
    | _ => cases among
  exact inside.mono (layers_subset source)

theorem length_layers_le (b : Session) : b.layers.length ≤
    b.wrappers.toList.foldr (fun c n => c.source.elim 0 sourceWeight + n) 0 +
      b.bindings.foldr (fun p n => sourceWeight p.2 + n) 0 := by
  have wrappers (cs : List WrappingType) :
      ((cs.flatMap (·.source.toList)).flatMap Value.layers).length ≤
        cs.foldr (fun c n => c.source.elim 0 sourceWeight + n) 0 := by
    induction cs with
    | nil => exact Nat.le_refl _
    | cons c cs ih =>
      rw [List.flatMap_cons, List.flatMap_append, List.length_append, List.foldr_cons]
      refine Nat.add_le_add ?_ ih
      cases c.source with
      | none => exact Nat.le_refl _
      | some x => simpa using x.length_layers_le
  have bindings (ps : List (String × Value)) :
      ((ps.map Prod.snd).flatMap Value.layers).length ≤
        ps.foldr (fun p n => sourceWeight p.2 + n) 0 := by
    induction ps with
    | nil => exact Nat.le_refl _
    | cons p ps ih =>
      rw [List.map_cons, List.flatMap_cons, List.length_append, List.foldr_cons]
      exact Nat.add_le_add p.2.length_layers_le ih
  rw [layers, sources, List.flatMap_append, List.length_append]
  exact Nat.add_le_add (wrappers _) (bindings _)

/-! ### What a chain passes -/

/-- What a chain may pass: a datum that belongs to the session, or what a reference builds. -/
def Lies (W : Census) (b : Session) : Subject → Prop
  | .datum v => v.Belongs W
  | .given o => o.LiesIn b.layers

/-- The wrappers that a chain may pass. -/
def passages (W : Census) (b : Session) : List Subject :=
  W.classes.mapIdx (fun i w => .datum (.wrapper w ⟨i⟩)) ++ b.layers.map .given

theorem lies_subject (fits : b.Fits W) (h : o.LiesIn b.layers) : b.Lies W (b.subject o) := by
  cases o with
  | bound name =>
    rw [subject]
    cases known : b.binding? name with
    | none => trivial
    | some v => exact fits.binding known
  | _ => exact h

theorem lies_asked (fits : b.Fits W) (h : x ∈ b.sources) (belongs : x.Belongs W) :
    b.Lies W (b.asked x) := by
  cases x with
  | deferred d =>
    exact lies_subject fits (d.body.origin_liesIn.mono (layers_subset (x := .deferred d) h))
  | _ => exact belongs

theorem lies_askedOf (fits : b.Fits W) (h : o.LiesIn b.layers) : b.Lies W (b.askedOf o) := by
  cases o with
  | bound name =>
    rw [askedOf]
    cases known : b.binding? name with
    | none => trivial
    | some v =>
      obtain ⟨l₁, l₂, split, -⟩ := List.lookup_eq_some_iff.1 known
      refine lies_asked fits (List.mem_append_right _ ?_) (fits.binding known)
      simp [split]
  | reference e => exact lies_subject fits (e.origin_liesIn.mono h)
  | _ => exact h

/-- What lies under something that a chain may pass may be passed as well. -/
theorem Lies.under (h : b.Lies W p) (fits : b.Fits W) (under : b.under? p = some (w, q)) :
    b.Lies W q := by
  cases p with
  | datum v =>
    cases v with
    | wrapper w' r =>
      have live : r.index < b.wrappers.size :=
        Nat.lt_of_lt_of_eq (Value.Belongs.counted h rfl) (fits.count .wrapper).symm
      have held := WrappingType.includes_contents.1 (fits.wrapper r)
      rw [under?] at under
      split at under
      · next t known =>
        cases under
        exact held.1.2 t (by simp [known])
      · next source _ based =>
        cases under
        refine lies_asked fits (List.mem_append_left _ ?_) (held.1.1 source (by simp [based]))
        exact List.mem_flatMap.2 ⟨_, b.wrappers.get_mem_toList live, by
          rw [show b.wrappers.get r.index = b.wrapper r from rfl, based]
          exact List.mem_singleton_self _⟩
      · cases under
    | _ => cases under
  | given o =>
    cases o with
    | wrapped w' e =>
      rw [under?] at under
      split at under
      · cases under
      · cases under
        exact lies_askedOf fits (e.origin_liesIn.mono h.2)
    | _ => cases under

theorem Lies.mem_passages (h : b.Lies W p) (under : b.under? p = some (w, q)) :
    p ∈ b.passages W := by
  cases p with
  | datum v =>
    cases v with
    | wrapper w' r =>
      obtain ⟨live, same⟩ := List.getElem?_eq_some_iff.1 (Value.belongs_wrapper.1 h).2
      refine List.mem_append_left _ (List.mem_mapIdx.2 ⟨r.index, live, ?_⟩)
      rw [same]
    | _ => cases under
  | given o =>
    cases o with
    | wrapped w' e => exact List.mem_append_right _ (List.mem_map_of_mem h.1)
    | _ => cases under

/-- There are not more of them than a bound on nesting allows for. -/
theorem length_passages_le (fits : b.Fits W) : (b.passages W).length ≤ b.reach := by
  have := b.length_layers_le
  have := fits.classes
  simp only [passages, List.length_append, List.length_mapIdx, List.length_map, reach]
  omega

/-! ### How far chains reach -/

/-- So many wrappers lie on top of what wraps nothing. -/
inductive Falls (b : Session) : Nat → Subject → Prop where
  | ground {p : Subject} : b.under? p = none → Falls b 0 p
  | step {n : Nat} {p q : Subject} {w : Wrapper} :
      b.under? p = some (w, q) → Falls b n q → Falls b (n + 1) p

theorem Falls.unique (h : b.Falls n p) (h' : b.Falls m p) : n = m := by
  induction h generalizing m with
  | ground bottom =>
    cases h' with
    | ground => rfl
    | step under => cases bottom.symm.trans under
  | step under _ ih =>
    cases h' with
    | ground bottom => cases bottom.symm.trans under
    | step under' rest =>
      cases under.symm.trans under'
      rw [ih rest]

/-- A chain passes as many wrappers as it is long, each once. -/
theorem Falls.passes (h : b.Falls n p) (fits : b.Fits W) (lies : b.Lies W p) :
    ∃ ps : List Subject, ps.length = n ∧ ps.Nodup ∧
      ∀ q ∈ ps, q ∈ b.passages W ∧ ∃ m ≤ n, b.Falls m q := by
  induction h with
  | ground => exact ⟨[], rfl, .nil, fun _ among => absurd among List.not_mem_nil⟩
  | @step n p q w under rest ih =>
    obtain ⟨ps, length, apart, passed⟩ := ih (lies.under fits under)
    refine ⟨p :: ps, by rw [List.length_cons, length], List.nodup_cons.2 ⟨fun among => ?_, apart⟩,
      fun q' among => ?_⟩
    · obtain ⟨-, m, le, falls⟩ := passed p among
      have := falls.unique (.step under rest)
      omega
    · rcases List.mem_cons.1 among with rfl | among
      · exact ⟨lies.mem_passages under, n + 1, Nat.le_refl _, .step under rest⟩
      · obtain ⟨passage, m, le, falls⟩ := passed q' among
        exact ⟨passage, m, Nat.le_succ_of_le le, falls⟩

theorem Falls.le_reach (h : b.Falls n p) (fits : b.Fits W) (lies : b.Lies W p) : n ≤ b.reach := by
  obtain ⟨ps, rfl, apart, passed⟩ := h.passes fits lies
  have few := (List.subperm_of_subset apart fun q among => (passed q among).1).length_le
  exact Nat.le_trans few (length_passages_le fits)

/-- What ends a chain was told to wrap nothing. -/
theorem Stands.under_eq_none (h : b.Stands W s p v) (single : v.isWrapper = false) :
    b.under? p = none := by
  cases h with
  | datum => cases v <;> first | rfl | cases single
  | given _ gives => cases gives <;> first | rfl | cases single

/-- A chain is as long as it was told. -/
theorem Stands.falls (fits : b.Fits W) (traces : b.Traces s) (h : b.Stands W s p v)
    (run : Types.Unfolds Deferred.supplier s v ws t s') :
    b.Falls ws.length p ∧ Types.unwrapWithin Deferred.supplier ws.length v s = .ok t s' := by
  induction run generalizing p with
  | @leaf s v single =>
    refine ⟨.ground (h.under_eq_none single), ?_⟩
    cases v <;> first | rfl | cases single
  | step wrapped _ ih =>
    obtain ⟨q, under, stands⟩ := h.wrapped fits traces wrapped
    have later := (Traced.supplier.observed.wrapped [] _ _).of_ok wrapped
    obtain ⟨falls, rest⟩ := ih (Traces.lasting.trans traces later) stands
    exact ⟨.step under falls, (Action.bind_of_ok wrapped).trans rest⟩

end Session

namespace Types

theorem Unwraps.unfolds {supply : Supplier} (h : Unwraps supply s v s' t) :
    ∃ ws, Unfolds supply s v ws t s' := by
  induction h with
  | leaf single => exact ⟨[], .leaf single⟩
  | step wrapped _ ih =>
    obtain ⟨ws, rest⟩ := ih
    exact ⟨_, .step wrapped rest⟩

/-- A chain is not longer than nesting may be deep. -/
theorem Unfolds.length_le (h : Unfolds Deferred.supplier s v ws t s') (fits : s.Fits W)
    (belongs : v.Belongs W) : ws.length ≤ s.reach :=
  (Session.Stands.falls fits (.refl s) (.datum belongs) h).1.le_reach fits (p := .datum v) belongs

/-- There is room to follow every chain that ends. -/
theorem unwrap_of_unwraps {t : Value} (fits : s.Fits W) (belongs : v.Belongs W)
    (run : Unwraps Deferred.supplier s v s' t) : unwrap Deferred.supplier v s = .ok t s' := by
  obtain ⟨ws, chain⟩ := run.unfolds
  have short := chain.length_le fits belongs
  have found := (Session.Stands.falls fits (.refl s) (.datum belongs) chain).2
  exact unwrapWithin_mono found (by omega : ws.length ≤ s.reach + v.depth + 1)

end Types

end DirectiveSchema
