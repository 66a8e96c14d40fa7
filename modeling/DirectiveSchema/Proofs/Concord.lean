import DirectiveSchema.Proofs.Rebuilding
import DirectiveSchema.Proofs.Settled

/-!
Copies that no question tells apart. Plain data that are alike are written with the same text, hash
to the same key, and are equal to the same data.
-/
namespace DirectiveSchema

variable {α β γ δ : Type} {s : Session} {supply supply' : Supplier} {v x y z : Value}
  {m n N N' : Nat}

/-! ### Actions that end alike -/

/-- Two actions that leave the session as it is: they return related results or meet one fault. -/
def Action.Concur (s : Session) (R : α → β → Prop) (f : Action α) (g : Action β) : Prop :=
  (∃ a b, f s = .ok a s ∧ g s = .ok b s ∧ R a b) ∨ ∃ e, f s = .error e s ∧ g s = .error e s

namespace Action.Concur

variable {R S : α → β → Prop} {T : γ → δ → Prop} {f : Action α} {g : Action β}

theorem pure {a : α} {b : β} (h : R a b) : Concur s R (Pure.pure a) (Pure.pure b) :=
  .inl ⟨a, b, rfl, rfl, h⟩

theorem throw (e : Fault) :
    Concur s R (MonadExcept.throw e : Action α) (MonadExcept.throw e : Action β) :=
  .inr ⟨e, rfl, rfl⟩

theorem imp (h : Concur s R f g) (weaker : ∀ a b, R a b → S a b) : Concur s S f g :=
  h.imp_left fun ⟨a, b, left, right, related⟩ => ⟨a, b, left, right, weaker a b related⟩

theorem bind {f' : α → Action γ} {g' : β → Action δ} (first : Concur s R f g)
    (rest : ∀ a b, R a b → Concur s T (f' a) (g' b)) : Concur s T (f >>= f') (g >>= g') := by
  rcases first with ⟨a, b, left, right, related⟩ | ⟨e, left, right⟩
  · rcases rest a b related with ⟨c, d, left', right', related'⟩ | ⟨e, left', right'⟩
    · exact .inl ⟨c, d, (bind_of_ok left).trans left', (bind_of_ok right).trans right', related'⟩
    · exact .inr ⟨e, (bind_of_ok left).trans left', (bind_of_ok right).trans right'⟩
  · exact .inr ⟨e, bind_of_error left, bind_of_error right⟩

theorem map {f' : α → γ} {g' : β → δ} (first : Concur s R f g)
    (related : ∀ a b, R a b → T (f' a) (g' b)) :
    Concur s T (f >>= fun a => Pure.pure (f' a)) (g >>= fun b => Pure.pure (g' b)) :=
  first.bind fun a b h => pure (related a b h)

theorem read {f' : Session → Action γ} {g' : Session → Action δ} (h : Concur s T (f' s) (g' s)) :
    Concur s T (MonadState.get >>= f') (MonadState.get >>= g') := h

theorem mapM {f' : α → Action γ} {g' : β → Action δ} {as : List α} {bs : List β}
    (h : List.Forall₂ (fun a b => Concur s T (f' a) (g' b)) as bs) :
    Concur s (List.Forall₂ T) (as.mapM f') (bs.mapM g') := by
  induction h with
  | nil => exact pure .nil
  | cons first _ ih =>
    rw [List.mapM_cons, List.mapM_cons]
    exact first.bind fun a b head => ih.map fun as bs tail => .cons head tail

theorem foldlM {f' : γ → α → Action γ} {g' : δ → β → Action δ} {as : List α} {bs : List β}
    (h : List.Forall₂ (fun a b => ∀ c d, T c d → Concur s T (f' c a) (g' d b)) as bs) {c : γ}
    {d : δ} (start : T c d) : Concur s T (as.foldlM f' c) (bs.foldlM g' d) := by
  induction h generalizing c d with
  | nil => exact pure start
  | cons first _ ih =>
    rw [List.foldlM_cons, List.foldlM_cons]
    exact (first c d start).bind fun c' d' next => ih next

/-- Only what becomes of the session at hand counts. -/
theorem congr {f' : Action α} {g' : Action β} (h : Concur s R f g) (left : f' s = f s)
    (right : g' s = g s) : Concur s R f' g' := by
  rw [Concur, left, right]
  exact h

/-- Actions with one result end as one. -/
theorem eq {f g : Action α} (h : Concur s Eq f g) : f s = g s := by
  rcases h with ⟨a, b, left, right, rfl⟩ | ⟨e, left, right⟩
  · exact left.trans right.symm
  · exact left.trans right.symm

end Action.Concur

open Action (Concur)

/-! ### Plain data that are alike -/

namespace Session

/-- What is needed of a datum and of its parts to be plain and no type. -/
def Simple (s : Session) (v : Value) : Prop := s.Plain v ∧ v.isScalar = false

/-- Plain data without types: finite nestings of atoms, tuples, records, lists, sets and
dictionaries. -/
def IsSimple (s : Session) (v : Value) : Prop := ∃ n, s.Nests Simple n v

theorem Nests.plain (h : s.Nests Simple n v) : s.Nests Plain n v := h.imp fun _ simple => simple.1

theorem Simple.isDirective (h : s.Simple v) : v.isDirective = false := by
  cases v with
  | directive r =>
    have plain := h.1
    rw [Plain] at plain
    split at plain
    · cases plain
    · rename_i b body
      obtain ⟨d, -, rfl⟩ := Option.map_eq_some_iff.1 body
      cases plain.1
  | _ => rfl

/-- Simple data that are alike, to a nesting. -/
structure Twin (s : Session) (n : Nat) (x y : Value) : Prop where
  like : s.Alike n x y
  left : s.Nests Simple n x
  right : s.Nests Simple n y

theorem Alike.resize {P : Session → Value → Prop} (h : s.Alike m x y) (nests : s.Nests P n y) :
    s.Alike n x y := by
  induction n generalizing m x y with
  | zero => cases nests
  | succ n ih =>
    cases m with
    | zero => cases h
    | succ m =>
      rcases h with same | ⟨b, c, left, right, fits, parts⟩
      · exact .inl same
      · refine .inr ⟨b, c, left, right, fits, Snapshot.forall₂_of_mem parts fun z w hw like => ?_⟩
        exact ih like (nests.2 w (by rwa [parts_of_body right]))

/-- What is like a sound set or dictionary of keyed data has the same keys. -/
theorem sound_of_fits {b c : Body} (fits : b.Fits c) (data : c.isData = true) (sound : c.Sound)
    (parts : List.Forall₂ (s.Alike n) b.parts c.parts) : b.Sound := by
  cases b <;> cases c <;> try first | trivial | exact fits.elim | cases data
  case set members members' =>
    refine ⟨fun m hm => ?_, fits.2⟩
    obtain ⟨m', hm', key, like⟩ := exists_right (members_related fits.1 parts) hm
    exact key ▸ like.key (sound.1 m' hm')
  case dict entries entries' =>
    refine ⟨fun e he => ?_, fits.2⟩
    obtain ⟨e', he', key, like, -⟩ := exists_right (entries_related fits.1 parts) he
    exact key ▸ like.key (sound.1 e' he')

theorem Alike.simple (h : s.Alike n x y) (nests : s.Nests Simple n y) : s.Nests Simple n x := by
  induction n generalizing x y with
  | zero => cases h
  | succ n ih =>
    rcases h with ⟨rfl, -⟩ | ⟨b, c, left, right, fits, parts⟩
    · exact nests
    · obtain ⟨⟨plain, -⟩, below⟩ := nests
      rw [Plain, right] at plain
      refine ⟨⟨?_, ?_⟩, fun z hz => ?_⟩
      · rw [Plain, left]
        exact ⟨fits.isData_eq.trans plain.1, sound_of_fits fits plain.1 plain.2 parts⟩
      · cases x <;> first | rfl | cases left
      · rw [parts_of_body left] at hz
        obtain ⟨w, hw, like⟩ := exists_right parts hz
        exact ih like (below w (by rwa [parts_of_body right]))

theorem Alike.twin (h : s.Alike m x y) (nests : s.Nests Simple n y) : s.Twin n x y :=
  have like := h.resize nests
  ⟨like, like.simple nests, nests⟩

namespace Twin

theorem symm (h : s.Twin n x y) : s.Twin n y x := ⟨h.like.symm, h.right, h.left⟩

/-- Data that are twins have twins as parts. -/
theorem cases (h : s.Twin (n + 1) x y) : x = y ∧ x.isAtom = true ∨
    ∃ b c, s.body? x = some b ∧ s.body? y = some c ∧ b.isData = true ∧ b.Fits c ∧
      List.Forall₂ (s.Twin n) b.parts c.parts := by
  rcases h.like with same | ⟨b, c, left, right, fits, parts⟩
  · exact .inl same
  · have plain : s.Plain x := h.left.1.1
    rw [Plain, left] at plain
    refine .inr ⟨b, c, left, right, plain.1, fits, Snapshot.forall₂_of_mem parts
      fun z w hw like => like.twin (h.right.2 w (by rwa [parts_of_body right]))⟩

/-- Twins have one least nesting. -/
theorem least (h : s.Twin n x y) :
    ∃ k < n, s.Twin (k + 1) x y ∧ ¬s.Nests Simple k x ∧ ¬s.Nests Simple k y := by
  obtain ⟨k, less, nests, deeper⟩ := h.right.least
  exact ⟨k, less, h.like.twin nests, fun left => deeper (h.symm.like.twin left).left, deeper⟩

/-- Any walk that starts at one of two twins has room for them. -/
theorem bounded (h : s.Twin n x y) :
    ∃ k, s.Twin k x y ∧ k ≤ (s.reach + x.depth + 1) * (s.reach + x.depth + 1) ∧
      k ≤ (s.reach + y.depth + 1) * (s.reach + y.depth + 1) := by
  obtain ⟨k, -, twin, deeper, deeper'⟩ := h.least
  have flat {v : Value} {m : Nat} (nests : s.Nests Simple m v) (deep : ¬s.Nests Simple k v) :
      k + 1 ≤ (s.reach + v.depth + 1) * (s.reach + v.depth + 1) :=
    Nat.le_trans (Nat.lt_of_not_le fun le => deep (nests.bounded.mono le)) (s.bound_le v.depth)
  exact ⟨k + 1, twin, flat twin.left deeper, flat twin.right deeper'⟩

end Twin

end Session

namespace Value

mutual

theorem same_comm : ∀ x y : Value, x.same y = y.same x
  | .tuple a xs, y => by
    cases y <;> first | rfl | simp only [same, sameAll_comm xs, Bool.beq_comm (a := a)]
  | .config a name locations args description, y => by
    cases y <;> first
      | rfl
      | simp only [same, same_comm name, same_comm locations, same_comm args,
          same_comm description, Bool.beq_comm (a := a)]
  | .null, y | .unnamed, y | .bool _, y | .int _, y | .float _, y | .text _, y | .bytes _, y
  | .location _, y | .foreign _ _, y | .list _, y | .set _, y | .dict _, y | .named _, y
  | .scalar _, y | .wrapper _ _, y | .argument _, y | .directive _, y | .deferred _, y => by
    cases y <;> first
      | rfl
      | simp only [same, Binary64.same, Bool.beq_comm, eq_comm]

theorem sameAll_comm : ∀ xs ys : List Value, sameAll xs ys = sameAll ys xs
  | [], ys => by cases ys <;> rfl
  | x :: xs, ys => by
    cases ys with
    | nil => rfl
    | cons y ys => rw [sameAll, sameAll, same_comm x y, sameAll_comm xs ys]

end
/-- A plain datum is identical with no other. -/
theorem eq_of_same_left (h : x.same y = true) (nests : s.Nests Session.Simple n x) : x = y :=
  (eq_of_same ((same_comm y x).trans h) nests.plain.sound).symm

end Value

/-! ### Texts -/

namespace Display

/-- A container is not being written when none of those around it is nested so flatly. -/
theorem isWriting_of_deeper {k : Nat} (nests : s.Nests Session.Simple (k + 1) x)
    (around : ∀ c ∈ supply.writing, ¬s.Nests Session.Simple (k + 1) c) :
    supply.isWriting x = false := by
  rw [Supplier.isWriting, List.any_eq_false]
  intro c hc same
  cases Value.eq_of_same_left same nests
  exact around _ hc nests

theorem concur_integer (i : Int) : Concur s Eq (integer i) (integer i) := by
  simp only [integer]
  split
  · exact .throw _
  · exact .pure rfl

theorem concur_enter {mark : String} {f g : Supplier → Action String}
    (left : supply.isWriting x = false) (right : supply'.isWriting y = false)
    (inner : Concur s Eq (f (supply.within x)) (g (supply'.within y))) :
    Concur s Eq (enter supply x mark f) (enter supply' y mark g) := by
  rw [enter, enter, left, right]
  exact inner

/-- Twins are written alike, when there is room for both, or as much of it for one as for the other.
Neither of them is met inside itself, so no marks are set. -/
theorem concur_write {form : Form} (h : s.Twin n x y)
    (left : ∀ c ∈ supply.writing, ¬s.Nests Session.Simple n c)
    (right : ∀ c ∈ supply'.writing, ¬s.Nests Session.Simple n c)
    (room : n ≤ N ∧ n ≤ N' ∨ N = N') :
    Concur s Eq (write N supply form x) (write N' supply' form y) := by
  induction N generalizing n x y N' supply supply' form with
  | zero =>
    rcases room with ⟨le, -⟩ | rfl
    · cases Nat.le_zero.1 le
      cases h.left
    · exact .throw _
  | succ N ih =>
    obtain ⟨k, less, twin, deeper, deeper'⟩ := h.least
    obtain ⟨M, rfl⟩ : ∃ M, N' = M + 1 := ⟨N' - 1, by omega⟩
    replace room : k ≤ N ∧ k ≤ M ∨ N = M := by omega
    replace left : ∀ c ∈ supply.writing, ¬s.Nests Session.Simple (k + 1) c :=
      fun c hc nests => left c hc (nests.mono less)
    replace right : ∀ c ∈ supply'.writing, ¬s.Nests Session.Simple (k + 1) c :=
      fun c hc nests => right c hc (nests.mono less)
    have flat (c : Value) (deep : ¬s.Nests Session.Simple (k + 1) c) :
        ¬s.Nests Session.Simple k c :=
      fun nests => deep (nests.mono (Nat.le_succ k))
    have inside : ∀ c ∈ (supply.within x).writing, ¬s.Nests Session.Simple k c := by
      intro c hc
      rcases List.mem_cons.1 hc with rfl | hc
      · exact deeper
      · exact flat c (left c hc)
    have inside' : ∀ c ∈ (supply'.within y).writing, ¬s.Nests Session.Simple k c := by
      intro c hc
      rcases List.mem_cons.1 hc with rfl | hc
      · exact deeper'
      · exact flat c (right c hc)
    have free := isWriting_of_deeper twin.left left
    have free' := isWriting_of_deeper twin.right right
    rcases twin.cases with ⟨rfl, atom⟩ | ⟨b, c, body, body', data, fits, parts⟩
    · have single : x.isScalar = false := twin.left.1.2
      cases x with
      | int i => exact concur_integer i
      | scalar => cases single
      | null | unnamed | bool | float | text | bytes | location => exact .pure rfl
      | _ => cases atom
    · have written : List.Forall₂ (fun z w => Concur s Eq (write N (supply.within x) .literal z)
          (write M (supply'.within y) .literal w)) b.parts c.parts :=
        parts.imp fun z w twin => ih twin inside inside' room
      have made := Session.makes_of_body body
      have made' := Session.makes_of_body body'
      cases b <;> cases c <;> try first | exact fits.elim | (cases data; done)
      case tuple items items' =>
        obtain ⟨tag, rfl⟩ := made
        obtain ⟨tag', rfl⟩ := made'
        have same : items.length = items'.length := parts.length_eq
        simp only [write]
        refine concur_enter free free' ((Action.Concur.mapM written).map fun as bs texts => ?_)
        rw [List.forall₂_eq_eq_eq] at texts
        rw [texts, same]
      case config =>
        obtain ⟨tag, rfl⟩ := made
        obtain ⟨tag', rfl⟩ := made'
        simp only [Body.parts] at parts
        obtain ⟨name, rest⟩ := List.forall₂_cons.1 parts
        obtain ⟨locations, rest⟩ := List.forall₂_cons.1 rest
        obtain ⟨args, rest⟩ := List.forall₂_cons.1 rest
        obtain ⟨description, -⟩ := List.forall₂_cons.1 rest
        -- A record sets no mark, so its parts are written where it is.
        have field {z w : Value} (twin : s.Twin k z w) :
            Concur s Eq (write N supply .literal z) (write M supply' .literal w) :=
          ih twin (fun c hc => flat c (left c hc)) (fun c hc => flat c (right c hc)) room
        simp only [write]
        refine (field name).bind fun _ _ a => (field locations).bind fun _ _ b =>
          (field args).bind fun _ _ c => (field description).map fun _ _ d => ?_
        rw [a, b, c, d]
      case list =>
        obtain ⟨r, rfl, -, rfl⟩ := made
        obtain ⟨r', rfl, -, rfl⟩ := made'
        simp only [write]
        refine concur_enter free free' (.read ?_)
        refine (Action.Concur.mapM written).map fun as bs texts => ?_
        rw [List.forall₂_eq_eq_eq] at texts
        rw [texts]
      case set =>
        obtain ⟨r, rfl, -, rfl⟩ := made
        obtain ⟨r', rfl, -, rfl⟩ := made'
        have members := List.forall₂_map_left_iff.1 (List.forall₂_map_right_iff.1 written)
        simp only [write]
        refine concur_enter free free' (.read ?_)
        refine (Action.Concur.mapM members).map fun as bs texts => ?_
        rw [List.forall₂_eq_eq_eq] at texts
        rw [texts]
      case dict =>
        obtain ⟨r, rfl, -, rfl⟩ := made
        obtain ⟨r', rfl, -, rfl⟩ := made'
        simp only [write]
        refine concur_enter free free' (.read ?_)
        refine (Action.Concur.mapM (T := Eq) ((entries_related fits.1 written).imp
          fun e e' related => ?_)).map fun as bs texts => ?_
        · refine related.2.1.bind fun _ _ key => related.2.2.map fun _ _ value => ?_
          rw [key, value]
        · rw [List.forall₂_eq_eq_eq] at texts
          rw [texts]

theorem literal_of_isDirective (h : v.isDirective = false) :
    literal supply v = Action.boundedPairs v.depth fun N => write N supply .literal v := by
  cases v <;> first | rfl | cases h

section

variable (free : supply.writing = []) (free' : supply'.writing = [])

include free free'

end

end Display

end DirectiveSchema
