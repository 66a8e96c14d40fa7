import DirectiveSchema.Proofs.Interchange
import DirectiveSchema.Proofs.Recurrence
import DirectiveSchema.Proofs.TypeDuplication
import DirectiveSchema.Proofs.TypeStorage

/-!
Copies of wrapping types and arguments. A shallow copy is over the same type and the same data. A
deep or a stored one is made of copies, which are equal to the originals as long as there is nothing
in them but plain data and built-in scalars. Each of them is a new object, so that nothing that is
assigned to it is assigned to the original.
-/
namespace DirectiveSchema

variable {s s₁ t u u' : Session} {x y z : Value} {w : Wrapper} {r r' : Ref .wrapper}
  {q q' : Ref .argument} {calls : List String}

namespace Session

/-! ### Shallow copies -/

/-- A wrapper over a type, or an argument, of which no attribute was deleted. -/
inductive Intact (s : Session) : Value → Prop where
  | wrapper {w : Wrapper} {r : Ref .wrapper} {source : Value} : r.index < s.wrappers.size →
      (s.wrapper r).source = some source → s.Intact (.wrapper w r)
  | argument {q : Ref .argument} : q.index < s.arguments.size → (s.argument q).Whole →
      s.Intact (.argument q)

/-- Whatever is observed afterwards, two objects are of one type. The copy knows it; the other one
may have to ask for it, if it is null. -/
structure OneType (t : Session) (z y x : Value) : Prop where
  copy {u : Session} : t.Leads u → Access.get Deferred.supplier y "type" u = .ok z u
  original {u : Session} : t.Leads u → ∃ calls,
    Access.get Deferred.supplier x "type" u = .ok z { u with calls }

/-- A shallow copy of a wrapper or of an argument is over the same type and the same data. -/
inductive Repeats (t : Session) (z : Value) : Value → Value → Prop where
  | wrapper {w : Wrapper} {r r' : Ref .wrapper} : r.index < t.wrappers.size →
      t.OneType z (.wrapper w r') (.wrapper w r) → t.Repeats z (.wrapper w r') (.wrapper w r)
  | argument {q q' : Ref .argument} : q.index < t.arguments.size → q'.index < t.arguments.size →
      (t.argument q').Resembles (t.argument q) → (t.argument q).Whole →
        t.OneType z (.argument q') (.argument q) → t.Repeats z (.argument q') (.argument q)

theorem Persists.of_leads (h : t.Leads u) : t.Persists u := h.keeps Candid.supplier.observed

theorem KeepsTypes.of_leads (h : t.Leads u) : t.KeepsTypes u :=
  h.keeps Session.KeepsTypes.custody.observed

/-- What has a type is copied, over this type. -/
theorem Intact.shallowCopy (h : s.Intact x)
    (read : Access.get Deferred.supplier x "type" s = .ok z s₁) :
    ∃ y t, x.copy Deferred.supplier .shallow s = .ok y t ∧ t.Repeats z y x := by
  cases h with
  | @wrapper w r source live based =>
    have wrapped : Types.wrapped Deferred.supplier w r s = .ok z s₁ := read
    obtain ⟨calls, again⟩ := Candid.supplier.wrapped_again Candid.supplier [] live wrapped
      (Persists.lasting.refl s₁)
    obtain ⟨t, made⟩ : ∃ t : Session, t = { ({ s₁ with calls } : Session) with
      wrappers := s₁.wrappers.add (Types.known z) } := ⟨_, rfl⟩
    have persists : s₁.Persists t := by
      refine Persists.lasting.trans ((Persists.lasting.refl s₁).count calls) ?_
      exact made ▸ Persists.addition.newWrapper (Types.known z) { s₁ with calls }
    have known : t.OverKnown z (.wrapper w ⟨s₁.wrappers.size⟩) :=
      made ▸ overKnown_newWrapper { s₁ with calls } w z
    have grown := ((Session.Extends.growth.supplier.wrapped [] w r).of_ok wrapped).wrappers.size
    refine ⟨.wrapper w ⟨s₁.wrappers.size⟩, t, ?_, .wrapper ?_ ⟨fun later => ?_, fun later => ?_⟩⟩
    · rw [made]
      exact (Action.bind_of_ok wrapped).trans ((Action.bind_of_ok again).trans rfl)
    · exact Nat.lt_of_lt_of_le live (Nat.le_trans grown persists.extension.wrappers.size)
    · exact known.type (.of_leads later) Deferred.supplier
    · exact Candid.supplier.wrapped_again Candid.supplier [] live wrapped
        (Persists.lasting.trans persists (.of_leads later))
  | @argument q live whole =>
    have typed : Arguments.type Deferred.supplier q s = .ok z s₁ := read
    obtain ⟨c, copied⟩ : ∃ c, c = { s₁.argument q with source := z, resolved := Types.kept z } :=
      ⟨_, rfl⟩
    obtain ⟨t, made⟩ : ∃ t : Session, t = { s₁ with arguments := s₁.arguments.add c } := ⟨_, rfl⟩
    have extension := (Session.Extends.growth.supplier.type [] q).of_ok typed
    have settles := extension.argument live
    have live₁ := Nat.lt_of_lt_of_le live extension.arguments.size
    have persists : s₁.Persists t := made ▸ Persists.addition.newArgument c s₁
    have known : t.OverKnown z (.argument ⟨s₁.arguments.size⟩) := by
      subst made copied
      exact s₁.overKnown_newArgument rfl
    have same : t.argument ⟨s₁.arguments.size⟩ = c := made ▸ Arena.get_add_self s₁.arguments c
    have old : t.argument q = s₁.argument q := made ▸ Arena.get_add_of_lt s₁.arguments c live₁
    refine ⟨.argument ⟨s₁.arguments.size⟩, t, ?_, .argument ?_ ?_ ?_ ?_
      ⟨fun later => ?_, fun later => ?_⟩⟩
    · subst made copied
      exact (Action.bind_of_ok typed).trans rfl
    · exact Nat.lt_of_lt_of_le live₁ persists.extension.arguments.size
    · rw [made]
      exact Nat.lt_of_lt_of_eq (Nat.lt_succ_self _) (Arena.size_add _ _).symm
    · rw [same, old, copied]
      exact ⟨rfl, rfl, rfl, rfl⟩
    · rw [old]
      exact ⟨settles.name ▸ whole.name, settles.description ▸ whole.description,
        settles.hasDefault ▸ whole.hasDefault⟩
    · exact known.type (.of_leads later) Deferred.supplier
    · exact Candid.supplier.type_again Candid.supplier [] live typed
        (Persists.lasting.trans persists (.of_leads later))

/-! ### Copies that are equal -/

/-- The fields by which an argument is compared, once its type is read. -/
theorem argumentKey_of_type {name description hasDefault : Value}
    (typed : Arguments.type Deferred.supplier q u = .ok z { u with calls })
    (named : (u.argument q).name = some name)
    (described : (u.argument q).description = some description)
    (decided : (u.argument q).hasDefault = some hasDefault) :
    Equality.argumentKey Deferred.supplier q u =
      .ok ⟨name, z, description, hasDefault, (u.argument q).default⟩ { u with calls } := by
  have readName : Arguments.name q u = .ok name u := by
    rw [Arguments.name_eq, named]
    rfl
  have readDescription : Arguments.description q { u with calls } =
      .ok description { u with calls } := by
    rw [Arguments.description_eq, show (({ u with calls } : Session).argument q).description =
      some description from described]
    rfl
  have readHasDefault : Arguments.hasDefault q { u with calls } =
      .ok hasDefault { u with calls } := by
    rw [Arguments.hasDefault_eq, show (({ u with calls } : Session).argument q).hasDefault =
      some hasDefault from decided]
    rfl
  rw [Equality.argumentKey, Action.bind_of_ok readName, Action.bind_of_ok typed,
    Action.bind_of_ok readDescription, Action.bind_of_ok readHasDefault]
  rfl

/-- What is the same field by field is equal. -/
theorem argumentKeys_refl (eq : Value → Value → Action Bool) (key : Equality.ArgumentKey)
    (u : Session) : Equality.argumentKeys eq key key u = .ok true u := by
  have defaults : Equality.defaults eq key.default key.default u = .ok true u := by
    cases key.default with
    | none => rfl
    | some v => exact Equality.element_refl _ v u
  rw [Equality.argumentKeys, Action.bind_of_ok (Equality.element_refl _ key.name u)]
  refine (Action.bind_of_ok (Equality.element_refl _ key.type u)).trans ?_
  refine (Action.bind_of_ok (Equality.element_refl _ key.description u)).trans ?_
  exact (Action.bind_of_ok (Equality.element_refl _ key.hasDefault u)).trans defaults

/-- A shallow copy is equal to the original, if the type that they share is equal to itself. -/
theorem Repeats.equal (h : t.Repeats z y x) (self : ∀ u, t.Leads u → u.EqualsItself z)
    (later : t.Leads u) :
    (Equality.equal Deferred.supplier y x).result? u = some true := by
  have objects := u.objects_add_depth_le_reach
  obtain ⟨n, bound⟩ : ∃ n, (u.reach + 0 + 1) * (u.reach + 0 + 1) = n + 1 :=
    ⟨_, (Nat.sub_add_cancel (Nat.mul_pos (by omega) (by omega))).symm⟩
  suffices compared : ∃ u', Equality.equalWithin Deferred.supplier (n + 1) y x u = .ok true u' by
    obtain ⟨u', compared⟩ := compared
    have enter := congrArg (Equality.equalWithin Deferred.supplier · y x u) bound
    cases h <;> exact Action.result?_of_ok (enter.trans compared)
  cases h with
  | @wrapper w r r' live one =>
    obtain ⟨calls, read⟩ := one.original later
    have read : Types.wrapped Deferred.supplier w r u = .ok z { u with calls } := read
    have copy : Types.wrapped Deferred.supplier w r' u = .ok z u := one.copy later
    have live' := Nat.lt_of_lt_of_le live later.extends.wrappers.size
    have observed : u.Leads { u with calls } :=
      ((Later.observed Deferred.supplier.answer).wrapped [] w r).of_ok read
    have room : u.reach * u.reach < n := by nlinarith
    obtain ⟨u', equal⟩ := Action.ok_of_result?
      ((self _ (later.trans observed)).within (n := n) room)
    simp only [Equality.equalWithin, true_and, ne_eq, not_true_eq_false, if_false]
    split
    · exact ⟨u, rfl⟩
    · exact ⟨u', (Action.bind_of_ok copy).trans ((Action.bind_of_ok read).trans equal)⟩
  | @argument q q' live live' resembles whole one =>
    obtain ⟨calls, read⟩ := one.original later
    have settles := later.extends.argument live
    have resembles := resembles.settles (later.extends.argument live') settles
    obtain ⟨name, named⟩ := Option.isSome_iff_exists.1 (settles.name ▸ whole.name)
    obtain ⟨description, described⟩ :=
      Option.isSome_iff_exists.1 (settles.description ▸ whole.description)
    obtain ⟨hasDefault, decided⟩ :=
      Option.isSome_iff_exists.1 (settles.hasDefault ▸ whole.hasDefault)
    have key := argumentKey_of_type read named described decided
    have copy : Arguments.type Deferred.supplier q' u = .ok z { u with calls := u.calls } :=
      one.copy later
    have copied := argumentKey_of_type copy (resembles.name.trans named)
      (resembles.description.trans described) (resembles.hasDefault.trans decided)
    rw [resembles.default] at copied
    simp only [Equality.equalWithin]
    split
    · exact ⟨u, rfl⟩
    · exact ⟨_, (Action.bind_of_ok copied).trans ((Action.bind_of_ok key).trans
        (argumentKeys_refl _ _ _))⟩

/-- What is done with a datum that was read does not tell how often calls were counted for it. -/
theorem result?_of_read {α : Type} {copy original : Action Value} {act : Value → Action α}
    (blind : u.Blind (act z)) (read : copy u = .ok z u)
    (again : original u = .ok z { u with calls }) :
    (copy >>= act).result? u = (original >>= act).result? u := by
  have akin : u.Akin { u with calls } u := (Akin.refl u).countLeft calls
  have same := (blind _ _ akin)
  rw [Action.result?, Action.result?, Action.bind_of_ok read, Action.bind_of_ok again]
  generalize act z u = left, act z { u with calls } = right at same ⊢
  cases same <;> rfl

/-- A shallow copy hashes like the original. -/
theorem Repeats.hash (h : t.Repeats z y x) (later : t.Leads u) :
    (HashKey.of Deferred.supplier y).result? u = (HashKey.of Deferred.supplier x).result? u := by
  have blind (n : Nat) (v : Value) : u.Blind (HashKey.ofWithin Deferred.supplier n v) :=
    (Serves.supplier u).observing.hashWithin [] n v
  obtain ⟨n, bound⟩ : ∃ n, (u.reach + 0 + 1) * (u.reach + 0 + 1) = n + 1 :=
    ⟨_, (Nat.sub_add_cancel (Nat.mul_pos (by omega) (by omega))).symm⟩
  suffices hashed : (HashKey.ofWithin Deferred.supplier (n + 1) y).result? u =
      (HashKey.ofWithin Deferred.supplier (n + 1) x).result? u by
    rw [← bound] at hashed
    cases h <;> exact hashed
  cases h with
  | @wrapper w r r' live one =>
    obtain ⟨calls, read⟩ := one.original later
    exact result?_of_read ((blind n z).bind fun _ => .pure _) (one.copy later) read
  | @argument q q' live live' resembles whole one =>
    obtain ⟨calls, read⟩ := one.original later
    have settles := later.extends.argument live
    have resembles := resembles.settles (later.extends.argument live') settles
    obtain ⟨name, named⟩ := Option.isSome_iff_exists.1 (settles.name ▸ whole.name)
    have readName : Arguments.name q u = .ok name u := by
      rw [Arguments.name_eq, named]
      rfl
    have copiedName : Arguments.name q' u = .ok name u := by
      rw [Arguments.name_eq, resembles.name.trans named]
      rfl
    simp only [HashKey.ofWithin]
    rw [Action.result?, Action.result?, Action.bind_of_ok readName, Action.bind_of_ok copiedName]
    exact result?_of_read ((blind n name).bind fun _ => (blind n z).bind fun _ => .pure _)
      (one.copy later) read

/-- The fields of an argument that are given to it. -/
def givenFields : List String := ["name", "description", "has_default_value", "default_value"]

/-- Whatever is observed afterwards, two objects have one type, and arguments have one name, one
description and one default, or lack them alike. -/
structure Shares (t : Session) (y x : Value) : Prop where
  type : ∃ z, ∀ {u : Session}, t.Leads u →
    (Access.get Deferred.supplier y "type").result? u = some z ∧
      (Access.get Deferred.supplier x "type").result? u = some z
  fields {u : Session} {key : String} : x.isArgument = true → key ∈ givenFields → t.Leads u →
    (Access.get Deferred.supplier y key).outcome u = (Access.get Deferred.supplier x key).outcome u

theorem OneType.shared (h : t.OneType z y x) (later : t.Leads u) :
    (Access.get Deferred.supplier y "type").result? u = some z ∧
      (Access.get Deferred.supplier x "type").result? u = some z :=
  have ⟨_, read⟩ := h.original later
  ⟨Action.result?_of_ok (h.copy later), Action.result?_of_ok read⟩

/-- Arguments that differ in their types only are read alike. -/
theorem outcome_of_resembles {key : String} (h : (u.argument q').Resembles (u.argument q))
    (among : key ∈ givenFields) :
    (Access.get Deferred.supplier (.argument q') key).outcome u =
      (Access.get Deferred.supplier (.argument q) key).outcome u := by
  simp only [givenFields, List.mem_cons, List.not_mem_nil, or_false] at among
  rcases among with rfl | rfl | rfl | rfl
  · show (Arguments.name q').outcome u = (Arguments.name q).outcome u
    rw [Action.outcome, Action.outcome, Arguments.name_eq, Arguments.name_eq, h.name]
  · show (Arguments.description q').outcome u = (Arguments.description q).outcome u
    rw [Action.outcome, Action.outcome, Arguments.description_eq, Arguments.description_eq,
      h.description]
  · show (Arguments.hasDefault q').outcome u = (Arguments.hasDefault q).outcome u
    rw [Action.outcome, Action.outcome, Arguments.hasDefault_eq, Arguments.hasDefault_eq,
      h.hasDefault]
  · show (Arguments.default q').outcome u = (Arguments.default q).outcome u
    rw [Action.outcome, Action.outcome, Arguments.default, Arguments.default, Action.get_bind,
      Action.get_bind, h.default]

theorem Repeats.shares (h : t.Repeats z y x) : t.Shares y x := by
  cases h with
  | wrapper live one => exact ⟨⟨z, one.shared⟩, fun argument => nomatch argument⟩
  | argument live live' resembles whole one =>
    refine ⟨⟨z, one.shared⟩, fun _ among later => outcome_of_resembles ?_ among⟩
    exact resembles.settles (later.extends.argument live') (later.extends.argument live)

/-! ### Types that resolve -/

/-- The type of an argument, or the one that a wrapper wraps, is in the end a leaf that equals
itself. A set or a dictionary compares the elements that share a hash key, and must equal itself
whatever was observed or built since. -/
structure EndsIn (s : Session) (leaf x : Value) : Prop where
  innermost : ∃ s', Access.innermost Deferred.supplier x s = .ok leaf s' ∧
    (Equality.equal Deferred.supplier leaf leaf).result? s' = some true
  keyed {u : Session} : leaf.isKeyed = true → s.Grows u → u.EqualsItself leaf

/-- What is read of such an object is equal to itself from then on: a wrapper is identical to
itself, and anything else is the leaf. -/
theorem EndsIn.type {leaf : Value} (h : s.EndsIn leaf x) : ∃ z s₁,
    Access.get Deferred.supplier x "type" s = .ok z s₁ ∧ ∀ u, s.Grows u → u.EqualsItself z := by
  obtain ⟨s', run, equal⟩ := h.innermost
  obtain ⟨z, s₁, read, inner⟩ := Action.ok_of_bind run
  refine ⟨z, s₁, read, fun u grown => ?_⟩
  cases wraps : z.isWrapper with
  | true =>
    obtain ⟨w, r, rfl⟩ : ∃ w r, z = .wrapper w r := by
      cases z with
      | wrapper w r => exact ⟨w, r, rfl⟩
      | _ => cases wraps
    have same : (Equality.equal Deferred.supplier (.wrapper w r) (.wrapper w r)).result? u =
        some true := by
      obtain ⟨n, -, bound⟩ := Action.boundedPairs_succ (Value.depth (.wrapper w r))
        (fun n => Equality.equalWithin Deferred.supplier n (.wrapper w r) (.wrapper w r)) u
      rw [Equality.equal, Action.result?, bound]
      simp only [Equality.equalWithin, and_self, if_true]
      rfl
    exact .of_equal rfl same
  | false =>
    obtain ⟨rfl, -⟩ := Snapshot.eq_of_unwrapWithin inner wraps
    cases keyed : z.isKeyed with
    | true => exact h.keyed keyed grown
    | false => exact .of_equal keyed equal

/-! ### Objects apart -/

/-- An object of a session is none that the session lacks. -/
theorem Over.cell?_ne {source : Value} (h : s.Over source x) (lacks : s.Lacks y) :
    y.cell? ≠ x.cell? := by
  intro same
  cases h with
  | wrapper live =>
    cases y <;> try cases same
    injection Option.some.inj same with _ here
    exact Nat.not_lt_of_le lacks (here ▸ live)
  | argument live =>
    cases y <;> try cases same
    injection Option.some.inj same with _ here
    exact Nat.not_lt_of_le lacks (here ▸ live)

/-- To assign to one of two objects leaves the other as it is, whatever came to pass. -/
structure Apart (y x : Value) : Prop where
  original (u : Session) (key : String) (new : Value) :
    ((Access.set y key new).after u).node? x = u.node? x
  copy (u : Session) (key : String) (new : Value) :
    ((Access.set x key new).after u).node? y = u.node? y

/-- To assign to an object changes its own cell. -/
theorem node?_after_set (other : y.cell? ≠ x.cell?) (key : String) (new : Value) (u : Session) :
    ((Access.set y key new).after u).node? x = u.node? x := by
  unfold Access.set
  split
  · rfl
  · cases y <;> cases x <;> try rfl
    all_goals
      have differ := fun same => other (congrArg (fun i => some (_, i)) same)
      exact congrArg (Option.map _) (Arena.get?_put_of_ne differ)

theorem Apart.of_cell? (other : y.cell? ≠ x.cell?) : Apart y x where
  original u key new := node?_after_set other key new u
  copy u key new := node?_after_set other.symm key new u

theorem Intact.rests (h : s.Intact x) : ∃ source, s.Over source x := by
  cases h with
  | wrapper live based => exact ⟨_, .wrapper live based⟩
  | argument live => exact ⟨_, .argument live rfl⟩

/-- A copy is apart from the original, however it was made. -/
theorem Intact.apart (h : s.Intact x) {mode : CopyMode}
    (run : x.copy Deferred.supplier mode s = .ok y t) : Apart y x := by
  obtain ⟨source, rests⟩ := h.rests
  obtain ⟨_, -, lacks⟩ := rests.copy run
  exact .of_cell? (rests.cell?_ne lacks)

theorem Copyable.copied (h : s.Copyable x) (reliable : s.Reliable x) {mode : CopyMode}
    (other : mode ≠ .shallow) :
    ∃ y t, x.copy Deferred.supplier mode s = .ok y t ∧ t.Replicates y x := by
  cases mode with
  | shallow => exact absurd rfl other
  | deep => exact DeepCopy.copy_of_reliable h reliable
  | stored => exact Snapshot.copy_of_reliable h reliable

end Session

end DirectiveSchema
