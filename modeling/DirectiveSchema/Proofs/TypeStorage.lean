import DirectiveSchema.Proofs.Resemblance
import DirectiveSchema.Proofs.RoundTrip

/-!
Stored copies of types and arguments. While an object is pictured, the chain of wrappers in it is
followed and becomes known; what is restored from the picture is a copy of the object.
-/
namespace DirectiveSchema.Snapshot

variable {s t u : Session} {x y : Value} {K : Nat} {q : Ref .argument} {p : Snapshot}
  {seen : List Value}

/-- The type of an argument that is in the end over a built-in scalar, whatever is observed and
built, resolves to it, whatever is observed. -/
theorem resolvesTo_of_reliable (reliable : s.Reliable (.argument q)) :
    ResolvesTo (BuiltIn.isScalar · = true) s q := by
  intro u later
  obtain ⟨b, u', run, builtIn⟩ := reliable u later.grows
  obtain ⟨z, u₁, typed, rest⟩ := Action.ok_of_bind run
  replace typed : Arguments.type Deferred.supplier q u = .ok z u₁ := typed
  have observed : u.Leads u₁ := ((Later.observed Deferred.supplier.answer).type [] q).of_ok typed
  have room : s.reach ≤ u₁.reach := (later.grows.trans observed.grows).extends.reach_le
  refine ⟨b, u', (Action.bind_of_ok typed).trans ?_, builtIn⟩
  exact Types.unwrapWithin_mono rest (by omega : s.reach + 1 ≤ u₁.reach + z.depth + 1)

/-- An object that is pictured with all that it is made of has a stored copy. -/
theorem copies_of_taken (taken : take Deferred.supplier x s = .ok p u)
    (depicts : Depicts .sound Deferred.supplier u [] x p seen)
    (nested : ∃ n, u.Nests Session.Sound n x) :
    ∃ y t, copy Deferred.supplier x s = .ok y t ∧ t.Replicates y x := by
  obtain ⟨n, nests⟩ := nested
  obtain ⟨y, t, restored, agrees, firm⟩ := restore_of_depicts depicts nests
  exact ⟨y, t, (Action.bind_of_ok taken).trans restored, ⟨n, firm.alike (G := .sound) nests⟩, n,
    nests.endures agrees.endures⟩

/-- The first round pictures an object to which it does not matter what is outside of it. -/
theorem take_of_takeRound {L : Nat} (flat : x.depth = 0)
    (room : (s.reach + 1) * (s.reach + 1) = L + 1)
    (run : takeRound Deferred.supplier (takeWithin Deferred.supplier L) (L + 1) x [] s =
      .ok (p, seen) u) : take Deferred.supplier x s = .ok p u := by
  have bound : (s.reach + x.depth + 1) * (s.reach + x.depth + 1) = L + 1 := by rw [flat]; exact room
  have round : takeWithin Deferred.supplier (L + 1) x [] s = .ok (p, seen) u := by
    rw [← bound] at run
    exact run
  show ((takeWithin Deferred.supplier ((s.reach + x.depth + 1) * (s.reach + x.depth + 1)) x).run []
    >>= fun q => pure q.1) s = _
  rw [bound]
  exact (Action.bind_of_ok round).trans rfl

/-- A wrapper or an argument over plain data has a stored copy, if it is in the end over a built-in
scalar, whatever is observed and built. -/
theorem copy_of_reliable (copyable : s.Copyable x) (reliable : s.Reliable x) :
    ∃ y t, copy Deferred.supplier x s = .ok y t ∧ t.Replicates y x := by
  have few := s.objects_add_depth_le_reach
  cases copyable with
  | @wrapper w r live =>
    have room := s.room_for_chain (by omega)
    obtain ⟨L, bound⟩ : ∃ L, (s.reach + 1) * (s.reach + 1) = L + 2 :=
      ⟨_, (Nat.sub_add_cancel (by omega)).symm⟩
    obtain ⟨b, s', run, builtIn⟩ := reliable s (.refl s)
    have whole : Types.unwrapWithin Deferred.supplier (s.reach + 2) (.wrapper w r) s =
      .ok (.scalar b) s' := run
    obtain ⟨p, seen, u, taken, later, -, settled, post⟩ := takes_chain
      (scheme_depicts .sound Deferred.supplier) (N := L + 2) whole rfl
      (takes_builtIn builtIn L) (by omega) []
    obtain ⟨depicts, met⟩ := post u (.refl u)
    obtain ⟨b', u', run', builtIn'⟩ := reliable u later.grows
    have known : ∀ x ∈ seen, u.Settled seen x :=
      fun x hx => (settled x hx).resolve_left List.not_mem_nil
    exact copies_of_taken (take_of_takeRound rfl bound taken) depicts
      (nests_of_unwrapWithin (K := s.reach + 2) known run' builtIn' met)
  | @argument q live plain =>
    have extent := s.extent_add_one_le live
    have room := s.room_for_chain (by omega)
    obtain ⟨L, bound⟩ : ∃ L, (s.reach + 1) * (s.reach + 1) = L + 3 :=
      ⟨_, (Nat.sub_add_cancel (by omega)).symm⟩
    have resolves := resolvesTo_of_reliable reliable
    obtain ⟨p, seen, u, taken, later, -, settled, post⟩ := takes_argument
      (scheme_depicts .sound Deferred.supplier) live plain (fun _ _ _ _ => True.intro)
      resolves.innermost (N := L + 2) (by omega) L s .refl []
    obtain ⟨depicts, met⟩ := post u (.refl u)
    exact copies_of_taken (take_of_takeRound rfl bound taken) depicts
      (nests_of_argument later live plain resolves
        (fun x hx => (settled x hx).resolve_left List.not_mem_nil) (met rfl))

end DirectiveSchema.Snapshot
