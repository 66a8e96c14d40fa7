import DirectiveSchema.Proofs.Picturing
import DirectiveSchema.Proofs.Specified

/-!
Stored copies are equal. Once a directive is pictured, the types of its arguments are known, so that
all it is made of is nested in a finite way; then it is restored to a directive that is like it.
-/
namespace DirectiveSchema.Snapshot

variable {supply : Supplier} {s s' u : Session} {v x : Value} {n : Nat} {seen seen' : List Value}
  {r : Ref .directive} {p : Snapshot}

/-! ### What is nested in a pictured directive -/

/-- A type that was met is a chain of wrappers that are known. -/
theorem nests_of_unwrapWithin {K : Nat} {t : Value} {q : Ref .scalar}
    (settled : ∀ x ∈ seen, s.Settled seen x)
    (h : Types.unwrapWithin supply K t s = .ok (.scalar q) s')
    (builtIn : BuiltIn.isScalar q = true) (met : t.isTyped = true → t ∈ seen) :
    ∃ n, s.Nests Session.Sound n t := by
  have atom : (Value.scalar q).isAtom = true := builtIn
  have leaf : s.Nests Session.Sound 1 (.scalar q) :=
    (Session.Nests.of_isAtom atom (Session.plain_of_isAtom atom) 0).sound
  induction K generalizing t with
  | zero =>
    cases wraps : t.isWrapper with
    | false =>
      obtain ⟨rfl, -⟩ := eq_of_unwrapWithin h wraps
      exact ⟨1, leaf⟩
    | true =>
      cases t with
      | wrapper => cases h
      | _ => cases wraps
  | succ K ih =>
    cases t with
    | wrapper w r =>
      obtain ⟨b, y, body, known, nonNull, further⟩ := (settled _ (met rfl)).typed rfl
      obtain ⟨c, cell, rfl⟩ := Option.map_eq_some_iff.1 body
      obtain ⟨-, rfl⟩ := Arena.get?_eq_some cell
      have run : Types.unwrapWithin supply K y s = .ok (.scalar q) s' :=
        (Action.bind_of_ok (Types.wrapped_of_resolved known)).symm.trans h
      obtain ⟨n, nests⟩ := ih run further
      refine ⟨n + 1, ?_, fun x hx => ?_⟩
      · rw [Session.Sound, body]
        exact ⟨y, known, nonNull⟩
      · have resolved : (s.wrappers.get r.index).resolved = some y := known
        rw [Session.parts_of_body body, Body.parts, resolved] at hx
        exact List.mem_singleton.1 hx ▸ nests
    | scalar =>
      obtain ⟨⟨⟩, -⟩ := eq_of_unwrapWithin h rfl
      exact ⟨1, leaf⟩
    | _ => cases h

theorem nests_of_argument {q : Ref .argument} (later : s.Leads u)
    (live : q.index < s.arguments.size) (plain : PlainArgument s (s.argument q))
    (resolves : ResolvesTo (BuiltIn.isScalar · = true) s q)
    (settled : ∀ x ∈ seen, u.Settled seen x) (met : .argument q ∈ seen) :
    ∃ n, u.Nests Session.Sound n (.argument q) := by
  obtain ⟨b, t, body, known, nonNull, further⟩ := (settled _ met).typed rfl
  obtain ⟨c, cell, rfl⟩ := Option.map_eq_some_iff.1 body
  obtain ⟨-, rfl⟩ := Arena.get?_eq_some cell
  have resolved : (u.argument q).resolved = some t := known
  have settles : (s.argument q).Settles (u.argument q) := later.extends.argument live
  obtain ⟨r, s', run, builtIn⟩ := resolves u later
  rw [Action.bind_of_ok (Arguments.type_of_resolved resolved)] at run
  have typed := nests_of_unwrapWithin settled run builtIn further
  have parts : ∀ x ∈ u.parts (.argument q), ∃ n, u.Nests Session.Sound n x := by
    intro x hx
    rw [Session.parts_of_body body, ← Session.argument, Body.parts, resolved, settles.name,
      settles.description, settles.hasDefault, settles.default, settles.extra] at hx
    have datum (hx : x ∈ (s.argument q).name.toList ++ (s.argument q).description.toList ++
        (s.argument q).hasDefault.toList ++ (s.argument q).default.toList ++
          (s.argument q).extra.contents) : ∃ n, u.Nests Session.Sound n x := by
      obtain ⟨n, nests⟩ := plain.plain hx
      exact ⟨n, (later.extends.plain nests).sound⟩
    simp only [List.mem_append] at hx datum
    rcases hx with ((((hx | hx) | hx) | hx) | hx) | hx
    · exact datum (.inl (.inl (.inl (.inl hx))))
    · exact datum (.inl (.inl (.inl (.inr hx))))
    · exact datum (.inl (.inl (.inr hx)))
    · exact List.mem_singleton.1 hx ▸ typed
    · exact datum (.inl (.inr hx))
    · exact datum (.inr hx)
  obtain ⟨n, nests⟩ := Session.Nests.all parts
  refine ⟨n + 1, ?_, nests⟩
  rw [Session.Sound, body]
  exact ⟨⟨settles.name ▸ plain.name, settles.description ▸ plain.description,
    settles.hasDefault ▸ plain.hasDefault, by rw [← Session.argument, resolved]; rfl⟩, t, known,
      nonNull⟩

/-- What is pictured is restored to a copy of it. -/
theorem restore_of_depicts (depicts : Depicts .sound supply u [] v p seen)
    (nests : u.Nests Session.Sound n v) :
    ∃ x t, restore supply p u = .ok x t ∧ u.Agrees [] t ∧ Firm u [] t x v := by
  have ready : Ready u [] u :=
    ⟨.refl [] u, fun hv => absurd hv List.not_mem_nil, fun hv => absurd hv List.not_mem_nil⟩
  have met : AtHand .sound u [] u n [] [] := fun k y found => nomatch found
  obtain ⟨x, t, table, run, advances, firm⟩ := (depicts n nests).run ready met
  exact ⟨x, t, (Action.bind_of_ok run).trans rfl, advances.agrees, firm⟩

end DirectiveSchema.Snapshot
