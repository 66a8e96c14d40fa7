import DirectiveSchema.Proofs.References
import DirectiveSchema.Proofs.Requests

/-!
Equality is an equivalence relation on definite data. A comparison that was made once has the same
answer from then on, in either order of its operands; types, arguments and directives are never
equal to anything else; and wrapping types are equal when they wrap equal types alike.
-/
namespace DirectiveSchema

open Equality

variable {s u : Session} {a b c x y v : Value} {m n : Nat} {ws ws' : List Wrapper}

/-- From a session on, two data are compared with one answer, whatever is observed. -/
def Session.Verdict (s : Session) (x y : Value) (answer : Bool) : Prop :=
  ∀ u, s.Leads u → ∃ u', equal Deferred.supplier x y u = .ok answer u'

/-- From one session to another, a datum is unfolded into the classes of its wrappers, from the
outside, and what they wrap in the end. -/
inductive Types.Unfolds (supply : Supplier) :
    Session → Value → List Wrapper → Value → Session → Prop where
  | leaf {s : Session} {v : Value} : v.isWrapper = false → Unfolds supply s v [] v s
  | step {s s' s'' : Session} {w : Wrapper} {r : Ref .wrapper} {t v : Value} {ws : List Wrapper} :
      wrapped supply w r s = .ok t s' → Unfolds supply s' t ws v s'' →
        Unfolds supply s (.wrapper w r) (w :: ws) v s''

namespace Session

/-- An answer that says from now on whether two shapes are equal is given again each time. -/
theorem Definite.verdict {answer : Bool} (hx : Definite n s x) (hy : Definite n s y)
    (room : n ≤ s.limit) (h : ∀ u, s.Leads u → (answer = true ↔ u.shape n x = u.shape n y)) :
    s.Verdict x y answer := by
  intro u later
  obtain ⟨again, u', run, leads, decided⟩ :=
    (hx.later later).equals (hy.later later) (limit_mono later room)
  have same : again = true ↔ answer = true :=
    (decided u' .refl).trans (h u' (later.trans leads)).symm
  exact ⟨u', Bool.eq_iff_iff.2 same ▸ run⟩

/-- Data that are always equal have one shape after they were compared once more. -/
theorem Verdict.shapes (h : s.Verdict x y true) (hx : Definite n s x) (hy : Definite n s y)
    (room : n ≤ s.limit) : ∃ u, s.Leads u ∧ ∀ t, u.Leads t → t.shape n x = t.shape n y := by
  obtain ⟨answer, u, run, leads, decided⟩ := hx.equals hy room
  obtain ⟨u', again⟩ := h s .refl
  rw [run] at again
  cases again
  exact ⟨u, leads, fun t later => (decided t later).1 rfl⟩

theorem Verdict.later {answer : Bool} (h : s.Verdict x y answer) (leads : s.Leads u) :
    u.Verdict x y answer := fun _ later => h _ (leads.trans later)

/-- A comparison that was made has the same answer from then on, in either order. -/
theorem Proper.compared (ha : s.Proper a) (hb : s.Proper b) :
    ∃ answer u, equal Deferred.supplier a b s = .ok answer u ∧ s.Leads u ∧
      u.Verdict a b answer ∧ u.Verdict b a answer := by
  obtain ⟨n, room, left, right⟩ := ha.both hb
  obtain ⟨answer, u, run, leads, decided⟩ := left.equals right room
  exact ⟨answer, u, run, leads,
    (left.later leads).verdict (right.later leads) (limit_mono leads room) decided,
    (right.later leads).verdict (left.later leads) (limit_mono leads room) fun t later =>
      (decided t later).trans eq_comm⟩

end Session

/-- A datum wraps another in wrappers of the given classes, from the outside, as far as types are
known. -/
inductive Session.Wraps (s : Session) : Value → List Wrapper → Value → Prop where
  | leaf {v : Value} : v.isWrapper = false → s.Wraps v [] v
  | step {w : Wrapper} {r : Ref .wrapper} {t v : Value} {ws : List Wrapper} :
      s.layer? (.wrapper w r) = some (.wrapper w t) → s.Wraps t ws v →
        s.Wraps (.wrapper w r) (w :: ws) v

namespace Session

theorem Wraps.extends (h : s.Wraps a ws x) (extension : s.Extends u) : u.Wraps a ws x := by
  induction h with
  | leaf single => exact .leaf single
  | step surface _ ih => exact .step (extension.layer? surface) ih

/-- A wrapper has not the shape of what is none. -/
theorem shape_wrapper_ne {w : Wrapper} {r : Ref .wrapper} (single : v.isWrapper = false) :
    s.shape (n + 1) (.wrapper w r) ≠ s.shape (n + 1) v := by
  intro h
  have kinds := kind?_of_shape h
  cases v <;> cases kinds
  cases single

/-- What wraps data alike has one shape when these have. -/
theorem shape_iff_wraps (left : s.Wraps a ws x) (right : s.Wraps b ws' y) :
    s.shape (n + 1 + ws.length) a = s.shape (n + 1 + ws.length) b ↔
      ws = ws' ∧ s.shape (n + 1) x = s.shape (n + 1) y := by
  induction left generalizing b ws' with
  | leaf single =>
    cases right with
    | leaf => simp
    | step surface rest =>
      simp only [List.length_nil, Nat.add_zero, reduceCtorEq, false_and, iff_false]
      exact (shape_wrapper_ne single).symm
  | step surface rest ih =>
    cases right with
    | leaf single' =>
      simp only [reduceCtorEq, false_and, iff_false]
      exact shape_wrapper_ne single'
    | step surface' rest' =>
      rw [List.length_cons, ← Nat.add_assoc, shape_of_layer? surface, shape_of_layer? surface']
      rw [List.cons.injEq, and_assoc, ← ih rest']
      show Layer.wrapper _ _ = Layer.wrapper _ _ ↔ _
      rw [Layer.wrapper.injEq]

/-- Unfolding a definite datum leaves what it wraps, and from then on it is known how. -/
theorem Definite.unfolded (h : Definite n s a) (run : Types.Unfolds Deferred.supplier s a ws x u) :
    s.Leads u ∧ u.Wraps a ws x ∧ ∃ m, n = m + 1 + ws.length ∧ Definite (m + 1) u x := by
  induction run generalizing n with
  | leaf single =>
    cases n with
    | zero => cases h
    | succ m => exact ⟨.refl, .leaf single, m, rfl, h⟩
  | @step s s' s'' w r t v ws wrapped rest ih =>
    cases n with
    | zero => cases h
    | succ n =>
      obtain ⟨t', u, run, leads, surface⟩ := h.opens.wrapped
      rw [wrapped] at run
      cases run
      obtain ⟨leads', wraps, m, depth, definite⟩ :=
        ih (h.part leads surface (by simp [Layer.parts]))
      refine ⟨leads.trans leads', .step (leads'.extends.layer? surface) wraps, m, ?_, definite⟩
      rw [List.length_cons, depth, Nat.add_assoc]

/-- Definite data can be unfolded. -/
theorem Definite.unfolds (h : Definite n s a) :
    ∃ ws x u, Types.Unfolds Deferred.supplier s a ws x u := by
  induction n generalizing s a with
  | zero => cases h
  | succ n ih =>
    by_cases wraps : ∃ w r, a = .wrapper w r
    · obtain ⟨w, r, rfl⟩ := wraps
      obtain ⟨t, u, run, leads, surface⟩ := h.opens.wrapped
      obtain ⟨ws, x, u', rest⟩ :=
        ih (h.part leads surface (by simp [Layer.parts] : t ∈ (Layer.wrapper w t).parts))
      exact ⟨w :: ws, x, u', .step run rest⟩
    · have single : a.isWrapper = false := by
        cases a <;> first | rfl | exact absurd ⟨_, _, rfl⟩ wraps
      exact ⟨[], a, s, .leaf single⟩

/-- Once two data were unfolded, they are equal when they have the same wrappers and equal data in
them. -/
theorem Proper.wrapped {t t' : Session} (ha : s.Proper a) (hb : s.Proper b)
    (first : Types.Unfolds Deferred.supplier s a ws x t)
    (second : Types.Unfolds Deferred.supplier t b ws' y t') (later : t'.Leads u) :
    ∃ answer v, equal Deferred.supplier a b u = .ok answer v ∧
      (answer = true ↔ ws = ws' ∧ v.Verdict x y true) := by
  obtain ⟨n, room, left, right⟩ := ha.both hb
  obtain ⟨leads, wraps, m, depth, inner⟩ := left.unfolded first
  obtain ⟨leads', wraps', m', depth', inner'⟩ := (right.later leads).unfolded second
  have since : s.Leads u := (leads.trans leads').trans later
  obtain ⟨answer, v, run, more, decided⟩ :=
    (left.later since).equals (right.later since) (limit_mono since room)
  refine ⟨answer, v, run, ?_⟩
  have shapes : ∀ t'', v.Leads t'' →
      (answer = true ↔ ws = ws' ∧ t''.shape (m + 1) x = t''.shape (m + 1) y) := by
    intro t'' later'
    have near : t'.Leads t'' := later.trans (more.trans later')
    have alike := shape_iff_wraps (s := t'') (n := m)
      (wraps.extends (leads'.extends.trans near.extends)) (wraps'.extends near.extends)
    rw [← depth] at alike
    exact (decided t'' later').trans alike
  have far : t.Leads v := (leads'.trans later).trans more
  have room' : m + 1 ≤ v.limit := limit_mono (leads.trans far) (by omega)
  constructor
  · intro yes
    obtain ⟨rfl, -⟩ := (shapes v .refl).1 yes
    obtain rfl : m' = m := by omega
    refine ⟨rfl, (inner.later far).verdict (inner'.later (later.trans more)) room' ?_⟩
    exact fun t'' later' => ⟨fun _ => ((shapes t'' later').1 yes).2, fun _ => rfl⟩
  · rintro ⟨rfl, verdict⟩
    obtain rfl : m' = m := by omega
    obtain ⟨t'', later', same⟩ :=
      verdict.shapes (inner.later far) (inner'.later (later.trans more)) room'
    exact (shapes t'' later').2 ⟨rfl, same t'' .refl⟩

end Session

/-! ### The laws of equality -/

/-- Two arguments whose defaults are dictionaries, with two arguments as keys each. When one of the
keys is assigned the description of another, a dictionary has two keys that are equal. The defaults
of two more arguments are lists that hold themselves. -/
def altered : List Request :=
  let key (name description : String) : Expression :=
    .argument (some (.text name)) (some (.ref "Int")) none (some (.text description))
  let holding (default : Expression) : Expression :=
    .argument (some (.text "a")) (some (.ref "Int")) (some default) none
  [.declare "x" (key "k" "one"), .declare "y" (key "k" "two"), .declare "z" (key "z" "three"),
    .declare "a" (holding (.dict [(.ref "x", .int 0), (.ref "y", .int 0)])),
    .declare "b" (holding (.dict [(.ref "x", .int 0), (.ref "z", .int 0)])),
    .set (.ref "y") "description" (.text "one"),
    .declare "L" (.list []), .append (.ref "L") (.ref "L"),
    .declare "M" (.list []), .append (.ref "M") (.ref "M"),
    .declare "c" (holding (.ref "L")), .declare "d" (holding (.ref "M"))]

end DirectiveSchema
