import DirectiveSchema.Proofs.Rendering
import DirectiveSchema.Proofs.Requests

/-!
Coercions of plain data by the built-in scalars. Whatever was requested, a built-in scalar has its own
coercions, and applied to plain data they return a value of the result type or reject the datum.
Two coercions of numbers overflow instead: an infinite number is no integer, and an integer may be
beyond all finite numbers. Such a fault is no rejection and passes through.
-/
namespace DirectiveSchema

open BuiltIn

variable {s s' : Session} {supply : Supplier} {v w : Value}

/-! ### The coercions of a scalar that exists -/

structure ScalarType.SameCoercions (c c' : ScalarType) : Prop where
  serialize : c'.serialize = c.serialize
  parse : c'.parse = c.parse

/-- Every scalar has the coercions that it was built with. -/
def Session.KeepsCoercions (s s' : Session) : Prop :=
  s.scalars.Extends ScalarType.SameCoercions s'.scalars

namespace Session.KeepsCoercions

theorem lasting : Lasting Session.KeepsCoercions where
  refl _ := .refl (fun _ => ⟨rfl, rfl⟩) _
  trans h h' := h.trans (fun first second =>
    ⟨second.serialize.trans first.serialize, second.parse.trans first.parse⟩) h'

theorem beside (same : s'.scalars = s.scalars) : s.KeepsCoercions s' := by
  rw [KeepsCoercions, same]
  exact lasting.refl s

theorem putScalar {r : Ref .scalar} {c : ScalarType} (same : (s.scalar r).SameCoercions c) :
    s.KeepsCoercions (s.putScalar r c) := Arena.Extends.put (lasting.refl s) fun _ => same

theorem ofSet (v : Value) (key : String) (new : Value) :
    Keeps Session.KeepsCoercions (Access.set v key new) := by
  unfold Access.set
  split
  · exact lasting.throw _
  · split
    · exact fun _ => beside rfl
    · refine Lasting.modify fun s => putScalar ?_
      split <;> exact ⟨rfl, rfl⟩
    · exact fun _ => beside rfl
    · exact fun _ => beside rfl
    all_goals exact lasting.throw _

theorem ofWithout (s : Session) (v : Value) (key : String) :
    s.KeepsCoercions (Access.without s v key) := by
  cases v with
  | scalar r =>
    refine putScalar ?_
    split <;> exact ⟨rfl, rfl⟩
  | _ => exact beside rfl

theorem ofDelete (v : Value) (key : String) :
    Keeps Session.KeepsCoercions (Access.delete v key) := by
  simp only [Access.delete]
  split
  · exact lasting.throwFirst _
  · split
    · exact lasting.throw _
    · exact lasting.throw _
    · refine lasting.bindGet fun s => ?_
      split
      · exact fun s => ofWithout s _ key
      · exact lasting.throw _

theorem ofAppend (v x : Value) : Keeps Session.KeepsCoercions (Access.append v x) := by
  unfold Access.append
  split
  · exact fun _ => beside rfl
  · exact lasting.throw _

theorem custody : Custody Session.KeepsCoercions :=
  { lasting with
    freshTag := fun _ => beside rfl
    newList := fun _ _ => beside rfl
    newSet := fun _ _ => beside rfl
    newDict := fun _ _ => beside rfl
    newNamedType := fun _ _ => beside rfl
    newScalar := fun _ _ => Arena.Extends.add (fun _ => ⟨rfl, rfl⟩) _ _
    newWrapper := fun _ _ => beside rfl
    newArgument := fun _ _ => beside rfl
    newDirective := fun _ _ => beside rfl
    note := fun _ _ => beside rfl
    count := fun _ _ => beside rfl
    wrapped := lasting.wrapped fun kept _ _ _ => kept
    type := lasting.type fun kept _ _ => kept
    bound := fun _ _ => beside rfl
    noted := fun _ _ => beside rfl
    set := ofSet
    delete := ofDelete
    append := ofAppend
    fillList := fun _ kept => kept
    fillSet := fun _ kept => kept
    fillDict := fun _ kept => kept
    fillNamedType := fun _ kept => kept
    fillWrapper := fun _ kept => kept
    fillArgument := fun _ kept => kept }

end Session.KeepsCoercions

/-- The coercions of the built-in scalars are the same in every session that comes to pass. -/
theorem BuiltIn.coercions_of_isScalar {r : Ref .scalar} (builtIn : isScalar r = true)
    (qs : List Request) :
    (session.scalar r).SameCoercions ((session.runAll qs).2.scalar r) := by
  have live : ∀ r ∈ scalarRefs, r.index < session.scalars.size := by decide
  have kept := Session.KeepsCoercions.custody.runAll session qs
  exact kept.cell (live r (List.contains_iff_mem.1 builtIn))

namespace Scalars

/-! ### Results, rejections and overflows -/

/-- Whether a datum is of the result type of a built-in scalar. -/
def isResult (r : Ref .scalar) : Value → Bool
  | .int n => r == integerRef && inRange n
  | .float _ => r == floatRef
  | .bool _ => r == booleanRef
  | .text _ => r == stringRef || r == identifierRef
  | _ => false

/-- The numbers that a built-in scalar neither coerces nor rejects. -/
inductive Overflows : Ref .scalar → Value → Fault → Prop where
  | infinite (negative : Bool) :
    Overflows integerRef (.float (.infinite negative)) .infinityToInteger
  | oversized {n : Int} : Binary64.ofInt? n = none → Overflows floatRef (.int n) .integerToFloat

/-- An action that returns a datum of one kind or rejects what it was given. -/
abbrev Decides {α : Type} (s : Session) (act : Action α) (good : α → Prop) : Prop :=
  act.Concludes s good fun f => f.isRejection = true

theorem decides_shown {act : Action String} (h : Display.Writes s act) :
    Decides s act fun _ => True := h.weaken fun _ long => long ▸ rfl

theorem decides_label (data : s.IsData v) : Decides s (Display.label supply v) fun _ => True :=
  decides_shown (Display.writes_label data)

theorem decides_literal (data : s.IsData v) :
    Decides s (Display.literal supply v) fun _ => True :=
  decides_shown (Display.writes_literal data)

/-- A tuple fills the places of a format one by one. -/
theorem decides_fill {label : Value → Action String} {v : Value}
    (self : Decides s (label v) fun _ => True)
    (items : ∀ items, v.row? = some items → ∀ x ∈ items, Decides s (label x) fun _ => True) :
    Decides s (Display.fill label v) fun _ => True := by
  unfold Display.fill
  split
  · exact self
  · exact .throw rfl
  · rename_i row
    exact items _ row _ List.mem_cons_self
  · rename_i row
    exact (items _ row _ List.mem_cons_self).bind fun _ _ => .throw rfl

theorem part_of_row {items : List Value} {x : Value} (row : v.row? = some items) (hx : x ∈ items) :
    x ∈ s.parts v := by
  cases v with
  | tuple | config =>
    cases row
    exact hx
  | _ => cases row

theorem decides_filled (data : s.IsData v) :
    Decides s (Display.filled supply v) fun _ => True :=
  decides_fill (decides_label data) fun _ row _ hx => decides_label (data.part (part_of_row row hx))

theorem decides_filledLiteral (data : s.IsData v) :
    Decides s (Display.filledLiteral supply v) fun _ => True :=
  decides_fill (decides_literal data) fun _ row _ hx =>
    decides_literal (data.part (part_of_row row hx))

theorem decides_labelValue (data : s.IsData v) :
    Decides s (Display.labelValue supply v) fun w => ∃ t, w = .text t := by
  have labelled : Decides s (do return Value.text (← Display.label supply v))
      fun w => ∃ t, w = .text t := (decides_label data).bind fun t _ => .pure ⟨t, rfl⟩
  have datum := data.isDatum
  cases v with
  | named | scalar => cases datum
  | _ => exact labelled

/-! ### The coercions -/

theorem decides_wholeNumber (data : s.IsData v) (finite : ∀ f, ¬Overflows integerRef v f) :
    Decides s (wholeNumber supply v) fun _ => True := by
  have shown : Decides s (do throw (.notInteger (← Display.literal supply v)) : Action Int)
      fun _ => True := (decides_literal data).bind fun _ _ => .throw rfl
  cases v with
  | null => exact .throw rfl
  | bool | int => exact .pure trivial
  | float x =>
    cases x with
    | nan => exact .throw rfl
    | infinite negative => exact absurd (.infinite negative) (finite _)
    | finite negative steps =>
      simp only [wholeNumber]
      split
      · split
        · exact .pure trivial
        · exact .throw rfl
      · exact .throw rfl
  | text | location =>
    simp only [wholeNumber, Value.text?]
    split
    · exact .throw rfl
    · split
      · exact .pure trivial
      · exact .throw rfl
    · exact shown
  | _ => exact shown

theorem decides_integer (data : s.IsData v) (finite : ∀ f, ¬Overflows integerRef v f) :
    Decides s (integer supply v) fun n => inRange n = true := by
  simp only [integer]
  refine (decides_wholeNumber data finite).bind fun n _ => ?_
  split
  · exact .pure ‹_›
  · exact (decides_filled data).bind fun _ _ => .throw rfl

theorem isSome_ofInt?_toInt (b : Bool) : (Binary64.ofInt? b.toInt).isSome = true := by
  cases b <;> decide +kernel

theorem decides_float (data : s.IsData v) (finite : ∀ f, ¬Overflows floatRef v f) :
    Decides s (float supply v) fun _ => True := by
  have found {n : Int} (some : (Binary64.ofInt? n).isSome = true) :
      Decides s (floatOfInteger n) fun _ => True := by
    obtain ⟨x, fits⟩ := Option.isSome_iff_exists.1 some
    rw [floatOfInteger, fits]
    exact .pure trivial
  cases v with
  | null => exact .throw rfl
  | float => exact .pure trivial
  | bool b => exact found (isSome_ofInt?_toInt b)
  | int n =>
    refine found (Option.isSome_iff_ne_none.2 fun none => ?_)
    exact finite _ (.oversized none)
  | bytes bs =>
    simp only [float]
    split
    · exact .pure trivial
    · exact (decides_label data).bind fun _ _ => .throw rfl
  | text | location =>
    simp only [float, Value.text?]
    split
    · exact .throw rfl
    · split
      · exact .pure trivial
      · exact .throw rfl
    · exact .throw rfl
  | _ => exact .throw rfl

theorem decides_stringIn (data : s.IsData v) :
    Decides s (stringIn supply v) fun w => ∃ t, w = .text t := by
  unfold stringIn
  split
  · exact (decides_label data).bind fun _ _ => .throw rfl
  · exact (decides_label data).bind fun _ _ => .throw rfl
  · exact (decides_label data).bind fun _ _ => .throw rfl
  · exact decides_labelValue data

theorem decides_stringOut (data : s.IsData v) :
    Decides s (stringOut supply v) fun w => ∃ t, w = .text t := by
  unfold stringOut
  split
  · exact .pure ⟨_, rfl⟩
  · exact decides_stringIn data

theorem decides_identifier (data : s.IsData v) :
    Decides s (identifier supply v) fun w => ∃ t, w = .text t := by
  unfold identifier
  split
  · exact decides_labelValue data
  · exact decides_labelValue data
  · exact decides_labelValue data
  · exact (decides_filledLiteral data).bind fun _ _ => .throw rfl

theorem decides_isTruthy (v : Value) (s : Session) :
    Decides s (Container.isTruthy v) fun _ => True := by
  cases v <;> exact .inl ⟨_, trivial, rfl⟩

/-- The coercions that a built-in scalar has. -/
def isCoercionOf (r : Ref .scalar) : Coercion → Bool
  | .integer => r == integerRef
  | .float => r == floatRef
  | .truth => r == booleanRef
  | .stringOut | .stringIn => r == stringRef
  | .identifier => r == identifierRef
  | _ => false

theorem decides_apply {r : Ref .scalar} {c : Coercion} (own : isCoercionOf r c = true)
    (data : s.IsData v) (finite : ∀ f, ¬Overflows r v f) :
    Decides s (apply supply c v) fun w => isResult r w = true := by
  have text {act : Action Value} (h : Decides s act fun w => ∃ t, w = .text t)
      (texts : (r == stringRef || r == identifierRef) = true) :
      Decides s act fun w => isResult r w = true := by
    refine h.imp_left ?_
    rintro ⟨w, ⟨t, rfl⟩, run⟩
    exact ⟨.text t, texts, run⟩
  cases c with
  | integer =>
    cases eq_of_beq own
    refine (decides_integer data finite).bind fun n range => .pure ?_
    simpa [isResult] using range
  | float =>
    cases eq_of_beq own
    exact (decides_float data finite).bind fun x _ => .pure rfl
  | truth =>
    cases eq_of_beq own
    exact (decides_isTruthy v s).bind fun b _ => .pure rfl
  | stringOut => exact text (decides_stringOut data) (by rw [eq_of_beq own]; rfl)
  | stringIn => exact text (decides_stringIn data) (by rw [eq_of_beq own]; rfl)
  | identifier => exact text (decides_identifier data) (by rw [eq_of_beq own]; rfl)
  | _ => cases own

/-- An overflow is the fault of either direction, and it is no rejection. -/
theorem apply_of_overflows {r : Ref .scalar} {c : Coercion} {f : Fault}
    (own : isCoercionOf r c = true) (h : Overflows r v f) :
    apply supply c v s = .error f s ∧ f.isRejection = false := by
  cases h with
  | infinite negative =>
    cases c with
    | integer => exact ⟨rfl, rfl⟩
    | _ => cases own
  | oversized none =>
    cases c with
    | float =>
      refine ⟨?_, rfl⟩
      simp only [apply, float, floatOfInteger, none]
      rfl
    | _ => cases own

/-! ### Serialization and parsing -/

/-- How a built-in scalar coerces a datum in one of the two directions: a number that overflows is
a fault of its own, and anything else becomes a value of the result type or is rejected. -/
def Coerces (s : Session) (r : Ref .scalar) (v : Value) (wrap : Fault → Fault)
    (act : Action Value) : Prop :=
  (∀ f, Overflows r v f → act s = .error f s) ∧
    ((∀ f, ¬Overflows r v f) →
      (∃ w, isResult r w = true ∧ act s = .ok w s) ∨
        ∃ f, f.isRejection = true ∧ act s = .error (wrap f) s)

theorem coerces_guarded {r : Ref .scalar} {c : Coercion} (wrap : Fault → Fault)
    (own : isCoercionOf r c = true) (data : s.IsData v) :
    Coerces s r v wrap (guarded wrap (apply supply c v)) := by
  have thrown {f : Fault} (run : apply supply c v s = .error f s) :
      guarded wrap (apply supply c v) s = .error (if f.isRejection then wrap f else f) s :=
    Action.tryCatch_of_error run
  refine ⟨fun f overflows => ?_, fun finite => ?_⟩
  · obtain ⟨run, passes⟩ := apply_of_overflows own overflows
    rw [thrown run, passes]
    rfl
  · rcases decides_apply own data finite with ⟨w, result, run⟩ | ⟨f, rejected, run⟩
    · exact .inl ⟨w, result, Action.tryCatch_of_ok run⟩
    · exact .inr ⟨f, rejected, by rw [thrown run, rejected]; rfl⟩

theorem isCoercionOf_session : ∀ r ∈ scalarRefs,
    isCoercionOf r (session.scalar r).serialize = true ∧
      isCoercionOf r (session.scalar r).parse = true := by decide

/-- In every session that comes to pass, plain data are coerced by a built-in scalar to its result
type or rejected by its own error, unless a number overflows. -/
theorem data_are_coerced_unless_they_overflow (qs : List Request) {r : Ref .scalar} {v : Value}
    (builtIn : isScalar r = true) (data : (session.runAll qs).2.IsData v) :
    Coerces (session.runAll qs).2 r v .serialization (serialize Deferred.supplier r v) ∧
      Coerces (session.runAll qs).2 r v .parsing (parse Deferred.supplier r v) := by
  have same := coercions_of_isScalar builtIn qs
  obtain ⟨out, inward⟩ := isCoercionOf_session r (List.contains_iff_mem.1 builtIn)
  exact ⟨coerces_guarded .serialization (same.serialize ▸ out) data,
    coerces_guarded .parsing (same.parse ▸ inward) data⟩

/-- A list that holds itself. -/
def selfHeld : List Request := [.declare "l" (.list []), .append (.ref "l") (.ref "l")]

theorem list_in_itself_is_coerced_and_infinity_overflows :
    let s := (session.runAll selfHeld).2
    let l : Value := .list ⟨0⟩
    isScalar integerRef = true ∧ s.IsData l ∧
      Coerces s integerRef l .serialization (serialize Deferred.supplier integerRef l) ∧
      Coerces s integerRef l .parsing (parse Deferred.supplier integerRef l) ∧
      serialize Deferred.supplier integerRef (.float (.infinite false)) s =
        .error .infinityToInteger s := by
  intro s l
  have body : s.body? l = some (.list [l]) := rfl
  have data : s.IsData l := by
    intro x below
    have same : x = l := by
      induction below with
      | refl => rfl
      | tail _ part ih =>
        rw [ih, Session.parts_of_body body] at part
        exact List.mem_singleton.1 part
    rw [same, Session.IsDatum, body]
    rfl
  obtain ⟨out, inward⟩ := data_are_coerced_unless_they_overflow selfHeld
    (r := integerRef) rfl data
  obtain ⟨infinite, -⟩ := data_are_coerced_unless_they_overflow selfHeld
    (r := integerRef) (v := .float (.infinite false)) rfl (Session.isData_of_isLeaf rfl)
  exact ⟨rfl, data, out, inward, infinite.1 _ (.infinite false)⟩

end Scalars

end DirectiveSchema
