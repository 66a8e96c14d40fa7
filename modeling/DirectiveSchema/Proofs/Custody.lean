import DirectiveSchema.Copy
import DirectiveSchema.Proofs.Answering

/-!
Access to data. What is assigned, deleted or appended changes a cell that exists, and a copy that is
being made fills one that was added for it. A relation that is kept by growth and by these changes
is kept by whatever is done with data, and by describing them.
-/
namespace DirectiveSchema

variable {R : Session → Session → Prop} {M : CellKind → Session → Session → Prop}

/-- A relation that is kept by looks at data, by calls, and by all additions but directives. -/
structure Consulting (R : Session → Session → Prop) : Prop
    extends Lasting R, Stocking (Keeps R) where
  pure := Lasting.pure ⟨refl, trans⟩
  throw := Lasting.throw ⟨refl, trans⟩
  bind := Lasting.bind ⟨refl, trans⟩
  tryCatch := Lasting.tryCatch ⟨refl, trans⟩
  look := fun _ => Lasting.bindGet ⟨refl, trans⟩
  checked : Checked Deferred.supplier.answer R
  call (ws : List Value) (d : Deferred) : Keeps R (Deferred.supplier.answer ws d)

/-- Such a relation that is also kept by filling cells that are new. The other relation holds from
one session to those that come of it, from the time that the first thing to be added was a cell of a
kind, to be filled later. -/
structure Furnishing (R : Session → Session → Prop) (M : CellKind → Session → Session → Prop) :
    Prop extends Consulting R where
  newArgument (c : Argument) : Keeps R (Action.newArgument c)
  createArgument := fun _ _ _ _ => newArgument _
  madeList (s : Session) : M .list s ((Action.newList []).after s)
  madeSet (s : Session) : M .set s ((Action.newSet []).after s)
  madeDict (s : Session) : M .dict s ((Action.newDict []).after s)
  madeNamedType (s : Session) : M .named s ((Action.newNamedType .blank).after s)
  madeWrapper (s : Session) : M .wrapper s ((Action.newWrapper .blank).after s)
  madeArgument (s : Session) : M .argument s ((Action.newArgument .blank).after s)
  later {k : CellKind} {s₀ s s' : Session} : M k s₀ s → R s s' → M k s₀ s'
  since {k : CellKind} {s₀ s : Session} : M k s₀ s → R s₀ s
  fillList {s₀ s : Session} (items : List Value) :
    M .list s₀ s → M .list s₀ (s.putList ⟨s₀.lists.size⟩ items)
  fillSet {s₀ s : Session} (members : List Member) :
    M .set s₀ s → M .set s₀ (s.putSet ⟨s₀.sets.size⟩ members)
  fillDict {s₀ s : Session} (entries : List Entry) :
    M .dict s₀ s → M .dict s₀ (s.putDict ⟨s₀.dicts.size⟩ entries)
  fillNamedType {s₀ s : Session} (c : NamedType) :
    M .named s₀ s → M .named s₀ (s.putNamedType ⟨s₀.namedTypes.size⟩ c)
  fillWrapper {s₀ s : Session} (c : WrappingType) :
    M .wrapper s₀ s → M .wrapper s₀ (s.putWrapper ⟨s₀.wrappers.size⟩ c)
  fillArgument {s₀ s : Session} (c : Argument) :
    M .argument s₀ s → M .argument s₀ (s.putArgument ⟨s₀.arguments.size⟩ c)

/-- A relation that is kept by growth, and by filling cells that are new. -/
structure Filling (R : Session → Session → Prop) : Prop extends Growth R where
  fillList {s₀ s : Session} (items : List Value) :
    R s₀ s → R s₀ (s.putList ⟨s₀.lists.size⟩ items)
  fillSet {s₀ s : Session} (members : List Member) :
    R s₀ s → R s₀ (s.putSet ⟨s₀.sets.size⟩ members)
  fillDict {s₀ s : Session} (entries : List Entry) :
    R s₀ s → R s₀ (s.putDict ⟨s₀.dicts.size⟩ entries)
  fillNamedType {s₀ s : Session} (c : NamedType) :
    R s₀ s → R s₀ (s.putNamedType ⟨s₀.namedTypes.size⟩ c)
  fillWrapper {s₀ s : Session} (c : WrappingType) :
    R s₀ s → R s₀ (s.putWrapper ⟨s₀.wrappers.size⟩ c)
  fillArgument {s₀ s : Session} (c : Argument) :
    R s₀ s → R s₀ (s.putArgument ⟨s₀.arguments.size⟩ c)

/-- Such a relation that is kept by changes of cells and of names as well. -/
structure Handling (R : Session → Session → Prop) (M : CellKind → Session → Session → Prop) :
    Prop extends Furnishing R M where
  bound (s : Session) (bindings : List (String × Value)) : R s { s with bindings }
  set (v : Value) (key : String) (new : Value) : Keeps R (Access.set v key new)
  delete (v : Value) (key : String) : Keeps R (Access.delete v key)
  append (v x : Value) : Keeps R (Access.append v x)

/-- A relation that is kept by whatever requests do to data, if the attributes that they assign or
delete have certain names. -/
structure Serving (R : Session → Session → Prop) (named : String → Prop) : Prop
    extends Consulting R where
  bound (s : Session) (bindings : List (String × Value)) : R s { s with bindings }
  set (v : Value) {key : String} (new : Value) : named key → Keeps R (Access.set v key new)
  delete (v : Value) {key : String} : named key → Keeps R (Access.delete v key)
  append (v x : Value) : Keeps R (Access.append v x)
  copy (mode : CopyMode) (v : Value) (building : mode = .stored → Building (Keeps R)) :
    Keeps R (v.copy Deferred.supplier mode)

/-- A relation that is kept by growth, by changes of cells, and by filling those that are new. -/
structure Custody (R : Session → Session → Prop) : Prop extends Filling R where
  bound (s : Session) (bindings : List (String × Value)) : R s { s with bindings }
  noted (s : Session) (journal : List Notice) : R s { s with journal }
  set (v : Value) (key : String) (new : Value) : Keeps R (Access.set v key new)
  delete (v : Value) (key : String) : Keeps R (Access.delete v key)
  append (v x : Value) : Keeps R (Access.append v x)

namespace Filling

theorem observed (h : Filling R) : Observed Deferred.supplier.answer R := h.supplier

/-- Whatever keeps the relation is all that is known of a cell that is filled later. -/
theorem furnishing (h : Filling R) : Furnishing R fun _ => R :=
  { h.toLasting, h.toStocking with
    checked := h.observed.toChecked
    call := h.call
    newArgument := h.newArgument
    madeList := h.newList []
    madeSet := h.newSet []
    madeDict := h.newDict []
    madeNamedType := h.newNamedType .blank
    madeWrapper := h.newWrapper .blank
    madeArgument := h.newArgument .blank
    later := h.trans
    since := id
    fillList := h.fillList
    fillSet := h.fillSet
    fillDict := h.fillDict
    fillNamedType := h.fillNamedType
    fillWrapper := h.fillWrapper
    fillArgument := h.fillArgument }

end Filling

theorem Custody.handling (h : Custody R) : Handling R fun _ => R :=
  { h.furnishing with
    bound := h.bound
    set := h.set
    delete := h.delete
    append := h.append }

namespace Consulting

theorem create (h : Consulting R) (building : Building (Keeps R))
    (name locations args description : Value) :
    Keeps R (Directives.create Deferred.supplier name locations args description) :=
  building.createDirective h.checked.toObserving [] _ _ _ _

theorem fromConfig (h : Consulting R) (building : Building (Keeps R)) (v : Value) :
    Keeps R (Access.fromConfig Deferred.supplier v) :=
  have field := h.checked.get v
  h.bind (field "name") fun _ => h.bind (field "locations") fun _ => h.bind (field "args") fun _ =>
    h.bind (field "description") fun _ => h.create building _ _ _ _

theorem describe (h : Consulting R) (v : Value) :
    Keeps R (Description.of Deferred.supplier v) :=
  h.checked.describe v h.toConfig (h.wrap · v)

end Consulting

end DirectiveSchema
