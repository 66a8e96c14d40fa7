import DirectiveSchema.Proofs.Custody

/-!
Copies. While a copy is made, what was met so far is carried along. To picture data is to observe
them; to build copies adds objects, and fills those that were added.
-/
namespace DirectiveSchema

variable {α β σ : Type} {R : Session → Session → Prop} {M : CellKind → Session → Session → Prop}

/-- An action that carries something along keeps a relation, whatever it carries. -/
def KeepsWith (R : Session → Session → Prop) (x : StateT σ Action α) : Prop :=
  ∀ carried, Keeps R (x carried)

def KeepsWithSince (R : Session → Session → Prop) (s₀ : Session) (x : StateT σ Action α) : Prop :=
  ∀ carried, KeepsSince R s₀ (x carried)

theorem KeepsWithSince.bind {s₀ : Session} {x : StateT σ Action α} {f : α → StateT σ Action β}
    (first : KeepsWithSince R s₀ x) (rest : ∀ a, KeepsWithSince R s₀ (f a)) :
    KeepsWithSince R s₀ (x >>= f) :=
  fun carried => (first carried).bind fun p => rest p.1 p.2

/-- A change of a cell that was not there at first. -/
theorem KeepsWithSince.change {s₀ : Session} {f : Session → Session}
    (step : ∀ s, R s₀ s → R s₀ (f s)) :
    KeepsWithSince R s₀ (modifyThe Session f : StateT σ Action Unit) :=
  fun _ s earlier => step s earlier

namespace Lasting

section

variable (h : Lasting R)

include h

theorem pureWith (a : α) : KeepsWith R (Pure.pure a : StateT σ Action α) := fun _ => h.pure _

theorem throwWith (f : Fault) : KeepsWith R (MonadExcept.throw f : StateT σ Action α) :=
  fun _ => h.throw f

theorem bindWith {x : StateT σ Action α} {f : α → StateT σ Action β} (first : KeepsWith R x)
    (rest : ∀ a, KeepsWith R (f a)) : KeepsWith R (x >>= f) :=
  fun carried => h.bind (first carried) fun p => rest p.1 p.2

/-- What is carried along may be read. -/
theorem bindCarried {f : σ → StateT σ Action β} (rest : ∀ carried, KeepsWith R (f carried)) :
    KeepsWith R (MonadState.get >>= f) :=
  h.bindWith (fun carried => h.pure (carried, carried)) rest

theorem bindSession {f : Session → StateT σ Action β} (rest : ∀ s, KeepsWith R (f s)) :
    KeepsWith R (getThe Session >>= f) :=
  h.bindWith (fun carried => h.bindGet fun s => h.pure (s, carried)) rest

theorem lift {x : Action α} (kept : Keeps R x) : KeepsWith R (liftM x : StateT σ Action α) :=
  fun _ => h.bind kept fun _ => h.pure _

theorem carry (f : σ → α × σ) : KeepsWith R (MonadState.modifyGet f : StateT σ Action α) :=
  fun carried => h.pure (f carried)

theorem mapMWith {f : α → StateT σ Action β} (step : ∀ a, KeepsWith R (f a)) (as : List α) :
    KeepsWith R (as.mapM f) := by
  induction as with
  | nil => exact h.pureWith []
  | cons a as ih =>
    rw [List.mapM_cons]
    exact h.bindWith (step a) fun b => h.bindWith ih fun bs => h.pureWith (b :: bs)

theorem foldlMWith {f : β → α → StateT σ Action β} (step : ∀ b a, KeepsWith R (f b a))
    (as : List α) (b : β) : KeepsWith R (as.foldlM f b) := by
  induction as generalizing b with
  | nil => exact h.pureWith b
  | cons a as ih =>
    rw [List.foldlM_cons]
    exact h.bindWith (step b a) ih

end

end Lasting

/-! ### Pictures -/

namespace Checked

variable {answer : List Value → Deferred → Action Value}
  {f next : Value → Snapshot.Taking Snapshot}

theorem pictured (h : Checked answer R) (v : Value) : KeepsWith R (Snapshot.enter v) :=
  h.carry _

theorem leave (h : Checked answer R) (v : Value) : KeepsWith R (Snapshot.leave v) :=
  h.carry _

theorem picturePart (h : Checked answer R) (parts : ∀ v, KeepsWith R (f v)) (v : Option Value) :
    KeepsWith R (Snapshot.part f v) := by
  cases v with
  | none => exact h.pureWith _
  | some v => exact h.bindWith (parts v) fun _ => h.pureWith _

theorem pictureAttributes (h : Checked answer R) (parts : ∀ v, KeepsWith R (f v))
    (as : Attributes) : KeepsWith R (Snapshot.attributes f as) := by
  refine h.mapMWith (fun p => ?_) as
  exact h.bindWith (parts p.2) fun _ => h.pureWith _

theorem picture (h : Checked answer R) (ws : List Value) (parts : ∀ v, KeepsWith R (f v))
    (types : ∀ v, KeepsWith R (next v)) (v : Value) :
    KeepsWith R (Snapshot.ofObject ⟨ws, answer⟩ f next v) := by
  unfold Snapshot.ofObject
  split
  · exact h.pureWith _
  · exact h.bindWith (h.pictured _) fun _ => h.pureWith _
  · split
    · exact h.pureWith _
    · exact h.bindWith (h.mapMWith parts _) fun _ => h.bindWith (h.leave _) fun _ => h.pureWith _
  · refine h.bindWith (parts _) fun _ => h.bindWith (parts _) fun _ => ?_
    refine h.bindWith (parts _) fun _ => h.bindWith (parts _) fun _ => ?_
    exact h.bindWith (h.leave _) fun _ => h.pureWith _
  · refine h.bindWith (h.pictured _) fun _ => h.bindSession fun _ => ?_
    exact h.bindWith (h.mapMWith parts _) fun _ => h.pureWith _
  · refine h.bindWith (h.pictured _) fun _ => h.bindSession fun _ => ?_
    exact h.bindWith (h.mapMWith (fun _ => parts _) _) fun _ => h.pureWith _
  · refine h.bindWith (h.pictured _) fun _ => h.bindSession fun _ => ?_
    refine h.bindWith (h.mapMWith (fun _ => ?_) _) fun _ => h.pureWith _
    exact h.bindWith (parts _) fun _ => h.bindWith (parts _) fun _ => h.pureWith _
  · refine h.bindWith (h.pictured _) fun _ => h.bindSession fun _ => ?_
    refine h.bindWith (h.picturePart parts _) fun _ => ?_
    exact h.bindWith (h.pictureAttributes parts _) fun _ => h.pureWith _
  · split
    · exact h.pureWith _
    · refine h.bindSession fun _ => h.bindWith (h.lift (h.present _ _ _)) fun _ => ?_
      refine h.bindWith (parts _) fun _ => h.bindWith (parts _) fun _ => ?_
      exact h.bindWith (h.leave _) fun _ => h.pureWith _
  · refine h.bindWith (h.lift (h.wrapped ws _ _)) fun _ => ?_
    refine h.bindWith (h.lift (h.wrapped ws _ _)) fun _ => ?_
    refine h.bindWith (h.pictured _) fun _ => h.bindWith ?_ fun _ => h.pureWith _
    unfold Snapshot.ofWrapped
    split
    · exact parts _
    · exact types _
  · refine h.bindWith (h.lift (h.type ws _)) fun _ => h.bindSession fun _ => ?_
    refine h.bindWith (h.pictured _) fun _ => h.bindWith (h.picturePart parts _) fun _ => ?_
    refine h.bindWith (h.picturePart parts _) fun _ => ?_
    refine h.bindWith (h.picturePart parts _) fun _ => ?_
    refine h.bindWith (h.picturePart parts _) fun _ => h.bindWith (types _) fun _ => ?_
    exact h.bindWith (h.pictureAttributes parts _) fun _ => h.pureWith _
  · refine h.bindSession fun _ => h.bindWith (parts _) fun _ => h.bindWith (parts _) fun _ => ?_
    refine h.bindWith (parts _) fun _ => h.bindWith (parts _) fun _ => ?_
    exact h.bindWith (h.leave _) fun _ => h.pureWith _
  · exact h.throwWith _
  · exact h.pureWith _

theorem takeRound (h : Checked answer R) (ws : List Value) (types : ∀ v, KeepsWith R (next v))
    (n : Nat) (v : Value) : KeepsWith R (Snapshot.takeRound ⟨ws, answer⟩ next n v) := by
  induction n generalizing v with
  | zero => exact h.throwWith _
  | succ n ih =>
    refine h.bindCarried fun seen => ?_
    split
    · exact h.pureWith _
    · exact h.picture ws ih types v

theorem takeWithin (h : Checked answer R) (ws : List Value) (n : Nat) (v : Value) :
    KeepsWith R (Snapshot.takeWithin ⟨ws, answer⟩ n v) := by
  induction n generalizing v with
  | zero => exact h.throwWith _
  | succ n ih =>
    intro seen
    exact h.boundedPairs fun m => h.takeRound ws ih m v seen

theorem take (h : Checked answer R) (ws : List Value) (v : Value) :
    Keeps R (Snapshot.take ⟨ws, answer⟩ v) :=
  h.boundedPairs fun n => h.bind (h.takeWithin ws n v []) fun _ => h.pure _

end Checked

/-- The shallow copy of an argument is an argument that no constructor made. -/
theorem Consulting.shallowCopy (h : Consulting R)
    (argument : ∀ q, Keeps R ((Value.argument q).shallowCopy Deferred.supplier)) (v : Value) :
    Keeps R (v.shallowCopy Deferred.supplier) := by
  have checked := h.checked
  unfold Value.shallowCopy
  split
  · exact h.bind h.freshTag fun _ => h.pure _
  · exact h.bind h.freshTag fun _ => h.pure _
  · exact h.bindGet fun _ => h.bind (h.newList _) fun _ => h.pure _
  · exact h.bindGet fun _ => h.bind (h.newSet _) fun _ => h.pure _
  · exact h.bindGet fun _ => h.bind (h.newDict _) fun _ => h.pure _
  · exact h.bindGet fun _ => h.bind (h.newNamedType _) fun _ => h.pure _
  · split
    · exact h.pure _
    · refine h.bindGet fun _ => h.bind (checked.present _ _ _) fun _ => ?_
      exact h.bind (h.newScalar _) fun _ => h.pure _
  · refine h.bind (checked.wrapped [] _ _) fun _ => h.bind (checked.wrapped [] _ _) fun _ => ?_
    exact h.bind (h.newWrapper _) fun _ => h.pure _
  · exact argument _
  · exact h.throw _
  · exact h.pure _

namespace Furnishing

/-! ### What comes after the making of an object -/

theorem sinceWith (h : Furnishing R M) {x : StateT σ Action α} (kept : KeepsWith R x)
    {k : CellKind} (s₀ : Session) : KeepsWithSince (M k) s₀ x :=
  fun carried s earlier => h.later earlier (kept carried s)

/-- What follows the making of an object may change it: it was not there before. -/
theorem bindNew (h : Furnishing R M) {k : CellKind} {new : Action α} {place : Session → α}
    {f : α → StateT σ Action β} (made : ∀ s, new s = .ok (place s) (new.after s))
    (kept : ∀ s, M k s (new.after s)) (rest : ∀ s, KeepsWithSince (M k) s (f (place s))) :
    KeepsWith R (liftM new >>= f) := by
  intro carried s
  have run : (liftM new >>= f) carried s = f (place s) carried (new.after s) :=
    Action.bindWith_of_ok (Action.lift_of_ok (made s))
  have same : ((liftM new >>= f) carried).after s = (f (place s) carried).after (new.after s) := by
    simp only [Action.after, run]
  exact same ▸ h.since (rest s carried _ (kept s))

/-! ### Shallow and deep copies -/

theorem shallowCopy (h : Furnishing R M) (v : Value) :
    Keeps R (v.shallowCopy Deferred.supplier) :=
  h.toConsulting.shallowCopy (fun q => h.bind (h.checked.type [] q) fun _ => h.bindGet fun _ =>
    h.bind (h.newArgument _) fun _ => h.pure _) v

section

variable {f : Value → DeepCopy.Copying Value}

theorem remember (h : Furnishing R M) (v copy : Value) : KeepsWith R (DeepCopy.remember v copy) :=
  h.carry _

theorem copyPart (h : Furnishing R M) (parts : ∀ v, KeepsWith R (f v)) (v : Option Value) :
    KeepsWith R (DeepCopy.part f v) := by
  cases v with
  | none => exact h.pureWith _
  | some v => exact h.bindWith (parts v) fun _ => h.pureWith _

theorem copyAttributes (h : Furnishing R M) (parts : ∀ v, KeepsWith R (f v)) (as : Attributes) :
    KeepsWith R (DeepCopy.attributes f as) := by
  refine h.mapMWith (fun p => ?_) as
  exact h.bindWith (parts p.2) fun _ => h.pureWith _

theorem addEntry (h : Furnishing R M) (parts : ∀ v, KeepsWith R (f v)) (es : List Entry)
    (e : Entry) : KeepsWith R (DeepCopy.addEntry Deferred.supplier f es e) :=
  h.bindWith (parts e.value) fun _ => h.bindWith (parts e.key) fun _ =>
    h.lift (h.checked.assign [] _ _ _)

theorem copyObject (h : Furnishing R M) (parts : ∀ v, KeepsWith R (f v)) (v : Value) :
    KeepsWith R (DeepCopy.ofObject Deferred.supplier f v) := by
  have checked := h.checked
  unfold DeepCopy.ofObject
  split
  · exact h.bindWith (h.lift h.freshTag) fun _ => h.remember _ _
  · refine h.bindWith (h.mapMWith parts _) fun _ => h.bindCarried fun _ => ?_
    split
    · exact h.pureWith _
    · split
      · exact h.pureWith _
      · exact h.bindWith (h.lift (h.newRow _)) fun _ => h.remember _ _
  · refine h.bindWith (parts _) fun _ => h.bindWith (parts _) fun _ => ?_
    refine h.bindWith (parts _) fun _ => h.bindWith (parts _) fun _ => ?_
    exact h.bindWith (h.lift h.freshTag) fun _ => h.remember _ _
  · refine h.bindSession fun _ => h.bindNew (fun _ => rfl) h.madeList fun s => ?_
    refine (h.sinceWith (h.remember _ _) s).bind fun _ => ?_
    refine (h.sinceWith (h.mapMWith parts _) s).bind fun _ => ?_
    exact (KeepsWithSince.change fun _ => h.fillList _).bind fun _ => h.sinceWith (h.pureWith _) s
  · refine h.bindSession fun _ => h.bindWith (h.mapMWith (fun _ => parts _) _) fun _ => ?_
    refine h.bindWith (h.lift (checked.distinct [] _)) fun _ => ?_
    exact h.bindWith (h.lift (h.newSet _)) fun _ => h.remember _ _
  · refine h.bindSession fun _ => h.bindNew (fun _ => rfl) h.madeDict fun s => ?_
    refine (h.sinceWith (h.remember _ _) s).bind fun _ => ?_
    refine (h.sinceWith (h.foldlMWith (h.addEntry parts) _ _) s).bind fun _ => ?_
    exact (KeepsWithSince.change fun _ => h.fillDict _).bind fun _ => h.sinceWith (h.pureWith _) s
  · refine h.bindSession fun _ => h.bindNew (fun _ => rfl) h.madeNamedType fun s => ?_
    refine (h.sinceWith (h.remember _ _) s).bind fun _ => ?_
    refine (h.sinceWith (h.copyPart parts _) s).bind fun _ => ?_
    refine (h.sinceWith (h.copyAttributes parts _) s).bind fun _ => ?_
    exact (KeepsWithSince.change fun _ => h.fillNamedType _).bind fun _ =>
      h.sinceWith (h.pureWith _) s
  · split
    · exact h.pureWith _
    · refine h.bindSession fun _ => h.bindWith (h.lift (checked.present _ _ _)) fun _ => ?_
      refine h.bindWith (parts _) fun _ => h.bindWith (parts _) fun _ => ?_
      exact h.bindWith (h.lift (h.newScalar _)) fun _ => h.remember _ _
  · refine h.bindWith (h.lift (checked.wrapped [] _ _)) fun _ => ?_
    refine h.bindWith (h.lift (checked.wrapped [] _ _)) fun _ => ?_
    refine h.bindNew (fun _ => rfl) h.madeWrapper fun s => ?_
    refine (h.sinceWith (h.remember _ _) s).bind fun _ => (h.sinceWith (parts _) s).bind fun _ => ?_
    exact (KeepsWithSince.change fun _ => h.fillWrapper _).bind fun _ =>
      h.sinceWith (h.pureWith _) s
  · refine h.bindWith (h.lift (checked.type [] _)) fun _ => h.bindSession fun _ => ?_
    refine h.bindNew (fun _ => rfl) h.madeArgument fun s => ?_
    have part (v : Option Value) := h.sinceWith (k := .argument) (h.copyPart parts v) s
    refine (h.sinceWith (h.remember _ _) s).bind fun _ => (part _).bind fun _ => ?_
    refine (part _).bind fun _ => (part _).bind fun _ => (part _).bind fun _ => ?_
    refine (h.sinceWith (parts _) s).bind fun _ => ?_
    refine (h.sinceWith (h.copyAttributes parts _) s).bind fun _ => ?_
    exact (KeepsWithSince.change fun _ => h.fillArgument _).bind fun _ =>
      h.sinceWith (h.pureWith _) s
  · exact h.throwWith _
  · exact h.pureWith _

end

theorem copyWithin (h : Furnishing R M) (n : Nat) (v : Value) :
    KeepsWith R (DeepCopy.copyWithin Deferred.supplier n v) := by
  induction n generalizing v with
  | zero => exact h.throwWith _
  | succ n ih =>
    refine h.bindCarried fun memo => ?_
    split
    · exact h.pureWith _
    · exact h.copyObject ih v

theorem deepCopy (h : Furnishing R M) (v : Value) :
    Keeps R (DeepCopy.copy Deferred.supplier v) :=
  h.boundedPairs fun n => h.bind (h.copyWithin n v []) fun _ => h.pure _

/-! ### Stored copies -/

theorem settle (h : Furnishing R M) (k : Nat) (v : Value) : KeepsWith R (Snapshot.settle k v) :=
  h.carry _

theorem built (h : Furnishing R M) (k : Nat) : KeepsWith R (Snapshot.built k) :=
  h.bindCarried fun _ => h.pureWith _

theorem fill (h : Furnishing R M) {kind : CellKind} {content : Type} (k : Nat)
    {new : Action (Ref kind)} {cell : Session → Ref kind} (value : Ref kind → Value)
    {put : Session → Ref kind → content → Session} {build : Snapshot.Restoring content}
    (made : ∀ s, new s = .ok (cell s) (new.after s)) (kept : ∀ s, M kind s (new.after s))
    (filled : ∀ {s₀ s : Session} (c : content), M kind s₀ s → M kind s₀ (put s (cell s₀) c))
    (inner : KeepsWith R build) : KeepsWith R (Snapshot.fill k new value put build) := by
  refine h.bindNew made kept fun s => (h.sinceWith (h.settle k _) s).bind fun v => ?_
  refine (h.sinceWith inner s).bind fun c => ?_
  exact (KeepsWithSince.change fun _ => filled c).bind fun _ => h.sinceWith (h.pureWith v) s

theorem place (h : Furnishing R M) (slot : Slot) (v : Value) :
    KeepsWith R (Snapshot.place slot v) := by
  cases slot with
  | new k => exact h.settle k v
  | old k => exact h.built k

theorem make (h : Furnishing R M) (slot : Slot) {parts : Type} {build : Snapshot.Restoring parts}
    {construct : parts → Action Value} (inner : KeepsWith R build)
    (made : ∀ c, Keeps R (construct c)) : KeepsWith R (Snapshot.make slot build construct) :=
  h.bindWith inner fun c => h.bindWith (h.lift (made c)) fun v => h.place slot v

theorem fields (h : Furnishing R M) {name locations args description : Snapshot.Restoring Value}
    (first : KeepsWith R name) (second : KeepsWith R locations) (third : KeepsWith R args)
    (fourth : KeepsWith R description) :
    KeepsWith R (Snapshot.fields name locations args description) :=
  h.bindWith first fun _ => h.bindWith second fun _ => h.bindWith third fun _ =>
    h.bindWith fourth fun _ => h.pureWith _

mutual

theorem restoreWith (h : Furnishing R M) (building : Building (Keeps R)) (p : Snapshot) :
    KeepsWith R (Snapshot.restoreWith Deferred.supplier p) := by
  cases p with
  | atom v => exact h.pureWith _
  | nan => exact h.bindWith (h.lift h.freshTag) fun _ => h.pureWith _
  | seen k => exact h.built k
  | foreign k text => exact h.bindWith (h.lift h.freshTag) fun _ => h.settle _ _
  | tuple slot items =>
    exact h.make slot (h.restoreAll building items) fun _ => h.bind (h.newRow _) fun _ => h.pure _
  | config slot name locations args description =>
    refine h.make slot ?_ fun _ => h.bind h.freshTag fun _ => h.pure _
    exact h.fields (h.restoreWith building name) (h.restoreWith building locations)
      (h.restoreWith building args) (h.restoreWith building description)
  | list k items =>
    exact h.fill k .list (fun _ => rfl) h.madeList h.fillList (h.restoreAll building items)
  | set k items =>
    refine h.fill k .set (fun _ => rfl) h.madeSet h.fillSet ?_
    exact h.bindWith (h.restoreAll building items) fun _ => h.lift (h.checked.distinct [] _)
  | dict k entries =>
    refine h.fill k .dict (fun _ => rfl) h.madeDict h.fillDict ?_
    exact h.bindWith (h.restoreEntries building entries) fun _ => h.lift (h.checked.dictionary [] _)
  | named k name extra =>
    refine h.fill k .named (fun _ => rfl) h.madeNamedType h.fillNamedType ?_
    refine h.bindWith (h.restorePart building name) fun _ => ?_
    exact h.bindWith (h.restoreAttributes building extra) fun _ => h.pureWith _
  | scalar slot name description serialize parse =>
    refine h.make slot ?_ fun _ => h.bind (h.newScalar _) fun _ => h.pure _
    exact h.bindWith (h.restoreWith building name) fun _ =>
      h.bindWith (h.restoreWith building description) fun _ => h.pureWith _
  | wrapper k w type =>
    refine h.fill k (.wrapper w) (fun _ => rfl) h.madeWrapper h.fillWrapper ?_
    exact h.bindWith (h.restoreWith building type) fun _ => h.pureWith _
  | argument k name description hasDefault default type extra =>
    refine h.fill k .argument (fun _ => rfl) h.madeArgument h.fillArgument ?_
    refine h.bindWith (h.restorePart building name) fun _ => ?_
    refine h.bindWith (h.restorePart building description) fun _ => ?_
    refine h.bindWith (h.restorePart building hasDefault) fun _ => ?_
    refine h.bindWith (h.restorePart building default) fun _ => ?_
    refine h.bindWith (h.restoreWith building type) fun _ => ?_
    exact h.bindWith (h.restoreAttributes building extra) fun _ => h.pureWith _
  | directive slot name locations args description =>
    refine h.make slot ?_ fun _ => h.bind (h.create building _ _ _ _) fun _ => h.pure _
    exact h.fields (h.restoreWith building name) (h.restoreWith building locations)
      (h.restoreWith building args) (h.restoreWith building description)

theorem restoreAll (h : Furnishing R M) (building : Building (Keeps R)) (ps : List Snapshot) :
    KeepsWith R (Snapshot.restoreAll Deferred.supplier ps) := by
  cases ps with
  | nil => exact h.pureWith _
  | cons p ps =>
    exact h.bindWith (h.restoreWith building p) fun _ =>
      h.bindWith (h.restoreAll building ps) fun _ => h.pureWith _

theorem restoreEntries (h : Furnishing R M) (building : Building (Keeps R))
    (ps : List (Snapshot × Snapshot)) :
    KeepsWith R (Snapshot.restoreEntries Deferred.supplier ps) := by
  cases ps with
  | nil => exact h.pureWith _
  | cons p ps =>
    obtain ⟨k, v⟩ := p
    refine h.bindWith (h.restoreWith building k) fun _ => ?_
    refine h.bindWith (h.restoreWith building v) fun _ => ?_
    exact h.bindWith (h.restoreEntries building ps) fun _ => h.pureWith _

theorem restorePart (h : Furnishing R M) (building : Building (Keeps R)) (p : Option Snapshot) :
    KeepsWith R (Snapshot.restorePart Deferred.supplier p) := by
  cases p with
  | none => exact h.pureWith _
  | some p => exact h.bindWith (h.restoreWith building p) fun _ => h.pureWith _

theorem restoreAttributes (h : Furnishing R M) (building : Building (Keeps R))
    (ps : List (String × Snapshot)) :
    KeepsWith R (Snapshot.restoreAttributes Deferred.supplier ps) := by
  cases ps with
  | nil => exact h.pureWith _
  | cons p ps =>
    obtain ⟨key, p⟩ := p
    refine h.bindWith (h.restoreWith building p) fun _ => ?_
    exact h.bindWith (h.restoreAttributes building ps) fun _ => h.pureWith _

end

theorem restore (h : Furnishing R M) (building : Building (Keeps R)) (p : Snapshot) :
    Keeps R (Snapshot.restore Deferred.supplier p) :=
  h.bind (h.restoreWith building p []) fun _ => h.pure _

theorem storedCopy (h : Furnishing R M) (building : Building (Keeps R)) (v : Value) :
    Keeps R (Snapshot.copy Deferred.supplier v) :=
  h.bind (h.checked.take [] v) (h.restore building)

/-- Directives are built by stored copies only. -/
theorem copy (h : Furnishing R M) (mode : CopyMode) (v : Value)
    (building : mode = .stored → Building (Keeps R)) :
    Keeps R (v.copy Deferred.supplier mode) := by
  cases mode with
  | shallow => exact h.shallowCopy v
  | deep => exact h.deepCopy v
  | stored => exact h.storedCopy (building rfl) v

end Furnishing

theorem Handling.serving (h : Handling R M) : Serving R fun _ => True :=
  { h.toConsulting with
    bound := h.bound
    set := fun v key new _ => h.set v key new
    delete := fun v key _ => h.delete v key
    append := h.append
    copy := h.copy }

end DirectiveSchema
