import DirectiveSchema.Proofs.Duplicates
import DirectiveSchema.Proofs.Inventory

/-!
Stored copies of arguments. A picture shows under each number what became of the object that got it:
a non-null type, or anything else. What is restored under the number is of the same class; and an
argument is restored that tells of its default what was pictured.
-/
namespace DirectiveSchema

variable {α β : Type} {s s' : Session} {v x : Value} {seen seen' seen'' F : List Value} {k : Nat}
  {c : Nat → Bool}

namespace Snapshot

variable {p : Snapshot} {ps qs : List Snapshot}

/-! ### Numbers of pictures -/

/-- Where the object that is pictured is numbered. -/
def slot? : Snapshot → Option Slot
  | .foreign k _ | .list k _ | .set k _ | .dict k _ | .named k _ _ | .wrapper k _ _
  | .argument k _ _ _ _ _ _ => some (.new k)
  | .tuple slot _ | .config slot _ _ _ _ | .scalar slot _ _ _ _ | .directive slot _ _ _ _ =>
    some slot
  | .atom _ | .nan | .seen _ => none

/-- What a picture of an argument tells of its default, and what it shows of a blank argument. -/
inductive Tells : Option Snapshot → Option Snapshot → Snapshot → Prop where
  | told {default : Option Snapshot} {type : Snapshot} :
    Tells (some (.atom (.bool default.isSome))) default type
  | blank : Tells none none (.atom .null)

/-- A picture shows the class of what was met under its number, a non-null type never stands for
itself, and an argument tells of its default. -/
structure Truthful (c : Nat → Bool) (p : Snapshot) : Prop where
  new {k : Nat} : p.slot? = some (.new k) → c k = p.shows c
  old {k : Nat} : p.slot? = some (.old k) → c k = false
  atom {v : Value} : p = .atom v → v.isNonNull = false
  tells {k : Nat} {name description hasDefault default : Option Snapshot} {type : Snapshot}
    {extra : List (String × Snapshot)} :
    p = .argument k name description hasDefault default type extra → Tells hasDefault default type

/-- Pictures that were taken while more objects were met: all of these are numbered in the pictures,
whatever is met later. -/
structure Classifies (seen seen' : List Value) (ps : List Snapshot) : Prop where
  later : seen <:+ seen'
  all {k : Nat} : seen.length ≤ k → k < seen'.length → ∃ p ∈ ps, p.slot? = some (.new k)
  truthful {F : List Value} {p : Snapshot} : seen' <:+ F → p ∈ ps → p.Truthful (isNonNullAt F)

theorem isNonNullAt_of_new (later : v :: seen <:+ F) : isNonNullAt F seen.length = v.isNonNull := by
  rw [isNonNullAt, reverse_of_suffix later (reverse_cons_length v seen)]
  rfl

namespace Classifies

theorem nil (seen : List Value) : Classifies seen seen [] where
  later := List.suffix_rfl
  all after before := absurd before (Nat.not_lt.2 after)
  truthful _ among := absurd among List.not_mem_nil

theorem append (h : Classifies seen seen' ps) (h' : Classifies seen' seen'' qs) :
    Classifies seen seen'' (ps ++ qs) where
  later := h.later.trans h'.later
  all {k} after before := by
    rcases Nat.lt_or_ge k seen'.length with old | new
    · obtain ⟨p, hp, slot⟩ := h.all after old
      exact ⟨p, List.mem_append_left qs hp, slot⟩
    · obtain ⟨p, hp, slot⟩ := h'.all new before
      exact ⟨p, List.mem_append_right ps hp, slot⟩
  truthful later among := by
    rcases List.mem_append.1 among with hp | hp
    · exact h.truthful (h'.later.trans later) hp
    · exact h'.truthful later hp

theorem bare (h : Bare seen p) : Classifies seen seen [p] where
  later := List.suffix_rfl
  all after before := absurd before (Nat.not_lt.2 after)
  truthful {F q} _ among := by
    obtain rfl := List.mem_singleton.1 among
    cases h with
    | atom other => exact ⟨nofun, nofun, fun same => by cases same; exact other, nofun⟩
    | nan => exact ⟨nofun, nofun, nofun, nofun⟩
    | again met => exact ⟨nofun, nofun, nofun, nofun⟩

end Classifies

/-- A part of an argument is pictured if there is one. -/
theorem PartOf.eq_none {o : Option Value} {o' : Option Snapshot} (h : PartOf o o')
    (empty : o = none) : o' = none := by
  rw [← Option.not_isSome_iff_eq_none, ← h.1, empty]
  exact Bool.false_ne_true

theorem Enters.slot? (h : Enters Session.Flagged k v p) : p.slot? = some (.new k) := by
  cases h <;> rfl

/-- An argument is pictured as it tells. -/
theorem Enters.tells {name description hasDefault default : Option Snapshot} {type : Snapshot}
    {extra : List (String × Snapshot)} (h : Enters Session.Flagged k v
      (.argument k name description hasDefault default type extra)) :
    Tells hasDefault default type := by
  cases h with
  | @argument q _ _ _ _ _ _ t s₀ s run holds₀ holds flag stored typed =>
    have kept := (Session.KeepsFlags.consulting.checked.type [] q).of_ok run
    cases holds q with
    | told told =>
      rw [flag.2 _ told rfl, stored.1]
      exact .told
    | blank unset empty based unresolved =>
      obtain rfl := type_of_blank kept.types run based unresolved
      rw [flag.eq_none unset, stored.eq_none empty, typed rfl]
      exact .blank

theorem Classifies.entered (enters : Enters Session.Flagged seen.length v p)
    (h : Classifies (v :: seen) seen' ps) : Classifies seen seen' (p :: ps) where
  later := (List.suffix_cons v seen).trans h.later
  all {k} after before := by
    rcases Nat.eq_or_lt_of_le after with rfl | more
    · exact ⟨p, List.mem_cons_self, enters.slot?⟩
    · obtain ⟨q, hq, slot⟩ := h.all more before
      exact ⟨q, List.mem_cons_of_mem p hq, slot⟩
  truthful {F q} later among := by
    rcases List.mem_cons.1 among with rfl | hq
    · refine ⟨fun {k} slot => ?_, fun slot => ?_, ?_, ?_⟩
      · rw [enters.slot?] at slot
        cases slot
        exact (isNonNullAt_of_new (h.later.trans later)).trans
          ((Evokes.entered enters).nonNull later).symm
      · rw [enters.slot?] at slot
        cases slot
      · rintro v rfl
        cases enters
      · rintro k name description hasDefault default type extra rfl
        cases enters.slot?
        exact enters.tells
    · exact h.truthful later hq

theorem Leaves.slot? {slot : Slot} (h : Leaves slot v p) : p.slot? = some slot := by
  cases h <;> rfl

theorem Leaves.isNonNull_eq {slot : Slot} (h : Leaves slot v p) : v.isNonNull = false := by
  cases h <;> rfl

/-- An object that is numbered after its parts is no non-null type. -/
theorem Leaves.truthful (leaves : Leaves (slotOf v seen).1 v p) (later : (slotOf v seen).2 <:+ F) :
    p.Truthful (isNonNullAt F) := by
  have shown : p.shows (isNonNullAt F) = false :=
    ((Evokes.left leaves : Evokes [] _ v p).nonNull later).trans leaves.isNonNull_eq
  refine ⟨fun {k} new => ?_, fun {k} old => ?_, ?_, ?_⟩
  · rw [leaves.slot?, slotOf] at new
    rw [slotOf] at later
    split at new
    · cases new
    · rw [‹number? v seen = none›] at later
      cases new
      rw [isNonNullAt_of_new later, shown, leaves.isNonNull_eq]
  · rw [leaves.slot?, slotOf] at old
    rw [slotOf] at later
    split at old
    · rw [‹number? v seen = some _›] at later
      cases old
      rw [isNonNullAt_of_met ‹_› later, leaves.isNonNull_eq]
    · cases old
  · rintro v rfl
    cases leaves
  · rintro k name description hasDefault default type extra rfl
    cases leaves

theorem Classifies.left (h : Classifies seen seen' ps) (leaves : Leaves (slotOf v seen').1 v p) :
    Classifies seen (slotOf v seen').2 (p :: ps) where
  later := by
    rw [slotOf]
    split
    · exact h.later
    · exact h.later.trans (List.suffix_cons v seen')
  all {k} after before := by
    have slot := leaves.slot?
    rw [slotOf] at before slot
    split at before
    · obtain ⟨q, hq, slot⟩ := h.all after before
      exact ⟨q, List.mem_cons_of_mem p hq, slot⟩
    · rw [‹number? v seen' = none›] at slot
      rcases Nat.lt_or_eq_of_le (Nat.le_of_lt_succ before) with less | rfl
      · obtain ⟨q, hq, slot⟩ := h.all after less
        exact ⟨q, List.mem_cons_of_mem p hq, slot⟩
      · exact ⟨p, List.mem_cons_self, slot⟩
  truthful {F q} later among := by
    have longer : seen' <:+ (slotOf v seen').2 := by
      rw [slotOf]
      split
      · exact List.suffix_rfl
      · exact List.suffix_cons v seen'
    rcases List.mem_cons.1 among with rfl | hq
    · exact leaves.truthful later
    · exact h.truthful (longer.trans later) hq

open Session.KeepsFlags in
/-- Pictures of a session whose arguments tell of their defaults are classified by their numbers. -/
theorem classifying : Inventory Session.Flagged Classifies where
  resolving :=
    { Upholds.lasting with
      wrapped := fun ws w r => upholds (consulting.checked.wrapped ws w r)
      type := fun ws q => upholds (consulting.checked.type ws q) }
  nil := .nil
  append := .append
  bare := .bare
  entered _ enters h := h.entered enters
  left _ h _ leaves := h.left leaves

/-! ### Restoring -/

/-- What was built under a number is of the class of that number. -/
def Fits (c : Nat → Bool) (table : List (Nat × Value)) : Prop := ∀ e ∈ table, e.2.isNonNull = c e.1

/-- Pictures were restored: what was built stays, and their numbers are in the table. -/
structure Tabulates (c : Nat → Bool) (table table' : List (Nat × Value)) (ps : List Snapshot) :
    Prop where
  fits : Fits c table'
  stays {k : Nat} : k ∈ table.map Prod.fst → k ∈ table'.map Prod.fst
  numbered {p : Snapshot} {k : Nat} : p ∈ ps → p.slot? = some (.new k) → k ∈ table'.map Prod.fst

/-- A datum was restored: what stands for itself as it is, and a non-null type from the picture of
one. -/
structure Yields (c : Nat → Bool) (table : List (Nat × Value)) (p : Snapshot) (x : Value) :
    Prop where
  atom {v : Value} : p = .atom v → x = v
  nonNull : (∀ k, p = .seen k → k ∈ table.map Prod.fst) → x.isNonNull = p.shows c

variable {table table' table'' : List (Nat × Value)}

theorem Tabulates.nil (fits : Fits c table) : Tabulates c table table [] :=
  ⟨fits, id, fun among => absurd among List.not_mem_nil⟩

theorem Tabulates.append (h : Tabulates c table table' ps) (h' : Tabulates c table' table'' qs) :
    Tabulates c table table'' (ps ++ qs) where
  fits := h'.fits
  stays := h'.stays ∘ h.stays
  numbered among slot := by
    rcases List.mem_append.1 among with hp | hp
    · exact h'.stays (h.numbered hp slot)
    · exact h'.numbered hp slot

/-- An object was built with its parts. -/
theorem Tabulates.cons (h : Tabulates c table table' ps)
    (own : ∀ k, p.slot? = some (.new k) → k ∈ table'.map Prod.fst) :
    Tabulates c table table' (p :: ps) where
  fits := h.fits
  stays := h.stays
  numbered among slot := by
    rcases List.mem_cons.1 among with rfl | hp
    · exact own _ slot
    · exact h.numbered hp slot

theorem Tabulates.settled (fits : Fits c table) {x : Value} (class_ : x.isNonNull = c k) :
    Tabulates c table ((k, x) :: table) [] where
  fits := List.forall_mem_cons.2 ⟨class_, fits⟩
  stays := List.mem_cons_of_mem k
  numbered among := absurd among List.not_mem_nil

/-- What is looked up is of the class of its number, if it is there. -/
theorem Fits.lookup (fits : Fits c table) (k : Nat) :
    ((table.lookup k).getD .null).isNonNull =
      if k ∈ table.map Prod.fst then c k else false := by
  induction table with
  | nil => rfl
  | cons e table ih =>
    obtain ⟨j, x⟩ := e
    obtain ⟨first, rest⟩ := List.forall_mem_cons.1 fits
    rw [List.map_cons]
    by_cases same : k = j
    · subst same
      rw [lookup_self, if_pos List.mem_cons_self]
      exact first
    · rw [lookup_of_ne x table same, ih rest]
      simp only [List.mem_cons, same, false_or]

open Attains Session.KeepsFlags

/-- A datum is restored from a picture. -/
abbrev Restored (c : Nat → Bool) (table : List (Nat × Value)) (p : Snapshot)
    (act : Restoring Value) : Prop :=
  Attains Session.Flagged table act fun table' x =>
    Tabulates c table table' p.nodes ∧ Yields c table p x

namespace Restored

theorem settle {next : Value → Restoring α} {post : List (Nat × Value) → α → Prop}
    (rest : Attains Session.Flagged ((k, v) :: table) (next v) post) :
    Attains Session.Flagged table (Snapshot.settle k v >>= next) post := rest

/-- An object is restored that gets its number before its parts. -/
theorem fill {kind : CellKind} {content : Type} {new : Action (Ref kind)}
    {value : Ref kind → Value} {put : Session → Ref kind → content → Session}
    {build : Restoring content} (post : content → Prop) (fits : Fits c table)
    (nodes : p.nodes = p :: ps) (slot : p.slot? = some (.new k)) (truthful : p.Truthful c)
    (made : Keeps (Upholds Session.Flagged) new) (shown : ∀ r, (value r).isNonNull = p.shows c)
    (inner : ∀ {table}, Fits c table → Attains Session.Flagged table build fun table' x =>
      Tabulates c table table' ps ∧ post x)
    (filled : ∀ {s : Session} r x, s.Flagged → post x → (put s r x).Flagged) :
    Restored c table p (Snapshot.fill k new value put build) := by
  refine lift made fun r => ?_
  have settled : Tabulates c table ((k, value r) :: table) [] :=
    .settled fits ((shown r).trans (truthful.new slot).symm)
  have parts := inner settled.fits
  refine settle (parts.bind fun table₁ x h => change (fun _ holds => filled r x holds h.2) ?_)
  rw [nodes]
  refine pure ⟨?_, fun same => ?_, fun _ => shown r⟩
  · refine (settled.append h.1).cons fun j own => ?_
    rw [slot] at own
    cases own
    exact h.1.stays List.mem_cons_self
  · rw [same] at slot
    cases slot

/-- An object is restored that gets its number after its parts, or gives way to another one. -/
theorem make {parts : Type} {slot : Slot} {build : Restoring parts} {act : parts → Action α}
    {value : parts → α → Value} (nodes : p.nodes = p :: ps) (slotted : p.slot? = some slot)
    (truthful : p.Truthful c) (shows : p.shows c = slot.shows c)
    (inner : Attains Session.Flagged table build fun table' _ => Tabulates c table table' ps)
    (made : ∀ x, Keeps (Upholds Session.Flagged) (act x))
    (other : ∀ x a, (value x a).isNonNull = false) :
    Restored c table p
      (Snapshot.make slot build fun x => act x >>= fun a => Pure.pure (value x a)) := by
  refine inner.bind fun table₁ x h => ?_
  have kept := Upholds.lasting.bind (made x) fun a => Upholds.lasting.pure (value x a)
  have plain {v : Value} {s s' : Session}
      (run : (act x >>= fun a => Pure.pure (value x a)) s = .ok v s') : v.isNonNull = false := by
    obtain ⟨a, _, -, returned⟩ := Action.ok_of_bind run
    cases returned
    exact other x a
  have first : Attains Session.Flagged table₁
      (liftM (act x >>= fun a => Pure.pure (value x a)) : Restoring Value)
      fun table₂ v => table₂ = table₁ ∧ v.isNonNull = false :=
    lifted kept fun run => ⟨rfl, plain run⟩
  refine first.bind ?_
  rintro table₂ v ⟨rfl, plain⟩
  rw [nodes]
  have yields {x : Value} (class_ : x.isNonNull = p.shows c) : Yields c table p x := by
    refine ⟨fun same => ?_, fun _ => class_⟩
    rw [same] at slotted
    cases slotted
  cases slot with
  | new k =>
    have class_ : v.isNonNull = p.shows c := plain.trans shows.symm
    have settled := Tabulates.settled h.fits (class_.trans (truthful.new slotted).symm)
    have all := h.append settled
    rw [List.append_nil] at all
    refine fun s holds => ⟨holds, all.cons fun j own => ?_, yields class_⟩
    rw [slotted] at own
    cases own
    exact List.mem_cons_self
  | old k =>
    have class_ : ((table₂.lookup k).getD .null).isNonNull = p.shows c := by
      rw [h.fits.lookup, shows, Slot.shows, truthful.old slotted, ite_self]
    refine fun s holds => ⟨holds, h.cons fun j own => ?_, yields class_⟩
    rw [slotted] at own
    cases own

/-- The four fields of a record or of a directive are restored. -/
theorem fields {name locations args description : Snapshot}
    {first second third fourth : Restoring Value} (fits : Fits c table)
    (hn : ∀ {table}, Fits c table → Restored c table name first)
    (hl : ∀ {table}, Fits c table → Restored c table locations second)
    (ha : ∀ {table}, Fits c table → Restored c table args third)
    (hd : ∀ {table}, Fits c table → Restored c table description fourth) :
    Attains Session.Flagged table (Snapshot.fields first second third fourth) fun table' _ =>
      Tabulates c table table'
        (name.nodes ++ locations.nodes ++ args.nodes ++ description.nodes) :=
  (hn fits).bind fun _ _ h₁ => (hl h₁.1.fits).bind fun _ _ h₂ => (ha h₂.1.fits).bind fun _ _ h₃ =>
    (hd h₃.1.fits).bind fun _ _ h₄ => pure (((h₁.1.append h₂.1).append h₃.1).append h₄.1)

mutual

theorem restoreWith {table : List (Nat × Value)} (p : Snapshot)
    (truthful : ∀ q ∈ p.nodes, q.Truthful c) (fits : Fits c table) :
    Restored c table p (Snapshot.restoreWith Deferred.supplier p) := by
  have building := answered.toBuilding
  have checked := consulting.checked
  have leaf {p : Snapshot} {x : Value} (single : p.nodes = [p]) (unnumbered : p.slot? = none)
      (yields : Yields c table p x) : Restored c table p (Pure.pure x) := by
    refine pure ⟨?_, yields⟩
    rw [single]
    exact (Tabulates.nil fits).cons fun k own => by rw [unnumbered] at own; cases own
  cases p with
  | atom v =>
    have plain := (truthful _ (List.mem_singleton_self _)).atom rfl
    exact leaf rfl rfl ⟨fun same => by cases same; rfl, fun _ => plain⟩
  | nan => exact lift (upholds consulting.freshTag) fun _ => leaf rfl rfl ⟨nofun, fun _ => rfl⟩
  | seen k =>
    refine leaf rfl rfl ⟨nofun, fun among => ?_⟩
    rw [fits.lookup, if_pos (among k rfl)]
    rfl
  | foreign k text =>
    have top := truthful _ (List.mem_singleton_self _)
    refine lift (upholds consulting.freshTag) fun tag => ?_
    have settled : Tabulates c table ((k, .foreign tag text) :: table) [] :=
      .settled fits (top.new rfl).symm
    refine fun s holds => ⟨holds, settled.cons fun j own => ?_, nofun, fun _ => rfl⟩
    cases own
    exact List.mem_cons_self
  | tuple slot items =>
    obtain ⟨top, rest⟩ := List.forall_mem_cons.1 truthful
    refine make rfl rfl top rfl (restoreAll items rest fits) (fun x => ?_) fun _ _ => rfl
    exact upholds (consulting.newRow x)
  | config slot name locations args description =>
    obtain ⟨top, rest⟩ := List.forall_mem_cons.1 truthful
    obtain ⟨⟨⟨hn, hl⟩, ha⟩, hd⟩ := by simpa only [List.forall_mem_append] using rest
    refine make rfl rfl top rfl ?_ (fun _ => upholds consulting.freshTag) fun _ _ => rfl
    exact fields fits (restoreWith name hn) (restoreWith locations hl) (restoreWith args ha)
      (restoreWith description hd)
  | list k items =>
    obtain ⟨top, rest⟩ := List.forall_mem_cons.1 truthful
    refine fill (fun _ => True) fits rfl rfl top (upholds (consulting.newList []))
      (fun _ => rfl) (fun fits => ?_) fun _ _ h _ => h.beside rfl
    exact (restoreAll items rest fits).imp fun _ _ h => ⟨h, trivial⟩
  | set k items =>
    obtain ⟨top, rest⟩ := List.forall_mem_cons.1 truthful
    refine fill (fun _ => True) fits rfl rfl top (upholds (consulting.newSet []))
      (fun _ => rfl) (fun fits => ?_) fun _ _ h _ => h.beside rfl
    exact (restoreAll items rest fits).bind fun _ vs h =>
      lifted (upholds (checked.distinct [] vs)) fun _ => ⟨h, trivial⟩
  | dict k entries =>
    obtain ⟨top, rest⟩ := List.forall_mem_cons.1 truthful
    refine fill (fun _ => True) fits rfl rfl top (upholds (consulting.newDict []))
      (fun _ => rfl) (fun fits => ?_) fun _ _ h _ => h.beside rfl
    exact (restoreEntries entries rest fits).bind fun _ pairs h =>
      lifted (upholds (checked.dictionary [] pairs)) fun _ => ⟨h, trivial⟩
  | named k name extra =>
    obtain ⟨top, rest⟩ := List.forall_mem_cons.1 truthful
    obtain ⟨hn, he⟩ := List.forall_mem_append.1 rest
    refine fill (fun _ => True) fits rfl rfl top
      (upholds (consulting.newNamedType .blank)) (fun _ => rfl) (fun fits => ?_)
      fun _ _ h _ => h.beside rfl
    exact (restorePart name hn fits).bind fun _ _ h =>
      (restoreAttributes extra he h.1.fits).bind fun _ _ h' => pure ⟨h.1.append h', trivial⟩
  | scalar slot name description serialize parse =>
    obtain ⟨top, rest⟩ := List.forall_mem_cons.1 truthful
    obtain ⟨hn, hd⟩ := List.forall_mem_append.1 rest
    refine make rfl rfl top rfl ?_ (fun _ => upholds (consulting.newScalar _)) fun _ _ => rfl
    exact (restoreWith name hn fits).bind fun _ _ h =>
      (restoreWith description hd h.1.fits).bind fun _ _ h' => pure (h.1.append h'.1)
  | wrapper k w type =>
    obtain ⟨top, rest⟩ := List.forall_mem_cons.1 truthful
    refine fill (fun _ => True) fits rfl rfl top
      (upholds (consulting.newWrapper .blank)) (fun _ => by cases w <;> rfl) (fun fits => ?_)
      fun _ _ h _ => h.beside rfl
    exact (restoreWith type rest fits).bind fun _ _ h => pure ⟨h.1, trivial⟩
  | argument k name description hasDefault default type extra =>
    obtain ⟨top, rest⟩ := List.forall_mem_cons.1 truthful
    obtain ⟨⟨⟨⟨⟨hn, hd⟩, hf⟩, hs⟩, ht⟩, he⟩ := by simpa only [List.forall_mem_append] using rest
    refine fill Argument.Flagged fits rfl rfl top ?_ (fun _ => rfl) (fun fits => ?_)
      fun r _ h flagged => h.putArgument r flagged
    · exact fun _ h => h.addArgument .of_blank
    refine (restorePart name hn fits).bind fun _ name' h₁ => ?_
    refine (restorePart description hd h₁.1.fits).bind fun _ description' h₂ => ?_
    refine (restorePart hasDefault hf h₂.1.fits).bind fun _ hasDefault' h₃ => ?_
    refine (restorePart default hs h₃.1.fits).bind fun _ default' h₄ => ?_
    refine (restoreWith type ht h₄.1.fits).bind fun _ type' h₅ => ?_
    refine (restoreAttributes extra he h₅.1.fits).bind fun _ extra' h₆ => pure ⟨?_, ?_⟩
    · exact ((((h₁.1.append h₂.1).append h₃.1).append h₄.1).append h₅.1).append h₆
    cases top.tells rfl with
    | told => exact .told ((h₃.2.2 _ rfl).trans (by rw [h₄.2.1]))
    | blank =>
      obtain rfl := h₅.2.atom rfl
      exact .blank (by simpa using h₃.2.1) (by simpa using h₄.2.1) rfl rfl
  | directive slot name locations args description =>
    obtain ⟨top, rest⟩ := List.forall_mem_cons.1 truthful
    obtain ⟨⟨⟨hn, hl⟩, ha⟩, hd⟩ := by simpa only [List.forall_mem_append] using rest
    refine make rfl rfl top rfl ?_
      (fun _ => upholds (consulting.create building _ _ _ _)) fun _ _ => rfl
    exact fields fits (restoreWith name hn) (restoreWith locations hl) (restoreWith args ha)
      (restoreWith description hd)

theorem restoreAll {table : List (Nat × Value)} (ps : List Snapshot)
    (truthful : ∀ q ∈ nodesAll ps, q.Truthful c) (fits : Fits c table) :
    Attains Session.Flagged table (Snapshot.restoreAll Deferred.supplier ps) fun table' _ =>
      Tabulates c table table' (nodesAll ps) := by
  cases ps with
  | nil => exact pure (.nil fits)
  | cons p ps =>
    obtain ⟨first, rest⟩ := List.forall_mem_append.1 truthful
    exact (restoreWith p first fits).bind fun _ _ h => (restoreAll ps rest h.1.fits).bind
      fun _ _ h' => pure (h.1.append h')

theorem restoreEntries {table : List (Nat × Value)} (ps : List (Snapshot × Snapshot))
    (truthful : ∀ q ∈ nodesOfEntries ps, q.Truthful c) (fits : Fits c table) :
    Attains Session.Flagged table (Snapshot.restoreEntries Deferred.supplier ps) fun table' _ =>
      Tabulates c table table' (nodesOfEntries ps) := by
  cases ps with
  | nil => exact pure (.nil fits)
  | cons p ps =>
    obtain ⟨key, value⟩ := p
    obtain ⟨both, rest⟩ := List.forall_mem_append.1 truthful
    obtain ⟨first, second⟩ := List.forall_mem_append.1 both
    exact (restoreWith key first fits).bind fun _ _ h => (restoreWith value second h.1.fits).bind
      fun _ _ h' => (restoreEntries ps rest h'.1.fits).bind fun _ _ h'' =>
        pure ((h.1.append h'.1).append h'')

theorem restorePart {table : List (Nat × Value)} (o : Option Snapshot)
    (truthful : ∀ q ∈ nodesOfPart o, q.Truthful c) (fits : Fits c table) :
    Attains Session.Flagged table (Snapshot.restorePart Deferred.supplier o) fun table' x =>
      Tabulates c table table' (nodesOfPart o) ∧ x.isSome = o.isSome ∧
        ∀ v, o = some (.atom v) → x = some v := by
  cases o with
  | none => exact pure ⟨.nil fits, rfl, nofun⟩
  | some p =>
    refine (restoreWith p truthful fits).bind fun _ x h => pure ⟨h.1, rfl, ?_⟩
    rintro v ⟨⟩
    exact congrArg some (h.2.atom rfl)

theorem restoreAttributes {table : List (Nat × Value)} (ps : List (String × Snapshot))
    (truthful : ∀ q ∈ nodesOfAttributes ps, q.Truthful c) (fits : Fits c table) :
    Attains Session.Flagged table (Snapshot.restoreAttributes Deferred.supplier ps) fun table' _ =>
      Tabulates c table table' (nodesOfAttributes ps) := by
  cases ps with
  | nil => exact pure (.nil fits)
  | cons p ps =>
    obtain ⟨key, p⟩ := p
    obtain ⟨first, rest⟩ := List.forall_mem_append.1 truthful
    exact (restoreWith p first fits).bind fun _ _ h =>
      (restoreAttributes ps rest h.1.fits).bind fun _ _ h' => pure (h.1.append h')

end

end Restored

end Snapshot

end DirectiveSchema
