import DirectiveSchema.Proofs.Transcription

/-!
Stored copies on the account of a census. A picture is sound when what it takes from the session
belongs to the census, and when a non-null type is pictured over a non-null type only if a lapse is
on record. What a sound picture is restored to is a non-null type only if one was pictured.
-/
namespace DirectiveSchema

variable {α β : Type} {s s' : Session} {u v x : Value} {W W' : Census} {seen seen' F : List Value}
  {c : Nat → Bool} {p : Snapshot} {k : Nat}

open Census.Admits

/-! ### Sound pictures -/

/-- Whether an object that was built before, if there is one, may be a non-null type. -/
def Slot.shows (c : Nat → Bool) : Slot → Bool
  | .new _ => false
  | .old k => c k

namespace Snapshot

mutual

/-- A picture, and all pictures in it. -/
def nodes : Snapshot → List Snapshot
  | .tuple slot items => .tuple slot items :: nodesAll items
  | .config slot name locations args description =>
    .config slot name locations args description ::
      (name.nodes ++ locations.nodes ++ args.nodes ++ description.nodes)
  | .list k items => .list k items :: nodesAll items
  | .set k items => .set k items :: nodesAll items
  | .dict k entries => .dict k entries :: nodesOfEntries entries
  | .named k name extra => .named k name extra :: (nodesOfPart name ++ nodesOfAttributes extra)
  | .scalar slot name description serialize parse =>
    .scalar slot name description serialize parse :: (name.nodes ++ description.nodes)
  | .wrapper k w type => .wrapper k w type :: type.nodes
  | .argument k name description hasDefault default type extra =>
    .argument k name description hasDefault default type extra ::
      (nodesOfPart name ++ nodesOfPart description ++ nodesOfPart hasDefault ++
        nodesOfPart default ++ type.nodes ++ nodesOfAttributes extra)
  | .directive slot name locations args description =>
    .directive slot name locations args description ::
      (name.nodes ++ locations.nodes ++ args.nodes ++ description.nodes)
  | p => [p]

def nodesAll : List Snapshot → List Snapshot
  | [] => []
  | p :: ps => p.nodes ++ nodesAll ps

def nodesOfEntries : List (Snapshot × Snapshot) → List Snapshot
  | [] => []
  | (k, v) :: ps => k.nodes ++ v.nodes ++ nodesOfEntries ps

def nodesOfPart : Option Snapshot → List Snapshot
  | none => []
  | some p => p.nodes

def nodesOfAttributes : List (String × Snapshot) → List Snapshot
  | [] => []
  | (_, p) :: ps => p.nodes ++ nodesOfAttributes ps

end

/-- Whether a picture may show a non-null type, by the numbers that do. -/
def shows (c : Nat → Bool) : Snapshot → Bool
  | .seen k => c k
  | .tuple slot _ | .config slot _ _ _ _ | .scalar slot _ _ _ _ | .directive slot _ _ _ _ =>
    slot.shows c
  | .wrapper _ w _ => w == .nonNull
  | _ => false

/-- What a picture takes from the session belongs to the census, and a non-null type is shown under
its number, over another one only after a lapse. -/
def Stands (W : Census) (c : Nat → Bool) : Snapshot → Prop
  | .atom v => v.Belongs W ∧ v.isNonNull = false
  | .scalar _ _ _ serialize parse => W.Includes (serialize.contents ++ parse.contents)
  | .wrapper k w type => w = .nonNull → c k = true ∧ (type.shows c = true → W.lapsed ≠ [])
  | _ => True

/-- All pictures of some stand. -/
def Sound (W : Census) (c : Nat → Bool) (ps : List Snapshot) : Prop := ∀ q ∈ ps, q.Stands W c

theorem Stands.mono {steady : Bool} (h : p.Stands W c) (more : W.Extends steady W') :
    p.Stands W' c := by
  cases p with
  | atom v => exact ⟨h.1.mono more, h.2⟩
  | scalar => exact Census.Includes.mono h more
  | wrapper =>
    intro class_
    exact ⟨(h class_).1, fun shown => more.nonempty ((h class_).2 shown)⟩
  | _ => trivial

theorem sound_nil : Sound W c [] := fun _ hq => absurd hq List.not_mem_nil

theorem sound_append {ps qs : List Snapshot} :
    Sound W c (ps ++ qs) ↔ Sound W c ps ∧ Sound W c qs := List.forall_mem_append

theorem sound_cons {ps : List Snapshot} : Sound W c (p :: ps) ↔ p.Stands W c ∧ Sound W c ps :=
  List.forall_mem_cons

theorem Sound.mono {steady : Bool} {ps : List Snapshot} (h : Sound W c ps)
    (more : W.Extends steady W') : Sound W' c ps := fun q hq => (h q hq).mono more

/-- The numbers of the non-null types among what was met. -/
def isNonNullAt (seen : List Value) (k : Nat) : Bool :=
  (seen.reverse[k]?).elim false Value.isNonNull

/-- Under the number of a datum that was met lies one of its class. -/
theorem isNonNull_of_met (met : number? v seen = some k) (later : seen <:+ F)
    (shown : isNonNullAt F k = true) : v.isNonNull = true := by
  obtain ⟨x, found, same⟩ := met_of_number? met
  rw [isNonNullAt, reverse_of_suffix later found] at shown
  exact Value.isNonNull_of_same same shown

end Snapshot

open Snapshot

/-! ### Taking pictures -/

/-- An action by which pictures are taken is admitted: more may be met meanwhile, and of what it
returns something holds by then. -/
def Census.Pictures (W : Census) (seen : List Value) (act : Taking α)
    (post : Census → List Value → α → Prop) : Prop :=
  W.Admits false (act seen) fun W' p => seen <:+ p.2 ∧ post W' p.2 p.1

/-- Whatever is met later, the pictures are sound. -/
def Census.Depicts (W : Census) (seen : List Value) (ps : List Snapshot) : Prop :=
  ∀ F, seen <:+ F → Sound W (isNonNullAt F) ps

/-- A picture of a datum shows a non-null type only if the datum is one. -/
structure Value.Pictured (v : Value) (W : Census) (seen : List Value) (p : Snapshot) : Prop where
  depicts : W.Depicts seen p.nodes
  nonNull {F : List Value} : seen <:+ F → p.shows (isNonNullAt F) = true → v.isNonNull = true

namespace Census

theorem Depicts.mono {ps : List Snapshot} (h : W.Depicts seen ps) (more : W.Extends false W')
    (later : seen <:+ seen') : W'.Depicts seen' ps :=
  fun F final => (h F (later.trans final)).mono more

namespace Pictures

variable {act : Taking α} {post : Census → List Value → α → Prop}
  {next : Census → List Value → β → Prop}

theorem pure {a : α} (h : post W seen a) : W.Pictures seen (Pure.pure a) post :=
  Admits.pure ⟨List.suffix_rfl, h⟩

theorem bind {f : α → Taking β} (first : W.Pictures seen act post)
    (rest : ∀ W' seen' a, W.Extends false W' → seen <:+ seen' → post W' seen' a →
      W'.Pictures seen' (f a) next) : W.Pictures seen (act >>= f) next :=
  Admits.bind first fun W' more p hp =>
    (rest W' p.2 p.1 more hp.1 hp.2).imp fun _ _ _ hq => ⟨hp.1.trans hq.1, hq.2⟩

theorem lift {act : Action α} {post : Census → α → Prop} (h : W.Admits false act post) :
    W.Pictures seen (liftM act : Taking α) fun W' seen' a => seen' = seen ∧ post W' a :=
  h.bind fun _ _ _ ha => Admits.pure ⟨List.suffix_rfl, rfl, ha⟩

theorem bindSession {f : Session → Taking β} (rest : ∀ s, s.Fits W → W.Pictures seen (f s) next) :
    W.Pictures seen (getThe Session >>= f) next := fun s fits => rest s fits s fits

/-- What was met so far is read. -/
theorem bindSeen {f : List Value → Taking β} (rest : W.Pictures seen (f seen) next) :
    W.Pictures seen (MonadState.get >>= f) next := rest

theorem ite {c : Prop} [Decidable c] {act' : Taking α} (first : W.Pictures seen act post)
    (second : W.Pictures seen act' post) :
    W.Pictures seen (if c then act else act') post := by
  split
  · exact first
  · exact second

theorem enter (v : Value) : W.Pictures seen (Snapshot.enter v) fun _ seen' k =>
    seen' = v :: seen ∧ k = seen.length := Admits.pure ⟨⟨[v], rfl⟩, rfl, rfl⟩

theorem leave (v : Value) : W.Pictures seen (Snapshot.leave v) fun _ seen' slot =>
    ∀ F, seen' <:+ F → slot.shows (isNonNullAt F) = true → v.isNonNull = true := by
  show W.Admits false (Pure.pure (slotOf v seen) : Action (Slot × List Value)) _
  refine Admits.pure ?_
  rw [slotOf]
  split
  · exact ⟨List.suffix_rfl, fun F later shown => isNonNull_of_met ‹_› later shown⟩
  · exact ⟨⟨[v], rfl⟩, fun F later shown => by cases shown⟩

section

variable {f next : Value → Taking Snapshot}
  (parts : ∀ {W : Census} {seen : List Value} {v : Value}, v.Belongs W →
    W.Pictures seen (f v) v.Pictured)

include parts

theorem takeAll {vs : List Value} (belong : W.Includes vs) :
    W.Pictures seen (vs.mapM f) fun W' seen' ps => W'.Depicts seen' (nodesAll ps) := by
  induction vs generalizing W seen with
  | nil => exact pure fun _ _ => sound_nil
  | cons v vs ih =>
    rw [List.mapM_cons]
    refine (parts (belong v List.mem_cons_self)).bind fun W₁ _ p m₁ _ hp => ?_
    refine (ih fun x hx => (belong x (List.mem_cons_of_mem v hx)).mono m₁).bind
      fun W₂ _ ps m₂ l₂ hps => pure fun F later => ?_
    exact sound_append.2 ⟨hp.depicts.mono m₂ l₂ F later, hps F later⟩

theorem takeEntries {es : List Entry} (belong : Entries W es) :
    W.Pictures seen (es.mapM fun e => do let key ← f e.key; return (key, ← f e.value))
      fun W' seen' ps => W'.Depicts seen' (nodesOfEntries ps) := by
  induction es generalizing W seen with
  | nil => exact pure fun _ _ => sound_nil
  | cons e es ih =>
    rw [List.mapM_cons]
    have first : W.Pictures seen (do let key ← f e.key; return (key, ← f e.value))
        fun W' seen' p => W'.Depicts seen' (p.1.nodes ++ p.2.nodes) := by
      have held := belong e List.mem_cons_self
      refine (parts held.1).bind fun W₁ _ p m₁ _ hp => ?_
      refine (parts (held.2.mono m₁)).bind fun W₂ _ q m₂ l₂ hq => pure fun F later => ?_
      exact sound_append.2 ⟨hp.depicts.mono m₂ l₂ F later, hq.depicts F later⟩
    refine first.bind fun W₁ _ p m₁ _ hp => ?_
    refine (ih fun x hx => ?_).bind fun W₂ _ ps m₂ l₂ hps => pure fun F later => ?_
    · exact Entries.mono (fun d hd => belong d (List.mem_cons_of_mem e hd)) m₁ x hx
    · exact sound_append.2 ⟨hp.mono m₂ l₂ F later, hps F later⟩

theorem takePart {o : Option Value} (belong : W.Includes o.toList) :
    W.Pictures seen (part f o) fun W' seen' o => W'.Depicts seen' (nodesOfPart o) := by
  cases o with
  | none => exact pure fun _ _ => sound_nil
  | some v => exact (parts (belong v (by simp))).bind fun _ _ _ _ _ hp => pure hp.depicts

theorem takeAttributes {as : Attributes} (belong : W.Includes as.contents) :
    W.Pictures seen (attributes f as)
      fun W' seen' ps => W'.Depicts seen' (nodesOfAttributes ps) := by
  unfold attributes
  induction as generalizing W seen with
  | nil => exact pure fun _ _ => sound_nil
  | cons a as ih =>
    rw [List.mapM_cons]
    have held : W.Includes (a.2 :: Attributes.contents as) := belong
    have first : W.Pictures seen (do return (a.1, ← f a.2))
        fun W' seen' (p : String × Snapshot) => W'.Depicts seen' p.2.nodes :=
      (parts (held a.2 List.mem_cons_self)).bind fun _ _ _ _ _ hp => pure hp.depicts
    refine first.bind fun W₁ _ p m₁ _ hp => ?_
    refine (ih fun x hx => (held x (List.mem_cons_of_mem _ hx)).mono m₁).bind
      fun W₂ _ ps m₂ l₂ hps => pure fun F later => ?_
    exact sound_append.2 ⟨hp.mono m₂ l₂ F later, hps F later⟩

/-- The four fields of a record or of a directive are pictured. -/
theorem takeFields (build : Slot → Snapshot → Snapshot → Snapshot → Snapshot → Snapshot)
    {name locations args description : Value}
    (nodes : ∀ slot p₁ p₂ p₃ p₄, (build slot p₁ p₂ p₃ p₄).nodes = build slot p₁ p₂ p₃ p₄ ::
      (p₁.nodes ++ p₂.nodes ++ p₃.nodes ++ p₄.nodes))
    (stands : ∀ W c slot p₁ p₂ p₃ p₄, (build slot p₁ p₂ p₃ p₄).Stands W c)
    (shows : ∀ c slot p₁ p₂ p₃ p₄, (build slot p₁ p₂ p₃ p₄).shows c = slot.shows c)
    (hn : name.Belongs W) (hl : locations.Belongs W) (ha : args.Belongs W)
    (hd : description.Belongs W) : W.Pictures seen (do
      let name ← f name
      let locations ← f locations
      let args ← f args
      let description ← f description
      return build (← Snapshot.leave v) name locations args description) v.Pictured := by
  refine (parts hn).bind fun _ _ p₁ m₁ _ h₁ => ?_
  refine (parts (hl.mono m₁)).bind fun _ _ p₂ m₂ l₂ h₂ => ?_
  refine (parts ((ha.mono m₁).mono m₂)).bind fun _ _ p₃ m₃ l₃ h₃ => ?_
  refine (parts (((hd.mono m₁).mono m₂).mono m₃)).bind fun _ _ p₄ m₄ l₄ h₄ => ?_
  refine (leave v).bind fun _ _ slot m₅ l₅ hs => pure ⟨fun F later => ?_, fun later shown => ?_⟩
  · have m₄ := m₄.trans m₅
    have l₄ := l₄.trans l₅
    have m₃ := m₃.trans m₄
    have l₃ := l₃.trans l₄
    rw [nodes]
    refine sound_cons.2 ⟨stands _ _ _ _ _ _ _, sound_append.2 ⟨sound_append.2 ⟨sound_append.2
      ⟨?_, ?_⟩, ?_⟩, ?_⟩⟩
    · exact h₁.depicts.mono (m₂.trans m₃) (l₂.trans l₃) F later
    · exact h₂.depicts.mono m₃ l₃ F later
    · exact h₃.depicts.mono m₄ l₄ F later
    · exact h₄.depicts.mono m₅ l₅ F later
  · rw [shows] at shown
    exact hs _ later shown

/-- What is wrapped is pictured. -/
theorem takeWrapped (types : ∀ {W : Census} {seen : List Value} {v : Value}, v.Belongs W →
      W.Pictures seen (next v) v.Pictured) (belongs : v.Belongs W) :
    W.Pictures seen (ofWrapped f next v) v.Pictured := ite (parts belongs) (types belongs)

/-- An object that was not met before is pictured. -/
theorem takeObject (types : ∀ {W : Census} {seen : List Value} {v : Value}, v.Belongs W →
      W.Pictures seen (next v) v.Pictured) (belongs : v.Belongs W) :
    W.Pictures seen (ofObject Deferred.supplier f next v) v.Pictured := by
  have made {W : Census} {seen : List Value} {p : Snapshot} {ps : List Snapshot}
      (nodes : p.nodes = p :: ps) (stands : ∀ c, p.Stands W c) (other : ∀ c, p.shows c = false)
      (h : W.Depicts seen ps) : v.Pictured W seen p :=
    ⟨fun F later => nodes ▸ sound_cons.2 ⟨stands _, h F later⟩,
      fun _ shown => by rw [other] at shown; cases shown⟩
  have leaf {W : Census} {seen : List Value} {p : Snapshot} (single : p.nodes = [p])
      (stands : ∀ c, p.Stands W c) (other : ∀ c, p.shows c = false) : v.Pictured W seen p :=
    made single stands other fun _ _ => sound_nil
  have atom (other : v.isNonNull = false) : v.Pictured W seen (.atom v) :=
    leaf rfl (fun _ => ⟨belongs, other⟩) fun _ => rfl
  unfold ofObject
  split
  · exact pure (leaf rfl (fun _ => trivial) fun _ => rfl)
  · exact (enter _).bind fun _ _ _ _ _ _ => pure (leaf rfl (fun _ => trivial) fun _ => rfl)
  · split
    · exact pure (atom rfl)
    · refine (takeAll parts (Value.belongs_tuple.1 belongs)).bind fun _ _ ps m₁ l₁ hps => ?_
      refine (leave _).bind fun _ _ slot m₂ l₂ hs => pure
        ⟨fun F later => ?_, fun later => hs _ later⟩
      exact sound_cons.2 ⟨trivial, hps.mono m₂ l₂ F later⟩
  · obtain ⟨hn, hl, ha, hd⟩ := Value.belongs_config.1 belongs
    exact takeFields parts .config (fun _ _ _ _ _ => rfl) (fun _ _ _ _ _ _ _ => trivial)
      (fun _ _ _ _ _ _ => rfl) hn hl ha hd
  · refine (enter _).bind fun _ _ k _ _ _ => bindSession fun s fits => ?_
    refine (takeAll parts (fits.list _)).bind fun _ _ ps _ _ hps => pure ?_
    exact made rfl (fun _ => trivial) (fun _ => rfl) hps
  · refine (enter _).bind fun _ _ k _ _ _ => bindSession fun s fits => ?_
    rw [show (fun m : Member => f m.value) = f ∘ Member.value from rfl, ← List.mapM_map]
    refine (takeAll parts fun x hx => ?_).bind fun _ _ ps _ _ hps => pure ?_
    · obtain ⟨m, hm, rfl⟩ := List.mem_map.1 hx
      exact fits.set _ m hm
    · exact made rfl (fun _ => trivial) (fun _ => rfl) hps
  · refine (enter _).bind fun _ _ k _ _ _ => bindSession fun s fits => ?_
    refine (takeEntries parts (fits.dict _)).bind fun _ _ ps _ _ hps => pure ?_
    exact made rfl (fun _ => trivial) (fun _ => rfl) hps
  · refine (enter _).bind fun _ _ k _ _ _ => bindSession fun s fits => ?_
    obtain ⟨hn, hx⟩ := NamedType.includes_contents.1 (fits.namedType ‹_›)
    refine (takePart parts hn).bind fun _ _ name m₁ _ hname => ?_
    refine (takeAttributes parts (Includes.mono hx m₁)).bind fun _ _ extra m₂ l₂ hextra => pure ?_
    refine made rfl (fun _ => trivial) (fun _ => rfl) fun F later => ?_
    exact sound_append.2 ⟨hname.mono m₂ l₂ F later, hextra F later⟩
  · split
    · exact pure (atom rfl)
    · refine bindSession fun s fits => ?_
      obtain ⟨⟨⟨⟨hn, hd⟩, -⟩, hs⟩, hp⟩ := ScalarType.includes_holdings.1 (fits.scalar ‹_›)
      refine (lift (present hd)).bind fun _ _ d m₁ _ hd => ?_
      refine (parts ((belongs_typeName hn).mono m₁)).bind fun _ _ name m₂ _ hname => ?_
      refine (parts (hd.2.mono m₂)).bind fun _ _ description m₃ l₃ hdescription => ?_
      refine (leave _).bind fun _ _ slot m₄ l₄ left => pure
        ⟨fun F later => ?_, fun later => left _ later⟩
      refine sound_cons.2 ⟨?_, sound_append.2 ⟨?_, ?_⟩⟩
      · exact Includes.mono (includes_append.2 ⟨hs, hp⟩) (m₁.trans (m₂.trans (m₃.trans m₄)))
      · exact hname.depicts.mono (m₃.trans m₄) (l₃.trans l₄) F later
      · exact hdescription.depicts.mono m₄ l₄ F later
  · rename_i w r
    refine (lift (wrapped w r)).bind fun _ _ _ m₁ _ _ => ?_
    refine (lift (recorded (belongs.mono m₁))).bind fun _ _ t m₂ _ ht => ?_
    refine (enter _).bind fun _ _ k m₃ l₃ hk => ?_
    refine (takeWrapped parts types (ht.2.1.mono m₃)).bind
      fun _ _ type m₄ l₄ htype => pure ⟨fun F later => ?_, ?_⟩
    · refine sound_cons.2 ⟨fun class_ => ⟨?_, fun shown => ?_⟩, htype.depicts F later⟩
      · obtain ⟨rfl, rfl⟩ := hk
        rw [isNonNullAt, reverse_of_suffix (l₄.trans later) (reverse_cons_length _ _), class_]
        rfl
      · exact (m₃.trans m₄).nonempty (ht.2.2 class_ (htype.nonNull later shown))
    · intro F later shown
      rw [beq_iff_eq.1 shown]
      rfl
  · rename_i q
    refine (lift (type q)).bind fun _ _ t m₁ _ ht => bindSession fun s fits => ?_
    obtain ⟨⟨hn, hd, hh, hv⟩, -, -, hx⟩ := Argument.includes_contents.1 (fits.argument q)
    refine (enter _).bind fun _ _ k m₂ _ _ => ?_
    refine (takePart parts (Includes.mono hn m₂)).bind fun _ _ p₃ m₃ _ h₃ => ?_
    have m₃' := m₂.trans m₃
    refine (takePart parts (Includes.mono hd m₃')).bind fun _ _ p₄ m₄ l₄ h₄ => ?_
    have m₄' := m₃'.trans m₄
    refine (takePart parts (Includes.mono hh m₄')).bind fun _ _ p₅ m₅ l₅ h₅ => ?_
    have m₅' := m₄'.trans m₅
    refine (takePart parts (Includes.mono hv m₅')).bind fun _ _ p₆ m₆ l₆ h₆ => ?_
    have m₆' := m₅'.trans m₆
    refine (types (ht.2.mono m₆')).bind fun _ _ p₇ m₇ l₇ h₇ => ?_
    refine (takeAttributes parts (Includes.mono hx (m₆'.trans m₇))).bind
      fun _ _ p₈ m₈ l₈ h₈ => pure ?_
    refine made rfl (fun _ => trivial) (fun _ => rfl) fun F later => ?_
    have m₇ := m₇.trans m₈
    have l₇ := l₇.trans l₈
    have m₆ := m₆.trans m₇
    have l₆ := l₆.trans l₇
    have m₅ := m₅.trans m₆
    have l₅ := l₅.trans l₆
    refine sound_append.2 ⟨sound_append.2 ⟨sound_append.2 ⟨sound_append.2 ⟨sound_append.2
      ⟨?_, ?_⟩, ?_⟩, ?_⟩, ?_⟩, h₈ F later⟩
    · exact h₃.mono (m₄.trans m₅) (l₄.trans l₅) F later
    · exact h₄.mono m₅ l₅ F later
    · exact h₅.mono m₆ l₆ F later
    · exact h₆.mono m₇ l₇ F later
    · exact h₇.depicts.mono m₈ l₈ F later
  · refine bindSession fun s fits => ?_
    obtain ⟨hn, hd, hl, ha⟩ := directive fits (r := ‹_›) rfl
    exact takeFields parts .directive (fun _ _ _ _ _ => rfl)
      (fun _ _ _ _ _ _ _ => trivial) (fun _ _ _ _ _ _ => rfl) hn hl ha hd
  · exact Admits.throw _
  · exact pure (atom (by cases v <;> first | rfl | simp_all))

end

theorem takeRound {next : Value → Taking Snapshot}
    (types : ∀ {W : Census} {seen : List Value} {v : Value}, v.Belongs W →
      W.Pictures seen (next v) v.Pictured) (n : Nat) {W : Census} {seen : List Value} {v : Value}
    (belongs : v.Belongs W) :
    W.Pictures seen (Snapshot.takeRound Deferred.supplier next n v) v.Pictured := by
  induction n generalizing W seen v with
  | zero => exact Admits.throw _
  | succ n ih =>
    refine bindSeen ?_
    split
    · rename_i met
      exact pure ⟨fun F _ => sound_cons.2 ⟨trivial, sound_nil⟩, isNonNull_of_met met⟩
    · exact takeObject (fun h => ih h) types belongs

theorem takeWithin (n : Nat) {W : Census} {seen : List Value} {v : Value}
    (belongs : v.Belongs W) :
    W.Pictures seen (Snapshot.takeWithin Deferred.supplier n v) v.Pictured := by
  induction n generalizing W seen v with
  | zero => exact Admits.throw _
  | succ n ih => exact boundedPairs fun m => takeRound (fun h => ih h) m belongs

end Pictures

theorem Admits.take (belongs : v.Belongs W) :
    W.Admits false (Snapshot.take Deferred.supplier v) fun W' p =>
      ∃ c, Sound W' c p.nodes ∧ (p.shows c = true → v.isNonNull = true) :=
  boundedPairs fun n => by
    have taken : W.Pictures [] (takeWithin Deferred.supplier n v) v.Pictured :=
      Pictures.takeWithin n belongs
    exact Admits.bind taken fun _ _ p hp => pure
      ⟨isNonNullAt p.2, hp.2.depicts p.2 List.suffix_rfl, hp.2.nonNull List.suffix_rfl⟩

/-! ### Restoring -/

/-- What was built under numbers belongs to the census, and is a non-null type only under a number
that shows one. -/
def Holds (c : Nat → Bool) (W : Census) (table : List (Nat × Value)) : Prop :=
  ∀ e ∈ table, e.2.Belongs W ∧ (e.2.isNonNull = true → c e.1 = true)

theorem Holds.lasts : Lasts (Holds c) := fun _ _ _ more h e he => ⟨(h e he).1.mono more, (h e he).2⟩

theorem Holds.cons {table : List (Nat × Value)} (h : Holds c W table) (belongs : x.Belongs W)
    (shown : x.isNonNull = true → c k = true) : Holds c W ((k, x) :: table) := by
  intro e he
  rcases List.mem_cons.1 he with rfl | he
  · exact ⟨belongs, shown⟩
  · exact h e he

/-- What a picture is restored to. -/
structure Restores (c : Nat → Bool) (p : Snapshot) (W : Census) (x : Value) : Prop where
  belongs : x.Belongs W
  nonNull : x.isNonNull = true → p.shows c = true

theorem Restores.of_other {p : Snapshot} (belongs : x.Belongs W) (other : x.isNonNull = false) :
    Restores c p W x := ⟨belongs, fun nonNull => by rw [other] at nonNull; cases nonNull⟩

namespace Carries

theorem built (k : Nat) : W.Carries (Holds c) (Snapshot.built k) fun W' x =>
    x.Belongs W' ∧ (x.isNonNull = true → c k = true) := by
  refine bindCarried fun table holds => pure ?_
  cases found : table.lookup k with
  | none => exact ⟨Value.belongs_of_leaf rfl rfl, fun nonNull => by cases nonNull⟩
  | some x =>
    obtain ⟨l₁, l₂, split, -⟩ := List.lookup_eq_some_iff.1 found
    exact holds (k, x) (by rw [split]; simp)

theorem settle (belongs : x.Belongs W) (shown : x.isNonNull = true → c k = true) :
    W.Carries (Holds c) (Snapshot.settle k x) fun _ y => y = x :=
  fun _ holds => Admits.pure ⟨holds.cons belongs shown, rfl⟩

theorem place (slot : Slot) (belongs : x.Belongs W) (other : x.isNonNull = false) :
    W.Carries (Holds c) (Snapshot.place slot x) fun W' y =>
      y.Belongs W' ∧ (y.isNonNull = true → slot.shows c = true) := by
  cases slot with
  | new k =>
    refine (settle belongs fun nonNull => ?_).imp fun W' more y same => ⟨?_, fun nonNull => ?_⟩
    · rw [other] at nonNull
      cases nonNull
    · exact same ▸ belongs.mono more
    · rw [same, other] at nonNull
      cases nonNull
  | old k => exact built k

/-- An object that is no wrapper is filled after it was numbered. -/
theorem fill (post : Census → β → Prop) {kind : CellKind} {new : Action (Ref kind)}
    {value : Ref kind → Value} {put : Session → Ref kind → β → Session} {build : Restoring β}
    (made : W.Admits false new fun W' r => (value r).Belongs W')
    (other : ∀ r, (value r).isNonNull = false)
    (filled : ∀ W' s r d, post W' d → s.Fits W' → (put s r d).Fits W')
    (inner : ∀ W', W.Extends false W' → W'.Carries (Holds c) build post) :
    W.Carries (Holds c) (Snapshot.fill k new value put build) (Restores c p) := by
  refine (lift Holds.lasts made).bind fun _ m₁ r hr => ?_
  have hidden (nonNull : (value r).isNonNull = true) : c k = true := by
    rw [other] at nonNull
    cases nonNull
  refine (settle hr hidden).bind fun _ m₂ v same => ?_
  refine (inner _ (m₁.trans m₂)).bind fun _ m₃ d hd => ?_
  refine (change fun s fits => filled _ s r d hd fits).bind fun _ m₄ _ _ => pure ?_
  subst same
  exact .of_other (((hr.mono m₂).mono m₃).mono m₄) (other r)

theorem fillList {build : Restoring (List Value)}
    (inner : ∀ W', W.Extends false W' → W'.Carries (Holds c) build Includes) :
    W.Carries (Holds c) (Snapshot.fill k (Action.newList []) .list Session.putList build)
      (Restores c p) :=
  fill Includes (newList fun _ hx => absurd hx List.not_mem_nil) (fun _ => rfl)
    (fun _ _ r _ hd fits => fits.putList r hd) inner

theorem fillSet {build : Restoring (List Member)}
    (inner : ∀ W', W.Extends false W' → W'.Carries (Holds c) build Members) :
    W.Carries (Holds c) (Snapshot.fill k (Action.newSet []) .set Session.putSet build)
      (Restores c p) :=
  fill Members (newSet fun _ hx => absurd hx List.not_mem_nil) (fun _ => rfl)
    (fun _ _ r _ hd fits => fits.putSet r hd) inner

theorem fillDict {build : Restoring (List Entry)}
    (inner : ∀ W', W.Extends false W' → W'.Carries (Holds c) build Entries) :
    W.Carries (Holds c) (Snapshot.fill k (Action.newDict []) .dict Session.putDict build)
      (Restores c p) :=
  fill Entries (newDict fun _ hx => absurd hx List.not_mem_nil) (fun _ => rfl)
    (fun _ _ r _ hd fits => fits.putDict r hd) inner

theorem fillNamed {build : Restoring NamedType}
    (inner : ∀ W', W.Extends false W' →
      W'.Carries (Holds c) build fun W'' d => W''.Includes d.contents) :
    W.Carries (Holds c)
      (Snapshot.fill k (Action.newNamedType .blank) .named Session.putNamedType build)
      (Restores c p) :=
  fill _ (newNamedType fun _ hx => absurd hx List.not_mem_nil) (fun _ => rfl)
    (fun _ _ r _ hd fits => fits.putNamedType r hd) inner

theorem fillArgument {build : Restoring Argument}
    (inner : ∀ W', W.Extends false W' →
      W'.Carries (Holds c) build fun W'' d => W''.Includes d.contents) :
    W.Carries (Holds c)
      (Snapshot.fill k (Action.newArgument .blank) .argument Session.putArgument build)
      (Restores c p) :=
  fill _ newArgument_blank (fun _ => rfl) (fun _ _ r _ hd fits => fits.putArgument r hd) inner

/-- An object is made of its parts. -/
theorem make {parts : Type} {slot : Slot} {build : Restoring parts}
    {construct : parts → Action Value} {post : Census → parts → Prop} (inner : W.Carries (Holds c) build post)
    (made : ∀ W' d, post W' d →
      W'.Admits false (construct d) fun W'' x => x.Belongs W'' ∧ x.isNonNull = false) :
    W.Carries (Holds c) (Snapshot.make slot build construct) fun W' y =>
      y.Belongs W' ∧ (y.isNonNull = true → slot.shows c = true) :=
  inner.bind fun _ _ d hd => (lift Holds.lasts (made _ d hd)).bind fun _ _ _ hx =>
    place slot hx.1 hx.2

/-- The picture of a part is restored whenever it is sound. -/
abbrev Rebuilds (c : Nat → Bool) (p : Snapshot) : Prop :=
  ∀ W, Sound W c p.nodes →
    W.Carries (Holds c) (Snapshot.restoreWith Deferred.supplier p) (Restores c p)

theorem fields {name locations args description : Snapshot} (first : Rebuilds c name)
    (second : Rebuilds c locations) (third : Rebuilds c args) (fourth : Rebuilds c description)
    (sound : Sound W c (name.nodes ++ locations.nodes ++ args.nodes ++ description.nodes)) :
    W.Carries (Holds c) (Snapshot.fields (Snapshot.restoreWith Deferred.supplier name)
      (Snapshot.restoreWith Deferred.supplier locations)
      (Snapshot.restoreWith Deferred.supplier args)
      (Snapshot.restoreWith Deferred.supplier description)) fun W' f =>
      f.name.Belongs W' ∧ f.locations.Belongs W' ∧ f.args.Belongs W' ∧
        f.description.Belongs W' := by
  obtain ⟨h, hd⟩ := sound_append.1 sound
  obtain ⟨h, ha⟩ := sound_append.1 h
  obtain ⟨hn, hl⟩ := sound_append.1 h
  refine (first W hn).bind fun _ m₁ _ h₁ => (second _ (hl.mono m₁)).bind fun _ m₂ _ h₂ => ?_
  refine (third _ (ha.mono (m₁.trans m₂))).bind fun _ m₃ _ h₃ => ?_
  refine (fourth _ (hd.mono ((m₁.trans m₂).trans m₃))).bind fun _ m₄ _ h₄ => pure ?_
  exact ⟨h₁.belongs.mono (m₂.trans (m₃.trans m₄)), h₂.belongs.mono (m₃.trans m₄),
    h₃.belongs.mono m₄, h₄.belongs⟩

mutual

/-- What is restored belongs to the census, and shows what its picture shows. -/
theorem restoreWith (p : Snapshot) : Rebuilds c p := by
  intro W sound
  cases p with
  | atom v =>
    obtain ⟨belongs, other⟩ := (sound_cons.1 sound).1
    exact pure ⟨belongs, fun nonNull => by rw [other] at nonNull; cases nonNull⟩
  | nan =>
    exact (lift Holds.lasts freshTag).bind fun _ _ _ _ =>
      pure ⟨Value.belongs_of_leaf rfl rfl, fun nonNull => by cases nonNull⟩
  | seen k => exact (built k).imp fun _ _ _ h => ⟨h.1, h.2⟩
  | foreign k text =>
    refine (lift Holds.lasts freshTag).bind fun _ _ tag _ => ?_
    have leaf {W : Census} : (Value.foreign tag text).Belongs W := Value.belongs_of_leaf rfl rfl
    refine (settle leaf fun nonNull => by cases nonNull).imp fun _ _ _ same => ?_
    exact same ▸ ⟨leaf, fun nonNull => by cases nonNull⟩
  | tuple slot items =>
    refine (make (restoreAll items (sound_cons.1 sound).2) fun W' vs hvs => ?_).imp
      fun _ _ _ h => ⟨h.1, h.2⟩
    exact (newRow hvs).bind fun _ _ _ hr => Admits.pure ⟨hr, rfl⟩
  | config slot name locations args description =>
    refine (make (fields (restoreWith name) (restoreWith locations) (restoreWith args)
      (restoreWith description) (sound_cons.1 sound).2) fun W' f hf => ?_).imp
        fun _ _ _ h => ⟨h.1, h.2⟩
    refine freshTag.bind fun _ m _ _ => Admits.pure ⟨Value.belongs_config.2 ?_, rfl⟩
    exact ⟨hf.1.mono m, hf.2.1.mono m, hf.2.2.1.mono m, hf.2.2.2.mono m⟩
  | list k items => exact fillList fun _ more => restoreAll items ((sound_cons.1 sound).2.mono more)
  | set k items =>
    exact fillSet fun _ more => (restoreAll items ((sound_cons.1 sound).2.mono more)).bind
      fun _ _ _ hvs => lift Holds.lasts (answers.distinct [] hvs).weaken
  | dict k entries =>
    exact fillDict fun _ more => (restoreEntries entries ((sound_cons.1 sound).2.mono more)).bind
      fun _ _ _ hps => lift Holds.lasts (answers.dictionary [] hps).weaken
  | named k name extra =>
    obtain ⟨hn, hx⟩ := sound_append.1 (sound_cons.1 sound).2
    refine fillNamed fun _ more => (restorePart name (hn.mono more)).bind fun _ m₁ _ h₁ => ?_
    refine (restoreAttributes extra ((hx.mono more).mono m₁)).bind fun _ m₂ _ h₂ => pure ?_
    exact NamedType.includes_contents.2 ⟨Includes.mono h₁ m₂, h₂⟩
  | scalar slot name description serialize parse =>
    obtain ⟨hc, hp⟩ := sound_cons.1 sound
    obtain ⟨hn, hd⟩ := sound_append.1 hp
    have parts : W.Carries (Holds c) (do
        return (← Snapshot.restoreWith Deferred.supplier name,
          ← Snapshot.restoreWith Deferred.supplier description)) fun W' (q : Value × Value) =>
          q.1.Belongs W' ∧ q.2.Belongs W' ∧ W'.Includes (serialize.contents ++ parse.contents) := by
      refine (restoreWith name W hn).bind fun _ m₁ _ h₁ => ?_
      refine (restoreWith description _ (hd.mono m₁)).bind fun _ m₂ _ h₂ => pure ?_
      exact ⟨h₁.belongs.mono m₂, h₂.belongs, Includes.mono hc (m₁.trans m₂)⟩
    refine (make parts fun W' q hq => ?_).imp fun _ _ _ h => ⟨h.1, h.2⟩
    obtain ⟨h₁, h₂, h₃⟩ := hq
    obtain ⟨hs, hp⟩ := includes_append.1 h₃
    exact (newScalar (ScalarType.includes_holdings.2 ⟨⟨⟨⟨includes_some.2 h₁, includes_some.2 h₂⟩,
      W'.includes_nil⟩, hs⟩, hp⟩)).bind fun _ _ _ hr => Admits.pure ⟨hr, rfl⟩
  | wrapper k w type =>
    obtain ⟨hw, ht⟩ := sound_cons.1 sound
    refine (fillWrapper (fun x table => (k, x) :: table) Holds.lasts
      (Session.KeepsTypes.lasting.bindWith (Session.KeepsTypes.custody.furnishing.restoreWith
        Session.KeepsTypes.custody.toBuilding type) fun _ => Session.KeepsTypes.lasting.pureWith _)
      (fun {W' r table} belongs holds => holds.cons belongs fun nonNull => ?_)
      fun W' m => ?_).imp fun W' _ x h => ?_
    · have class_ : w = .nonNull := by cases w <;> first | rfl | cases nonNull
      exact (hw class_).1
    · refine (restoreWith type _ (ht.mono m)).bind fun W'' m' t ht' => pure ⟨fun y hy => ?_, ?_, ?_⟩
      · exact Types.includes_known ht'.belongs y hy
      · rintro class_ t' ⟨⟩ nonNull
        exact (m.trans m').nonempty ((hw class_).2 (ht'.nonNull nonNull))
      · exact fun u hu => Types.mayResolve_known hu
    · obtain ⟨belongs, r, rfl⟩ := h
      refine ⟨belongs, fun nonNull => ?_⟩
      cases w <;> first | rfl | cases nonNull
  | argument k name description hasDefault default type extra =>
    obtain ⟨h, hx⟩ := sound_append.1 (sound_cons.1 sound).2
    obtain ⟨h, ht⟩ := sound_append.1 h
    obtain ⟨h, hv⟩ := sound_append.1 h
    obtain ⟨h, hh⟩ := sound_append.1 h
    obtain ⟨hn, hd⟩ := sound_append.1 h
    refine fillArgument fun _ m₀ => ?_
    refine (restorePart name (hn.mono m₀)).bind fun _ m₁ _ h₁ => ?_
    have m₁' := m₀.trans m₁
    refine (restorePart description (hd.mono m₁')).bind fun _ m₂ _ h₂ => ?_
    have m₂' := m₁'.trans m₂
    refine (restorePart hasDefault (hh.mono m₂')).bind fun _ m₃ _ h₃ => ?_
    have m₃' := m₂'.trans m₃
    refine (restorePart default (hv.mono m₃')).bind fun _ m₄ _ h₄ => ?_
    have m₄' := m₃'.trans m₄
    refine (restoreWith type _ (ht.mono m₄')).bind fun _ m₅ t h₅ => ?_
    refine (restoreAttributes extra (hx.mono (m₄'.trans m₅))).bind fun _ m₆ _ h₆ => pure ?_
    have m₄ := m₄.trans (m₅.trans m₆)
    have m₃ := m₃.trans m₄
    have h₅ := h₅.belongs.mono m₆
    exact Argument.includes_contents.2 ⟨⟨Includes.mono h₁ (m₂.trans m₃), Includes.mono h₂ m₃,
      Includes.mono h₃ m₄, Includes.mono h₄ (m₅.trans m₆)⟩, h₅, Types.includes_kept h₅, h₆⟩
  | directive slot name locations args description =>
    refine (make (fields (restoreWith name) (restoreWith locations) (restoreWith args)
      (restoreWith description) (sound_cons.1 sound).2) fun W' f hf => ?_).imp
        fun _ _ _ h => ⟨h.1, h.2⟩
    exact (answers.create [] hf.1 hf.2.1 hf.2.2.1 hf.2.2.2).weaken.bind fun _ _ _ hr =>
      Admits.pure ⟨hr, rfl⟩

theorem restoreAll (ps : List Snapshot) {W : Census} (sound : Sound W c (nodesAll ps)) :
    W.Carries (Holds c) (Snapshot.restoreAll Deferred.supplier ps) fun W' vs => W'.Includes vs := by
  cases ps with
  | nil => exact pure fun _ hx => absurd hx List.not_mem_nil
  | cons p ps =>
    obtain ⟨hp, hps⟩ := sound_append.1 sound
    refine (restoreWith p _ hp).bind fun _ m₁ v hv => ?_
    refine (restoreAll ps (hps.mono m₁)).bind fun _ m₂ vs hvs => pure ?_
    exact List.forall_mem_cons.2 ⟨hv.belongs.mono m₂, hvs⟩

theorem restoreEntries (ps : List (Snapshot × Snapshot)) {W : Census}
    (sound : Sound W c (nodesOfEntries ps)) :
    W.Carries (Holds c) (Snapshot.restoreEntries Deferred.supplier ps) fun W' ps =>
      ∀ p ∈ ps, p.1.Belongs W' ∧ p.2.Belongs W' := by
  cases ps with
  | nil => exact pure fun _ hx => absurd hx List.not_mem_nil
  | cons p ps =>
    obtain ⟨k, v⟩ := p
    obtain ⟨h, hps⟩ := sound_append.1 sound
    obtain ⟨hk, hv⟩ := sound_append.1 h
    refine (restoreWith k _ hk).bind fun _ m₁ x hx => ?_
    refine (restoreWith v _ (hv.mono m₁)).bind fun _ m₂ y hy => ?_
    refine (restoreEntries ps ((hps.mono m₁).mono m₂)).bind fun _ m₃ vs hvs => pure ?_
    exact List.forall_mem_cons.2 ⟨⟨hx.belongs.mono (m₂.trans m₃), hy.belongs.mono m₃⟩, hvs⟩

theorem restorePart (o : Option Snapshot) {W : Census} (sound : Sound W c (nodesOfPart o)) :
    W.Carries (Holds c) (Snapshot.restorePart Deferred.supplier o) fun W' o =>
      W'.Includes o.toList := by
  cases o with
  | none => exact pure fun _ hx => absurd hx List.not_mem_nil
  | some p =>
    refine (restoreWith p _ sound).bind fun _ _ x hx => pure fun y hy => ?_
    cases List.mem_singleton.1 hy
    exact hx.belongs

theorem restoreAttributes (ps : List (String × Snapshot)) {W : Census}
    (sound : Sound W c (nodesOfAttributes ps)) :
    W.Carries (Holds c) (Snapshot.restoreAttributes Deferred.supplier ps) fun W' as =>
      W'.Includes as.contents := by
  cases ps with
  | nil => exact pure fun _ hx => absurd hx List.not_mem_nil
  | cons p ps =>
    obtain ⟨key, p⟩ := p
    obtain ⟨hp, hps⟩ := sound_append.1 sound
    refine (restoreWith p _ hp).bind fun _ m₁ x hx => ?_
    refine (restoreAttributes ps (hps.mono m₁)).bind fun _ m₂ vs hvs => pure ?_
    exact List.forall_mem_cons.2 ⟨hx.belongs.mono m₂, hvs⟩

end

end Carries

namespace Admits

/-- A picture that is restored, starting with nothing built, shows what it shows. -/
theorem restore (sound : Sound W c p.nodes) :
    W.Admits false (Snapshot.restore Deferred.supplier p) (Restores c p) :=
  (Carries.restoreWith p W sound [] fun _ he => absurd he List.not_mem_nil).bind
    fun _ _ _ hx => pure hx.2

theorem storedCopy (belongs : v.Belongs W) :
    W.Admits false (Snapshot.copy Deferred.supplier v) fun W' x => v.Transcribes W' x :=
  (take belongs).bind fun _ _ _ ⟨_, sound, shown⟩ => (restore sound).imp fun _ _ _ h =>
    ⟨h.belongs, fun nonNull => shown (h.nonNull nonNull)⟩

theorem copy (mode : CopyMode) (belongs : v.Belongs W) :
    W.Admits false (v.copy Deferred.supplier mode) fun W' x => v.Transcribes W' x := by
  cases mode with
  | shallow => exact shallowCopy belongs
  | deep => exact deepCopy belongs
  | stored => exact storedCopy belongs

end Admits

end Census

end DirectiveSchema
