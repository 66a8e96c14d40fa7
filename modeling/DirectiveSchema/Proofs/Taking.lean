import DirectiveSchema.Proofs.Copying
import DirectiveSchema.Proofs.Pictures
import DirectiveSchema.Proofs.Settled

/-!
Taking pictures. Whatever is pictured is resolved first, and stays resolved. A picture is read in
any session that extends the one in which it was taken, so that what is resolved for a later part
does not invalidate the picture of an earlier one.
-/
namespace DirectiveSchema.Snapshot

variable {s s' u : Session} {v x : Value} {n : Nat} {seen seen' : List Value}
variable {α β : Type} {G : Grade} {supply : Supplier} {f next : Value → Taking Snapshot} {k N : Nat}

/-! ### Taking pictures step by step -/

/-- An action that takes a part of a picture: it returns after some observation, what it met is
settled, and of the result something holds in every session that extends the one it left. -/
def Takes (s : Session) (seen : List Value) (act : Taking α)
    (post : Session → List Value → α → Prop) : Prop :=
  ∃ a seen' s', act seen s = .ok (a, seen') s' ∧ s.Leads s' ∧ seen ⊆ seen' ∧
    (∀ x ∈ seen', x ∈ seen ∨ s'.Settled seen' x) ∧ ∀ u, s'.Extends u → post u seen' a

namespace Takes

variable {act : Taking α} {rest : α → Taking β} {P R : Session → List Value → α → Prop}
  {Q : α → List Value → Session → List Value → β → Prop}

theorem pure (s : Session) (seen : List Value) (a : α) :
    Takes s seen (Pure.pure a) fun _ seen' b => seen' = seen ∧ b = a :=
  ⟨a, seen, s, rfl, .refl, List.Subset.refl seen, fun _ hx => .inl hx, fun _ _ => ⟨rfl, rfl⟩⟩

theorem imp (h : Takes s seen act P)
    (weaker : ∀ u seen' a, s.Extends u → seen ⊆ seen' → P u seen' a → R u seen' a) :
    Takes s seen act R := by
  obtain ⟨a, seen', s', run, later, more, settled, post⟩ := h
  refine ⟨a, seen', s', run, later, more, settled, fun u extension => ?_⟩
  exact weaker u seen' a (later.extends.trans extension) more (post u extension)

/-- Parts are pictured one after the other. What was met first stays settled. -/
theorem bind (first : Takes s seen act P)
    (next : ∀ s' seen' a, s.Leads s' → P s' seen' a → Takes s' seen' (rest a) (Q a seen')) :
    Takes s seen (act >>= rest) fun u seen'' b => ∃ seen' a, P u seen' a ∧ seen' ⊆ seen'' ∧
      Q a seen' u seen'' b := by
  obtain ⟨a, seen₁, s₁, run, later, more, settled, post⟩ := first
  obtain ⟨b, seen₂, s₂, run', later', more', settled', post'⟩ := next s₁ seen₁ a later
    (post s₁ (.refl s₁))
  refine ⟨b, seen₂, s₂, (Action.bindWith_of_ok run).trans run', later.trans later',
    List.Subset.trans more more', fun x hx => ?_, fun u extension => ?_⟩
  · rcases settled' x hx with old | new
    · exact (settled x old).imp_right fun h => h.extends later'.extends more'
    · exact .inr new
  · exact ⟨seen₁, a, post u (later'.extends.trans extension), more', post' u extension⟩

/-- What was pictured is used without another observation. -/
theorem follow {g : α → β} {S : Session → List Value → β → Prop} (first : Takes s seen act P)
    (next : ∀ u seen' a, s.Extends u → seen ⊆ seen' → P u seen' a → S u seen' (g a)) :
    Takes s seen (act >>= fun a => Pure.pure (g a)) S := by
  obtain ⟨a, seen', s', run, later, more, settled, post⟩ := first
  refine ⟨g a, seen', s', (Action.bindWith_of_ok run).trans rfl, later, more, settled,
    fun u extension => ?_⟩
  exact next u seen' a (later.extends.trans extension) more (post u extension)

end Takes

/-- What is said of the picture of a datum that is taken after some objects were met. -/
abbrev Depiction := Session → List Value → Value → Snapshot → List Value → Prop

/-- A picture of a datum; the datum was met if its type is resolved on demand. -/
def Pictured (D : Depiction) (v : Value) (seen : List Value) (u : Session) (seen' : List Value)
    (p : Snapshot) : Prop :=
  D u seen v p seen' ∧ (v.isTyped = true → v ∈ seen')

/-- In a session and in the later ones a datum is pictured. -/
def Pictures (D : Depiction) (s : Session) (f : Value → Taking Snapshot) (v : Value) : Prop :=
  ∀ s', s.Leads s' → ∀ seen, Takes s' seen (f v) (Pictured D v seen)

theorem Pictures.later {D : Depiction} (h : Pictures D s f v) (later : s.Leads s') :
    Pictures D s' f v := fun s'' more => h s'' (later.trans more)

variable {D : Depiction}

/-- Data that are pictured one after the other. -/
inductive Depiction.Each (D : Depiction) (u : Session) :
    List Value → List Value → List Snapshot → List Value → Prop where
  | nil {seen : List Value} : Each D u seen [] [] seen
  | cons {seen seen₁ seen₂ vs : List Value} {v : Value} {p : Snapshot} {ps : List Snapshot} :
      D u seen v p seen₁ → Each D u seen₁ vs ps seen₂ → Each D u seen (v :: vs) (p :: ps) seen₂

theorem depictsAll_of_each {vs : List Value} {ps : List Snapshot}
    (h : Depiction.Each (Depicts G supply) u seen vs ps seen') :
    DepictsAll G supply u seen vs ps seen' := by
  induction h with
  | nil => exact depictsAll_nil _
  | cons first _ ih => exact depictsAll_cons first ih

theorem takes_all {vs : List Value} (h : ∀ v ∈ vs, Pictures D s f v) (seen : List Value) :
    Takes s seen (vs.mapM f) fun u seen' ps =>
      D.Each u seen vs ps seen' ∧ ∀ v ∈ vs, v.isTyped = true → v ∈ seen' := by
  induction vs generalizing s seen with
  | nil =>
    refine (Takes.pure s seen []).imp ?_
    rintro u seen' ps - - ⟨rfl, rfl⟩
    exact ⟨.nil, fun _ hv => nomatch hv⟩
  | cons v vs ih =>
    rw [List.mapM_cons]
    refine ((h v List.mem_cons_self s .refl seen).bind fun s₁ seen₁ p later _ =>
      (ih (fun x hx => (h x (List.mem_cons_of_mem v hx)).later later) seen₁).follow
        (S := fun u seen₂ qs => ∃ ps, qs = p :: ps ∧ D.Each u seen₁ vs ps seen₂ ∧
          ∀ x ∈ vs, x.isTyped = true → x ∈ seen₂)
        fun u seen₂ ps _ _ post => ⟨ps, rfl, post⟩).imp ?_
    rintro u seen₂ qs - - ⟨seen₁, p, ⟨first, met⟩, more, ps, rfl, rest, mets⟩
    refine ⟨.cons first rest, fun x hx typed => ?_⟩
    rcases List.mem_cons.1 hx with rfl | hx
    · exact more (met typed)
    · exact mets x hx typed

theorem takes_entries {es : List Entry}
    (h : ∀ x ∈ es.flatMap Entry.contents, Pictures (Depicts G supply) s f x) (seen : List Value) :
    Takes s seen (es.mapM fun e => do let key ← f e.key; return (key, ← f e.value))
      fun u seen' ps => DepictsEntries G supply u seen es ps seen' := by
  induction es generalizing s seen with
  | nil =>
    refine (Takes.pure s seen []).imp ?_
    rintro u seen' ps - - ⟨rfl, rfl⟩
    exact depictsEntries_nil seen'
  | cons e es ih =>
    rw [List.mapM_cons]
    have key := h e.key (by simp [Entry.contents])
    have value := h e.value (by simp [Entry.contents])
    have head := (key s .refl seen).bind fun s₁ seen₁ p later _ =>
      (value s₁ later seen₁).follow (g := fun p' => (p, p'))
        (S := fun u seen₂ q => ∃ p', q = (p, p') ∧ Depicts G supply u seen₁ e.value p' seen₂)
        fun u seen₂ p' _ _ post => ⟨p', rfl, post.1⟩
    refine (head.bind fun s₁ seen₁ q later _ =>
      (ih (fun x hx => (h x (List.mem_append_right _ hx)).later later) seen₁).follow
        (S := fun u seen₂ qs => ∃ ps, qs = q :: ps ∧ DepictsEntries G supply u seen₁ es ps seen₂)
        fun u seen₂ ps _ _ post => ⟨ps, rfl, post⟩).imp ?_
    rintro u seen₃ qs - - ⟨seen₂, q, ⟨seen₁, p, first, -, p', rfl, second⟩, -, ps, rfl, rest⟩
    exact depictsEntries_cons first.1 second rest

theorem takes_part {v : Option Value} (h : ∀ x ∈ v.toList, Pictures (Depicts G supply) s f x)
    (seen : List Value) :
    Takes s seen (part f v) fun u seen' p => DepictsPart G supply u seen v p seen' := by
  cases v with
  | none =>
    refine (Takes.pure s seen none).imp ?_
    rintro u seen' p - - ⟨rfl, rfl⟩
    exact depictsPart_none seen'
  | some v =>
    exact (h v (by simp) s .refl seen).follow fun u seen' p _ _ post => depictsPart_some post.1

theorem takes_attributes {e : Attributes} (h : ∀ x ∈ e.contents, Pictures (Depicts G supply) s f x)
    (seen : List Value) :
    Takes s seen (attributes f e) fun u seen' ps =>
      DepictsAttributes G supply u seen e ps seen' := by
  rw [attributes]
  induction e generalizing s seen with
  | nil =>
    refine (Takes.pure s seen []).imp ?_
    rintro u seen' ps - - ⟨rfl, rfl⟩
    exact depictsAttributes_nil seen'
  | cons a as ih =>
    obtain ⟨key, v⟩ := a
    rw [List.mapM_cons]
    have head := (h v List.mem_cons_self s .refl seen).follow (g := fun p => (key, p))
      (S := fun u seen₁ q => ∃ p, q = (key, p) ∧ Depicts G supply u seen v p seen₁)
      fun u seen₁ p _ _ post => ⟨p, rfl, post.1⟩
    refine (head.bind fun s₁ seen₁ q later _ =>
      (ih (fun x hx => (h x (List.mem_cons_of_mem v hx)).later later) seen₁).follow
        (S := fun u seen₂ qs => ∃ ps, qs = q :: ps ∧ DepictsAttributes G supply u seen₁ as ps seen₂)
        fun u seen₂ ps _ _ post => ⟨ps, rfl, post⟩).imp ?_
    rintro u seen₂ qs - - ⟨seen₁, q, ⟨p, rfl, first⟩, -, ps, rfl, rest⟩
    exact depictsAttributes_cons first rest

/-! ### Objects -/

/-- What is read of the session while a picture is taken. -/
theorem Takes.read {g : Session → Taking α} {P : Session → List Value → α → Prop}
    (h : Takes s seen (g s) P) : Takes s seen (getThe Session >>= g) P := h

/-- An object that is met before its parts. -/
theorem Takes.enter {g : Nat → Taking α} {P : Session → List Value → α → Prop}
    (h : Takes s (v :: seen) (g seen.length) P)
    (settled : ∀ u seen' a, s.Extends u → P u seen' a → u.Settled seen' v) :
    Takes s seen (Snapshot.enter v >>= g) fun u seen' a => P u seen' a ∧ v ∈ seen' := by
  obtain ⟨a, seen', s', run, later, more, met, post⟩ := h
  refine ⟨a, seen', s', run, later, (List.cons_subset.1 more).2, fun x hx => ?_,
    fun u extension => ⟨post u extension, (List.cons_subset.1 more).1⟩⟩
  rcases met x hx with old | new
  · rcases List.mem_cons.1 old with rfl | old
    · exact .inr (settled s' seen' a later.extends (post s' (.refl s')))
    · exact .inl old
  · exact .inr new

/-- An object that is met after its parts. -/
theorem takes_leave (settled : s.Settled seen v) (g : Slot → α) :
    Takes s seen (leave v >>= fun slot => pure (g slot)) fun _ seen' a =>
      seen' = (slotOf v seen).2 ∧ a = g (slotOf v seen).1 := by
  refine ⟨g (slotOf v seen).1, (slotOf v seen).2, s, rfl, .refl, ?_, fun x hx => ?_,
    fun _ _ => ⟨rfl, rfl⟩⟩
  · rw [slotOf]
    split
    · exact List.Subset.refl seen
    · exact List.subset_cons_self v seen
  · rw [slotOf] at hx
    split at hx
    · exact .inl hx
    · rcases List.mem_cons.1 hx with rfl | hx
      · rw [slotOf, ‹number? _ seen = none›]
        exact .inr (settled.extends (.refl s) (List.subset_cons_self _ seen))
      · exact .inl hx

theorem eq_of_same_of_isTyped (same : x.same v = true) (typed : v.isTyped = true) : x = v := by
  cases v with
  | wrapper | argument =>
    cases x <;> first
      | cases same
      | simp_all only [Value.same, Bool.and_eq_true, beq_iff_eq]
  | _ => cases typed

theorem takeRound_of_new (new : number? v seen = none) :
    takeRound supply next (N + 1) v seen s =
      ofObject supply (takeRound supply next N) next v seen s := by
  have read : (MonadState.get : Taking (List Value)) seen s = .ok (seen, seen) s := rfl
  rw [takeRound, Action.bindWith_of_ok read, new]

theorem takeRound_of_met (met : number? v seen = some k) :
    takeRound supply next (N + 1) v seen s = .ok (.seen k, seen) s := by
  have read : (MonadState.get : Taking (List Value)) seen s = .ok (seen, seen) s := rfl
  rw [takeRound, Action.bindWith_of_ok read, met]
  rfl

/-- An object is pictured unless it was met before. -/
theorem takes_round {P : Session → List Value → Snapshot → Prop}
    (fresh : number? v seen = none →
      Takes s seen (ofObject supply (takeRound supply next N) next v) P)
    (met : ∀ {k u}, number? v seen = some k → P u seen (.seen k)) :
    Takes s seen (takeRound supply next (N + 1) v) P := by
  cases found : number? v seen with
  | none =>
    obtain ⟨a, seen', s', run, taken⟩ := fresh found
    exact ⟨a, seen', s', (takeRound_of_new found).trans run, taken⟩
  | some k =>
    exact ⟨.seen k, seen, s, takeRound_of_met found, .refl, List.Subset.refl seen,
      fun x hx => .inl hx, fun u _ => met found⟩

theorem exists_of_number? (h : number? v seen = some k) : ∃ x ∈ seen, x.same v = true := by
  obtain ⟨x, met, same⟩ := met_of_number? h
  exact ⟨x, List.mem_reverse.1 (List.mem_of_getElem? met), same⟩

theorem pictured_of_met (h : number? v seen = some k) :
    Pictured (Depicts G supply) v seen u seen (.seen k) := by
  refine ⟨depicts_seen h, fun typed => ?_⟩
  obtain ⟨x, met, same⟩ := exists_of_number? h
  exact eq_of_same_of_isTyped same typed ▸ met

theorem exists_of_slotOf (v : Value) (seen : List Value) :
    ∃ x ∈ (slotOf v seen).2, x.same v = true := by
  rw [slotOf]
  split
  · exact exists_of_number? ‹_›
  · exact ⟨v, List.mem_cons_self, v.same_refl⟩

/-- A tuple that has items is pictured after them. -/
theorem takes_items {tag : Nat} {items : List Value} (some : items ≠ [])
    (parts : ∀ x ∈ items, Pictures D s f x) :
    Takes s seen (ofObject supply f next (.tuple tag items)) fun u seen' p =>
      ∃ ps seen₁, D.Each u seen items ps seen₁ ∧ p = .tuple (slotOf (.tuple tag items) seen₁).1 ps ∧
        seen' = (slotOf (.tuple tag items) seen₁).2 := by
  cases items with
  | nil => exact absurd rfl some
  | cons x items =>
    have settled {s' : Session} {seen' : List Value}
        (met : ∀ y ∈ x :: items, y.isTyped = true → y ∈ seen') :
        s'.Settled seen' (.tuple tag (x :: items)) := ⟨fun h => (nomatch h), fun {y} => met y⟩
    refine ((takes_all parts seen).bind fun s₁ seen₁ ps _ post =>
      takes_leave (settled post.2) fun slot => Snapshot.tuple slot ps).imp ?_
    rintro u seen' p - - ⟨seen₁, ps, ⟨all, -⟩, -, rfl, rfl⟩
    exact ⟨ps, seen₁, all, rfl, rfl⟩

theorem takes_tuple {tag : Nat} {items : List Value} (new : number? (.tuple tag items) seen = none)
    (parts : ∀ x ∈ items, Pictures (Depicts G supply) s f x) :
    Takes s seen (ofObject supply f next (.tuple tag items)) fun u seen' p =>
      Depicts G supply u seen (.tuple tag items) p seen' ∧
        (items ≠ [] → ∃ x ∈ seen', x.same (.tuple tag items) = true) := by
  by_cases some : items = []
  · subst some
    refine (Takes.pure s seen (Snapshot.atom (.tuple tag []))).imp ?_
    rintro u seen' p - - ⟨rfl, rfl⟩
    exact ⟨depicts_self (firm_empty tag), fun some => absurd rfl some⟩
  · refine (takes_items some parts).imp ?_
    rintro u seen' p - - ⟨ps, seen₁, all, rfl, rfl⟩
    exact ⟨depicts_tuple new (depictsAll_of_each all), fun _ => exists_of_slotOf _ seen₁⟩

theorem takes_config {tag : Nat} {name locations args description : Value}
    (new : number? (.config tag name locations args description) seen = none)
    (parts : ∀ x ∈ [name, locations, args, description], Pictures (Depicts G supply) s f x) :
    Takes s seen (ofObject supply f next (.config tag name locations args description))
      fun u seen' p =>
        Depicts G supply u seen (.config tag name locations args description) p seen' := by
  have first := parts name (by simp)
  have second := parts locations (by simp)
  have third := parts args (by simp)
  have fourth := parts description (by simp)
  refine ((first s .refl seen).bind fun s₁ seen₁ a later _ =>
    (second s₁ later seen₁).bind fun s₂ seen₂ b later' _ =>
      (third s₂ (later.trans later') seen₂).bind fun s₃ seen₃ c later'' _ =>
        (fourth s₃ ((later.trans later').trans later'') seen₃).bind fun s₄ seen₄ d _ _ =>
          takes_leave (v := .config tag name locations args description)
            (.trivial rfl rfl) fun slot =>
            Snapshot.config slot a b c d).imp ?_
  rintro u seen' p - - ⟨seen₁, a, ha, -, seen₂, b, hb, -, seen₃, c, hc, -, seen₄, d, hd, -, rfl,
    rfl⟩
  exact depicts_config new ha.1 hb.1 hc.1 hd.1

theorem takes_list {r : Ref .list} {items : List Value}
    (body : s.body? (.list r) = some (.list items))
    (parts : ∀ x ∈ items, Pictures (Depicts G supply) s f x) :
    Takes s seen (ofObject supply f next (.list r)) fun u seen' p =>
      Depicts G supply u seen (.list r) p seen' := by
  have inner := (takes_all parts (.list r :: seen)).follow
    (g := fun ps => Snapshot.list seen.length ps)
    (S := fun u seen' p => Depicts G supply u seen (.list r) p seen')
    fun u seen' ps extension _ post =>
      depicts_list (extension.body_data body rfl) (depictsAll_of_each post.1)
  obtain ⟨_, ⟨⟩, -, rfl⟩ := Session.makes_of_body body
  exact (inner.read.enter fun u seen' p _ _ => .trivial rfl rfl).imp
    fun u seen' p _ _ post => post.1

theorem takes_set {r : Ref .set} {members : List Member}
    (body : s.body? (.set r) = some (.set members)) (sound : (Body.set members).Sound)
    (parts : ∀ x ∈ members.map Member.value, Pictures (Depicts G supply) s f x) :
    Takes s seen (ofObject supply f next (.set r)) fun u seen' p =>
      Depicts G supply u seen (.set r) p seen' := by
  have inner := (takes_all parts (.set r :: seen)).follow
    (g := fun ps => Snapshot.set seen.length ps)
    (S := fun u seen' p => Depicts G supply u seen (.set r) p seen')
    fun u seen' ps extension _ post =>
      depicts_set (extension.body_data body rfl) sound (depictsAll_of_each post.1)
  obtain ⟨_, ⟨⟩, -, rfl⟩ := Session.makes_of_body body
  rw [List.mapM_map] at inner
  exact (inner.read.enter fun u seen' p _ _ => .trivial rfl rfl).imp
    fun u seen' p _ _ post => post.1

theorem takes_dict {r : Ref .dict} {entries : List Entry}
    (body : s.body? (.dict r) = some (.dict entries)) (sound : (Body.dict entries).Sound)
    (parts : ∀ x ∈ entries.flatMap Entry.contents, Pictures (Depicts G supply) s f x) :
    Takes s seen (ofObject supply f next (.dict r)) fun u seen' p =>
      Depicts G supply u seen (.dict r) p seen' := by
  have inner := (takes_entries parts (.dict r :: seen)).follow
    (g := fun ps => Snapshot.dict seen.length ps)
    (S := fun u seen' p => Depicts G supply u seen (.dict r) p seen')
    fun u seen' ps extension _ post => depicts_dict (extension.body_data body rfl) sound post
  obtain ⟨_, ⟨⟩, -, rfl⟩ := Session.makes_of_body body
  exact (inner.read.enter fun u seen' p _ _ => .trivial rfl rfl).imp
    fun u seen' p _ _ post => post.1

/-- The picture of data without parts is that they stay themselves. -/
theorem ofObject_of_isAtom (atom : v.isAtom = true) :
    ofObject supply f next v = pure (.atom v) := by
  cases v with
  | float x =>
    cases x with
    | nan => cases atom
    | infinite | finite => rfl
  | scalar r =>
    have builtIn : BuiltIn.isScalar r = true := atom
    simp only [ofObject, builtIn, if_true]
  | null | unnamed | bool | int | text | bytes | location => rfl
  | _ => cases atom

/-- Plain data are pictured as deep as they are nested. -/
theorem takes_plain (supply : Supplier) (next : Value → Taking Snapshot)
    (h : s.Nests Session.Plain n v) (le : n ≤ N) :
    Pictures (Depicts G supply) s (takeRound supply next N) v := by
  intro s' later seen
  replace h := later.extends.plain h
  clear later
  induction n generalizing s' N v seen with
  | zero => cases h
  | succ n ih =>
    obtain ⟨M, rfl⟩ : ∃ M, N = M + 1 := ⟨N - 1, by omega⟩
    have parts : ∀ x ∈ s'.parts v, Pictures (Depicts G supply) s' (takeRound supply next M) x :=
      fun x hx s'' later seen' =>
        ih (Nat.le_of_succ_le_succ le) s'' seen' (later.extends.plain (h.2 x hx))
    have plain := h.1
    have untyped : ¬v.isTyped = true := by simp [plain.isTyped_eq]
    refine takes_round (fun new => ?_) pictured_of_met
    suffices depicts : Takes s' seen (ofObject supply (takeRound supply next M) next v)
        fun u seen' p => Depicts G supply u seen v p seen' from
      depicts.imp fun u seen' p _ _ post => ⟨post, fun typed => absurd typed untyped⟩
    cases body : s'.body? v with
    | none =>
      rw [Session.Plain, body] at plain
      rw [ofObject_of_isAtom plain]
      refine (Takes.pure s' seen (Snapshot.atom v)).imp ?_
      rintro u seen' p - - ⟨rfl, rfl⟩
      exact depicts_self (firm_of_isAtom plain)
    | some b =>
      rw [Session.Plain, body] at plain
      rw [Session.parts_of_body body] at parts
      have made := Session.makes_of_body body
      cases b with
      | tuple items =>
        obtain ⟨tag, rfl⟩ := made
        exact (takes_tuple new parts).imp fun u seen' p _ _ post => post.1
      | config name locations args description =>
        obtain ⟨tag, rfl⟩ := made
        exact takes_config new parts
      | list items =>
        obtain ⟨r, rfl, -⟩ := made
        exact takes_list body parts
      | set members =>
        obtain ⟨r, rfl, -⟩ := made
        exact takes_set body plain.2 parts
      | dict entries =>
        obtain ⟨r, rfl, -⟩ := made
        exact takes_dict body plain.2 parts
      | wrapper | argument | directive => cases plain.1

end DirectiveSchema.Snapshot
