import DirectiveSchema.Proofs.Rebuilding

/-!
Pictures of each kind of object. The picture of an object is made of the pictures of its parts; if
those are restored to copies, so is the object.
-/
namespace DirectiveSchema.Snapshot

variable {G : Grade} {supply : Supplier} {u s t t' : Session} {v x y : Value} {p : Snapshot} {n : Nat}
  {O seen seen₁ seen₂ seen₃ seen₄ seen₅ seen₆ : List Value}

/-! ### Kinds of objects that are filled -/

section

variable {kind : CellKind} {content : Type} [Inhabited content] {new : Action (Ref kind)}
  {value : Ref kind → Value} {put : Session → Ref kind → content → Session}
  {aliases : Ref kind → List Value} {body : content → Body}

/-- Objects whose cells lie in one arena, from which nothing else is read. -/
theorem vessel_of_arena (cells : Session → Arena content) (blank : content)
    (self : ∀ r, value r ∈ aliases r)
    (reads : ∀ {r x}, x ∈ aliases r → ∃ made : content → Body, ∀ t : Session,
      t.body? x = ((cells t).get? r.index).map made)
    (own : ∀ (t : Session) r, t.body? (value r) = ((cells t).get? r.index).map body)
    (news : ∀ t, ∃ t', new t = .ok ⟨(cells t).size⟩ t' ∧ cells t' = (cells t).add blank ∧
      ∀ x, (∀ r, x ∉ aliases r) → t'.body? x = t.body? x)
    (puts : ∀ t r c, cells (put t r c) = (cells t).put r.index c ∧
      ∀ x, (∀ r, x ∉ aliases r) → (put t r c).body? x = t.body? x) :
    Vessel new value put aliases body where
  self := self
  fresh t := by
    obtain ⟨t', made, added, others⟩ := news t
    refine ⟨⟨(cells t).size⟩, t', made, fun x hx => ?_, fun x hx => ?_⟩
    · obtain ⟨build, read⟩ := reads hx
      rw [read, read, added, Arena.get?_of_le (Nat.le_refl _), Arena.get?_add_self]
      exact ⟨rfl, rfl⟩
    · by_cases named : ∃ r, x ∈ aliases r
      · obtain ⟨r, hr⟩ := named
        obtain ⟨build, read⟩ := reads hr
        have other : r.index ≠ (cells t).size := by
          intro same
          exact hx (same ▸ hr)
        rw [read, read, added, Arena.get?_add_of_ne _ _ other]
      · exact others x fun r hr => named ⟨r, hr⟩
  filled {t r} c present := by
    rw [own] at present ⊢
    obtain ⟨old, found⟩ := Option.isSome_iff_exists.1 (Option.isSome_map ▸ present)
    rw [(puts t r c).1, Arena.get?_put_self (Arena.get?_eq_some found).1]
    rfl
  others {t r} c {x} hx := by
    by_cases named : ∃ r, x ∈ aliases r
    · obtain ⟨r', hr'⟩ := named
      obtain ⟨build, read⟩ := reads hr'
      have other : r.index ≠ r'.index := by
        intro same
        cases r
        cases r'
        cases same
        exact hx hr'
      rw [read, read, (puts t r c).1, Arena.get?_put_of_ne other]
    · exact (puts t r c).2 x fun r hr => named ⟨r, hr⟩

/-- Objects that exist under one name only. -/
theorem vessel_of_cells (cells : Session → Arena content) (blank : content)
    (own : ∀ (t : Session) r, t.body? (value r) = ((cells t).get? r.index).map body)
    (news : ∀ t, ∃ t', new t = .ok ⟨(cells t).size⟩ t' ∧ cells t' = (cells t).add blank ∧
      ∀ x, (∀ r, x ≠ value r) → t'.body? x = t.body? x)
    (puts : ∀ t r c, cells (put t r c) = (cells t).put r.index c ∧
      ∀ x, (∀ r, x ≠ value r) → (put t r c).body? x = t.body? x) :
    Vessel new value put (fun r => [value r]) body := by
  have other {x : Value} (h : ∀ r, x ∉ [value r]) (r : Ref kind) : x ≠ value r :=
    fun same => h r (List.mem_singleton.2 same)
  refine vessel_of_arena cells blank (fun r => List.mem_singleton_self _) (fun hx => ?_) own
    (fun t => ?_) fun t r c => ⟨(puts t r c).1, fun x hx => (puts t r c).2 x (other hx)⟩
  · cases List.mem_singleton.1 hx
    exact ⟨body, fun t => own t _⟩
  · obtain ⟨t', made, added, others⟩ := news t
    exact ⟨t', made, added, fun x hx => others x (other hx)⟩

end

theorem vessel_list :
    Vessel (Action.newList []) .list Session.putList (fun r => [.list r]) .list := by
  refine vessel_of_cells Session.lists [] (fun _ _ => rfl)
    (fun t => ⟨_, rfl, rfl, fun x hx => ?_⟩) fun t r c => ⟨rfl, fun x hx => ?_⟩
  · cases x <;> first | rfl | exact absurd rfl (hx _)
  · cases x <;> first | rfl | exact absurd rfl (hx _)

theorem vessel_set : Vessel (Action.newSet []) .set Session.putSet (fun r => [.set r]) .set := by
  refine vessel_of_cells Session.sets [] (fun _ _ => rfl)
    (fun t => ⟨_, rfl, rfl, fun x hx => ?_⟩) fun t r c => ⟨rfl, fun x hx => ?_⟩
  · cases x <;> first | rfl | exact absurd rfl (hx _)
  · cases x <;> first | rfl | exact absurd rfl (hx _)

theorem vessel_dict :
    Vessel (Action.newDict []) .dict Session.putDict (fun r => [.dict r]) .dict := by
  refine vessel_of_cells Session.dicts [] (fun _ _ => rfl)
    (fun t => ⟨_, rfl, rfl, fun x hx => ?_⟩) fun t r c => ⟨rfl, fun x hx => ?_⟩
  · cases x <;> first | rfl | exact absurd rfl (hx _)
  · cases x <;> first | rfl | exact absurd rfl (hx _)

theorem vessel_argument : Vessel (Action.newArgument .blank) .argument Session.putArgument
    (fun r => [.argument r]) .argument := by
  refine vessel_of_cells Session.arguments .blank (fun _ _ => rfl)
    (fun t => ⟨_, rfl, rfl, fun x hx => ?_⟩) fun t r c => ⟨rfl, fun x hx => ?_⟩
  · cases x <;> first | rfl | exact absurd rfl (hx _)
  · cases x <;> first | rfl | exact absurd rfl (hx _)

/-- A wrapper of any kind over the same cell. -/
def wrapperAliases (r : Ref .wrapper) : List Value :=
  [.wrapper .list r, .wrapper .nonNull r, .wrapper .plain r]

theorem mem_wrapperAliases (w : Wrapper) (r : Ref .wrapper) :
    .wrapper w r ∈ wrapperAliases r := by
  cases w <;> simp [wrapperAliases]

theorem vessel_wrapper (w : Wrapper) : Vessel (Action.newWrapper .blank) (.wrapper w)
    Session.putWrapper wrapperAliases (.wrapper w) := by
  refine vessel_of_arena Session.wrappers .blank (mem_wrapperAliases w) (fun {r x} hx => ?_)
    (fun _ _ => rfl) (fun t => ⟨_, rfl, rfl, fun x hx => ?_⟩) fun t r c => ⟨rfl, fun x hx => ?_⟩
  · simp only [wrapperAliases, List.mem_cons, List.not_mem_nil, or_false] at hx
    rcases hx with rfl | rfl | rfl
    · exact ⟨.wrapper .list, fun t => rfl⟩
    · exact ⟨.wrapper .nonNull, fun t => rfl⟩
    · exact ⟨.wrapper .plain, fun t => rfl⟩
  · cases x <;> first | rfl | exact absurd (mem_wrapperAliases _ _) (hx _)
  · cases x <;> first | rfl | exact absurd (mem_wrapperAliases _ _) (hx _)

/-! ### Plain data -/

theorem Firm.alike (h : Firm u O t x y) (nests : u.Nests G.holds n y) : t.Alike n x y :=
  h t (.refl O t) n (Grade.nests nests)

theorem depicts_tuple {tag : Nat} {items : List Value} {ps : List Snapshot}
    (unseen : number? (.tuple tag items) seen = none)
    (parts : DepictsAll G supply u seen items ps seen₁) :
    Depicts G supply u seen (.tuple tag items) (.tuple (slotOf (.tuple tag items) seen₁).1 ps)
      (slotOf (.tuple tag items) seen₁).2 := by
  refine depicts_make unseen rfl rfl parts fun {O t xs} _ firms => ?_
  cases xs with
  | nil =>
    refine ⟨.tuple 0 [], t, .tuple [], rfl, .refl [] t, fun _ _ => rfl, trivial, firms⟩
  | cons x xs =>
    refine ⟨.tuple t.nextTag (x :: xs), _, .tuple (x :: xs), rfl, fun z b _ body => ?_,
      fun _ _ => rfl, trivial, firms⟩
    cases z <;> exact body

/-- Four fields are restored one after the other. -/
theorem restores_fields {name locations args description : Value} {p₁ p₂ p₃ p₄ : Snapshot}
    (first : Depicts G supply u seen name p₁ seen₁)
    (second : Depicts G supply u seen₁ locations p₂ seen₂)
    (third : Depicts G supply u seen₂ args p₃ seen₃)
    (fourth : Depicts G supply u seen₃ description p₄ seen₄)
    (nests : ∀ x ∈ [name, locations, args, description], u.Nests G.holds n x) :
    Restores G u n seen seen₄ (fields (restoreWith supply p₁) (restoreWith supply p₂)
      (restoreWith supply p₃) (restoreWith supply p₄)) fun O t f =>
        Firm u O t f.name name ∧ Firm u O t f.locations locations ∧ Firm u O t f.args args ∧
          Firm u O t f.description description := by
  have all := ((first n (nests _ (by simp))).bind (firm_lasts name) fun a =>
    (second n (nests _ (by simp))).bind (firm_lasts locations) fun b =>
      (third n (nests _ (by simp))).bind (firm_lasts args) fun c =>
        (fourth n (nests _ (by simp))).follow
          (R := fun O t (f : Fields) => f.name = a ∧ f.locations = b ∧ f.args = c ∧
            Firm u O t f.description description)
          fun O t table d firm => ⟨⟨a, b, c, d⟩, rfl, rfl, rfl, rfl, firm⟩)
  refine all.imp ?_
  rintro O t f ⟨a, ha, b, hb, c, hc, rfl, rfl, rfl, hd⟩
  exact ⟨ha, hb, hc, hd⟩

theorem depicts_config {tag : Nat} {name locations args description : Value}
    {p₁ p₂ p₃ p₄ : Snapshot}
    (unseen : number? (.config tag name locations args description) seen = none)
    (first : Depicts G supply u seen name p₁ seen₁)
    (second : Depicts G supply u seen₁ locations p₂ seen₂)
    (third : Depicts G supply u seen₂ args p₃ seen₃)
    (fourth : Depicts G supply u seen₃ description p₄ seen₄) :
    Depicts G supply u seen (.config tag name locations args description)
      (.config (slotOf (.config tag name locations args description) seen₄).1 p₁ p₂ p₃ p₄)
      (slotOf (.config tag name locations args description) seen₄).2 := by
  refine depicts_make unseen rfl rfl
    (fun n nests => restores_fields first second third fourth nests) fun {O t f} _ firms => ?_
  obtain ⟨ha, hb, hc, hd⟩ := firms
  refine ⟨.config t.nextTag f.name f.locations f.args f.description, _,
    .config f.name f.locations f.args f.description, rfl, fun z b _ body => ?_,
    fun _ _ => rfl, trivial, .cons ha (.cons hb (.cons hc (.cons hd .nil)))⟩
  cases z <;> exact body

theorem depicts_list {r : Ref .list} {items : List Value} {ps : List Snapshot}
    (nested : u.body? (.list r) = some (.list items))
    (parts : DepictsAll G supply u (.list r :: seen) items ps seen₁) :
    Depicts G supply u seen (.list r) (.list seen.length ps) seen₁ :=
  depicts_fill vessel_list rfl nested fun n nests =>
    (parts n nests).imp fun _ _ _ firms => ⟨trivial, firms⟩

/-- The members of a set over copies of its elements. -/
theorem members_of_copies {members : List Member} {xs : List Value}
    (keyed : ∀ m ∈ members, m.value.key? = some m.hash)
    (nests : ∀ x ∈ members.map Member.value, u.Nests G.holds n x)
    (firms : List.Forall₂ (Firm u O t) xs (members.map Member.value)) :
    ∃ copies : List Member, copies.map Member.value = xs ∧
      copies.map Member.hash = members.map Member.hash ∧
        ∀ m ∈ copies, m.value.key? = some m.hash := by
  induction members generalizing xs with
  | nil =>
    cases firms
    exact ⟨[], rfl, rfl, fun _ hm => nomatch hm⟩
  | cons m members ih =>
    rw [List.map_cons] at nests firms
    cases firms with
    | @cons x _ xs _ first rest =>
      have like := first.alike (nests m.value List.mem_cons_self)
      have key := like.key (keyed m List.mem_cons_self)
      obtain ⟨copies, values, hashes, keys⟩ := ih (fun w hw => keyed w (List.mem_cons_of_mem m hw))
        (fun w hw => nests w (List.mem_cons_of_mem m.value hw)) rest
      refine ⟨⟨m.hash, x⟩ :: copies, ?_, ?_, fun w hw => ?_⟩
      · rw [List.map_cons, values]
      · rw [List.map_cons, List.map_cons, hashes]
      · rcases List.mem_cons.1 hw with rfl | hw
        · exact key
        · exact keys w hw

theorem depicts_set {r : Ref .set} {members : List Member} {ps : List Snapshot}
    (nested : u.body? (.set r) = some (.set members)) (sound : (Body.set members).Sound)
    (parts : DepictsAll G supply u (.set r :: seen) (members.map Member.value) ps seen₁) :
    Depicts G supply u seen (.set r) (.set seen.length ps) seen₁ := by
  refine depicts_fill vessel_set rfl nested fun n nests => ?_
  refine (parts n nests).follow fun O t table xs firms => ?_
  obtain ⟨copies, rfl, hashes, keyed⟩ := members_of_copies sound.1 nests firms
  have nodup : (copies.map Member.hash).Nodup := hashes ▸ sound.2
  exact ⟨copies, Action.lift_of_ok (Container.distinct_of_keys keyed nodup), ⟨hashes, nodup⟩, firms⟩

/-- The entries of a dictionary over copies of its keys and values. -/
theorem entries_of_copies {entries : List Entry} {pairs : List (Value × Value)}
    (keyed : ∀ e ∈ entries, e.key.key? = some e.hash)
    (nests : ∀ x ∈ entries.flatMap Entry.contents, u.Nests G.holds n x)
    (firms : List.Forall₂ (fun pair e => Firm u O t pair.1 e.key ∧ Firm u O t pair.2 e.value)
      pairs entries) :
    ∃ copies : List Entry, (copies.map fun e => (e.key, e.value)) = pairs ∧
      copies.map Entry.hash = entries.map Entry.hash ∧
      (∀ e ∈ copies, e.key.key? = some e.hash) ∧
        List.Forall₂ (Firm u O t) (copies.flatMap Entry.contents)
          (entries.flatMap Entry.contents) := by
  induction entries generalizing pairs with
  | nil =>
    cases firms
    exact ⟨[], rfl, rfl, fun _ he => (nomatch he), .nil⟩
  | cons e entries ih =>
    cases firms with
    | @cons pair _ pairs _ first rest =>
      have like := first.1.alike (nests e.key (by simp [Entry.contents]))
      have key := like.key (keyed e List.mem_cons_self)
      obtain ⟨copies, values, hashes, keys, related⟩ := ih
        (fun w hw => keyed w (List.mem_cons_of_mem e hw))
        (fun w hw => nests w (List.mem_append_right _ hw)) rest
      refine ⟨⟨e.hash, pair.1, pair.2⟩ :: copies, ?_, ?_, fun w hw => ?_,
        .cons first.1 (.cons first.2 related)⟩
      · rw [List.map_cons, values]
      · rw [List.map_cons, List.map_cons, hashes]
      · rcases List.mem_cons.1 hw with rfl | hw
        · exact key
        · exact keys w hw

theorem depicts_dict {r : Ref .dict} {entries : List Entry} {ps : List (Snapshot × Snapshot)}
    (nested : u.body? (.dict r) = some (.dict entries)) (sound : (Body.dict entries).Sound)
    (parts : DepictsEntries G supply u (.dict r :: seen) entries ps seen₁) :
    Depicts G supply u seen (.dict r) (.dict seen.length ps) seen₁ := by
  refine depicts_fill vessel_dict rfl nested fun n nests => ?_
  refine (parts n nests).follow fun O t table pairs firms => ?_
  obtain ⟨copies, rfl, hashes, keyed, related⟩ := entries_of_copies sound.1 nests firms
  have nodup : (copies.map Entry.hash).Nodup := hashes ▸ sound.2
  exact ⟨copies, Action.lift_of_ok (Container.dictionary_of_keys keyed nodup), ⟨hashes, nodup⟩,
    related⟩

/-! ### Types and arguments -/

theorem depicts_wrapper {w : Wrapper} {r : Ref .wrapper} {c : WrappingType} {type : Value}
    (nested : u.body? (.wrapper w r) = some (.wrapper w c)) (resolved : c.resolved = some type)
    (known : type.isNull = false)
    (inner : Depicts G supply u (.wrapper w r :: seen) type p seen₁) :
    Depicts G supply u seen (.wrapper w r) (.wrapper seen.length w p) seen₁ := by
  refine depicts_fill (vessel_wrapper w) rfl nested fun n nests => ?_
  simp only [Body.parts, resolved, Option.toList] at nests ⊢
  have typed := nests type List.mem_cons_self
  refine (inner n typed).follow fun O t table x firm => ⟨Types.known x, rfl, ?_⟩
  have kept : (Types.known x).resolved = some x :=
    Types.kept_of_not_isNull ((firm.alike typed).isNull known)
  rw [kept]
  refine ⟨⟨rfl, ?_, ?_⟩, .cons firm .nil⟩
  · rw [kept]
    rfl
  · rw [resolved]
    rfl

theorem isSome_of_related {R : Value → Value → Prop} {a b : Option Value}
    (h : List.Forall₂ R a.toList b.toList) : a.isSome = b.isSome := by
  cases a <;> cases b <;> first | rfl | cases h

theorem part_lasts (v : Option Value) (O : List Value) (t t' : Session) (x : Option Value)
    (agrees : t.Agrees [] t') (h : List.Forall₂ (Firm u O t) x.toList v.toList) :
    List.Forall₂ (Firm u O t') x.toList v.toList :=
  firmAll_lasts v.toList O t t' x.toList agrees h

theorem depicts_argument {q : Ref .argument} {c : Argument} {type : Value}
    {name description hasDefault default : Option Snapshot} {extra : List (String × Snapshot)}
    (nested : u.body? (.argument q) = some (.argument c)) (complete : c.Complete)
    (resolved : c.resolved = some type) (known : type.isNull = false)
    (first : DepictsPart G supply u (.argument q :: seen) c.name name seen₁)
    (second : DepictsPart G supply u seen₁ c.description description seen₂)
    (third : DepictsPart G supply u seen₂ c.hasDefault hasDefault seen₃)
    (fourth : DepictsPart G supply u seen₃ c.default default seen₄)
    (fifth : Depicts G supply u seen₄ type p seen₅)
    (sixth : DepictsAttributes G supply u seen₅ c.extra extra seen₆) :
    Depicts G supply u seen (.argument q)
      (.argument seen.length name description hasDefault default p extra) seen₆ := by
  refine depicts_fill vessel_argument rfl nested fun n nests => ?_
  simp only [Body.parts, resolved, List.mem_append] at nests
  have typed := nests type (.inl (.inl (.inr List.mem_cons_self)))
  -- The steps from the last one back to the first.
  have extras (a b d e : Option Value) (x : Value) := (sixth n fun z hz => nests z (.inr hz)).follow
    (R := fun O t (cell : Argument) => cell.name = a ∧ cell.description = b ∧ cell.hasDefault = d ∧
      cell.default = e ∧ cell.resolved = Types.kept x ∧
        List.Forall₂ (Firm u O t) cell.extra.contents c.extra.contents)
    fun O t table extra firms => ⟨{
      name := a
      description := b
      hasDefault := d
      default := e
      source := x
      resolved := Types.kept x
      extra }, rfl, rfl, rfl, rfl, rfl, rfl, firms⟩
  have types (a b d e : Option Value) :=
    (fifth n typed).bind (firm_lasts type) fun x => extras a b d e x
  have defaults (a b d : Option Value) := (fourth n fun z hz => nests z (.inl (.inr hz))).bind
    (part_lasts c.default) fun e => types a b d e
  have flags (a b : Option Value) :=
    (third n fun z hz => nests z (.inl (.inl (.inl (.inr hz))))).bind
      (part_lasts c.hasDefault) fun d => defaults a b d
  have descriptions (a : Option Value) :=
    (second n fun z hz => nests z (.inl (.inl (.inl (.inl (.inr hz)))))).bind
      (part_lasts c.description) fun b => flags a b
  have names := (first n fun z hz => nests z (.inl (.inl (.inl (.inl (.inl hz)))))).bind
    (part_lasts c.name) descriptions
  refine names.imp ?_
  rintro O t cell ⟨a, ha, b, hb, d, hd, e, he, x, hx, rfl, rfl, rfl, rfl, kept, extras⟩
  rw [Types.kept_of_not_isNull ((hx.alike typed).isNull known)] at kept
  refine ⟨⟨⟨?_, ?_, ?_, ?_⟩, complete, isSome_of_related he⟩, ?_⟩
  · exact (isSome_of_related ha).trans complete.name
  · exact (isSome_of_related hb).trans complete.description
  · exact (isSome_of_related hd).trans complete.hasDefault
  · rw [kept]
    rfl
  · have types : List.Forall₂ (Firm u O t) cell.resolved.toList c.resolved.toList := by
      rw [kept, resolved]
      exact .cons hx .nil
    exact List.rel_append (List.rel_append (List.rel_append (List.rel_append
      (List.rel_append ha hb) hd) types) he) extras

/-! ### Directives -/

end DirectiveSchema.Snapshot
