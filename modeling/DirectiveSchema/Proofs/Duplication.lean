import DirectiveSchema.Copy
import DirectiveSchema.Proofs.Concord
import DirectiveSchema.Proofs.Pictures

/-!
Deep copies of plain data. What was copied is remembered; a list or a dictionary is remembered
before its elements are copied, and stays open meanwhile. Since no object is nested in itself, none
is met while it is open: what was remembered in place of an object is a copy of it that lasts.
-/
namespace DirectiveSchema.DeepCopy

open Snapshot (Firm Ready Vessel)

variable {α β : Type} {supply : Supplier} {u s t t' t₁ t₂ : Session} {v x y : Value} {k m n N : Nat}
  {O : List Value} {memo new : Memo} {f : Value → Copying Value}

/-! ### What is remembered -/

theorem Memo.exists_of_find? (h : memo.find? v = some y) :
    ∃ p ∈ memo, p.1.same v = true ∧ p.2 = y := by
  obtain ⟨p, found, rfl⟩ := Option.map_eq_some_iff.1 h
  have same := List.find?_some found
  exact ⟨p, List.mem_of_find?_eq_some found, same, rfl⟩

/-- What is remembered is read. -/
theorem recalled (memo : Memo) (t : Session) :
    (get : Copying Memo) memo t = .ok (memo, memo) t := rfl

theorem Memo.find?_eq_none (h : ∀ p ∈ memo, p.1.same v = false) : memo.find? v = none := by
  rw [Memo.find?, List.find?_eq_none.2 fun p hp same => ?_]
  · rfl
  · rw [h p hp] at same
    cases same

/-- An object that was copied, and its copy. -/
structure Made (u : Session) (O : List Value) (t : Session) (n : Nat) (p : Value × Value) :
    Prop where
  nests : u.Nests Session.Plain n p.1
  object : p.1.isAtom = false
  firm : Firm u O t p.2 p.1

/-- What is remembered in place of objects that are nested no deeper than they may be here are
copies that last. The objects that are open are nested deeper. -/
def AtHand (u : Session) (O : List Value) (t : Session) (n : Nat) (memo : Memo) : Prop :=
  ∀ p ∈ memo, u.Nests Session.Plain n p.1 → Firm u O t p.2 p.1

theorem Made.agrees {p : Value × Value} (h : Made u O t n p) (agrees : t.Agrees O t') :
    Made u O t' n p := ⟨h.nests, h.object, h.firm.agrees agrees⟩

theorem Made.mono {p : Value × Value} (h : Made u O t n p) (le : n ≤ m) : Made u O t m p :=
  ⟨h.nests.mono le, h.object, h.firm⟩

theorem AtHand.weaken (h : AtHand u O t m memo) (le : n ≤ m) : AtHand u O t n memo :=
  fun p hp nests => h p hp (nests.mono le)

theorem AtHand.add (h : AtHand u O t n memo) (agrees : t.Agrees [] t')
    (made : ∀ p ∈ new, Made u O t' m p) : AtHand u O t' n (new ++ memo) := by
  intro p hp nests
  rcases List.mem_append.1 hp with hp | hp
  · exact (made p hp).firm
  · exact (h p hp nests).agrees (agrees.despite O)

/-! ### Copying step by step -/

/-- How the copying of a part ends: with a result, of which something holds, and with copies of all
objects that were met in the part. -/
def Delivered (u : Session) (O : List Value) (t : Session) (n : Nat) (memo : Memo)
    (r : EStateM.Result Fault Session (α × Memo)) (post : List Value → Session → α → Prop) : Prop :=
  ∃ a t' new, r = .ok (a, new ++ memo) t' ∧ t.Agrees [] t' ∧ (∀ p ∈ new, Made u O t' n p) ∧
    post O t' a

/-- An action that copies a part whose objects are nested no deeper than they may be. -/
structure Delivers (u : Session) (n : Nat) (act : Copying α)
    (post : List Value → Session → α → Prop) : Prop where
  run {O : List Value} {t : Session} {memo : Memo} : Ready u O t → AtHand u O t n memo →
    Delivered u O t n memo (act memo t) post

namespace Delivers

variable {act : Copying α} {g : α → Copying β} {P : List Value → Session → α → Prop}
  {Q : α → List Value → Session → β → Prop}

theorem pure (u : Session) (n : Nat) (a : α) :
    Delivers u n (Pure.pure a) fun _ _ b => b = a where
  run {_ t _} _ _ := ⟨a, t, [], rfl, .refl [] t, fun _ hp => (nomatch hp), rfl⟩

theorem imp {R : List Value → Session → α → Prop} (h : Delivers u n act P)
    (weaker : ∀ O t a, P O t a → R O t a) : Delivers u n act R where
  run {O t memo} ready met := by
    obtain ⟨a, t', new, run, agrees, made, post⟩ := h.run ready met
    exact ⟨a, t', new, run, agrees, made, weaker O t' a post⟩

/-- Parts are copied one after the other. What was learned of the first is not lost. -/
theorem bind (first : Delivers u n act P)
    (lasts : ∀ O t t' a, t.Agrees [] t' → P O t a → P O t' a)
    (rest : ∀ a, (∃ O t, P O t a) → Delivers u n (g a) (Q a)) :
    Delivers u n (act >>= g) fun O t b => ∃ a, P O t a ∧ Q a O t b where
  run {O t memo} ready met := by
    obtain ⟨a, t₁, new, run, agrees, made, post⟩ := first.run ready met
    obtain ⟨b, t₂, new', run', agrees', made', post'⟩ :=
      (rest a ⟨O, t₁, post⟩).run (ready.agrees' agrees) (met.add agrees made)
    refine ⟨b, t₂, new' ++ new, ?_, agrees.trans agrees', fun p hp => ?_, a, ?_, post'⟩
    · rw [Action.bindWith_of_ok run, run', List.append_assoc]
    · rcases List.mem_append.1 hp with hp | hp
      · exact made' p hp
      · exact (made p hp).agrees (agrees'.despite O)
    · exact lasts O t₁ t₂ a agrees' post

/-- What was copied is used without a change of the session. -/
theorem follow {R : List Value → Session → β → Prop} (first : Delivers u n act P)
    (next : ∀ O t memo a, P O t a → ∃ b, g a memo t = .ok (b, memo) t ∧ R O t b) :
    Delivers u n (act >>= g) R where
  run {O t memo} ready met := by
    obtain ⟨a, t₁, new, run, agrees, made, post⟩ := first.run ready met
    obtain ⟨b, run', post'⟩ := next O t₁ (new ++ memo) a post
    exact ⟨b, t₁, new, (Action.bindWith_of_ok run).trans run', agrees, made, post'⟩

end Delivers

theorem firm_lasts (x : Value) (O : List Value) (t t' : Session) (y : Value)
    (agrees : t.Agrees [] t') (firm : Firm u O t y x) : Firm u O t' y x :=
  firm.agrees (agrees.despite O)

/-- Parts are copied one after the other. -/
theorem delivers_mapM {g : α → Copying β} {P : List Value → Session → β → α → Prop} {as : List α}
    (lasts : ∀ a O t t' b, t.Agrees [] t' → P O t b a → P O t' b a)
    (parts : ∀ a ∈ as, Delivers u n (g a) fun O t b => P O t b a) :
    Delivers u n (as.mapM g) fun O t bs => List.Forall₂ (P O t) bs as := by
  induction as with
  | nil => exact (Delivers.pure u n []).imp fun _ _ _ same => same.symm ▸ .nil
  | cons a as ih =>
    rw [List.mapM_cons]
    have rest := ih fun c hc => parts c (List.mem_cons_of_mem a hc)
    refine ((parts a List.mem_cons_self).bind (lasts a) fun b _ => rest.follow
      (R := fun O t cs => ∃ bs, cs = b :: bs ∧ List.Forall₂ (P O t) bs as)
      fun O t memo bs all => ⟨b :: bs, rfl, bs, rfl, all⟩).imp ?_
    rintro O t cs ⟨b, first, bs, rfl, all⟩
    exact .cons first all

theorem delivers_items {xs : List Value}
    (parts : ∀ x ∈ xs, Delivers u n (f x) fun O t y => Firm u O t y x) :
    Delivers u n (xs.mapM f) fun O t ys => List.Forall₂ (Firm u O t) ys xs :=
  delivers_mapM firm_lasts parts

theorem delivers_part {o : Option Value}
    (parts : ∀ x ∈ o.toList, Delivers u n (f x) fun O t y => Firm u O t y x) :
    Delivers u n (part f o) fun O t o' => List.Forall₂ (Firm u O t) o'.toList o.toList := by
  cases o with
  | none => exact (Delivers.pure u n none).imp fun _ _ _ same => same.symm ▸ .nil
  | some x =>
    refine (parts x List.mem_cons_self).follow fun O t memo y firm => ⟨some y, rfl, ?_⟩
    exact .cons firm .nil

theorem delivers_attributes {as : Attributes}
    (parts : ∀ x ∈ as.contents, Delivers u n (f x) fun O t y => Firm u O t y x) :
    Delivers u n (attributes f as) fun O t bs =>
      List.Forall₂ (Firm u O t) bs.contents as.contents := by
  have each : Delivers u n (as.mapM fun p => do return (p.1, ← f p.2)) fun O t bs =>
      List.Forall₂ (fun b a => Firm u O t b.2 a.2) bs as := by
    refine delivers_mapM
      (P := fun O t (b a : String × Value) => Firm u O t b.2 a.2)
      (fun a O t t' b => firm_lasts a.2 O t t' b.2) fun a ha => ?_
    exact (parts a.2 (List.mem_map_of_mem ha)).follow fun O t memo y firm =>
      ⟨(a.1, y), rfl, firm⟩
  exact each.imp fun O t bs all =>
    List.forall₂_map_left_iff.2 (List.forall₂_map_right_iff.2 all)

/-! ### Objects that are made of the copies of their parts -/

/-- An object is not met among its own parts. -/
theorem find?_eq_none_of_deeper (fresh : memo.find? v = none)
    (made : ∀ p ∈ new, Made u O t n p) (deeper : ¬u.Nests Session.Plain n v)
    (nests : u.Nests Session.Plain m v) : (new ++ memo).find? v = none := by
  have none : List.find? (fun p => p.1.same v) new = none := by
    refine List.find?_eq_none.2 fun p hp same => deeper ?_
    cases Value.eq_of_same same nests.sound
    exact (made p hp).nests
  rw [Memo.find?, List.find?_append, none, Option.none_or]
  exact fresh

section

variable {act : Copying Value} {b b' : Body}

/-- What is remembered once an object was built of the copies of its parts. -/
theorem delivered_of_made (x : Value) (t₂ : Session)
    {r : EStateM.Result Fault Session (Value × Memo)} (ready : Ready u O t)
    (nests : u.Nests Session.Plain (k + 1) v) (nested : u.body? v = some b)
    (agrees : t.Agrees [] t₁) (made : ∀ p ∈ new, Made u O t₁ k p) (agrees' : t₁.Agrees [] t₂)
    (body : ∀ t', t₂.Agrees O t' → t'.body? x = some b') (fits : b'.Fits b)
    (firms : List.Forall₂ (Firm u O t₁) b'.parts b.parts)
    (run : r = .ok (x, (v, x) :: (new ++ memo)) t₂) :
    Delivered u O t (k + 1) memo r fun O t y => Firm u O t y v := by
  have whole := agrees.trans agrees'
  have firm : Firm u O t₂ x v := Snapshot.firm_of_body (ready.agrees' whole) nested body fits
    (firms.imp fun _ _ firm => firm.agrees (agrees'.despite O))
  have object : v.isAtom = false := by
    cases atom : v.isAtom with
    | false => rfl
    | true =>
      rw [Session.body?_of_isAtom atom] at nested
      cases nested
  refine ⟨x, t₂, (v, x) :: new, run, whole, fun p hp => ?_, firm⟩
  rcases List.mem_cons.1 hp with rfl | hp
  · exact ⟨nests, object, firm⟩
  · exact ((made p hp).mono (Nat.le_succ k)).agrees (agrees'.despite O)

/-- An object that is remembered before its parts are copied, and then filled. -/
theorem delivered_of_filled {kind : CellKind} {content : Type} {create : Action (Ref kind)}
    {value : Ref kind → Value} {put : Session → Ref kind → content → Session}
    {aliases : Ref kind → List Value} {body : content → Body} {build : Copying content}
    (vessel : Vessel create value put aliases body) (ready : Ready u O t)
    (met : AtHand u O t (k + 1) memo) (nests : u.Nests Session.Plain (k + 1) v)
    (deeper : ¬u.Nests Session.Plain k v) (nested : u.body? v = some b)
    (inner : Delivers u k build fun O t c =>
      (body c).Fits b ∧ List.Forall₂ (Firm u O t) (body c).parts b.parts) :
    Delivered u O t (k + 1) memo ((do
      let r ← liftM create
      let copy ← remember v (value r)
      let c ← build
      modifyThe Session fun s => put s r c
      return copy : Copying Value) memo t) fun O t y => Firm u O t y v := by
  obtain ⟨r, t₁, made, names, unchanged⟩ := vessel.fresh t
  have absent : ∀ z ∈ aliases r, t.body? z = none := fun z hz => (names z hz).1
  have shut {z : Value} {c : Body} (present : t.body? z = some c) : z ∉ aliases r := by
    intro hz
    rw [absent z hz] at present
    cases present
  have agrees : t.Agrees [] t₁ := by
    intro z c _ present
    rwa [unchanged z (shut present)]
  -- The object itself is nested deeper than its parts, so that it is not needed while it is open.
  have hand : AtHand u (aliases r ++ O) t₁ k ((v, value r) :: memo) := by
    intro p hp nests
    rcases List.mem_cons.1 hp with rfl | hp
    · exact absurd nests deeper
    · exact (met p hp (nests.mono (Nat.le_succ k))).enter absent unchanged
  have entered := ready.enter names agrees
  obtain ⟨c, t₂, new, built, agrees', inside, fits, firms⟩ := inner.run entered hand
  have whole : t.Agrees [] (put t₂ r c) := by
    intro z d none present
    rw [vessel.others c (shut present)]
    exact agrees' z d none (agrees z d none present)
  have closed : (t₂.body? (value r)).isSome = true :=
    (entered.agrees' agrees').live (List.mem_append_left O (vessel.self r))
  have leave {x y : Value} (firm : Firm u (aliases r ++ O) t₂ x y) : Firm u O (put t₂ r c) x y :=
    firm.leave fun z hz => vessel.others c hz
  have firm : Firm u O (put t₂ r c) (value r) v := by
    refine Snapshot.firm_of_body (ready.agrees' whole) nested (fun t' later => ?_) fits
      (firms.imp fun _ _ => leave)
    refine later _ _ (fun hr => ?_) (vessel.filled c closed)
    have present := ready.live hr
    rw [absent _ (vessel.self r)] at present
    cases present
  have object : v.isAtom = false := by
    cases atom : v.isAtom with
    | false => rfl
    | true =>
      rw [Session.body?_of_isAtom atom] at nested
      cases nested
  refine ⟨value r, put t₂ r c, new ++ [(v, value r)], ?_, whole, fun p hp => ?_, firm⟩
  · have remembered : remember v (value r) memo t₁ = .ok (value r, (v, value r) :: memo) t₁ := rfl
    rw [Action.bindWith_of_ok (Action.lift_of_ok made), Action.bindWith_of_ok remembered,
      Action.bindWith_of_ok built, List.append_assoc]
    rfl
  · rcases List.mem_append.1 hp with hp | hp
    · have inside := (inside p hp).mono (Nat.le_succ k)
      exact ⟨inside.nests, inside.object, leave inside.firm⟩
    · cases List.mem_singleton.1 hp
      exact ⟨nests, object, firm⟩

end

/-! ### Copies of each kind of object -/

theorem ofObject_of_isAtom (atom : v.isAtom = true) (memo : Memo) (t : Session) :
    ofObject supply f v memo t = .ok (v, memo) t := by
  cases v with
  | scalar r =>
    have builtIn : BuiltIn.isScalar r = true := atom
    simp only [ofObject, builtIn, if_true]
    rfl
  | null | unnamed | bool | int | float | text | bytes | location => rfl
  | _ => cases atom

/-- Copies that are the same objects one by one. -/
theorem eq_of_sameItems {xs ys : List Value} {P : Value → Value → Prop}
    (nests : ∀ x ∈ xs, u.Nests Session.Plain n x) (related : List.Forall₂ P ys xs)
    (h : sameItems xs ys = true) : ys = xs := by
  induction related with
  | nil => rfl
  | @cons y x ys xs _ _ ih =>
    simp only [sameItems, List.zip_cons_cons, List.all_cons, Bool.and_eq_true] at h
    have same : y.same x = true := (Value.same_comm y x).trans h.1
    rw [Value.eq_of_same same (nests x List.mem_cons_self).sound,
      ih (fun z hz => nests z (List.mem_cons_of_mem x hz)) h.2]

section

variable (ready : Ready u O t) (met : AtHand u O t (k + 1) memo)

include ready met

theorem delivered_tuple {tag : Nat} {items : List Value}
    (nests : u.Nests Session.Plain (k + 1) (.tuple tag items))
    (deeper : ¬u.Nests Session.Plain k (.tuple tag items))
    (fresh : memo.find? (.tuple tag items) = none)
    (parts : ∀ x ∈ items, Delivers u k (f x) fun O t y => Firm u O t y x) :
    Delivered u O t (k + 1) memo (ofObject supply f (.tuple tag items) memo t)
      fun O t y => Firm u O t y (.tuple tag items) := by
  obtain ⟨copies, t₁, new, run, agrees, made, firms⟩ :=
    (delivers_items parts).run ready (met.weaken (Nat.le_succ k))
  have absent := find?_eq_none_of_deeper fresh made deeper nests
  have begun : ofObject supply f (.tuple tag items) memo t =
      (if sameItems items copies then pure (.tuple tag items)
        else do remember (.tuple tag items) (← liftM (Action.newRow copies)).value :
          Copying Value) (new ++ memo) t₁ := by
    simp only [ofObject]
    rw [Action.bindWith_of_ok run, Action.bindWith_of_ok (recalled (new ++ memo) t₁)]
    simp only [absent]
  rw [begun]
  cases same : sameItems items copies with
  | true =>
    cases eq_of_sameItems nests.2 firms same
    refine ⟨.tuple tag items, t₁, new, rfl, agrees,
      fun p hp => (made p hp).mono (Nat.le_succ k), ?_⟩
    exact Snapshot.firm_of_body (c := .tuple items) (ready.agrees' agrees) rfl (fun _ _ => rfl)
      trivial firms
  | false =>
    cases copies with
    | nil => simp [sameItems] at same
    | cons y ys =>
      refine delivered_of_made (.tuple t₁.nextTag (y :: ys)) _ ready nests rfl agrees made
        (fun z b _ body => ?_) (fun _ _ => rfl) trivial firms rfl
      cases z <;> exact body

theorem delivered_config {tag : Nat} {name locations args description : Value}
    (nests : u.Nests Session.Plain (k + 1) (.config tag name locations args description))
    (parts : ∀ x ∈ [name, locations, args, description],
      Delivers u k (f x) fun O t y => Firm u O t y x) :
    Delivered u O t (k + 1) memo
      (ofObject supply f (.config tag name locations args description) memo t)
      fun O t y => Firm u O t y (.config tag name locations args description) := by
  obtain ⟨copies, t₁, new, run, agrees, made, firms⟩ :=
    (delivers_items parts).run ready (met.weaken (Nat.le_succ k))
  simp only [List.mapM_cons, List.mapM_nil] at run
  obtain ⟨a, m₁, s₁, first, run⟩ := Action.ok_of_bindWith run
  obtain ⟨as, _, s₂, run, ended⟩ := Action.ok_of_bindWith run
  cases ended
  obtain ⟨b, m₂, s₂, second, run⟩ := Action.ok_of_bindWith run
  obtain ⟨bs, _, s₃, run, ended⟩ := Action.ok_of_bindWith run
  cases ended
  obtain ⟨c, m₃, s₃, third, run⟩ := Action.ok_of_bindWith run
  obtain ⟨cs, _, s₄, run, ended⟩ := Action.ok_of_bindWith run
  cases ended
  obtain ⟨d, m₄, s₄, fourth, run⟩ := Action.ok_of_bindWith run
  cases run
  have numbered : Action.freshTag t₁ =
      .ok t₁.nextTag { t₁ with nextTag := t₁.nextTag + 1 } := rfl
  have fits : (Body.config a b c d).Fits (.config name locations args description) := trivial
  refine delivered_of_made (.config t₁.nextTag a b c d) { t₁ with nextTag := t₁.nextTag + 1 } ready
    nests rfl agrees made (fun z b _ body => ?_) (fun _ _ => rfl) fits firms ?_
  · cases z <;> exact body
  · simp only [ofObject]
    rw [Action.bindWith_of_ok first, Action.bindWith_of_ok second, Action.bindWith_of_ok third,
      Action.bindWith_of_ok fourth, Action.bindWith_of_ok (Action.lift_of_ok numbered)]
    rfl

theorem delivered_list {r : Ref .list} {items : List Value}
    (nests : u.Nests Session.Plain (k + 1) (.list r)) (deeper : ¬u.Nests Session.Plain k (.list r))
    (nested : u.body? (.list r) = some (.list items))
    (parts : ∀ x ∈ items, Delivers u k (f x) fun O t y => Firm u O t y x) :
    Delivered u O t (k + 1) memo (ofObject supply f (.list r) memo t)
      fun O t y => Firm u O t y (.list r) := by
  have inner : Delivers u k (items.mapM f) fun O t c => (Body.list c).Fits (.list items) ∧
      List.Forall₂ (Firm u O t) (Body.list c).parts (Body.list items).parts :=
    (delivers_items parts).imp fun _ _ _ firms => ⟨trivial, firms⟩
  have present := ready.agrees _ _ List.not_mem_nil nested
  obtain ⟨_, ⟨⟩, -, rfl⟩ := Session.makes_of_body present
  exact delivered_of_filled Snapshot.vessel_list ready met nests deeper nested inner

theorem delivered_set {r : Ref .set} {members : List Member}
    (nests : u.Nests Session.Plain (k + 1) (.set r))
    (nested : u.body? (.set r) = some (.set members)) (sound : (Body.set members).Sound)
    (parts : ∀ x ∈ members.map Member.value, Delivers u k (f x) fun O t y => Firm u O t y x) :
    Delivered u O t (k + 1) memo (ofObject supply f (.set r) memo t)
      fun O t y => Firm u O t y (.set r) := by
  have present := ready.agrees _ _ List.not_mem_nil nested
  obtain ⟨_, ⟨⟩, -, rfl⟩ := Session.makes_of_body present
  obtain ⟨copies, t₁, new, run, agrees, made, firms⟩ :=
    (delivers_items parts).run ready (met.weaken (Nat.le_succ k))
  replace run : (t.set r).mapM (fun m => f m.value) memo t = .ok (copies, new ++ memo) t₁ := by
    rw [List.mapM_map] at run
    exact run
  have read : (getThe Session : Copying Session) memo t = .ok (t, memo) t := rfl
  obtain ⟨others, rfl, hashes, keyed⟩ := Snapshot.members_of_copies (G := .plain) sound.1
    (fun x hx => nests.2 x (by rwa [Session.parts_of_body nested])) firms
  have nodup : (others.map Member.hash).Nodup := hashes ▸ sound.2
  have gathered : Container.distinct supply (others.map Member.value) t₁ = .ok others t₁ :=
    Container.distinct_of_keys keyed nodup
  have added : Action.newSet others t₁ =
      .ok ⟨t₁.sets.size⟩ { t₁ with sets := t₁.sets.add others } := rfl
  have fits : (Body.set others).Fits (.set (t.set r)) := ⟨hashes, nodup⟩
  refine delivered_of_made (.set ⟨t₁.sets.size⟩) { t₁ with sets := t₁.sets.add others } ready nests
    nested agrees made (fun z b _ body => ?_) (fun t' later => ?_) fits firms ?_
  · cases z with
    | set q =>
      obtain ⟨c, cell, rfl⟩ := Option.map_eq_some_iff.1 body
      have old : q.index ≠ t₁.sets.size := Nat.ne_of_lt (Arena.get?_eq_some cell).1
      exact congrArg (Option.map Body.set) ((Arena.get?_add_of_ne _ _ old).trans cell)
    | _ => exact body
  · refine later _ _ (fun hr => ?_)
      (congrArg (Option.map Body.set) (Arena.get?_add_self t₁.sets others))
    have live := (ready.agrees' agrees).live hr
    rw [Session.body?, Arena.get?_of_le (Nat.le_refl _)] at live
    cases live
  · simp only [ofObject]
    rw [Action.bindWith_of_ok read, Action.bindWith_of_ok run,
      Action.bindWith_of_ok (Action.lift_of_ok gathered),
      Action.bindWith_of_ok (Action.lift_of_ok added)]
    rfl

end

/-- An entry is copied and put behind others, if none of them has its key. -/
theorem delivers_entry (supply : Supplier) {done : List Entry} {e : Entry}
    (keyed : e.key.key? = some e.hash)
    (fresh : ∀ w ∈ done, w.hash ≠ e.hash) (nests : u.Nests Session.Plain n e.key)
    (key : Delivers u n (f e.key) fun O t y => Firm u O t y e.key)
    (value : Delivers u n (f e.value) fun O t y => Firm u O t y e.value) :
    Delivers u n (addEntry supply f done e) fun O t es => ∃ c : Entry, es = done ++ [c] ∧
      c.hash = e.hash ∧ Firm u O t c.key e.key ∧ Firm u O t c.value e.value := by
  refine (value.bind (firm_lasts e.value) fun z _ => key.follow
    (R := fun O t es => ∃ y, es = done ++ [⟨e.hash, y, z⟩] ∧ Firm u O t y e.key)
    fun O t memo y firm => ?_).imp ?_
  · have same := (firm.alike (G := .plain) nests).key keyed
    have assigned : Container.assign supply done y z t = .ok (done ++ [⟨e.hash, y, z⟩]) t := by
      rw [Container.assign, Action.bind_of_ok (HashKey.of_key same)]
      exact Container.put_of_fresh fresh
    exact ⟨_, Action.lift_of_ok assigned, y, rfl, firm⟩
  · rintro O t es ⟨z, firm, y, rfl, firm'⟩
    exact ⟨⟨e.hash, y, z⟩, rfl, rfl, firm', firm⟩

/-- The entries of a dictionary are copied one after the other. They have the keys of the original
entries, so that none takes the place of another. -/
theorem delivers_entries (supply : Supplier) {entries done : List Entry}
    (keyed : ∀ e ∈ entries, e.key.key? = some e.hash)
    (nodup : ((done ++ entries).map Entry.hash).Nodup)
    (nests : ∀ x ∈ entries.flatMap Entry.contents, u.Nests Session.Plain n x)
    (parts : ∀ x ∈ entries.flatMap Entry.contents,
      Delivers u n (f x) fun O t y => Firm u O t y x) :
    Delivers u n (entries.foldlM (addEntry supply f) done) fun O t es => ∃ copies,
      es = done ++ copies ∧ copies.map Entry.hash = entries.map Entry.hash ∧
        List.Forall₂ (Firm u O t) (copies.flatMap Entry.contents)
          (entries.flatMap Entry.contents) := by
  induction entries generalizing done with
  | nil =>
    refine (Delivers.pure u n done).imp fun _ _ _ same => ⟨[], ?_, rfl, .nil⟩
    rw [same, List.append_nil]
  | cons e entries ih =>
    have among {x : Value} (hx : x ∈ e.contents) :
        x ∈ (e :: entries).flatMap Entry.contents := List.mem_append_left _ hx
    have key : e.key ∈ e.contents := List.mem_cons_self
    have value : e.value ∈ e.contents := List.mem_cons_of_mem _ List.mem_cons_self
    have fresh : ∀ w ∈ done, w.hash ≠ e.hash := by
      rw [List.map_append] at nodup
      intro w hw same
      exact (List.nodup_append.1 nodup).2.2 _ (List.mem_map_of_mem hw) _
        (List.mem_map_of_mem List.mem_cons_self) same
    rw [List.foldlM_cons]
    have first := delivers_entry supply (keyed e List.mem_cons_self) fresh
      (nests _ (among key)) (parts _ (among key)) (parts _ (among value))
    have rest (es : List Entry) (first : ∃ O t, ∃ c : Entry, es = done ++ [c] ∧ c.hash = e.hash ∧
        Firm u O t c.key e.key ∧ Firm u O t c.value e.value) :
        Delivers u n (entries.foldlM (addEntry supply f) es) fun O t ws => ∃ copies,
          ws = es ++ copies ∧ copies.map Entry.hash = entries.map Entry.hash ∧
            List.Forall₂ (Firm u O t) (copies.flatMap Entry.contents)
              (entries.flatMap Entry.contents) := by
      obtain ⟨O, t, c, rfl, hash, -⟩ := first
      refine ih (fun w hw => keyed w (List.mem_cons_of_mem e hw)) ?_
        (fun x hx => nests x (List.mem_append_right _ hx))
        fun x hx => parts x (List.mem_append_right _ hx)
      simpa [hash] using nodup
    refine (first.bind ?_ rest).imp ?_
    · rintro O t t' es agrees ⟨c, same, hash, key, value⟩
      exact ⟨c, same, hash, firm_lasts _ _ _ _ _ agrees key, firm_lasts _ _ _ _ _ agrees value⟩
    · rintro O t ws ⟨es, ⟨c, rfl, hash, key, value⟩, copies, rfl, hashes, firms⟩
      refine ⟨c :: copies, List.append_assoc _ _ _, ?_, .cons key (.cons value firms)⟩
      rw [List.map_cons, List.map_cons, hash, hashes]

theorem delivered_dict {r : Ref .dict} {entries : List Entry} (ready : Ready u O t)
    (met : AtHand u O t (k + 1) memo) (nests : u.Nests Session.Plain (k + 1) (.dict r))
    (deeper : ¬u.Nests Session.Plain k (.dict r))
    (nested : u.body? (.dict r) = some (.dict entries))
    (sound : (Body.dict entries).Sound)
    (inside : ∀ x ∈ entries.flatMap Entry.contents, u.Nests Session.Plain k x)
    (parts : ∀ x ∈ entries.flatMap Entry.contents,
      Delivers u k (f x) fun O t y => Firm u O t y x) :
    Delivered u O t (k + 1) memo (ofObject supply f (.dict r) memo t)
      fun O t y => Firm u O t y (.dict r) := by
  have inner : Delivers u k (entries.foldlM (addEntry supply f) []) fun O t c =>
      (Body.dict c).Fits (.dict entries) ∧
        List.Forall₂ (Firm u O t) (Body.dict c).parts (Body.dict entries).parts := by
    refine (delivers_entries supply sound.1 (List.nil_append entries ▸ sound.2) inside parts).imp ?_
    rintro O t _ ⟨copies, rfl, hashes, firms⟩
    exact ⟨⟨hashes, hashes ▸ sound.2⟩, firms⟩
  have present := ready.agrees _ _ List.not_mem_nil nested
  obtain ⟨_, ⟨⟩, -, rfl⟩ := Session.makes_of_body present
  exact delivered_of_filled Snapshot.vessel_dict ready met nests deeper nested inner

/-! ### Plain data -/

theorem copyWithin_of_met (h : memo.find? v = some y) (t : Session) :
    copyWithin supply (N + 1) v memo t = .ok (y, memo) t := by
  rw [copyWithin, Action.bindWith_of_ok (recalled memo t)]
  simp only [h]
  rfl

theorem copyWithin_of_new (h : memo.find? v = none) (t : Session) :
    copyWithin supply (N + 1) v memo t = ofObject supply (copyWithin supply N) v memo t := by
  rw [copyWithin, Action.bindWith_of_ok (recalled memo t)]
  simp only [h]

/-- Plain data are copied as deep as they are nested. The induction is on the bound of the walk; an
object is taken to be nested no deeper than it must be, and so are its parts. -/
theorem delivers_plain (nests : u.Nests Session.Plain n v) (le : n ≤ N) :
    Delivers u n (copyWithin supply N v) fun O t y => Firm u O t y v := by
  induction N generalizing n v with
  | zero =>
    cases Nat.le_zero.1 le
    cases nests
  | succ N ih =>
    refine ⟨fun {O t memo} ready met => ?_⟩
    cases found : memo.find? v with
    | some y =>
      obtain ⟨p, hp, same, rfl⟩ := Memo.exists_of_find? found
      cases Value.eq_of_same same nests.sound
      exact ⟨p.2, t, [], copyWithin_of_met found t, .refl [] t, fun _ h => (nomatch h),
        met p hp nests⟩
    | none =>
      rw [copyWithin_of_new found t]
      obtain ⟨k, less, nests, deeper⟩ := nests.least
      have widen {r : EStateM.Result Fault Session (Value × Memo)}
          (h : Delivered u O t (k + 1) memo r fun O t y => Firm u O t y v) :
          Delivered u O t n memo r fun O t y => Firm u O t y v := by
        obtain ⟨y, t', new, run, agrees, made, firm⟩ := h
        exact ⟨y, t', new, run, agrees, fun p hp => (made p hp).mono less, firm⟩
      have hand : AtHand u O t (k + 1) memo := met.weaken less
      have plain := nests.1
      cases body : u.body? v with
      | none =>
        rw [Session.Plain, body] at plain
        exact ⟨v, t, [], ofObject_of_isAtom plain memo t, .refl [] t, fun _ h => (nomatch h),
          Snapshot.firm_of_isAtom plain O t⟩
      | some b =>
        rw [Session.Plain, body] at plain
        obtain ⟨data, sound⟩ := plain
        have inside : ∀ x ∈ b.parts, u.Nests Session.Plain k x := fun x hx =>
          nests.2 x (by rwa [Session.parts_of_body body])
        have parts : ∀ x ∈ b.parts, Delivers u k (copyWithin supply N x)
            fun O t y => Firm u O t y x := fun x hx => ih (inside x hx) (by omega)
        refine widen ?_
        have makes := Session.makes_of_body body
        cases b with
        | tuple items =>
          obtain ⟨tag, rfl⟩ := makes
          exact delivered_tuple ready hand nests deeper found parts
        | config name locations args description =>
          obtain ⟨tag, rfl⟩ := makes
          exact delivered_config ready hand nests parts
        | list items =>
          obtain ⟨r, rfl, -⟩ := makes
          exact delivered_list ready hand nests deeper body parts
        | set members =>
          obtain ⟨r, rfl, -⟩ := makes
          exact delivered_set ready hand nests body sound parts
        | dict entries =>
          obtain ⟨r, rfl, -⟩ := makes
          exact delivered_dict ready hand nests deeper body sound inside parts
        | _ => cases data

end DirectiveSchema.DeepCopy
