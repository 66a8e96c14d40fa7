import DirectiveSchema.Proofs.Writing
import DirectiveSchema.Snapshot

/-!
Restoring pictures. A picture is taken in one session and restored in another that still has all
that was pictured. Objects that are filled after they were numbered stay open meanwhile; what was
met before is at hand under its number as a copy, which nothing but the filling of open objects can
touch. Since no object is nested in itself, none is needed while it is open.
-/
namespace DirectiveSchema

variable {u s t t' t'' : Session} {O O' : List Value} {x y v : Value} {m n : Nat}

/-- What is needed of the body of an object for a copy to equal it. -/
def Body.Sound : Body → Prop
  | .set members =>
    (∀ m ∈ members, m.value.key? = some m.hash) ∧ (members.map Member.hash).Nodup
  | .dict entries =>
    (∀ e ∈ entries, e.key.key? = some e.hash) ∧ (entries.map Entry.hash).Nodup
  | .wrapper _ c => ∃ t, c.resolved = some t ∧ t.isNull = false
  | .argument c => c.Complete ∧ ∃ t, c.resolved = some t ∧ t.isNull = false
  | _ => True

namespace Session

/-- What is needed of a datum and of its parts for a copy to equal it: atoms, or objects that exist
and that are complete. -/
def Sound (s : Session) (v : Value) : Prop :=
  match s.body? v with
  | none => v.isAtom = true
  | some b => b.Sound

/-- Objects stay what they are, but for those that are open. -/
def Agrees (O : List Value) (t t' : Session) : Prop :=
  ∀ v b, v ∉ O → t.body? v = some b → t'.body? v = some b

namespace Agrees

theorem refl (O : List Value) (t : Session) : t.Agrees O t := fun _ _ _ body => body

theorem trans (h : t.Agrees O t') (h' : t'.Agrees O t'') : t.Agrees O t'' :=
  fun v b shut body => h' v b shut (h v b shut body)

theorem despite (h : t.Agrees [] t') (O : List Value) : t.Agrees O t' :=
  fun v b _ body => h v b List.not_mem_nil body

theorem body?_eq (h : t.Agrees [] t') (atom : t.body? v = none → v.isAtom = true) :
    t'.body? v = t.body? v := by
  cases body : t.body? v with
  | none => exact body?_of_isAtom (atom body) t'
  | some b => exact h v b List.not_mem_nil body

end Agrees

end Session

/-- A condition on data that makes them sound. What was met of a grade is of that grade with all its
parts. -/
structure Grade where
  holds : Session → Value → Prop
  isSound {s : Session} {v : Value} : holds s v → s.Sound v

/-- All data that a copy equals. -/
def Grade.sound : Grade := ⟨Session.Sound, id⟩

theorem Grade.nests {G : Grade} (h : u.Nests G.holds n v) : u.Nests Session.Sound n v :=
  h.imp fun _ => G.isSound

/-! ### Identity -/

namespace Value

theorem eq_of_sameAll {xs ys : List Value} (h : sameAll xs ys = true)
    (eq : ∀ x, ∀ y ∈ ys, x.same y = true → x = y) : xs = ys := by
  induction xs generalizing ys with
  | nil =>
    cases ys with
    | nil => rfl
    | cons y ys => simp only [sameAll, Bool.false_eq_true] at h
  | cons x xs ih =>
    cases ys with
    | nil => simp only [sameAll, Bool.false_eq_true] at h
    | cons y ys =>
      rw [sameAll, Bool.and_eq_true] at h
      rw [eq x y List.mem_cons_self h.1, ih h.2 fun a b hb => eq a b (List.mem_cons_of_mem y hb)]

/-- Data that are identical are equal, unless there are deferred types in them. -/
theorem eq_of_same (h : x.same v = true) (nests : s.Nests Session.Sound n v) : x = v := by
  induction n generalizing x v with
  | zero => cases nests
  | succ n ih =>
    obtain ⟨sound, parts⟩ := nests
    cases v with
    | tuple tag items =>
      cases x with
      | tuple tag' items' =>
        simp only [same, Bool.and_eq_true, beq_iff_eq] at h
        rw [h.1, eq_of_sameAll h.2 fun a b hb same => ih same (parts b hb)]
      | _ => cases h
    | config tag name locations args description =>
      cases x with
      | config =>
        have part {a b : Value} (hb : b ∈ [name, locations, args, description])
            (same : a.same b = true) : a = b := ih same (parts b hb)
        simp only [same, Bool.and_eq_true, beq_iff_eq] at h
        obtain ⟨⟨⟨⟨rfl, first⟩, second⟩, third⟩, fourth⟩ := h
        rw [part (by simp) first, part (by simp) second, part (by simp) third,
          part (by simp) fourth]
      | _ => cases h
    | foreign | deferred | named => cases sound
    | float f =>
      cases x with
      | float g => rw [of_decide_eq_true h]
      | _ => cases h
    | _ =>
      cases x <;> first
        | cases h; done
        | simp_all only [same, beq_iff_eq, Bool.and_eq_true]

end Value

namespace Snapshot

/-! ### Copies at hand -/

/-- A copy that lasts: whatever becomes of the open objects, it is like what was pictured. -/
def Firm (u : Session) (O : List Value) (t : Session) (x y : Value) : Prop :=
  ∀ t', t.Agrees O t' → ∀ j, u.Nests Session.Sound j y → t'.Alike j x y

/-- A session in which a picture can be restored: it has what was pictured, and the objects that
are open in it are new ones. -/
structure Ready (u : Session) (O : List Value) (t : Session) : Prop where
  agrees : u.Agrees [] t
  foreign {v : Value} : v ∈ O → u.body? v = none
  live {v : Value} : v ∈ O → (t.body? v).isSome = true

/-- Objects that were met and are nested no deeper than they may be at this place have copies under
their numbers. The objects that are open are nested deeper. -/
def AtHand (G : Grade) (u : Session) (O : List Value) (t : Session) (n : Nat) (seen : List Value)
    (table : List (Nat × Value)) : Prop :=
  ∀ k x, seen.reverse[k]? = some x → u.Nests G.holds n x →
    ∃ y, table.lookup k = some y ∧ Firm u O t y x

/-- What becomes of a session and of the copies in it while a part of a picture is restored. -/
structure Advances (u : Session) (O : List Value) (t : Session) (seen : List Value)
    (table : List (Nat × Value)) (t' : Session) (seen' : List Value)
    (table' : List (Nat × Value)) : Prop where
  agrees : t.Agrees [] t'
  kept {k : Nat} : k < seen.length → table'.lookup k = table.lookup k
  added {k : Nat} {x : Value} : seen.length ≤ k → seen'.reverse[k]? = some x →
    ∃ y, table'.lookup k = some y ∧ Firm u O t' y x

theorem Firm.agrees (h : Firm u O t x y) (agrees : t.Agrees O t') : Firm u O t' x y :=
  fun t'' later => h t'' (agrees.trans later)

theorem Ready.agrees' (h : Ready u O t) (agrees : t.Agrees [] t') : Ready u O t' where
  agrees := h.agrees.trans agrees
  foreign := h.foreign
  live {v} hv := by
    obtain ⟨b, body⟩ := Option.isSome_iff_exists.1 (h.live hv)
    rw [agrees v b List.not_mem_nil body]
    rfl

theorem AtHand.weaken {G : Grade} {seen : List Value} {table : List (Nat × Value)}
    (h : AtHand G u O t m seen table) (le : n ≤ m) : AtHand G u O t n seen table :=
  fun k x found nests => h k x found (nests.mono le)

section

variable {G : Grade} {seen seen₁ seen₂ : List Value} {table table₁ table₂ : List (Nat × Value)}

theorem reverse_append_left (new seen : List Value) {k : Nat} (h : k < seen.length) :
    (new ++ seen).reverse[k]? = seen.reverse[k]? := by
  rw [List.reverse_append, List.getElem?_append_left (by rwa [List.length_reverse])]

/-- The object that was met last has the number of those before it. -/
theorem reverse_cons_length (v : Value) (seen : List Value) :
    (v :: seen).reverse[seen.length]? = some v := by
  rw [List.reverse_cons, List.getElem?_append_right (by rw [List.length_reverse]),
    List.length_reverse, Nat.sub_self]
  rfl

theorem reverse_cons_of_lt (v : Value) (seen : List Value) {k : Nat} (h : k < seen.length) :
    (v :: seen).reverse[k]? = seen.reverse[k]? := reverse_append_left [v] seen h

theorem lt_length_of_met {k : Nat} (h : seen.reverse[k]? = some x) : k < seen.length := by
  have inside := (List.getElem?_eq_some_iff.1 h).1
  rwa [List.length_reverse] at inside

/-- What was met keeps its number when more is met. -/
theorem reverse_of_suffix {seen seen' : List Value} {k : Nat} (more : seen <:+ seen')
    (met : seen.reverse[k]? = some v) : seen'.reverse[k]? = some v := by
  obtain ⟨new, rfl⟩ := more
  exact (reverse_append_left new seen (lt_length_of_met met)).trans met

theorem lookup_of_ne {k j : Nat} (x : Value) (table : List (Nat × Value)) (h : j ≠ k) :
    List.lookup j ((k, x) :: table) = table.lookup j := by
  rw [List.lookup_cons, beq_eq_false_iff_ne.2 h]

theorem lookup_self (k : Nat) (x : Value) (table : List (Nat × Value)) :
    List.lookup k ((k, x) :: table) = some x := by
  rw [List.lookup_cons, beq_self_eq_true]

theorem Advances.atHand {new : List Value}
    (h : Advances u O t seen table t' (new ++ seen) table₁) (met : AtHand G u O t n seen table) :
    AtHand G u O t' n (new ++ seen) table₁ := by
  intro k x found nests
  rcases Nat.lt_or_ge k seen.length with old | fresh
  · rw [reverse_append_left new seen old] at found
    obtain ⟨y, held, firm⟩ := met k x found nests
    exact ⟨y, (h.kept old).trans held, firm.agrees (h.agrees.despite O)⟩
  · exact h.added fresh found

theorem Advances.trans {new new' : List Value}
    (h : Advances u O t seen table t' (new ++ seen) table₁)
    (h' : Advances u O t' (new ++ seen) table₁ t'' (new' ++ (new ++ seen)) table₂) :
    Advances u O t seen table t'' (new' ++ (new ++ seen)) table₂ where
  agrees := h.agrees.trans h'.agrees
  kept old := by
    rw [h'.kept (by rw [List.length_append]; omega), h.kept old]
  added {k x} fresh found := by
    rcases Nat.lt_or_ge k (new ++ seen).length with old | later
    · rw [reverse_append_left new' _ old] at found
      obtain ⟨y, held, firm⟩ := h.added fresh found
      exact ⟨y, (h'.kept old).trans held, firm.agrees (h'.agrees.despite O)⟩
    · exact h'.added later found

theorem Advances.refl (u : Session) (O : List Value) (t : Session) (seen : List Value)
    (table : List (Nat × Value)) : Advances u O t seen table t seen table where
  agrees := .refl [] t
  kept _ := rfl
  added fresh found := absurd (lt_length_of_met found) (Nat.not_lt_of_le fresh)

end

/-! ### Restoring step by step -/

section

variable {α β : Type} {G : Grade} {seen seen₁ seen₂ : List Value}

/-- An action that restores a part of a picture: what was met in that part is at hand afterwards,
and of the result something holds that lasts while nothing but open objects changes. -/
structure Restores (G : Grade) (u : Session) (n : Nat) (seen seen' : List Value) (act : Restoring α)
    (post : List Value → Session → α → Prop) : Prop where
  grown : ∃ new, seen' = new ++ seen ∧ ∀ x ∈ new, u.Nests G.holds n x
  run {O : List Value} {t : Session} {table : List (Nat × Value)} :
    Ready u O t → AtHand G u O t n seen table →
      ∃ a t' table', act table t = .ok (a, table') t' ∧
        Advances u O t seen table t' seen' table' ∧ post O t' a

variable {act : Restoring α} {f : α → Restoring β} {P : List Value → Session → α → Prop}
  {Q : α → List Value → Session → β → Prop}

namespace Restores

theorem pure (G : Grade) (u : Session) (n : Nat) (seen : List Value) (a : α) :
    Restores G u n seen seen (Pure.pure a) fun _ _ b => b = a where
  grown := ⟨[], rfl, fun _ hx => nomatch hx⟩
  run {O t table} _ _ := ⟨a, t, table, rfl, .refl u O t seen table, rfl⟩

theorem imp {R : List Value → Session → α → Prop} (h : Restores G u n seen seen₁ act P)
    (weaker : ∀ O t a, P O t a → R O t a) : Restores G u n seen seen₁ act R where
  grown := h.grown
  run {O t table} ready met := by
    obtain ⟨a, t', table', run, advances, post⟩ := h.run ready met
    exact ⟨a, t', table', run, advances, weaker O t' a post⟩

/-- Parts are restored one after the other. What was learned of the first is not lost. -/
theorem bind [Nonempty α] (first : Restores G u n seen seen₁ act P)
    (lasts : ∀ O t t' a, t.Agrees [] t' → P O t a → P O t' a)
    (rest : ∀ a, Restores G u n seen₁ seen₂ (f a) (Q a)) :
    Restores G u n seen seen₂ (act >>= f) fun O t b => ∃ a, P O t a ∧ Q a O t b where
  grown := by
    obtain ⟨a⟩ := ‹Nonempty α›
    obtain ⟨new, rfl, nested⟩ := first.grown
    obtain ⟨new', rfl, nested'⟩ := (rest a).grown
    refine ⟨new' ++ new, (List.append_assoc new' new seen).symm, fun x hx => ?_⟩
    exact (List.mem_append.1 hx).elim (nested' x) (nested x)
  run {O t table} ready met := by
    obtain ⟨new, rfl, nested⟩ := first.grown
    obtain ⟨a, t₁, table₁, run, advances, post⟩ := first.run ready met
    obtain ⟨new', rfl, nested'⟩ := (rest a).grown
    obtain ⟨b, t₂, table₂, run', advances', post'⟩ :=
      (rest a).run (ready.agrees' advances.agrees) (advances.atHand met)
    refine ⟨b, t₂, table₂, ?_, advances.trans advances', a, ?_, post'⟩
    · exact (Action.bind_of_ok run).trans run'
    · exact lasts O t₁ t₂ a advances'.agrees post

/-- What was restored is used without a change of the session. -/
theorem follow {R : List Value → Session → β → Prop} (first : Restores G u n seen seen₁ act P)
    (next : ∀ O t table a, P O t a → ∃ b, f a table t = .ok (b, table) t ∧ R O t b) :
    Restores G u n seen seen₁ (act >>= f) R where
  grown := first.grown
  run {O t table} ready met := by
    obtain ⟨a, t₁, table₁, run, advances, post⟩ := first.run ready met
    obtain ⟨b, run', post'⟩ := next O t₁ table₁ a post
    exact ⟨b, t₁, table₁, (Action.bind_of_ok run).trans run', advances, post'⟩

end Restores

end

/-! ### Pictures of data -/

section

variable {G : Grade} {supply : Supplier} {seen seen₁ seen₂ : List Value} {p : Snapshot}

/-- A picture that was taken of a datum after some objects were met: what it is restored to is a
copy of the datum. -/
def Depicts (G : Grade) (supply : Supplier) (u : Session) (seen : List Value) (v : Value) (p : Snapshot)
    (seen' : List Value) : Prop :=
  ∀ n, u.Nests G.holds n v →
    Restores G u n seen seen' (restoreWith supply p) fun O t x => Firm u O t x v

def DepictsAll (G : Grade) (supply : Supplier) (u : Session) (seen : List Value) (vs : List Value)
    (ps : List Snapshot) (seen' : List Value) : Prop :=
  ∀ n, (∀ v ∈ vs, u.Nests G.holds n v) →
    Restores G u n seen seen' (restoreAll supply ps) fun O t xs => List.Forall₂ (Firm u O t) xs vs

def DepictsEntries (G : Grade) (supply : Supplier) (u : Session) (seen : List Value) (es : List Entry)
    (ps : List (Snapshot × Snapshot)) (seen' : List Value) : Prop :=
  ∀ n, (∀ v ∈ es.flatMap Entry.contents, u.Nests G.holds n v) →
    Restores G u n seen seen' (restoreEntries supply ps) fun O t pairs =>
      List.Forall₂ (fun pair e => Firm u O t pair.1 e.key ∧ Firm u O t pair.2 e.value) pairs es

def DepictsPart (G : Grade) (supply : Supplier) (u : Session) (seen : List Value) (v : Option Value)
    (p : Option Snapshot) (seen' : List Value) : Prop :=
  ∀ n, (∀ x ∈ v.toList, u.Nests G.holds n x) →
    Restores G u n seen seen' (restorePart supply p) fun O t x =>
      List.Forall₂ (Firm u O t) x.toList v.toList

def DepictsAttributes (G : Grade) (supply : Supplier) (u : Session) (seen : List Value) (as : Attributes)
    (ps : List (String × Snapshot)) (seen' : List Value) : Prop :=
  ∀ n, (∀ x ∈ as.contents, u.Nests G.holds n x) →
    Restores G u n seen seen' (restoreAttributes supply ps) fun O t bs =>
      List.Forall₂ (Firm u O t) bs.contents as.contents

theorem firm_lasts (v : Value) (O : List Value) (t t' : Session) (x : Value)
    (agrees : t.Agrees [] t') (h : Firm u O t x v) : Firm u O t' x v :=
  h.agrees (agrees.despite O)

theorem firmAll_lasts (vs : List Value) (O : List Value) (t t' : Session) (xs : List Value)
    (agrees : t.Agrees [] t') (h : List.Forall₂ (Firm u O t) xs vs) :
    List.Forall₂ (Firm u O t') xs vs :=
  h.imp fun _ _ firm => firm.agrees (agrees.despite O)

theorem depictsAll_nil (seen : List Value) : DepictsAll G supply u seen [] [] seen :=
  fun n _ => (Restores.pure G u n seen []).imp fun _ _ _ same => same.symm ▸ .nil

theorem depictsAll_cons {vs : List Value} {ps : List Snapshot}
    (first : Depicts G supply u seen v p seen₁) (rest : DepictsAll G supply u seen₁ vs ps seen₂) :
    DepictsAll G supply u seen (v :: vs) (p :: ps) seen₂ := by
  intro n nests
  have head := first n (nests v List.mem_cons_self)
  have tail := rest n fun x hx => nests x (List.mem_cons_of_mem v hx)
  refine (head.bind (firm_lasts v) fun x => tail.follow
    (R := fun O t xs => ∃ ys, xs = x :: ys ∧ List.Forall₂ (Firm u O t) ys vs) ?_).imp ?_
  · exact fun O t table ys firm => ⟨x :: ys, rfl, ys, rfl, firm⟩
  · rintro O t xs ⟨x, firm, ys, rfl, firms⟩
    exact .cons firm firms

theorem depictsEntries_nil (seen : List Value) : DepictsEntries G supply u seen [] [] seen :=
  fun n _ => (Restores.pure G u n seen []).imp fun _ _ _ same => same.symm ▸ .nil

theorem depictsEntries_cons {e : Entry} {es : List Entry} {p' : Snapshot}
    {ps : List (Snapshot × Snapshot)} {seen₃ : List Value}
    (key : Depicts G supply u seen e.key p seen₁) (value : Depicts G supply u seen₁ e.value p' seen₂)
    (rest : DepictsEntries G supply u seen₂ es ps seen₃) :
    DepictsEntries G supply u seen (e :: es) ((p, p') :: ps) seen₃ := by
  intro n nests
  have first := key n (nests e.key (by simp [Entry.contents]))
  have second := value n (nests e.value (by simp [Entry.contents]))
  have tail := rest n fun x hx => nests x (List.mem_append_right _ hx)
  refine (first.bind (firm_lasts e.key) fun x => second.bind (firm_lasts e.value) fun y =>
    tail.follow (R := fun O t xs => ∃ ys, xs = (x, y) :: ys ∧ List.Forall₂
      (fun pair e => Firm u O t pair.1 e.key ∧ Firm u O t pair.2 e.value) ys es) ?_).imp ?_
  · exact fun O t table ys firm => ⟨(x, y) :: ys, rfl, ys, rfl, firm⟩
  · rintro O t xs ⟨x, firm, y, firm', ys, rfl, firms⟩
    exact .cons ⟨firm, firm'⟩ firms

theorem depictsPart_none (seen : List Value) : DepictsPart G supply u seen none none seen :=
  fun n _ => (Restores.pure G u n seen none).imp fun _ _ _ same => same.symm ▸ .nil

theorem depictsPart_some (h : Depicts G supply u seen v p seen₁) :
    DepictsPart G supply u seen (some v) (some p) seen₁ := by
  intro n nests
  refine (h n (nests v (by simp))).follow fun O t table x firm => ⟨some x, rfl, ?_⟩
  exact .cons firm .nil

theorem depictsAttributes_nil (seen : List Value) : DepictsAttributes G supply u seen [] [] seen :=
  fun n _ => (Restores.pure G u n seen []).imp fun _ _ _ same => same.symm ▸ .nil

theorem depictsAttributes_cons {key : String} {as : Attributes} {ps : List (String × Snapshot)}
    (first : Depicts G supply u seen v p seen₁)
    (rest : DepictsAttributes G supply u seen₁ as ps seen₂) :
    DepictsAttributes G supply u seen ((key, v) :: as) ((key, p) :: ps) seen₂ := by
  intro n nests
  have head := first n (nests v List.mem_cons_self)
  have tail := rest n fun x hx => nests x (List.mem_cons_of_mem v hx)
  refine (head.bind (firm_lasts v) fun x => tail.follow
    (R := fun O t bs => ∃ cs : Attributes, bs = (key, x) :: cs ∧
      List.Forall₂ (Firm u O t) cs.contents as.contents) ?_).imp ?_
  · exact fun O t table cs firm => ⟨(key, x) :: cs, rfl, cs, rfl, firm⟩
  · rintro O t bs ⟨x, firm, cs, rfl, firms⟩
    exact .cons firm firms

end

end Snapshot

end DirectiveSchema
