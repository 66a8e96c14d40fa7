import DirectiveSchema.Proofs.Equivalence
import Mathlib.Data.Set.Card

/-!
Hash keys are seen in shapes. A definite datum either has a hash key, and the same one from then on,
or it holds a container and is refused each time; which of the two and what key it is can be read
off its shape. So data that are equal hash alike, and a set keeps one element of each class of equal
data.
-/
namespace DirectiveSchema

open Equality

variable {s s' u : Session} {a b x y v : Value} {n N : Nat} {o : Option HashKey}

/-! ### The key of a shape -/

/-- The key of a datum without parts; an object is not seen through. -/
def Face.key? : Face → Option HashKey
  | .plain key => some key
  | .foreign tag _ | .deferred tag => some (.tagged tag)
  | .object _ _ _ => none

/-- The key of a surface over the keys of its parts. -/
def Layer.key? : Layer (Option HashKey) → Option HashKey
  | .atom face => face.key?
  | .row items => (items.mapM id).map HashKey.row
  | .wrapper w type => type.map fun k => .row [.wrapper w, k]
  | .argument name type _ _ _ => name.bind fun k => type.map fun l => .row [k, l]
  | .directive name _ locations _ => name.bind fun k => locations.map fun l => .row [k, l]
  | .list _ | .set _ | .dict _ => none

/-- Parts that have keys keep them where other keys come in. -/
theorem Layer.key?_mono {f g : Value → Option HashKey} {l : Layer Value} {k : HashKey}
    (more : ∀ {x k}, f x = some k → g x = some k) (h : (l.map f).key? = some k) :
    (l.map g).key? = some k := by
  cases l with
  | atom => exact h
  | list | set | dict => cases h
  | row items =>
    simp only [Layer.map, Layer.key?, List.mapM_map, Option.map_eq_some_iff] at h ⊢
    obtain ⟨keys, found, rfl⟩ := h
    refine ⟨keys, ?_, rfl⟩
    induction items generalizing keys with
    | nil => exact found
    | cons x items ih =>
      simp only [List.mapM_cons, Option.bind_eq_bind, Option.bind_eq_some_iff] at found ⊢
      obtain ⟨k, first, ks, rest, all⟩ := found
      exact ⟨k, more first, ks, ih ks rest, all⟩
  | wrapper w type =>
    simp only [Layer.map, Layer.key?, Option.map_eq_some_iff] at h ⊢
    obtain ⟨k, found, rfl⟩ := h
    exact ⟨k, more found, rfl⟩
  | argument name type | directive name description locations =>
    simp only [Layer.map, Layer.key?, Option.bind_eq_some_iff, Option.map_eq_some_iff] at h ⊢
    obtain ⟨k, found, k', found', rfl⟩ := h
    exact ⟨k, more found, k', more found', rfl⟩

def Shape.key? : (n : Nat) → Shape n → Option HashKey
  | 0, _ => none
  | n + 1, l => (Layer.map (Shape.key? n) l).key?

/-- The key of a datum as far as it is seen down to a depth. -/
def Session.key? (s : Session) (n : Nat) (v : Value) : Option HashKey := Shape.key? n (s.shape n v)

namespace Session

theorem key?_of_shape (h : s.shape n x = s.shape n y) : s.key? n x = s.key? n y :=
  congrArg (Shape.key? n) h

theorem key?_of_layer? {l : Layer Value} (h : s.layer? v = some l) :
    s.key? (n + 1) v = (l.map (s.key? n)).key? := by
  rw [key?, shape_of_layer? h]
  exact congrArg Layer.key? (Layer.map_map _ _ l)

theorem key?_of_unknown (h : s.layer? v = none) : s.key? (n + 1) v = v.face.key? := by
  rw [key?, shape, layer_of_none h]
  rfl

theorem key?_of_face (other : v.face.kind? = none) (single : v.row? = none) :
    s.key? (n + 1) v = v.face.key? := key?_of_unknown (layer?_of_kind? other single)

/-- A key remains once it is known. -/
theorem Extends.key? {k : HashKey} (h : s.Extends u) (known : s.key? n v = some k) :
    u.key? n v = some k := by
  induction n generalizing v k with
  | zero => cases known
  | succ n ih =>
    cases surface : s.layer? v with
    | some l =>
      rw [key?_of_layer? surface] at known
      rw [key?_of_layer? (h.layer? surface)]
      exact Layer.key?_mono ih known
    | none =>
      rw [key?_of_unknown surface] at known
      have other : v.face.kind? = none := by
        cases face : v.face with
        | object =>
          rw [face] at known
          cases known
        | _ => rfl
      have single : v.row? = none := by
        cases row : v.row? with
        | none => rfl
        | some items =>
          rw [layer?_of_row row] at surface
          cases surface
      rw [key?_of_face other single, known]


end Session

/-! ### Hashing -/

/-- An action ends: it returns something, or it meets what cannot be hashed. -/
inductive Action.Ends {α : Type} (act : Action α) (s : Session) : Option α → Session → Prop where
  | returns {a : α} {u : Session} : act s = .ok a u → act.Ends s (some a) u
  | refuses {className : String} {u : Session} :
      act s = .error (.unhashable className) u → act.Ends s none u

/-- An action ends, and how it does can be seen from then on. -/
def Reveals {α : Type} (s : Session) (act : Action α) (f : Session → Option α) : Prop :=
  ∃ o u, act.Ends s o u ∧ s.Leads u ∧ ∀ t, u.Leads t → f t = o

namespace Reveals

variable {α β : Type} {act : Action α} {f g : Session → Option α}

theorem congr (h : Reveals s act f) (same : ∀ t, s.Leads t → g t = f t) : Reveals s act g := by
  obtain ⟨o, u, ends, leads, seen⟩ := h
  exact ⟨o, u, ends, leads, fun t later => (same t (leads.trans later)).trans (seen t later)⟩

theorem pure {a : α} (h : ∀ t, s.Leads t → f t = some a) : Reveals s (pure a) f :=
  ⟨some a, s, .returns rfl, .refl, h⟩

theorem refuse {className : String} (h : ∀ t, s.Leads t → f t = none) :
    Reveals s (throw (.unhashable className)) f :=
  ⟨none, s, .refuses rfl, .refl, h⟩

theorem after {x : Action β} {rest : β → Action α} {b : β} (run : x s = .ok b u)
    (leads : s.Leads u) (h : Reveals u (rest b) f) : Reveals s (x >>= rest) f := by
  obtain ⟨o, t, ends, more, seen⟩ := h
  refine ⟨o, t, ?_, leads.trans more, seen⟩
  cases ends with
  | returns next => exact .returns ((Action.bind_of_ok run).trans next)
  | refuses next => exact .refuses ((Action.bind_of_ok run).trans next)

/-- What follows an action is seen with it. -/
theorem bind {rest : α → Action β} {g : Session → α → Option β} (h : Reveals s act f)
    (h' : ∀ a u, s.Leads u → Reveals u (rest a) fun t => g t a) :
    Reveals s (act >>= rest) fun t => (f t).bind (g t) := by
  obtain ⟨o, u, ends, leads, seen⟩ := h
  cases ends with
  | returns run =>
    refine after run leads ((h' _ u leads).congr fun t later => ?_)
    simp only [seen t later, Option.bind_some]
  | refuses run =>
    refine ⟨none, u, .refuses (Action.bind_of_error run), leads, fun t later => ?_⟩
    simp only [seen t later, Option.bind_none]

theorem mapM {act : β → Action α} {f : Session → β → Option α} {bs : List β}
    (h : ∀ b ∈ bs, ∀ u, s.Leads u → Reveals u (act b) fun t => f t b) :
    Reveals s (bs.mapM act) fun t => bs.mapM (f t) := by
  induction bs generalizing s with
  | nil => exact pure fun _ _ => rfl
  | cons b bs ih =>
    simp only [List.mapM_cons]
    refine (h b List.mem_cons_self s .refl).bind fun a u leads => ?_
    refine (ih fun c hc t later => h c (List.mem_cons_of_mem b hc) t (leads.trans later)).bind
      fun as t more => ?_
    exact pure fun _ _ => rfl

end Reveals

namespace Session

/-- A row of definite data has the key of the row of their keys. -/
theorem Definite.rowHashes {items : List Value} (h : Definite (n + 1) s v)
    (row : v.row? = some items)
    (parts : ∀ {x u}, Definite n u x →
      Reveals u (HashKey.ofWithin Deferred.supplier N x) fun t => t.key? n x) :
    Reveals s (do return HashKey.row (← items.mapM (HashKey.ofWithin Deferred.supplier N)))
      fun t => t.key? (n + 1) v := by
  have keys : Reveals s (items.mapM (HashKey.ofWithin Deferred.supplier N)) fun t =>
      items.mapM (t.key? n) :=
    .mapM fun x hx u later => parts (h.part later (layer?_of_row row) hx)
  refine (keys.bind fun keys u _ => Reveals.pure fun _ _ => rfl).congr fun t _ => ?_
  rw [key?_of_layer? (layer?_of_row row), Layer.map, Layer.key?, List.mapM_map, Option.map_eq_bind]
  rfl

theorem pairHashes {key : Value → Action HashKey}
    (hx : Reveals s (key x) fun t => t.key? n x)
    (hy : ∀ u, s.Leads u → Reveals u (key y) fun t => t.key? n y) :
    Reveals s (do
      let k ← key x
      return HashKey.row [k, ← key y]) fun t =>
      (t.key? n x).bind fun k => (t.key? n y).map fun l => .row [k, l] := by
  refine hx.bind fun k u later => ?_
  refine ((hy u later).bind fun l u' _ => Reveals.pure fun _ _ => rfl).congr fun t _ => ?_
  exact Option.map_eq_bind

/-- A definite datum has the key that its shape has. -/
theorem Definite.hashes (h : Definite n s v) (enough : n ≤ N) :
    Reveals s (HashKey.ofWithin Deferred.supplier N v) fun t => t.key? n v := by
  induction n generalizing s v N with
  | zero => cases h
  | succ n ih =>
    obtain ⟨M, rfl⟩ : ∃ M, N = M + 1 := ⟨N - 1, by omega⟩
    have part {x : Value} {u : Session} (definite : Definite n u x) :=
      ih definite (Nat.le_of_succ_le_succ enough)
    -- A container has a surface of its own, which has no key.
    have refused {l : Layer Value} (surface : s.layer? v = some l)
        (none : ∀ f : Value → Option HashKey, (l.map f).key? = none) :
        Reveals s (throw (.unhashable v.className) : Action HashKey) fun t => t.key? (n + 1) v :=
      .refuse fun t later => (key?_of_layer? (later.extends.layer? surface)).trans (none _)
    cases v with
    | tuple | config => exact h.rowHashes rfl part
    | wrapper w r =>
      obtain ⟨t, u, run, leads, surface⟩ := h.opens.wrapped
      refine .after run leads ?_
      have keyed := part (h.part leads surface (by simp [Layer.parts] : t ∈ _))
      refine (keyed.bind fun k u' _ => Reveals.pure fun _ _ => rfl).congr fun t' later => ?_
      rw [key?_of_layer? (later.extends.layer? surface), Layer.map, Layer.key?, Option.map_eq_bind]
      rfl
    | argument q =>
      obtain ⟨name, t, u, named, typed, leads, description, hasDefault, -, -, surface⟩ :=
        h.opens.typed
      have under {x : Value} {u' : Session} (more : u.Leads u') (hx : x ∈ Layer.parts _) :=
        part (h.part (leads.trans more) (more.extends.layer? surface) hx)
      refine .after named .refl (.after typed leads ?_)
      refine (pairHashes (under .refl ?_) fun u' more => under more ?_).congr fun t' later => ?_
      · simp [Layer.parts]
      · simp [Layer.parts]
      · rw [key?_of_layer? (later.extends.layer? surface)]
        rfl
    | directive r =>
      have surface := layer?_of_body (body?_directive (h.opens.live rfl))
      have under {x : Value} {u : Session} (later : s.Leads u) (hx : x ∈ Layer.parts _) :=
        part (h.part later (later.extends.layer? surface) hx)
      refine .after (b := s) rfl .refl ?_
      refine (pairHashes (under .refl ?_) fun u more => under more ?_).congr fun t' later => ?_
      · simp [Layer.parts]
      · simp [Layer.parts]
      · rw [key?_of_layer? (later.extends.layer? surface)]
        rfl
    | list r => exact refused (layer?_of_body (body?_list (h.opens.live rfl))) fun _ => rfl
    | set r => exact refused (layer?_of_body (body?_set (h.opens.live rfl))) fun _ => rfl
    | dict r => exact refused (layer?_of_body (body?_dict (h.opens.live rfl))) fun _ => rfl
    | _ => exact .pure fun t _ => key?_of_face rfl rfl

/-- From a session on, a datum has the given hash key, or it is refused each time. -/
def Hashes (s : Session) (v : Value) (o : Option HashKey) : Prop :=
  ∀ u, s.Leads u → ∃ u', (HashKey.of Deferred.supplier v).Ends u o u'

theorem Definite.hash (h : Definite n s v) (room : n ≤ s.limit) :
    Reveals s (HashKey.of Deferred.supplier v) fun t => t.key? n v := by
  obtain ⟨o, u, ends, leads, seen⟩ :=
    h.hashes (Nat.le_trans room ((Extends.refl s).limit_le v.depth))
  refine ⟨o, u, ?_, leads, seen⟩
  cases ends with
  | returns run => exact .returns run
  | refuses run => exact .refuses run

/-- What the key of a datum is from now on can be found out each time. -/
theorem Definite.hashes_of_key? (h : Definite n s v) (room : n ≤ s.limit)
    (seen : ∀ t, s.Leads t → t.key? n v = o) : s.Hashes v o := by
  intro u later
  obtain ⟨o', u', ends, leads, seen'⟩ := (h.later later).hash (limit_mono later room)
  obtain rfl : o' = o := (seen' u' .refl).symm.trans (seen u' (later.trans leads))
  exact ⟨u', ends⟩

/-- What has a key by now hashes. -/
theorem Definite.answers {k : HashKey} (h : Definite n s v) (room : n ≤ s.limit)
    (known : s.key? n v = some k) : Answers s (HashKey.of Deferred.supplier v) := by
  intro s' later
  obtain ⟨o, u, ends, leads, seen⟩ := (h.later later).hash (limit_mono later room)
  have since : s.Leads u := later.trans leads
  obtain rfl : o = some k := (seen u .refl).symm.trans (since.extends.key? known)
  cases ends with
  | returns run => exact ⟨k, u, run⟩

/-- Once data were found equal, hashing one of them tells how both hash from then on. -/
theorem Proper.hashes (ha : s.Proper a) (hb : s.Proper b)
    (run : equal Deferred.supplier a b s = .ok true u) {t : Session} (later : u.Leads t) :
    ∃ o t', (HashKey.of Deferred.supplier a).Ends t o t' ∧ t.Leads t' ∧ t'.Hashes a o ∧
      t'.Hashes b o := by
  obtain ⟨n, room, left, right⟩ := ha.both hb
  obtain ⟨answer, u', again, leads, decided⟩ := left.equals right room
  rw [run] at again
  cases again
  have since : s.Leads t := leads.trans later
  obtain ⟨o, t', ends, more, seen⟩ := (left.later since).hash (limit_mono since room)
  have near : s.Leads t' := since.trans more
  refine ⟨o, t', ends, more, (left.later near).hashes_of_key? (limit_mono near room) seen,
    (right.later near).hashes_of_key? (limit_mono near room) fun t'' later' => ?_⟩
  have same := (decided t'' (later.trans (more.trans later'))).1 rfl
  exact (key?_of_shape same).symm.trans (seen t'' later')

/-! ### Sets -/

/-- The classes of equal data among some. -/
def classes (s : Session) (items : List Value) : Set (Set Value) :=
  {c | ∃ x ∈ items, c = {y | y ∈ items ∧ s.Verdict x y true}}

/-- Each two of some data are always equal from a session on, or they never are. -/
def Settles (s : Session) (items : List Value) : Prop :=
  ∀ x ∈ items, ∀ y ∈ items, s.Verdict x y true ∨ s.Verdict x y false

/-- Elements that stand for data: each is one of them, with its hash key, and each of the data has
the shape of just one element. -/
structure Represents (s : Session) (n : Nat) (items : List Value) (ms : List Member) : Prop where
  among : ∀ m ∈ ms, m.value ∈ items
  hashed : ∀ m ∈ ms, ∀ t, s.Leads t → t.key? n m.value = some m.hash
  apart : ∀ t, s.Leads t → (ms.map fun m => t.shape n m.value).Nodup
  every : ∀ x ∈ items, ∃ m ∈ ms, s.shape n x = s.shape n m.value

namespace Represents

variable {items rest : List Value} {ms : List Member} {t : Session}

theorem later (h : s.Represents n items ms) (leads : s.Leads u) : u.Represents n items ms where
  among := h.among
  hashed m hm t later := h.hashed m hm t (leads.trans later)
  apart t later := h.apart t (leads.trans later)
  every x hx := by
    obtain ⟨m, hm, same⟩ := h.every x hx
    exact ⟨m, hm, leads.extends.shape same⟩

/-- A definite datum that hashes is represented after it was added. -/
theorem add (h : s.Represents n items ms) (definite : ∀ x ∈ items, Definite n s x)
    (hv : Definite n s v) (room : n ≤ s.limit)
    (hashable : Answers s (HashKey.of Deferred.supplier v)) :
    ∃ ms' u, Container.addMember Deferred.supplier ms v s = .ok ms' u ∧ s.Leads u ∧
      u.Represents n (items ++ [v]) ms' := by
  obtain ⟨o, u, ends, leads, seen⟩ := hv.hash room
  obtain ⟨k, u₁, hashed⟩ := hashable s .refl
  cases ends with
  | refuses refused =>
    rw [hashed] at refused
    cases refused
  | returns run =>
    rw [hashed] at run
    cases run
    have compares : ∀ m ∈ ms, Compares (element (equal Deferred.supplier))
        (fun u => u.shape n) u m.value v := fun m hm => by
      refine Compares.element (fun t later => ?_) fun _ => shape_of_same
      have since := leads.trans later
      exact ((definite _ (h.among m hm)).later since).equals (hv.later since)
        (limit_mono since room)
    obtain ⟨found, u', searched, leads', answer⟩ := holds_decides (m := ⟨k, v⟩) compares
    have kept := h.later (leads.trans leads')
    have added : Container.addMember Deferred.supplier ms v s =
        .ok (if found then ms else ms ++ [⟨k, v⟩]) u' := by
      rw [Container.addMember, Action.bind_of_ok hashed, Action.bind_of_ok searched]
      cases found <;> rfl
    refine ⟨_, u', added, leads.trans leads', ?_⟩
    cases found with
    | true =>
      refine ⟨fun m hm => List.mem_append_left _ (kept.among m hm), kept.hashed, kept.apart,
        fun x hx => ?_⟩
      rcases List.mem_append.1 hx with hx | hx
      · exact kept.every x hx
      · obtain ⟨m, hm, -, same⟩ := (answer u' .refl).1 rfl
        exact ⟨m, hm, List.mem_singleton.1 hx ▸ same.symm⟩
    | false =>
      have key : ∀ t, u'.Leads t → t.key? n v = some k := fun t later => seen t (leads'.trans later)
      have fresh : ∀ m ∈ ms, ∀ t, u'.Leads t → t.shape n m.value ≠ t.shape n v := by
        intro m hm t later same
        have keys := (kept.hashed m hm t later).symm.trans
          ((key?_of_shape same).trans (key t later))
        have hit := (answer t later).2 ⟨m, hm, Option.some.inj keys, same⟩
        cases hit
      refine ⟨fun m hm => ?_, fun m hm => ?_, fun t later => ?_, fun x hx => ?_⟩
      · rcases List.mem_append.1 hm with hm | hm
        · exact List.mem_append_left _ (kept.among m hm)
        · rw [List.mem_singleton.1 hm]
          exact List.mem_append_right _ List.mem_cons_self
      · rcases List.mem_append.1 hm with hm | hm
        · exact kept.hashed m hm
        · rw [List.mem_singleton.1 hm]
          exact key
      · rw [if_neg Bool.false_ne_true, List.map_append, List.nodup_append_comm]
        refine List.nodup_cons.2 ⟨fun among => ?_, kept.apart t later⟩
        obtain ⟨m, hm, same⟩ := List.mem_map.1 among
        exact fresh m hm t later same
      · rcases List.mem_append.1 hx with hx | hx
        · obtain ⟨m, hm, same⟩ := kept.every x hx
          exact ⟨m, List.mem_append_left _ hm, same⟩
        · exact ⟨⟨k, v⟩, List.mem_append_right _ List.mem_cons_self, by
            rw [List.mem_singleton.1 hx]⟩

/-- The items that follow are represented after they were added one after the other. -/
theorem addAll (h : s.Represents n items ms) (definite : ∀ x ∈ items ++ rest, Definite n s x)
    (room : n ≤ s.limit)
    (hashable : ∀ x ∈ rest, Answers s (HashKey.of Deferred.supplier x)) :
    ∃ ms' u, rest.foldlM (Container.addMember Deferred.supplier) ms s = .ok ms' u ∧ s.Leads u ∧
      u.Represents n (items ++ rest) ms' := by
  induction rest generalizing s items ms with
  | nil => exact ⟨ms, s, rfl, .refl, (List.append_nil items).symm ▸ h⟩
  | cons v rest ih =>
    obtain ⟨ms₁, u, added, leads, first⟩ := h.add
      (fun x hx => definite x (List.mem_append_left _ hx))
      (definite v (List.mem_append_right _ List.mem_cons_self)) room
      (hashable v List.mem_cons_self)
    have split : items ++ v :: rest = (items ++ [v]) ++ rest := by simp
    obtain ⟨ms', u', run, more, all⟩ := ih first
      (fun x hx => (definite x (split ▸ hx)).later leads) (limit_mono leads room)
      fun x hx => (hashable x (List.mem_cons_of_mem _ hx)).later leads
    refine ⟨ms', u', ?_, leads.trans more, split ▸ all⟩
    rw [List.foldlM_cons, Action.bind_of_ok added, run]

/-- Whether represented data have one shape does not change any more. -/
theorem shape_iff (h : s.Represents n items ms) (leads : s.Leads t) (hx : x ∈ items)
    (hy : y ∈ items) : t.shape n x = t.shape n y ↔ s.shape n x = s.shape n y := by
  constructor
  · intro same
    obtain ⟨m, hm, left⟩ := h.every x hx
    obtain ⟨k, hk, right⟩ := h.every y hy
    have joined : t.shape n m.value = t.shape n k.value :=
      (leads.extends.shape left).symm.trans (same.trans (leads.extends.shape right))
    obtain rfl : m = k := List.inj_on_of_nodup_map (h.apart t leads) hm hk joined
    exact left.trans right.symm
  · exact leads.extends.shape

/-- Represented data are equal from now on when they have one shape, and else they never are. -/
theorem verdict_iff (h : s.Represents n items ms) (definite : ∀ x ∈ items, Definite n s x)
    (room : n ≤ s.limit) (hx : x ∈ items) (hy : y ∈ items) {answer : Bool} :
    s.Verdict x y answer ↔ (answer = true ↔ s.shape n x = s.shape n y) := by
  constructor
  · intro verdict
    obtain ⟨again, u, run, leads, decided⟩ := (definite x hx).equals (definite y hy) room
    obtain ⟨u', run'⟩ := verdict s .refl
    rw [run] at run'
    cases run'
    exact (decided u .refl).trans (h.shape_iff leads hx hy)
  · exact fun same => (definite x hx).verdict (definite y hy) room fun t later =>
      same.trans (h.shape_iff later hx hy).symm

theorem settled (h : s.Represents n items ms) (definite : ∀ x ∈ items, Definite n s x)
    (room : n ≤ s.limit) (hx : x ∈ items) (hy : y ∈ items) :
    s.Verdict x y true ∨ s.Verdict x y false := by
  rw [h.verdict_iff definite room hx hy, h.verdict_iff definite room hx hy]
  simp [em]

end Represents

end Session

/-! ### The law of hashing -/

end DirectiveSchema
