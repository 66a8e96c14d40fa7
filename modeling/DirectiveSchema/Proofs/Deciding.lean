import DirectiveSchema.Proofs.Shape

/-!
Tests that decide. A comparison may resolve types on its way, so what it tells is a fact about the
sessions that follow it: it answers, and from then on its answer says whether two data look alike.
Comparisons of parts that decide whether the parts look alike make up a comparison of the whole that
does; for sets and dictionaries this takes that nothing occurs in them twice.
-/
namespace DirectiveSchema

open Equality

variable {s s' u : Session} {x y : Value} {P Q : Session → Prop}

/-- A test that answers, and whose answer says from then on whether a condition holds. -/
def Decides (s : Session) (act : Action Bool) (P : Session → Prop) : Prop :=
  ∃ b s', act s = .ok b s' ∧ s.Leads s' ∧ ∀ u, s'.Leads u → (b = true ↔ P u)

namespace Decides

variable {act rest : Action Bool}

theorem iff (h : Decides s act P) (same : ∀ u, s.Leads u → (P u ↔ Q u)) : Decides s act Q := by
  obtain ⟨b, s', run, leads, answer⟩ := h
  exact ⟨b, s', run, leads, fun u later => (answer u later).trans (same u (leads.trans later))⟩

theorem yes (h : ∀ u, s.Leads u → P u) : Decides s (pure true) P :=
  ⟨true, s, rfl, .refl, fun u later => ⟨fun _ => h u later, fun _ => rfl⟩⟩

theorem no (h : ∀ u, s.Leads u → ¬P u) : Decides s (pure false) P :=
  ⟨false, s, rfl, .refl, fun u later => ⟨Bool.noConfusion, fun holds => (h u later holds).elim⟩⟩

/-- What is decided after a step. -/
theorem after {α : Type} {x : Action α} {f : α → Action Bool} {a : α} (run : x s = .ok a s')
    (leads : s.Leads s') (h : Decides s' (f a) P) : Decides s (x >>= f) P := by
  obtain ⟨b, t, next, more, answer⟩ := h
  exact ⟨b, t, (Action.bind_of_ok run).trans next, leads.trans more, answer⟩

/-- Both of two conditions, of which the second one is looked at when the first one holds. -/
theorem both (h : Decides s act P) (h' : ∀ s', s.Leads s' → Decides s' rest Q) :
    Decides s (do if ← act then rest else pure false) fun u => P u ∧ Q u := by
  obtain ⟨b, s', run, leads, answer⟩ := h
  refine after run leads ?_
  cases b with
  | false =>
    exact no fun u later holds => by cases (answer u later).2 holds.1
  | true =>
    exact (h' s' leads).iff fun u later => (and_iff_right ((answer u later).1 rfl)).symm

/-- One of two conditions, of which the second one is looked at when the first one fails. -/
theorem either (h : Decides s act P) (h' : ∀ s', s.Leads s' → Decides s' rest Q) :
    Decides s (do if ← act then pure true else rest) fun u => P u ∨ Q u := by
  obtain ⟨b, s', run, leads, answer⟩ := h
  refine after run leads ?_
  cases b with
  | true => exact yes fun u later => .inl ((answer u later).1 rfl)
  | false =>
    refine (h' s' leads).iff fun u later => (or_iff_right fun holds => ?_).symm
    cases (answer u later).2 holds

end Decides

/-! ### Comparing parts -/

section

variable {γ : Type} {eq : Value → Value → Action Bool} {f : Session → Value → γ}

/-- Two data are compared by what is seen of them, whatever was observed before. -/
def Compares (eq : Value → Value → Action Bool) (f : Session → Value → γ) (s : Session)
    (x y : Value) : Prop :=
  ∀ s', s.Leads s' → Decides s' (eq x y) fun u => f u x = f u y

theorem Compares.later (h : Compares eq f s x y) (leads : s.Leads s') : Compares eq f s' x y :=
  fun _ later => h _ (leads.trans later)

/-- Identical elements are not compared any further. -/
theorem Compares.element (h : Compares eq f s x y)
    (same : ∀ u, x.same y = true → f u x = f u y) : Compares (element eq) f s x y := by
  intro s' later
  unfold Equality.element
  split
  · next identical => exact .yes fun u _ => same u identical
  · exact h s' later

theorem rows_decides {xs ys : List Value}
    (h : ∀ x ∈ xs, ∀ y ∈ ys, Compares (element eq) f s x y) :
    Decides s (rows eq xs ys) fun u => xs.map (f u) = ys.map (f u) := by
  induction xs generalizing s ys with
  | nil =>
    cases ys with
    | nil => exact .yes fun _ _ => rfl
    | cons y ys => exact .no fun _ _ => by simp
  | cons x xs ih =>
    cases ys with
    | nil => exact .no fun _ _ => by simp
    | cons y ys =>
      have first := h x List.mem_cons_self y List.mem_cons_self s .refl
      refine (first.both fun s' later => ?_).iff fun u _ => by
        rw [List.map_cons, List.map_cons, List.cons.injEq]
      exact ih fun x' hx y' hy =>
        (h x' (List.mem_cons_of_mem _ hx) y' (List.mem_cons_of_mem _ hy)).later later

theorem hit_decides (kept hash : HashKey) (h : Compares (element eq) f s x y) :
    Decides s (hit eq kept x hash y) fun u => kept = hash ∧ f u x = f u y := by
  unfold Equality.hit
  split
  · next same => exact (h s .refl).iff fun u _ => (and_iff_right same).symm
  · next apart => exact .no fun u _ holds => apart holds.1

theorem holds_decides {m : Member} {ms : List Member}
    (h : ∀ k ∈ ms, Compares (element eq) f s k.value m.value) :
    Decides s (holds eq m ms) fun u =>
      ∃ k ∈ ms, k.hash = m.hash ∧ f u k.value = f u m.value := by
  induction ms generalizing s with
  | nil => exact .no fun _ _ => by simp
  | cons k ms ih =>
    have first := hit_decides k.hash m.hash (h k List.mem_cons_self)
    refine (first.either fun s' later => ih fun k' hk =>
      (h k' (List.mem_cons_of_mem _ hk)).later later).iff fun u _ => ?_
    rw [List.exists_mem_cons_iff]

theorem subset_decides {ms others : List Member}
    (h : ∀ m ∈ ms, ∀ k ∈ others, Compares (element eq) f s k.value m.value) :
    Decides s (subset eq others ms) fun u =>
      ∀ m ∈ ms, ∃ k ∈ others, k.hash = m.hash ∧ f u k.value = f u m.value := by
  induction ms generalizing s with
  | nil => exact .yes fun _ _ => by simp
  | cons m ms ih =>
    have first := holds_decides (h m List.mem_cons_self)
    refine (first.both fun s' later => ih fun m' hm k hk =>
      (h m' (List.mem_cons_of_mem _ hm) k hk).later later).iff fun u _ => ?_
    rw [List.forall_mem_cons]

/-- A look-up finds an entry whose key is the one sought, if there is one at all. -/
theorem lookup?_finds (hash : HashKey) {key : Value} {es : List Entry}
    (h : ∀ e ∈ es, Compares (element eq) f s e.key key) :
    ∃ o s', lookup? eq hash key es s = .ok o s' ∧ s.Leads s' ∧
      ((o = none ∧ ∀ u, s'.Leads u → ¬∃ e ∈ es, e.hash = hash ∧ f u e.key = f u key) ∨
        ∃ e ∈ es, o = some e.value ∧ ∀ u, s'.Leads u → e.hash = hash ∧ f u e.key = f u key) := by
  induction es generalizing s with
  | nil => exact ⟨none, s, rfl, .refl, .inl ⟨rfl, fun _ _ => by simp⟩⟩
  | cons e es ih =>
    obtain ⟨b, s', run, leads, answer⟩ := hit_decides e.hash hash (h e List.mem_cons_self)
    rw [lookup?, Action.bind_of_ok run]
    cases b with
    | true =>
      refine ⟨some e.value, s', rfl, leads, .inr ⟨e, List.mem_cons_self, rfl, fun u later => ?_⟩⟩
      exact (answer u later).1 rfl
    | false =>
      obtain ⟨o, t, next, more, found⟩ := ih fun e' he =>
        (h e' (List.mem_cons_of_mem _ he)).later leads
      refine ⟨o, t, next, leads.trans more, ?_⟩
      rcases found with ⟨none, missing⟩ | ⟨e', he, some, sought⟩
      · refine .inl ⟨none, fun u later => ?_⟩
        rw [List.exists_mem_cons_iff, not_or]
        refine ⟨fun holds => ?_, missing u later⟩
        cases (answer u (more.trans later)).2 holds
      · exact .inr ⟨e', List.mem_cons_of_mem _ he, some, sought⟩

/-- Entries are compared one after the other with those that are found under their keys, where no
key occurs twice. -/
theorem entries_decides {es others : List Entry}
    (keys : ∀ e ∈ es, ∀ k ∈ others, Compares (element eq) f s k.key e.key)
    (values : ∀ e ∈ es, ∀ k ∈ others, Compares (element eq) f s k.value e.value)
    (once : ∀ u, s.Leads u → ∀ k ∈ others, ∀ k' ∈ others, k.hash = k'.hash →
      f u k.key = f u k'.key → k = k') :
    Decides s (entries eq others es) fun u => ∀ e ∈ es, ∃ k ∈ others,
      k.hash = e.hash ∧ f u k.key = f u e.key ∧ f u k.value = f u e.value := by
  induction es generalizing s with
  | nil => exact .yes fun _ _ => by simp
  | cons e es ih =>
    obtain ⟨o, s', run, leads, found⟩ := lookup?_finds e.hash (keys e List.mem_cons_self)
    refine .after run leads ?_
    rcases found with ⟨rfl, missing⟩ | ⟨k, hk, rfl, sought⟩
    · refine .no fun u later holds => missing u later ?_
      obtain ⟨k, hk, hash, key, -⟩ := holds e List.mem_cons_self
      exact ⟨k, hk, hash, key⟩
    · have first := values e List.mem_cons_self k hk s' leads
      refine (first.both fun t later => ih
        (fun e' he k' hk' =>
          (keys e' (List.mem_cons_of_mem _ he) k' hk').later (leads.trans later))
        (fun e' he k' hk' =>
          (values e' (List.mem_cons_of_mem _ he) k' hk').later (leads.trans later))
        fun u more => once u ((leads.trans later).trans more)).iff fun u later => ?_
      rw [List.forall_mem_cons]
      refine and_congr_left' ⟨fun value => ⟨k, hk, (sought u later).1, (sought u later).2, value⟩,
        ?_⟩
      rintro ⟨k', hk', hash, key, value⟩
      obtain ⟨hash', key'⟩ := sought u later
      have same := once u (leads.trans later) k' hk' k hk (hash.trans hash'.symm)
        (key.trans key'.symm)
      exact same ▸ value

theorem defaults_decides {x y : Option Value}
    (h : ∀ a ∈ x, ∀ b ∈ y, Compares (element eq) f s a b) :
    Decides s (defaults eq x y) fun u => x.map (f u) = y.map (f u) := by
  cases x with
  | none =>
    cases y with
    | none => exact .yes fun _ _ => rfl
    | some b => exact .no fun _ _ => by simp
  | some a =>
    cases y with
    | none => exact .no fun _ _ => by simp
    | some b =>
      refine (h a rfl b rfl s .refl).iff fun u _ => ?_
      rw [Option.map_some, Option.map_some, Option.some.injEq]

theorem argumentKeys_decides {a b : ArgumentKey}
    (name : Compares (element eq) f s a.name b.name)
    (type : Compares (element eq) f s a.type b.type)
    (description : Compares (element eq) f s a.description b.description)
    (hasDefault : Compares (element eq) f s a.hasDefault b.hasDefault)
    (default : ∀ x ∈ a.default, ∀ y ∈ b.default, Compares (element eq) f s x y) :
    Decides s (argumentKeys eq a b) fun u => f u a.name = f u b.name ∧ f u a.type = f u b.type ∧
      f u a.description = f u b.description ∧ f u a.hasDefault = f u b.hasDefault ∧
        a.default.map (f u) = b.default.map (f u) := by
  refine (name s .refl).both fun s₁ h₁ => ?_
  refine (type s₁ h₁).both fun s₂ h₂ => ?_
  refine (description s₂ (h₁.trans h₂)).both fun s₃ h₃ => ?_
  refine (hasDefault s₃ ((h₁.trans h₂).trans h₃)).both fun s₄ h₄ => ?_
  exact defaults_decides fun x hx y hy =>
    (default x hx y hy).later (((h₁.trans h₂).trans h₃).trans h₄)

theorem directives_decides {a b : Directive}
    (name : Compares (element eq) f s a.name b.name)
    (description : Compares (element eq) f s a.description b.description)
    (locations : Compares (element eq) f s a.locations.value b.locations.value)
    (args : Compares (element eq) f s a.args.value b.args.value) :
    Decides s (directives eq a b) fun u => f u a.name = f u b.name ∧
      f u a.description = f u b.description ∧ f u a.locations.value = f u b.locations.value ∧
        f u a.args.value = f u b.args.value := by
  refine (name s .refl).both fun s₁ h₁ => ?_
  refine (description s₁ h₁).both fun s₂ h₂ => ?_
  refine (locations s₂ (h₁.trans h₂)).both fun s₃ h₃ => ?_
  exact args s₃ ((h₁.trans h₂).trans h₃)

/-- Distinct elements are among others, as many of them, when these are the same in another
order. -/
theorem coe_eq_coe_iff {β : Type} {xs ys : List β} (nodup : xs.Nodup)
    (length : xs.length = ys.length) : (xs : Multiset β) = ys ↔ ∀ x ∈ xs, x ∈ ys := by
  rw [Multiset.coe_eq_coe]
  constructor
  · exact fun perm x hx => perm.subset hx
  · intro sub
    exact (List.subperm_of_subset nodup sub).perm_of_length_le (Nat.le_of_eq length.symm)

theorem lists_decides {xs ys : List Value}
    (h : ∀ x ∈ xs, ∀ y ∈ ys, Compares (element eq) f s x y) :
    Decides s (if xs.length = ys.length then rows eq xs ys else pure false) fun u =>
      (Layer.list xs).map (f u) = (Layer.list ys).map (f u) := by
  simp only [Layer.map, Layer.list.injEq]
  split
  · exact rows_decides h
  · next length =>
    refine .no fun u _ same => length ?_
    simpa using congrArg List.length same

/-- Sets are compared as collections in which nothing occurs twice. -/
theorem sets_decides {ms ks : List Member}
    (h : ∀ m ∈ ms, ∀ k ∈ ks, Compares (element eq) f s k.value m.value)
    (once : ∀ u, s.Leads u → (ms.map fun m => (m.hash, f u m.value)).Nodup) :
    Decides s (if ms.length = ks.length then subset eq ks ms else pure false) fun u =>
      (Layer.set (ms.map fun m => (m.hash, m.value))).map (f u) =
        (Layer.set (ks.map fun m => (m.hash, m.value))).map (f u) := by
  simp only [Layer.map, Multiset.map_coe, List.map_map, Layer.set.injEq]
  split
  · next length =>
    refine (subset_decides h).iff fun u later => ?_
    refine Iff.symm ((coe_eq_coe_iff (once u later) (by simpa using length)).trans ?_)
    rw [List.forall_mem_map]
    simp only [List.mem_map, Function.comp_apply, Prod.mk.injEq]
  · next length =>
    refine .no fun u _ same => length ?_
    simpa using congrArg Multiset.card same

/-- Dictionaries are compared as collections of entries in which no key occurs twice. -/
theorem dicts_decides {es ks : List Entry}
    (keys : ∀ e ∈ es, ∀ k ∈ ks, Compares (element eq) f s k.key e.key)
    (values : ∀ e ∈ es, ∀ k ∈ ks, Compares (element eq) f s k.value e.value)
    (once : ∀ u, s.Leads u → (es.map fun e => (e.hash, f u e.key)).Nodup)
    (once' : ∀ u, s.Leads u → (ks.map fun e => (e.hash, f u e.key)).Nodup) :
    Decides s (if es.length = ks.length then entries eq ks es else pure false) fun u =>
      (Layer.dict (es.map fun e => (e.hash, e.key, e.value))).map (f u) =
        (Layer.dict (ks.map fun e => (e.hash, e.key, e.value))).map (f u) := by
  simp only [Layer.map, Multiset.map_coe, List.map_map, Layer.dict.injEq]
  split
  · next length =>
    have unique : ∀ u, s.Leads u → ∀ k ∈ ks, ∀ k' ∈ ks, k.hash = k'.hash →
        f u k.key = f u k'.key → k = k' := fun u later k hk k' hk' hash key =>
      List.inj_on_of_nodup_map (once' u later) hk hk' (Prod.ext hash key)
    refine (entries_decides keys values unique).iff fun u later => ?_
    have distinct : (es.map fun e => (e.hash, f u e.key, f u e.value)).Nodup := by
      refine List.Nodup.of_map (fun p => (p.1, p.2.1)) ?_
      rw [List.map_map]
      exact once u later
    refine Iff.symm ((coe_eq_coe_iff distinct (by simpa using length)).trans ?_)
    rw [List.forall_mem_map]
    simp only [List.mem_map, Function.comp_apply, Prod.mk.injEq]
  · next length =>
    refine .no fun u _ same => length ?_
    simpa using congrArg Multiset.card same

end

end DirectiveSchema
