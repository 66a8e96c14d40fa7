import DirectiveSchema.BuiltIn
import DirectiveSchema.Proofs.Keys
import DirectiveSchema.Proofs.Nesting

/-!
Likeness of data to a given nesting: they are the same datum without parts, or objects of one shape
over parts that are alike. Data that are alike are equal, and they have the same keys.
-/
namespace DirectiveSchema

variable {s s' : Session} {supply : Supplier} {x y v : Value} {m n : Nat}

/-- Whether a datum has no parts and is equal to itself in any copy. -/
def Value.isAtom : Value → Bool
  | .null | .unnamed | .bool _ | .int _ | .text _ | .bytes _ | .location _ => true
  | .float x => !x.isNaN
  | .scalar r => BuiltIn.isScalar r
  | _ => false

theorem Session.body?_of_isAtom (h : v.isAtom = true) (s : Session) : s.body? v = none := by
  cases v <;> first | rfl | cases h

/-- Without parts, a datum is nested as deep as anything. -/
theorem Session.Nests.of_isAtom {P : Session → Value → Prop} (h : v.isAtom = true) (holds : P s v)
    (n : Nat) : s.Nests P (n + 1) v := by
  refine ⟨holds, fun x hx => ?_⟩
  rw [parts_of_none (body?_of_isAtom h s)] at hx
  cases hx

/-- An argument that has all its attributes, and a type that is known. -/
structure Argument.Complete (c : Argument) : Prop where
  name : c.name.isSome = true
  description : c.description.isSome = true
  hasDefault : c.hasDefault.isSome = true
  resolved : c.resolved.isSome = true

/-- Bodies of one shape. Sets and dictionaries have one shape when they have the same keys. -/
def Body.Fits : Body → Body → Prop
  | .tuple _, .tuple _ | .config _ _ _ _, .config _ _ _ _ | .list _, .list _ => True
  | .directive _, .directive _ => True
  | .set members, .set members' =>
    members.map Member.hash = members'.map Member.hash ∧ (members.map Member.hash).Nodup
  | .dict entries, .dict entries' =>
    entries.map Entry.hash = entries'.map Entry.hash ∧ (entries.map Entry.hash).Nodup
  | .wrapper w c, .wrapper w' c' =>
    w = w' ∧ c.resolved.isSome = true ∧ c'.resolved.isSome = true
  | .argument c, .argument c' =>
    c.Complete ∧ c'.Complete ∧ c.default.isSome = c'.default.isSome
  | _, _ => False

theorem Body.Fits.symm {b c : Body} (h : b.Fits c) : c.Fits b := by
  cases b <;> cases c <;> try exact h.elim
  case set | dict => exact ⟨h.1.symm, h.1 ▸ h.2⟩
  case wrapper => exact ⟨h.1.symm, h.2.2, h.2.1⟩
  case argument => exact ⟨h.2.1, h.1, h.2.2.symm⟩
  all_goals trivial

namespace Session

/-- Data that are alike as far as the given nesting. -/
def Alike (s : Session) : Nat → Value → Value → Prop
  | 0, _, _ => False
  | n + 1, x, y => x = y ∧ x.isAtom = true ∨
    ∃ b c, s.body? x = some b ∧ s.body? y = some c ∧ b.Fits c ∧
      List.Forall₂ (s.Alike n) b.parts c.parts

namespace Alike

theorem symm (h : s.Alike n x y) : s.Alike n y x := by
  induction n generalizing x y with
  | zero => cases h
  | succ n ih =>
    rcases h with ⟨rfl, atom⟩ | ⟨b, c, left, right, fits, parts⟩
    · exact .inl ⟨rfl, atom⟩
    · refine .inr ⟨c, b, right, left, fits.symm, ?_⟩
      exact (parts.imp fun _ _ like => ih like).flip

/-- A datum without parts is only like itself. -/
theorem eq_of_isAtom (h : s.Alike n x y) (atom : y.isAtom = true) : x = y := by
  cases n with
  | zero => cases h
  | succ n =>
    rcases h with ⟨same, -⟩ | ⟨b, c, -, right, -, -⟩
    · exact same
    · rw [body?_of_isAtom atom] at right
      cases right

theorem isNull (h : s.Alike n x y) (known : y.isNull = false) : x.isNull = false := by
  cases n with
  | zero => cases h
  | succ n =>
    rcases h with ⟨rfl, -⟩ | ⟨b, c, left, -, -, -⟩
    · exact known
    · cases x <;> first | rfl | cases left

end Alike

end Session

/-! ### Comparing data that are alike -/

namespace Equality

variable {eq : Value → Value → Action Bool}

theorem element_of_equal (h : eq x y s = .ok true s) : element eq x y s = .ok true s := by
  rw [element]
  split
  · rfl
  · exact h

theorem rows_of_equal {xs ys : List Value}
    (h : List.Forall₂ (fun x y => eq x y s = .ok true s) xs ys) : rows eq xs ys s = .ok true s := by
  induction h with
  | nil => rfl
  | cons first _ ih =>
    rw [rows, Action.bind_of_ok (element_of_equal first)]
    exact ih

theorem hit_of_equal {k : HashKey} (h : eq x y s = .ok true s) :
    hit eq k x k y s = .ok true s := by
  rw [hit, if_pos rfl]
  exact element_of_equal h

theorem hit_of_ne {k k' : HashKey} (h : k ≠ k') : hit eq k x k' y s = .ok false s := by
  rw [hit, if_neg h]
  rfl

theorem holds_of_mem {m u : Member} {members : List Member} (found : u ∈ members)
    (nodup : (members.map Member.hash).Nodup) (key : u.hash = m.hash)
    (h : eq u.value m.value s = .ok true s) : holds eq m members s = .ok true s := by
  induction members with
  | nil => cases found
  | cons w rest ih =>
    rw [List.map_cons, List.nodup_cons] at nodup
    rw [holds]
    rcases List.mem_cons.1 found with rfl | among
    · have first : hit eq u.hash u.value m.hash m.value s = .ok true s := key ▸ hit_of_equal h
      rw [Action.bind_of_ok first]
      rfl
    · have apart : w.hash ≠ m.hash := by
        intro same
        exact nodup.1 (same.trans key.symm ▸ List.mem_map_of_mem among)
      rw [Action.bind_of_ok (hit_of_ne apart)]
      exact ih among nodup.2

theorem lookup?_of_mem {e u : Entry} {entries : List Entry} (found : u ∈ entries)
    (nodup : (entries.map Entry.hash).Nodup) (key : u.hash = e.hash)
    (h : eq u.key e.key s = .ok true s) :
    lookup? eq e.hash e.key entries s = .ok (some u.value) s := by
  induction entries with
  | nil => cases found
  | cons w rest ih =>
    rw [List.map_cons, List.nodup_cons] at nodup
    rw [lookup?]
    rcases List.mem_cons.1 found with rfl | among
    · have first : hit eq u.hash u.key e.hash e.key s = .ok true s := key ▸ hit_of_equal h
      rw [Action.bind_of_ok first]
      rfl
    · have apart : w.hash ≠ e.hash := by
        intro same
        exact nodup.1 (same.trans key.symm ▸ List.mem_map_of_mem among)
      rw [Action.bind_of_ok (hit_of_ne apart)]
      exact ih among nodup.2

/-- Members, each of which is found among the others. -/
theorem subset_of_found {members others : List Member}
    (nodup : (others.map Member.hash).Nodup)
    (h : ∀ m ∈ members, ∃ u ∈ others, u.hash = m.hash ∧ eq u.value m.value s = .ok true s) :
    subset eq others members s = .ok true s := by
  induction members with
  | nil => rfl
  | cons m rest ih =>
    obtain ⟨u, among, key, equal⟩ := h m List.mem_cons_self
    rw [subset, Action.bind_of_ok (holds_of_mem among nodup key equal)]
    exact ih fun w hw => h w (List.mem_cons_of_mem m hw)

/-- Entries, each of which is found among the others with an equal value. -/
theorem entries_of_found {es others : List Entry} (nodup : (others.map Entry.hash).Nodup)
    (h : ∀ e ∈ es, ∃ u ∈ others, u.hash = e.hash ∧ eq u.key e.key s = .ok true s ∧
      eq u.value e.value s = .ok true s) : entries eq others es s = .ok true s := by
  induction es with
  | nil => rfl
  | cons e rest ih =>
    obtain ⟨u, among, key, keys, values⟩ := h e List.mem_cons_self
    rw [entries, Action.bind_of_ok (lookup?_of_mem among nodup key keys)]
    dsimp only
    rw [Action.bind_of_ok (element_of_equal values)]
    exact ih fun w hw => h w (List.mem_cons_of_mem e hw)

/-- Defaults that are both set come first among what follows the other fields. -/
theorem defaults_of_equal {x y : Option Value} {xs ys : List Value} (set : x.isSome = y.isSome)
    (h : List.Forall₂ (fun x y => eq x y s = .ok true s) (x.toList ++ xs) (y.toList ++ ys)) :
    defaults eq x y s = .ok true s := by
  cases x <;> cases y <;> cases set
  · rfl
  · exact element_of_equal (List.forall₂_cons.1 h).1

theorem argumentKeys_of_equal {a b : ArgumentKey} (name : eq a.name b.name s = .ok true s)
    (type : eq a.type b.type s = .ok true s)
    (description : eq a.description b.description s = .ok true s)
    (hasDefault : eq a.hasDefault b.hasDefault s = .ok true s)
    (default : defaults eq a.default b.default s = .ok true s) :
    argumentKeys eq a b s = .ok true s := by
  rw [argumentKeys, Action.bind_of_ok (element_of_equal name)]
  refine (Action.bind_of_ok (element_of_equal type)).trans ?_
  refine (Action.bind_of_ok (element_of_equal description)).trans ?_
  exact (Action.bind_of_ok (element_of_equal hasDefault)).trans default

theorem directives_of_equal {a b : Directive} (name : eq a.name b.name s = .ok true s)
    (description : eq a.description b.description s = .ok true s)
    (locations : eq a.locations.value b.locations.value s = .ok true s)
    (args : eq a.args.value b.args.value s = .ok true s) :
    directives eq a b s = .ok true s := by
  rw [directives, Action.bind_of_ok (element_of_equal name)]
  refine (Action.bind_of_ok (element_of_equal description)).trans ?_
  exact (Action.bind_of_ok (element_of_equal locations)).trans (element_of_equal args)

/-- The fields of a complete argument, in the order in which they are parts of it. -/
theorem argumentKey_of_complete (supply : Supplier) {q : Ref .argument}
    (h : (s.argument q).Complete) :
    ∃ key, argumentKey supply q s = .ok key s ∧ (Body.argument (s.argument q)).parts =
      key.name :: key.description :: key.hasDefault :: key.type ::
        (key.default.toList ++ (s.argument q).extra.contents) ∧
      key.default = (s.argument q).default := by
  obtain ⟨name, named⟩ := Option.isSome_iff_exists.1 h.name
  obtain ⟨description, described⟩ := Option.isSome_iff_exists.1 h.description
  obtain ⟨hasDefault, decided⟩ := Option.isSome_iff_exists.1 h.hasDefault
  obtain ⟨type, resolved⟩ := Option.isSome_iff_exists.1 h.resolved
  have readName : Arguments.name q s = .ok name s := by rw [Arguments.name_eq, named]; rfl
  have readDescription : Arguments.description q s = .ok description s := by
    rw [Arguments.description_eq, described]
    rfl
  have readHasDefault : Arguments.hasDefault q s = .ok hasDefault s := by
    rw [Arguments.hasDefault_eq, decided]
    rfl
  refine ⟨{ name, type, description, hasDefault, default := (s.argument q).default }, ?_, ?_, rfl⟩
  · rw [argumentKey, Action.bind_of_ok readName,
      Action.bind_of_ok (Arguments.type_of_resolved resolved), Action.bind_of_ok readDescription,
      Action.bind_of_ok readHasDefault]
    rfl
  · simp only [Body.parts, named, described, decided, resolved, Option.toList,
      List.cons_append, List.nil_append]

theorem atomsEqual_self (atom : v.isAtom = true) : atomsEqual v v = true := by
  cases v with
  | float x =>
    cases x with
    | nan => cases atom
    | infinite | finite => simp [atomsEqual, numbersEqual?, Binary64.numericEq]
  | null | unnamed | bool | int | text | bytes | location | scalar =>
    simp [atomsEqual, numbersEqual?, Value.text?, Value.same_refl]
  | _ => cases atom

theorem equalWithin_self (atom : v.isAtom = true) (n : Nat) :
    equalWithin supply (n + 1) v v s = .ok true s := by
  have equal := atomsEqual_self atom
  have compared : equalWithin supply (n + 1) v v s = .ok (atomsEqual v v) s := by
    cases v <;> first | rfl | cases atom
  rw [compared, equal]

end Equality

section

variable {R : Value → Value → Prop}

/-- Members with the same keys whose values are related are related member by member. -/
theorem members_related {xs ys : List Member} (keys : xs.map Member.hash = ys.map Member.hash)
    (h : List.Forall₂ R (xs.map Member.value) (ys.map Member.value)) :
    List.Forall₂ (fun m u => m.hash = u.hash ∧ R m.value u.value) xs ys := by
  induction xs generalizing ys with
  | nil =>
    cases ys with
    | nil => exact .nil
    | cons u ys => cases h
  | cons m xs ih =>
    cases ys with
    | nil => cases h
    | cons u ys =>
      rw [List.map_cons, List.map_cons] at keys h
      obtain ⟨key, keys⟩ := List.cons.inj keys
      cases h with
      | cons first rest => exact .cons ⟨key, first⟩ (ih keys rest)

/-- Entries with the same keys whose contents are related are related entry by entry. -/
theorem entries_related {xs ys : List Entry} (keys : xs.map Entry.hash = ys.map Entry.hash)
    (h : List.Forall₂ R (xs.flatMap Entry.contents) (ys.flatMap Entry.contents)) :
    List.Forall₂ (fun e u => e.hash = u.hash ∧ R e.key u.key ∧ R e.value u.value) xs ys := by
  induction xs generalizing ys with
  | nil =>
    cases ys with
    | nil => exact .nil
    | cons u ys => cases keys
  | cons e xs ih =>
    cases ys with
    | nil => cases keys
    | cons u ys =>
      rw [List.map_cons, List.map_cons] at keys
      obtain ⟨key, keys⟩ := List.cons.inj keys
      cases h with
      | cons first rest =>
        cases rest with
        | cons second rest => exact .cons ⟨key, first, second⟩ (ih keys rest)

end

namespace Session.Alike

open Equality

theorem equal (h : s.Alike n x y) {N : Nat} (le : n ≤ N) :
    equalWithin supply N x y s = .ok true s := by
  induction n generalizing x y N with
  | zero => cases h
  | succ n ih =>
    obtain ⟨M, rfl⟩ : ∃ M, N = M + 1 := ⟨N - 1, by omega⟩
    have less : n ≤ M := Nat.le_of_succ_le_succ le
    rcases h with ⟨rfl, atom⟩ | ⟨b, c, left, right, fits, parts⟩
    · exact equalWithin_self atom M
    have compared : List.Forall₂ (fun x y => equalWithin supply M x y s = .ok true s)
        b.parts c.parts := parts.imp fun _ _ like => ih like less
    have crossed : List.Forall₂ (fun x y => equalWithin supply M y x s = .ok true s)
        b.parts c.parts := parts.imp fun _ _ like => ih like.symm less
    have made := makes_of_body left
    have made' := makes_of_body right
    cases b <;> cases c <;> try exact fits.elim
    case tuple =>
      obtain ⟨tag, rfl⟩ := made
      obtain ⟨tag', rfl⟩ := made'
      exact rows_of_equal compared
    case config =>
      obtain ⟨tag, rfl⟩ := made
      obtain ⟨tag', rfl⟩ := made'
      exact rows_of_equal compared
    case list =>
      obtain ⟨r, rfl, -, rfl⟩ := made
      obtain ⟨r', rfl, -, rfl⟩ := made'
      show (if (s.list r).length = (s.list r').length then
        rows (equalWithin supply M) (s.list r) (s.list r') else pure false) s = _
      have length : (s.list r).length = (s.list r').length := compared.length_eq
      rw [if_pos length]
      exact rows_of_equal compared
    case set =>
      obtain ⟨r, rfl, -, rfl⟩ := made
      obtain ⟨r', rfl, -, rfl⟩ := made'
      have related := members_related fits.1 crossed
      show (if (s.set r).length = (s.set r').length then
        subset (equalWithin supply M) (s.set r') (s.set r) else pure false) s = _
      rw [if_pos related.length_eq]
      refine subset_of_found (fits.1 ▸ fits.2) fun m hm => ?_
      obtain ⟨u, hu, key, equal⟩ := exists_right related hm
      exact ⟨u, hu, key.symm, equal⟩
    case dict =>
      obtain ⟨r, rfl, -, rfl⟩ := made
      obtain ⟨r', rfl, -, rfl⟩ := made'
      have related := entries_related fits.1 crossed
      show (if (s.dict r).length = (s.dict r').length then
        entries (equalWithin supply M) (s.dict r') (s.dict r) else pure false) s = _
      rw [if_pos related.length_eq]
      refine entries_of_found (fits.1 ▸ fits.2) fun e he => ?_
      obtain ⟨u, hu, key, keys, values⟩ := exists_right related he
      exact ⟨u, hu, key.symm, keys, values⟩
    case wrapper w _ w' _ =>
      obtain ⟨r, rfl, -, rfl⟩ := made
      obtain ⟨r', rfl, -, rfl⟩ := made'
      obtain ⟨rfl, known, known'⟩ := fits
      obtain ⟨t, resolved⟩ := Option.isSome_iff_exists.1 known
      obtain ⟨t', resolved'⟩ := Option.isSome_iff_exists.1 known'
      simp only [Body.parts, resolved, resolved', Option.toList] at compared
      obtain ⟨types, -⟩ := List.forall₂_cons.1 compared
      show (if w = w ∧ r = r' then pure true else if w ≠ w then pure false else do
        let t ← Types.wrapped supply w r
        equalWithin supply M t (← Types.wrapped supply w r')) s = _
      split
      · rfl
      · rw [if_neg (fun h => h rfl), Action.bind_of_ok (Types.wrapped_of_resolved resolved),
          Action.bind_of_ok (Types.wrapped_of_resolved resolved')]
        exact types
    case argument =>
      obtain ⟨r, rfl, -, rfl⟩ := made
      obtain ⟨r', rfl, -, rfl⟩ := made'
      obtain ⟨complete, complete', defaulted⟩ := fits
      obtain ⟨key, read, inside, kept⟩ := argumentKey_of_complete supply complete
      obtain ⟨key', read', inside', kept'⟩ := argumentKey_of_complete supply complete'
      rw [inside, inside'] at compared
      obtain ⟨name, rest⟩ := List.forall₂_cons.1 compared
      obtain ⟨description, rest⟩ := List.forall₂_cons.1 rest
      obtain ⟨hasDefault, rest⟩ := List.forall₂_cons.1 rest
      obtain ⟨type, rest⟩ := List.forall₂_cons.1 rest
      rw [← kept, ← kept'] at defaulted
      show (if r = r' then pure true else do
        let key ← argumentKey supply r
        argumentKeys (equalWithin supply M) key (← argumentKey supply r')) s = _
      split
      · rfl
      · rw [Action.bind_of_ok read, Action.bind_of_ok read']
        exact argumentKeys_of_equal name type description hasDefault
          (defaults_of_equal defaulted rest)
    case directive =>
      obtain ⟨r, rfl, -, rfl⟩ := made
      obtain ⟨r', rfl, -, rfl⟩ := made'
      simp only [Body.parts, Directive.contents] at compared
      obtain ⟨name, rest⟩ := List.forall₂_cons.1 compared
      obtain ⟨description, rest⟩ := List.forall₂_cons.1 rest
      obtain ⟨locations, rest⟩ := List.forall₂_cons.1 rest
      obtain ⟨args, -⟩ := List.forall₂_cons.1 rest
      show (if r = r' then pure true else do
        let s ← get
        Equality.directives (equalWithin supply M) (s.directive r) (s.directive r')) s = _
      split
      · rfl
      · exact directives_of_equal name description locations args

theorem keys {xs ys : List Value} {ks : List HashKey}
    (h : List.Forall₂ (fun x y => ∀ k, y.key? = some k → x.key? = some k) xs ys)
    (found : Value.keys? ys = some ks) : Value.keys? xs = some ks := by
  induction h generalizing ks with
  | nil => exact found
  | cons first _ ih =>
    simp only [Value.keys?, Option.bind_eq_bind, Option.bind_eq_some_iff, Option.pure_def,
      Option.some.injEq] at found ⊢
    obtain ⟨key, head, keys, tail, rfl⟩ := found
    exact ⟨key, first key head, keys, ih tail, rfl⟩

/-- Data that are alike have the same key, if they have one at all. -/
theorem key {k : HashKey} (h : s.Alike n x y) (found : y.key? = some k) : x.key? = some k := by
  induction n generalizing x y k with
  | zero => cases h
  | succ n ih =>
    rcases h with ⟨rfl, -⟩ | ⟨b, c, left, right, fits, parts⟩
    · exact found
    have related := parts.imp fun x y like => fun k => ih (x := x) (y := y) (k := k) like
    have made := makes_of_body left
    have made' := makes_of_body right
    cases b <;> cases c <;> try exact fits.elim
    case tuple =>
      obtain ⟨tag, rfl⟩ := made
      obtain ⟨tag', rfl⟩ := made'
      simp only [Value.key?, Option.map_eq_some_iff] at found ⊢
      obtain ⟨ks, found, rfl⟩ := found
      exact ⟨ks, keys related found, rfl⟩
    case config =>
      obtain ⟨tag, rfl⟩ := made
      obtain ⟨tag', rfl⟩ := made'
      simp only [Body.parts] at related
      obtain ⟨name, rest⟩ := List.forall₂_cons.1 related
      obtain ⟨locations, rest⟩ := List.forall₂_cons.1 rest
      obtain ⟨args, rest⟩ := List.forall₂_cons.1 rest
      obtain ⟨description, -⟩ := List.forall₂_cons.1 rest
      simp only [Value.key?, Option.bind_eq_bind, Option.bind_eq_some_iff] at found ⊢
      obtain ⟨a, ha, b, hb, c, hc, d, hd, same⟩ := found
      exact ⟨a, name a ha, b, locations b hb, c, args c hc, d, description d hd, same⟩
    all_goals
      obtain ⟨r, rfl, -⟩ := made'
      simp only [Value.key?, reduceCtorEq] at found

end Session.Alike

end DirectiveSchema
