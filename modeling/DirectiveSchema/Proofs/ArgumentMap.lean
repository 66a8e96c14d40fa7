import DirectiveSchema.Proofs.Exchange
import DirectiveSchema.Proofs.Immutability
import DirectiveSchema.Proofs.Scan
import DirectiveSchema.Proofs.Shape

/-!
Argument maps. The arguments of a directive are looked up by the names that they have at the time:
a name stands where an argument first has it, over the last argument that has it. Once a collection
was accepted, every argument of a directive in it has a text of its own as its name, so that none of
them is lost in the map.
-/
namespace DirectiveSchema

open Equality

variable {s s' u : Session} {r : Ref .directive} {q : Ref .argument}

/-- The current name of an argument. -/
def Session.nameOf (s : Session) : Value → Option Value
  | .argument q => (s.argument q).name
  | _ => none

/-- Arguments with the names that they have. -/
def Session.titles (s : Session) (as : List Value) : List (Value × Value) :=
  as.filterMap fun a => (s.nameOf a).map fun name => (name, a)

/-- An argument that has a name exists. -/
theorem live_of_name {name : Value} (named : (s.argument q).name = some name) :
    q.index < s.arguments.size := by
  refine Nat.lt_of_not_le fun beyond => ?_
  rw [Session.argument, Arena.get_of_le beyond] at named
  cases named

/-! ### Names in an accepted collection -/

namespace Validation

/-- Arguments whose names are different texts. -/
structure Titled (s : Session) (as : List Value) (ns : List String) : Prop where
  texts : List.Forall₂ (fun a n => ∃ q name, a = .argument q ∧
    (s.argument q).name = some name ∧ name.text? = some n) as ns
  nodup : ns.Nodup

theorem Titled.later {as : List Value} {ns : List String} (h : Titled s as ns)
    (leads : s.Leads u) : Titled u as ns where
  texts := h.texts.imp fun _ _ ⟨q, name, is, named, text⟩ =>
    ⟨q, name, is, (leads.extends.argument (live_of_name named)).name.trans named, text⟩
  nodup := h.nodup

/-- A name that was accepted is a valid one. -/
theorem valid_of_argumentName {supply : Supplier} {name : Value}
    (h : argumentName supply q s = .ok name s') :
    (s.argument q).name = some name ∧ name.isName = true := by
  cases named : (s.argument q).name with
  | none =>
    have read : (do return (← Directives.assertName supply (← Arguments.name q)).val : Action Value)
        s = .error (.noAttribute "Argument" "name") s := by
      rw [Action.bind_of_error]
      rw [Arguments.name_eq, named]
      rfl
    simp only [argumentName, Action.tryCatch_of_error read] at h
    cases h
  | some name' =>
    cases valid : name'.isName with
    | true =>
      rw [argumentName_of_valid named valid] at h
      cases h
      exact ⟨rfl, valid⟩
    | false =>
      cases text : Display.label supply name' s with
      | ok shown s₁ =>
        rw [argumentName_of_invalid named valid text] at h
        cases h
      | error g s₁ =>
        rw [argumentName_of_failing named valid text 0 0] at h
        cases h

/-- Once an argument has a name of its own, it is accepted when its type is, and then the rest is
checked. -/
theorem rest_of_afterName {directive n : String} {seen : List String} {rest : List Value}
    (h : afterName Deferred.supplier directive seen q rest n s = .ok () s') : ∃ s₁,
      s.Leads s₁ ∧ checkArguments Deferred.supplier directive (n :: seen) rest s₁ = .ok () s' := by
  simp only [afterName] at h
  obtain ⟨type, s₁, typed, h⟩ := Action.ok_of_bind h
  obtain ⟨ok, s₂, decided, h⟩ := Action.ok_of_bind h
  obtain ⟨type', s₃, typed', h⟩ := Action.ok_of_bind h
  obtain ⟨shown, s₄, written, h⟩ := Action.ok_of_bind h
  have later : s.Leads s₄ :=
    (((leads.type [] q).of_ok typed).trans ((leads.isInput [] type).of_ok decided)).trans
      (((leads.type [] q).of_ok typed').trans ((leads.label [] type').of_ok written))
  cases ok with
  | false => cases h
  | true => exact ⟨s₄, later, h⟩

/-- The arguments that were accepted have different names, and none that was seen before. -/
theorem titled_of_checkArguments {directive : String} {seen : List String} {as : List Value}
    (h : checkArguments Deferred.supplier directive seen as s = .ok () s') :
    ∃ ns, Titled s' as ns ∧ ∀ n ∈ ns, n ∉ seen := by
  induction as generalizing s seen with
  | nil => exact ⟨[], ⟨.nil, List.nodup_nil⟩, by simp⟩
  | cons a as ih =>
    cases a with
    | argument q =>
      rw [checkArguments_argument] at h
      obtain ⟨shown, s₁, written, h⟩ := Action.ok_of_bind h
      obtain ⟨name, s₂, read, h⟩ := Action.ok_of_bind h
      obtain ⟨named, valid⟩ := valid_of_argumentName read
      obtain ⟨n, spelt⟩ : ∃ n, name.text? = some n := by
        cases spelt : name.text? with
        | some n => exact ⟨n, rfl⟩
        | none => simp [Value.isName, spelt] at valid
      have text : Directives.nameText name = n := by simp [Directives.nameText, spelt]
      simp only [text] at h
      split at h
      · cases h
      next unseen =>
      obtain ⟨s₃, leads₃, rest⟩ := rest_of_afterName h
      have later : s₁.Leads s' :=
        ((leads.argumentNameOrFault [] q).of_ok read).trans
          (leads₃.trans ((leads.checkArguments [] directive (n :: seen) as).of_ok rest))
      obtain ⟨ns, titled, others⟩ := ih rest
      have named' := (later.extends.argument (live_of_name named)).name.trans named
      refine ⟨n :: ns, ⟨.cons ⟨q, name, rfl, named', spelt⟩ titled.texts, ?_⟩, ?_⟩
      · refine List.nodup_cons.2 ⟨fun among => ?_, titled.nodup⟩
        exact others n among List.mem_cons_self
      · intro m among
        rcases List.mem_cons.1 among with rfl | among
        · exact fun seen => unseen (List.contains_iff_mem.2 seen)
        · exact fun seen => others m among (List.mem_cons_of_mem n seen)
    | _ =>
      simp only [checkArguments] at h
      obtain ⟨shown, s₁, written, h⟩ := Action.ok_of_bind h
      cases h

/-- Every directive that was accepted has arguments of different names. -/
theorem titled_of_checkDirectives {seen : List String} {vs : List Value}
    (h : checkDirectives Deferred.supplier seen vs s = .ok () s') (among : .directive r ∈ vs)
    (live : r.index < s.directives.size) : ∃ ns, Titled s' (s.directive r).args.items ns := by
  induction vs generalizing s seen with
  | nil => cases among
  | cons v vs ih =>
    cases v with
    | directive r' =>
      rw [checkDirectives_directive] at h
      obtain ⟨shown, s₁, written, h⟩ := Action.ok_of_bind h
      have leads₁ : s.Leads s₁ := (leads.literal [] _).of_ok written
      rw [Action.get_bind] at h
      split at h
      · cases h
      simp only [afterDirective] at h
      obtain ⟨_, s₂, warned, h⟩ := Action.ok_of_bind h
      obtain ⟨_, s₃, checked, h⟩ := Action.ok_of_bind h
      have leads₂ : s₁.Leads s₂ := (leads.checkLocations [] _ _).of_ok warned
      have leads₃ : s₂.Leads s₃ := (leads.checkArguments [] _ _ _).of_ok checked
      have leads₄ : s₃.Leads s' := (leads.checkDirectives [] _ _).of_ok h
      rcases List.mem_cons.1 among with here | among
      · cases here
        obtain ⟨ns, titled, -⟩ := titled_of_checkArguments checked
        rw [leads₁.extends.directive live] at titled
        exact ⟨ns, titled.later leads₄⟩
      · have leads₅ : s.Leads s₃ := leads₁.trans (leads₂.trans leads₃)
        have extends₃ := leads₅.extends
        obtain ⟨ns, titled⟩ := ih h among (Nat.lt_of_lt_of_le live extends₃.directives.size)
        rw [extends₃.directive live] at titled
        exact ⟨ns, titled⟩
    | _ =>
      simp only [checkDirectives] at h
      obtain ⟨shown, s₁, written, h⟩ := Action.ok_of_bind h
      cases h

/-- To list the elements of a collection changes nothing. -/
theorem elements_of_validate {collection : Value}
    (h : validate Deferred.supplier collection s = .ok () s') : ∃ vs,
      Container.elements collection s = .ok vs s ∧
        checkDirectives Deferred.supplier [] vs s = .ok () s' := by
  simp only [validate] at h
  obtain ⟨vs, s₁, listed, checked⟩ := Action.ok_of_bind h
  cases Directives.elements_session listed
  exact ⟨vs, listed, checked⟩

end Validation

/-! ### Reading the map -/

namespace Access

open Validation

variable {supply : Supplier}

/-- To add an argument is to assign it to the name that it has. -/
theorem addNamed_of_name {name : Value} (named : (s.argument q).name = some name)
    (entries : List Entry) :
    addNamed supply entries (.argument q) s =
      Container.assign supply entries name (.argument q) s := by
  have read : get supply (.argument q) "name" s = .ok name s := by
    show Arguments.name q s = .ok name s
    rw [Arguments.name_eq, named]
    rfl
  rw [addNamed, Action.bind_of_ok read]

/-- The entries that stand under names that are texts. -/
structure Lists (s : Session) (as : List Value) (entries : List Entry) : Prop where
  values : entries.map Entry.value = as
  named {e : Entry} : e ∈ entries → s.nameOf e.value = some e.key
  hash {e : Entry} : e ∈ entries → ∃ n, e.key.text? = some n ∧ e.hash = .text n
  nodup : (entries.map Entry.hash).Nodup

theorem key?_of_text {v : Value} {n : String} (h : v.text? = some n) : v.key? = some (.text n) := by
  cases v <;> cases h <;> rfl

/-- An argument with a name that does not occur yet comes last. -/
theorem Lists.add {as : List Value} {entries : List Entry} {name : Value} {n : String}
    (h : Lists s as entries) (named : (s.argument q).name = some name)
    (text : name.text? = some n) (fresh : ∀ e ∈ entries, e.hash ≠ .text n) :
    Lists s (as ++ [.argument q]) (entries ++ [⟨.text n, name, .argument q⟩]) where
  values := by simp [h.values]
  named {e} among := by
    rcases List.mem_append.1 among with among | last
    · exact h.named among
    · cases List.mem_singleton.1 last
      exact named
  hash {e} among := by
    rcases List.mem_append.1 among with among | last
    · exact h.hash among
    · cases List.mem_singleton.1 last
      exact ⟨n, text, rfl⟩
  nodup := by
    rw [List.map_append, List.nodup_append]
    refine ⟨h.nodup, List.nodup_singleton _, ?_⟩
    intro k hk l hl
    obtain ⟨e, among, rfl⟩ := List.mem_map.1 hk
    cases List.mem_singleton.1 hl
    exact fresh e among

/-- Arguments with different texts as their names are listed as they come. -/
theorem addNamed_of_titled (supply : Supplier) {as done : List Value} {ns : List String}
    {entries : List Entry} (texts : List.Forall₂ (fun a n => ∃ q name, a = .argument q ∧
      (s.argument q).name = some name ∧ name.text? = some n) as ns) (nodup : ns.Nodup)
    (listed : Lists s done entries) (fresh : ∀ e ∈ entries, ∀ n ∈ ns, e.hash ≠ .text n) :
    ∃ entries', as.foldlM (addNamed supply) entries s = .ok entries' s ∧
      Lists s (done ++ as) entries' := by
  induction texts generalizing done entries with
  | nil => exact ⟨entries, rfl, by rwa [List.append_nil]⟩
  | @cons a n as ns titled texts ih =>
    obtain ⟨q, name, rfl, named, text⟩ := titled
    obtain ⟨other, nodup⟩ := List.nodup_cons.1 nodup
    have new : ∀ e ∈ entries, e.hash ≠ .text n := fun e he => fresh e he n List.mem_cons_self
    have put : addNamed supply entries (.argument q) s =
        .ok (entries ++ [⟨.text n, name, .argument q⟩]) s := by
      rw [addNamed_of_name named, Container.assign,
        Action.bind_of_ok (HashKey.of_key (key?_of_text text))]
      exact Container.put_of_fresh new
    have still : ∀ e ∈ entries ++ [⟨.text n, name, .argument q⟩], ∀ m ∈ ns, e.hash ≠ .text m := by
      intro e he m hm
      rcases List.mem_append.1 he with he | he
      · exact fresh e he m (List.mem_cons_of_mem n hm)
      · cases List.mem_singleton.1 he
        intro same
        cases same
        exact other hm
    obtain ⟨entries', run, all⟩ := ih nodup (listed.add named text new) still
    refine ⟨entries', ?_, by simpa using all⟩
    rw [List.foldlM_cons, Action.bind_of_ok put, run]

theorem Lists.keys {as : List Value} {entries : List Entry} (h : Lists s as entries) :
    entries.map (fun e => some e.key) = as.map s.nameOf := by
  rw [← h.values, List.map_map]
  exact List.map_congr_left fun e he => (h.named he).symm

theorem equal_of_text {v : Value} {n : String} (h : v.text? = some n) (s : Session) :
    equal supply v v s = .ok true s := by
  obtain ⟨m, -, bound⟩ := Action.boundedPairs_succ v.depth (fun m => equalWithin supply m v v) s
  rw [equal, bound]
  have atoms : atomsEqual v v = true := by
    cases v <;> cases h <;> simp [atomsEqual, numbersEqual?, Value.text?]
  cases v <;> cases h <;> exact congrArg (fun b => EStateM.Result.ok b s) atoms

/-- The argument that stands under a name is found there. -/
theorem mapGet_of_lists {as : List Value} {entries : List Entry} {name a : Value}
    (read : argumentMap supply r s = .ok entries s) (listed : Lists s as entries)
    (among : a ∈ as) (named : s.nameOf a = some name) :
    mapGet supply (.directive r) name s = .ok a s := by
  rw [← listed.values] at among
  obtain ⟨e, he, rfl⟩ := List.mem_map.1 among
  obtain rfl : e.key = name := Option.some.inj ((listed.named he).symm.trans named)
  obtain ⟨n, text, hash⟩ := listed.hash he
  have map : mapOf supply (.directive r) s = .ok entries s := read
  have found : Container.valueAt? supply entries e.key s = .ok (some e.value) s := by
    rw [Container.valueAt?, Action.bind_of_ok (HashKey.of_key (key?_of_text text)), ← hash]
    exact lookup?_of_mem he listed.nodup rfl (equal_of_text text s)
  rw [mapGet, Action.bind_of_ok map, Action.bind_of_ok found]
  rfl

/-! ### Names of any kind -/

/-- An equivalence that decides about the members of a list. -/
structure Lawful (alike : Value → Value → Bool) (names : List Value) : Prop where
  refl {x : Value} : x ∈ names → alike x x = true
  symm {x y : Value} : x ∈ names → y ∈ names → alike x y = true → alike y x = true
  trans {x y z : Value} : x ∈ names → y ∈ names → z ∈ names → alike x y = true →
    alike y z = true → alike x z = true

/-- From a session on, names hash, and it is settled which of them are alike: a name that is kept
under the key that it had is found by the key of another one whenever they are. -/
structure Distinguished (s : Session) (alike : Value → Value → Bool) (names : List Value) : Prop
    extends Lawful alike names where
  hashes {x : Value} : x ∈ names → Answers s (HashKey.of Deferred.supplier x)
  found {x y : Value} {k l : HashKey} {t t' u u' v : Session} : x ∈ names → y ∈ names →
    s.Leads t → HashKey.of Deferred.supplier x t = .ok k t' → t'.Leads u →
      HashKey.of Deferred.supplier y u = .ok l u' → u'.Leads v →
        ∃ v', hit (equal Deferred.supplier) k x l y v = .ok (alike x y) v'

/-- Each name stands where it first occurs, over what it stands for the last time. -/
structure Indexes (alike : Value → Value → Bool) (named : List (Value × Value))
    (entries : List Entry) : Prop where
  keys : entries.map Entry.key =
    (named.map Prod.fst).eraseDupsBy fun later earlier => alike earlier later
  values {e : Entry} : e ∈ entries →
    (named.reverse.find? fun p => alike e.key p.1).map Prod.snd = some e.value

/-- What is put under a name takes the place of what stood under a name that is alike. -/
def placed (alike : Value → Value → Bool) (e : Entry) : List Entry → List Entry
  | [] => [e]
  | f :: rest =>
    if alike f.key e.key then { f with value := e.value } :: rest else f :: placed alike e rest

theorem eraseDupsBy_snoc {α : Type} (r : α → α → Bool) (as : List α) (b : α) :
    (as ++ [b]).eraseDupsBy r =
      if (as.eraseDupsBy r).any (r b) then as.eraseDupsBy r else as.eraseDupsBy r ++ [b] := by
  have loop (bs : List α) : List.eraseDupsBy.loop r (as ++ [b]) bs =
      if (List.eraseDupsBy.loop r as bs).any (r b) then List.eraseDupsBy.loop r as bs
      else List.eraseDupsBy.loop r as bs ++ [b] := by
    induction as generalizing bs with
    | nil =>
      simp only [List.nil_append, List.eraseDupsBy.loop, List.any_reverse]
      cases bs.any (r b) <;> simp
    | cons a as ih =>
      simp only [List.cons_append, List.eraseDupsBy.loop]
      rcases Bool.eq_false_or_eq_true (bs.any (r a)) with seen | seen
      · simp only [seen]
        exact ih bs
      · simp only [seen]
        exact ih (a :: bs)
  exact loop []

section

variable {alike : Value → Value → Bool} {names : List Value} {entries : List Entry} {e f : Entry}

theorem keys_placed : (placed alike e entries).map Entry.key =
    if (entries.map Entry.key).any (fun k => alike k e.key) then entries.map Entry.key
    else entries.map Entry.key ++ [e.key] := by
  induction entries with
  | nil => rfl
  | cons f rest ih =>
    simp only [placed]
    cases same : alike f.key e.key with
    | true => simp [same]
    | false =>
      simp only [Bool.false_eq_true, ↓reduceIte, List.map_cons, ih, List.any_cons, same,
        Bool.false_or]
      split <;> rfl

/-- What stands in its place is what was put there, or stood there under a name that is not
alike. -/
theorem mem_placed (lawful : Lawful alike names)
    (apart : (entries.map Entry.key).Pairwise fun x y => alike x y = false)
    (among : ∀ g ∈ entries, g.key ∈ names) (name : e.key ∈ names) (h : f ∈ placed alike e entries) :
    f ∈ entries ∧ alike f.key e.key = false ∨ alike f.key e.key = true ∧ f.value = e.value ∧
      (f = e ∨ ∃ g ∈ entries, g.key = f.key ∧ g.hash = f.hash) := by
  induction entries with
  | nil =>
    cases List.mem_singleton.1 h
    exact .inr ⟨lawful.refl name, rfl, .inl rfl⟩
  | cons g rest ih =>
    obtain ⟨first, apart⟩ := List.pairwise_cons.1 apart
    have hg := among g List.mem_cons_self
    simp only [placed] at h
    cases same : alike g.key e.key with
    | true =>
      rw [same, if_pos rfl] at h
      rcases List.mem_cons.1 h with rfl | h
      · exact .inr ⟨same, rfl, .inr ⟨g, List.mem_cons_self, rfl, rfl⟩⟩
      · refine .inl ⟨List.mem_cons_of_mem g h, ?_⟩
        have hf := among f (List.mem_cons_of_mem g h)
        rw [← Bool.not_eq_true]
        intro also
        -- Otherwise two of the names that are kept would be alike.
        have both := lawful.trans hg name hf same (lawful.symm hf name also)
        rw [first _ (List.mem_map_of_mem h)] at both
        cases both
    | false =>
      rw [same, if_neg Bool.false_ne_true] at h
      rcases List.mem_cons.1 h with rfl | h
      · exact .inl ⟨List.mem_cons_self, same⟩
      · rcases ih apart (fun k hk => among k (List.mem_cons_of_mem g hk)) h with ⟨h, other⟩ | rest
        · exact .inl ⟨List.mem_cons_of_mem g h, other⟩
        · refine .inr ⟨rest.1, rest.2.1, rest.2.2.imp_right ?_⟩
          exact fun ⟨k, hk, parts⟩ => ⟨k, List.mem_cons_of_mem g hk, parts⟩

/-- The entries that are kept while arguments are added. Their names were found under their keys by
the time they were put there. -/
structure Collected (s u : Session) (alike : Value → Value → Bool) (names : List Value)
    (named : List (Value × Value)) (entries : List Entry) : Prop extends
    Indexes alike named entries where
  since : s.Leads u
  among {e : Entry} : e ∈ entries → e.key ∈ names
  apart : (entries.map Entry.key).Pairwise fun x y => alike x y = false
  kept {e : Entry} : e ∈ entries → ∃ t t', s.Leads t ∧
    HashKey.of Deferred.supplier e.key t = .ok e.hash t' ∧ t'.Leads u

variable {named : List (Value × Value)} {t : Session}

theorem Collected.later (h : Collected s u alike names named entries) (more : u.Leads t) :
    Collected s t alike names named entries :=
  { h with
    since := h.since.trans more
    kept := fun he =>
      have ⟨t₁, t₂, before, run, after⟩ := h.kept he
      ⟨t₁, t₂, before, run, after.trans more⟩ }

/-- Putting decides for each name that is kept whether the new one is like it. -/
theorem put_placed (h : ∀ f ∈ entries, ∀ v, u.Leads v → ∃ v',
      hit (equal Deferred.supplier) f.hash f.key e.hash e.key v = .ok (alike f.key e.key) v') :
    ∃ u', Container.put Deferred.supplier e entries u = .ok (placed alike e entries) u' := by
  induction entries generalizing u with
  | nil => exact ⟨u, rfl⟩
  | cons f rest ih =>
    obtain ⟨u₁, decided⟩ := h f List.mem_cons_self u .refl
    rw [Container.put, Action.bind_of_ok decided]
    simp only [placed]
    cases same : alike f.key e.key with
    | true => exact ⟨u₁, rfl⟩
    | false =>
      have leads₁ : u.Leads u₁ :=
        (leads.hit (leads.equal []) f.hash f.key e.hash e.key).of_ok decided
      obtain ⟨u', put⟩ := ih fun g hg v later =>
        h g (List.mem_cons_of_mem f hg) v (leads₁.trans later)
      exact ⟨u', Action.bind_of_ok put⟩

theorem Indexes.placed {k : HashKey} {name value : Value} (h : Indexes alike named entries)
    (h' : ∀ f ∈ placed alike ⟨k, name, value⟩ entries, f ∈ entries ∧ alike f.key name = false ∨
      alike f.key name = true ∧ f.value = value) :
    Indexes alike (named ++ [(name, value)]) (placed alike ⟨k, name, value⟩ entries) where
  keys := by
    rw [keys_placed, List.map_append, List.map_singleton, eraseDupsBy_snoc, h.keys]
  values {f} hf := by
    rw [List.reverse_append, List.reverse_singleton, List.singleton_append, List.find?_cons]
    rcases h' f hf with ⟨old, other⟩ | ⟨same, value⟩
    · simp only [other]
      exact h.values old
    · simp only [same, value, Option.map_some]

/-- The entries after one more argument was added. -/
theorem Collected.placed {k : HashKey} {name value : Value} {v : Session}
    (h : Collected s t alike names named entries) (lawful : Lawful alike names)
    (hn : name ∈ names) (hashed : HashKey.of Deferred.supplier name t = .ok k u)
    (more : u.Leads v) :
    Collected s v alike names (named ++ [(name, value)])
      (placed alike ⟨k, name, value⟩ entries) := by
  have leads' : t.Leads v := ((leads.hash [] name).of_ok hashed).trans more
  have cases {f : Entry} := mem_placed (e := ⟨k, name, value⟩) (f := f) lawful h.apart
    (fun _ => h.among) hn
  have stands : Indexes alike (named ++ [(name, value)])
      (Access.placed alike ⟨k, name, value⟩ entries) :=
    h.toIndexes.placed fun f hf => (cases hf).imp_right fun ⟨same, value, _⟩ => ⟨same, value⟩
  refine { stands with since := h.since.trans leads', among := ?_, apart := ?_, kept := ?_ }
  · intro f hf
    rcases cases hf with ⟨old, -⟩ | ⟨-, -, rfl | ⟨g, hg, key, -⟩⟩
    · exact h.among old
    · exact hn
    · exact key ▸ h.among hg
  · rw [keys_placed]
    split
    · exact h.apart
    next new =>
    refine List.pairwise_append.2 ⟨h.apart, List.pairwise_singleton _ _, ?_⟩
    intro x hx y hy
    cases List.mem_singleton.1 hy
    simpa using fun same => new (List.any_eq_true.2 ⟨x, hx, same⟩)
  · intro f hf
    rcases cases hf with ⟨old, -⟩ | ⟨-, -, rfl | ⟨g, hg, key, hash⟩⟩
    · exact (h.later leads').kept old
    · exact ⟨t, u, h.since, hashed, more⟩
    · rw [← key, ← hash]
      exact (h.later leads').kept hg

/-- To add an argument whose name is told apart from the others. -/
theorem Collected.add {name : Value} (h : Collected s u alike names named entries)
    (told : Distinguished s alike names) (hn : name ∈ names)
    (read : (s.argument q).name = some name) : ∃ entries' u',
      addNamed Deferred.supplier entries (.argument q) u = .ok entries' u' ∧
        Collected s u' alike names (named ++ [(name, .argument q)]) entries' := by
  have later := (h.since.extends.argument (live_of_name read)).name.trans read
  obtain ⟨k, u₁, hashed⟩ := told.hashes hn u h.since
  have leads₁ : u.Leads u₁ := (leads.hash [] name).of_ok hashed
  have decided : ∀ f ∈ entries, ∀ v, u₁.Leads v → ∃ v',
      hit (equal Deferred.supplier) f.hash f.key k name v = .ok (alike f.key name) v' := by
    intro f hf v more
    obtain ⟨t, t', before, kept, after⟩ := h.kept hf
    exact told.found (h.among hf) hn before kept after hashed more
  obtain ⟨u', put⟩ := put_placed (e := ⟨k, name, .argument q⟩) decided
  have more : u₁.Leads u' := (leads.put [] _ entries).of_ok put
  refine ⟨_, u', ?_, h.placed told.toLawful hn hashed more⟩
  rw [addNamed_of_name later, Container.assign, Action.bind_of_ok hashed, put]

theorem Collected.addAll {as : List Value} (h : Collected s u alike names named entries)
    (told : Distinguished s alike names)
    (all : ∀ a ∈ as, ∃ name ∈ names, s.nameOf a = some name) : ∃ entries' u',
      as.foldlM (addNamed Deferred.supplier) entries u = .ok entries' u' ∧
        Collected s u' alike names (named ++ s.titles as) entries' := by
  induction as generalizing u named entries with
  | nil => exact ⟨entries, u, rfl, by simpa [Session.titles] using h⟩
  | cons a as ih =>
    obtain ⟨name, hn, read⟩ := all a List.mem_cons_self
    cases a with
    | argument q =>
      obtain ⟨entries₁, u₁, added, next⟩ := h.add told hn read
      obtain ⟨entries', u', run, collected⟩ :=
        ih next fun b hb => all b (List.mem_cons_of_mem _ hb)
      refine ⟨entries', u', ?_, ?_⟩
      · rw [List.foldlM_cons, Action.bind_of_ok added, run]
      · simpa [Session.titles, read] using collected
    | _ => cases read

/-! ### Plain names -/

variable {x y v : Value}

/-- A datum without parts hashes by what tells it apart. -/
theorem hash_of_isAtom (supply : Supplier) (atom : v.isAtom = true) :
    ∃ k, v.face = .plain k ∧ ∀ s, HashKey.of supply v s = .ok k s := by
  have within : ∃ k, v.face = .plain k ∧
      ∀ n s, HashKey.ofWithin supply (n + 1) v s = .ok k s := by
    cases v <;> first | exact ⟨_, rfl, fun _ _ => rfl⟩ | cases atom
  obtain ⟨k, face, run⟩ := within
  refine ⟨k, face, fun s => ?_⟩
  obtain ⟨n, -, bound⟩ := Action.boundedPairs_succ v.depth
    (fun n => HashKey.ofWithin supply n v) s
  rw [HashKey.of, bound, run]

theorem row?_of_isAtom (atom : v.isAtom = true) : v.row? = none := by
  cases v <;> first | rfl | cases atom

theorem isNaN_of_isAtom (atom : v.isAtom = true) : v.isNaN = false := by
  cases v with
  | float x => simpa [Value.isAtom, Value.isNaN] using atom
  | _ => rfl

theorem atomsEqual_iff_face (left : x.isAtom = true) (right : y.isAtom = true) :
    atomsEqual x y = true ↔ x.face = y.face :=
  Value.atomsEqual_iff (row?_of_isAtom left) (row?_of_isAtom right) (isNaN_of_isAtom left)

/-- Whether data without parts are equal does not depend on the session. -/
theorem equal_of_isAtom (supply : Supplier) (left : x.isAtom = true) (right : y.isAtom = true) :
    equal supply x y s = .ok (atomsEqual x y) s := by
  obtain ⟨n, -, bound⟩ := Action.boundedPairs_succ x.depth
    (fun n => equalWithin supply n x y) s
  rw [equal, bound, (equalWithin_atom left y n).1, row?_of_isAtom right]
  rfl

/-- Names without parts are told apart by what they are. -/
theorem distinguished_of_isAtom {names : List Value} (plain : ∀ x ∈ names, x.isAtom = true)
    (s : Session) : Distinguished s atomsEqual names where
  refl hx := (atomsEqual_iff_face (plain _ hx) (plain _ hx)).2 rfl
  symm hx hy same := by
    rw [atomsEqual_iff_face (plain _ hx) (plain _ hy)] at same
    exact (atomsEqual_iff_face (plain _ hy) (plain _ hx)).2 same.symm
  trans hx hy hz first second := by
    rw [atomsEqual_iff_face (plain _ hx) (plain _ hy)] at first
    rw [atomsEqual_iff_face (plain _ hy) (plain _ hz)] at second
    exact (atomsEqual_iff_face (plain _ hx) (plain _ hz)).2 (first.trans second)
  hashes hx u _ := by
    obtain ⟨k, -, run⟩ := hash_of_isAtom Deferred.supplier (plain _ hx)
    exact ⟨k, u, run u⟩
  found {x y k l t t' u u' v} hx hy _ kept _ sought _ := by
    obtain ⟨k', left, run⟩ := hash_of_isAtom Deferred.supplier (plain _ hx)
    obtain ⟨l', right, run'⟩ := hash_of_isAtom Deferred.supplier (plain _ hy)
    cases (run t).symm.trans kept
    cases (run' u).symm.trans sought
    have equal := equal_of_isAtom Deferred.supplier (s := v) (plain _ hx) (plain _ hy)
    refine ⟨v, ?_⟩
    by_cases same : k = l
    · have alike : atomsEqual x y = true := by
        rw [atomsEqual_iff_face (plain _ hx) (plain _ hy), left, right, same]
      rw [alike] at equal ⊢
      rw [same]
      exact hit_of_equal equal
    · have apart : atomsEqual x y = false := by
        rw [← Bool.not_eq_true, atomsEqual_iff_face (plain _ hx) (plain _ hy), left, right]
        exact fun faces => same (Face.plain.inj faces)
      rw [apart]
      exact hit_of_ne same

end

/-! ### The argument map of a directive -/

/-- Every argument of a directive stands in its map, at its own place and under its own name, and
is found there. -/
structure Lossless (s : Session) (r : Ref .directive) (entries : List Entry) : Prop where
  size : entries.length = (s.directive r).args.items.length
  keys : entries.map (fun e => some e.key) = (s.directive r).args.items.map s.nameOf
  found {a : Value} : a ∈ (s.directive r).args.items → ∃ name, s.nameOf a = some name ∧
    mapGet Deferred.supplier (.directive r) name s = .ok a s

theorem lossless_of_titled {ns : List String} (h : Titled s (s.directive r).args.items ns) :
    ∃ entries, argumentMap Deferred.supplier r s = .ok entries s ∧ Lossless s r entries := by
  have none : Lists s [] [] :=
    ⟨rfl, fun he => absurd he List.not_mem_nil, fun he => absurd he List.not_mem_nil,
      List.nodup_nil⟩
  obtain ⟨entries, run, listed⟩ := addNamed_of_titled Deferred.supplier h.texts h.nodup none
    fun _ he => absurd he List.not_mem_nil
  rw [List.nil_append] at listed
  have read : argumentMap Deferred.supplier r s = .ok entries s := run
  refine ⟨entries, read, ⟨?_, listed.keys, fun {a} among => ?_⟩⟩
  · rw [← listed.values, List.length_map]
  · obtain ⟨e, he, rfl⟩ := List.mem_map.1 (listed.values ▸ among)
    exact ⟨e.key, listed.named he, mapGet_of_lists read listed among (listed.named he)⟩

/-- The map of a directive in a collection that was accepted holds all its arguments, each under its
own name. In the map of any directive whose arguments have names that can be told apart, each of
these names stands where it first occurs, over the last argument that has it. -/
theorem argument_map_by_name :
    (∀ {s s' u : Session} {collection : Value} {vs : List Value} {r : Ref .directive},
      validate Deferred.supplier collection s = .ok () s' →
      Container.elements collection s = .ok vs s → .directive r ∈ vs →
      r.index < s.directives.size → s'.Leads u →
        ∃ entries, argumentMap Deferred.supplier r u = .ok entries u ∧ Lossless u r entries) ∧
    ∀ {u : Session} {r : Ref .directive} {alike : Value → Value → Bool},
      (∀ a ∈ (u.directive r).args.items, (u.nameOf a).isSome = true) →
      Distinguished u alike ((u.titles (u.directive r).args.items).map Prod.fst) →
        ∃ entries u', argumentMap Deferred.supplier r u = .ok entries u' ∧ u.Leads u' ∧
          Indexes alike (u.titles (u.directive r).args.items) entries := by
  constructor
  · intro s s' u collection vs r valid listed among live later
    obtain ⟨vs', listed', checked⟩ := elements_of_validate valid
    cases listed.symm.trans listed'
    obtain ⟨ns, titled⟩ := titled_of_checkDirectives checked among live
    have since : s.Leads u := ((leads.checkDirectives [] [] vs).of_ok checked).trans later
    have titled := titled.later later
    rw [← since.extends.directive live] at titled
    exact lossless_of_titled titled
  · intro u r alike named told
    have start : Collected u u alike ((u.titles (u.directive r).args.items).map Prod.fst) [] [] :=
      { keys := rfl
        values := fun he => absurd he List.not_mem_nil
        since := .refl
        among := fun he => absurd he List.not_mem_nil
        apart := .nil
        kept := fun he => absurd he List.not_mem_nil }
    obtain ⟨entries, u', run, all⟩ := start.addAll told fun a ha => by
      obtain ⟨name, read⟩ := Option.isSome_iff_exists.1 (named a ha)
      refine ⟨name, List.mem_map.2 ⟨(name, a), ?_, rfl⟩, read⟩
      exact List.mem_filterMap.2 ⟨a, ha, by rw [read]; rfl⟩
    exact ⟨entries, u', run, all.since, all.toIndexes⟩

/-- A directive with three arguments. Once it was accepted, one of them takes the name of another
one, and the third takes a number for a name. -/
def renamed : List Request :=
  let flag (name : String) : Expression :=
    .argument (some (.text name)) (some (.deferred name (.ref "Boolean"))) none none
  [.declare "x" (flag "FIELD"), .declare "y" (flag "b"), .declare "z" (flag "c"),
    .declare "d" (.directive .constructor (some (.text "d")) (some (.list [.location .field]))
      (some (.tuple [.ref "x", .ref "y", .ref "z"])) none),
    .set (.ref "z") "name" (.location .field), .set (.ref "y") "name" (.int 1)]

theorem renamed_arguments_are_found_by_name :
    let s := (BuiltIn.session.runAll (renamed.take 4)).2
    let u := (BuiltIn.session.runAll renamed).2
    let d : Ref .directive := ⟨2⟩
    (∃ s', validate Deferred.supplier (.tuple 0 [.directive d]) s = .ok () s' ∧
      ∃ entries, argumentMap Deferred.supplier d s' = .ok entries s' ∧ Lossless s' d entries) ∧
    ∃ entries u', argumentMap Deferred.supplier d u = .ok entries u' ∧ u.Leads u' ∧
      Indexes atomsEqual (u.titles (u.directive d).args.items) entries ∧ entries.length = 2 := by
  intro s u d
  constructor
  · have accepted : (validate Deferred.supplier (.tuple 0 [.directive d])).result? s = some () := by
      decide +kernel
    obtain ⟨s', valid⟩ := Action.ok_of_result? accepted
    exact ⟨s', valid, argument_map_by_name.1 valid rfl List.mem_cons_self (by decide +kernel) .refl⟩
  · have named : ∀ a ∈ (u.directive d).args.items, (u.nameOf a).isSome = true := by decide +kernel
    have plain : ∀ x ∈ (u.titles (u.directive d).args.items).map Prod.fst, x.isAtom = true := by
      decide +kernel
    have two : (((u.titles (u.directive d).args.items).map Prod.fst).eraseDupsBy
        fun later earlier => atomsEqual earlier later).length = 2 := by decide +kernel
    obtain ⟨entries, u', run, since, indexes⟩ :=
      argument_map_by_name.2 named (distinguished_of_isAtom plain u)
    exact ⟨entries, u', run, since, indexes, by rw [← two, ← indexes.keys, List.length_map]⟩

/-- Two arguments that hash alike, one of which lost an attribute, are the names of two others. -/
def damagedNames : List Request :=
  let key : Expression := .argument (some (.text "arg")) (some (.ref "Int")) none none
  let named (name : String) : Expression :=
    .argument (some (.ref name)) (some (.ref "Int")) none none
  [.declare "x" key, .declare "y" key, .delete (.ref "y") "description",
    .declare "d" (.directive .constructor (some (.text "d")) (some (.list []))
      (some (.list [named "x", named "y"])) none)]

/-- Names that hash need not be told apart: when names with one hash cannot be compared, there is
no map. -/
theorem damaged_names_have_no_map :
    let s := (BuiltIn.session.runAll damagedNames).2
    let d : Ref .directive := ⟨2⟩
    (∀ a ∈ (s.directive d).args.items, ∃ name k s', s.nameOf a = some name ∧
      HashKey.of Deferred.supplier name s = .ok k s') ∧
    ∃ f s', argumentMap Deferred.supplier d s = .error f s' ∧ f.kind = .access := by
  intro s d
  constructor
  · have hashed : ∀ a ∈ (s.directive d).args.items, ((s.nameOf a).any fun name =>
        ((HashKey.of Deferred.supplier name).result? s).isSome) = true := by decide +kernel
    intro a ha
    obtain ⟨name, named, answers⟩ := (Option.any_eq_true _ _).1 (hashed a ha)
    obtain ⟨k, key⟩ := Option.isSome_iff_exists.1 answers
    obtain ⟨s', run⟩ := Action.ok_of_result? key
    exact ⟨name, k, s', named, run⟩
  · have kind : (argumentMap Deferred.supplier d).faultKind? s = some .access := by decide +kernel
    cases run : argumentMap Deferred.supplier d s with
    | ok entries s' => simp [Action.faultKind?, run] at kind
    | error f s' => exact ⟨f, s', rfl, by simpa [Action.faultKind?, run] using kind⟩

end Access

end DirectiveSchema
