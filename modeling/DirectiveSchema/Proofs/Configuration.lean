import DirectiveSchema.Proofs.Chronicle
import DirectiveSchema.Proofs.Nullability
import DirectiveSchema.Proofs.Recurrence
import DirectiveSchema.Proofs.Spelling

/-!
Configurations. A directive can be taken apart into a configuration and built again of it, as often
as one likes: the directives are equal, and so are the configurations. The types of the arguments
are not asked for, since an argument is the same as itself whatever its type is. Each configuration
has lists of its own, so that what is appended to one of them is seen nowhere else.
-/
namespace DirectiveSchema

open Directives (create toConfig)

variable {s s' t u : Session} {W : Census} {r : Ref .directive} {c v : Value} {tag : Nat}
  {name locations args description : Value}

/-! ### Sessions with more in use -/

/-- More lists and more identities are in use, and nothing else has changed. -/
structure Session.Spares (s u : Session) : Prop where
  lists : s.lists.Extends Eq u.lists
  nextTag : s.nextTag ≤ u.nextTag
  rest : u = { s with lists := u.lists, nextTag := u.nextTag }

namespace Session

/-- The texts of the locations of a directive can be made, wherever new lists lie and whichever
identities are new. -/
def LocationsShow (s : Session) (r : Ref .directive) : Prop :=
  ∀ u, s.Spares u → ∃ texts t,
    (s.directive r).locations.items.mapM (Display.label Deferred.supplier) u = .ok texts t

/-- All that a datum refers to is in the session. -/
def Has (s : Session) (v : Value) : Prop := ∃ W, s.Fits W ∧ v.Belongs W

/-- What is evaluated after any run of requests is in the session. -/
theorem has_of_eval {qs : List Request} {e : Expression}
    (run : e.eval Deferred.supplier (BuiltIn.session.runAll qs).2 = .ok v s) : s.Has v := by
  obtain ⟨C, -, -, fits⟩ := BuiltIn.session_fits.runAll qs
  have reached := fits qs.length
  rw [List.take_length] at reached
  have admits : (C qs.length).Yields true (e.eval Deferred.supplier) := .value e _
  obtain ⟨W', -, fits', result⟩ := admits _ reached
  rw [Action.after_of_ok run] at fits'
  exact ⟨W', fits', result v (Action.result?_of_ok run)⟩

/-- To take identities changes nothing. -/
theorem Fits.nextTag (h : s.Fits W) (tag : Nat) : { s with nextTag := tag }.Fits W :=
  h.beside rfl { h.toStores with } (fun k => by rw [← h.count k]; cases k <;> rfl) rfl rfl

theorem Persists.nextTag (le : s.nextTag ≤ tag) : s.Persists { s with nextTag := tag } :=
  .of_leaves { Extends.refl s with nextTag := le } { LeavesTypes.refl s with }

namespace Spares

theorem trans (h : s.Spares t) (h' : t.Spares u) : s.Spares u where
  lists := h.lists.trans Eq.trans h'.lists
  nextTag := Nat.le_trans h.nextTag h'.nextTag
  rest := by rw [h'.rest, h.rest]

theorem nextTag_of_le (le : s.nextTag ≤ tag) : s.Spares { s with nextTag := tag } :=
  ⟨.refl (fun _ => rfl) _, le, rfl⟩

theorem persists (h : s.Spares u) : s.Persists u := by
  have extension : s.Extends { s with lists := u.lists, nextTag := u.nextTag } :=
    { Session.Extends.refl s with lists := h.lists, nextTag := h.nextTag }
  have persists : s.Persists { s with lists := u.lists, nextTag := u.nextTag } :=
    .of_leaves extension { Session.LeavesTypes.refl s with }
  rwa [← h.rest] at persists

theorem toConfig (run : Directives.toConfig r s = .ok c u) : s.Spares u := by
  cases run
  constructor
  · exact (Arena.Extends.add (fun _ => rfl) s.lists _).trans Eq.trans (.add (fun _ => rfl) _ _)
  · exact Nat.le_succ _
  · rfl

end Spares

end Session

/-! ### From a directive and back -/

/-- A directive is built again of its own configuration: the two are equal and have the same
arguments. -/
def Session.Reconfigures (s : Session) (r : Ref .directive) : Prop :=
  ∃ c s₁ r' s₂, toConfig r s = .ok c s₁ ∧ Access.fromConfig Deferred.supplier c s₁ = .ok r' s₂ ∧
    Equality.equal Deferred.supplier (.directive r') (.directive r) s₂ = .ok true s₂ ∧
    (s₂.directive r').args.items = (s.directive r).args.items ∧
    s₂.directive r = s.directive r

namespace Directives

/-- A construction changes nothing that was there. -/
theorem extends_of_create
    (run : create Deferred.supplier name locations args description s = .ok r t) :
    s.Extends t := by
  have growth := Session.Extends.growth
  have keeps : Keeps Session.Extends
      (create Deferred.supplier name locations args description) :=
    growth.createDirective growth.supplier.toObserving [] _ _ _ _
  exact keeps.of_ok run

theorem elements_list {l : Ref .list} {xs : List Value}
    (h : Container.elements (.list l) s = .ok xs t) : xs = s.list l := by
  have same : (.ok (s.list l) s : EStateM.Result Fault Session (List Value)) = .ok xs t := h
  injection same with same
  exact same.symm

/-- A directive is built of its own configuration when the texts of its locations can be made. -/
theorem fromConfig_of_toConfig (run : toConfig r s = .ok c t)
    (written : ∀ tag, t.nextTag ≤ tag → ∃ texts u,
      (s.directive r).locations.items.mapM (Display.label Deferred.supplier)
        { t with nextTag := tag } = .ok texts u) :
    ∃ r' u, Access.fromConfig Deferred.supplier c t = .ok r' u ∧ t.Extends u ∧
      r'.index < u.directives.size ∧ (u.directive r').Respelt (s.directive r) := by
  obtain ⟨tag, l, k, t', made, locations, args, -, -, -, -⟩ := toConfig_ok r s
  cases made.symm.trans run
  obtain ⟨text, spelt, -⟩ := ((Value.isName_iff _).1 (s.directive r).named).ascii
  have showable : Showable t (s.directive r).name (.list l) := by
    constructor
    · exact ⟨text, t, Validation.label_of_text spelt t⟩
    · rintro xs - ⟨⟩ tag le
      rw [locations]
      exact written tag le
  obtain ⟨r', u, again, noted⟩ : ∃ r' u,
      create Deferred.supplier (s.directive r).name (.list l) (.list k) (s.directive r).description
        t = .ok r' u ∧
      Noted t (s.directive r).name (.list l) (.list k) (s.directive r).description r' u :=
    create_of_sound showable (s.directive r).named rfl (.inr rfl)
  have built := noted.built
  have passed : (u.directive r').args.items = (s.directive r).args.items := by
    rcases built.args with ⟨absent, -⟩ | elements
    · cases absent
    · exact (elements_list elements).trans args
  have placed : (u.directive r').locations.items = (s.directive r).locations.items :=
    (elements_list built.locations).trans locations
  refine ⟨r', u, again, extends_of_create again, (create_ok again).1, ?_⟩
  refine ⟨built.name, built.description, ?_, passed⟩
  rw [placed]
  exact List.forall₂_same.2 fun v _ => .refl v

/-- Texts and locations can be written anywhere. -/
theorem locationsShow_of_texts
    (texts : ∀ v ∈ (s.directive r).locations.items, v.text?.isSome = true) :
    s.LocationsShow r := by
  intro u _
  have labels : ∀ v ∈ (s.directive r).locations.items,
      Display.label Deferred.supplier v u = .ok (nameText v) u := by
    intro v among
    obtain ⟨text, spelt⟩ := Option.isSome_iff_exists.1 (texts v among)
    rw [Validation.label_of_text spelt, nameText, spelt]
    rfl
  exact ⟨_, _, Action.mapM_of_ok labels⟩

theorem reconfigures (shows : s.LocationsShow r) (live : r.index < s.directives.size) :
    s.Reconfigures r := by
  obtain ⟨tag, l, k, t, run, -, -, -, -, same, -⟩ := toConfig_ok r s
  have spares := Session.Spares.toConfig run
  obtain ⟨r', u, again, extension, live', respelt⟩ := fromConfig_of_toConfig run fun tag le =>
    shows _ (spares.trans (.nextTag_of_le le))
  have kept : u.directive r = s.directive r :=
    (spares.persists.extension.trans extension).directive live
  rw [← kept] at respelt
  refine ⟨_, t, r', u, run, again, equal_of_respelt respelt live', ?_, kept⟩
  rw [respelt.args, kept]

end Directives

/-! ### From a configuration and back -/

namespace Value

/-- The lists among the fields of a configuration. -/
def configLists : Value → List (Ref .list)
  | .config _ _ locations args _ => [locations, args].filterMap fun
    | .list l => some l
    | _ => none
  | _ => []

theorem mem_configLists {p : Ref .list} :
    p ∈ (config tag name locations args description).configLists ↔
      locations = .list p ∨ args = .list p := by
  simp only [configLists, List.mem_filterMap, List.mem_cons, List.not_mem_nil, or_false,
    exists_eq_or_imp, exists_eq_left]
  cases locations <;> cases args <;> simp

end Value

theorem Session.Has.configLists (has : s.Has c) {p : Ref .list} (among : p ∈ c.configLists) :
    p.index < s.lists.size := by
  obtain ⟨W, fits, belongs⟩ := has
  cases c with
  | config =>
    obtain ⟨-, locations, args, -⟩ := Value.belongs_config.1 belongs
    refine Nat.lt_of_lt_of_eq ?_ (fits.count .list).symm
    rcases Value.mem_configLists.1 among with rfl | rfl
    · exact locations.counted rfl
    · exact args.counted rfl
  | _ => cases among

/-- A configuration has the name and the description of another, and lists of the elements that the
other has as locations and as arguments. -/
inductive Session.Lists (s t : Session) : Value → Value → Prop
  | intro {tag tag' : Nat} {name locations args description : Value} {l k : Ref .list}
    (located : Container.elements locations s = .ok (t.list l) s)
    (given : args = .null ∧ t.list k = [] ∨ Container.elements args s = .ok (t.list k) s) :
    s.Lists t (.config tag name locations args description)
      (.config tag' name (.list l) (.list k) description)

/-- A directive that was built of a configuration is taken apart into a configuration of the same
data. Of this a directive is built again, and the configuration of that one is equal. No two of the
three have a list in common. -/
def Session.Restates (s : Session) (c : Value) (r : Ref .directive) (t : Session) : Prop :=
  ∃ c₁ t₁ r' t₂ c₂ t₃, toConfig r t = .ok c₁ t₁ ∧ s.Lists t₁ c c₁ ∧
    Access.fromConfig Deferred.supplier c₁ t₁ = .ok r' t₂ ∧ toConfig r' t₂ = .ok c₂ t₃ ∧
    Equality.equal Deferred.supplier c₂ c₁ t₃ = .ok true t₃ ∧
    [c, c₁, c₂].Pairwise fun a b => a.configLists.Disjoint b.configLists

namespace Directives

/-- The lists of a configuration are new. -/
theorem configLists_of_toConfig (run : toConfig r s = .ok c t) {p : Ref .list}
    (among : p ∈ c.configLists) : s.lists.size ≤ p.index ∧ p.index < t.lists.size := by
  cases run
  simp only [Arena.size_add]
  rcases Value.mem_configLists.1 among with same | same
  · cases same
    dsimp only
    omega
  · cases same
    simp only [Arena.size_add]
    omega

/-- The texts that were made when a directive was built can be made again. -/
theorem labels_again (has : s.Has (.config tag name locations args description))
    (run : create Deferred.supplier name locations args description s = .ok r t)
    (since : t.Persists u) : ∃ texts u',
      (t.directive r).locations.items.mapM (Display.label Deferred.supplier) u = .ok texts u' := by
  obtain ⟨W, fits, belongs⟩ := has
  obtain ⟨-, located, -, -⟩ := Value.belongs_config.1 belongs
  obtain ⟨built, text, texts, u₀, tag, -, written, -, same⟩ := (create_noted run).1
  have admits : W.Admits true (Container.elements locations) fun W' vs => W'.Includes vs :=
    .elements located
  obtain ⟨W', -, fits', result⟩ := admits s fits
  rw [Action.after_of_ok built.locations] at fits'
  have includes := result _ (Action.result?_of_ok built.locations)
  have persists : u₀.Persists t := by
    have addition := Session.Persists.addition
    rw [same]
    exact addition.trans (addition.newDirective _ u₀) (addition.created text texts _)
  have recurs := Candid.supplier.recurs_labels Candid.supplier [] includes
  obtain ⟨calls, again⟩ := recurs _ texts u₀ (fits'.nextTag tag) written u
    (Session.Persists.lasting.trans persists since)
  exact ⟨texts, _, again⟩

theorem restates (has : s.Has (.config tag name locations args description))
    (run : create Deferred.supplier name locations args description s = .ok r t) :
    s.Restates (.config tag name locations args description) r t := by
  have built := (create_noted run).1.built
  obtain ⟨tag₁, l, k, t₁, first, located, given, ll, lk, -, -⟩ := toConfig_ok r t
  have spares := Session.Spares.toConfig first
  obtain ⟨r', t₂, again, extension, live', respelt⟩ := fromConfig_of_toConfig first fun tag' le =>
    labels_again has run (Session.Persists.lasting.trans spares.persists (.nextTag le))
  obtain ⟨tag₂, l', k', t₃, second, located', given', -, -, same, kept⟩ := toConfig_ok r' t₂
  have size := extension.lists.size
  have ll₂ : l.index < t₂.lists.size := Nat.lt_of_lt_of_le ll size
  have lk₂ : k.index < t₂.lists.size := Nat.lt_of_lt_of_le lk size
  refine ⟨_, t₁, r', t₂, _, t₃, first, ?_, again, second, ?_, ?_⟩
  · rw [built.name, built.description]
    constructor
    · rw [located]
      exact built.locations
    · rw [given]
      exact built.args
  · have locationsKept : t₃.list l = (t.directive r).locations.items := by
      rw [kept ll₂, ← located]
      exact (extension.lists.cell ll).symm
    have argsKept : t₃.list k = (t.directive r).args.items := by
      rw [kept lk₂, ← given]
      exact (extension.lists.cell lk).symm
    rw [respelt.name, respelt.description]
    apply equal_configs
    · rw [located', locationsKept]
      exact respelt.locations
    · rw [given', argsKept]
      exact respelt.args
    · have live₃ : r'.index < t₃.directives.size := by rwa [same]
      exact HashKey.two_le_reach live₃
  · have before {p : Ref .list}
        (among : p ∈ (Value.config tag name locations args description).configLists) :
        p.index < t.lists.size :=
      Nat.lt_of_lt_of_le (has.configLists among) (extends_of_create run).lists.size
    have between := fun {p : Ref .list} => configLists_of_toConfig (p := p) first
    have after := fun {p : Ref .list} => configLists_of_toConfig (p := p) second
    have more := spares.lists.size
    rw [List.pairwise_cons, List.pairwise_pair]
    constructor
    · rintro _ (_ | ⟨_, _ | ⟨_, ⟨⟩⟩⟩) p among among'
      · have := before among
        have := between among'
        omega
      · have := before among
        have := after among'
        omega
    · intro p among among'
      have := between among
      have := after among'
      omega

/-- What is appended to a list of a configuration changes no directive and no list of another
configuration. -/
theorem append_apart {x : Value} {p : Ref .list} (among : p ∈ c.configLists)
    (run : Access.append (.list p) x s = .ok () t) : t.directives = s.directives ∧
      ∀ c' : Value, c.configLists.Disjoint c'.configLists → ∀ q ∈ c'.configLists,
        t.list q = s.list q := by
  cases run
  refine ⟨rfl, fun c' apart q among' => ?_⟩
  have other : p.index ≠ q.index := by
    intro same
    obtain rfl : p = q := Value.eq_iff_index.2 same
    exact apart among among'
  exact Arena.get_put_of_ne s.lists _ other

/-- Directives and configurations are made of each other. A directive whose locations can be written
is built again of its own configuration, whatever became of its arguments. A configuration of which a
directive was built comes back, in lists of its own, as often as it is asked for; and what is appended
to these lists is seen in no directive and in no other configuration. -/
theorem configurations_round_trip :
    (∀ {s : Session} {r : Ref .directive}, r.index < s.directives.size → s.LocationsShow r →
      s.Reconfigures r) ∧
    (∀ {s t : Session} {r : Ref .directive} {tag : Nat} {name locations args description : Value},
      s.Has (.config tag name locations args description) →
      Access.fromConfig Deferred.supplier (.config tag name locations args description) s =
        .ok r t → s.Restates (.config tag name locations args description) r t) ∧
    ∀ {s t : Session} {c x : Value} {p : Ref .list}, p ∈ c.configLists →
      Access.append (.list p) x s = .ok () t → t.directives = s.directives ∧
        ∀ c' : Value, c.configLists.Disjoint c'.configLists → ∀ q ∈ c'.configLists,
          t.list q = s.list q := by
  constructor
  · intro s r live shows
    exact reconfigures shows live
  constructor
  · intro s t r tag name locations args description has run
    exact restates has run
  · intro s t c x p among run
    exact append_apart among run

/-- A directive that has an argument whose type cannot be resolved. -/
def withRaisingArgument : List Request :=
  [.declare "d" (.directive .constructor (some (.text "sample"))
      (some (.tuple [.location .field, .text "NOWHERE"]))
      (some (.list [.argument (some (.text "bar"))
        (some (.deferred "z" (.raising .value "boom"))) none none])) none)]

/-- The configuration of a directive without arguments, with locations in a tuple. -/
def tupledConfiguration : Value :=
  .config 6 (.text "other") (.tuple 3 BuiltIn.executableLocations) .null .null

/-- The configuration of a directive with locations in a list. -/
def listedConfiguration : Value := .config 6 (.text "third") (.list ⟨0⟩) .null .null

theorem sample_configurations_round_trip :
    let s := (BuiltIn.session.runAll withRaisingArgument).2
    s.LocationsShow ⟨2⟩ ∧ s.Reconfigures ⟨2⟩ ∧ BuiltIn.session.Has tupledConfiguration ∧
      (∃ r t, Access.fromConfig Deferred.supplier tupledConfiguration BuiltIn.session = .ok r t ∧
        BuiltIn.session.Restates tupledConfiguration r t) ∧
      ∃ t, Access.append (.list ⟨0⟩) .null s = .ok () t ∧ t.directives = s.directives := by
  intro s
  have texts : ((s.directive ⟨2⟩).locations.items.all fun v => v.text?.isSome) = true := by
    decide +kernel
  have live : 2 < s.directives.size := by decide +kernel
  have shows : s.LocationsShow ⟨2⟩ := locationsShow_of_texts (List.all_eq_true.1 texts)
  have listed : ∀ x ∈ tupledConfiguration.leaves, x.IsListed BuiltIn.census := by decide +kernel
  have has : BuiltIn.session.Has tupledConfiguration := ⟨_, BuiltIn.session_fits, listed⟩
  obtain ⟨reconfigures, restates, apart⟩ := configurations_round_trip
  refine ⟨shows, reconfigures live shows, has, ⟨_, _, rfl, restates has rfl⟩, _, rfl, ?_⟩
  have among : ⟨0⟩ ∈ listedConfiguration.configLists := Value.mem_configLists.2 (.inl rfl)
  exact (apart among rfl).1

end Directives

end DirectiveSchema
