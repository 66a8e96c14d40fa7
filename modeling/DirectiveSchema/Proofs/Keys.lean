import DirectiveSchema.Container.Keyed
import DirectiveSchema.Proofs.Keeps

/-!
Keys that no session decides. Plain data without lists, sets and dictionaries hash alike in every
session. Data with distinct keys of this kind are gathered in a set or a dictionary as they come,
without being compared.
-/
namespace DirectiveSchema

variable {supply : Supplier} {s : Session}

namespace Value

mutual

/-- The hash key of a datum that neither reads nor changes the session. -/
def key? : Value → Option HashKey
  | .null => some .null
  | .unnamed => some .unnamed
  | .bool b => some (.integer b.toInt)
  | .int n => some (.integer n)
  | .float x => some (.float x)
  | .text s => some (.text s)
  | .location l => some (.text l.tag)
  | .bytes bs => some (.bytes bs)
  | .tuple _ items => (keys? items).map .row
  | .config _ name locations args description => do
    let name ← name.key?
    let locations ← locations.key?
    let args ← args.key?
    let description ← description.key?
    return .row [name, locations, args, description]
  | _ => none

def keys? : List Value → Option (List HashKey)
  | [] => some []
  | v :: vs => do
    let key ← v.key?
    let keys ← keys? vs
    return key :: keys

end

end Value

namespace HashKey

mutual

theorem ofWithin_of_key : ∀ (v : Value) {k : HashKey} {n : Nat}, v.key? = some k → v.depth < n →
    ofWithin supply n v s = .ok k s
  | .tuple _ items, k, n, h, deep => by
    obtain ⟨keys, found, rfl⟩ := Option.map_eq_some_iff.1 (by simpa only [Value.key?] using h)
    obtain ⟨m, rfl⟩ : ∃ m, n = m + 1 := ⟨n - 1, by omega⟩
    have less : Value.depths items < m := by
      simp only [Value.depth] at deep
      omega
    exact Action.bind_of_ok (mapM_of_keys items found less)
  | .config _ name locations args description, k, n, h, deep => by
    simp only [Value.key?, Option.bind_eq_bind, Option.bind_eq_some_iff, Option.pure_def,
      Option.some.injEq] at h
    obtain ⟨a, ha, b, hb, c, hc, d, hd, rfl⟩ := h
    obtain ⟨m, rfl⟩ : ∃ m, n = m + 1 := ⟨n - 1, by omega⟩
    simp only [Value.depth] at deep
    have first := ofWithin_of_key name ha (n := m) (by omega)
    have second := ofWithin_of_key locations hb (n := m) (by omega)
    have third := ofWithin_of_key args hc (n := m) (by omega)
    have fourth := ofWithin_of_key description hd (n := m) (by omega)
    have all : [name, locations, args, description].mapM (ofWithin supply m) s =
        .ok [a, b, c, d] s := by
      simp only [List.mapM_cons, List.mapM_nil]
      rw [Action.bind_of_ok first]
      refine Action.bind_of_ok ?_
      rw [Action.bind_of_ok second]
      refine Action.bind_of_ok ?_
      rw [Action.bind_of_ok third]
      refine Action.bind_of_ok ?_
      rw [Action.bind_of_ok fourth]
      rfl
    exact Action.bind_of_ok all
  | .null, k, n, h, deep | .unnamed, k, n, h, deep | .bool _, k, n, h, deep
  | .int _, k, n, h, deep | .float _, k, n, h, deep | .text _, k, n, h, deep
  | .bytes _, k, n, h, deep | .location _, k, n, h, deep => by
    obtain ⟨m, rfl⟩ : ∃ m, n = m + 1 := ⟨n - 1, by omega⟩
    simp only [Value.key?, Option.some.injEq] at h
    subst h
    rfl
  | .foreign _ _, k, n, h, _ | .list _, k, n, h, _ | .set _, k, n, h, _ | .dict _, k, n, h, _
  | .named _, k, n, h, _ | .scalar _, k, n, h, _ | .wrapper _ _, k, n, h, _
  | .argument _, k, n, h, _ | .directive _, k, n, h, _ | .deferred _, k, n, h, _ => by
    simp only [Value.key?, reduceCtorEq] at h

theorem mapM_of_keys : ∀ (vs : List Value) {ks : List HashKey} {n : Nat},
    Value.keys? vs = some ks → Value.depths vs < n → vs.mapM (ofWithin supply n) s = .ok ks s
  | [], ks, n, h, _ => by
    cases h
    rfl
  | v :: vs, ks, n, h, deep => by
    simp only [Value.keys?, Option.bind_eq_bind, Option.bind_eq_some_iff, Option.pure_def,
      Option.some.injEq] at h
    obtain ⟨key, first, keys, rest, rfl⟩ := h
    simp only [Value.depths] at deep
    have head := ofWithin_of_key v first (n := n) (by omega)
    have tail := mapM_of_keys vs rest (n := n) (by omega)
    rw [List.mapM_cons, Action.bind_of_ok head, Action.bind_of_ok tail]
    rfl

end

theorem of_key {v : Value} {k : HashKey} (h : v.key? = some k) :
    HashKey.of supply v s = .ok k s := by
  obtain ⟨n, enough, bound⟩ := Action.boundedPairs_succ v.depth
    (fun n => ofWithin supply n v) s
  rw [HashKey.of, bound]
  exact ofWithin_of_key v h (by omega)

end HashKey

namespace Container

variable {eq : Value → Value → Action Bool}

theorem holds_of_fresh {m : Member} {members : List Member} (h : ∀ u ∈ members, u.hash ≠ m.hash) :
    Equality.holds eq m members s = .ok false s := by
  induction members with
  | nil => rfl
  | cons u rest ih =>
    have other : Equality.hit eq u.hash u.value m.hash m.value s = .ok false s := by
      rw [Equality.hit, if_neg (h u List.mem_cons_self)]
      rfl
    rw [Equality.holds, Action.bind_of_ok other]
    exact ih fun w hw => h w (List.mem_cons_of_mem u hw)

theorem put_of_fresh {e : Entry} {entries : List Entry} (h : ∀ u ∈ entries, u.hash ≠ e.hash) :
    put supply e entries s = .ok (entries ++ [e]) s := by
  induction entries with
  | nil => rfl
  | cons u rest ih =>
    have other : Equality.hit (Equality.equal supply) u.hash u.key e.hash e.key s =
        .ok false s := by
      rw [Equality.hit, if_neg (h u List.mem_cons_self)]
      rfl
    have put := ih fun w hw => h w (List.mem_cons_of_mem u hw)
    rw [Container.put, Action.bind_of_ok other]
    exact Action.bind_of_ok put

theorem addMembers_of_keys (members done : List Member)
    (keyed : ∀ m ∈ members, m.value.key? = some m.hash)
    (nodup : ((done ++ members).map Member.hash).Nodup) :
    (members.map Member.value).foldlM (addMember supply) done s = .ok (done ++ members) s := by
  induction members generalizing done with
  | nil =>
    rw [List.append_nil]
    rfl
  | cons m members ih =>
    have apart : ∀ u ∈ done, u.hash ≠ m.hash := by
      rw [List.map_append] at nodup
      intro u hu same
      exact (List.nodup_append.1 nodup).2.2 _ (List.mem_map_of_mem hu) _
        (List.mem_map_of_mem List.mem_cons_self) same
    have fresh : Equality.holds (Equality.equal supply) ⟨m.hash, m.value⟩ done s = .ok false s :=
      holds_of_fresh apart
    have added : addMember supply done m.value s = .ok (done ++ [m]) s := by
      rw [addMember, Action.bind_of_ok (HashKey.of_key (keyed m List.mem_cons_self)),
        Action.bind_of_ok fresh]
      rfl
    have rest := ih (done ++ [m]) (fun u hu => keyed u (List.mem_cons_of_mem m hu))
      (by rwa [List.append_assoc])
    rw [List.map_cons, List.foldlM_cons, Action.bind_of_ok added, rest, List.append_assoc]
    rfl

/-- Elements with keys of their own make up a set as they come. -/
theorem distinct_of_keys {members : List Member}
    (keyed : ∀ m ∈ members, m.value.key? = some m.hash)
    (nodup : (members.map Member.hash).Nodup) :
    distinct supply (members.map Member.value) s = .ok members s :=
  addMembers_of_keys members [] keyed nodup

theorem addEntries_of_keys (entries done : List Entry)
    (keyed : ∀ e ∈ entries, e.key.key? = some e.hash)
    (nodup : ((done ++ entries).map Entry.hash).Nodup) :
    (entries.map fun e => (e.key, e.value)).foldlM
        (fun es p => assign supply es p.1 p.2) done s = .ok (done ++ entries) s := by
  induction entries generalizing done with
  | nil =>
    rw [List.append_nil]
    rfl
  | cons e entries ih =>
    have apart : ∀ u ∈ done, u.hash ≠ e.hash := by
      rw [List.map_append] at nodup
      intro u hu same
      exact (List.nodup_append.1 nodup).2.2 _ (List.mem_map_of_mem hu) _
        (List.mem_map_of_mem List.mem_cons_self) same
    have added : assign supply done e.key e.value s = .ok (done ++ [e]) s := by
      rw [assign, Action.bind_of_ok (HashKey.of_key (keyed e List.mem_cons_self))]
      exact put_of_fresh apart
    have rest := ih (done ++ [e]) (fun u hu => keyed u (List.mem_cons_of_mem e hu))
      (by rwa [List.append_assoc])
    rw [List.map_cons, List.foldlM_cons, Action.bind_of_ok added, rest, List.append_assoc]
    rfl

/-- Entries with keys of their own make up a dictionary as they come. -/
theorem dictionary_of_keys {entries : List Entry}
    (keyed : ∀ e ∈ entries, e.key.key? = some e.hash)
    (nodup : (entries.map Entry.hash).Nodup) :
    dictionary supply (entries.map fun e => (e.key, e.value)) s = .ok entries s :=
  addEntries_of_keys entries [] keyed nodup

end Container

end DirectiveSchema
