import DirectiveSchema.Proofs.Comparisons

/-!
Gathering data tallies. Data hash to paired keys, so the same elements are found in sets and the
same entries in dictionaries, whichever session is asked; and what data yield is paired one by one.
-/
namespace DirectiveSchema

open Pairing

variable {φ ψ : Pairing} {strict : Prop} {ws ws' : List Value} {v v' : Value}

namespace Pairing.Relates

variable {a b : Nat} {xs ys : List Value}

theorem items (h : φ.Relates (.tuple a xs) (.tuple b ys)) : φ.RelatesAll xs ys := (tuple_iff.1 h).2

end Pairing.Relates

namespace Tallies

/-! ### Hash keys -/

theorem hashWithin {n m : Nat} (le : n ≤ m) (related : φ.Relates v v') :
    Tallies False φ (HashKey.ofWithin (.writes ws) n v) (HashKey.ofWithin (.writes ws') m v')
      RelatesKeys := by
  induction n generalizing m φ v v' with
  | zero => exact noRoom rfl False.elim
  | succ n ih =>
    obtain ⟨m, rfl⟩ := Nat.exists_eq_add_of_lt le
    have key {φ : Pairing} {v v' : Value} (related : φ.Relates v v') :
        Tallies False φ (HashKey.ofWithin (.writes ws) n v)
          (HashKey.ofWithin (.writes ws') (n + m) v') RelatesKeys :=
      ih (Nat.le_add_right n m) related
    have keys {φ : Pairing} {vs vs' : List Value} (related : φ.RelatesAll vs vs') :
        Tallies False φ (vs.mapM (HashKey.ofWithin (.writes ws) n))
          (vs'.mapM (HashKey.ofWithin (.writes ws') (n + m)))
          fun ψ => List.Forall₂ ψ.RelatesKeys :=
      mapM (R := Relates) (S := RelatesKeys) (fun holds => holds.elim)
        (fun le related => related.mono le) (fun le related => related.mono le) key related
    cases related with
    | null => exact pure .null
    | unnamed => exact pure .unnamed
    | bool b => exact pure (.integer _)
    | int i => exact pure (.integer i)
    | float number => exact pure (.float number)
    | nan tag => exact pure (.nan tag)
    | text s => exact pure (.text s)
    | bytes bs => exact pure (.bytes bs)
    | location l => exact pure (.text l.tag)
    | foreign s tag => exact pure (.tagged tag)
    | deferred counter tag => exact pure (.tagged tag)
    | named cell => exact pure (.object cell)
    | scalar cell => exact pure (.object cell)
    | tuple tag same parts =>
      exact (keys (Relates.tuple tag same parts).items).mapKept fun _ related => .row related
    | config tag name locations args description =>
      exact (keys (.cons name (.cons locations (.cons args (.cons description .nil))))).mapKept
        fun _ related => .row related
    | wrapper w paired =>
      refine (wrapped w paired).bind fun _ related => ?_
      exact (key related).mapKept fun _ related => .row (.cons (.wrapper w) (.cons related .nil))
    | argument paired =>
      refine (argumentName paired).bind fun {ψ₁ _ _} le₁ name => ?_
      refine (type (le₁ _ _ _ paired)).bind fun {ψ₂ _ _} le₂ type => ?_
      refine (key (name.mono le₂)).bind fun {ψ₃ _ _} le₃ name => ?_
      refine (key (type.mono le₃)).mapKept fun le₄ type => ?_
      exact .row (.cons (name.mono le₄) (.cons type .nil))
    | directive paired =>
      refine read fun s t abreast => ?_
      have related := abreast.directive paired
      refine (key related.name).bind fun {ψ₁ _ _} le₁ name => ?_
      refine (key (related.locations.mono le₁)).mapKept fun le₂ locations => ?_
      exact .row (.cons (name.mono le₂) (.cons locations .nil))
    | list | set | dict => exact throw (.inl rfl)

theorem hash (related : φ.Relates v v') :
    Tallies False φ (HashKey.of (.writes ws) v) (HashKey.of (.writes ws') v') RelatesKeys :=
  boundedPairs related.depth_eq fun _ _ _ le => hashWithin le related

/-! ### Sets and dictionaries -/

theorem addMember {ms ms' : List Member} (members : φ.RelatesSets ms ms')
    (related : φ.Relates v v') :
    Tallies False φ (Container.addMember (.writes ws) ms v)
      (Container.addMember (.writes ws') ms' v') RelatesSets := by
  refine (hash related).bind fun {ψ k k'} le key => ?_
  have member : ψ.RelatesMembers ⟨k, v⟩ ⟨k', v'⟩ := ⟨key, related.mono le⟩
  have members : ψ.RelatesSets ms ms' := members.imp fun _ _ m => m.mono le
  refine .test (equal.holds member members) (fun le' => pure ?_) fun le' => pure ?_
  · exact members.imp fun _ _ m => m.mono le'
  · exact List.rel_append (members.imp fun _ _ m => m.mono le') (.cons (member.mono le') .nil)

theorem distinct {vs vs' : List Value} (related : φ.RelatesAll vs vs') :
    Tallies False φ (Container.distinct (.writes ws) vs) (Container.distinct (.writes ws') vs')
      RelatesSets :=
  foldlM (R := Relates) (S := RelatesSets) (fun le related => related.mono le) addMember related
    .nil

theorem put {e e' : Entry} {es es' : List Entry} (entry : φ.RelatesEntries e e')
    (entries : φ.RelatesDicts es es') :
    Tallies False φ (Container.put (.writes ws) e es) (Container.put (.writes ws') e' es')
      RelatesDicts := by
  induction es generalizing φ es' with
  | nil =>
    cases entries with
    | nil => exact pure (.cons entry .nil)
  | cons u es ih =>
    cases entries with
    | cons first rest =>
      have tail {ψ : Pairing} (le : φ ≤ ψ) : ψ.RelatesDicts _ _ := rest.imp fun _ _ u => u.mono le
      refine .test (equal.hit first.hash first.key entry.hash entry.key) (fun le => pure ?_)
        fun le => ?_
      · exact .cons { first.mono le with value := entry.value.mono le } (tail le)
      · exact (ih (entry.mono le) (tail le)).mapKept fun le' rest =>
          .cons (first.mono (le_trans le le')) rest

theorem assign {es es' : List Entry} {k k' : Value} (entries : φ.RelatesDicts es es')
    (key : φ.Relates k k') (related : φ.Relates v v') :
    Tallies False φ (Container.assign (.writes ws) es k v)
      (Container.assign (.writes ws') es' k' v') RelatesDicts :=
  (hash key).bind fun le hash =>
    put ⟨hash, key.mono le, related.mono le⟩ (entries.imp fun _ _ e => e.mono le)

theorem dictionary {ps ps' : List (Value × Value)} (related : φ.RelatesAssignments ps ps') :
    Tallies False φ (Container.dictionary (.writes ws) ps) (Container.dictionary (.writes ws') ps')
      RelatesDicts :=
  foldlM (R := fun φ (p q : Value × Value) => φ.Relates p.1 q.1 ∧ φ.Relates p.2 q.2)
    (S := RelatesDicts)
    (fun le related => related.imp (fun key => key.mono le) fun value => value.mono le)
    (fun entries related => assign entries related.1 related.2) related .nil

theorem valueAt {es es' : List Entry} (entries : φ.RelatesDicts es es') (related : φ.Relates v v') :
    Tallies False φ (Container.valueAt? (.writes ws) es v) (Container.valueAt? (.writes ws') es' v')
      RelatesParts :=
  (hash related).bind fun le key =>
    equal.lookup key (related.mono le) (entries.imp fun _ _ e => e.mono le)

/-! ### What data yield -/

theorem isTruthy (related : φ.Relates v v') :
    Tallies strict φ (Container.isTruthy v) (Container.isTruthy v') Same := by
  have sizes {α β : Type} {R : α → β → Prop} {xs : List α} {ys : List β}
      (related : List.Forall₂ R xs ys) : (!ys.isEmpty) = !xs.isEmpty := by
    cases related <;> rfl
  cases related with
  | list paired => exact read fun s t abreast => pure (sizes (abreast.list paired))
  | set paired => exact read fun s t abreast => pure (sizes (abreast.set paired))
  | dict paired => exact read fun s t abreast => pure (sizes (abreast.dict paired))
  | tuple tag same parts => exact pure (sizes (Relates.tuple tag same parts).items)
  | _ => exact pure rfl

theorem elements (related : φ.Relates v v') :
    Tallies strict φ (Container.elements v) (Container.elements v') RelatesAll := by
  have characters (s : String) :
      φ.RelatesAll (Container.characters s) (Container.characters s) := by
    refine List.forall₂_same.2 fun x among => ?_
    obtain ⟨c, -, rfl⟩ := List.mem_map.1 among
    exact .text _
  cases related with
  | list paired => exact read fun s t abreast => pure (abreast.list paired)
  | set paired =>
    refine read fun s t abreast => pure ?_
    exact List.forall₂_map_left_iff.2 (List.forall₂_map_right_iff.2
      ((abreast.set paired).imp fun _ _ member => member.value))
  | dict paired =>
    refine read fun s t abreast => pure ?_
    exact List.forall₂_map_left_iff.2 (List.forall₂_map_right_iff.2
      ((abreast.dict paired).imp fun _ _ entry => entry.key))
  | bytes bs =>
    refine pure (List.forall₂_same.2 fun x among => ?_)
    obtain ⟨b, -, rfl⟩ := List.mem_map.1 among
    exact .int _
  | tuple tag same parts => exact pure (Relates.tuple tag same parts).items
  | config tag name locations args description =>
    exact pure (.cons name (.cons locations (.cons args (.cons description .nil))))
  | text s => exact pure (characters s)
  | location l => exact pure (characters l.tag)
  | _ => exact throw (.inl rfl)

end Tallies

end DirectiveSchema
