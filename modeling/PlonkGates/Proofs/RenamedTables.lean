import PlonkGates.Proofs.History
import PlonkGates.Proofs.RenamedPrograms
import PlonkGates.Proofs.Roles

/-!
# Tables under other names

The table of a renamed program has the variables of the program under their other names. It is
sorted by these, so their order may be a different one (`renamed_derive`). Calls that supply the
same values under the other names succeed or fail together, and afterwards the tables still differ
in names and order alone (`Renamed.afterCalls`). If the order of the names is kept, so is that of
the variables (`Renamed.entries_eq`).
-/

namespace PlonkGates

/-- The variable under its other name. -/
def Variable.rename (r : String → String) (v : Variable) : Variable := { v with name := r v.name }

/-- A key under its other name, if it is a name. -/
def Value.renameKey (r : String → String) : Value → Value
  | .text s => .text (r s)
  | v => v

namespace VariableTable

open Expression (Mentioned RolesAgree)

variable {r : String → String} {names : Set String} {t t' u : VariableTable}
  {es : List Expression}

/-! ## Renamed tables -/

theorem mentions_rename (r : String → String) (e : Expression) :
    mentions (e.rename r) = (mentions e).map (Prod.map r id) := by
  rw [mentions, mentions, List.map_append, Expression.wireNames_rename, Expression.rename]
  cases e.rhs with
  | none => simp
  | some p => simp [PublicTerm.rename]

/-- The second table has the variables of the first one under other names, and none besides. -/
structure Renamed (r : String → String) (names : Set String) (t t' : VariableTable) : Prop where
  field : t'.field = t.field
  entries : t'.entries.Perm (t.entries.map (·.rename r))
  sorted : Sorted t.entries
  sorted' : Sorted t'.entries
  injOn : Set.InjOn r names
  mem_names : ∀ name, name ∈ names ↔ name ∈ t.entries.map (·.name)

/-- **The table of a renamed program is the renamed table.** -/
theorem renamed_derive (F : PrimeField) (hr : Set.InjOn r (Mentioned es))
    (hroles : RolesAgree es) (hroles' : RolesAgree (es.map (·.rename r))) :
    Renamed r (Mentioned es) (derive F es) (derive F (es.map (·.rename r))) where
  field := rfl
  entries := by
    have hnames : ((derive F es).entries.map (·.rename r)).map (·.name) =
        ((derive F es).entries.map (·.name)).map r := by simp [Variable.rename]
    have hnodup : ((derive F es).entries.map (·.rename r)).Nodup := by
      refine List.Nodup.of_map (·.name) ?_
      rw [hnames, Expression.nodup_map_iff]
      · exact (sorted_derive F es).nodup_names
      · exact hr.mono fun _ => mem_names_derive.mp
    refine (List.perm_ext_iff_of_nodup (sorted_derive F _).nodup hnodup).mpr ?_
    rintro ⟨name', role, value⟩
    simp only [mem_derive hroles', List.mem_map, mem_derive hroles, List.flatMap_map,
      mentions_rename, List.mem_flatMap]
    constructor
    · rintro ⟨⟨e, he, ⟨name, role⟩, hmention, hv⟩, hvalue⟩
      cases hv
      exact ⟨⟨name, role, value⟩, ⟨⟨e, he, hmention⟩, hvalue⟩, rfl⟩
    · rintro ⟨v, ⟨⟨e, he, hmention⟩, hvalue⟩, hv⟩
      cases hv
      exact ⟨⟨e, he, _, hmention, rfl⟩, hvalue⟩
  sorted := sorted_derive F es
  sorted' := sorted_derive F _
  injOn := hr
  mem_names := fun _ => mem_names_derive.symm

/-! ## Renamed calls -/

/-- A key that is a name is renamed, and one that is none stays none. -/
def RenamedKey (r : String → String) (names : Set String) (key key' : Value) : Prop :=
  (∃ name ∈ names, key = .text name ∧ key' = .text (r name)) ∨
    ∀ name ∈ names, key ≠ .text name ∧ key' ≠ .text (r name)

/-- The same value under the other name. -/
def RenamedPair (r : String → String) (names : Set String) (pair pair' : Value × Value) : Prop :=
  RenamedKey r names pair.1 pair'.1 ∧ pair'.2 = pair.2

/-- The same values under the other names, call by call. -/
def RenamedCalls (r : String → String) (names : Set String) :
    List (List (Value × Value)) → List (List (Value × Value)) → Prop :=
  List.Forall₂ (List.Forall₂ (RenamedPair r names))

/-- A renaming of all texts that keeps them different renames the keys of all calls. -/
theorem renamedCalls_of_injective (hr : Function.Injective r) (names : Set String)
    (calls : List (List (Value × Value))) :
    RenamedCalls r names calls (calls.map (List.map (Prod.map (Value.renameKey r) id))) := by
  have hkey : ∀ key : Value, RenamedKey r names key (key.renameKey r) := by
    intro key
    by_cases hknown : ∃ name ∈ names, key = .text name
    · obtain ⟨name, hname, rfl⟩ := hknown
      exact Or.inl ⟨name, hname, rfl, rfl⟩
    · refine Or.inr fun name hname => ⟨fun heq => hknown ⟨name, hname, heq⟩, fun heq => ?_⟩
      cases key with
      | text s => exact hknown ⟨name, hname, by rw [hr (Value.text.inj heq)]⟩
      | _ => cases heq
  refine List.forall₂_map_right_iff.mpr (List.forall₂_same.mpr fun pairs _ => ?_)
  exact List.forall₂_map_right_iff.mpr (List.forall₂_same.mpr fun pair _ => ⟨hkey pair.1, rfl⟩)

/-- The last value of a name is the last one of the other name. -/
theorem lastUpdate_rename (hr : Set.InjOn r names) {updates : List (String × Element)}
    (hupdates : ∀ update ∈ updates, update.1 ∈ names) {name : String} (hname : name ∈ names) :
    lastUpdate (updates.map (Prod.map r id)) (r name) = lastUpdate updates name := by
  induction updates with
  | nil => rfl
  | cons update updates ih =>
    obtain ⟨first, x⟩ := update
    obtain ⟨hfirst, hupdates⟩ := List.forall_mem_cons.mp hupdates
    rw [List.map_cons, Prod.map_apply, lastUpdate_cons, lastUpdate_cons, ih hupdates]
    simp only [hr.eq_iff hfirst hname, id_eq]

namespace Renamed

variable {key key' : Value} {pair pair' : Value × Value} {pairs pairs' : List (Value × Value)}

theorem mem_entries_iff (h : Renamed r names t t') {v' : Variable} :
    v' ∈ t'.entries ↔ ∃ v ∈ t.entries, v.rename r = v' := by
  rw [h.entries.mem_iff, List.mem_map]

theorem knows_iff (h : Renamed r names t t') : t.Knows key ↔ ∃ name ∈ names, key = .text name := by
  simp [Knows, h.mem_names]

theorem knows_iff' (h : Renamed r names t t') :
    t'.Knows key ↔ ∃ name ∈ names, key = .text (r name) := by
  simp [Knows, h.mem_names, h.mem_entries_iff, Variable.rename]

theorem knows_congr (h : Renamed r names t t') (hkey : RenamedKey r names key key') :
    t'.Knows key' ↔ t.Knows key := by
  rw [h.knows_iff, h.knows_iff']
  rcases hkey with ⟨name, hname, rfl, rfl⟩ | hnone
  · exact iff_of_true ⟨name, hname, rfl⟩ ⟨name, hname, rfl⟩
  · exact iff_of_false (fun ⟨name, hname, hkey⟩ => (hnone name hname).2 hkey)
      fun ⟨name, hname, hkey⟩ => (hnone name hname).1 hkey

/-- A variable is found under its other name. -/
theorem find? {name : String} (h : Renamed r names t t') (hname : name ∈ names) :
    ∃ v, t.find? name = some v ∧ t'.find? (r name) = some (v.rename r) := by
  obtain ⟨v, hv, rfl⟩ := List.mem_map.mp ((h.mem_names name).mp hname)
  refine ⟨v, h.sorted.find?_eq_some_iff.mpr ⟨hv, rfl⟩, ?_⟩
  exact h.sorted'.find?_eq_some_iff.mpr ⟨h.mem_entries_iff.mpr ⟨v, hv, rfl⟩, rfl⟩

/-- A pair is read alike under the other name. -/
theorem readPair (h : Renamed r names t t') (hpair : RenamedPair r names pair pair')
    {update : String × Element} (hread : t.readPair pair = .ok update) :
    update.1 ∈ names ∧ t'.readPair pair' = .ok (Prod.map r id update) := by
  obtain ⟨key, v⟩ := pair
  obtain ⟨key', v'⟩ := pair'
  obtain ⟨hkey, rfl⟩ := hpair
  obtain ⟨hknows, hfits⟩ := readPair_isOk_iff.mp ⟨update, hread⟩
  obtain ⟨name, x, hok, rfl, -⟩ := exists_readPair hknows hfits
  obtain rfl : update = (name, x) := Except.ok.inj (hread.symm.trans hok)
  have hfits' : v'.FitsField t'.field := by
    rw [h.field]
    exact hfits
  obtain ⟨name', x', hok', rfl, -⟩ := exists_readPair ((h.knows_congr hkey).mpr hknows) hfits'
  have hx : x' = x := by
    have helement := (readPair_ok hok').2
    rw [h.field, (readPair_ok hok).2] at helement
    exact (Except.ok.inj helement).symm
  rcases hkey with ⟨other, hother, hname, hname'⟩ | hnone
  · cases hname
    cases hname'
    exact ⟨hother, by rw [hok', hx]; rfl⟩
  · obtain ⟨other, hother, hname⟩ := h.knows_iff.mp hknows
    exact absurd hname (hnone other hother).1

theorem readPairs (h : Renamed r names t t')
    (hpairs : List.Forall₂ (RenamedPair r names) pairs pairs') {updates : List (String × Element)}
    (hread : List.Forall₂ (fun pair update => t.readPair pair = .ok update) pairs updates) :
    (∀ update ∈ updates, update.1 ∈ names) ∧
      List.Forall₂ (fun pair update => t'.readPair pair = .ok update) pairs'
        (updates.map (Prod.map r id)) := by
  have hjoin := forall₂_join hpairs hread
  constructor
  · intro update hupdate
    obtain ⟨pair', -, pair, -, hpair, hread⟩ := exists_of_forall₂ hjoin hupdate
    exact (h.readPair hpair hread).1
  · rw [List.forall₂_map_right_iff]
    refine hjoin.imp ?_
    rintro pair' update ⟨pair, -, hpair, hread⟩
    exact (h.readPair hpair hread).2

theorem withValues (h : Renamed r names t t') {f f' : String → Option Element}
    (hf : ∀ name ∈ names, f' (r name) = f name) :
    Renamed r names { t with entries := VariableTable.withValues f t.entries }
      { t' with entries := VariableTable.withValues f' t'.entries } where
  field := h.field
  entries := by
    have hcommute : VariableTable.withValues f' (t.entries.map (·.rename r)) =
        (VariableTable.withValues f t.entries).map (·.rename r) := by
      rw [VariableTable.withValues, VariableTable.withValues, List.map_map, List.map_map]
      refine List.map_congr_left fun v hv => ?_
      have hv := hf v.name ((h.mem_names v.name).mpr (List.mem_map_of_mem hv))
      simp [Variable.rename, hv]
    exact hcommute ▸ h.entries.map _
  sorted := sorted_withValues.mpr h.sorted
  sorted' := sorted_withValues.mpr h.sorted'
  injOn := h.injOn
  mem_names := fun name => by rw [h.mem_names, names_withValues]

/-- A call under the other names succeeds if the call does, and the tables stay renamed. -/
theorem setValues (h : Renamed r names t t')
    (hpairs : List.Forall₂ (RenamedPair r names) pairs pairs') (hset : t.setValues pairs = .ok u) :
    ∃ u', t'.setValues pairs' = .ok u' ∧ Renamed r names u u' := by
  obtain ⟨updates, hread, rfl⟩ := setValues_ok_iff.mp hset
  obtain ⟨hupdates, hread'⟩ := h.readPairs hpairs hread
  refine ⟨_, setValues_ok_iff.mpr ⟨_, hread', rfl⟩, ?_⟩
  rw [putAll_eq, putAll_eq]
  exact h.withValues fun name hname => lastUpdate_rename h.injOn hupdates hname

/-- It fails if the call does. -/
theorem setValues_error (h : Renamed r names t t')
    (hpairs : List.Forall₂ (RenamedPair r names) pairs pairs') {fault : Fault}
    (hset : t.setValues pairs = .error fault) : ∃ fault', t'.setValues pairs' = .error fault' := by
  obtain ⟨pair, hpair, hrefused⟩ := setValues_isError_iff.mp ⟨fault, hset⟩
  obtain ⟨pair', hpair', hkey, hvalue⟩ := exists_of_forall₂ hpairs.flip hpair
  refine setValues_isError_iff.mpr ⟨pair', hpair', ?_⟩
  rwa [h.knows_congr hkey, hvalue, h.field]

theorem call (h : Renamed r names t t')
    (hpairs : List.Forall₂ (RenamedPair r names) pairs pairs') :
    Renamed r names (t.call pairs) (t'.call pairs') := by
  cases hset : t.setValues pairs with
  | ok u =>
    obtain ⟨u', hset', hu⟩ := h.setValues hpairs hset
    rwa [call_of_ok hset, call_of_ok hset']
  | error fault =>
    obtain ⟨fault', hset'⟩ := h.setValues_error hpairs hset
    rwa [call_of_error hset, call_of_error hset']

/-- **Tables stay renamed under calls that supply the same values under the other names.** -/
theorem afterCalls {calls calls' : List (List (Value × Value))} (h : Renamed r names t t')
    (hcalls : RenamedCalls r names calls calls') :
    Renamed r names (t.afterCalls calls) (t'.afterCalls calls') := by
  induction hcalls generalizing t t' with
  | nil => exact h
  | cons hpairs _ ih => exact ih (h.call hpairs)

/-- **If the order of names is kept, so is that of variables.** -/
theorem entries_eq (h : Renamed r names t t') (hmono : StrictMonoOn r names) :
    t'.entries = t.entries.map (·.rename r) := by
  refine h.sorted'.eq_of_perm ?_ h.entries
  refine List.pairwise_map.mpr (h.sorted.imp_of_mem fun {v w} hv hw hlt => ?_)
  exact hmono ((h.mem_names _).mpr (List.mem_map_of_mem hv))
    ((h.mem_names _).mpr (List.mem_map_of_mem hw)) hlt

end Renamed

/-! ## Witnesses and public inputs -/

theorem map_filter_rename (r : String → String) (role : Role → Bool) (vs : List Variable) :
    ((vs.map (·.rename r)).filter (role ·.role)).map (fun v => (v.name, v.value)) =
      ((vs.filter (role ·.role)).map fun v => (v.name, v.value)).map (Prod.map r id) := by
  rw [List.filter_map, List.map_map, List.map_map]
  rfl

namespace Renamed

theorem witnesses (h : Renamed r names t t') :
    t'.witnesses.Perm (t.witnesses.map (Prod.map r id)) := by
  have hperm := (h.entries.filter fun v => !v.isPublic).map fun v => (v.name, v.value)
  exact hperm.trans (.of_eq (map_filter_rename r (fun role => !(role == .publicInput)) t.entries))

theorem witnesses_eq (h : Renamed r names t t') (hmono : StrictMonoOn r names) :
    t'.witnesses = t.witnesses.map (Prod.map r id) := by
  rw [VariableTable.witnesses, h.entries_eq hmono]
  exact map_filter_rename r (fun role => !(role == .publicInput)) t.entries

theorem publicInputs_eq (h : Renamed r names t t') (hmono : StrictMonoOn r names) :
    t'.publicInputs = t.publicInputs.map (Prod.map r id) := by
  rw [VariableTable.publicInputs, h.entries_eq hmono]
  exact map_filter_rename r (· == .publicInput) t.entries

end Renamed

end VariableTable

end PlonkGates
