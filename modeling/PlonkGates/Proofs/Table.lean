import PlonkGates.Proofs.Residue
import PlonkGates.Proofs.Rules
import PlonkGates.Variable

/-!
# The table of variables

The table that is derived from a program gives every name the role of its first mention
(`find?_derive`). In an accepted program all mentions of a name agree, so a variable on a wire is a
witness and the name on a right side is a public input.

Supplying values changes values alone: names, their order and their roles stay
(`roles_setValues`), and each value is the last one that was supplied for its name
(`putAll_eq`).
-/

namespace PlonkGates

namespace VariableTable

/-! ## Construction -/

/-- In strictly increasing order of the names. -/
def Sorted (vs : List Variable) : Prop := vs.Pairwise (·.name < ·.name)

variable {vs : List Variable} {v : Variable}

namespace Sorted

theorem nodup_names (h : Sorted vs) : (vs.map (·.name)).Nodup :=
  List.pairwise_map.mpr (h.imp ne_of_lt)

theorem nodup (h : Sorted vs) : vs.Nodup := h.nodup_names.of_map _

/-- A variable is found under its name, and no other one is. -/
theorem find?_eq_some_iff {name : String} (h : Sorted vs) :
    vs.find? (·.name = name) = some v ↔ v ∈ vs ∧ v.name = name := by
  constructor
  · intro hv
    exact ⟨List.mem_of_find?_eq_some hv, by simpa using List.find?_some hv⟩
  · rintro ⟨hv, rfl⟩
    induction vs with
    | nil => cases hv
    | cons u us ih =>
      obtain ⟨hu, hus⟩ := List.pairwise_cons.mp h
      rcases List.mem_cons.mp hv with rfl | hv
      · exact List.find?_cons_of_pos (by simp)
      · rw [List.find?_cons_of_neg (by simpa using ne_of_lt (hu v hv)), ih hus hv]

/-- **Sorted lists of the same variables are equal.** -/
theorem eq_of_perm {ws : List Variable} (hv : Sorted vs) (hw : Sorted ws) (h : vs.Perm ws) :
    vs = ws :=
  h.eq_of_pairwise (fun _ _ _ _ hlt hgt => absurd hgt (lt_asymm hlt)) hv hw

end Sorted

theorem eq_or_mem_of_mem_insertNew {w : Variable} (h : w ∈ insertNew v vs) : w = v ∨ w ∈ vs := by
  induction vs with
  | nil => exact Or.inl (List.mem_singleton.mp h)
  | cons u us ih =>
    rw [insertNew] at h
    split at h
    · exact List.mem_cons.mp h
    · split at h
      · exact Or.inr h
      · rcases List.mem_cons.mp h with rfl | h
        · exact Or.inr List.mem_cons_self
        · exact (ih h).imp_right (List.mem_cons_of_mem u)

theorem sorted_insertNew (h : Sorted vs) : Sorted (insertNew v vs) := by
  induction vs with
  | nil => exact List.pairwise_singleton _ v
  | cons u us ih =>
    obtain ⟨hu, hus⟩ := List.pairwise_cons.mp h
    rw [insertNew]
    split
    · next hvu =>
      refine List.pairwise_cons.mpr ⟨fun w hw => ?_, h⟩
      rcases List.mem_cons.mp hw with rfl | hw
      · exact hvu
      · exact lt_trans hvu (hu w hw)
    · next hvu =>
      split
      · exact h
      · next hne =>
        refine List.pairwise_cons.mpr ⟨fun w hw => ?_, ih hus⟩
        rcases eq_or_mem_of_mem_insertNew hw with rfl | hw
        · exact lt_of_le_of_ne (not_lt.mp hvu) (Ne.symm hne)
        · exact hu w hw

/-- A variable is found under its name, unless there was one before. -/
theorem find?_insertNew (h : Sorted vs) (name : String) :
    (insertNew v vs).find? (·.name = name) =
      (vs.find? (·.name = name)).or (if v.name = name then some v else none) := by
  induction vs with
  | nil => by_cases hname : v.name = name <;> simp [insertNew, hname]
  | cons u us ih =>
    obtain ⟨hu, hus⟩ := List.pairwise_cons.mp h
    rw [insertNew]
    split
    · next hvu =>
      by_cases hname : v.name = name
      · -- all names behind are greater, so the new variable is the only one
        have hnone : (u :: us).find? (·.name = name) = none := by
          rw [List.find?_eq_none]
          intro w hw hwn
          have hlt : v.name < w.name := by
            rcases List.mem_cons.mp hw with rfl | hw
            · exact hvu
            · exact lt_trans hvu (hu w hw)
          exact absurd (hname.trans (of_decide_eq_true hwn).symm) (ne_of_lt hlt)
        rw [List.find?_cons_of_pos (by simpa using hname), hnone, if_pos hname]
        rfl
      · rw [List.find?_cons_of_neg (by simpa using hname), if_neg hname, Option.or_none]
    · split
      · next heq =>
        by_cases hname : v.name = name
        · rw [List.find?_cons_of_pos (by simpa [← heq] using hname)]
          rfl
        · rw [if_neg hname, Option.or_none]
      · next hne =>
        by_cases hname : u.name = name
        · rw [List.find?_cons_of_pos (by simpa using hname),
            List.find?_cons_of_pos (by simpa using hname)]
          rfl
        · rw [List.find?_cons_of_neg (by simpa using hname),
            List.find?_cons_of_neg (by simpa using hname), ih hus]

/-- Adding mentions one after the other: what is there stays, else the first mention counts. -/
theorem fold_mentions (F : PrimeField) (mentions : List (String × Role)) (h : Sorted vs) :
    let table := mentions.foldl
      (fun table (name, role) => insertNew ⟨name, role, .number F.zero⟩ table) vs
    Sorted table ∧ ∀ name, table.find? (·.name = name) = (vs.find? (·.name = name)).or
      ((mentions.lookup name).map fun role => ⟨name, role, .number F.zero⟩) := by
  induction mentions generalizing vs with
  | nil => exact ⟨h, fun name => by simp⟩
  | cons mention mentions ih =>
    obtain ⟨first, role⟩ := mention
    -- the order is kept along the way, because only in a sorted list is every name found once
    obtain ⟨hsorted, hfind⟩ := ih (sorted_insertNew (v := ⟨first, role, .number F.zero⟩) h)
    refine ⟨hsorted, fun name => ?_⟩
    rw [List.foldl_cons, hfind name, find?_insertNew h, Option.or_assoc, List.lookup_cons]
    by_cases hname : first = name
    · simp [hname]
    · have hbeq : (name == first) = false := by simpa using Ne.symm hname
      simp [hname, hbeq]

theorem sorted_derive (F : PrimeField) (es : List Expression) : Sorted (derive F es).entries :=
  (fold_mentions F (es.flatMap mentions) List.Pairwise.nil).1

/-- **The first mention of a name decides its role, and its value is zero.** -/
theorem find?_derive (F : PrimeField) (es : List Expression) (name : String) :
    (derive F es).find? name =
      ((es.flatMap mentions).lookup name).map fun role => ⟨name, role, .number F.zero⟩ := by
  have hfind := (fold_mentions F (es.flatMap mentions) List.Pairwise.nil).2 name
  simpa [find?, derive] using hfind

theorem value_mem_derive {F : PrimeField} {es : List Expression} {w : Variable}
    (h : w ∈ (derive F es).entries) : w.value = .number F.zero := by
  have hfold : ∀ (mentions : List (String × Role)) (vs : List Variable),
      (∀ w ∈ vs, w.value = .number F.zero) → ∀ w ∈ mentions.foldl
        (fun table (name, role) => insertNew ⟨name, role, .number F.zero⟩ table) vs,
        w.value = .number F.zero := by
    intro mentions
    induction mentions with
    | nil => exact fun _ hvs => hvs
    | cons mention mentions ih =>
      intro vs hvs
      refine ih _ fun w hw => ?_
      rcases eq_or_mem_of_mem_insertNew hw with rfl | hw
      · rfl
      · exact hvs w hw
  exact hfold _ [] (by simp) w h

/-! ## Roles of accepted programs -/

theorem mem_of_lookup {α β : Type} [BEq α] [LawfulBEq α] {xs : List (α × β)} {key : α} {x : β}
    (h : xs.lookup key = some x) : (key, x) ∈ xs := by
  obtain ⟨before, after, heq, -⟩ := List.lookup_eq_some_iff.mp h
  rw [heq]
  simp

theorem mem_mentions {e : Expression} {name : String} {role : Role} :
    (name, role) ∈ mentions e ↔
      (role = .publicInput ∧ ∃ p, e.rhs = some p ∧ p.name = name) ∨
        (role = .witness ∧ name ∈ e.wireNames) := by
  rw [mentions, List.mem_append]
  cases e.rhs with
  | none => simp [eq_comm, and_comm]
  | some p => simp [eq_comm, and_comm]

/-- If roles agree, the first mention of a name has the same role as every other one. -/
theorem lookup_mentions {es : List Expression} (hroles : Expression.RolesAgree es) {name : String}
    {role : Role} (h : (name, role) ∈ es.flatMap mentions) :
    (es.flatMap mentions).lookup name = some role := by
  cases hfirst : (es.flatMap mentions).lookup name with
  | none =>
    have hne := List.lookup_eq_none_iff.mp hfirst _ h
    simp at hne
  | some first =>
    obtain ⟨d, hd, hmd⟩ := List.mem_flatMap.mp (mem_of_lookup hfirst)
    obtain ⟨e, he, hme⟩ := List.mem_flatMap.mp h
    rcases mem_mentions.mp hmd with ⟨rfl, p, hp, hpn⟩ | ⟨rfl, hwire⟩
    · rcases mem_mentions.mp hme with ⟨rfl, -⟩ | ⟨-, hwire⟩
      · rfl
      · exact absurd (hpn ▸ hwire) (hroles d hd p hp e he)
    · rcases mem_mentions.mp hme with ⟨-, p, hp, hpn⟩ | ⟨rfl, -⟩
      · exact absurd (hpn ▸ hwire) (hroles e he p hp d hd)
      · rfl

/-- **If roles agree, the table holds what is mentioned, with the roles of the mentions.** -/
theorem mem_derive {F : PrimeField} {es : List Expression} {w : Variable}
    (hroles : Expression.RolesAgree es) : w ∈ (derive F es).entries ↔
      (w.name, w.role) ∈ es.flatMap mentions ∧ w.value = .number F.zero := by
  obtain ⟨name, role, value⟩ := w
  have hmem : ⟨name, role, value⟩ ∈ (derive F es).entries ↔
      (derive F es).find? name = some ⟨name, role, value⟩ := by
    rw [find?, (sorted_derive F es).find?_eq_some_iff, and_iff_left rfl]
  rw [hmem, find?_derive]
  constructor
  · intro h
    obtain ⟨first, hfirst, h⟩ := Option.map_eq_some_iff.mp h
    cases h
    exact ⟨mem_of_lookup hfirst, rfl⟩
  · rintro ⟨hmention, rfl⟩
    rw [lookup_mentions hroles hmention, Option.map_some]

/-! ## Values -/

/-- The variable that a name stands for is one with that name. -/
theorem name_of_find? {t : VariableTable} {name : String} (h : t.find? name = some v) :
    v.name = name := by
  have hname := List.find?_some h
  exact of_decide_eq_true hname

theorem mem_of_find? {t : VariableTable} {name : String} (h : t.find? name = some v) :
    v ∈ t.entries := List.mem_of_find?_eq_some h

/-- The role under which a name is found is its first one in the list of roles. -/
theorem role_find? (t : VariableTable) (name : String) :
    (t.find? name).map (·.role) = t.roles.lookup name := by
  rw [find?, roles]
  induction t.entries with
  | nil => rfl
  | cons v vs ih =>
    rw [List.map_cons, List.lookup_cons]
    by_cases hname : v.name = name
    · simp [hname]
    · have hbeq : (name == v.name) = false := by simpa using Ne.symm hname
      rw [List.find?_cons_of_neg (by simpa using hname), ih, hbeq]

theorem names_witnesses (t : VariableTable) :
    t.witnesses.map (·.1) = (t.roles.filter (!·.2 == .publicInput)).map (·.1) := by
  simp [witnesses, roles, List.filter_map, Function.comp_def, Variable.isPublic]

theorem names_publicInputs (t : VariableTable) :
    t.publicInputs.map (·.1) = (t.roles.filter (·.2 == .publicInput)).map (·.1) := by
  simp [publicInputs, roles, List.filter_map, Function.comp_def, Variable.isPublic]

/-- Gives variables new values one after the other. -/
def putAll (vs : List Variable) (updates : List (String × Element)) : List Variable :=
  updates.foldl (fun vs (name, x) => put vs name x) vs

/-- The last value that updates give to a name. -/
def lastUpdate (updates : List (String × Element)) (name : String) : Option Element :=
  ((updates.filter (·.1 = name)).getLast?).map (·.2)

theorem lastUpdate_cons (first : String) (x : Element) (updates : List (String × Element))
    (name : String) : lastUpdate ((first, x) :: updates) name =
      (lastUpdate updates name).or (if first = name then some x else none) := by
  unfold lastUpdate
  by_cases hname : first = name
  · rw [List.filter_cons_of_pos (by simpa using hname), List.getLast?_cons, if_pos hname]
    cases (updates.filter (·.1 = name)).getLast? with
    | none => rfl
    | some y => rfl
  · rw [List.filter_cons_of_neg (by simpa using hname), if_neg hname, Option.or_none]

/-- The variables with the values that a function gives to their names. A variable for which there
is none keeps its value. -/
def withValues (f : String → Option Element) (vs : List Variable) : List Variable :=
  vs.map fun v => { v with value := (f v.name).getD v.value }

theorem withValues_withValues (f g : String → Option Element) (vs : List Variable) :
    withValues g (withValues f vs) = withValues (fun name => (g name).or (f name)) vs := by
  rw [withValues, withValues, withValues, List.map_map]
  refine List.map_congr_left fun v _ => ?_
  cases hg : g v.name with
  | none => simp [hg]
  | some x => simp [hg]

theorem put_eq (vs : List Variable) (first : String) (x : Element) :
    put vs first x = withValues (fun name => if first = name then some x else none) vs := by
  refine List.map_congr_left fun v _ => ?_
  by_cases hname : v.name = first
  · simp [hname]
  · simp [hname, Ne.symm hname]

/-- **Each variable gets the last of its new values and keeps its value if there is none.** -/
theorem putAll_eq (vs : List Variable) (updates : List (String × Element)) :
    putAll vs updates = withValues (lastUpdate updates) vs := by
  induction updates generalizing vs with
  | nil => simp [putAll, withValues, lastUpdate]
  | cons update updates ih =>
    obtain ⟨first, x⟩ := update
    -- the first update only counts if no later one is for the same name
    refine (ih (put vs first x)).trans ?_
    rw [put_eq, withValues_withValues]
    congr 1
    funext name
    rw [lastUpdate_cons]

theorem names_withValues (f : String → Option Element) (vs : List Variable) :
    (withValues f vs).map (·.name) = vs.map (·.name) := by
  rw [withValues, List.map_map]
  rfl

theorem sorted_withValues {f : String → Option Element} :
    Sorted (withValues f vs) ↔ Sorted vs := List.pairwise_map

/-- New values leave names and roles as they are. -/
theorem roles_putAll (vs : List Variable) (updates : List (String × Element)) :
    (putAll vs updates).map (fun v => (v.name, v.role)) = vs.map fun v => (v.name, v.role) := by
  rw [putAll_eq, withValues, List.map_map]
  rfl

/-- Every value was there before or is one of the new ones. -/
theorem value_mem_putAll {updates : List (String × Element)} {w : Variable}
    (h : w ∈ putAll vs updates) :
    (∃ v ∈ vs, w.value = v.value) ∨ ∃ update ∈ updates, w.value = update.2 := by
  induction updates generalizing vs with
  | nil => exact Or.inl ⟨w, h, rfl⟩
  | cons update updates ih =>
    rcases ih h with ⟨v, hv, hw⟩ | ⟨u, hu, hw⟩
    · obtain ⟨v₀, hv₀, rfl⟩ := List.mem_map.mp hv
      split at hw
      · exact Or.inr ⟨update, List.mem_cons_self, hw⟩
      · exact Or.inl ⟨v₀, hv₀, hw⟩
    · exact Or.inr ⟨u, List.mem_cons_of_mem update hu, hw⟩

theorem find?_putAll (vs : List Variable) (updates : List (String × Element)) (name : String) :
    (putAll vs updates).find? (·.name = name) = (vs.find? (·.name = name)).map fun v =>
      { v with value := (lastUpdate updates name).getD v.value } := by
  rw [putAll_eq, withValues, List.find?_map]
  refine Option.map_congr fun v hv => ?_
  have hv : v.name = name := by simpa using List.find?_some hv
  rw [hv]

end VariableTable

/-! ## Supplying values -/

namespace VariableTable

variable {t t' : VariableTable} {pairs : List (Value × Value)}

/-- A supplied pair that is accepted names a variable of the table, and its value fits. -/
theorem readPair_ok {pair : Value × Value} {update : String × Element}
    (h : t.readPair pair = .ok update) :
    (∃ v, t.get? pair.1 = .ok (some v) ∧ update.1 = v.name) ∧
      t.field.element pair.2 = .ok update.2 := by
  obtain ⟨found, hfound, h⟩ := bind_eq_ok.mp h
  cases found with
  | none => cases h
  | some v =>
    obtain ⟨x, hx, h⟩ := bind_eq_ok.mp h
    cases h
    exact ⟨⟨v, hfound, rfl⟩, hx⟩

/-- **A call that turns a pair down changes nothing; any other stores all pairs.** -/
theorem assign_cases (t : VariableTable) (pairs : List (Value × Value)) :
    (∃ fault, pairs.mapM t.readPair = .error fault ∧ t.assign pairs = (t, .error fault)) ∨
      ∃ updates, pairs.mapM t.readPair = .ok updates ∧
        t.assign pairs = ({ t with entries := putAll t.entries updates }, .ok ()) := by
  rw [assign]
  cases pairs.mapM t.readPair with
  | error fault => exact Or.inl ⟨fault, rfl, rfl⟩
  | ok updates => exact Or.inr ⟨updates, rfl, rfl⟩

theorem assign_of_ok (h : t.setValues pairs = .ok t') : t.assign pairs = (t', .ok ()) := by
  obtain ⟨hok, h⟩ := map_eq_ok.mp h
  rw [← h.2, ← h.1]

theorem assign_of_error {fault : Fault} (h : t.setValues pairs = .error fault) :
    pairs.mapM t.readPair = .error fault ∧ t.assign pairs = (t, .error fault) := by
  rcases assign_cases t pairs with ⟨cause, hread, hassign⟩ | ⟨updates, -, hassign⟩
  · rw [setValues, hassign] at h
    cases h
    exact ⟨hread, hassign⟩
  · rw [setValues, hassign] at h
    cases h

/-- Values are supplied all at once, each pair having been accepted on its own. -/
theorem setValues_ok_iff :
    t.setValues pairs = .ok t' ↔
      ∃ updates, List.Forall₂ (fun pair update => t.readPair pair = .ok update) pairs updates ∧
        t' = { t with entries := putAll t.entries updates } := by
  rw [setValues]
  rcases assign_cases t pairs with ⟨fault, hread, hassign⟩ | ⟨updates, hread, hassign⟩
  · rw [hassign]
    refine iff_of_false (fun h => by cases h) ?_
    rintro ⟨updates, hupdates, -⟩
    rw [mapM_eq_ok.mpr hupdates] at hread
    cases hread
  · rw [hassign]
    constructor
    · intro h
      exact ⟨updates, mapM_eq_ok.mp hread, (Except.ok.inj h).symm⟩
    · rintro ⟨others, hothers, rfl⟩
      rw [mapM_eq_ok.mpr hothers] at hread
      cases hread
      rfl

theorem field_setValues (h : t.setValues pairs = .ok t') : t'.field = t.field := by
  obtain ⟨updates, -, rfl⟩ := setValues_ok_iff.mp h
  rfl

/-- **Supplying values keeps the names, their order and their roles.** -/
theorem roles_setValues (h : t.setValues pairs = .ok t') : t'.roles = t.roles := by
  obtain ⟨updates, -, rfl⟩ := setValues_ok_iff.mp h
  exact roles_putAll t.entries updates

/-- What holds of the values before, and of all values that fit, holds of the values after. -/
theorem forall_value_setValues {P : Element → Prop} (h : t.setValues pairs = .ok t')
    (hold : ∀ v ∈ t.entries, P v.value)
    (hnew : ∀ pair ∈ pairs, ∀ x, t.field.element pair.2 = .ok x → P x) :
    ∀ v ∈ t'.entries, P v.value := by
  obtain ⟨updates, hupdates, rfl⟩ := setValues_ok_iff.mp h
  intro w hw
  rcases value_mem_putAll hw with ⟨v, hv, hwv⟩ | ⟨update, hupdate, hwv⟩
  · rw [hwv]
    exact hold v hv
  · rw [hwv]
    obtain ⟨pair, hpair, hread⟩ := exists_of_forall₂ hupdates hupdate
    exact hnew pair hpair update.2 (readPair_ok hread).2

end VariableTable

end PlonkGates
