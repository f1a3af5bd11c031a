import PlonkGates.Proofs.Table

/-!
# Values over runs of calls

A run is a sequence of calls that supply values, of which some may fail. Whether a call fails is
decided by the names of the table and by its field (`setValues_isError_iff`), and these never
change, so it does not depend on the calls before. A call that fails reports its first pair that is
refused and changes nothing.

After a run every variable has the value of the last pair that names it, in the last successful call
that names it (`values_over_runs`).
-/

namespace PlonkGates

/-! ## Supplied pairs -/

namespace Value

/-- An integer, which a truth value is not, or an element of the field. -/
def FitsField (F : PrimeField) : Value → Prop
  | .int _ => True
  | .element x => x.field.order = F.order
  | _ => False

/-- The integer that a number stands for, plain or in a field. -/
def number? : Value → Option Int
  | .int n => some n
  | .element (.number x) => some x.value
  | _ => none

/-- What a value is stored as: the residue of its number. An element without a number is kept. -/
def StoredAs (F : PrimeField) (v : Value) (x : Element) : Prop :=
  match v.number? with
  | some n => x = .number (F.reduce n)
  | none => v = .element x

/-- Why a value that does not fit is turned down. -/
def misfit (F : PrimeField) : Value → Fault
  | .element x => .foreignElement x F
  | v => .notANumber v.kind

/-- Why a key that names no variable is turned down. Lists and objects are no keys at all. -/
def unknownKey : Value → Fault
  | .list items => .notAKey (Value.list items).kind
  | .object entries => .notAKey (Value.object entries).kind
  | key => .noSuchValue key

end Value

namespace PrimeField

variable {F : PrimeField} {v : Value}

theorem exists_element (h : v.FitsField F) : ∃ x, F.element v = .ok x ∧ v.StoredAs F x := by
  cases v with
  | int n => exact ⟨_, rfl, rfl⟩
  | element x =>
    refine ⟨x, element_self (eq_iff_order.mpr h), ?_⟩
    cases x with
    | number r =>
      obtain rfl : r.field = F := eq_iff_order.mpr h
      exact congrArg Element.number (reduce_value_residue r).symm
    | text G content => rfl
  | _ => exact h.elim

theorem element_misfit (h : ¬ v.FitsField F) : F.element v = .error (v.misfit F) := by
  cases v with
  | int n => exact absurd trivial h
  | element x => exact if_neg fun hfield => h (eq_iff_order.mp hfield)
  | _ => rfl

end PrimeField

namespace VariableTable

variable {t u : VariableTable} {key v : Value} {pairs : List (Value × Value)} {name : String}

/-- The key is the name of a variable. -/
def Knows (t : VariableTable) (key : Value) : Prop := ∃ v ∈ t.entries, key = .text v.name

/-- The pair is turned down with a fault. A name that is unknown comes before a value that does not
fit. -/
inductive Refuses (t : VariableTable) : Value × Value → Fault → Prop where
  | unknown {key v : Value} (hkey : ¬ t.Knows key) : Refuses t (key, v) key.unknownKey
  | misfit {key v : Value} (hkey : t.Knows key) (hv : ¬ v.FitsField t.field) :
    Refuses t (key, v) (v.misfit t.field)

/-- Every pair names a variable, and its value fits. -/
def Accepts (t : VariableTable) (pairs : List (Value × Value)) : Prop :=
  ∀ pair ∈ pairs, t.Knows pair.1 ∧ pair.2.FitsField t.field

/-- The first pair that is not accepted is turned down with a fault. -/
def FirstRefused (t : VariableTable) (pairs : List (Value × Value)) (fault : Fault) : Prop :=
  ∃ before pair after, pairs = before ++ pair :: after ∧ t.Accepts before ∧ t.Refuses pair fault

theorem get?_of_knows (h : t.Knows key) :
    ∃ v, t.get? key = .ok (some v) ∧ key = .text v.name := by
  obtain ⟨w, hw, rfl⟩ := h
  have hfound : (t.find? w.name).isSome := List.find?_isSome.mpr ⟨w, hw, by simp⟩
  obtain ⟨v, hv⟩ := Option.isSome_iff_exists.mp hfound
  refine ⟨v, ?_, by rw [name_of_find? hv]⟩
  rw [get?, Value.key?, ok_map, Option.bind_some, hv]

theorem readPair_of_not_knows (h : ¬ t.Knows key) :
    t.readPair (key, v) = .error key.unknownKey := by
  cases key with
  | text s =>
    have hnone : t.find? s = none := by
      rw [find?, List.find?_eq_none]
      exact fun w hw hname => h ⟨w, hw, by rw [of_decide_eq_true hname]⟩
    rw [readPair, get?, Value.key?, ok_map, Option.bind_some, hnone]
    rfl
  | _ => rfl

/-- A pair is read if it is accepted. -/
theorem exists_readPair (hkey : t.Knows key) (hv : v.FitsField t.field) :
    ∃ name x, t.readPair (key, v) = .ok (name, x) ∧ key = .text name ∧ v.StoredAs t.field x := by
  obtain ⟨w, hw, hname⟩ := get?_of_knows hkey
  obtain ⟨x, hx, hstored⟩ := PrimeField.exists_element hv
  refine ⟨w.name, x, ?_, hname, hstored⟩
  rw [readPair, hw, ok_bind]
  simp only [hx, ok_bind]

theorem readPair_misfit (hkey : t.Knows key) (hv : ¬ v.FitsField t.field) :
    t.readPair (key, v) = .error (v.misfit t.field) := by
  obtain ⟨w, hw, -⟩ := get?_of_knows hkey
  rw [readPair, hw, ok_bind]
  simp only [PrimeField.element_misfit hv, error_bind]

theorem readPair_eq_error_iff {pair : Value × Value} {fault : Fault} :
    t.readPair pair = .error fault ↔ t.Refuses pair fault := by
  obtain ⟨key, v⟩ := pair
  constructor
  · intro h
    by_cases hkey : t.Knows key
    · by_cases hv : v.FitsField t.field
      · obtain ⟨name, x, hok, -⟩ := exists_readPair hkey hv
        rw [hok] at h
        cases h
      · rw [readPair_misfit hkey hv] at h
        cases h
        exact .misfit hkey hv
    · rw [readPair_of_not_knows hkey] at h
      cases h
      exact .unknown hkey
  · rintro (hkey | ⟨hkey, hv⟩)
    · exact readPair_of_not_knows hkey
    · exact readPair_misfit hkey hv

theorem readPair_isOk_iff {pair : Value × Value} :
    (∃ update, t.readPair pair = .ok update) ↔ t.Knows pair.1 ∧ pair.2.FitsField t.field := by
  constructor
  · rintro ⟨update, h⟩
    by_contra hrefused
    rw [not_and_or] at hrefused
    have herror : ∃ fault, t.Refuses pair fault := by
      by_cases hkey : t.Knows pair.1
      · exact ⟨_, .misfit hkey (hrefused.resolve_left (not_not.mpr hkey))⟩
      · exact ⟨_, .unknown hkey⟩
    obtain ⟨fault, hfault⟩ := herror
    rw [readPair_eq_error_iff.mpr hfault] at h
    cases h
  · rintro ⟨hkey, hv⟩
    obtain ⟨name, x, hok, -⟩ := exists_readPair hkey hv
    exact ⟨_, hok⟩

/-! ## One call -/

theorem exists_setValues (h : t.Accepts pairs) : ∃ u, t.setValues pairs = .ok u := by
  obtain ⟨updates, hupdates⟩ :=
    exists_forall₂ fun pair hpair => readPair_isOk_iff.mpr (h pair hpair)
  exact ⟨_, setValues_ok_iff.mpr ⟨updates, hupdates, rfl⟩⟩

/-- **A call that fails reports its first pair that is not accepted.** -/
theorem setValues_eq_error_iff {fault : Fault} :
    t.setValues pairs = .error fault ↔ t.FirstRefused pairs fault := by
  have hread : t.setValues pairs = .error fault ↔ pairs.mapM t.readPair = .error fault := by
    rw [setValues, assign]
    cases pairs.mapM t.readPair with
    | error cause => simp
    | ok updates => simp
  rw [hread, mapM_eq_error]
  simp only [readPair_eq_error_iff, readPair_isOk_iff, FirstRefused, Accepts]

/-- **Whether a call fails is decided by the names of the table and by its field.** -/
theorem setValues_isError_iff : (∃ fault, t.setValues pairs = .error fault) ↔
    ∃ pair ∈ pairs, ¬ t.Knows pair.1 ∨ ¬ pair.2.FitsField t.field := by
  constructor
  · rintro ⟨fault, h⟩
    obtain ⟨before, pair, after, rfl, -, hrefuses⟩ := setValues_eq_error_iff.mp h
    refine ⟨pair, by simp, ?_⟩
    cases hrefuses with
    | unknown hkey => exact Or.inl hkey
    | misfit _ hv => exact Or.inr hv
  · rintro ⟨pair, hpair, hrefused⟩
    cases h : t.setValues pairs with
    | error fault => exact ⟨fault, rfl⟩
    | ok u =>
      obtain ⟨updates, hupdates, -⟩ := setValues_ok_iff.mp h
      obtain ⟨update, -, hread⟩ := exists_of_forall₂ hupdates.flip hpair
      obtain ⟨hkey, hv⟩ := readPair_isOk_iff.mp ⟨update, hread⟩
      exact absurd hrefused (not_or.mpr ⟨not_not.mpr hkey, not_not.mpr hv⟩)

/-- The last pair of a call that names a variable. -/
def LastPair (pairs : List (Value × Value)) (name : String) (v : Value) : Prop :=
  ∃ before after, pairs = before ++ (.text name, v) :: after ∧ ∀ pair ∈ after, pair.1 ≠ .text name

/-- A call that names a variable. -/
def Names (pairs : List (Value × Value)) (name : String) : Prop :=
  ∃ pair ∈ pairs, pair.1 = .text name

/-- What the updates of a call give to a name comes from the last pair that names it. -/
theorem lastUpdate_of_forall₂ {updates : List (String × Element)}
    (h : List.Forall₂ (fun pair update => t.readPair pair = .ok update) pairs updates)
    (name : String) :
    (∃ v x, lastUpdate updates name = some x ∧ LastPair pairs name v ∧ v.StoredAs t.field x) ∨
      lastUpdate updates name = none ∧ ¬ Names pairs name := by
  induction h with
  | nil => exact Or.inr ⟨rfl, by simp [Names]⟩
  | @cons pair update pairs updates hread _ ih =>
    obtain ⟨key, w⟩ := pair
    obtain ⟨hkey, hw⟩ := readPair_isOk_iff.mp ⟨update, hread⟩
    obtain ⟨first, y, hok, rfl, hstored⟩ := exists_readPair hkey hw
    obtain rfl : update = (first, y) := Except.ok.inj (hread.symm.trans hok)
    rw [lastUpdate_cons]
    rcases ih with ⟨v, x, hx, ⟨before, after, rfl, hafter⟩, hv⟩ | ⟨hnone, hrest⟩
    · -- a later pair names the variable, so this one does not count
      exact Or.inl ⟨v, x, by rw [hx]; rfl, ⟨_ :: before, after, rfl, hafter⟩, hv⟩
    · rw [hnone, Option.none_or]
      by_cases hname : first = name
      · subst hname
        refine Or.inl ⟨w, y, if_pos rfl, ⟨[], pairs, rfl, fun pair hpair hp => ?_⟩, hstored⟩
        exact hrest ⟨pair, hpair, hp⟩
      · refine Or.inr ⟨if_neg hname, ?_⟩
        rintro ⟨pair, hpair, hp⟩
        rcases List.mem_cons.mp hpair with rfl | hpair
        · exact hname (Value.text.inj hp)
        · exact hrest ⟨pair, hpair, hp⟩

/-! ## Runs -/

/-- The table after a call that supplies values, whether it succeeds or fails. -/
def call (t : VariableTable) (pairs : List (Value × Value)) : VariableTable := (t.assign pairs).1

/-- The table after calls that succeed or fail, one after the other. -/
def afterCalls (t : VariableTable) (calls : List (List (Value × Value))) : VariableTable :=
  calls.foldl call t

theorem afterCalls_concat (t : VariableTable) (calls : List (List (Value × Value)))
    (pairs : List (Value × Value)) :
    t.afterCalls (calls ++ [pairs]) = (t.afterCalls calls).call pairs := by
  rw [afterCalls, List.foldl_append]
  rfl

theorem call_of_ok (h : t.setValues pairs = .ok u) : t.call pairs = u := by
  rw [call, assign_of_ok h]

/-- **A call that fails leaves the table as it was.** -/
theorem call_of_error {fault : Fault} (h : t.setValues pairs = .error fault) :
    t.call pairs = t := by
  rw [call, (assign_of_error h).2]

/-- The value that counts for a variable after a run: that of the last pair that names it, in the
last call that is accepted and names it. -/
def LastSupplied (t : VariableTable) (calls : List (List (Value × Value))) (name : String)
    (v : Value) : Prop :=
  ∃ before pairs after, calls = before ++ pairs :: after ∧ t.Accepts pairs ∧
    LastPair pairs name v ∧ ∀ later ∈ after, t.Accepts later → ¬ Names later name

/-- No call that is accepted names the variable. -/
def Untouched (t : VariableTable) (calls : List (List (Value × Value))) (name : String) : Prop :=
  ∀ pairs ∈ calls, t.Accepts pairs → ¬ Names pairs name

/-- Two tables with the same field and the same variables but for values. -/
structure SameVariables (t u : VariableTable) : Prop where
  field : u.field = t.field
  roles : u.roles = t.roles

namespace SameVariables

theorem knows_iff (h : SameVariables t u) : u.Knows key ↔ t.Knows key := by
  have hnames : ∀ s : VariableTable, s.Knows key ↔ ∃ x ∈ s.roles, key = .text x.1 := fun s => by
    simp [Knows, VariableTable.roles]
  rw [hnames, hnames, h.roles]

theorem accepts_iff (h : SameVariables t u) : u.Accepts pairs ↔ t.Accepts pairs := by
  simp only [Accepts, h.knows_iff, h.field]

theorem refuses {pair : Value × Value} {fault : Fault} (h : SameVariables t u)
    (hrefuses : u.Refuses pair fault) : t.Refuses pair fault := by
  cases hrefuses with
  | unknown hkey => exact .unknown fun hknows => hkey (h.knows_iff.mpr hknows)
  | misfit hkey hv =>
    rw [h.field] at hv ⊢
    exact .misfit (h.knows_iff.mp hkey) hv

theorem firstRefused {fault : Fault} (h : SameVariables t u)
    (hrefused : u.FirstRefused pairs fault) : t.FirstRefused pairs fault := by
  obtain ⟨before, pair, after, rfl, hbefore, hpair⟩ := hrefused
  exact ⟨before, pair, after, rfl, h.accepts_iff.mp hbefore, h.refuses hpair⟩

end SameVariables

theorem call_of_accepts (h : t.Accepts pairs) :
    ∃ f : String → Option Element, t.call pairs = { t with entries := withValues f t.entries } ∧
      ∀ name, (∃ v x, f name = some x ∧ LastPair pairs name v ∧ v.StoredAs t.field x) ∨
        f name = none ∧ ¬ Names pairs name := by
  obtain ⟨u, hu⟩ := exists_setValues h
  obtain ⟨updates, hupdates, rfl⟩ := setValues_ok_iff.mp hu
  exact ⟨lastUpdate updates, by rw [call_of_ok hu, putAll_eq], lastUpdate_of_forall₂ hupdates⟩

theorem call_of_not_accepts (h : ¬ t.Accepts pairs) : t.call pairs = t := by
  simp only [Accepts, not_forall, not_and_or] at h
  obtain ⟨pair, hpair, hrefused⟩ := h
  obtain ⟨fault, hfault⟩ := setValues_isError_iff.mpr ⟨pair, hpair, hrefused⟩
  exact call_of_error hfault

section Concat

variable {calls : List (List (Value × Value))}

theorem LastSupplied.concat (h : LastSupplied t calls name v)
    (hpairs : t.Accepts pairs → ¬ Names pairs name) : LastSupplied t (calls ++ [pairs]) name v := by
  obtain ⟨before, last, after, rfl, haccepts, hlast, hafter⟩ := h
  refine ⟨before, last, after ++ [pairs], by simp, haccepts, hlast, ?_⟩
  exact List.forall_mem_append.mpr ⟨hafter, List.forall_mem_singleton.mpr hpairs⟩

theorem Untouched.concat (h : Untouched t calls name)
    (hpairs : t.Accepts pairs → ¬ Names pairs name) : Untouched t (calls ++ [pairs]) name :=
  List.forall_mem_append.mpr ⟨h, List.forall_mem_singleton.mpr hpairs⟩

end Concat

theorem sameVariables_withValues (t : VariableTable) (f : String → Option Element) :
    SameVariables t { t with entries := withValues f t.entries } where
  field := rfl
  roles := by
    rw [roles, roles, withValues, List.map_map]
    rfl

/-- What is left of a run: the variables that there were, with the values that count. -/
theorem exists_afterCalls (t : VariableTable) (calls : List (List (Value × Value))) :
    ∃ f : String → Option Element,
      t.afterCalls calls = { t with entries := withValues f t.entries } ∧
      ∀ name, (∃ v x, f name = some x ∧ LastSupplied t calls name v ∧ v.StoredAs t.field x) ∨
        f name = none ∧ Untouched t calls name := by
  induction calls using List.reverseRecOn with
  | nil =>
    refine ⟨fun _ => none, ?_, fun name => Or.inr ⟨rfl, by simp [Untouched]⟩⟩
    simp [afterCalls, withValues]
  | append_singleton calls pairs ih =>
    obtain ⟨f, hf, hold⟩ := ih
    have hsame := sameVariables_withValues t f
    rw [afterCalls_concat, hf]
    by_cases haccepts : t.Accepts pairs
    · obtain ⟨g, hg, hnew⟩ := call_of_accepts (hsame.accepts_iff.mpr haccepts)
      refine ⟨fun name => (g name).or (f name), ?_, fun name => ?_⟩
      · rw [hg, withValues_withValues]
      · rcases hnew name with ⟨v, x, hx, hlast, hstored⟩ | ⟨hnone, hnames⟩
        · exact Or.inl ⟨v, x, by simp only [hx, Option.some_or],
            ⟨calls, pairs, [], rfl, haccepts, hlast, by simp⟩, hstored⟩
        · -- the call does not name the variable, so what counted before still does
          simp only [hnone, Option.none_or]
          rcases hold name with ⟨v, x, hx, hlast, hstored⟩ | ⟨hnone, huntouched⟩
          · exact Or.inl ⟨v, x, hx, hlast.concat fun _ => hnames, hstored⟩
          · exact Or.inr ⟨hnone, huntouched.concat fun _ => hnames⟩
    · refine ⟨f, call_of_not_accepts fun h => haccepts (hsame.accepts_iff.mp h), fun name => ?_⟩
      rcases hold name with ⟨v, x, hx, hlast, hstored⟩ | ⟨hnone, huntouched⟩
      · exact Or.inl ⟨v, x, hx, hlast.concat fun h => absurd h haccepts, hstored⟩
      · exact Or.inr ⟨hnone, huntouched.concat fun h => absurd h haccepts⟩

theorem sameVariables_afterCalls (t : VariableTable) (calls : List (List (Value × Value))) :
    SameVariables t (t.afterCalls calls) := by
  obtain ⟨f, hf, -⟩ := exists_afterCalls t calls
  rw [hf]
  exact sameVariables_withValues t f

/-- **Values over whole runs.** After any run of calls, the variables, their order and their roles
are what they were. A further call fails exactly if it has a pair whose name is not in the table, or
whose value is neither an integer nor an element of the field. Then the first such pair is reported,
and the call changes nothing. Every variable has the value of the last pair that names it in the
last successful call that names it, as a residue, and its first value if there is none. -/
theorem values_over_runs (t : VariableTable) (calls : List (List (Value × Value))) :
    (t.afterCalls calls).field = t.field ∧ (t.afterCalls calls).roles = t.roles ∧
      (∀ pairs, (∃ fault, (t.afterCalls calls).setValues pairs = .error fault) ↔
        ∃ pair ∈ pairs, ¬ t.Knows pair.1 ∨ ¬ pair.2.FitsField t.field) ∧
      (∀ pairs fault, (t.afterCalls calls).setValues pairs = .error fault →
        t.FirstRefused pairs fault ∧ t.afterCalls (calls ++ [pairs]) = t.afterCalls calls) ∧
      List.Forall₂ (fun v w => w.name = v.name ∧ w.role = v.role ∧
        ((∃ supplied, LastSupplied t calls v.name supplied ∧ supplied.StoredAs t.field w.value) ∨
          Untouched t calls v.name ∧ w.value = v.value))
        t.entries (t.afterCalls calls).entries := by
  have hsame := sameVariables_afterCalls t calls
  refine ⟨hsame.field, hsame.roles, fun pairs => ?_, fun pairs fault hfault => ⟨?_, ?_⟩, ?_⟩
  · rw [setValues_isError_iff]
    simp only [hsame.knows_iff, hsame.field]
  · exact hsame.firstRefused (setValues_eq_error_iff.mp hfault)
  · rw [afterCalls_concat, call_of_error hfault]
  · obtain ⟨f, hf, hlast⟩ := exists_afterCalls t calls
    rw [hf]
    refine List.forall₂_map_right_iff.mpr (List.forall₂_same.mpr fun v _ => ⟨rfl, rfl, ?_⟩)
    rcases hlast v.name with ⟨supplied, x, hx, hsupplied, hstored⟩ | ⟨hnone, huntouched⟩
    · exact Or.inl ⟨supplied, hsupplied, by rw [hx]; exact hstored⟩
    · exact Or.inr ⟨huntouched, by rw [hnone]; rfl⟩

/-- A witness and a public input over the field with seven elements. -/
def exampleTable : VariableTable :=
  let F : PrimeField := ⟨7, by decide⟩
  ⟨F, [⟨"a", .witness, .number F.zero⟩, ⟨"p", .publicInput, .number F.zero⟩]⟩

/-- A call that names a variable twice, and one that fails at an unknown name. -/
def exampleRun : List (List (Value × Value)) :=
  [[(.text "a", .int 3), (.text "a", .int (-1))], [(.text "a", .int 2), (.text "q", .int 1)]]

/-- After the run the last pair of the first call counts. A truth value is no integer, and it is
reported before the unknown name behind it. -/
theorem values_over_runs_example :
    let pairs : List (Value × Value) := [(.text "a", .bool true), (.text "q", .int 1)]
    (exampleTable.afterCalls exampleRun).values.map (fun x => (x.1, x.2.plain)) =
        [("a", "6"), ("p", "0")] ∧
      ∃ fault, (exampleTable.afterCalls exampleRun).setValues pairs = .error fault ∧
        exampleTable.FirstRefused pairs fault ∧
        exampleTable.afterCalls (exampleRun ++ [pairs]) = exampleTable.afterCalls exampleRun := by
  intro pairs
  refine ⟨by decide +kernel, ?_⟩
  obtain ⟨-, -, hfails, hreports, -⟩ := values_over_runs exampleTable exampleRun
  obtain ⟨fault, hfault⟩ := (hfails pairs).mpr ⟨_, List.mem_cons_self, Or.inr id⟩
  exact ⟨fault, hfault, hreports pairs fault hfault⟩

end VariableTable

end PlonkGates
