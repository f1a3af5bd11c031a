import Mathlib.Order.Bounds.Basic
import PlonkGates.Proofs.Table

/-!
# Roles of names

A program may mention a name as a public input and on wires. In the table of its variables the name
has one role all the same, that of the first equation that mentions it (`mem_roles_derive`); there
the public input counts before the wires. Programs that keep the rules mention every name in one
role only, so the order of their equations does not matter.

A name with two roles is reported with the equation that brings the second one. Each name shows its
conflict at the later of its two first places. The report takes the least such place, and the least
name if there are several: this is the earliest beginning of the program that has a conflict at all,
and the least name with a conflict in it (`brokenRoles_earliest`).
-/

namespace PlonkGates

namespace Expression

variable {d e : Expression} {es : List Expression} {name : String}

/-- The name is the public input of the equation. -/
def HasPublic (e : Expression) (name : String) : Prop := ∃ p, e.rhs = some p ∧ p.name = name

theorem mem_names_iff : name ∈ e.names ↔ e.HasPublic name ∨ name ∈ e.wireNames := by
  rw [names, List.mem_append, HasPublic]
  cases e.rhs with
  | none => simp
  | some p => simp [eq_comm]

/-- The equation `a + b = c`. -/
def sumEquation : Expression :=
  ⟨none, [⟨false, .int 1, "a"⟩, ⟨false, .int 1, "b"⟩], some ⟨false, "c"⟩, some 1⟩

/-- The equation `c + d = a`, in which two names of the first one change their roles. -/
def crossedEquation : Expression :=
  ⟨none, [⟨false, .int 1, "c"⟩, ⟨false, .int 1, "d"⟩], some ⟨false, "a"⟩, some 2⟩

/-! ## The first mention -/

/-- The first equation of a program that mentions a name in whatever role. -/
def FirstMention (es : List Expression) (name : String) (e : Expression) : Prop :=
  ∃ before after, es = before ++ e :: after ∧ (∀ d ∈ before, name ∉ d.names) ∧ name ∈ e.names

theorem firstMention_cons : FirstMention (d :: es) name e ↔
    (name ∈ d.names ∧ e = d) ∨ (name ∉ d.names ∧ FirstMention es name e) := by
  constructor
  · rintro ⟨before, after, heq, hbefore, he⟩
    cases before with
    | nil =>
      obtain ⟨rfl, -⟩ := List.cons.inj heq
      exact Or.inl ⟨he, rfl⟩
    | cons c before =>
      obtain ⟨rfl, rfl⟩ := List.cons.inj heq
      obtain ⟨hd, hrest⟩ := List.forall_mem_cons.mp hbefore
      exact Or.inr ⟨hd, before, after, rfl, hrest, he⟩
  · rintro (⟨hd, rfl⟩ | ⟨hd, before, after, rfl, hbefore, he⟩)
    · exact ⟨[], es, rfl, by simp, hd⟩
    · exact ⟨d :: before, after, rfl, List.forall_mem_cons.mpr ⟨hd, hbefore⟩, he⟩

theorem exists_firstMention_iff : (∃ e, FirstMention es name e) ↔ ∃ e ∈ es, name ∈ e.names := by
  induction es with
  | nil => simp [FirstMention]
  | cons d es ih =>
    simp only [firstMention_cons, List.exists_mem_cons_iff, ← ih]
    by_cases hd : name ∈ d.names
    · simp [hd]
    · simp [hd]

end Expression

namespace VariableTable

open Expression (HasPublic FirstMention firstMention_cons mem_names_iff sumEquation crossedEquation)

variable {F : PrimeField} {e : Expression} {es : List Expression} {name : String} {role : Role}

theorem lookup_map_witness (wires : List String) (name : String) :
    (wires.map fun wire => (wire, Role.witness)).lookup name =
      if name ∈ wires then some .witness else none := by
  induction wires with
  | nil => rfl
  | cons wire wires ih =>
    rw [List.map_cons, List.lookup_cons, ih]
    by_cases hname : name = wire
    · simp [hname]
    · have hbeq : (name == wire) = false := by simpa using hname
      simp [hbeq, hname]

/-- Within an equation the public input is mentioned before the wires. -/
theorem lookup_mentions_iff : (mentions e).lookup name = some role ↔
    (role = .publicInput ∧ e.HasPublic name) ∨
      (role = .witness ∧ ¬ e.HasPublic name ∧ name ∈ e.wireNames) := by
  rw [mentions]
  cases hrhs : e.rhs with
  | none =>
    rw [Option.map_none, Option.toList_none, List.nil_append, lookup_map_witness]
    simp [HasPublic, hrhs, eq_comm, and_comm]
  | some p =>
    rw [Option.map_some, Option.toList_some, List.singleton_append, List.lookup_cons,
      lookup_map_witness]
    by_cases hname : name = p.name
    · simp [HasPublic, hrhs, hname, eq_comm]
    · have hbeq : (name == p.name) = false := by simpa using hname
      simp [HasPublic, hrhs, hbeq, hname, eq_comm, and_comm]

theorem lookup_mentions_eq_none_iff : (mentions e).lookup name = none ↔ name ∉ e.names := by
  rw [Option.eq_none_iff_forall_ne_some, mem_names_iff]
  simp only [ne_eq, lookup_mentions_iff]
  constructor
  · intro h hname
    by_cases hpublic : e.HasPublic name
    · exact h .publicInput (Or.inl ⟨rfl, hpublic⟩)
    · exact h .witness (Or.inr ⟨rfl, hpublic, hname.resolve_left hpublic⟩)
  · rintro h role (⟨-, hpublic⟩ | ⟨-, -, hwire⟩)
    · exact h (Or.inl hpublic)
    · exact h (Or.inr hwire)

/-- The first mention of a name in a program is in the first equation that mentions it. -/
theorem lookup_flatMap_mentions : (es.flatMap mentions).lookup name = some role ↔
    ∃ e, FirstMention es name e ∧ (mentions e).lookup name = some role := by
  induction es with
  | nil => simp [FirstMention]
  | cons d es ih =>
    rw [List.flatMap_cons, List.lookup_append]
    simp only [firstMention_cons]
    cases hd : (mentions d).lookup name with
    | none =>
      have hname := lookup_mentions_eq_none_iff.mp hd
      simp [hname, ih]
    | some first =>
      have hname : name ∈ d.names := by
        by_contra hnot
        rw [lookup_mentions_eq_none_iff.mpr hnot] at hd
        cases hd
      simp [hname, hd]

theorem mem_roles_iff_lookup :
    (name, role) ∈ (derive F es).roles ↔ (es.flatMap mentions).lookup name = some role := by
  rw [roles, List.mem_map]
  constructor
  · rintro ⟨v, hv, hpair⟩
    cases hpair
    have hfind := (sorted_derive F es).find?_eq_some_iff.mpr ⟨hv, rfl⟩
    have hderive := find?_derive F es v.name
    rw [find?, hfind, eq_comm, Option.map_eq_some_iff] at hderive
    obtain ⟨first, hfirst, heq⟩ := hderive
    rw [hfirst, ← heq]
  · intro hlookup
    have hderive := find?_derive F es name
    rw [hlookup, Option.map_some] at hderive
    exact ⟨_, mem_of_find? hderive, rfl⟩

/-- **The first equation that mentions a name decides its role.** -/
theorem mem_roles_derive : (name, role) ∈ (derive F es).roles ↔
    ∃ e, FirstMention es name e ∧ (role = .publicInput ↔ e.HasPublic name) := by
  rw [mem_roles_iff_lookup, lookup_flatMap_mentions]
  refine exists_congr fun e => and_congr_right fun hfirst => ?_
  obtain ⟨-, -, -, -, hname⟩ := hfirst
  rw [lookup_mentions_iff]
  cases role with
  | publicInput => simp
  | witness =>
    have hwire : ¬ e.HasPublic name → name ∈ e.wireNames := (mem_names_iff.mp hname).resolve_left
    simpa using hwire

theorem mem_names_derive :
    name ∈ (derive F es).entries.map (·.name) ↔ ∃ e ∈ es, name ∈ e.names := by
  have hroles : name ∈ (derive F es).entries.map (·.name) ↔
      ∃ role, (name, role) ∈ (derive F es).roles := by
    simp [roles]
  rw [hroles, ← Expression.exists_firstMention_iff]
  simp only [mem_roles_derive]
  constructor
  · rintro ⟨role, e, hfirst, -⟩
    exact ⟨e, hfirst⟩
  · rintro ⟨e, hfirst⟩
    by_cases hpublic : e.HasPublic name
    · exact ⟨.publicInput, e, hfirst, by simpa using hpublic⟩
    · exact ⟨.witness, e, hfirst, by simpa using hpublic⟩

/-- If roles agree, a name has the role in which it is mentioned, wherever that is. -/
theorem mem_roles_of_rolesAgree (hroles : Expression.RolesAgree es) :
    (name, role) ∈ (derive F es).roles ↔ ∃ e ∈ es, (name, role) ∈ mentions e := by
  rw [mem_roles_iff_lookup, ← List.mem_flatMap]
  exact ⟨mem_of_lookup, lookup_mentions hroles⟩

/-- **The table of a program has its names in increasing order, all with the value zero, and each in
the role of the first equation that mentions it**: it is a public input exactly if it is the public
input of that equation, also if it is on a wire of it. If the program keeps the rules, public inputs
are the names that are one anywhere, and witnesses the names that are on a wire anywhere. -/
theorem derive_classifies (F : PrimeField) (es : List Expression) :
    (derive F es).entries.Pairwise (·.name < ·.name) ∧
    (∀ name, name ∈ (derive F es).entries.map (·.name) ↔ ∃ e ∈ es, name ∈ e.names) ∧
    (∀ v ∈ (derive F es).entries, v.value = .number F.zero) ∧
    (∀ name,
      ((name, .publicInput) ∈ (derive F es).roles ↔
        ∃ e, FirstMention es name e ∧ e.HasPublic name) ∧
      ((name, .witness) ∈ (derive F es).roles ↔
        ∃ e, FirstMention es name e ∧ ¬ e.HasPublic name)) ∧
    (Expression.validate es = .ok () → ∀ name,
      ((name, .publicInput) ∈ (derive F es).roles ↔ ∃ e ∈ es, e.HasPublic name) ∧
      ((name, .witness) ∈ (derive F es).roles ↔ ∃ e ∈ es, name ∈ e.wireNames)) := by
  refine ⟨sorted_derive F es, fun name => mem_names_derive, fun v => value_mem_derive,
    fun name => ⟨?_, ?_⟩, fun hvalid name => ?_⟩
  · simp [mem_roles_derive]
  · simp [mem_roles_derive]
  · obtain ⟨-, hroles⟩ := Expression.validate_eq_ok_iff.mp hvalid
    simp [mem_roles_of_rolesAgree hroles, mem_mentions, HasPublic]

theorem derive_classifies_sumEquation :
    Expression.validate [sumEquation] = .ok () ∧
      ("c", .publicInput) ∈ (derive .blsScalar [sumEquation]).roles ∧
      ("a", .witness) ∈ (derive .blsScalar [sumEquation, crossedEquation]).roles := by
  have hvalid : Expression.validate [sumEquation] = .ok () := by rfl
  obtain ⟨-, -, -, -, hvalidated⟩ := derive_classifies .blsScalar [sumEquation]
  obtain ⟨-, -, -, hfirst, -⟩ := derive_classifies .blsScalar [sumEquation, crossedEquation]
  refine ⟨hvalid, (hvalidated hvalid "c").1.mpr ?_, (hfirst "a").2.mpr ?_⟩
  · exact ⟨sumEquation, List.mem_cons_self, _, rfl, rfl⟩
  · refine ⟨sumEquation, ⟨[], [crossedEquation], rfl, by simp, by decide⟩, ?_⟩
    rintro ⟨p, hp, hname⟩
    cases hp
    exact absurd hname (by decide)

end VariableTable

/-! ## The earliest conflict -/

namespace Expression

variable {es : List Expression} {name : String}

/-- The name is the public input of an equation and on a wire of one, which may be the same. -/
def HasBothRoles (es : List Expression) (name : String) : Prop :=
  (∃ d ∈ es, d.HasPublic name) ∧ ∃ e ∈ es, name ∈ e.wireNames

theorem hasBothRoles_iff : HasBothRoles es name ↔ ∃ c ∈ conflicts es, c.name = name := by
  unfold HasBothRoles HasPublic
  rw [← exists_publicAt_iff, ← exists_wireAt_iff]
  constructor
  · rintro ⟨⟨p, hp⟩, w, hw⟩
    exact ⟨⟨name, max p w, min p w⟩, mem_conflicts.mpr ⟨p, w, hp, hw, rfl⟩, rfl⟩
  · rintro ⟨c, hc, rfl⟩
    obtain ⟨p, w, hp, hw, -⟩ := mem_conflicts.mp hc
    exact ⟨⟨p, hp⟩, w, hw⟩

/-- A name that has both roles among the first equations shows them there. -/
theorem hasBothRoles_take_iff {k : Nat} : HasBothRoles (es.take k) name ↔
    ∃ c ∈ conflicts es, c.later < k ∧ c.name = name := by
  simp only [hasBothRoles_iff, mem_conflicts_take, and_assoc]

theorem isSome_brokenRoles_iff :
    (brokenRoles es).isSome = true ↔ ∃ name, HasBothRoles es name := by
  rw [brokenRoles, Option.isSome_map, Option.isSome_iff_ne_none, ne_eq, earliest_eq_none_iff]
  simp only [hasBothRoles_iff]
  constructor
  · intro hne
    obtain ⟨c, cs, hcs⟩ := List.exists_cons_of_ne_nil hne
    exact ⟨c.name, c, by simp [hcs], rfl⟩
  · rintro ⟨name, c, hc, -⟩
    exact List.ne_nil_of_mem hc

/-- Conflicts that are made for names in increasing order are in that order. -/
theorem pairwise_filterMap_name {make : String → Option Conflict} {names : List String}
    (hmake : ∀ x c, make x = some c → c.name = x) (h : names.Pairwise (· < ·)) :
    (names.filterMap make).Pairwise (·.name < ·.name) := by
  refine h.filterMap make fun x y hxy c hc d hd => ?_
  rw [hmake x c hc, hmake y d hd]
  exact hxy

theorem pairwise_conflicts (es : List Expression) : (conflicts es).Pairwise (·.name < ·.name) := by
  refine pairwise_filterMap_name (fun x c hc => ?_) (Text.pairwise_sortNames _)
  cases hp : publicAt es x with
  | none => simp [hp] at hc
  | some p =>
    cases hw : wireAt es x with
    | none => simp [hp, hw] at hc
    | some w =>
      rw [hp, hw] at hc
      cases hc
      rfl

/-- Of conflicts that show up in one place, the one with the least name is taken. -/
theorem earliest_name_le {cs : List Conflict} {c : Conflict}
    (hsorted : cs.Pairwise (·.name < ·.name)) (h : earliest cs = some c) :
    ∀ d ∈ cs, d.later = c.later → c.name ≤ d.name := by
  induction cs generalizing c with
  | nil => cases h
  | cons first cs ih =>
    obtain ⟨hfirst, hcs⟩ := List.pairwise_cons.mp hsorted
    rw [earliest] at h
    cases hrest : earliest cs with
    | none =>
      rw [hrest] at h
      cases h
      obtain rfl := earliest_eq_none_iff.mp hrest
      simp
    | some b =>
      simp only [hrest] at h
      split_ifs at h with hlt
      · cases h
        refine List.forall_mem_cons.mpr ⟨fun heq => ?_, ih hcs hrest⟩
        exact absurd heq (ne_of_gt hlt)
      · cases h
        exact List.forall_mem_cons.mpr ⟨fun _ => le_rfl, fun d hd _ => (hfirst d hd).le⟩

/-- The first place where a test succeeds. -/
theorem isLeast_findIdx? {test : Expression → Bool} {i : Nat} (h : es.findIdx? test = some i) :
    IsLeast {j | ∃ e, es[j]? = some e ∧ test e = true} i := by
  obtain ⟨hlt, htest, hbefore⟩ := List.findIdx?_eq_some_iff_getElem.mp h
  refine ⟨⟨es[i], List.getElem?_eq_getElem hlt, htest⟩, ?_⟩
  rintro j ⟨e, he, hj⟩
  by_contra hji
  obtain ⟨hjlt, rfl⟩ := List.getElem?_eq_some_iff.mp he
  exact hbefore j (not_le.mp hji) hj

theorem isLeast_publicAt {p : Nat} (h : publicAt es name = some p) :
    IsLeast {i | ∃ e, es[i]? = some e ∧ e.HasPublic name} p := by
  simpa [HasPublic, Option.any_eq_true] using isLeast_findIdx? h

theorem isLeast_wireAt {w : Nat} (h : wireAt es name = some w) :
    IsLeast {i | ∃ e, es[i]? = some e ∧ name ∈ e.wireNames} w := by
  simpa using isLeast_findIdx? h

/-- **A name with two roles is reported as early as possible.** There is a report exactly if some
name is a public input and on a wire. The equation of the report is the least with which the program
up to there would be turned down, the name is the least that has both roles up to there, and the
other equation is the one where the name had the first of its two roles first. -/
theorem brokenRoles_earliest (es : List Expression) :
    ((brokenRoles es).isSome = true ↔ ∃ name, HasBothRoles es name) ∧
    ∀ v, brokenRoles es = some v → ∃ (name : String) (k other : Nat),
      v = ⟨.roleConflict name other, k, (es[k]?).bind (·.line)⟩ ∧
      v.rule.detail = Text.quoted name ++ " (see equation " ++ Text.numeral other ++ ")" ∧
      IsLeast {i | (brokenRoles (es.take (i + 1))).isSome = true} k ∧
      IsLeast {x | HasBothRoles (es.take (k + 1)) x} name ∧
      ∃ p w, IsLeast {i | ∃ e, es[i]? = some e ∧ e.HasPublic name} p ∧
        IsLeast {i | ∃ e, es[i]? = some e ∧ name ∈ e.wireNames} w ∧
        k = max p w ∧ other = min p w := by
  refine ⟨isSome_brokenRoles_iff, fun v hv => ?_⟩
  obtain ⟨c, hc, rfl⟩ := Option.map_eq_some_iff.mp hv
  obtain ⟨hmem, hleast⟩ := earliest_eq_some hc
  obtain ⟨p, w, hp, hw, hplaces⟩ := mem_conflicts.mp hmem
  refine ⟨c.name, c.later, c.earlier, rfl, rfl, ⟨?_, ?_⟩, ⟨?_, ?_⟩,
    p, w, isLeast_publicAt hp, isLeast_wireAt hw, congrArg Conflict.later hplaces,
    congrArg Conflict.earlier hplaces⟩
  · exact isSome_brokenRoles_iff.mpr
      ⟨c.name, hasBothRoles_take_iff.mpr ⟨c, hmem, Nat.lt_succ_self _, rfl⟩⟩
  · intro i hi
    obtain ⟨x, hx⟩ := isSome_brokenRoles_iff.mp hi
    obtain ⟨d, hd, hlater, -⟩ := hasBothRoles_take_iff.mp hx
    exact (hleast d hd).trans (Nat.lt_succ_iff.mp hlater)
  · exact hasBothRoles_take_iff.mpr ⟨c, hmem, Nat.lt_succ_self _, rfl⟩
  · intro x hx
    obtain ⟨d, hd, hlater, rfl⟩ := hasBothRoles_take_iff.mp hx
    -- no conflict shows up before this one, so all others up to here show up in the same place
    have hsame : d.later = c.later := le_antisymm (Nat.lt_succ_iff.mp hlater) (hleast d hd)
    exact earliest_name_le (pairwise_conflicts es) hc d hd hsame

/-- Two names are in conflict in the second equation, and the least of them is reported. -/
theorem brokenRoles_earliest_crossedEquation :
    ∃ v, brokenRoles [sumEquation, crossedEquation] = some v ∧
      v.rule.detail = "'a' (see equation 0)" ∧ v.index = 1 ∧ v.line = some 2 := by
  have hv : brokenRoles [sumEquation, crossedEquation] =
      some ⟨.roleConflict "a" 0, 1, some 2⟩ := by decide +kernel
  obtain ⟨-, hreport⟩ := brokenRoles_earliest [sumEquation, crossedEquation]
  obtain ⟨name, k, other, heq, hdetail, -⟩ := hreport _ hv
  obtain ⟨hrule, -, -⟩ := Violation.mk.inj heq
  obtain ⟨rfl, rfl⟩ := Rule.roleConflict.inj hrule
  exact ⟨_, hv, by rw [hdetail]; decide +kernel, rfl, rfl⟩

end Expression

end PlonkGates
