import Mathlib.Data.Set.Function
import PlonkGates.Proofs.Precedence

/-!
# Renamed programs

The names of a program may be exchanged for others, as long as different names stay different. The
rules ask which names are the same and nothing else about them, so a renamed program breaks the same
rules, and so does every beginning of it (`broken_rename`). The lowest rule that is broken is
reported, at the equation with which it is first broken; so the same rule is reported, at the same
equation (`validate_rename`).

A message may tell more than that. Of several names with two roles the first one in the order of
names is reported, and renaming need not keep that order.
-/

namespace PlonkGates

/-! ## Names -/

def QuadraticTerm.rename (r : String → String) (t : QuadraticTerm) : QuadraticTerm :=
  { t with left := r t.left, right := r t.right }

def LinearTerm.rename (r : String → String) (t : LinearTerm) : LinearTerm :=
  { t with name := r t.name }

def PublicTerm.rename (r : String → String) (p : PublicTerm) : PublicTerm :=
  { p with name := r p.name }

/-- Violations of one rule at one equation. Their messages may name different variables. -/
structure Violation.Alike (v v' : Violation) : Prop where
  rule : v'.rule.number = v.rule.number
  index : v'.index = v.index
  line : v'.line = v.line

namespace Expression

/-- The equation with its names exchanged. -/
def rename (r : String → String) (e : Expression) : Expression where
  quadratic := e.quadratic.map (·.rename r)
  linear := e.linear.map (·.rename r)
  rhs := e.rhs.map (·.rename r)
  line := e.line

/-- The names of a program. -/
def Mentioned (es : List Expression) : Set String := {name | ∃ e ∈ es, name ∈ e.names}

variable {r : String → String} {e : Expression} {es : List Expression} {n : Nat}

@[simp] theorem wireNames_rename (r : String → String) (e : Expression) :
    (e.rename r).wireNames = e.wireNames.map r := by
  rw [wireNames, wireNames, List.map_append, rename]
  cases e.quadratic with
  | none => simp [LinearTerm.rename]
  | some t => simp [LinearTerm.rename, QuadraticTerm.rename]

@[simp] theorem names_rename (r : String → String) (e : Expression) :
    (e.rename r).names = e.names.map r := by
  rw [names, names, List.map_append, wireNames_rename, rename]
  cases e.rhs with
  | none => rfl
  | some p => rfl

theorem mem_names_of_mem_wireNames {name : String} (h : name ∈ e.wireNames) : name ∈ e.names :=
  List.mem_append_right _ h

theorem mem_names_of_rhs {p : PublicTerm} (h : e.rhs = some p) : p.name ∈ e.names :=
  List.mem_append_left _ (by simp [h])

theorem mentioned_mono {ds : List Expression} (h : ds ⊆ es) : Mentioned ds ⊆ Mentioned es :=
  fun _ ⟨e, he, hname⟩ => ⟨e, h he, hname⟩

theorem names_subset_mentioned (he : e ∈ es) : {name | name ∈ e.names} ⊆ Mentioned es :=
  fun _ hname => ⟨e, he, hname⟩

/-! ## Lists of names -/

/-- A renamed name is among renamed names if it was among them. -/
theorem mem_map_iff {names : Set String} (hr : Set.InjOn r names) {name : String}
    {xs : List String} (hname : name ∈ names) (hxs : ∀ x ∈ xs, x ∈ names) :
    r name ∈ xs.map r ↔ name ∈ xs := by
  rw [List.mem_map]
  refine ⟨?_, fun h => ⟨name, h, rfl⟩⟩
  rintro ⟨x, hx, heq⟩
  rwa [← hr (hxs x hx) hname heq]

theorem nodup_map_iff {xs : List String} (hr : Set.InjOn r {x | x ∈ xs}) :
    (xs.map r).Nodup ↔ xs.Nodup :=
  ⟨fun h => h.of_map r, fun h => h.map_on fun _ hx _ hy heq => hr hx hy heq⟩

/-- There are as many different names as before. -/
theorem card_map {xs : List String} (hr : Set.InjOn r {x | x ∈ xs}) :
    (xs.map r).toFinset.card = xs.toFinset.card := by
  have himage : (xs.map r).toFinset = xs.toFinset.image r := by
    ext x
    simp
  rw [himage, Finset.card_image_of_injOn]
  exact fun x hx y hy => hr (by simpa using hx) (by simpa using hy)

/-! ## Rules -/

theorem breaks_rename (hr : Set.InjOn r {name | name ∈ e.names}) :
    (e.rename r).Breaks n ↔ e.Breaks n := by
  have hwires : {name | name ∈ e.wireNames} ⊆ {name | name ∈ e.names} :=
    fun _ => mem_names_of_mem_wireNames
  match n with
  | 0 => exact Iff.rfl
  | 1 =>
    cases hq : e.quadratic with
    | none => simp [Breaks, rename, hq]
    | some t =>
      have hleft : t.left ∈ e.wireNames := by simp [wireNames, hq]
      have hright : t.right ∈ e.wireNames := by simp [wireNames, hq]
      simp [Breaks, rename, hq, QuadraticTerm.rename, hr.eq_iff (hwires hleft) (hwires hright)]
  | 2 => rw [Breaks, Breaks, wireNames_rename, names_rename, card_map (hr.mono hwires), card_map hr]
  | 3 =>
    have hlinear : (e.rename r).linear.map (·.name) = (e.linear.map (·.name)).map r := by
      simp [rename, LinearTerm.rename]
    have hnames : {name | name ∈ e.linear.map (·.name)} ⊆ {name | name ∈ e.names} :=
      fun name hname => hwires (List.mem_append_right _ hname)
    rw [Breaks, Breaks, hlinear, nodup_map_iff (hr.mono hnames)]
  | 4 =>
    cases hp : e.rhs with
    | none => simp [Breaks, rename, hp]
    | some p =>
      have hmem : r p.name ∈ e.wireNames.map r ↔ p.name ∈ e.wireNames :=
        mem_map_iff hr (mem_names_of_rhs hp) fun x hx => hwires hx
      rw [Breaks, Breaks, wireNames_rename, hp]
      simpa [rename, hp, PublicTerm.rename] using hmem
  | n + 5 => exact Iff.rfl

theorem rolesClash_rename (hr : Set.InjOn r (Mentioned es)) :
    RolesClash (es.map (·.rename r)) ↔ RolesClash es := by
  have hmem : ∀ {d e : Expression} {p : PublicTerm}, d ∈ es → e ∈ es → d.rhs = some p →
      (r p.name ∈ (e.rename r).wireNames ↔ p.name ∈ e.wireNames) := fun hd he hp => by
    rw [wireNames_rename]
    exact mem_map_iff hr ⟨_, hd, mem_names_of_rhs hp⟩
      fun x hx => ⟨_, he, mem_names_of_mem_wireNames hx⟩
  constructor
  · rintro ⟨i, j, d, e, p, hij, hi, hj, hp, hwire⟩
    rw [List.getElem?_map, Option.map_eq_some_iff] at hi hj
    obtain ⟨d, hi, rfl⟩ := hi
    obtain ⟨e, hj, rfl⟩ := hj
    obtain ⟨q, hq, rfl⟩ := Option.map_eq_some_iff.mp hp
    have hd := List.mem_of_getElem? hi
    have he := List.mem_of_getElem? hj
    exact ⟨i, j, d, e, q, hij, hi, hj, hq, (hmem hd he hq).mp hwire⟩
  · rintro ⟨i, j, d, e, p, hij, hi, hj, hp, hwire⟩
    have hd := List.mem_of_getElem? hi
    have he := List.mem_of_getElem? hj
    refine ⟨i, j, d.rename r, e.rename r, p.rename r, hij, ?_, ?_, ?_, (hmem hd he hp).mpr hwire⟩
    · rw [List.getElem?_map, hi, Option.map_some]
    · rw [List.getElem?_map, hj, Option.map_some]
    · rw [rename, hp, Option.map_some]

/-- **A renamed program breaks the same rules.** -/
theorem broken_rename (hr : Set.InjOn r (Mentioned es)) :
    Broken (es.map (·.rename r)) n ↔ Broken es n := by
  rw [Broken, Broken, rolesClash_rename hr]
  simp only [List.mem_map, exists_exists_and_eq_and]
  refine or_congr_left (exists_congr fun e => and_congr_right fun he => ?_)
  exact breaks_rename (hr.mono (names_subset_mentioned he))

/-! ## What is reported -/

/-- A rule that is broken stays so when equations are added. -/
theorem Broken.take_mono {j k : Nat} (hjk : j ≤ k) (h : Broken (es.take j) n) :
    Broken (es.take k) n := by
  have hget : ∀ {i : Nat} {e : Expression}, (es.take j)[i]? = some e →
      (es.take k)[i]? = some e := fun hi => by
    rw [List.getElem?_take] at hi ⊢
    obtain ⟨hij, hi⟩ := Option.ite_none_right_eq_some.mp hi
    rw [if_pos (hij.trans_le hjk), hi]
  rcases h with ⟨e, he, hbreaks⟩ | ⟨hfive, a, b, d, e, p, hab, ha, hb, hp, hwire⟩
  · obtain ⟨i, hi⟩ := List.mem_iff_getElem?.mp he
    exact Or.inl ⟨e, List.mem_of_getElem? (hget hi), hbreaks⟩
  · exact Or.inr ⟨hfive, a, b, d, e, p, hab, hget ha, hget hb, hp, hwire⟩

theorem broken_take_rename (hr : Set.InjOn r (Mentioned es)) (k : Nat) :
    Broken ((es.map (·.rename r)).take k) n ↔ Broken (es.take k) n := by
  rw [← List.map_take]
  exact broken_rename (hr.mono (mentioned_mono (List.take_subset k es)))

/-- **Of a renamed program the same rule is reported, at the same equation.** -/
theorem alike_of_violation? (hr : Set.InjOn r (Mentioned es)) {v v' : Violation}
    (hv : violation? es = some v) (hv' : violation? (es.map (·.rename r)) = some v') :
    v.Alike v' := by
  have hreported := reported_of_violation? hv
  have hreported' := reported_of_violation? hv'
  have hrule : v'.rule.number = v.rule.number := by
    refine le_antisymm (not_lt.mp fun hlt => ?_) (not_lt.mp fun hlt => ?_)
    · exact hreported'.lowest _ hlt ((broken_rename hr).mpr hreported.broken)
    · exact hreported.lowest _ hlt ((broken_rename hr).mp hreported'.broken)
  obtain ⟨k, hindex, hline, hbroken, hkept⟩ := first_of_violation? hv
  obtain ⟨k', hindex', hline', hbroken', hkept'⟩ := first_of_violation? hv'
  rw [hrule, broken_take_rename hr] at hbroken' hkept'
  -- up to the later of two places nothing would be broken, but it is at the earlier one
  obtain rfl : k' = k := by
    refine le_antisymm (not_lt.mp fun hlt => ?_) (not_lt.mp fun hlt => ?_)
    · exact hkept' (hbroken.take_mono hlt)
    · exact hkept (hbroken'.take_mono hlt)
  refine ⟨hrule, hindex'.trans hindex.symm, ?_⟩
  rw [hline', hline, List.getElem?_map]
  cases es[k']? with
  | none => rfl
  | some e => rfl

theorem validate_rename (hr : Set.InjOn r (Mentioned es)) :
    (validate (es.map (·.rename r)) = .ok () ↔ validate es = .ok ()) ∧
      ∀ fault, validate es = .error fault → ∃ v v', fault = .violation v ∧
        validate (es.map (·.rename r)) = .error (.violation v') ∧ v.Alike v' := by
  have hnone : violation? (es.map (·.rename r)) = none ↔ violation? es = none := by
    simp only [violation?_eq_none_iff, broken_rename hr]
  unfold validate
  cases hv : violation? es with
  | none => simp [hnone.mpr hv]
  | some v =>
    cases hv' : violation? (es.map (·.rename r)) with
    | none => simp [hnone.mp hv'] at hv
    | some v' =>
      refine ⟨by simp, fun fault hfault => ⟨v, v', ?_, rfl, alike_of_violation? hr hv hv'⟩⟩
      exact (Except.error.inj hfault).symm

end Expression

end PlonkGates
