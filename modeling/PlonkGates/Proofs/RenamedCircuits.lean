import Mathlib.Order.Interval.Finset.Nat
import PlonkGates.Proofs.RenamedTables
import PlonkGates.Proofs.Systems

/-!
# Circuits under other names

A renamed equation is laid out on the same wires (`Layout.ofExpression_rename`). Its variables have
other indices there, because witnesses are numbered in the order of their names: where a name had an
index, its other name has one, and this is a permutation of the indices that the names alone decide
(`reindex`). So the gates of a renamed program are those of the program with their wires permuted
(`Renamed.gateOf`), and they have the same values. If the order of names is kept, no index changes,
and nothing else does (`lower_renamed`).
-/

namespace PlonkGates

/-! ## Layouts -/

namespace Layout

/-- The layout with other variables on its wires. -/
def rename (r : String → String) (layout : Layout) : Layout :=
  { layout with
    bindings := layout.bindings.map (Prod.map id r)
    rhs := layout.rhs.map (·.rename r) }

variable {r : String → String} {names : Set String} {bindings bindings' : Bindings}

theorem lookup_rename (r : String → String) (bindings : Bindings) (wire : Wire) :
    (bindings.map (Prod.map id r)).lookup wire = (bindings.lookup wire).map r := by
  induction bindings with
  | nil => rfl
  | cons binding bindings ih =>
    obtain ⟨first, name⟩ := binding
    rw [List.map_cons, Prod.map_apply, List.lookup_cons, List.lookup_cons, ih, id_eq]
    cases wire == first with
    | true => rfl
    | false => rfl

theorem bind_rename {wire : Wire} {name : String} (h : bind bindings wire name = .ok bindings') :
    bind (bindings.map (Prod.map id r)) wire (r name) = .ok (bindings'.map (Prod.map id r)) := by
  rw [bind] at h ⊢
  rw [lookup_rename]
  cases hbound : bindings.lookup wire with
  | none =>
    rw [hbound] at h
    cases h
    simp
  | some bound =>
    simp only [hbound] at h
    split_ifs at h with heq
    cases h
    simp [heq]

/-- Different variables stay different, so they stay on their wires. -/
theorem wireBeside_rename (hr : Set.InjOn r names) {q : QuadraticTerm} {name : String}
    (hleft : q.left ∈ names) (hright : q.right ∈ names) (hname : name ∈ names) :
    wireBeside (q.rename r) (r name) = wireBeside q name := by
  simp only [wireBeside, QuadraticTerm.rename, hr.eq_iff hname hleft, hr.eq_iff hname hright]

theorem placeBeside_rename (hr : Set.InjOn r names) {q : QuadraticTerm} (hleft : q.left ∈ names)
    (hright : q.right ∈ names) {ts : List LinearTerm} (hts : ∀ t ∈ ts, t.name ∈ names)
    {selectors : List SelectorTerm} (h : placeBeside q bindings ts = .ok (bindings', selectors)) :
    placeBeside (q.rename r) (bindings.map (Prod.map id r)) (ts.map (·.rename r)) =
      .ok (bindings'.map (Prod.map id r), selectors) := by
  induction ts generalizing bindings selectors with
  | nil =>
    cases h
    rfl
  | cons t ts ih =>
    obtain ⟨ht, hts⟩ := List.forall_mem_cons.mp hts
    rw [placeBeside_cons] at h
    obtain ⟨middle, hmiddle, h⟩ := bind_eq_ok.mp h
    obtain ⟨placed, hplaced, h⟩ := bind_eq_ok.mp h
    cases h
    have hwire : wireBeside (q.rename r) (t.rename r).name = wireBeside q t.name :=
      wireBeside_rename hr hleft hright ht
    have hstep : placeOne (q.rename r) (bindings.map (Prod.map id r)) (t.rename r) =
        .ok (middle.map (Prod.map id r)) := by
      rw [placeOne] at hmiddle ⊢
      rw [hwire]
      split_ifs at hmiddle ⊢ with hout
      · exact bind_rename hmiddle
      · cases hmiddle
        rfl
    rw [List.map_cons, placeBeside_cons, hstep, ok_bind, ih hts hplaced, ok_bind, hwire]
    rfl

/-- **A renamed expression is laid out on the same wires.** -/
theorem ofExpression_rename {e : Expression} {layout : Layout}
    (hr : Set.InjOn r {name | name ∈ e.wireNames}) (h : ofExpression e = .ok layout) :
    ofExpression (e.rename r) = .ok (layout.rename r) := by
  cases hq : e.quadratic with
  | some q =>
    simp only [ofExpression, Expression.rename, hq, Option.map_some] at h ⊢
    obtain ⟨⟨bindings, selectors⟩, hplaced, h⟩ := bind_eq_ok.mp h
    cases h
    have hleft : q.left ∈ e.wireNames := by simp [Expression.wireNames, hq]
    have hright : q.right ∈ e.wireNames := by simp [Expression.wireNames, hq]
    have hplaced' := placeBeside_rename hr hleft hright
      (fun t ht => List.mem_append_right _ (List.mem_map_of_mem ht)) hplaced
    have hstart : [(Wire.a, (q.rename r).left), (Wire.b, (q.rename r).right)] =
        List.map (Prod.map id r) [(.a, q.left), (.b, q.right)] := rfl
    rw [hstart, hplaced', ok_bind]
    rfl
  | none =>
    simp only [ofExpression, Expression.rename, hq, Option.map_none, List.length_map] at h ⊢
    split_ifs at h ⊢ with hlength
    cases h
    simp [rename, List.zip_map_right, LinearTerm.rename, selectorOf, Function.comp_def]

end Layout

/-! ## Indices -/

/-- Where the index of a witness goes when it is numbered among others under its other name. The
witness that holds zero stays where it is. -/
def reindex (r : String → String) (names names' : List String) : Nat → Nat
  | 0 => 0
  | j + 1 => match names[j]? with
    | some name => names'.idxOf (r name) + 1
    | none => j + 1

/-- Names that are not reordered keep their indices. -/
theorem reindex_map {r : String → String} {names : List String} (h : (names.map r).Nodup)
    (i : Nat) : reindex r names (names.map r) i = i := by
  cases i with
  | zero => rfl
  | succ j =>
    rw [reindex]
    cases hj : names[j]? with
    | none => rfl
    | some name =>
      obtain ⟨hlt, hj⟩ := List.getElem?_eq_some_iff.mp hj
      have hidx := h.idxOf_getElem j (by simpa using hlt)
      rw [List.getElem_map, hj] at hidx
      simp only [hidx]

namespace VariableTable

variable {r : String → String} {names : Set String} {t t' u : VariableTable}

def witnessNames (t : VariableTable) : List String := t.witnesses.map (·.1)

theorem SameVariables.witnessNames (h : SameVariables t u) : u.witnessNames = t.witnessNames := by
  rw [VariableTable.witnessNames, VariableTable.witnessNames, names_witnesses, names_witnesses,
    h.roles]

theorem Sorted.nodup_witnessNames (h : Sorted t.entries) : t.witnessNames.Nodup := by
  have hroles : (t.roles.map (·.1)).Nodup := by
    rw [roles, List.map_map]
    exact h.nodup_names
  rw [witnessNames, names_witnesses]
  exact hroles.sublist (List.filter_sublist.map _)

namespace Renamed

theorem length_witnesses (h : Renamed r names t t') :
    t'.witnesses.length = t.witnesses.length := by
  rw [h.witnesses.length_eq, List.length_map]

theorem mem_names_of_witness (h : Renamed r names t t') {w : String × Element}
    (hw : w ∈ t.witnesses) : w.1 ∈ names := by
  obtain ⟨v, hv, rfl⟩ := List.mem_map.mp hw
  exact (h.mem_names v.name).mpr (List.mem_map_of_mem (List.mem_filter.mp hv).1)

/-- **A witness is found at its new index, under its other name.** -/
theorem reindex_succ (h : Renamed r names t t') {j : Nat} {name : String} {x : Element}
    (hj : t.witnesses[j]? = some (name, x)) :
    ∃ k, reindex r t.witnessNames t'.witnessNames (j + 1) = k + 1 ∧
      t'.witnesses[k]? = some (r name, x) := by
  have hmem : (r name, x) ∈ t'.witnesses :=
    h.witnesses.mem_iff.mpr (List.mem_map_of_mem (f := Prod.map r id) (List.mem_of_getElem? hj))
  obtain ⟨k, hk⟩ := List.mem_iff_getElem?.mp hmem
  -- names are different, so there is no other place for this one
  have hidx : t'.witnessNames.idxOf (r name) = k := by
    obtain ⟨hlt, hk⟩ := List.getElem?_eq_some_iff.mp hk
    have hlt' : k < t'.witnessNames.length := by rwa [witnessNames, List.length_map]
    have hname : t'.witnessNames[k] = r name := by simp [witnessNames, hk]
    rw [← hname, h.sorted'.nodup_witnessNames.idxOf_getElem k hlt']
  have hname : t.witnessNames[j]? = some name := by
    rw [witnessNames, List.getElem?_map, hj, Option.map_some]
  exact ⟨k, by simp only [reindex, hname, hidx], hk⟩

theorem reindex_le (h : Renamed r names t t') {i : Nat} (hi : i ≤ t.witnesses.length) :
    reindex r t.witnessNames t'.witnessNames i ≤ t.witnesses.length := by
  cases i with
  | zero => exact Nat.zero_le _
  | succ j =>
    obtain ⟨k, hk, hw⟩ := h.reindex_succ (List.getElem?_eq_getElem hi)
    have hlt := (List.getElem?_eq_some_iff.mp hw).1
    rw [h.length_witnesses] at hlt
    rw [hk]
    exact hlt

/-- One place holds one name, and only one name is renamed to it. -/
theorem place_unique (h : Renamed r names t t') {i j : Nat} {w w' : String × Element}
    (hi : t.witnesses[i]? = some w) (hj : t.witnesses[j]? = some w') (heq : r w.1 = r w'.1) :
    i = j := by
  have hname : w.1 = w'.1 := h.injOn (h.mem_names_of_witness (List.mem_of_getElem? hi))
    (h.mem_names_of_witness (List.mem_of_getElem? hj)) heq
  have hlt : i < t.witnessNames.length := by
    rw [witnessNames, List.length_map]
    exact (List.getElem?_eq_some_iff.mp hi).1
  refine (List.getElem?_inj hlt h.sorted.nodup_witnessNames).mp ?_
  rw [witnessNames, List.getElem?_map, List.getElem?_map, hi, hj, Option.map_some, Option.map_some,
    hname]

theorem injOn_reindex (h : Renamed r names t t') :
    Set.InjOn (reindex r t.witnessNames t'.witnessNames) (Set.Iic t.witnesses.length) := by
  intro i hi j hj heq
  cases i with
  | zero =>
    cases j with
    | zero => rfl
    | succ j =>
      obtain ⟨k, hk, -⟩ := h.reindex_succ (List.getElem?_eq_getElem hj)
      rw [hk] at heq
      cases heq
  | succ i =>
    obtain ⟨k, hk, hw⟩ := h.reindex_succ (List.getElem?_eq_getElem hi)
    rw [hk] at heq
    cases j with
    | zero => cases heq
    | succ j =>
      obtain ⟨k', hk', hw'⟩ := h.reindex_succ (List.getElem?_eq_getElem hj)
      rw [hk'] at heq
      cases heq
      refine congrArg Nat.succ (h.place_unique (List.getElem?_eq_getElem hi)
        (List.getElem?_eq_getElem hj) ?_)
      exact congrArg Prod.fst (Option.some.inj (hw.symm.trans hw'))

/-- **Indices are permuted.** -/
theorem bijOn_reindex (h : Renamed r names t t') :
    Set.BijOn (reindex r t.witnessNames t'.witnessNames) (Set.Iic t.witnesses.length)
      (Set.Iic t.witnesses.length) :=
  ((Set.finite_Iic _).injOn_iff_bijOn_of_mapsTo fun _ hi => h.reindex_le hi).mp h.injOn_reindex

/-- The index of a name becomes that of its other name. -/
theorem lookup_reindex (h : Renamed r names t t') {name : String} {i : Nat}
    (hi : (numbered 1 t.witnesses).lookup name = some (i : Int)) :
    (numbered 1 t'.witnesses).lookup (r name) =
      some (reindex r t.witnessNames t'.witnessNames i : Int) := by
  obtain ⟨j, x, hij, hj⟩ := (lookup_numbered_iff h.sorted.nodup_witnessNames).mp hi
  obtain ⟨k, hk, hw⟩ := h.reindex_succ hj
  obtain rfl : i = j + 1 := by omega
  exact (lookup_numbered_iff h.sorted'.nodup_witnessNames).mpr ⟨k, x, by omega, hw⟩

/-- The value of a witness is found at its new index. -/
theorem getElem?_reindex (h : Renamed r names t t') (zero : Element) {i : Nat}
    (hi : i ≤ t.witnesses.length) :
    (zero :: t'.witnesses.map (·.2))[reindex r t.witnessNames t'.witnessNames i]? =
      (zero :: t.witnesses.map (·.2))[i]? := by
  cases i with
  | zero => rfl
  | succ j =>
    have hj := List.getElem?_eq_getElem hi
    obtain ⟨k, hk, hw⟩ := h.reindex_succ hj
    rw [hk, List.getElem?_cons_succ, List.getElem?_cons_succ, List.getElem?_map, List.getElem?_map,
      hj, hw]
    rfl

end Renamed

end VariableTable

/-! ## Gates -/

theorem Expression.IsIntegral.rename {e : Expression} (h : e.IsIntegral) (r : String → String) :
    (e.rename r).IsIntegral where
  quadratic := fun t ht => by
    obtain ⟨q, hq, rfl⟩ := Option.map_eq_some_iff.mp ht
    exact h.quadratic q hq
  linear := fun t ht => by
    obtain ⟨u, hu, rfl⟩ := List.mem_map.mp ht
    exact h.linear u hu

namespace Circuit

open Expression (Mentioned)

variable {r : String → String} {c c' : Circuit} {e : Expression} {g : Gate}

/-- The second circuit is the first one under other names. -/
structure Renamed (r : String → String) (c c' : Circuit) : Prop where
  accepted : c.Accepted
  accepted' : c'.Accepted
  field : c'.field = c.field
  expressions : c'.expressions = c.expressions.map (·.rename r)
  table : c.table.Renamed r (Mentioned c.expressions) c'.table

/-- Where the index of a witness goes. -/
def reindexed (r : String → String) (c c' : Circuit) : Nat → Nat :=
  reindex r c.table.witnessNames c'.table.witnessNames

/-- The system of its own that a circuit is lowered in, without gates. -/
def ownSystem (c : Circuit) : ConstraintSystem := c.withWitnesses (.empty c.field)

/-- The indices of the witnesses there. -/
def ownIndices (c : Circuit) : List (String × Int) := c.indices (.empty c.field)

namespace Renamed

theorem rename_mem (h : Renamed r c c') (he : e ∈ c.expressions) :
    e.rename r ∈ c'.expressions := by
  rw [h.expressions]
  exact List.mem_map_of_mem he

theorem injOn_wireNames (h : Renamed r c c') (he : e ∈ c.expressions) :
    Set.InjOn r {name | name ∈ e.wireNames} :=
  h.table.injOn.mono fun _ hname =>
    Expression.names_subset_mentioned he (Expression.mem_names_of_mem_wireNames hname)

/-- The public slot is filled alike under the other name. -/
theorem publicSlot (h : Renamed r c c') (he : e ∈ c.expressions) :
    c'.table.publicSlot c'.field (e.rename r).rhs = c.table.publicSlot c.field e.rhs := by
  cases hp : e.rhs with
  | none => simp only [Expression.rename, hp, Option.map_none, VariableTable.publicSlot, h.field]
  | some p =>
    obtain ⟨v, hv, hrole, -⟩ := h.accepted.exists_public he hp
    obtain ⟨w, hw, hw'⟩ := h.table.find?
      (Expression.names_subset_mentioned he (Expression.mem_names_of_rhs hp))
    obtain rfl : w = v := Option.some.inj (hw.symm.trans hv)
    simp only [Expression.rename, hp, Option.map_some, VariableTable.publicSlot, PublicTerm.rename,
      hv, hw', Variable.rename, if_pos hrole, h.field]

/-- A wire of a renamed expression leads to where its index went. -/
theorem wireIndex (h : Renamed r c c') (he : e ∈ c.expressions) {layout : Layout}
    (hlayout : layout.Describes e) (wire : Wire) :
    c'.ownSystem.wireIndex (Draft.indexOn (layout.rename r) c'.ownIndices wire) =
      (c.ownSystem.wireIndex (Draft.indexOn layout c.ownIndices wire)).map (reindexed r c c') := by
  unfold Draft.indexOn
  rw [Layout.rename, Layout.lookup_rename]
  cases hbound : layout.bindings.lookup wire with
  | none => rfl
  | some name =>
    have hname := hlayout.bound _ (VariableTable.mem_of_lookup hbound)
    obtain ⟨i, v, -, hi, hx⟩ := h.accepted.exists_index he hname (.empty c.field)
    have hi' : c'.ownIndices.lookup (r name) = some (reindexed r c c' i : Int) :=
      h.table.lookup_reindex hi
    have hlt : i < c.ownSystem.witnesses.length := (List.getElem?_eq_some_iff.mp hx).1
    have hlt' : reindexed r c c' i < c'.ownSystem.witnesses.length := by
      have hbounds := lookup_numbered_bounds hi'
      simp only [ownSystem, withWitnesses, List.length_append, List.length_map]
      omega
    have hown : c.ownIndices.lookup name = some (i : Int) := hi
    simp only [Option.map_some, hown, hi', ConstraintSystem.wireIndex, Int.natCast_nonneg,
      Int.ofNat_lt, true_and, if_pos hlt, if_pos hlt', ok_map, Int.toNat_natCast]

/-- **The gate of a renamed expression is the gate of the expression with its wires permuted.** -/
theorem gateOf (h : Renamed r c c') (he : e ∈ c.expressions) (hint : e.IsIntegral) :
    c'.gateOf c'.ownSystem c'.ownIndices (e.rename r) =
      (c.gateOf c.ownSystem c.ownIndices e).map (Gate.rewire (reindexed r c c')) := by
  obtain ⟨layout, hok⟩ := Layout.exists_layout (h.accepted.fits e he)
  have hlayout := Layout.describes_of_ok hok
  have hok' := Layout.ofExpression_rename (h.injOn_wireNames he) hok
  rw [Circuit.gateOf, Circuit.gateOf, hok, hok', ok_bind, ok_bind, ownIndices, ownIndices,
    h.accepted.ofLayout_eq he hint hlayout,
    h.accepted'.ofLayout_eq (h.rename_mem he) (hint.rename r) (Layout.describes_of_ok hok'),
    h.publicSlot he]
  cases c.table.publicSlot c.field e.rhs with
  | error fault => rfl
  | ok x =>
    refine ConstraintSystem.gateOf_rewire rfl rfl ?_ (h.wireIndex he hlayout .a)
      (h.wireIndex he hlayout .b) (h.wireIndex he hlayout .o)
    rw [h.field]
    rfl

theorem exists_value (h : Renamed r c c') {i : Nat} (hi : i < c.ownSystem.witnesses.length) :
    ∃ x, c.ownSystem.witnesses[i]? = some x ∧
      c'.ownSystem.witnesses[reindexed r c c' i]? = some x := by
  have hle : i ≤ c.table.witnesses.length := by
    simp only [ownSystem, withWitnesses, ConstraintSystem.empty, List.length_append,
      List.length_map, List.length_singleton] at hi
    omega
  refine ⟨_, List.getElem?_eq_getElem hi, ?_⟩
  rw [← List.getElem?_eq_getElem hi, ownSystem, ownSystem, withWitnesses, withWitnesses, h.field]
  exact h.table.getElem?_reindex (.number c.field.zero) hle

end Renamed

/-! ## Lowered circuits -/

/-- The gates of the second circuit are those of the first one with other indices on their wires,
and they have the same values. -/
structure Rewired (f : Nat → Nat) (l l' : LoweredCircuit) : Prop where
  gates : l'.gates = l.gates.map (Gate.rewire f)
  evaluate : ∀ g ∈ l.gates, l'.system.evaluate (g.rewire f) = l.system.evaluate g

namespace Renamed

variable {l l' : LoweredCircuit}

/-- What a renamed circuit is lowered to. -/
theorem lower_eq (h : Renamed r c c') (hint : ∀ e ∈ c.expressions, e.IsIntegral)
    (hl : c.lower = .ok l) :
    c'.lower = .ok ⟨{ c'.ownSystem with gates := l.gates.map (Gate.rewire (reindexed r c c')) },
      c'.publicInputs, c'.paddedGates⟩ := by
  obtain ⟨gates, hgates, rfl⟩ := (lower_eq_ok_iff h.accepted.inField).mp hl
  refine (lower_eq_ok_iff h.accepted'.inField).mpr ⟨_, ?_, rfl⟩
  rw [h.expressions, List.forall₂_map_left_iff]
  refine List.forall₂_map_right_iff.mpr ((forall₂_mem hgates).imp ?_)
  rintro e g ⟨he, hg⟩
  exact (h.gateOf he (hint e he)).trans (map_eq_ok.mpr ⟨g, hg, rfl⟩)

/-- **A circuit is lowered exactly if the renamed one is.** -/
theorem exists_lower_iff (h : Renamed r c c') (hint : ∀ e ∈ c.expressions, e.IsIntegral) :
    (∃ l', c'.lower = .ok l') ↔ ∃ l, c.lower = .ok l := by
  refine ⟨?_, fun ⟨l, hl⟩ => ⟨_, h.lower_eq hint hl⟩⟩
  rintro ⟨l', hl'⟩
  obtain ⟨gates', hgates', -⟩ := (lower_eq_ok_iff h.accepted'.inField).mp hl'
  rw [h.expressions, List.forall₂_map_left_iff] at hgates'
  have hgates : ∀ e ∈ c.expressions, ∃ g, c.gateOf c.ownSystem c.ownIndices e = .ok g := by
    intro e he
    obtain ⟨g', -, hg'⟩ := exists_of_forall₂ hgates'.flip he
    obtain ⟨g, hg, -⟩ := map_eq_ok.mp ((h.gateOf he (hint e he)).symm.trans hg')
    exact ⟨g, hg⟩
  obtain ⟨gates, hgates⟩ := exists_forall₂ hgates
  exact ⟨_, (lower_eq_ok_iff h.accepted.inField).mpr ⟨gates, hgates, rfl⟩⟩

/-- **The gates of a renamed circuit are rewired, and they have the same values.** -/
theorem rewired (h : Renamed r c c') (hint : ∀ e ∈ c.expressions, e.IsIntegral)
    (hl : c.lower = .ok l) (hl' : c'.lower = .ok l') : Rewired (reindexed r c c') l l' := by
  cases hl'.symm.trans (h.lower_eq hint hl)
  refine ⟨rfl, fun g hg => ?_⟩
  obtain ⟨gates, hgates, rfl⟩ := (lower_eq_ok_iff h.accepted.inField).mp hl
  obtain ⟨e, -, hgate⟩ := exists_of_forall₂ hgates hg
  have hwires := wires_gateOf hgate
  obtain ⟨a, ha, ha'⟩ := h.exists_value (hwires g.a (by simp [Gate.wires]))
  obtain ⟨b, hb, hb'⟩ := h.exists_value (hwires g.b (by simp [Gate.wires]))
  obtain ⟨o, ho, ho'⟩ := h.exists_value (hwires g.o (by simp [Gate.wires]))
  exact ConstraintSystem.evaluate_congr rfl ha hb ho ha' hb' ho'

theorem reindexed_of_strictMonoOn (h : Renamed r c c')
    (hmono : StrictMonoOn r (Mentioned c.expressions)) (i : Nat) : reindexed r c c' i = i := by
  have hnames : c'.table.witnessNames = c.table.witnessNames.map r := by
    rw [VariableTable.witnessNames, h.table.witnesses_eq hmono, VariableTable.witnessNames,
      List.map_map, List.map_map]
    rfl
  rw [reindexed, hnames, reindex_map]
  rw [← hnames]
  exact h.table.sorted'.nodup_witnessNames

/-- **If the order of names is kept, lowering gives the same.** -/
theorem lower_eq_of_strictMonoOn (h : Renamed r c c') (hint : ∀ e ∈ c.expressions, e.IsIntegral)
    (hmono : StrictMonoOn r (Mentioned c.expressions)) (hl : c.lower = .ok l)
    (hl' : c'.lower = .ok l') : l' = l := by
  cases hl'.symm.trans (h.lower_eq hint hl)
  obtain ⟨gates, hgates, rfl⟩ := (lower_eq_ok_iff h.accepted.inField).mp hl
  have hrewire : Gate.rewire (reindexed r c c') = id := by
    funext g
    rw [Gate.rewire]
    simp only [h.reindexed_of_strictMonoOn hmono]
    rfl
  have hwitnesses : c'.table.witnesses.map (·.2) = c.table.witnesses.map (·.2) := by
    rw [h.table.witnesses_eq hmono, List.map_map]
    rfl
  have hpublic : c'.publicInputs = c.publicInputs := by
    rw [Circuit.publicInputs, h.table.publicInputs_eq hmono, List.map_map]
    rfl
  have hsize : c'.paddedGates = c.paddedGates := by
    rw [Circuit.paddedGates, Circuit.paddedGates, size, size, h.expressions, List.length_map]
  simp only [hrewire, List.map_id, hpublic, hsize, ownSystem, withWitnesses, hwitnesses, h.field]
  rfl

/-! ## Runs -/

theorem afterCalls {calls calls' : List (List (Value × Value))} (h : Renamed r c c')
    (hcalls : VariableTable.RenamedCalls r (Mentioned c.expressions) calls calls') :
    Renamed r (c.afterCalls calls) (c'.afterCalls calls') where
  accepted := h.accepted.afterCalls calls
  accepted' := h.accepted'.afterCalls calls'
  field := by rw [field_afterCalls, field_afterCalls, h.field]
  expressions := by rw [expressions_afterCalls, expressions_afterCalls, h.expressions]
  table := by
    rw [table_afterCalls, table_afterCalls, expressions_afterCalls]
    exact h.table.afterCalls hcalls

end Renamed

/-- **The names alone decide where indices go.** -/
theorem reindexed_afterCalls (r : String → String) (c c' : Circuit)
    (calls calls' : List (List (Value × Value))) :
    reindexed r (c.afterCalls calls) (c'.afterCalls calls') = reindexed r c c' := by
  rw [reindexed, reindexed, table_afterCalls, table_afterCalls,
    (VariableTable.sameVariables_afterCalls c.table calls).witnessNames,
    (VariableTable.sameVariables_afterCalls c'.table calls').witnessNames]

theorem renamed_ofExpressions {F : PrimeField} {es : List Expression}
    (hr : Set.InjOn r (Mentioned es)) (hc : ofExpressions F es = .ok c)
    (hc' : ofExpressions F (es.map (·.rename r)) = .ok c') : Renamed r c c' := by
  have haccepted := accepted_ofExpressions hc
  have haccepted' := accepted_ofExpressions hc'
  obtain ⟨-, rfl⟩ := ofExpressions_ok hc
  obtain ⟨-, rfl⟩ := ofExpressions_ok hc'
  exact ⟨haccepted, haccepted', rfl, rfl,
    VariableTable.renamed_derive F hr haccepted.rolesAgree haccepted'.rolesAgree⟩

/-- A permutation of the indices of a circuit that takes the index of every name to that of its
other name and leaves the witness that holds zero where it is. -/
structure Reindexes (r : String → String) (c c' : Circuit) (f : Nat → Nat) : Prop where
  zero : f 0 = 0
  index : ∀ (name : String) (i : Nat), c.ownIndices.lookup name = some (i : Int) →
    c'.ownIndices.lookup (r name) = some (f i : Int)
  bijOn : Set.BijOn f (Set.Iic c.table.witnesses.length) (Set.Iic c.table.witnesses.length)

theorem Renamed.reindexes (h : Renamed r c c') : Reindexes r c c' (reindexed r c c') where
  zero := rfl
  index := fun _ _ hi => h.table.lookup_reindex hi
  bijOn := h.table.bijOn_reindex

/-- **Renaming variables permutes indices and changes nothing else.** A renamed program is accepted
exactly if the program is, and if not, the same rule is reported at the same equation. There is one
permutation of the indices such that after all calls that supply the same values under the other
names one circuit is lowered exactly if the other is (which they are, unless a text was supplied for
a residue), and the gates are the same but for their indices, which are permuted, and have the same
values. If the order of names is kept, all that lowering gives is the same. -/
theorem lower_renamed {es : List Expression} (F : PrimeField) (hr : Set.InjOn r (Mentioned es))
    (hint : ∀ e ∈ es, e.IsIntegral) :
    (Expression.validate (es.map (·.rename r)) = .ok () ↔ Expression.validate es = .ok ()) ∧
      (∀ fault, Expression.validate es = .error fault → ∃ v v', fault = .violation v ∧
        Expression.validate (es.map (·.rename r)) = .error (.violation v') ∧ v.Alike v') ∧
      ∀ c c', ofExpressions F es = .ok c → ofExpressions F (es.map (·.rename r)) = .ok c' →
        ∃ f, ∀ calls calls', VariableTable.RenamedCalls r (Mentioned es) calls calls' →
          Reindexes r (c.afterCalls calls) (c'.afterCalls calls') f ∧
          (TextFree calls → ∃ l, (c.afterCalls calls).lower = .ok l) ∧
          ((∃ l', (c'.afterCalls calls').lower = .ok l') ↔
            ∃ l, (c.afterCalls calls).lower = .ok l) ∧
          ∀ l l', (c.afterCalls calls).lower = .ok l → (c'.afterCalls calls').lower = .ok l' →
            Rewired f l l' ∧ (StrictMonoOn r (Mentioned es) → l' = l) := by
  obtain ⟨hvalid, hreported⟩ := Expression.validate_rename hr
  refine ⟨hvalid, hreported, fun c c' hc hc' => ⟨reindexed r c c', fun calls calls' hcalls => ?_⟩⟩
  have hreturns : TextFree calls → ∃ l, (c.afterCalls calls).lower = .ok l :=
    exists_lower_afterCalls hc hint
  obtain rfl := expressions_ofExpressions hc
  have hrenamed := (renamed_ofExpressions hr hc hc').afterCalls hcalls
  have hint' : ∀ e ∈ (c.afterCalls calls).expressions, e.IsIntegral := by
    rwa [expressions_afterCalls]
  rw [← reindexed_afterCalls r c c' calls calls']
  refine ⟨hrenamed.reindexes, hreturns, hrenamed.exists_lower_iff hint', fun l l' hl hl' => ?_⟩
  refine ⟨hrenamed.rewired hint' hl hl', fun hmono => ?_⟩
  refine hrenamed.lower_eq_of_strictMonoOn hint' ?_ hl hl'
  rwa [expressions_afterCalls]

/-- With `a` and `z` exchanged, the variable that was first among the witnesses becomes the last.
The call that failed at the unknown `z` now fails at the unknown `a`. -/
theorem lower_renamed_exampleProgram :
    ∃ c c' f l l', ofExpressions exampleField exampleProgram = .ok c ∧
      ofExpressions exampleField (exampleProgram.map (·.rename (Equiv.swap "a" "z"))) = .ok c' ∧
      f 1 = 3 ∧ (c.afterCalls exampleCalls).lower = .ok l ∧
      (c'.afterCalls (exampleCalls.map (List.map
        (Prod.map (Value.renameKey (Equiv.swap "a" "z")) id)))).lower = .ok l' ∧
      Rewired f l l' := by
  have hinjective := (Equiv.swap "a" "z").injective
  have hint : ∀ e ∈ exampleProgram, e.IsIntegral := by decide
  obtain ⟨hvalid, -, hlower⟩ := lower_renamed exampleField hinjective.injOn hint
  have hc : ofExpressions exampleField exampleProgram = .ok _ := ofExpressions_eq_ok _ rfl
  have hc' := ofExpressions_eq_ok exampleField (hvalid.mpr rfl)
  obtain ⟨f, hf⟩ := hlower _ _ hc hc'
  obtain ⟨hreindexes, hreturns, hiff, hrewired⟩ := hf _ _
    (VariableTable.renamedCalls_of_injective hinjective _ exampleCalls)
  obtain ⟨l, hl⟩ := hreturns (by decide)
  obtain ⟨l', hl'⟩ := hiff.mpr ⟨l, hl⟩
  have hone : f 1 = 3 := by
    have hindex := hreindexes.index "a" 1 (by rfl)
    have hplace : (some 3 : Option Int) = some (f 1 : Int) := hindex
    exact_mod_cast (Option.some.inj hplace).symm
  exact ⟨_, _, f, l, l', hc, hc', hone, hl, hl', (hrewired l l' hl hl').1⟩

end Circuit

end PlonkGates
