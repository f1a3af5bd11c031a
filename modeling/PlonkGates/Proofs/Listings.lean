import PlonkGates.Circuit.Listing
import PlonkGates.Proofs.Encoding

/-!
# Listings tell the gates

Three things in a listing are found in different ways. The names on the wires of a gate come from
laying its expression out once more, the indices beside them from the recorded gate, and the list of
witnesses from the table of variables. They agree: the index on a wire leads to its name in the
list, and to nothing if the wire is free (`Accepted.names_gateOf`).

The numbers of a gate are listed as the representatives closest to zero. Nothing is lost by this,
since reducing them gives the selectors back (`exists_ofRow`). An equation with a number that is too
long to be written cannot be listed, and nothing else stands in the way of a listing.
-/

namespace PlonkGates

/-! ## Names in the table -/

namespace Circuit

namespace Accepted

variable {c : Circuit}

theorem pairwise_roles (h : c.Accepted) : c.table.roles.Pairwise (·.1 < ·.1) := by
  rw [h.roles, VariableTable.roles, List.pairwise_map]
  exact VariableTable.sorted_derive c.field c.expressions

/-- The table has the names of the program, each with the role in which it is mentioned. -/
theorem mem_roles (h : c.Accepted) {name : String} {role : Role} :
    (name, role) ∈ c.table.roles ↔
      (name, role) ∈ c.expressions.flatMap VariableTable.mentions := by
  rw [h.roles, VariableTable.roles, List.mem_map]
  constructor
  · rintro ⟨v, hv, hpair⟩
    cases hpair
    exact ((VariableTable.mem_derive h.rolesAgree).mp hv).1
  · intro hmention
    exact ⟨⟨name, role, .number c.field.zero⟩,
      (VariableTable.mem_derive h.rolesAgree).mpr ⟨hmention, rfl⟩, rfl⟩

/-- The names with one role, in increasing order. -/
theorem names_of_role (h : c.Accepted) {keep : String × Role → Bool} {role : Role}
    (hkeep : ∀ x, keep x = true ↔ x.2 = role) :
    ((c.table.roles.filter keep).map (·.1)).Pairwise (· < ·) ∧
      ∀ name, name ∈ (c.table.roles.filter keep).map (·.1) ↔
        ∃ e ∈ c.expressions, (name, role) ∈ VariableTable.mentions e := by
  refine ⟨List.pairwise_map.mpr (h.pairwise_roles.filter _), fun name => ?_⟩
  rw [← List.mem_flatMap, ← h.mem_roles, List.mem_map]
  constructor
  · rintro ⟨x, hx, rfl⟩
    obtain ⟨hmem, hrole⟩ := List.mem_filter.mp hx
    rw [← (hkeep x).mp hrole]
    exact hmem
  · intro hmem
    exact ⟨(name, role), List.mem_filter.mpr ⟨hmem, (hkeep _).mpr rfl⟩, rfl⟩

/-- **The witnesses are the names on wires, in increasing order.** -/
theorem names_witnesses (h : c.Accepted) :
    (c.table.witnesses.map (·.1)).Pairwise (· < ·) ∧
      ∀ name, name ∈ c.table.witnesses.map (·.1) ↔ ∃ e ∈ c.expressions, name ∈ e.wireNames := by
  have hkeep : ∀ x : String × Role, (!x.2 == .publicInput) = true ↔ x.2 = .witness := by
    rintro ⟨name, role⟩
    cases role <;> simp
  rw [VariableTable.names_witnesses]
  obtain ⟨hsorted, hmem⟩ := h.names_of_role hkeep
  exact ⟨hsorted, fun name => (hmem name).trans (by simp [VariableTable.mem_mentions])⟩

/-- **The public inputs are the names on right sides, in increasing order.** -/
theorem names_publicInputs (h : c.Accepted) :
    c.publicInputNames.Pairwise (· < ·) ∧
      ∀ name, name ∈ c.publicInputNames ↔
        ∃ e ∈ c.expressions, ∃ p, e.rhs = some p ∧ p.name = name := by
  have hkeep : ∀ x : String × Role, (x.2 == .publicInput) = true ↔ x.2 = .publicInput := by
    simp
  rw [publicInputNames, VariableTable.names_publicInputs]
  obtain ⟨hsorted, hmem⟩ := h.names_of_role hkeep
  exact ⟨hsorted, fun name => (hmem name).trans (by simp [VariableTable.mem_mentions])⟩

/-- No name is on a wire and on a right side. -/
theorem names_disjoint (h : c.Accepted) :
    (c.table.witnesses.map (·.1)).Disjoint c.publicInputNames := by
  intro name hwitness hpublic
  obtain ⟨e, he, hwire⟩ := (h.names_witnesses.2 name).mp hwitness
  obtain ⟨d, hd, p, hp, rfl⟩ := (h.names_publicInputs.2 name).mp hpublic
  exact h.rolesAgree d hd p hp e he hwire

/-- Witnesses and public inputs together are the names of the program. -/
theorem mem_names_iff (h : c.Accepted) (name : String) :
    name ∈ c.table.witnesses.map (·.1) ∨ name ∈ c.publicInputNames ↔
      ∃ e ∈ c.expressions, name ∈ e.names := by
  rw [h.names_witnesses.2, h.names_publicInputs.2]
  constructor
  · rintro (⟨e, he, hname⟩ | ⟨e, he, p, hp, rfl⟩)
    · exact ⟨e, he, List.mem_append_right _ hname⟩
    · exact ⟨e, he, List.mem_append_left _ (by simp [hp])⟩
  · rintro ⟨e, he, hname⟩
    rcases List.mem_append.mp hname with hname | hname
    · cases hp : e.rhs with
      | none => simp [hp] at hname
      | some p =>
        simp only [hp, Option.map_some, Option.toList_some, List.mem_singleton] at hname
        exact Or.inr ⟨e, he, p, hp, hname.symm⟩
    · exact Or.inl ⟨e, he, hname⟩

end Accepted

end Circuit

/-! ## Wires -/

/-- What is listed for a wire: a free one has the index zero, and the index on another leads to its
name in the list of witnesses. -/
def Listing.Names (witnesses : List String) (name : Option String) (index : Nat) : Prop :=
  (name = none ↔ index = 0) ∧
    ∀ bound, name = some bound → index ≤ witnesses.length ∧ witnesses[index - 1]? = some bound

namespace Circuit

variable {c : Circuit} {e : Expression} {layout : Layout} {g : Gate}

/-- The indices on the wires of a gate are those of the variables that the layout puts there. -/
theorem Accepted.wireIndex_gateOf (h : c.Accepted) (he : e ∈ c.expressions) (hint : e.IsIntegral)
    (hlayout : Layout.ofExpression e = .ok layout) {s : ConstraintSystem}
    (hg : c.gateOf (c.withWitnesses s) (c.indices s) e = .ok g) :
    List.Forall₂ (fun wire i =>
        (c.withWitnesses s).wireIndex (Draft.indexOn layout (c.indices s) wire) = .ok i)
      Wire.all g.wires := by
  rw [gateOf, hlayout, ok_bind, h.ofLayout_eq he hint (Layout.describes_of_ok hlayout)] at hg
  obtain ⟨d, hd, hg⟩ := bind_eq_ok.mp hg
  obtain ⟨x, -, rfl⟩ := map_eq_ok.mp hd
  obtain ⟨-, -, ha, hb, ho⟩ := ConstraintSystem.gateOf_inv hg
  exact .cons ha (.cons hb (.cons ho .nil))

/-- The index on a wire leads to the name there. The witnesses of the system start with the one that
holds zero, so the index is one more than the place in the list. -/
theorem Accepted.names_of_wireIndex (h : c.Accepted) (he : e ∈ c.expressions)
    (hlayout : layout.Describes e) {wire : Wire} {i : Nat}
    (hi : (c.withWitnesses (.empty c.field)).wireIndex
      (Draft.indexOn layout (c.indices (.empty c.field)) wire) = .ok i) :
    Listing.Names (c.table.witnesses.map (·.1)) (layout.bindings.lookup wire) i := by
  rw [Draft.indexOn] at hi
  cases hbound : layout.bindings.lookup wire with
  | none =>
    rw [hbound] at hi
    cases hi
    exact ⟨by simp, by simp⟩
  | some name =>
    rw [hbound] at hi
    have hname := hlayout.bound _ (VariableTable.mem_of_lookup hbound)
    obtain ⟨k, v, -, hk, -⟩ := h.exists_index he hname (.empty c.field)
    simp only [hk, ConstraintSystem.wireIndex] at hi
    split_ifs at hi
    have hki : k = i := by simpa using hi
    have hnodup : (c.table.witnesses.map (·.1)).Nodup := h.names_witnesses.1.imp ne_of_lt
    obtain ⟨j, x, hkj, hj⟩ := (lookup_numbered_iff hnodup).mp hk
    obtain rfl : i = j + 1 := by
      simp only [ConstraintSystem.empty, List.length_singleton] at hkj
      omega
    have hlt := (List.getElem?_eq_some_iff.mp hj).1
    refine ⟨by simp, fun bound hbound => ?_⟩
    cases hbound
    rw [List.length_map, Nat.add_sub_cancel, List.getElem?_map, hj]
    exact ⟨hlt, rfl⟩

/-- **Names and indices on the wires of a gate agree.** -/
theorem Accepted.names_gateOf (h : c.Accepted) (he : e ∈ c.expressions) (hint : e.IsIntegral)
    (hlayout : Layout.ofExpression e = .ok layout)
    (hg : c.gateOf (c.withWitnesses (.empty c.field)) (c.indices (.empty c.field)) e = .ok g) :
    List.Forall₂ (fun wire i =>
        Listing.Names (c.table.witnesses.map (·.1)) (layout.bindings.lookup wire) i)
      Wire.all g.wires :=
  (h.wireIndex_gateOf he hint hlayout hg).imp fun _ _ hi =>
    h.names_of_wireIndex he (Layout.describes_of_ok hlayout) hi

end Circuit

/-! ## Entries -/

/-- What an entry tells of an expression and its gate, with the list of witnesses beside it. -/
structure ListingEntry.Shows (F : PrimeField) (witnesses : List String) (e : Expression) (g : Gate)
    (entry : ListingEntry) : Prop where
  equation : e.toText = .ok entry.equation
  line : entry.line = e.line
  selectorNames : entry.selectors.map (·.1) = Selectors.names
  /-- The numbers are representatives closest to zero, and they are those of the gate. -/
  selectors : List.Forall₂ (fun x z => -(F.order : Int) < 2 * z ∧ 2 * z ≤ F.order ∧
    x = .number (F.reduce z)) g.selectors.toList (entry.selectors.map (·.2))
  wireNames : entry.wires.map (·.1) = Wire.all
  indices : entry.witnessIndices = g.wires
  wires : List.Forall₂ (Listing.Names witnesses) (entry.wires.map (·.2)) entry.witnessIndices

theorem mapM_integer (rs : List Residue) :
    (rs.map Element.number).mapM (·.integer) = .ok (rs.map fun r => (r.value : Int)) := by
  rw [mapM_eq_ok, List.forall₂_map_left_iff, List.forall₂_map_right_iff, List.forall₂_same]
  exact fun r _ => rfl

/-- **A gate of residues on wires with names is listed if its equation is written, and nothing is
lost.** The row of a gate is found at its position. -/
theorem ListingEntry.exists_ofRow {F : PrimeField} {witnesses : List String} {e : Expression}
    {gates : List Gate} {row : Nat} {g : Gate} {layout : Layout} (hg : gates[row]? = some g)
    (hlayout : Layout.ofExpression e = .ok layout)
    (hresidues : ∀ x ∈ g.selectors.toList, x.IsResidueOf F)
    (hwires : List.Forall₂ (fun wire i =>
      Listing.Names witnesses (layout.bindings.lookup wire) i) Wire.all g.wires) :
    ∃ entry : String → ListingEntry,
      ofRow F (gates.map (·.selectors.toList)) (gates.map (·.wires)) row e = e.toText.map entry ∧
      ∀ text, e.toText = .ok text → (entry text).Shows F witnesses e g := by
  obtain ⟨rs, hrs, hfield⟩ := exists_residues hresidues
  have hlength : Selectors.names.length = rs.length := by
    rw [← List.length_map Element.number, ← hrs]
    rfl
  have hsigned : (rs.map fun r => (r.value : Int)).map (fun z => (F.reduce z).signed) =
      rs.map (·.signed) := by
    rw [List.map_map]
    refine List.map_congr_left fun r hr => ?_
    rw [Function.comp_apply, ← hfield r hr, PrimeField.reduce_value_residue]
  refine ⟨fun text => ⟨text, e.line, Selectors.names.zip (rs.map (·.signed)),
    Wire.all.map fun wire => (wire, layout.bindings.lookup wire), g.wires⟩, ?_,
    fun text htext => ⟨htext, rfl, ?_, ?_, rfl, rfl, ?_⟩⟩
  · have hselectors : rowAt (gates.map (·.selectors.toList)) row = .ok g.selectors.toList := by
      rw [rowAt, List.getElem?_map, hg, Option.map_some]
    have hindices : rowAt (gates.map (·.wires)) row = .ok g.wires := by
      rw [rowAt, List.getElem?_map, hg, Option.map_some]
    rw [ofRow, hlayout, ok_bind, hselectors, hindices, hrs]
    cases e.toText with
    | error fault => rfl
    | ok text => rw [ok_bind, ok_bind, mapM_integer, ok_bind, ok_bind, hsigned, ok_map]
  · exact List.map_fst_zip (by simp [hlength])
  · rw [List.map_snd_zip (by simp [hlength]), hrs, List.forall₂_map_left_iff,
      List.forall₂_map_right_iff, List.forall₂_same]
    intro r hr
    obtain ⟨hlow, hhigh⟩ := r.signed_window
    rw [← hfield r hr]
    refine ⟨hlow, hhigh, congrArg Element.number ?_⟩
    rw [PrimeField.reduce_congr r.signed_modEq, PrimeField.reduce_value_residue]
  · rw [List.map_map, List.forall₂_map_left_iff]
    exact hwires

/-! ## Listings -/

namespace Listing

/-- What a listing tells of expressions and their gates. -/
structure Shows (F : PrimeField) (es : List Expression) (gates : List Gate) (listing : Listing) :
    Prop where
  length_gates : gates.length = es.length
  gateCount : listing.gateCount = es.length
  paddedGates : listing.paddedGates = paddedGateCount es.length
  /-- One entry for each expression and its gate, in order. -/
  entries : List.Forall₂ (fun x entry => entry.Shows F listing.witnesses x.1 x.2)
    (es.zip gates) listing.gates
  witnesses_sorted : listing.witnesses.Pairwise (· < ·)
  publicInputs_sorted : listing.publicInputs.Pairwise (· < ·)
  disjoint : listing.witnesses.Disjoint listing.publicInputs
  mem_names : ∀ name, name ∈ listing.witnesses ∨ name ∈ listing.publicInputs ↔
    ∃ e ∈ es, name ∈ e.names

/-- What is found at the positions of a list goes with what another list has there. -/
theorem forall₂_zip_of_zipIdx {α β γ : Type} {R : α × Nat → γ → Prop} {xs : List α} {ys : List β}
    {zs : List γ} (hlength : xs.length = ys.length) (h : List.Forall₂ R xs.zipIdx zs) :
    List.Forall₂ (fun x z => ∃ i, xs[i]? = some x.1 ∧ ys[i]? = some x.2 ∧ R (x.1, i) z)
      (xs.zip ys) zs := by
  obtain ⟨hzs, hR⟩ := List.forall₂_iff_get.mp h
  rw [List.length_zipIdx] at hzs
  refine List.forall₂_iff_get.mpr ⟨by rw [List.length_zip, ← hlength, Nat.min_self, hzs], ?_⟩
  intro i hi hiz
  have hix : i < xs.length := hzs ▸ hiz
  have hiy : i < ys.length := hlength ▸ hix
  refine ⟨i, ?_, ?_, ?_⟩
  · simp [List.getElem?_eq_getElem hix]
  · simp [List.getElem?_eq_getElem hiy]
  · simpa using hR i (by simpa using hix) hiz

section Tables

variable (l : LoweredCircuit)

/-- Without padding the tables have the rows of the gates. -/
theorem selectorTable_gates : l.selectorTable false = .ok (l.gates.map (·.selectors.toList)) := by
  show Except.ok (ConstraintSystem.padRows _ _ _) = _
  rw [ConstraintSystem.padRows, List.length_map, Nat.sub_self, List.replicate_zero, List.append_nil]
  rfl

theorem wireTable_gates : l.wireTable false = .ok (l.gates.map (·.wires)) := by
  show Except.ok (ConstraintSystem.padRows _ _ _) = _
  rw [ConstraintSystem.padRows, List.length_map, Nat.sub_self, List.replicate_zero, List.append_nil]
  rfl

end Tables

/-- Every gate of an accepted circuit has its entry, if the equation is written. -/
theorem exists_entry {c : Circuit} (h : c.Accepted) (hint : ∀ e ∈ c.expressions, e.IsIntegral)
    {gates : List Gate} (hgates : List.Forall₂ (fun e g =>
      c.gateOf (c.withWitnesses (.empty c.field)) (c.indices (.empty c.field)) e = .ok g)
      c.expressions gates)
    (hresidues : ∀ x ∈ gates.flatMap (·.selectors.toList), x.IsResidueOf c.field) {row : Nat}
    {e : Expression} {g : Gate} (he : c.expressions[row]? = some e) (hg : gates[row]? = some g) :
    ∃ entry : String → ListingEntry,
      ListingEntry.ofRow c.field (gates.map (·.selectors.toList)) (gates.map (·.wires)) row e =
        e.toText.map entry ∧
      ∀ text, e.toText = .ok text →
        (entry text).Shows c.field (c.table.witnesses.map (·.1)) e g := by
  have hmem := List.mem_of_getElem? he
  have hgate : c.gateOf (c.withWitnesses (.empty c.field)) (c.indices (.empty c.field)) e =
      .ok g := by
    have hzip : (e, g) ∈ c.expressions.zip gates := by
      refine List.mem_iff_getElem?.mpr ⟨row, ?_⟩
      rw [List.getElem?_zip_eq_some]
      exact ⟨he, hg⟩
    exact (List.forall₂_iff_zip.mp hgates).2 hzip
  obtain ⟨layout, hlayout⟩ := Layout.exists_layout (h.fits e hmem)
  refine ListingEntry.exists_ofRow hg hlayout (fun y hy => ?_)
    (h.names_gateOf hmem (hint e hmem) hlayout hgate)
  exact hresidues y (List.mem_flatMap.mpr ⟨g, List.mem_of_getElem? hg, hy⟩)

/-- What is said of all members of a list is said of all of them with their positions. -/
theorem forall_mem_zipIdx {α : Type} {P : α → Prop} {xs : List α} :
    (∀ x ∈ xs.zipIdx, P x.1) ↔ ∀ x ∈ xs, P x := by
  have hmap := List.forall_mem_map (f := Prod.fst) (P := P) (l := xs.zipIdx)
  rw [List.zipIdx_map_fst] at hmap
  exact hmap.symm

/-- **An accepted circuit is listed if its equations are written.** -/
theorem exists_ofLowered {c : Circuit} (h : c.Accepted) (hint : ∀ e ∈ c.expressions, e.IsIntegral)
    (hnumbers : c.table.HoldsNumbers) (source : String) :
    ∃ l, c.lower = .ok l ∧
      Writes (∀ e ∈ c.expressions, ∀ v ∈ e.coefficients, v.isWritable = true)
        (ofLowered c l source) ∧
      ∀ listing, ofLowered c l source = .ok listing →
        listing.Shows c.field c.expressions l.gates := by
  obtain ⟨l, hl⟩ := h.exists_lower hint hnumbers
  have hresidues := h.isResidueOf_lower (fun e he => (hint e he).holdsNoText) hnumbers hl
  obtain ⟨gates, hgates, rfl⟩ := (Circuit.lower_eq_ok_iff h.inField).mp hl
  have hentry := fun row e g => @exists_entry c h hint gates hgates hresidues row e g
  refine ⟨_, hl, ?_, fun listing hlisting => ?_⟩
  · rw [ofLowered, selectorTable_gates, ok_bind, wireTable_gates, ok_bind]
    have hrows : ∀ x ∈ c.expressions.zipIdx,
        Writes (∀ v ∈ x.1.coefficients, v.isWritable = true)
          (ListingEntry.ofRow c.field (gates.map (·.selectors.toList)) (gates.map (·.wires))
            x.2 x.1) := by
      rintro ⟨e, row⟩ hx
      have he := List.mk_mem_zipIdx_iff_getElem?.mp hx
      obtain ⟨g, hg⟩ : ∃ g, gates[row]? = some g := by
        have hlt := (List.getElem?_eq_some_iff.mp he).1
        rw [hgates.length_eq] at hlt
        exact ⟨_, List.getElem?_eq_getElem hlt⟩
      obtain ⟨entry, hofRow, -⟩ := hentry row e g he hg
      rw [hofRow]
      exact e.writes_toText.map entry
    refine ((Writes.mapM hrows).bind fun _ => writes_ok _).congr ?_
    rw [and_true]
    exact forall_mem_zipIdx
      (P := fun e : Expression => ∀ v ∈ e.coefficients, v.isWritable = true)
  · rw [ofLowered, selectorTable_gates, ok_bind, wireTable_gates, ok_bind] at hlisting
    obtain ⟨entries, hentries, hlisting⟩ := bind_eq_ok.mp hlisting
    cases hlisting
    refine ⟨hgates.length_eq.symm, hgates.length_eq.symm, rfl, ?_, h.names_witnesses.1,
      h.names_publicInputs.1, h.names_disjoint, h.mem_names_iff⟩
    refine (forall₂_zip_of_zipIdx hgates.length_eq (mapM_eq_ok.mp hentries)).imp ?_
    rintro ⟨e, g⟩ shown ⟨row, he, hg, hshown⟩
    obtain ⟨entry, hofRow, hshows⟩ := hentry row e g he hg
    obtain ⟨text, htext, rfl⟩ := map_eq_ok.mp (hofRow.symm.trans hshown)
    exact hshows text htext

/-- **A listing tells the gates of its circuit and loses nothing of them.** There is one if every
coefficient has a numeral, and it has one entry for each expression, in order. The numbers of an
entry lie in the window around zero and give the selectors of the gate back. A wire without a name
has the index zero, and the index on every other wire leads to its name in the list of witnesses.
The lists of names are increasing, have nothing in common and are together the names of the program.
A coefficient that is too long to be written is turned down. -/
theorem ofLowered_shows {F : PrimeField} {es : List Expression} {c : Circuit}
    (hc : Circuit.ofExpressions F es = .ok c) (hint : ∀ e ∈ es, e.IsIntegral)
    {calls : List (List (Value × Value))} (hcalls : Circuit.TextFree calls) (source : String) :
    ∃ l, (c.afterCalls calls).lower = .ok l ∧
      ((∀ e ∈ es, ∀ z, .int z ∈ e.coefficients → Text.IsShort z) →
        ∃ listing, ofLowered (c.afterCalls calls) l source = .ok listing ∧
          listing.Shows F es l.gates) ∧
      ∀ e ∈ es, ∀ z, .int z ∈ e.coefficients → ¬Text.IsShort z →
        ofLowered (c.afterCalls calls) l source = .error .tooLongToWrite := by
  have h := (Circuit.accepted_ofExpressions hc).afterCalls calls
  have hnumbers := Circuit.holdsNumbers_afterCalls (Circuit.holdsNumbers_ofExpressions hc) hcalls
  have hes : (c.afterCalls calls).expressions = es := by
    rw [Circuit.expressions_afterCalls, Circuit.expressions_ofExpressions hc]
  have hfield : (c.afterCalls calls).field = F := by
    rw [Circuit.field_afterCalls, (Circuit.ofExpressions_ok hc).2]
  obtain ⟨l, hl, hwrites, hshows⟩ := exists_ofLowered h (hes.symm ▸ hint) hnumbers source
  rw [hes] at hwrites hshows
  rw [hfield] at hshows
  refine ⟨l, hl, fun hshort => ?_, fun e he z hz hlong => hwrites.eq_error fun hall => ?_⟩
  · obtain ⟨listing, hlisting⟩ := hwrites.exists_ok_iff.mpr fun e he v hv => by
      have hv' := Value.eq_int_of_isInt (Expression.isIntegral_iff.mp (hint e he) v hv)
      rw [hv'] at hv ⊢
      exact Value.isWritable_int.mpr (hshort e he _ hv)
    exact ⟨listing, hlisting, hshows listing hlisting⟩
  · exact hlong (Value.isWritable_int.mp (hall e he _ hz))

/-- The listing of `2a*b - 9c + a = -p; b - c = 0` after calls. -/
theorem ofLowered_shows_exampleProgram :
    (∀ e ∈ Circuit.exampleProgram, e.IsIntegral) ∧ Circuit.TextFree Circuit.exampleCalls ∧
    ∃ c l listing,
      Circuit.ofExpressions Circuit.exampleField Circuit.exampleProgram = .ok c ∧
      (c.afterCalls Circuit.exampleCalls).lower = .ok l ∧
      ofLowered (c.afterCalls Circuit.exampleCalls) l "f" = .ok listing ∧
      listing.Shows Circuit.exampleField Circuit.exampleProgram l.gates := by
  have hvalid : Expression.validate Circuit.exampleProgram = .ok () := by rfl
  have hc := Circuit.ofExpressions_eq_ok Circuit.exampleField hvalid
  have hint : ∀ e ∈ Circuit.exampleProgram, e.IsIntegral := by decide
  have hcalls : Circuit.TextFree Circuit.exampleCalls := by decide
  have hwritable : ∀ e ∈ Circuit.exampleProgram, ∀ v ∈ e.coefficients, v.isWritable = true := by
    decide +kernel
  obtain ⟨l, hl, hlisted, -⟩ := ofLowered_shows hc hint hcalls "f"
  obtain ⟨listing, hlisting, hshows⟩ := hlisted fun e he z hz =>
    Value.isWritable_int.mp (hwritable e he _ hz)
  exact ⟨hint, hcalls, _, l, listing, hc, hl, hlisting, hshows⟩

end Listing

end PlonkGates
