import PlonkGates.Proofs.Systems

/-!
# Encoded selectors

The width of an encoded residue is computed from the number of binary digits of the order. It is
large enough for every residue (`order_lt`), so the bytes of a residue tell its value
(`ofLittleEndian_bytes`). All selectors of a lowered circuit are residues of its field
(`isResidueOf_lower`), so its encoding is made of blocks of one width. Their borders are known
without looking at them, and cutting there and decoding gives all selectors back (`decode_bytes`).
-/

namespace PlonkGates

/-! ## One residue -/

theorem ofLittleEndian_littleEndian {width n : Nat} (h : n < 256 ^ width) :
    ofLittleEndian (littleEndian width n) = n := by
  induction width generalizing n with
  | zero =>
    obtain rfl : n = 0 := by simpa using h
    rfl
  | succ width ih =>
    have hrest : n / 256 < 256 ^ width := by
      rw [Nat.div_lt_iff_lt_mul (by decide), ← pow_succ]
      exact h
    have hbyte : (UInt8.ofNat (n % 256)).toNat = n % 256 := by simp
    rw [littleEndian, ofLittleEndian, ih hrest, hbyte]
    omega

namespace PrimeField

theorem byteLength_pos (F : PrimeField) : 0 < F.byteLength := by
  unfold byteLength
  omega

/-- **The width of a field is enough for its order.** -/
theorem order_lt (F : PrimeField) : F.order < 256 ^ F.byteLength := by
  have hbits : bitLength F.order ≤ 8 * F.byteLength := by
    unfold byteLength
    omega
  calc F.order < 2 ^ bitLength F.order := Nat.lt_log2_self
    _ ≤ 2 ^ (8 * F.byteLength) := Nat.pow_le_pow_right (by decide) hbits
    _ = 256 ^ F.byteLength := by rw [pow_mul]; norm_num

end PrimeField

namespace Residue

theorem value_lt (x : Residue) : x.value < 256 ^ x.field.byteLength :=
  x.isLt.trans x.field.order_lt

@[simp] theorem length_bytes (x : Residue) : x.bytes.length = x.field.byteLength :=
  length_littleEndian _ _

@[simp] theorem ofLittleEndian_bytes (x : Residue) : ofLittleEndian x.bytes = x.value :=
  ofLittleEndian_littleEndian x.value_lt

end Residue

/-! ## Blocks of one width -/

/-- The first blocks of a list, cut at every multiple of the width. -/
def blocks (width : Nat) : Nat → List UInt8 → List (List UInt8)
  | 0, _ => []
  | count + 1, bs => bs.take width :: blocks width count (bs.drop width)

theorem blocks_flatten {width : Nat} {bss : List (List UInt8)}
    (h : ∀ bs ∈ bss, bs.length = width) : blocks width bss.length bss.flatten = bss := by
  induction bss with
  | nil => rfl
  | cons bs bss ih =>
    obtain ⟨hfirst, hrest⟩ := List.forall_mem_cons.mp h
    rw [List.length_cons, List.flatten_cons, blocks, ← hfirst, List.take_left, List.drop_left,
      hfirst, ih hrest]

/-- The numbers that are encoded one after the other, each in the width of the field. -/
def PrimeField.decode (F : PrimeField) (bs : List UInt8) : List Nat :=
  (blocks F.byteLength (bs.length / F.byteLength) bs).map ofLittleEndian

section Residues

variable {F : PrimeField} {rs : List Residue} (h : ∀ r ∈ rs, r.field = F)
include h

theorem length_flatMap_bytes : (rs.flatMap (·.bytes)).length = rs.length * F.byteLength := by
  induction rs with
  | nil => simp
  | cons r rs ih =>
    obtain ⟨hfirst, hrest⟩ := List.forall_mem_cons.mp h
    rw [List.flatMap_cons, List.length_append, ih hrest, Residue.length_bytes, hfirst,
      List.length_cons, Nat.succ_mul, Nat.add_comm]

/-- **Encoded residues are read back in their order.** -/
theorem PrimeField.decode_bytes : F.decode (rs.flatMap (·.bytes)) = rs.map (·.value) := by
  have hwidth : ∀ bs ∈ rs.map (·.bytes), bs.length = F.byteLength := by
    intro bs hbs
    obtain ⟨r, hr, rfl⟩ := List.mem_map.mp hbs
    rw [Residue.length_bytes, h r hr]
  have hblocks := blocks_flatten hwidth
  rw [List.length_map, ← List.flatMap_def] at hblocks
  rw [decode, length_flatMap_bytes h, Nat.mul_div_cancel _ F.byteLength_pos, hblocks, List.map_map]
  exact List.map_congr_left fun r _ => r.ofLittleEndian_bytes

end Residues

/-- Residues of one field are told apart by their values. -/
theorem residues_eq_of_values {F : PrimeField} {rs ss : List Residue} (hr : ∀ r ∈ rs, r.field = F)
    (hs : ∀ s ∈ ss, s.field = F) (h : rs.map (·.value) = ss.map (·.value)) : rs = ss := by
  have hread : ∀ ts : List Residue, (∀ t ∈ ts, t.field = F) →
      (ts.map (·.value)).map (fun n : Nat => F.reduce n) = ts := by
    intro ts ht
    rw [List.map_map]
    refine (List.map_congr_left fun t hmem => ?_).trans ts.map_id
    rw [Function.comp_apply, ← ht t hmem]
    exact PrimeField.reduce_value_residue t
  rw [← hread rs hr, h, hread ss hs]

/-! ## Selectors that are residues -/

/-- An element that holds a residue of a field. -/
def Element.IsResidueOf (F : PrimeField) (x : Element) : Prop := ∃ r, x = .number r ∧ r.field = F

theorem Element.IsNumber.isResidueOf {x : Element} (h : x.IsNumber) : x.IsResidueOf x.field := by
  cases x with
  | number r => exact ⟨r, rfl, rfl⟩
  | text F content => exact h.elim

theorem Value.holdsText_element {x : Element} (h : x.IsNumber) :
    Value.holdsText (.element x) = false := by
  cases x with
  | number r => rfl
  | text F content => exact h.elim

theorem PrimeField.isResidueOf_signedElement {F : PrimeField} {v : Value} {negative : Bool}
    {x : Element} (h : F.signedElement v negative = .ok x) (hv : v.holdsText = false) :
    x.IsResidueOf F := by
  obtain ⟨y, hy, hx⟩ := bind_eq_ok.mp h
  obtain ⟨hfield, hnumber⟩ := PrimeField.element_ok hy
  obtain ⟨r, rfl, hr⟩ := (hnumber hv).isResidueOf
  cases negative with
  | true =>
    cases hx
    exact ⟨r.neg, rfl, hr.trans hfield⟩
  | false =>
    cases hx
    exact ⟨r, rfl, hr.trans hfield⟩

/-- No coefficient is an element that holds a text. -/
structure Expression.HoldsNoText (e : Expression) : Prop where
  quadratic : ∀ t, e.quadratic = some t → t.coefficient.holdsText = false
  linear : ∀ t ∈ e.linear, t.coefficient.holdsText = false

theorem Value.holdsText_of_isInt {v : Value} (h : v.isInt = true) : v.holdsText = false := by
  rw [v.eq_int_of_isInt h]
  rfl

theorem Expression.IsIntegral.holdsNoText {e : Expression} (h : e.IsIntegral) : e.HoldsNoText :=
  ⟨fun t ht => Value.holdsText_of_isInt (h.quadratic t ht),
    fun t ht => Value.holdsText_of_isInt (h.linear t ht)⟩

namespace Draft

variable {F : PrimeField} {d d' : Draft}

/-- All numbers of a draft over a field are residues of it. -/
structure HoldsResidues (F : PrimeField) (d : Draft) : Prop where
  field : d.field = F
  selectors : ∀ x ∈ d.selectors.toList, x.IsResidueOf F

theorem holdsResidues_empty (F : PrimeField) : (Draft.empty F).HoldsResidues F := by
  refine ⟨rfl, fun x hx => ⟨F.zero, ?_, rfl⟩⟩
  simpa [empty, Selectors.zero, Selectors.toList] using hx

namespace HoldsResidues

/-! Every step of an assembly keeps the numbers residues. -/

theorem setSigned (h : d.HoldsResidues F) {v : Value} {negative : Bool} {selector : Selector}
    (hv : v.holdsText = false)
    (hset : (d.field.signedElement v negative >>= fun x => d.set selector (.element x)) = .ok d') :
    d'.HoldsResidues F := by
  obtain ⟨x, hx, hset⟩ := bind_eq_ok.mp hset
  have hfield := PrimeField.field_signedElement hx
  rw [h.field] at hx
  rw [set, PrimeField.element_self hfield] at hset
  cases hset
  refine ⟨h.field, fun y hy => ?_⟩
  rcases Selectors.mem_toList_set hy with rfl | hy
  · exact PrimeField.isResidueOf_signedElement hx hv
  · exact h.selectors y hy

theorem withPublic (h : d.HoldsResidues F) {table : VariableTable} (htable : table.HoldsNumbers)
    {rhs : Option PublicTerm} (hd : d.withPublic table rhs = .ok d') : d'.HoldsResidues F := by
  cases rhs with
  | none =>
    cases hd
    exact h
  | some p =>
    rw [Draft.withPublic] at hd
    cases hfind : table.find? p.name with
    | none =>
      rw [hfind] at hd
      cases hd
    | some v =>
      have hv := htable v (VariableTable.mem_of_find? hfind)
      rw [hfind] at hd
      dsimp only at hd
      by_cases hrole : v.role = .publicInput
      · rw [if_pos hrole] at hd
        exact h.setSigned (Value.holdsText_element hv) hd
      · rw [if_neg hrole] at hd
        cases hd

theorem withMultiplier (h : d.HoldsResidues F) {multiplier : Option (Value × Bool)}
    (htext : ∀ m, multiplier = some m → m.1.holdsText = false)
    (hd : d.withMultiplier multiplier = .ok d') : d'.HoldsResidues F := by
  cases multiplier with
  | none =>
    cases hd
    exact h
  | some m => exact h.setSigned (htext m rfl) hd

theorem withSelectors (h : d.HoldsResidues F) {ts : List SelectorTerm}
    (htext : ∀ t ∈ ts, t.coefficient.holdsText = false) (hd : d.withSelectors ts = .ok d') :
    d'.HoldsResidues F := by
  induction ts generalizing d with
  | nil =>
    cases hd
    exact h
  | cons t ts ih =>
    obtain ⟨hfirst, hrest⟩ := List.forall_mem_cons.mp htext
    obtain ⟨x, hx, hd⟩ := bind_eq_ok.mp hd
    obtain ⟨e, he, hd⟩ := bind_eq_ok.mp hd
    exact ih (h.setSigned hfirst (bind_eq_ok.mpr ⟨x, hx, he⟩)) hrest hd

theorem withBindings (h : d.HoldsResidues F) {witnesses : List (String × Int)}
    {bindings : Bindings} (hd : d.withBindings witnesses bindings = .ok d') :
    d'.HoldsResidues F := by
  induction bindings generalizing d with
  | nil =>
    cases hd
    exact h
  | cons binding bindings ih =>
    obtain ⟨wire, name⟩ := binding
    rw [Draft.withBindings] at hd
    cases hlookup : witnesses.lookup name with
    | none =>
      rw [hlookup] at hd
      cases hd
    | some index =>
      rw [hlookup] at hd
      refine ih ?_ hd
      cases wire <;> exact ⟨h.field, h.selectors⟩

end HoldsResidues

/-- **A draft without texts has residues for all its numbers.** -/
theorem holdsResidues_ofLayout {e : Expression} {layout : Layout} (hlayout : layout.Describes e)
    (he : e.HoldsNoText) {table : VariableTable} (htable : table.HoldsNumbers)
    {witnesses : List (String × Int)} (hd : ofLayout layout table witnesses F = .ok d) :
    d.HoldsResidues F := by
  obtain ⟨d₁, hd₁, hd⟩ := bind_eq_ok.mp hd
  obtain ⟨d₂, hd₂, hd⟩ := bind_eq_ok.mp hd
  obtain ⟨d₃, hd₃, hd⟩ := bind_eq_ok.mp hd
  have hmultiplier : ∀ m, layout.multiplier = some m → m.1.holdsText = false := by
    intro m hm
    rw [hlayout.multiplier] at hm
    obtain ⟨t, ht, rfl⟩ := Option.map_eq_some_iff.mp hm
    exact he.quadratic t ht
  have hselectors : ∀ s ∈ layout.selectors, s.coefficient.holdsText = false := by
    intro s hs
    obtain ⟨t, ht, hplaces⟩ := exists_of_forall₂ hlayout.terms hs
    rw [hplaces.1]
    exact he.linear t ht
  exact ((((holdsResidues_empty F).withPublic htable hd₁).withMultiplier hmultiplier
    hd₂).withSelectors hselectors hd₃).withBindings hd

end Draft

/-! ## Encodings of gates -/

theorem exists_residues {F : PrimeField} {xs : List Element} (h : ∀ x ∈ xs, x.IsResidueOf F) :
    ∃ rs : List Residue, xs = rs.map .number ∧ ∀ r ∈ rs, r.field = F := by
  induction xs with
  | nil => exact ⟨[], rfl, by simp⟩
  | cons x xs ih =>
    obtain ⟨⟨r, rfl, hr⟩, hrest⟩ := List.forall_mem_cons.mp h
    obtain ⟨rs, rfl, hrs⟩ := ih hrest
    exact ⟨r :: rs, rfl, List.forall_mem_cons.mpr ⟨hr, hrs⟩⟩

theorem mapM_bytes (rs : List Residue) :
    (rs.map Element.number).mapM (·.bytes) = .ok (rs.map (·.bytes)) := by
  rw [mapM_eq_ok, List.forall₂_map_left_iff, List.forall₂_map_right_iff, List.forall₂_same]
  exact fun r _ => rfl

theorem Selectors.length_toList (s : Selectors) : s.toList.length = 6 := rfl

theorem Selectors.toList_injective {s t : Selectors} (h : s.toList = t.toList) : s = t := by
  cases s
  cases t
  simp only [toList, List.cons.injEq, and_true] at h
  simp only [mk.injEq]
  exact h

/-- Six numbers a gate: a list of them belongs to one list of gates. -/
theorem Selectors.flatMap_toList_injective {ss ts : List Selectors}
    (h : ss.flatMap toList = ts.flatMap toList) : ss = ts := by
  induction ss generalizing ts with
  | nil =>
    cases ts with
    | nil => rfl
    | cons t ts => cases h
  | cons s ss ih =>
    cases ts with
    | nil => cases h
    | cons t ts =>
      rw [List.flatMap_cons, List.flatMap_cons] at h
      obtain ⟨hfirst, hrest⟩ := List.append_inj h rfl
      rw [toList_injective hfirst, ih hrest]

/-- Gates are encoded one by one, so their numbers are. -/
theorem Gate.exists_bytes {gates : List Gate} {rs : List Residue}
    (h : gates.flatMap (·.selectors.toList) = rs.map .number) :
    ∃ bss, gates.mapM (·.bytes) = .ok bss ∧ bss.flatten = rs.flatMap (·.bytes) := by
  induction gates generalizing rs with
  | nil =>
    obtain rfl : rs = [] := by simpa using h.symm
    exact ⟨[], rfl, rfl⟩
  | cons g gates ih =>
    -- the first six residues are those of the first gate
    rw [List.flatMap_cons] at h
    obtain ⟨first, rest, rfl, hfirst, hrest⟩ := List.map_eq_append_iff.mp h.symm
    obtain ⟨bss, hbss, hflatten⟩ := ih hrest.symm
    have hbytes : g.bytes = .ok (first.flatMap (·.bytes)) := by
      rw [Gate.bytes, ← hfirst, mapM_bytes, List.flatMap_def]
      rfl
    refine ⟨first.flatMap (·.bytes) :: bss, ?_, ?_⟩
    · rw [List.mapM_cons, hbytes, ok_bind, hbss]
      rfl
    · rw [List.flatten_cons, hflatten, List.flatMap_append]

namespace LoweredCircuit

/-- The selectors of all gates, one gate after the other. -/
def numbers (l : LoweredCircuit) : List Element := l.gates.flatMap (·.selectors.toList)

theorem length_numbers (l : LoweredCircuit) : l.numbers.length = l.gates.length * 6 := by
  rw [numbers, List.length_flatMap, List.map_congr_left fun g _ => g.selectors.length_toList]
  simp

theorem numbers_eq_iff {l m : LoweredCircuit} :
    l.numbers = m.numbers ↔ l.gates.map (·.selectors) = m.gates.map (·.selectors) := by
  have hnumbers : ∀ k : LoweredCircuit,
      k.numbers = (k.gates.map (·.selectors)).flatMap Selectors.toList := by
    intro k
    rw [List.flatMap_map]
    rfl
  rw [hnumbers, hnumbers]
  exact ⟨Selectors.flatMap_toList_injective, fun h => by rw [h]⟩

/-- The encoding of gates is that of their numbers. -/
theorem selectorBytes_eq {l : LoweredCircuit} {rs : List Residue}
    (h : l.numbers = rs.map .number) : l.selectorBytes = .ok (rs.flatMap (·.bytes)) := by
  obtain ⟨bss, hbss, hflatten⟩ := Gate.exists_bytes h
  rw [selectorBytes, hbss, ← hflatten]
  rfl

end LoweredCircuit

/-! ## Lowered circuits -/

namespace Circuit

variable {c : Circuit} {F : PrimeField} {l : LoweredCircuit}

theorem Accepted.length_gates_lower (h : c.Accepted) (hl : c.lower = .ok l) :
    l.gates.length = c.expressions.length := by
  obtain ⟨gates, hgates, rfl⟩ := (lower_eq_ok_iff h.inField).mp hl
  exact hgates.length_eq.symm

/-- **The numbers of all gates of a lowered circuit are residues of its field.** -/
theorem Accepted.isResidueOf_lower (h : c.Accepted) (htext : ∀ e ∈ c.expressions, e.HoldsNoText)
    (hnumbers : c.table.HoldsNumbers) (hl : c.lower = .ok l) :
    ∀ x ∈ l.numbers, x.IsResidueOf c.field := by
  obtain ⟨gates, hgates, rfl⟩ := (lower_eq_ok_iff h.inField).mp hl
  intro x hx
  obtain ⟨g, hg, hx⟩ := List.mem_flatMap.mp hx
  obtain ⟨e, he, hgate⟩ := exists_of_forall₂ hgates hg
  obtain ⟨layout, hlayout, hgate⟩ := bind_eq_ok.mp hgate
  obtain ⟨d, hd, hgate⟩ := bind_eq_ok.mp hgate
  obtain ⟨-, hselectors, -⟩ := ConstraintSystem.gateOf_inv hgate
  rw [hselectors] at hx
  exact (Draft.holdsResidues_ofLayout (Layout.describes_of_ok hlayout) (htext e he) hnumbers
    hd).selectors x hx

/-- The lowered circuits over a field: a program was accepted, values were supplied, and there is
no text in the place of a residue. -/
def Lowered (F : PrimeField) (l : LoweredCircuit) : Prop :=
  ∃ es c calls, ofExpressions F es = .ok c ∧ (∀ e ∈ es, e.HoldsNoText) ∧ TextFree calls ∧
    (c.afterCalls calls).lower = .ok l

theorem Lowered.exists_residues (h : Lowered F l) :
    ∃ rs : List Residue, l.numbers = rs.map .number ∧ ∀ r ∈ rs, r.field = F := by
  obtain ⟨es, c, calls, hc, htext, hcalls, hl⟩ := h
  have hnumbers := holdsNumbers_afterCalls (holdsNumbers_ofExpressions hc) hcalls
  have hfield : (c.afterCalls calls).field = F := by
    rw [field_afterCalls, (ofExpressions_ok hc).2]
  refine PlonkGates.exists_residues ?_
  rw [← hfield]
  refine ((accepted_ofExpressions hc).afterCalls calls).isResidueOf_lower ?_ hnumbers hl
  rwa [expressions_afterCalls, expressions_ofExpressions hc]

/-- **The encoding of the selectors is faithful.** Every residue fits the width of its field and is
read back from its bytes. Accepted programs with integer coefficients are lowered. The encoding of a
lowered circuit has six blocks a gate, and cutting it into blocks and decoding them gives the six
numbers of each gate in order. So encodings over one field are equal exactly if the selectors of the
gates are. -/
theorem selectorBytes_faithful (F : PrimeField) :
    (∀ x : Residue, x.field = F → x.value < 256 ^ F.byteLength ∧
      x.bytes.length = F.byteLength ∧ ofLittleEndian x.bytes = x.value) ∧
    (∀ es c calls, ofExpressions F es = .ok c → (∀ e ∈ es, e.IsIntegral) → TextFree calls →
      ∃ l, (c.afterCalls calls).lower = .ok l ∧ Lowered F l) ∧
    (∀ l, Lowered F l → ∃ (bytes : List UInt8) (rs : List Residue),
      l.selectorBytes = .ok bytes ∧ bytes.length = l.gates.length * 6 * F.byteLength ∧
      (∀ r ∈ rs, r.field = F) ∧ l.gates.flatMap (·.selectors.toList) = rs.map .number ∧
      F.decode bytes = rs.map (·.value)) ∧
    ∀ l₁ l₂, Lowered F l₁ → Lowered F l₂ →
      (l₁.selectorBytes = l₂.selectorBytes ↔
        l₁.gates.map (·.selectors) = l₂.gates.map (·.selectors)) := by
  refine ⟨?_, ?_, ?_, ?_⟩
  · rintro x rfl
    exact ⟨x.value_lt, x.length_bytes, x.ofLittleEndian_bytes⟩
  · intro es c calls hc hint hcalls
    obtain ⟨l, hl⟩ := exists_lower_afterCalls hc hint hcalls
    exact ⟨l, hl, es, c, calls, hc, fun e he => (hint e he).holdsNoText, hcalls, hl⟩
  · intro l h
    obtain ⟨rs, hnumbers, hfield⟩ := h.exists_residues
    refine ⟨_, rs, LoweredCircuit.selectorBytes_eq hnumbers, ?_, hfield, hnumbers,
      PrimeField.decode_bytes hfield⟩
    rw [length_flatMap_bytes hfield, ← l.length_numbers, hnumbers, List.length_map]
  · intro l₁ l₂ h₁ h₂
    obtain ⟨rs₁, hnumbers₁, hfield₁⟩ := h₁.exists_residues
    obtain ⟨rs₂, hnumbers₂, hfield₂⟩ := h₂.exists_residues
    rw [← LoweredCircuit.numbers_eq_iff, LoweredCircuit.selectorBytes_eq hnumbers₁,
      LoweredCircuit.selectorBytes_eq hnumbers₂, hnumbers₁, hnumbers₂]
    constructor
    · intro h
      -- equal bytes are cut and decoded alike
      have hvalues := congrArg F.decode (Except.ok.inj h)
      rw [PrimeField.decode_bytes hfield₁, PrimeField.decode_bytes hfield₂] at hvalues
      rw [residues_eq_of_values hfield₁ hfield₂ hvalues]
    · intro h
      have hinjective : Function.Injective Element.number := fun _ _ => Element.number.inj
      rw [List.map_injective_iff.mpr hinjective h]

/-- The program `2a*b - 9c + a = -p; b - c = 0` has two gates over a field of one byte. -/
theorem selectorBytes_faithful_exampleProgram :
    ∃ c l bytes, ofExpressions exampleField exampleProgram = .ok c ∧
      (∀ e ∈ exampleProgram, e.IsIntegral) ∧ TextFree exampleCalls ∧
      (c.afterCalls exampleCalls).lower = .ok l ∧ Lowered exampleField l ∧
      l.selectorBytes = .ok bytes ∧ bytes.length = 12 := by
  have hvalid : Expression.validate exampleProgram = .ok () := by rfl
  have hc := ofExpressions_eq_ok exampleField hvalid
  have hint : ∀ e ∈ exampleProgram, e.IsIntegral := by decide
  have hcalls : TextFree exampleCalls := by decide
  obtain ⟨-, hexists, hbytes, -⟩ := selectorBytes_faithful exampleField
  obtain ⟨l, hl, hlowered⟩ := hexists _ _ _ hc hint hcalls
  obtain ⟨bytes, rs, hok, hlength, -⟩ := hbytes l hlowered
  refine ⟨_, l, bytes, hc, hint, hcalls, hl, hlowered, hok, hlength.trans ?_⟩
  have hgates := ((accepted_ofExpressions hc).afterCalls exampleCalls).length_gates_lower hl
  rw [expressions_afterCalls] at hgates
  rw [hgates]
  rfl

end Circuit

end PlonkGates
