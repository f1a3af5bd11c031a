import Mathlib.Data.Set.List
import PlonkGates.Proofs.Commands
import PlonkGates.Proofs.Documents
import PlonkGates.Proofs.Listings
import PlonkGates.Proofs.Literals

/-!
# Public inputs that are printed can be supplied

The command `inputs` prints the public inputs of a circuit as `NAME=VALUE`, each value as the
representative closest to zero. A name of a program is a word and has neither an equals sign nor a
blank in it, so such a line is taken apart where it was put together (`Assignment.parse_line`). The
value is read as the integer that was printed, and its residue is the public input
(`PrimeField.reduce_signed`). No name is printed twice, so the order does not matter
(`VariableTable.exists_setValues_back`).
-/

namespace PlonkGates

/-! ## Numerals -/

namespace Text

theorem digitValue?_of_isAsciiDigit {c : Char} (h : isAsciiDigit c = true) :
    digitValue? c = some (c.toNat - 0x30) := by
  have hzeros : zeroDigits = 0x30 :: zeroDigits.tail := rfl
  have hzero : (decide (0x30 ≤ c.toNat) && decide (c.toNat < 0x30 + 10)) = true := by
    simp only [isAsciiDigit, Bool.and_eq_true, decide_eq_true_eq] at h ⊢
    omega
  rw [digitValue?, hzeros, List.find?_cons, hzero, Option.map_some]

theorem leadingDigits_of_digits {cs : List Char} (h : ∀ c ∈ cs, isAsciiDigit c = true)
    {afterDigit : Bool} (hstart : afterDigit = true ∨ cs ≠ []) :
    leadingDigits afterDigit cs = some (cs.map fun c => c.toNat - 0x30, []) := by
  induction cs generalizing afterDigit with
  | nil =>
    obtain rfl : afterDigit = true := by simpa using hstart
    rfl
  | cons c cs ih =>
    obtain ⟨hc, hcs⟩ := List.forall_mem_cons.mp h
    have hline : c ≠ '_' := by
      rintro rfl
      cases hc
    rw [leadingDigits, if_neg hline, digitValue?_of_isAsciiDigit hc, ih hcs (Or.inl rfl)]
    rfl

theorem readNatural_repr {n : Nat} (h : IsShort n) : readNatural n.repr.toList = .ok n := by
  obtain ⟨hne, hdigits⟩ := spells_repr n
  have hlength := length_repr_le h
  rw [readNatural, leadingDigits_of_digits hdigits (Or.inr hne)]
  dsimp only
  rw [List.length_map, if_neg (Nat.not_lt.mpr hlength), List.all_nil, if_pos rfl]
  exact congrArg Except.ok (ofAsciiDigits_repr n)

/-- Characters that can be seen are not blank. -/
theorem isBlank_of_visible {c : Char} (h : 0x21 ≤ c.toNat ∧ c.toNat ≤ 0x7e) :
    isBlank c = false := by
  simp [isBlank]
  omega

theorem dropWhile_eq_self_of_forall {cs : List Char} {p : Char → Bool}
    (h : ∀ c ∈ cs, p c = false) : cs.dropWhile p = cs := by
  cases cs with
  | nil => rfl
  | cons c cs => exact List.dropWhile_cons_of_neg (by simp [h c List.mem_cons_self])

theorem trim_of_visible {cs : List Char} (h : ∀ c ∈ cs, isBlank c = false) : trim cs = cs := by
  have hreverse : ∀ c ∈ cs.reverse, isBlank c = false := fun c hc => h c (List.mem_reverse.mp hc)
  rw [trim, dropWhile_eq_self_of_forall h, dropWhile_eq_self_of_forall hreverse,
    List.reverse_reverse]

theorem visible_of_isAsciiDigit {c : Char} (h : isAsciiDigit c = true) :
    0x21 ≤ c.toNat ∧ c.toNat ≤ 0x7e := by
  simp only [isAsciiDigit, Bool.and_eq_true, decide_eq_true_eq] at h
  omega

/-- A numeral is a run of digits, with or without a minus sign. -/
theorem isBlank_of_mem_numeral {z : Int} : ∀ c ∈ (numeral z).toList, isBlank c = false := by
  have hdigits : ∀ n : Nat, ∀ c ∈ n.repr.toList, isBlank c = false := fun n c hc =>
    isBlank_of_visible (visible_of_isAsciiDigit (isAsciiDigit_of_mem_repr hc))
  cases z with
  | ofNat n => exact hdigits n
  | negSucc n =>
    rw [numeral, String.toList_append]
    exact List.forall_mem_cons.mpr ⟨rfl, hdigits (n + 1)⟩

/-- **A numeral that is not too long is read as the integer that it was written for.** -/
theorem readInteger_numeral {z : Int} (h : IsShort z) :
    readInteger (numeral z).toList = .ok z := by
  have hnumeral : ∀ c ∈ (numeral z).toList, isNumeralBlank c = false := fun c hc => by
    rw [isNumeralBlank, isBlank_of_mem_numeral c hc, Bool.false_and]
  rw [readInteger, dropWhile_eq_self_of_forall hnumeral]
  cases z with
  | ofNat n =>
    -- the first character is a digit and no sign
    obtain ⟨c, cs, hcs⟩ := List.exists_cons_of_ne_nil (spells_repr n).1
    have hc : isAsciiDigit c = true := (spells_repr n).2 c (by rw [hcs]; exact List.mem_cons_self)
    have hread : readNatural n.repr.toList = .ok n := readNatural_repr h
    rw [numeral]
    rw [hcs] at hread ⊢
    split
    · next heq =>
      cases heq
      cases hc
    · next heq =>
      cases heq
      cases hc
    · rw [hread]
      rfl
  | negSucc n =>
    have hread : readNatural (n + 1).repr.toList = .ok (n + 1) := readNatural_repr h
    have htext : (numeral (.negSucc n)).toList = '-' :: (n + 1).repr.toList := by
      rw [numeral, String.toList_append]
      rfl
    rw [htext]
    exact congrArg (Except.map fun n => -Int.ofNat n) hread

end Text

/-! ## Lines -/

theorem splitAtEquals?_append {before : List Char} (h : '=' ∉ before) (after : List Char) :
    splitAtEquals? (before ++ '=' :: after) = some (before, after) := by
  induction before with
  | nil => rfl
  | cons c cs ih =>
    rw [List.mem_cons, not_or] at h
    rw [List.cons_append, splitAtEquals?, if_neg (Ne.symm h.1), ih h.2, Option.map_some]

/-- A word has no equals sign and no blank in it. -/
theorem visible_of_word {cs : List Char} (h : LexemeKind.word.Spells cs) :
    cs ≠ [] ∧ ∀ c ∈ cs, c ≠ '=' ∧ Text.isBlank c = false := by
  have hchar : ∀ c, Lexeme.isWordChar c = true → c ≠ '=' ∧ Text.isBlank c = false := by
    intro c hc
    refine ⟨fun heq => ?_, Text.isBlank_of_visible ?_⟩
    · rw [heq] at hc
      cases hc
    · rcases Bool.or_eq_true_iff.mp hc with hletter | hdigit
      · by_cases hline : c = '_'
        · rw [hline]
          decide
        · simp only [Lexeme.isLetter, Bool.or_eq_true, Bool.and_eq_true, decide_eq_true_eq,
            beq_iff_eq, hline, or_false] at hletter
          omega
      · exact Text.visible_of_isAsciiDigit hdigit
  obtain ⟨c, cs, rfl, hc, hcs⟩ := h
  have hfirst : Lexeme.isWordChar c = true := by rw [Lexeme.isWordChar, hc, Bool.true_or]
  exact ⟨List.cons_ne_nil c cs, List.forall_mem_cons.mpr ⟨hchar c hfirst, fun d hd =>
    hchar d (hcs d hd)⟩⟩

namespace Assignment

/-- The line that is printed for an assignment. -/
def line (a : Assignment) : String := a.name ++ "=" ++ Text.numeral a.value

/-- **The line for a word and an integer is read as what it was printed for.** -/
theorem parse_line {a : Assignment} (hname : LexemeKind.word.Spells a.name.toList)
    (hvalue : Text.IsShort a.value) : parse a.line = .ok a := by
  obtain ⟨hne, hchars⟩ := visible_of_word hname
  have hequals : '=' ∉ a.name.toList := fun hmem => (hchars _ hmem).1 rfl
  have hline : a.line.toList = a.name.toList ++ '=' :: (Text.numeral a.value).toList := by
    rw [line, String.toList_append, String.toList_append, List.append_assoc]
    rfl
  rw [parse, hline, splitAtEquals?_append hequals]
  dsimp only
  rw [Text.trim_of_visible fun c hc => (hchars c hc).2,
    Text.trim_of_visible Text.isBlank_of_mem_numeral, Text.readInteger_numeral hvalue,
    List.isEmpty_eq_false_iff.mpr hne, String.ofList_toList]
  rfl

end Assignment

/-! ## Values -/

/-- The representative closest to zero has the residue that it was taken from. -/
theorem PrimeField.reduce_signed (x : Residue) : x.field.reduce x.signed = x :=
  (reduce_congr x.signed_modEq).trans (reduce_value_residue x)

/-- The integer that is printed for an element; there is none for a text, which counts as zero. -/
def Element.shown : Element → Int
  | number x => x.signed
  | text .. => 0

/-- Only one of some assignments to different names is to a given name. -/
theorem Assignment.filter_name {values : List Assignment} (h : (values.map (·.name)).Nodup)
    {a : Assignment} (ha : a ∈ values) : values.filter (·.name = a.name) = [a] := by
  induction values with
  | nil => cases ha
  | cons b values ih =>
    obtain ⟨hb, hvalues⟩ := List.nodup_cons.mp h
    rcases List.mem_cons.mp ha with rfl | ha
    · have hnone : values.filter (·.name = a.name) = [] := by
        rw [List.filter_eq_nil_iff]
        intro c hc hname
        exact hb (List.mem_map.mpr ⟨c, hc, of_decide_eq_true hname⟩)
      rw [List.filter_cons_of_pos (by simp), hnone]
    · have hne : b.name ≠ a.name := fun heq => hb (List.mem_map.mpr ⟨a, ha, heq.symm⟩)
      rw [List.filter_cons_of_neg (by simpa using hne), ih hvalues ha]

namespace VariableTable

variable {F : PrimeField} {t t' : VariableTable} {f : String → Option Element}
  {other : List Assignment}

/-- The public inputs of a table as they are printed. -/
def printed (t : VariableTable) : List Assignment := t.publicInputs.map fun x => ⟨x.1, x.2.shown⟩

theorem names_printed (t : VariableTable) :
    t.printed.map (·.name) = t.publicInputs.map (·.1) := by
  rw [printed, List.map_map]
  rfl

theorem nodup_names_printed (h : Sorted t.entries) : (t.printed.map (·.name)).Nodup := by
  have hpublic : Sorted (t.entries.filter (·.isPublic)) := h.filter _
  rw [names_printed, publicInputs, List.map_map]
  exact hpublic.nodup_names

theorem publicInputs_withValues (f : String → Option Element) (vs : List Variable) :
    publicInputs ⟨F, withValues f vs⟩ =
      (vs.filter (·.isPublic)).map fun v => (v.name, (f v.name).getD v.value) := by
  rw [publicInputs, withValues, List.filter_map, List.map_map]
  rfl

/-- **Printed public inputs can be supplied in any order, and they are the same then.** -/
theorem exists_setValues_back (hsorted : Sorted t.entries)
    (ht' : t' = ⟨t.field, withValues f t.entries⟩)
    (hresidues : ∀ v ∈ t'.entries, v.value.IsResidueOf t.field) (h : other.Perm t'.printed) :
    ∃ t'', t.setValues (Assignment.pairs other) = .ok t'' ∧
      t''.publicInputs = t'.publicInputs := by
  have hpublic : t'.publicInputs =
      (t.entries.filter (·.isPublic)).map fun v => (v.name, (f v.name).getD v.value) := by
    rw [ht', publicInputs_withValues]
  have hnodup : (other.map (·.name)).Nodup := by
    have hsorted' : Sorted t'.entries := by rw [ht', sorted_withValues]; exact hsorted
    exact (h.map _).nodup_iff.mpr (nodup_names_printed hsorted')
  have hfound : ∀ a ∈ other, (t.find? a.name).isSome := by
    intro a ha
    obtain ⟨x, hx, rfl⟩ := List.mem_map.mp (h.mem_iff.mp ha)
    rw [hpublic] at hx
    obtain ⟨v, hv, rfl⟩ := List.mem_map.mp hx
    have hfind := hsorted.find?_eq_some_iff.mpr ⟨(List.mem_filter.mp hv).1, rfl⟩
    exact Option.isSome_iff_exists.mpr ⟨v, hfind⟩
  refine ⟨_, setValues_pairs hfound, ?_⟩
  rw [putAll_eq, publicInputs_withValues, hpublic]
  refine List.map_congr_left fun v hv => ?_
  -- the one value that is supplied for a public input is the one that was printed for it
  have hmem : (v.name, (f v.name).getD v.value) ∈ t'.publicInputs := by
    rw [hpublic]
    exact List.mem_map_of_mem hv
  have ha : ⟨v.name, ((f v.name).getD v.value).shown⟩ ∈ other :=
    h.mem_iff.mpr (List.mem_map_of_mem hmem)
  have hvalue : ((f v.name).getD v.value).IsResidueOf t.field := by
    refine hresidues { v with value := (f v.name).getD v.value } ?_
    rw [ht']
    exact List.mem_map_of_mem (List.mem_filter.mp hv).1
  obtain ⟨r, hr, hfield⟩ := hvalue
  rw [lastUpdate_map, Assignment.filter_name hnodup ha, hr, ← hfield, List.getLast?_singleton,
    Option.map_some, Option.getD_some, Element.shown, PrimeField.reduce_signed]

end VariableTable

/-! ## Circuits -/

namespace Circuit

variable {settings : Settings} {text : String} {c d : Circuit} {values other : List Assignment}

theorem publicInputNames_setValues {pairs : List (Value × Value)}
    (h : c.setValues pairs = .ok d) : d.publicInputNames = c.publicInputNames := by
  obtain ⟨table, htable, rfl⟩ := setValues_ok h
  rw [publicInputNames, publicInputNames, VariableTable.names_publicInputs,
    VariableTable.names_publicInputs, VariableTable.roles_setValues htable]

/-- A circuit of a text is made of its equations and then of their expressions. -/
theorem stages_of_parse (hc : parse settings text = .ok c) :
    ∃ qs es, Equation.parse text = .ok qs ∧
      Expression.listOfEquations (.int settings.maxCoefficient) 0 qs = .ok es ∧
      ofExpressions settings.field es = .ok c := by
  obtain ⟨qs, hqs, -⟩ := bind_eq_ok.mp hc
  obtain ⟨es, hes, hof⟩ := parse_ok hqs hc
  exact ⟨qs, es, hqs, hes, hof⟩

/-- The names of the public inputs of a program text are words of it. -/
theorem word_of_mem_publicInputNames (hc : parse settings text = .ok c) {name : String}
    (hname : name ∈ c.publicInputNames) : LexemeKind.word.Spells name.toList := by
  obtain ⟨qs, es, hqs, hes, hof⟩ := stages_of_parse hc
  obtain ⟨e, he, p, hp, rfl⟩ := ((accepted_ofExpressions hof).names_publicInputs.2 name).mp hname
  rw [expressions_ofExpressions hof] at he
  obtain ⟨⟨q, i⟩, hq, hqe⟩ := exists_of_forall₂ (Expression.listOfEquations_ok hes) he
  obtain ⟨ns, -, -, rfl⟩ := Expression.ofEquation_ok hqe
  exact Equation.right_word_of_parse hqs q (List.fst_mem_of_mem_zipIdx hq) p hp

/-- A program text with values has gates and holds residues only. -/
theorem exists_lower_of_parse (hc : parse settings text = .ok c)
    (hset : c.setValues (Assignment.pairs values) = .ok d) :
    (∃ l, d.lower = .ok l) ∧ ∀ v ∈ d.table.entries, v.value.IsResidueOf settings.field := by
  obtain ⟨qs, es, hqs, hes, hof⟩ := stages_of_parse hc
  have hd := (accepted_ofExpressions hof).setValues hset
  have hnumbers := holdsNumbers_setValues (holdsNumbers_ofExpressions hof)
    Assignment.holdsText_pairs hset
  obtain ⟨-, rfl⟩ := ofExpressions_ok hof
  obtain ⟨table, htable, rfl⟩ := setValues_ok hset
  refine ⟨hd.exists_lower (Expression.isIntegral_listOfEquations hes) hnumbers, fun v hv => ?_⟩
  have hfield : v.value.field = settings.field := hd.inField v hv
  exact hfield ▸ (hnumbers v hv).isResidueOf

/-- Each line that is printed for a public input is read as what it was printed for. -/
theorem parse_line_of_mem_printed (horder : Text.IsShort settings.field.order)
    (hc : parse settings text = .ok c) (hset : c.setValues (Assignment.pairs values) = .ok d)
    {a : Assignment} (ha : a ∈ d.table.printed) : Assignment.parse a.line = .ok a := by
  have hname : a.name ∈ c.publicInputNames := by
    rw [← publicInputNames_setValues hset, publicInputNames, ← VariableTable.names_printed]
    exact List.mem_map_of_mem ha
  refine Assignment.parse_line (word_of_mem_publicInputNames hc hname) ?_
  obtain ⟨x, hx, rfl⟩ := List.mem_map.mp ha
  obtain ⟨v, hv, rfl⟩ := List.mem_map.mp hx
  obtain ⟨r, hr, hfield⟩ := (exists_lower_of_parse hc hset).2 v (List.mem_filter.mp hv).1
  rw [hr]
  exact Residue.isShort_signed (hfield ▸ horder)

theorem exists_setValues_printed (hc : parse settings text = .ok c)
    (hset : c.setValues (Assignment.pairs values) = .ok d) (h : other.Perm d.table.printed) :
    ∃ d', c.setValues (Assignment.pairs other) = .ok d' ∧
      d'.table.publicInputs = d.table.publicInputs := by
  obtain ⟨-, hresidues⟩ := exists_lower_of_parse hc hset
  obtain ⟨qs, es, hqs, hes, hof⟩ := stages_of_parse hc
  obtain ⟨-, rfl⟩ := ofExpressions_ok hof
  obtain ⟨table, htable, rfl⟩ := setValues_ok hset
  obtain ⟨updates, -, hupdates⟩ := VariableTable.setValues_ok_iff.mp htable
  rw [VariableTable.putAll_eq] at hupdates
  obtain ⟨table', htable', hpublic⟩ :=
    VariableTable.exists_setValues_back (VariableTable.sorted_derive _ _) hupdates hresidues h
  refine ⟨⟨settings.field, es, table'⟩, ?_, hpublic⟩
  rw [setValues_eq, htable', ok_map]

end Circuit

/-! ## The command -/

namespace Session

open Run

variable {env : Environment} {settings : Settings} {s : Session} {path text : String}
  {c d : Circuit}

/-- Only values that are all there are supplied. -/
theorem supplyTo_ok {values : List (Option Assignment)} (h : supplyTo c values = .ok d) :
    ∃ given : List Assignment, values = given.map some ∧
      c.setValues (Assignment.pairs given) = .ok d := by
  obtain ⟨d', -, hd'⟩ := bind_eq_ok.mp h
  have hgiven : values ∈ Set.range (List.map some) := by
    rw [Set.range_list_map]
    intro a ha
    cases a with
    | some a => exact ⟨a, rfl⟩
    | none =>
      rw [if_pos (List.contains_iff_mem.mpr ha)] at hd'
      cases hd'
  obtain ⟨given, rfl⟩ := hgiven
  exact ⟨given, rfl, supplyTo_map_some c given ▸ h⟩

theorem yields_inputs (horder : Text.IsShort settings.field.order) {l : LoweredCircuit}
    {values : List (Option Assignment)}
    (hsupply : Yields s (supply env settings path values) (d, l) [])
    (hresidues : ∀ v ∈ d.table.entries, v.value.IsResidueOf settings.field) :
    Yields s (inputs env settings path values) 0 (d.table.printed.map Assignment.line) := by
  have hsigned : ∀ x ∈ d.table.publicInputs,
      x.2.signed = .ok x.2.shown ∧ Text.IsShort x.2.shown := by
    intro x hx
    obtain ⟨v, hv, rfl⟩ := List.mem_map.mp hx
    obtain ⟨r, hr, hfield⟩ := hresidues v (List.mem_filter.mp hv).1
    rw [hr]
    exact ⟨rfl, Residue.isShort_signed (hfield ▸ horder)⟩
  rw [VariableTable.printed, List.map_map, ← List.append_nil (List.map _ _)]
  refine hsupply.bind (Yields.bind (yields_forIn fun x hx => ?_) (yields_pure 0))
  obtain ⟨hshown, hshort⟩ := hsigned x hx
  exact (yields_demand hshown).bind ((yields_demand (Text.writeInteger_of_isShort hshort)).bind
    ((yields_print _).bind (yields_pure _)))

theorem yields_inputs_of_parse (horder : Text.IsShort settings.field.order)
    {given : List Assignment} (htext : s.disk.HoldsText env path text)
    (hc : Circuit.parse settings text = .ok c)
    (hset : c.setValues (Assignment.pairs given) = .ok d) :
    Yields s (inputs env settings path (given.map some)) 0
      (d.table.printed.map Assignment.line) := by
  obtain ⟨⟨l, hl⟩, hresidues⟩ := Circuit.exists_lower_of_parse hc hset
  exact yields_inputs horder (yields_supply htext hc hset hl) hresidues

/-- **What the command `inputs` prints can be supplied.** Of every text that is accepted, and for
all values that are, it prints one line for each public input in the order of their names. Each line
is read as an assignment. These assignments, in whatever order, are accepted by the circuit of the
text, which then has the same names and values of public inputs and prints the same lines. -/
theorem inputs_feed_back (horder : Text.IsShort settings.field.order)
    (htext : s.disk.HoldsText env path text) (hc : Circuit.parse settings text = .ok c)
    {values : List (Option Assignment)} (hsupply : supplyTo c values = .ok d) :
    ∃ lines back, Yields s (inputs env settings path values) 0 lines ∧
      (∀ arguments i, Invocation.parse arguments = .ok i → i.command = .inputs →
        i.circuit = path → i.values = values → settingsOf env s.disk i = .ok settings →
        (run env s arguments).status = .ok 0 ∧ (run env s arguments).stdout = unlines lines) ∧
      List.Forall₂ (fun line a => line = a.line ∧ Assignment.parse line = .ok a) lines back ∧
      back.map (·.name) = d.publicInputNames ∧
      ∀ other, other.Perm back → ∃ d', c.setValues (Assignment.pairs other) = .ok d' ∧
        d'.publicInputs = d.publicInputs ∧ d'.publicInputNames = d.publicInputNames ∧
        Yields s (inputs env settings path (other.map some)) 0 lines := by
  obtain ⟨given, rfl, hset⟩ := supplyTo_ok hsupply
  refine ⟨_, d.table.printed, yields_inputs_of_parse horder htext hc hset, ?_, ?_,
    d.table.names_printed, ?_⟩
  · intro arguments i hi hcommand hpath hvalues hsettings
    refine run_of_yields hi hsettings fun s' hdisk => ?_
    rw [commandOf, hcommand, hpath, hvalues]
    exact yields_inputs_of_parse horder (hdisk ▸ htext) hc hset
  · rw [List.forall₂_map_left_iff, List.forall₂_same]
    exact fun a ha => ⟨rfl, Circuit.parse_line_of_mem_printed horder hc hset ha⟩
  · intro other hother
    obtain ⟨d', hset', hpublic⟩ := Circuit.exists_setValues_printed hc hset hother
    have hlines := yields_inputs_of_parse horder htext hc hset'
    rw [VariableTable.printed, hpublic] at hlines
    refine ⟨d', hset', ?_, ?_, hlines⟩
    · rw [Circuit.publicInputs, hpublic, Circuit.publicInputs]
    · rw [Circuit.publicInputNames, hpublic, Circuit.publicInputNames]

/-- With `a` set to 2 and `p` to -4, what is printed about `p` can be supplied. -/
theorem inputs_feed_back_example :
    ∃ c d back, Circuit.parse .default exampleText = .ok c ∧
      supplyTo c [some ⟨"a", 2⟩, some ⟨"p", -4⟩] = .ok d ∧
      (run .reliable exampleSession ["inputs", "f", "--val", "a=2", "--val", "p=-4"]).status =
        .ok 0 ∧
      back.map Assignment.name = ["p"] ∧ ∃ d', c.setValues (Assignment.pairs back) = .ok d' ∧
        d'.publicInputs = d.publicInputs := by
  let values : List (Option Assignment) := [some ⟨"a", 2⟩, some ⟨"p", -4⟩]
  have horder : Text.IsShort Settings.default.field.order := by decide +kernel
  have htext : exampleSession.disk.HoldsText .reliable "f" exampleText :=
    ⟨exampleText.toUTF8.toList, exampleText.toList, eq_ok_of_toOption (by decide +kernel),
      eq_ok_of_toOption (by decide +kernel), by decide +kernel⟩
  have hnames : ((Circuit.parse .default exampleText >>= (supplyTo · values)).toOption.map
      (·.publicInputNames)) = some ["p"] := by decide +kernel
  obtain ⟨d, hd, hnames⟩ := Option.map_eq_some_iff.mp hnames
  obtain ⟨c, hc, hsupply⟩ := bind_eq_ok.mp (eq_ok_of_toOption hd)
  have hi : Invocation.parse ["inputs", "f", "--val", "a=2", "--val", "p=-4"] =
      .ok ⟨none, false, .inputs, "f", none, values⟩ := by decide +kernel
  obtain ⟨lines, back, -, hrun, -, hback, hother⟩ := inputs_feed_back horder htext hc hsupply
  obtain ⟨d', hset, hpublic, -⟩ := hother back (.refl back)
  exact ⟨c, d, back, hc, hsupply, (hrun _ _ hi rfl rfl rfl rfl).1, hback.trans hnames, d', hset,
    hpublic⟩

end Session

end PlonkGates
