import PlonkGates.Proofs.Documents
import PlonkGates.Proofs.JsonIntegers
import PlonkGates.Proofs.PlainTexts
import PlonkGates.Proofs.Rendering

/-!
# Written JSON is read back

A value in which nothing is rounded or replaced (`Value.isExact`) is read back from its text,
however that is indented (`Json.parse_toText`). Of what follows a value the reader must only know
that a numeral ends there (`Json.Closes`). The reader of values calls those of items and of entries,
and they call it, each with less fuel, and as much fuel as there are characters suffices: what the
three read back with so much fuel is told at once (`Json.ReadsBack`).
-/

namespace PlonkGates

open Text (CodePoints IsShort quotationMark backslash)

/-! ## Exact values -/

namespace Value

mutual

/-- A value that JSON tells exactly: there is no fraction and no element in it, every text can be
spelled, and no object has a key twice. -/
def isExact : Value → Bool
  | .real _ => false
  | .codePoints _ => false
  | .element _ => false
  | .list items => areExact items
  | .object entries => decide (entries.map (·.1)).Nodup && entriesExact entries
  | _ => true

def areExact : List Value → Bool
  | [] => true
  | v :: vs => isExact v && areExact vs

def entriesExact : List (CodePoints × Value) → Bool
  | [] => true
  | (k, v) :: entries => k == .ofText k.toText && isExact v && entriesExact entries

end

theorem isExact_list {items : List Value} :
    (list items).isExact = true ↔ ∀ v ∈ items, v.isExact = true := by
  rw [isExact]
  induction items with
  | nil => simp [areExact]
  | cons v items ih => rw [areExact, Bool.and_eq_true, ih, List.forall_mem_cons]

theorem isExact_object {entries : List (CodePoints × Value)} :
    (object entries).isExact = true ↔
      (entries.map (·.1)).Nodup ∧
        ∀ x ∈ entries, x.1 = .ofText x.1.toText ∧ x.2.isExact = true := by
  have hentries : entriesExact entries = true ↔
      ∀ x ∈ entries, x.1 = .ofText x.1.toText ∧ x.2.isExact = true := by
    induction entries with
    | nil => simp [entriesExact]
    | cons x entries ih =>
      rw [entriesExact, Bool.and_eq_true, Bool.and_eq_true, beq_iff_eq, ih, List.forall_mem_cons]
  rw [isExact, Bool.and_eq_true, decide_eq_true_iff, hentries]

/-- A new key comes last. -/
theorem putEntry_of_not_mem {k : CodePoints} {entries : List (CodePoints × Value)}
    (h : k ∉ entries.map (·.1)) (v : Value) : putEntry k v entries = entries ++ [(k, v)] := by
  induction entries with
  | nil => rfl
  | cons x entries ih =>
    obtain ⟨hne, hrest⟩ := not_or.mp fun hmem => h (List.mem_cons.mpr hmem)
    rw [putEntry, if_neg (Ne.symm hne), ih hrest, List.cons_append]

theorem ofCodePoints_ofText (s : String) : ofCodePoints (.ofText s) = text s := by
  have hplain : (CodePoints.ofText s).holdsSurrogate = false :=
    List.any_eq_false.mpr fun n hn => by
      rw [CodePoints.isSurrogate_ofText hn]
      exact Bool.false_ne_true
  rw [ofCodePoints, hplain, if_neg Bool.false_ne_true, CodePoints.toText_ofText]

end Value

namespace Json

/-! ## Strings -/

theorem hexValue?_digitChar : ∀ m < 16, hexValue? (Nat.digitChar m) = some m := by decide

theorem hexFour?_hexDigits {n : Nat} (h : n < 0x10000) (rest : List Char) :
    hexFour? (Text.hexDigits 4 n ++ rest) = some (n, rest) := by
  have hdigit : ∀ m : Nat, hexValue? (Nat.digitChar (m % 16)) = some (m % 16) := fun m =>
    hexValue?_digitChar _ (Nat.mod_lt m (by decide))
  simp only [Text.hexDigits, List.nil_append, List.cons_append, hexFour?, hdigit,
    Option.bind_eq_bind, Option.bind_some, Option.some.injEq, Prod.mk.injEq, and_true]
  omega

/-- **A character is read back from its escape.** -/
theorem stringBody?_escapeChar (fuel : Nat) (c : Char) (rest : List Char) :
    stringBody? (fuel + 1) (escapeChar c ++ rest) =
      (stringBody? fuel rest).map fun (body, rest) => (c.toNat :: body, rest) := by
  have hescape : ∀ cs, escape? cs = some (c.toNat, rest) →
      stringBody? (fuel + 1) (backslash :: cs) =
        (stringBody? fuel rest).map fun (body, rest) => (c.toNat :: body, rest) := by
    intro cs hcs
    rw [stringBody?, if_neg (by decide), if_pos rfl, hcs]
  rw [escapeChar]
  split_ifs with hmark hline hreturn htab hback hfeed hcontrol
  · refine hescape (c :: rest) ?_
    rw [escape?, if_pos (hmark.imp_right Or.inl)]
  · subst hline
    exact hescape ('n' :: rest) rfl
  · subst hreturn
    exact hescape ('r' :: rest) rfl
  · subst htab
    exact hescape ('t' :: rest) rfl
  · subst hback
    exact hescape ('b' :: rest) rfl
  · subst hfeed
    exact hescape ('f' :: rest) rfl
  · refine hescape ('u' :: (Text.hexDigits 4 c.toNat ++ rest)) ?_
    have hhigh : Text.isHighSurrogate c.toNat = false := by
      simp only [Text.isHighSurrogate, Bool.and_eq_false_iff, decide_eq_false_iff_not]
      omega
    have hunicode : unicodeEscape? (Text.hexDigits 4 c.toNat ++ rest) = some (c.toNat, rest) := by
      rw [unicodeEscape?, hexFour?_hexDigits (by omega)]
      simp only [hhigh]
      rfl
    exact hunicode
  · obtain ⟨hquote, hslash⟩ := not_or.mp hmark
    rw [List.singleton_append, stringBody?, if_neg hquote, if_neg hslash, if_neg hcontrol]

theorem length_le_escaped (cs : List Char) : cs.length ≤ (cs.flatMap escapeChar).length := by
  induction cs with
  | nil => exact Nat.le_refl 0
  | cons c cs ih =>
    have hpos : 0 < (escapeChar c).length := by
      rw [escapeChar]
      split_ifs <;> simp
    rw [List.flatMap_cons, List.length_append, List.length_cons]
    omega

/-- **A text is read back from between its quotation marks.** -/
theorem stringBody?_escaped {fuel : Nat} (cs rest : List Char) (h : cs.length < fuel) :
    stringBody? fuel (cs.flatMap escapeChar ++ quotationMark :: rest) =
      some (cs.map Char.toNat, rest) := by
  induction cs generalizing fuel with
  | nil =>
    obtain ⟨fuel, rfl⟩ := Nat.exists_eq_add_one.mpr h
    rw [List.flatMap_nil, List.nil_append, stringBody?, if_pos rfl]
    rfl
  | cons c cs ih =>
    rw [List.length_cons] at h
    obtain ⟨fuel, rfl⟩ := Nat.exists_eq_add_one.mpr (Nat.zero_lt_of_lt h)
    rw [List.flatMap_cons, List.append_assoc, stringBody?_escapeChar,
      ih (Nat.succ_lt_succ_iff.mp h)]
    rfl

theorem toList_string (s : String) :
    (string s).toList = quotationMark :: (s.toList.flatMap escapeChar ++ [quotationMark]) := by
  rw [string, String.toList_ofList]
  rfl

/-- The fuel for a string is at most the number of its characters without the first one. -/
theorem stringRest_string (depth : Nat) {fuel : Nat} (s : String) (rest : List Char)
    (h : (string s).toList.length ≤ fuel + 1) :
    stringRest depth fuel (s.toList.flatMap escapeChar ++ quotationMark :: rest) =
      .ok (.ofText s, rest) := by
  have hlength := length_le_escaped s.toList
  rw [toList_string, List.length_cons, List.length_append, List.length_singleton] at h
  rw [stringRest, stringBody?_escaped s.toList rest (by omega)]
  rfl

/-! ## Numerals -/

/-- What may follow a value. A numeral in front of it ends there. -/
def Closes (rest : List Char) : Prop :=
  ∀ c ∈ rest.head?, c = '\n' ∨ c = ',' ∨ c = ']' ∨ c = '\x7d'

section Numbers

variable {rest : List Char}

theorem fraction_of_closes (h : Closes rest) : fraction rest = ([], rest) := by
  cases rest with
  | nil => rfl
  | cons c rest => rcases h c rfl with rfl | rfl | rfl | rfl <;> rfl

theorem exponent_of_closes (h : Closes rest) : exponent rest = ([], rest) := by
  cases rest with
  | nil => rfl
  | cons c rest =>
    have hmark : ¬(c = 'e' ∨ c = 'E') := by
      rcases h c rfl with rfl | rfl | rfl | rfl <;> decide
    rw [exponent]
    simp only [hmark, false_and, if_false]

theorem takeWhile_of_closes (h : Closes rest) : rest.takeWhile Text.isAsciiDigit = [] := by
  cases rest with
  | nil => rfl
  | cons c rest => rcases h c rfl with rfl | rfl | rfl | rfl <;> rfl

/-- Only the numeral of zero starts with a zero. -/
theorem eq_zero_of_head?_repr {n : Nat} (h : n.repr.toList.head? = some '0') : n = 0 := by
  rw [Nat.repr_eq_ofList_toDigits, String.toList_ofList] at h
  induction n using Nat.strongRecOn with
  | ind n ih =>
    by_cases hn : n < 10
    · rw [Nat.toDigits_of_lt_base hn] at h
      have hzero : ∀ m < 10, [Nat.digitChar m].head? = some '0' → m = 0 := by decide
      exact hzero n hn h
    · rw [Nat.toDigits_of_base_le (by decide) (Nat.not_lt.mp hn),
        List.head?_append_of_ne_nil _ Nat.toDigits_ne_nil] at h
      have hquotient := ih (n / 10) (by omega) h
      omega

/-- **A natural number is read back from its numeral.** -/
theorem unsigned_repr (negative : Bool) {n : Nat} (hn : IsShort n) (h : Closes rest) :
    unsigned negative (n.repr.toList ++ rest) =
      .ok (.int (if negative then -(n : Int) else n), rest) := by
  obtain ⟨hne, hdigits⟩ := spells_repr n
  have hrun : (n.repr.toList ++ rest).takeWhile Text.isAsciiDigit = n.repr.toList := by
    rw [List.takeWhile_append_of_pos hdigits, takeWhile_of_closes h, List.append_nil]
  have hwhole : (if n.repr.toList.head? = some '0' then ['0'] else n.repr.toList) =
      n.repr.toList := by
    split_ifs with hzero
    · rw [eq_zero_of_head?_repr hzero]
      rfl
    · rfl
  have hlength : ¬n.repr.toList.length > Text.digitLimit := Nat.not_lt.mpr (Text.length_repr_le hn)
  rw [unsigned]
  simp only [hrun, hwhole, List.isEmpty_iff, hne, if_false, List.drop_left, fraction_of_closes h,
    exponent_of_closes h, List.isEmpty_nil, Bool.and_self, if_true, hlength, ofAsciiDigits_repr]

end Numbers

/-! ## Pieces -/

/-- The characters of the pieces of a text. -/
def chars (pieces : List String) : List Char := pieces.flatMap String.toList

@[simp] theorem chars_nil : chars [] = [] := rfl

@[simp] theorem chars_cons (s : String) (pieces : List String) :
    chars (s :: pieces) = s.toList ++ chars pieces :=
  List.flatMap_cons

@[simp] theorem chars_append (pieces others : List String) :
    chars (pieces ++ others) = chars pieces ++ chars others :=
  List.flatMap_append

theorem isGap_of_mem_lineBreak {indent : Option Nat} {level : Nat} :
    ∀ c ∈ (lineBreak indent level).toList, isGap c = true := by
  cases indent with
  | none => simp [lineBreak]
  | some width =>
    rw [lineBreak, String.toList_ofList, List.forall_mem_cons]
    refine ⟨rfl, fun c hc => ?_⟩
    rw [List.eq_of_mem_replicate hc]
    rfl

theorem closes_lineBreak (indent : Option Nat) (level : Nat) {c : Char} (rest : List Char)
    (hc : c = ']' ∨ c = '\x7d') : Closes ((lineBreak indent level).toList ++ c :: rest) := by
  cases indent with
  | none =>
    rintro d ⟨⟩
    exact Or.inr (Or.inr hc)
  | some width =>
    rw [lineBreak, String.toList_ofList]
    rintro d ⟨⟩
    exact Or.inl rfl

/-- A separator is a comma and gaps. -/
theorem exists_separator (indent : Option Nat) (level : Nat) :
    ∃ gaps, (separator indent level).toList = ',' :: gaps ∧ ∀ c ∈ gaps, isGap c = true := by
  cases indent with
  | none => exact ⟨[' '], by simp [separator], List.forall_mem_singleton.mpr rfl⟩
  | some width =>
    refine ⟨(lineBreak (some width) level).toList, ?_, isGap_of_mem_lineBreak⟩
    rw [separator, String.toList_append]
    rfl

theorem closes_comma (rest : List Char) : Closes (',' :: rest) := by
  rintro c ⟨⟩
  exact Or.inr (Or.inl rfl)

theorem skipGaps_cons {c : Char} (hc : isGap c = false) (rest : List Char) :
    skipGaps (c :: rest) = c :: rest :=
  List.dropWhile_cons_of_neg (by simp [hc])

theorem skipGaps_append {gaps : List Char} (hgaps : ∀ c ∈ gaps, isGap c = true) {c : Char}
    (hc : isGap c = false) (rest : List Char) : skipGaps (gaps ++ c :: rest) = c :: rest := by
  rw [skipGaps, List.dropWhile_append_of_pos hgaps]
  exact skipGaps_cons hc rest

/-- The first character of a value is no gap, and closes no list. -/
def Starts (cs : List Char) : Prop := ∃ c rest, cs = c :: rest ∧ isGap c = false ∧ c ≠ ']'

theorem Starts.length_pos {cs : List Char} (h : Starts cs) : 0 < cs.length := by
  obtain ⟨c, rest, rfl, -⟩ := h
  exact Nat.zero_lt_succ _

theorem Starts.skipGaps {cs gaps : List Char} (h : Starts cs) (hgaps : ∀ c ∈ gaps, isGap c = true)
    (rest : List Char) : Json.skipGaps (gaps ++ (cs ++ rest)) = cs ++ rest := by
  obtain ⟨c, cs, rfl, hc, -⟩ := h
  exact skipGaps_append hgaps hc _

/-- The numeral of an integer is that of a natural number, with or without a minus sign. -/
theorem toList_numeral (z : Int) :
    (∃ n : Nat, z = n ∧ (Text.numeral z).toList = n.repr.toList) ∨
      ∃ n : Nat, z = -(n : Int) ∧ (Text.numeral z).toList = '-' :: n.repr.toList := by
  cases z with
  | ofNat n => exact Or.inl ⟨n, rfl, rfl⟩
  | negSucc n =>
    refine Or.inr ⟨n + 1, rfl, ?_⟩
    rw [Text.numeral, String.toList_append]
    rfl

theorem exists_repr (n : Nat) :
    ∃ c rest, n.repr.toList = c :: rest ∧ Text.isAsciiDigit c = true := by
  obtain ⟨hne, hdigits⟩ := spells_repr n
  obtain ⟨c, rest, hrepr⟩ := List.exists_cons_of_ne_nil hne
  exact ⟨c, rest, hrepr, hdigits c (hrepr ▸ List.mem_cons_self)⟩

theorem not_isGap_of_isAsciiDigit {c : Char} (h : Text.isAsciiDigit c = true) :
    isGap c = false := by
  refine Bool.eq_false_iff.mpr fun hgap => ?_
  simp only [isGap, Bool.or_eq_true, beq_iff_eq] at hgap
  rcases hgap with ((rfl | rfl) | rfl) | rfl <;> cases h

theorem starts_numeral (z : Int) : Starts (Text.numeral z).toList := by
  obtain ⟨n, -, hnumeral⟩ | ⟨n, -, hnumeral⟩ := toList_numeral z
  · obtain ⟨c, rest, hrepr, hc⟩ := exists_repr n
    refine ⟨c, rest, hnumeral.trans hrepr, not_isGap_of_isAsciiDigit hc, ?_⟩
    rintro rfl
    cases hc
  · exact ⟨'-', _, hnumeral, rfl, by decide⟩

theorem starts_string (s : String) : Starts (string s).toList :=
  ⟨quotationMark, _, toList_string s, rfl, by decide⟩

theorem render_int {indent : Option Nat} {level : Nat} {z : Int} {pieces : List String}
    (h : render indent level (.int z) = .ok pieces) :
    IsShort z ∧ pieces = [Text.numeral z] := by
  obtain ⟨shown, hshown, rfl⟩ := map_eq_ok.mp h
  have hz : IsShort z := (Text.writes_writeInteger z).exists_ok_iff.mp ⟨shown, hshown⟩
  rw [Text.writeInteger_of_isShort hz] at hshown
  cases hshown
  exact ⟨hz, rfl⟩

theorem starts_render {indent : Option Nat} {level : Nat} {v : Value} {pieces : List String}
    (hexact : v.isExact = true) (h : render indent level v = .ok pieces) :
    Starts (chars pieces) := by
  cases v with
  | null =>
    cases h
    exact ⟨'n', _, rfl, rfl, by decide⟩
  | bool b =>
    cases h
    cases b with
    | true => exact ⟨'t', _, rfl, rfl, by decide⟩
    | false => exact ⟨'f', _, rfl, rfl, by decide⟩
  | int z =>
    obtain ⟨-, rfl⟩ := render_int h
    rw [chars_cons, chars_nil, List.append_nil]
    exact starts_numeral z
  | text s =>
    cases h
    rw [chars_cons, chars_nil, List.append_nil]
    exact starts_string s
  | real x | codePoints t | element x => cases hexact
  | list items =>
    cases items with
    | nil =>
      cases h
      exact ⟨'[', _, rfl, rfl, by decide⟩
    | cons w ws =>
      obtain ⟨first, -, h⟩ := bind_eq_ok.mp h
      obtain ⟨others, -, h⟩ := bind_eq_ok.mp h
      cases h
      exact ⟨'[', _, rfl, rfl, by decide⟩
  | object entries =>
    cases entries with
    | nil =>
      cases h
      exact ⟨'\x7b', _, rfl, rfl, by decide⟩
    | cons x entries =>
      obtain ⟨first, -, h⟩ := bind_eq_ok.mp h
      obtain ⟨others, -, h⟩ := bind_eq_ok.mp h
      cases h
      exact ⟨'\x7b', _, rfl, rfl, by decide⟩

/-! ## Values -/

section Opening

variable {depth fuel : Nat} {c : Char} {cs : List Char}

/-- What starts with another character is no word. -/
theorem not_word (h : c ∉ ['n', 't', 'f', 'N', 'I', '-']) (cs : List Char) :
    word? words (c :: cs) = none ∧ word? numberWords (c :: cs) = none := by
  simp only [List.mem_cons, List.not_mem_nil, or_false, not_or] at h
  obtain ⟨hn, ht, hf, hN, hI, hminus⟩ := h
  simp [word?, words, numberWords, List.isPrefixOf, Ne.symm hn, Ne.symm ht, Ne.symm hf,
    Ne.symm hN, Ne.symm hI, Ne.symm hminus]

theorem value_quotationMark (depth fuel : Nat) (cs : List Char) :
    value depth (fuel + 1) (quotationMark :: cs) =
      (stringRest depth fuel cs).map fun (t, rest) => (.ofCodePoints t, rest) := by
  obtain ⟨hword, hnumber⟩ := not_word (c := quotationMark) (by decide) cs
  rw [value, hword, hnumber]
  exact if_pos rfl

theorem value_of_listItems {gaps after rest : List Char} {items : List Value}
    (hgaps : ∀ c ∈ gaps, isGap c = true) (hcs : Starts cs)
    (h : listItems depth fuel (cs ++ after) = .ok (items, rest)) :
    value (depth + 1) (fuel + 1) ('[' :: (gaps ++ (cs ++ after))) = .ok (.list items, rest) := by
  obtain ⟨hword, hnumber⟩ := not_word (c := '[') (by decide) (gaps ++ (cs ++ after))
  have hopen : enter .array (depth + 1) = .ok depth := rfl
  rw [value, hword, hnumber]
  dsimp only
  rw [if_neg (by decide), if_pos rfl, hopen, ok_bind, hcs.skipGaps hgaps]
  obtain ⟨c, cs, rfl, -, hc⟩ := hcs
  split
  · next heq =>
    cases heq
    exact absurd rfl hc
  · rw [h, ok_bind]

theorem value_of_objectEntries {gaps rest : List Char} {entries : List (CodePoints × Value)}
    (hgaps : ∀ c ∈ gaps, isGap c = true)
    (h : objectEntries depth fuel [] (quotationMark :: cs) = .ok (entries, rest)) :
    value (depth + 1) (fuel + 1) ('\x7b' :: (gaps ++ quotationMark :: cs)) =
      .ok (.object entries, rest) := by
  obtain ⟨hword, hnumber⟩ := not_word (c := '\x7b') (by decide) (gaps ++ quotationMark :: cs)
  have hopen : enter .object (depth + 1) = .ok depth := rfl
  rw [value, hword, hnumber]
  dsimp only
  rw [if_neg (by decide), if_neg (by decide), if_pos rfl, hopen, ok_bind,
    skipGaps_append hgaps rfl]
  change (objectEntries depth fuel [] (quotationMark :: cs) >>= _) = _
  rewrite [h]
  rfl

theorem ne_of_isAsciiDigit {d : Char} (hc : Text.isAsciiDigit c = true)
    (hd : Text.isAsciiDigit d = false) : c ≠ d := by
  rintro rfl
  cases hc.symm.trans hd

theorem value_digit (hc : Text.isAsciiDigit c = true) :
    value depth (fuel + 1) (c :: cs) = unsigned false (c :: cs) := by
  have hfirst : ∀ d ∈ ['n', 't', 'f', 'N', 'I', '-'], (!Text.isAsciiDigit d) = true :=
    List.all_eq_true.mp rfl
  obtain ⟨hword, hnumber⟩ :=
    not_word (fun hmem => ne_of_isAsciiDigit hc (by simpa using hfirst c hmem) rfl) cs
  rw [value, hword, hnumber]
  dsimp only
  rw [if_neg (ne_of_isAsciiDigit hc rfl), if_neg (ne_of_isAsciiDigit hc rfl),
    if_neg (ne_of_isAsciiDigit hc rfl), if_neg (ne_of_isAsciiDigit hc rfl)]

theorem value_minus (hc : Text.isAsciiDigit c = true) :
    value depth (fuel + 1) ('-' :: c :: cs) = unsigned true (c :: cs) := by
  have hword : word? words ('-' :: c :: cs) = none := by
    simp [word?, words, List.isPrefixOf]
  have hnumber : word? numberWords ('-' :: c :: cs) = none := by
    have hI : 'I' ≠ c := Ne.symm (ne_of_isAsciiDigit hc rfl)
    simp [word?, numberWords, List.isPrefixOf, hI]
  rw [value, hword, hnumber]
  rfl

/-- **An integer is read back from its numeral.** -/
theorem value_numeral {z : Int} {rest : List Char} (hz : IsShort z) (h : Closes rest) :
    value depth (fuel + 1) ((Text.numeral z).toList ++ rest) = .ok (.int z, rest) := by
  obtain ⟨n, rfl, hnumeral⟩ | ⟨n, rfl, hnumeral⟩ := toList_numeral z
  · have hread := unsigned_repr false hz h
    obtain ⟨c, digits, hrepr, hc⟩ := exists_repr n
    rw [hnumeral]
    rw [hrepr, List.cons_append] at hread ⊢
    rw [value_digit hc, hread]
    rfl
  · have hn : IsShort n := Text.isShort_of_natAbs_le (Int.natAbs_neg _).ge hz
    have hread := unsigned_repr true hn h
    obtain ⟨c, digits, hrepr, hc⟩ := exists_repr n
    rw [hnumeral, List.cons_append]
    rw [hrepr, List.cons_append] at hread ⊢
    rw [value_minus hc, hread]
    rfl

end Opening

/-! ## Reading back -/

theorem nesting_le_nestingItems {v : Value} {items : List Value} (hv : v ∈ items) :
    nesting v ≤ nestingItems items := by
  induction items with
  | nil => cases hv
  | cons w items ih =>
    rw [nestingItems]
    obtain rfl | hv := List.mem_cons.mp hv
    · exact Nat.le_max_left _ _
    · exact Nat.le_trans (ih hv) (Nat.le_max_right _ _)

theorem nesting_le_nestingEntries {x : CodePoints × Value} {entries : List (CodePoints × Value)}
    (hx : x ∈ entries) : nesting x.2 ≤ nestingEntries entries := by
  induction entries with
  | nil => cases hx
  | cons y entries ih =>
    rw [nestingEntries]
    obtain rfl | hx := List.mem_cons.mp hx
    · exact Nat.le_max_left _ _
    · exact Nat.le_trans (ih hx) (Nat.le_max_right _ _)

/-- What is read back with so much fuel: a value, the items of a list, the entries of an object. -/
structure ReadsBack (indent : Option Nat) (fuel : Nat) : Prop where
  value : ∀ {depth level v pieces rest}, v.isExact = true → nesting v < depth →
    render indent level v = .ok pieces → (chars pieces).length ≤ fuel → Closes rest →
    Json.value depth fuel (chars pieces ++ rest) = .ok (v, rest)
  items : ∀ {depth level outer v vs first others rest},
    (∀ w ∈ v :: vs, w.isExact = true ∧ nesting w < depth) →
    render indent level v = .ok first → renderItems indent level vs = .ok others →
    (chars first).length + (chars others).length < fuel →
    listItems depth fuel (chars first ++ (chars others ++
      ((lineBreak indent outer).toList ++ ']' :: rest))) = .ok (v :: vs, rest)
  entries : ∀ {depth level outer read k v entries first others rest},
    ((read ++ (k, v) :: entries).map (·.1)).Nodup →
    (∀ x ∈ (k, v) :: entries,
      (x.1 = .ofText x.1.toText ∧ x.2.isExact = true) ∧ nesting x.2 < depth) →
    render indent level v = .ok first → renderEntries indent level entries = .ok others →
    (string k.toText).toList.length + (chars first).length + (chars others).length < fuel →
    objectEntries depth fuel read ((string k.toText).toList ++ (':' :: ' ' :: (chars first ++
      (chars others ++ ((lineBreak indent outer).toList ++ '\x7d' :: rest))))) =
      .ok (read ++ (k, v) :: entries, rest)

section Steps

variable {indent : Option Nat} {fuel depth level outer : Nat} {rest : List Char}

theorem ReadsBack.items_succ (ih : ReadsBack indent fuel) {v : Value} {vs : List Value}
    {first others : List String} (hvs : ∀ w ∈ v :: vs, w.isExact = true ∧ nesting w < depth)
    (hfirst : render indent level v = .ok first)
    (hothers : renderItems indent level vs = .ok others)
    (hfuel : (chars first).length + (chars others).length < fuel + 1) :
    listItems depth (fuel + 1) (chars first ++ (chars others ++
      ((lineBreak indent outer).toList ++ ']' :: rest))) = .ok (v :: vs, rest) := by
  obtain ⟨⟨hv, hdepth⟩, hvs⟩ := List.forall_mem_cons.mp hvs
  have hpos := (starts_render hv hfirst).length_pos
  rw [listItems]
  cases vs with
  | nil =>
    cases hothers
    have hclose := closes_lineBreak indent outer rest (Or.inl rfl)
    rw [chars_nil, List.nil_append, ih.value hv hdepth hfirst (by omega) hclose, ok_bind]
    dsimp only
    rw [skipGaps_append isGap_of_mem_lineBreak rfl]
    rfl
  | cons w ws =>
    obtain ⟨second, hsecond, hothers⟩ := bind_eq_ok.mp hothers
    obtain ⟨later, hlater, hothers⟩ := bind_eq_ok.mp hothers
    cases hothers
    obtain ⟨gaps, hseparator, hgaps⟩ := exists_separator indent level
    have hstarts := starts_render (hvs w List.mem_cons_self).1 hsecond
    simp only [List.cons_append, chars_cons, chars_append, hseparator, List.append_assoc,
      List.length_cons, List.length_append] at hfuel ⊢
    rw [ih.value hv hdepth hfirst (by omega) (closes_comma _), ok_bind]
    dsimp only
    rw [skipGaps_cons rfl]
    change (listItems depth fuel (skipGaps (gaps ++ _)) >>= _) = _
    rw [hstarts.skipGaps hgaps, ih.items hvs hsecond hlater (by omega)]
    rfl

/-- An entry is read, and the list of those before it grows at its end. What follows is the end of
the object, or another entry. -/
theorem objectEntries_entry {k : CodePoints} {v : Value} {read : List (CodePoints × Value)}
    {cs after : List Char} (hk : k = .ofText k.toText)
    (hfuel : (string k.toText).toList.length ≤ fuel + 1)
    (hnew : k ∉ read.map (·.1)) (hcs : Starts cs)
    (hv : value depth fuel (cs ++ after) = .ok (v, after)) :
    (skipGaps after = '\x7d' :: rest →
      objectEntries depth (fuel + 1) read
        ((string k.toText).toList ++ (':' :: ' ' :: (cs ++ after))) =
          .ok (read ++ [(k, v)], rest)) ∧
    (skipGaps after = ',' :: rest →
      objectEntries depth (fuel + 1) read
        ((string k.toText).toList ++ (':' :: ' ' :: (cs ++ after))) =
          objectEntries depth fuel (read ++ [(k, v)]) (skipGaps rest)) := by
  have hgap : skipGaps ([' '] ++ (cs ++ after)) = cs ++ after :=
    hcs.skipGaps (List.forall_mem_singleton.mpr rfl) after
  have hput := Value.putEntry_of_not_mem hnew v
  rw [toList_string, List.cons_append, List.append_assoc, List.singleton_append, objectEntries,
    if_pos rfl, stringRest_string depth k.toText _ hfuel, ← hk, ok_bind]
  dsimp only
  rw [skipGaps_cons rfl]
  refine ⟨fun hafter => ?_, fun hafter => ?_⟩
  all_goals
    change (value depth fuel (skipGaps ([' '] ++ (cs ++ after))) >>= _) = _
    rw [hgap, hv, ok_bind]
    dsimp only
    rewrite [hafter, hput]
    rfl

theorem ReadsBack.entries_succ (ih : ReadsBack indent fuel) {read : List (CodePoints × Value)}
    {k : CodePoints} {v : Value} {entries : List (CodePoints × Value)}
    {first others : List String}
    (hkeys : ((read ++ (k, v) :: entries).map (·.1)).Nodup)
    (hentries : ∀ x ∈ (k, v) :: entries,
      (x.1 = .ofText x.1.toText ∧ x.2.isExact = true) ∧ nesting x.2 < depth)
    (hfirst : render indent level v = .ok first)
    (hothers : renderEntries indent level entries = .ok others)
    (hfuel : (string k.toText).toList.length + (chars first).length + (chars others).length <
      fuel + 1) :
    objectEntries depth (fuel + 1) read ((string k.toText).toList ++ (':' :: ' ' :: (chars first ++
      (chars others ++ ((lineBreak indent outer).toList ++ '\x7d' :: rest))))) =
      .ok (read ++ (k, v) :: entries, rest) := by
  obtain ⟨⟨⟨(hk : k = .ofText k.toText), hv⟩, hdepth⟩, hentries⟩ :=
    List.forall_mem_cons.mp hentries
  have hstarts := starts_render hv hfirst
  have hpos := hstarts.length_pos
  have hnew : k ∉ read.map (·.1) := by
    rw [List.map_append, List.map_cons, List.nodup_append] at hkeys
    exact fun hmem => hkeys.2.2 k hmem k List.mem_cons_self rfl
  cases entries with
  | nil =>
    cases hothers
    have hclose := closes_lineBreak indent outer rest (Or.inr rfl)
    rw [chars_nil, List.nil_append]
    have hread := ih.value hv hdepth hfirst (by omega) hclose
    exact (objectEntries_entry hk (by omega) hnew hstarts hread).1
      (skipGaps_append isGap_of_mem_lineBreak rfl _)
  | cons x entries =>
    obtain ⟨k', v'⟩ := x
    obtain ⟨second, hsecond, hothers⟩ := bind_eq_ok.mp hothers
    obtain ⟨later, hlater, hothers⟩ := bind_eq_ok.mp hothers
    cases hothers
    obtain ⟨gaps, hseparator, hgaps⟩ := exists_separator indent level
    simp only [List.cons_append, chars_cons, chars_append, hseparator, List.append_assoc,
      List.length_cons, List.length_append] at hfuel ⊢
    have hread := fun rest => ih.value hv hdepth hfirst (by omega) (closes_comma rest)
    rw [(objectEntries_entry hk (by omega) hnew hstarts (hread _)).2 (skipGaps_cons rfl _)]
    rw [List.append_cons read] at hkeys
    rw [List.append_cons read (k, v) (_ :: _), (starts_string k'.toText).skipGaps hgaps]
    exact ih.entries hkeys hentries hsecond hlater (by omega)

theorem ReadsBack.list_succ (ih : ReadsBack indent fuel) {items : List Value}
    {pieces : List String} (hexact : (Value.list items).isExact = true)
    (hdepth : nesting (.list items) < depth)
    (hpieces : render indent level (.list items) = .ok pieces)
    (hfuel : (chars pieces).length ≤ fuel + 1) :
    Json.value depth (fuel + 1) (chars pieces ++ rest) = .ok (.list items, rest) := by
  obtain ⟨depth, rfl⟩ := Nat.exists_eq_add_one.mpr (Nat.zero_lt_of_lt hdepth)
  cases items with
  | nil =>
    cases hpieces
    rfl
  | cons v vs =>
    obtain ⟨first, hfirst, hpieces⟩ := bind_eq_ok.mp hpieces
    obtain ⟨others, hothers, hpieces⟩ := bind_eq_ok.mp hpieces
    cases hpieces
    have hitems : ∀ w ∈ v :: vs, w.isExact = true ∧ nesting w < depth := fun w hw => by
      have hle := nesting_le_nestingItems hw
      rw [nesting] at hdepth
      rw [nestingItems] at hle
      exact ⟨Value.isExact_list.mp hexact w hw, by omega⟩
    have hstarts := starts_render (hitems v List.mem_cons_self).1 hfirst
    simp only [List.cons_append, chars_cons, chars_append, chars_nil, List.append_nil,
      List.append_assoc, List.length_append] at hfuel ⊢
    have hopen : "[".toList.length = 1 := rfl
    have hclose : "]".toList.length = 1 := rfl
    change Json.value _ _ ('[' :: ((lineBreak indent (level + 1)).toList ++ (chars first ++ _))) = _
    exact value_of_listItems isGap_of_mem_lineBreak hstarts
      (ih.items hitems hfirst hothers (by omega))

theorem ReadsBack.object_succ (ih : ReadsBack indent fuel) {entries : List (CodePoints × Value)}
    {pieces : List String} (hexact : (Value.object entries).isExact = true)
    (hdepth : nesting (.object entries) < depth)
    (hpieces : render indent level (.object entries) = .ok pieces)
    (hfuel : (chars pieces).length ≤ fuel + 1) :
    Json.value depth (fuel + 1) (chars pieces ++ rest) = .ok (.object entries, rest) := by
  obtain ⟨depth, rfl⟩ := Nat.exists_eq_add_one.mpr (Nat.zero_lt_of_lt hdepth)
  cases entries with
  | nil =>
    cases hpieces
    rfl
  | cons x entries =>
    obtain ⟨k, v⟩ := x
    obtain ⟨first, hfirst, hpieces⟩ := bind_eq_ok.mp hpieces
    obtain ⟨others, hothers, hpieces⟩ := bind_eq_ok.mp hpieces
    cases hpieces
    obtain ⟨hkeys, hvalues⟩ := Value.isExact_object.mp hexact
    have hentries : ∀ x ∈ (k, v) :: entries,
        (x.1 = .ofText x.1.toText ∧ x.2.isExact = true) ∧ nesting x.2 < depth := fun x hx => by
      have hle := nesting_le_nestingEntries hx
      rw [nesting] at hdepth
      rw [nestingEntries] at hle
      exact ⟨hvalues x hx, by omega⟩
    simp only [List.cons_append, chars_cons, chars_append, chars_nil, List.append_nil,
      List.append_assoc, List.length_append] at hfuel ⊢
    have hopen : "\x7b".toList.length = 1 := rfl
    have hclose : "\x7d".toList.length = 1 := rfl
    change Json.value _ _ ('\x7b' :: ((lineBreak indent (level + 1)).toList ++ _)) = _
    rw [toList_string, List.cons_append]
    refine value_of_objectEntries isGap_of_mem_lineBreak ?_
    rw [← List.cons_append, ← toList_string]
    exact ih.entries hkeys hentries hfirst hothers (by omega)

/-- One case for each constructor. -/
theorem ReadsBack.value_succ (ih : ReadsBack indent fuel) {v : Value} {pieces : List String}
    (hexact : v.isExact = true) (hdepth : nesting v < depth)
    (hpieces : render indent level v = .ok pieces) (hfuel : (chars pieces).length ≤ fuel + 1)
    (hclose : Closes rest) :
    Json.value depth (fuel + 1) (chars pieces ++ rest) = .ok (v, rest) := by
  cases v with
  | null =>
    cases hpieces
    rfl
  | bool b =>
    cases hpieces
    cases b with
    | true => rfl
    | false => rfl
  | int z =>
    obtain ⟨hz, rfl⟩ := render_int hpieces
    rw [chars_cons, chars_nil, List.append_nil]
    exact value_numeral hz hclose
  | text s =>
    cases hpieces
    rw [chars_cons, chars_nil, List.append_nil] at hfuel ⊢
    have hread := stringRest_string depth s rest hfuel
    rw [toList_string, List.cons_append, List.append_assoc, List.singleton_append,
      value_quotationMark, hread]
    exact congrArg (fun v => Except.ok (v, rest)) (Value.ofCodePoints_ofText s)
  | real x | codePoints t | element x => cases hexact
  | list items => exact ih.list_succ hexact hdepth hpieces hfuel
  | object entries => exact ih.object_succ hexact hdepth hpieces hfuel

end Steps

theorem readsBack (indent : Option Nat) (fuel : Nat) : ReadsBack indent fuel := by
  induction fuel with
  | zero =>
    refine ⟨fun hexact _ hpieces hfuel _ => ?_, fun _ _ _ hfuel => ?_, fun _ _ _ _ hfuel => ?_⟩
    · exact absurd hfuel (Nat.not_le.mpr (starts_render hexact hpieces).length_pos)
    · exact absurd hfuel (Nat.not_lt_zero _)
    · exact absurd hfuel (Nat.not_lt_zero _)
  | succ fuel ih => exact ⟨ih.value_succ, ih.items_succ, ih.entries_succ⟩

end Json

/-! ## Listings -/

namespace ListingEntry

end ListingEntry

namespace Listing

end Listing

end PlonkGates
