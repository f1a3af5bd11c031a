import PlonkGates.Disk.Load
import PlonkGates.Proofs.Parsing
import PlonkGates.Proofs.Utf8

/-!
# Reading a file

A file is decoded, its line ends are unified, and the text is read. The lexer skips carriage returns
like blanks, so unifying line ends makes no difference as long as every carriage return stands in
front of a line feed: it may join line feeds that were apart, but units count these one by one
(`Lexeme.units_unifyNewlines`). A carriage return that stands alone does make one: in a file it is a
line end (`Text.unifyNewlines_append_return`), and in a text a blank.
-/

namespace PlonkGates

/-! ## Carriage returns -/

namespace Text

/-- A text without carriage returns has its line ends unified already. -/
theorem unifyNewlines_eq_self {cs : List Char} (h : '\r' ∉ cs) : unifyNewlines cs = cs := by
  fun_induction unifyNewlines cs with
  | case1 cs ih => exact absurd List.mem_cons_self h
  | case2 cs hcs ih => exact absurd List.mem_cons_self h
  | case3 c cs hc hcs ih => rw [ih fun hmem => h (List.mem_cons_of_mem c hmem)]
  | case4 => rfl

/-- **A carriage return that stands alone is a line end**, and the text falls into the parts before
and after it. -/
theorem unifyNewlines_append_return {before after : List Char} (h : after.head? ≠ some '\n') :
    unifyNewlines (before ++ '\r' :: after) =
      unifyNewlines before ++ '\n' :: unifyNewlines after := by
  fun_induction unifyNewlines before with
  | case1 cs ih => rw [List.cons_append, List.cons_append, unifyNewlines, ih, List.cons_append]
  | case2 cs hcs ih =>
    -- the first carriage return is not in front of a line feed, as it is not in the part before
    have hrest : ∀ rest, cs ++ '\r' :: after ≠ '\n' :: rest := by
      rintro rest hrest
      cases cs with
      | nil => cases hrest
      | cons c cs => exact hcs cs (by rw [(List.cons.inj hrest).1])
    rw [List.cons_append, unifyNewlines.eq_2 _ hrest, ih, List.cons_append]
  | case3 c cs _ hc ih =>
    rw [List.cons_append, unifyNewlines.eq_3 _ _ (fun _ hreturn => (hc hreturn).elim) hc, ih,
      List.cons_append]
  | case4 =>
    have hrest : ∀ rest, after ≠ '\n' :: rest := by
      rintro rest rfl
      exact h rfl
    rw [List.nil_append, unifyNewlines.eq_2 _ hrest]
    rfl

/-- Every carriage return stands in front of a line feed. -/
def ReturnsPaired (cs : List Char) : Prop :=
  ∀ before after, cs = before ++ '\r' :: after → after.head? = some '\n'

theorem returnsPaired_nil : ReturnsPaired [] := by
  intro before after h
  simp at h

theorem returnsPaired_cons {c : Char} {cs : List Char} :
    ReturnsPaired (c :: cs) ↔ (c = '\r' → cs.head? = some '\n') ∧ ReturnsPaired cs := by
  constructor
  · intro h
    exact ⟨fun hc => h [] cs (by rw [hc]; rfl),
      fun before after hcs => h (c :: before) after (by rw [hcs]; rfl)⟩
  · rintro ⟨hc, hcs⟩ before after h
    rcases before with _ | ⟨d, before⟩
    · obtain ⟨rfl, rfl⟩ := List.cons.inj h
      exact hc rfl
    · exact hcs before after (List.cons.inj h).2

end Text

/-! ## Lexemes -/

/-- Modes that differ at most in the column and the offset of an open lexeme. -/
inductive Mode.SameLine : Mode → Mode → Prop where
  | idle : SameLine .idle .idle
  | comment : SameLine .comment .comment
  | inside {kind : LexemeKind} {reversed : List Char} {start start' : Cursor}
      (hline : start.line = start'.line) :
      SameLine (.inside kind reversed start) (.inside kind reversed start')

namespace Mode.SameLine

variable {mode mode' : Mode} {c : Char} {place place' : Cursor}

theorem units_close (h : SameLine mode mode') :
    mode.close.flatMap Lexeme.units = mode'.close.flatMap Lexeme.units := by
  cases h with
  | idle | comment => rfl
  | inside hline => simp [close, Lexeme.units, Lexeme.bare, hline]

theorem accepts_eq (h : SameLine mode mode') (c : Char) : mode'.accepts c = mode.accepts c := by
  cases h <;> rfl

theorem push (h : SameLine mode mode') (c : Char) : SameLine (mode.push c) (mode'.push c) := by
  cases h with
  | idle => exact .idle
  | comment => exact .comment
  | inside hline => exact .inside hline

theorem opening (hline : place.line = place'.line) (c : Char) :
    SameLine (Mode.opening c place) (Mode.opening c place') := by
  rw [Mode.opening, Mode.opening]
  split_ifs
  · exact .idle
  · exact .comment
  · exact .inside hline

end Mode.SameLine

namespace Lexeme

open Text (unifyNewlines ReturnsPaired returnsPaired_cons)

/-- A carriage return in front of a line feed closes what is open, or falls away with a comment. -/
theorem units_cutFrom_return (mode : Mode) (place : Cursor) (cs : List Char) :
    (cutFrom mode place ('\r' :: '\n' :: cs)).flatMap units =
      mode.close.flatMap units ++
        (cutFrom .idle (place.next '\r') ('\n' :: cs)).flatMap units := by
  cases haccepts : mode.accepts '\r' with
  | true =>
    -- only a comment goes on with a carriage return
    obtain rfl : mode = .comment := by
      cases mode with
      | idle => cases haccepts
      | comment => rfl
      | inside kind reversed start =>
        exact absurd (LexemeKind.not_gap_of_continues haccepts) (by decide)
    have hstay : Mode.comment.push '\r' = .comment := rfl
    have hline : ∀ d ∈ ('\n' :: cs).head?, Mode.comment.accepts d = false := by simp [Mode.accepts]
    rw [cutFrom_accepts haccepts, hstay, cutFrom_close hline, List.flatMap_append]
  | false =>
    rw [cutFrom_opens haccepts, List.flatMap_append]
    rfl

/-- **Unifying line ends does not change the units of a text**, if every carriage return stands in
front of a line feed. -/
theorem units_unifyNewlines {mode mode' : Mode} {place place' : Cursor} {cs : List Char}
    (hmode : mode.SameLine mode') (hline : place.line = place'.line) (h : ReturnsPaired cs) :
    (cutFrom mode place cs).flatMap units =
      (cutFrom mode' place' (unifyNewlines cs)).flatMap units := by
  fun_induction unifyNewlines cs generalizing mode mode' place place' with
  | case1 cs ih =>
    -- without the carriage return the line feed follows at once, and may go on with open line feeds
    have hclose : ∀ d ∈ ('\n' :: unifyNewlines cs).head?, mode'.accepts d = true →
        ∃ reversed start, mode' = .inside .newlines reversed start := by
      rintro d ⟨⟩ haccepts
      exact eq_newlines_of_accepts haccepts
    have hreturn : (place.next '\r').line = place'.line := (Cursor.line_next place '\r').trans hline
    have hnext : ((place.next '\r').next '\n').line = (place'.next '\n').line := by
      rw [Cursor.line_next _ '\n', hreturn, Cursor.line_next]
    have hcs := (returnsPaired_cons.mp (returnsPaired_cons.mp h).2).2
    rw [units_cutFrom_return, units_cutFrom_close hclose, hmode.units_close]
    exact congrArg (mode'.close.flatMap units ++ ·) (ih (.inside hreturn) hnext hcs)
  | case2 cs hcs ih =>
    obtain ⟨rest, rfl⟩ := List.head?_eq_some_iff.mp ((returnsPaired_cons.mp h).1 rfl)
    exact absurd rfl (hcs rest)
  | case3 c cs hc hcs ih =>
    have hrest := (returnsPaired_cons.mp h).2
    have hnext : (place.next c).line = (place'.next c).line := by
      rw [Cursor.line_next, Cursor.line_next, hline]
    cases haccepts : mode.accepts c with
    | true =>
      rw [cutFrom_accepts haccepts, cutFrom_accepts ((hmode.accepts_eq c).trans haccepts)]
      exact ih (hmode.push c) hnext hrest
    | false =>
      rw [cutFrom_opens haccepts, cutFrom_opens ((hmode.accepts_eq c).trans haccepts),
        List.flatMap_append, List.flatMap_append, hmode.units_close,
        ih (Mode.SameLine.opening hline c) hnext hrest]
  | case4 => exact hmode.units_close

end Lexeme

namespace Equation

open Text (unifyNewlines ReturnsPaired encodeUtf8)

variable {cs ds : List Char} {es : List Equation}

/-- Texts with the same units are read alike. -/
theorem parseChars_of_same_units
    (hunits : (Lexeme.cut cs).flatMap Lexeme.units = (Lexeme.cut ds).flatMap Lexeme.units)
    (h : parseChars cs = .ok es) : parseChars ds = .ok es := by
  obtain ⟨ls, hsplit, hprogram⟩ := derives_of_parseChars h
  obtain ⟨⟨last, hleads, hfinal⟩, rfl⟩ := Grammar.program_iff.mp hprogram
  exact parseChars_of_units (hunits.symm.trans (Lexeme.units_cut_eq hsplit hleads)) hsplit.spells
    hleads hfinal

/-- **Unifying line ends does not change what is read of a text**, if every carriage return stands
in front of a line feed. -/
theorem parseChars_unifyNewlines (h : ReturnsPaired cs) :
    parseChars (unifyNewlines cs) = .ok es ↔ parseChars cs = .ok es := by
  have hunits : (Lexeme.cut cs).flatMap Lexeme.units =
      (Lexeme.cut (unifyNewlines cs)).flatMap Lexeme.units :=
    Lexeme.units_unifyNewlines .idle rfl h
  exact ⟨parseChars_of_same_units hunits.symm, parseChars_of_same_units hunits⟩

/-- **Reading a file agrees with reading its text.** Bytes that encode no text are refused with the
length of their longest beginning that does, and at no place of the program. Otherwise the text is
read with its line ends unified, and if every carriage return stands in front of a line feed, this
accepts what reading the text itself does, with the same equations on the same lines. A carriage
return that stands alone is read as a line feed. -/
theorem load_agrees_with_parse {env : Environment} {d : Disk} {path : String} {bytes : List UInt8}
    (hread : d.read env (.ofText path) = .ok bytes) :
    ((¬∃ cs, encodeUtf8 cs = bytes) → ∃ failure,
      load env d path = .error (.notUtf8 path failure) ∧
      IsGreatest {n | ∃ cs, encodeUtf8 cs <+: bytes ∧ (encodeUtf8 cs).length = n}
        failure.offset ∧
      (Fault.notUtf8 path failure).message = path ++ " is not valid UTF-8 (byte " ++
        Text.numeral failure.offset ++ ": " ++ failure.reason.message ++ ")") ∧
    ∀ s : String, encodeUtf8 s.toList = bytes →
      load env d path = parse (String.ofList (unifyNewlines s.toList)) ∧
      (ReturnsPaired s.toList → ∀ es, load env d path = .ok es ↔ parse s = .ok es) ∧
      ∀ before after, s.toList = before ++ '\r' :: after → after.head? ≠ some '\n' →
        load env d path =
          parse (String.ofList (unifyNewlines before ++ '\n' :: unifyNewlines after)) := by
  have hload : load env d path = parseBytes path bytes := by rw [load, hread, ok_bind]
  rw [hload, parseBytes]
  constructor
  · intro hnot
    cases hdecode : Text.decodeUtf8 bytes with
    | ok cs => exact absurd ⟨cs, Text.decodeUtf8From_eq_ok_iff.mp hdecode⟩ hnot
    | error failure => exact ⟨failure, rfl, Text.isGreatest_offset hdecode, rfl⟩
  · rintro s rfl
    have hdecode : Text.decodeUtf8 (encodeUtf8 s.toList) = .ok s.toList :=
      Text.decodeUtf8From_encodeUtf8 s.toList 0
    rw [hdecode]
    refine ⟨?_, fun hpaired es => parseChars_unifyNewlines hpaired,
      fun before after hs hafter => ?_⟩
    · rw [parse, String.toList_ofList]
    · rw [parse, String.toList_ofList, ← Text.unifyNewlines_append_return hafter, ← hs]

/-- Two equations with an empty line between them. -/
def pairedText : String := "x=y\r\n\r\nu=0"

/-- Two equations with a carriage return between them that stands alone. -/
def loneText : String := "x=y\ru=0"

/-- The second byte of the first file is not continued by the third. The second file is read as its
text is, with the second equation on the third line. The third one has its second equation on the
second line, where its text is one line and no equation. -/
theorem load_agrees_with_parse_example :
    let broken := Disk.empty.withFile (.ofText "f") [0x78, 0xc3, 0x28]
    let paired := Disk.empty.withFile (.ofText "f") (encodeUtf8 pairedText.toList)
    let lone := Disk.empty.withFile (.ofText "f") (encodeUtf8 loneText.toList)
    (∃ failure, load .reliable broken "f" = .error (.notUtf8 "f" failure) ∧ failure.offset = 1) ∧
    (∃ es, load .reliable paired "f" = .ok es ∧ parse pairedText = .ok es ∧
      es.map (·.line) = [some 1, some 3]) ∧
    (∃ es, load .reliable lone "f" = .ok es ∧ es.map (·.line) = [some 1, some 2]) ∧
      (parse loneText).toOption = none := by
  intro broken paired lone
  refine ⟨?_, ?_, ?_, by decide +kernel⟩
  · have hread : broken.read .reliable (.ofText "f") = .ok [0x78, 0xc3, 0x28] := by rfl
    have hdecode : Text.decodeUtf8 [0x78, 0xc3, 0x28] = .error ⟨1, .continuationByte⟩ := by
      decide +kernel
    have hnot : ¬∃ cs, encodeUtf8 cs = [0x78, 0xc3, 0x28] := by
      rintro ⟨cs, hcs⟩
      have hok : Text.decodeUtf8 [0x78, 0xc3, 0x28] = .ok cs :=
        Text.decodeUtf8From_eq_ok_iff.mpr hcs
      rw [hdecode] at hok
      cases hok
    obtain ⟨failure, hload, hgreatest, -⟩ := (load_agrees_with_parse hread).1 hnot
    exact ⟨failure, hload, hgreatest.unique (Text.isGreatest_offset hdecode)⟩
  · have hread : paired.read .reliable (.ofText "f") = .ok (encodeUtf8 pairedText.toList) := by rfl
    have htext : pairedText.toList =
        ['x', '=', 'y', '\r', '\n', '\r', '\n', 'u', '=', '0'] := by decide +kernel
    have hpaired : ReturnsPaired pairedText.toList := by
      rw [htext]
      simp [Text.returnsPaired_cons, Text.returnsPaired_nil]
    have hparse : parse pairedText = .ok [⟨[⟨false, none, ["x"]⟩], some ⟨false, "y"⟩, some 1⟩,
        ⟨[⟨false, none, ["u"]⟩], none, some 3⟩] := eq_ok_of_toOption (by decide +kernel)
    exact ⟨_, (((load_agrees_with_parse hread).2 pairedText rfl).2.1 hpaired _).mpr hparse, hparse,
      rfl⟩
  · have hread : lone.read .reliable (.ofText "f") = .ok (encodeUtf8 loneText.toList) := by rfl
    have htext : loneText.toList = ['x', '=', 'y'] ++ '\r' :: ['u', '=', '0'] := by decide +kernel
    have hload := ((load_agrees_with_parse hread).2 loneText rfl).2.2 _ _ htext (by decide)
    have hparse : parse (String.ofList (unifyNewlines ['x', '=', 'y'] ++
        '\n' :: unifyNewlines ['u', '=', '0'])) = .ok [⟨[⟨false, none, ["x"]⟩], some ⟨false, "y"⟩,
          some 1⟩, ⟨[⟨false, none, ["u"]⟩], none, some 2⟩] := eq_ok_of_toOption (by decide +kernel)
    exact ⟨_, hload.trans hparse, rfl⟩

end Equation

end PlonkGates
