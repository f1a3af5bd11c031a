import PlonkGates.Proofs.Commands
import PlonkGates.Proofs.Literals

/-!
# Checking a program

The command `check` prints the lines about the equations that do not hold, and its status tells
whether there are any. All numbers in a line have numerals: a coefficient had one in the text, a
residue is not larger than the order, and there are no more lines than characters
(`Equation.line_of_parse`).
-/

namespace PlonkGates

open Text (IsShort)

/-! ## Line numbers -/

theorem length_withoutComments_le (inside : Bool) (cs : List Char) :
    (withoutComments inside cs).length ≤ cs.length := by
  induction cs generalizing inside with
  | nil => exact Nat.le_refl 0
  | cons c cs ih =>
    rw [withoutComments]
    split_ifs
    · exact Nat.succ_le_succ (ih false)
    · exact Nat.le_succ_of_le (ih true)
    · exact Nat.succ_le_succ (ih false)

/-- The line of a lexeme is counted by characters before it. -/
theorem Lexeme.Split.line_le {before text : List Char} {ls : List Lexeme}
    (h : Split before ls text) : ∀ l ∈ ls, l.start.line ≤ 1 + (before ++ text).length := by
  induction h with
  | nil => simp
  | @cons before gap rest l ls _ _ hline _ ih =>
    refine List.forall_mem_cons.mpr ⟨?_, fun l' hl' => ?_⟩
    · have hcount := List.count_le_length (a := '\n') (l := before ++ gap)
      rw [hline]
      simp only [List.length_append] at hcount ⊢
      omega
    · have hle := ih l' hl'
      simp only [List.length_append] at hle ⊢
      omega

theorem Grammar.Body.exists_line {ls : List Lexeme} {qs : List Equation} (h : Body ls qs) :
    ∀ q ∈ qs, ∃ l ∈ ls, q.line = some (l.start.line : Int) := by
  have hstatement : ∀ {ls : List Lexeme} {q : Equation}, Statement ls q →
      ∃ l ∈ ls, q.line = some (l.start.line : Int) := by
    rintro ls q ⟨-, hfirst, -, -⟩
    exact ⟨_, List.mem_append_left _ (List.mem_of_mem_head? hfirst), rfl⟩
  induction h with
  | nil => simp
  | last he => exact List.forall_mem_singleton.mpr (hstatement he)
  | cons he _ _ _ ih =>
    refine List.forall_mem_cons.mpr ⟨?_, fun q hq => ?_⟩
    · obtain ⟨l, hl, hline⟩ := hstatement he
      exact ⟨l, List.mem_append_left _ hl, hline⟩
    · obtain ⟨l, hl, hline⟩ := ih q hq
      exact ⟨l, List.mem_append_right _ (List.mem_append_right _ hl), hline⟩

/-- **The equations of a text have their lines, and these are not more than its characters.** -/
theorem Equation.line_of_parse {text : String} {qs : List Equation}
    (h : Equation.parse text = .ok qs) :
    ∀ q ∈ qs, ∃ n : Nat, q.line = some (n : Int) ∧ n ≤ text.length + 1 := by
  obtain ⟨ls, hsplit, hprogram⟩ := derives_of_parseChars h
  cases hprogram with
  | mk _ hbody =>
    intro q hq
    obtain ⟨l, hl, hline⟩ := hbody.exists_line q hq
    refine ⟨l.start.line, hline, ?_⟩
    have hle := hsplit.line_le l (List.mem_append_right _ hl)
    have hlength := length_withoutComments_le false text.toList
    rw [List.nil_append] at hle
    rw [String.length_toList] at hlength
    omega

/-! ## The command -/

namespace Session

open Run

variable {env : Environment} {settings : Settings} {s : Session} {path text : String}

/-- **The command `check` tells which equations of a program text are true.** Of every text that is
accepted, and for values of names that occur in it, it reports exactly the equations that are not
true modulo the order, one line each in the order of the source, with the representative closest to
zero of the left side minus the right side. The status is 1 if there is such an equation and 0 if
there is none. The order and the number of lines have to be numbers that can be written. -/
theorem check_reports_failing {qs : List Equation} {c : Circuit}
    (horder : IsShort settings.field.order) (hlength : IsShort ((text.length + 1 : Nat) : Int))
    (hparse : Equation.parse text = .ok qs) (hc : Circuit.parse settings text = .ok c)
    {values : List Assignment} (hnames : ∀ a ∈ values, ∃ q ∈ qs, a.name ∈ q.names)
    (htext : s.disk.HoldsText env path text) :
    ∃ d l lines, Yields s (supply env settings path (values.map some)) (d, l) [] ∧
      d.failures l = .ok lines ∧
      List.Forall₂
        (Equation.Reported settings.field (.int settings.maxCoefficient) (Assignment.last values))
        (Equation.failing settings.field (Assignment.last values) qs) lines ∧
      ∀ arguments i, Invocation.parse arguments = .ok i → i.command = .check → i.circuit = path →
        i.values = values.map some → settingsOf env s.disk i = .ok settings →
        (run env s arguments).status = .ok
          (if (Equation.failing settings.field (Assignment.last values) qs).isEmpty then 0 else 1) ∧
        (run env s arguments).stdout = unlines (verdict l.gates.length lines) := by
  have hlines : ∀ q ∈ qs, ∃ n : Nat, q.line = some (n : Int) ∧ IsShort n := by
    intro q hq
    obtain ⟨n, hline, hle⟩ := Equation.line_of_parse hparse q hq
    exact ⟨n, hline, Text.isShort_of_natAbs_le (by omega) hlength⟩
  obtain ⟨d, l, lines, hset, hl, hfailures, hreported⟩ :=
    exists_failures horder hparse hlines hc hnames
  refine ⟨d, l, lines, yields_supply htext hc hset hl, hfailures, hreported, ?_⟩
  intro arguments i hi hcommand hpath hvalues hsettings
  have hempty : (Equation.failing settings.field (Assignment.last values) qs).isEmpty =
      lines.isEmpty := by
    rw [Bool.eq_iff_iff, List.isEmpty_iff_length_eq_zero, List.isEmpty_iff_length_eq_zero,
      hreported.length_eq]
  rw [hempty]
  refine run_of_yields_check hi hcommand hsettings fun s' hdisk => ?_
  rw [hpath, hvalues]
  exact yields_check (yields_supply (hdisk ▸ htext) hc hset hl) hfailures

/-- With `a` set to 2 and then to 5, `b` to 3 and `c` to 15, the second equation does not hold: its
left side is 15. -/
theorem check_reports_failing_example :
    ∃ c, Circuit.parse .default exampleText = .ok c ∧
      (run .reliable exampleSession ["check", "f", "--val", "a=2", "--val", "b=3", "--val", "a=5",
        "--val", "c=15"]).status = .ok 1 ∧
      (run .reliable exampleSession ["check", "f", "--val", "a=2", "--val", "b=3", "--val", "a=5",
        "--val", "c=15"]).stdout =
        "unsatisfied: line 2: c - 3d = 0 (gate evaluates to 15)\n" := by
  have hparse : Equation.parse exampleText = .ok exampleEquations :=
    eq_ok_of_toOption (by decide +kernel)
  have hsome : (Circuit.parse .default exampleText).toOption.isSome = true := by decide +kernel
  obtain ⟨c, hc⟩ := Option.isSome_iff_exists.mp hsome
  have hc := eq_ok_of_toOption hc
  have htext : exampleSession.disk.HoldsText .reliable "f" exampleText :=
    ⟨exampleText.toUTF8.toList, exampleText.toList, eq_ok_of_toOption (by decide +kernel),
      eq_ok_of_toOption (by decide +kernel), by decide +kernel⟩
  let values : List Assignment := [⟨"a", 2⟩, ⟨"b", 3⟩, ⟨"a", 5⟩, ⟨"c", 15⟩]
  have hnames : ∀ a ∈ values, ∃ q ∈ exampleEquations, a.name ∈ q.names := by decide +kernel
  have hfailing : Equation.failing Settings.default.field (Assignment.last values)
      exampleEquations =
        [(⟨[⟨false, none, ["c"]⟩, ⟨true, some "3", ["d"]⟩], none, some 2⟩, 1)] := by
    decide +kernel
  have hi : Invocation.parse ["check", "f", "--val", "a=2", "--val", "b=3", "--val", "a=5", "--val",
      "c=15"] = .ok ⟨none, false, .check, "f", none, values.map some⟩ := by decide +kernel
  have horder : IsShort Settings.default.field.order := by decide +kernel
  have hlength : IsShort ((exampleText.length + 1 : Nat) : Int) := by decide +kernel
  obtain ⟨d, l, lines, -, -, hreported, hrun⟩ :=
    check_reports_failing horder hlength hparse hc hnames htext
  obtain ⟨hstatus, hstdout⟩ := hrun _ _ hi rfl rfl rfl rfl
  rw [hfailing] at hreported hstatus
  obtain ⟨line, rest, hline, hrest, rfl⟩ := List.forall₂_cons_left_iff.mp hreported
  cases hrest
  obtain ⟨number, e, shown, residue, hnumber, he, hshown, rfl, hresidue, hlow, hhigh, -⟩ := hline
  have hnumber : number = 2 := by
    have htwo := Option.some.inj hnumber
    omega
  have hshown : shown = "c - 3d = 0" := by
    have htext : (Expression.ofEquation ⟨[⟨false, none, ["c"]⟩, ⟨true, some "3", ["d"]⟩], none,
        some 2⟩ (1 : Nat) (.int Settings.default.maxCoefficient) >>= Expression.toText) =
        .ok "c - 3d = 0" := eq_ok_of_toOption (by decide +kernel)
    rw [he, ok_bind, hshown] at htext
    exact Except.ok.inj htext
  have hresidue : residue = 15 := by
    have hdifference : Equation.difference (Assignment.last values)
        ⟨[⟨false, none, ["c"]⟩, ⟨true, some "3", ["d"]⟩], none, some 2⟩ = 15 := by decide +kernel
    have hlarge : (30 : Int) < Settings.default.field.order := by decide +kernel
    rw [hdifference] at hresidue
    have hzero := Int.eq_zero_of_abs_lt_dvd hresidue.dvd (abs_lt.mpr ⟨by omega, by omega⟩)
    omega
  subst hnumber hshown hresidue
  exact ⟨c, hc, hstatus, hstdout⟩

end Session

end PlonkGates
