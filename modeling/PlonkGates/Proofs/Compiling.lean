import PlonkGates.Proofs.Commands
import PlonkGates.Proofs.Documents
import PlonkGates.Proofs.LineEnds
import PlonkGates.Proofs.PlainTexts
import PlonkGates.Proofs.Rendering
import PlonkGates.Proofs.Writing

/-!
# Compiling a program of any size

The command `compile` reads a program, lists its gates and writes the listing to a file. Of an
accepted program, and where a file can be written, only the last step may fail: the number of rows
doubles with every equation, so a program of more than `Listing.longest` equations has a listing
that is not written (`Session.compile_outcome`). Nothing is printed then, and the fault is not one
that the author of the program is told about.
-/

namespace PlonkGates

/-! ## The command -/

/-- A circuit whose listing can be written: neither the number of rows nor that of a line is too
long. -/
def Circuit.IsListable (c : Circuit) : Prop :=
  c.size ≤ Listing.longest ∧ ∀ e ∈ c.expressions, ∀ line, e.line = some line → Text.IsShort line

/-- **An accepted program has a listing,** with short integers exactly if it is listable. -/
theorem Circuit.exists_listing_ofEquations {settings : Settings} {qs : List Equation} {c : Circuit}
    (hc : Circuit.ofEquations settings qs = .ok c) (horder : Text.IsShort settings.field.order)
    (source : String) :
    ∃ l listing, c.lower = .ok l ∧ Listing.ofLowered c l source = .ok listing ∧
      listing.Shows c.field c.expressions l.gates ∧
      ((∀ z ∈ listing.toValue.integers, Text.IsShort z) ↔ c.IsListable) := by
  obtain ⟨es, hes, hc⟩ := bind_eq_ok.mp hc
  have haccepted := accepted_ofExpressions hc
  have hnumbers := holdsNumbers_ofExpressions hc
  obtain ⟨-, rfl⟩ := ofExpressions_ok hc
  obtain ⟨l, hl, hwrites, hshows⟩ := Listing.exists_ofLowered haccepted
    (Expression.isIntegral_listOfEquations hes) hnumbers source
  obtain ⟨listing, hlisting⟩ :=
    hwrites.exists_ok_iff.mpr (Expression.isWritable_listOfEquations hes)
  have hshows := hshows listing hlisting
  exact ⟨l, listing, hl, hlisting, hshows, hshows.short_iff haccepted.fits horder⟩

theorem Settings.isShort_order_default : Text.IsShort Settings.default.field.order := by
  decide +kernel

theorem Circuit.exists_listing {text : String} {c : Circuit}
    (hc : Circuit.parse .default text = .ok c) (source : String) :
    ∃ l listing, c.lower = .ok l ∧ Listing.ofLowered c l source = .ok listing ∧
      listing.Shows c.field c.expressions l.gates ∧
      ((∀ z ∈ listing.toValue.integers, Text.IsShort z) ↔ c.IsListable) := by
  obtain ⟨qs, -, hc⟩ := bind_eq_ok.mp hc
  exact exists_listing_ofEquations hc Settings.isShort_order_default source

namespace Session

open Run

variable {env : Environment} {s : Session} {path text : String} {output : Option String}

/-- Where a listing goes under the settings that hold if there are no others. -/
def outputTarget (path : String) (output : Option String) : Path :=
  .ofText ((output.filter (!·.isEmpty)).getD (path ++ ".gates.json"))

theorem listingTarget_default (path : String) (output : Option String) :
    listingTarget .default path output = .ok (outputTarget path output) := by
  rw [listingTarget, outputTarget]
  cases output.filter (!·.isEmpty) <;> rfl

theorem pathLine_of_isPlain (env : Environment) {p : Path} (h : p.IsPlain) :
    pathLine env p = .ok p.text.toText := by
  have hbarrier : printBarrier? env p.text = none := by
    rw [printBarrier?, h.surrogates?, h.barrier?, ite_self]
  rw [pathLine, hbarrier]

theorem pathLine_outputTarget (env : Environment) (path : String) (output : Option String) :
    pathLine env (outputTarget path output) = .ok (outputTarget path output).text.toText :=
  pathLine_of_isPlain env (Path.isPlain_ofText _)

/-- What is decided before anything is written: where a listing goes, and the listing. -/
def prepare (env : Environment) (settings : Settings) (d : Disk) (path : String)
    (output : Option String) : Except Fault (Path × Listing) := do
  let c ← circuitOf env settings d path
  let l ← c.lower
  let target ← listingTarget settings path output
  let listing ← Listing.ofLowered c l path
  .ok (target, listing)

/-- Writes what was prepared, if it was, and returns the path of the listing. -/
def writePrepared (env : Environment) (d : Disk) :
    Except Fault (Path × Listing) → Disk × Except Fault Path
  | .error fault => (d, .error fault)
  | .ok (target, listing) =>
    let (d, result) := d.writeJson env (env.depth - 1) target (some listingIndent) listing.toValue
    (d, result.map fun _ => target)

theorem snd_writePrepared (env : Environment) (d : Disk) (target : Path) (listing : Listing) :
    (writePrepared env d (.ok (target, listing))).2 =
      (d.writeWhole env (env.depth - 1) target
        (Json.document (env.depth - 1) (some listingIndent) listing.toValue)).2.map
          fun _ => target :=
  rfl

/-- A step that ends as something prepared is written. -/
def EndsWriting (env : Environment) (s : Session) (x : Run Path)
    (prepared : Except Fault (Path × Listing)) : Prop :=
  ∀ d result, writePrepared env s.disk prepared = (d, result) → Ends s x ⟨d, s.logger⟩ result []

/-- A step of the preparation: all is over if it fails, and goes on if it does not. -/
theorem EndsWriting.step {α : Type} {x : Run α} {r : Except Fault α} {f : α → Run Path}
    {g : α → Except Fault (Path × Listing)} (hx : Ends s x s r [])
    (hf : ∀ a, EndsWriting env s (f a) (g a)) : EndsWriting env s (x >>= f) (r >>= g) := by
  intro d result h
  cases r with
  | error fault =>
    cases h
    exact hx.bind_of_error f
  | ok a => exact hx.bind (hf a d result h)

/-- **Writing a listing does to the disk what its last step does,** if it gets that far. -/
theorem endsWriting_writeListing (env : Environment) (s : Session) (settings : Settings)
    (path : String) (output : Option String) :
    EndsWriting env s (writeListing env settings path output)
      (prepare env settings s.disk path output) := by
  refine .step ends_loadCircuit fun c => .step (ends_lowerCircuit c) fun l =>
    .step (ends_demand _) fun target => .step (ends_demand _) fun listing d result h => ?_
  cases hwrite : s.disk.writeJson env (env.depth - 1) target (some listingIndent)
      listing.toValue with
  | mk d' written =>
    rw [writePrepared, hwrite] at h
    cases h
    cases written with
    | error fault => exact (ends_onDisk hwrite).bind_of_error _
    | ok _ =>
      exact (ends_onDisk hwrite).bind (yields_emit.ends.bind (yields_pure target).ends)

/-- The command prints the path of the listing, if there is a line for it. -/
theorem ends_compile {settings : Settings} {d : Disk} {result : Except Fault Path}
    (hwritten : writePrepared env s.disk (prepare env settings s.disk path output) = (d, result)) :
    Ends s (compile env settings path output) ⟨d, s.logger⟩
      ((result >>= pathLine env).map fun _ => 0) (result >>= pathLine env).toOption.toList := by
  have hwrite := endsWriting_writeListing env s settings path output d result hwritten
  cases result with
  | error fault => exact hwrite.bind_of_error _
  | ok target =>
    refine hwrite.bind ?_
    rw [ok_bind]
    cases pathLine env target with
    | error fault => exact (ends_demand (.error fault)).bind_of_error _
    | ok line =>
      exact (ends_demand (.ok line)).bind ((yields_print line).ends.bind (yields_pure 0).ends)

theorem prepare_default {c : Circuit} {l : LoweredCircuit} {listing : Listing}
    (htext : s.disk.HoldsText env path text) (hc : Circuit.parse .default text = .ok c)
    (hl : c.lower = .ok l) (hlisting : Listing.ofLowered c l path = .ok listing) :
    prepare env .default s.disk path output = .ok (outputTarget path output, listing) := by
  rw [prepare, circuitOf_of_holdsText htext, hc, ok_bind, hl, ok_bind, listingTarget_default,
    ok_bind, hlisting, ok_bind]

/-- The command does what its last step on the disk does. -/
theorem ends_compile_default {c : Circuit} {l : LoweredCircuit} {listing : Listing}
    (htext : s.disk.HoldsText env path text) (hc : Circuit.parse .default text = .ok c)
    (hl : c.lower = .ok l) (hlisting : Listing.ofLowered c l path = .ok listing)
    {d : Disk} {result : Except Fault Unit}
    (hwrite : s.disk.writeJson env (env.depth - 1) (outputTarget path output)
      (some listingIndent) listing.toValue = (d, result)) :
    Ends s (compile env .default path output) ⟨d, s.logger⟩ (result.map fun _ => 0)
      (result.toOption.map fun _ => (outputTarget path output).text.toText).toList := by
  have hwritten : writePrepared env s.disk (prepare env .default s.disk path output) =
      (d, result.map fun _ => outputTarget path output) := by
    rw [prepare_default htext hc hl hlisting, writePrepared, hwrite]
  have hends := ends_compile hwritten
  cases result with
  | error fault => exact hends
  | ok _ => rwa [ok_map, ok_bind, pathLine_outputTarget] at hends

section Outcome

variable {c : Circuit}

theorem nesting_document (env : Environment) (listing : Listing) :
    Json.stepsOutside + Json.nesting listing.toValue ≤ env.depth - 1 :=
  calc Json.stepsOutside + Json.nesting listing.toValue
      ≤ leastDepth - 1 := (Nat.add_le_add_left listing.nesting_toValue _).trans (by decide)
    _ ≤ env.depth - 1 := Nat.sub_le_sub_right env.leastDepth_le 1

/-- A listing without long integers ends up in its file. -/
theorem ends_compile_of_listable (htext : s.disk.HoldsText env path text)
    (hc : Circuit.parse .default text = .ok c)
    (hwrite : s.disk.CanWrite env (env.depth - 1) (outputTarget path output))
    (hlistable : c.IsListable) :
    ∃ l listing document d, c.lower = .ok l ∧ Listing.ofLowered c l path = .ok listing ∧
      listing.Shows c.field c.expressions l.gates ∧
      Json.document (env.depth - 1) (some listingIndent) listing.toValue =
        .ok document ∧
      Ends s (compile env .default path output) ⟨d, s.logger⟩ (.ok 0)
        [(outputTarget path output).text.toText] ∧
      d.find (outputTarget path output) = .ok (.file (Text.encodeUtf8 document.toList)) := by
  obtain ⟨l, listing, hl, hlisting, hshows, hshort⟩ := Circuit.exists_listing hc path
  obtain ⟨-, document, hdocument⟩ | ⟨hlong, -⟩ :=
    Json.writes_document (some listingIndent) (nesting_document env listing)
  · obtain ⟨d, hd, hfound⟩ := hwrite.exists_written (.ok document)
    rw [← hdocument] at hd
    have hends := ends_compile_default htext hc hl hlisting hd
    rw [hdocument] at hends
    exact ⟨l, listing, document, d, hl, hlisting, hshows, hdocument, hends, hfound document rfl⟩
  · exact absurd (hshort.mpr hlistable) hlong

/-- A listing with a long integer is not written. -/
theorem ends_compile_of_not_listable (htext : s.disk.HoldsText env path text)
    (hc : Circuit.parse .default text = .ok c)
    (hwrite : s.disk.CanWrite env (env.depth - 1) (outputTarget path output))
    (hlistable : ¬c.IsListable) :
    ∃ d, Ends s (compile env .default path output) ⟨d, s.logger⟩ (.error .tooLongToWrite) [] := by
  obtain ⟨l, listing, hl, hlisting, -, hshort⟩ := Circuit.exists_listing hc path
  obtain ⟨hall, -⟩ | ⟨-, hfault⟩ :=
    Json.writes_document (some listingIndent) (nesting_document env listing)
  · exact absurd (hshort.mp hall) hlistable
  · obtain ⟨d, hd, -⟩ := hwrite.exists_written (.error .tooLongToWrite)
    rw [← hfault] at hd
    have hends := ends_compile_default htext hc hl hlisting hd
    rw [hfault] at hends
    exact ⟨d, hends⟩

/-- **The command `compile` writes the listing of every program that is not too long,** and of no
other. It is about any program that is accepted under the settings that hold if there are no others,
and about a place where a file can be written. -/
theorem compile_outcome (htext : s.disk.HoldsText env path text)
    (hc : Circuit.parse .default text = .ok c)
    (hwrite : s.disk.CanWrite env (env.depth - 1) (outputTarget path output)) :
    (c.IsListable →
      ∃ l listing document d, c.lower = .ok l ∧ Listing.ofLowered c l path = .ok listing ∧
        listing.Shows c.field c.expressions l.gates ∧
        Json.document (env.depth - 1) (some listingIndent) listing.toValue =
          .ok document ∧
        Ends s (compile env .default path output) ⟨d, s.logger⟩ (.ok 0)
          [(outputTarget path output).text.toText] ∧
        d.find (outputTarget path output) =
          .ok (.file (Text.encodeUtf8 document.toList))) ∧
      (¬c.IsListable → ∃ d, Ends s (compile env .default path output) ⟨d, s.logger⟩
        (.error .tooLongToWrite) []) :=
  ⟨ends_compile_of_listable htext hc hwrite, ends_compile_of_not_listable htext hc hwrite⟩

end Outcome

end Session

/-! ## The longest program -/

namespace Text

/-- A character of one byte that is not part of a line end. -/
def isPlain (c : Char) : Bool := c.toNat < 0x80 && c != '\r'

theorem unifyNewlines_plain {cs : List Char} (h : ∀ c ∈ cs, isPlain c = true) :
    unifyNewlines cs = cs := by
  refine unifyNewlines_eq_self fun hreturn => ?_
  cases h _ hreturn

end Text

/-- The equation `a = 0` on the first line. -/
def Expression.vanishing : Expression := ⟨none, [⟨false, .int 1, "a"⟩], none, some 1⟩

/-- The equation `a = 0` a number of times, on one line. -/
def repeatedText (n : Nat) : String := ";".intercalate (List.replicate n "a = 0")

namespace Expression

theorem printable_vanishing : vanishing.Printable Settings.default.maxCoefficient where
  nonempty := Or.inr (by simp [vanishing])
  names := List.forall_mem_singleton.mpr ⟨'a', [], rfl, rfl, by simp⟩
  coefficients := List.forall_mem_singleton.mpr ⟨1, rfl, by decide, by decide⟩

theorem parse_repeatedText (n : Nat) :
    Equation.parse (repeatedText n) = .ok (List.replicate n (vanishing.written 1)) := by
  have htext : vanishing.spelling = "a = 0" := by rfl
  have hsep : Grammar.Separates ";" .semicolon := ⟨rfl, Or.inr rfl⟩
  have hcount : ";".toList.count '\n' = 0 := rfl
  have hall : ∀ e ∈ List.replicate n vanishing, e.Printable Settings.default.maxCoefficient :=
    fun e he => List.eq_of_mem_replicate he ▸ printable_vanishing
  have hlines : ((List.replicate n vanishing).mapIdx fun i e => e.written (1 + i * 0)) =
      List.replicate (List.replicate n vanishing).length (vanishing.written 1) := by
    refine List.mapIdx_eq_replicate_iff.mpr fun i hi => ?_
    rw [List.getElem_replicate, Nat.mul_zero]
  rw [List.length_replicate] at hlines
  rw [repeatedText, ← htext, ← List.map_replicate, parse_intercalate hsep hall, hcount, hlines]

theorem listOfEquations_replicate (index n : Nat) :
    listOfEquations (.int Settings.default.maxCoefficient) index
      (List.replicate n (vanishing.written 1)) = .ok (List.replicate n vanishing) := by
  induction n generalizing index with
  | zero => rfl
  | succ n ih =>
    have hfirst := ofEquation_written printable_vanishing.coefficients 1 index
    rw [List.replicate_succ, listOfEquations, hfirst, ok_bind, ih, ok_bind]
    rfl

end Expression

theorem Circuit.parse_repeatedText (n : Nat) :
    ∃ c, Circuit.parse .default (repeatedText n) = .ok c ∧
      c.expressions = List.replicate n .vanishing := by
  have hfits : Expression.vanishing.Fits :=
    ⟨by simp [Expression.vanishing], by decide, by decide, by decide,
      by simp [Expression.vanishing]⟩
  have hvalid : Expression.validate (List.replicate n .vanishing) = .ok () := by
    refine Expression.validate_eq_ok_iff.mpr ⟨?_, ?_⟩
    · exact fun e he => List.eq_of_mem_replicate he ▸ hfits
    · intro e he p hp
      rw [List.eq_of_mem_replicate he] at hp
      cases hp
  refine ⟨⟨Settings.default.field, List.replicate n .vanishing,
    .derive Settings.default.field (List.replicate n .vanishing)⟩, ?_, rfl⟩
  rw [Circuit.parse, Expression.parse_repeatedText, ok_bind, Circuit.ofEquations,
    Expression.listOfEquations_replicate, ok_bind, Circuit.ofExpressions_eq_ok _ hvalid]

theorem Circuit.isListable_repeatedText {n : Nat} {c : Circuit}
    (h : c.expressions = List.replicate n .vanishing) : c.IsListable ↔ n ≤ Listing.longest := by
  rw [IsListable, size, h, List.length_replicate]
  refine and_iff_left fun e he line hline => ?_
  rw [List.eq_of_mem_replicate he] at hline
  cases hline
  exact Text.isShort_one

namespace Session

open Run

/-- A session with a program in a file `f`. -/
def withProgram (text : String) : Session :=
  ⟨.withFile .empty (.ofText "f") (Text.encodeUtf8 text.toList), .unconfigured⟩

theorem canWrite_withProgram (text : String) :
    (withProgram text).disk.CanWrite .reliable (Environment.reliable.depth - 1)
      (outputTarget "f" none) := by
  rfl

theorem holdsText_repeatedText (n : Nat) :
    (withProgram (repeatedText n)).disk.HoldsText .reliable "f" (repeatedText n) := by
  have hread : (withProgram (repeatedText n)).disk.read .reliable (.ofText "f") =
      .ok (Text.encodeUtf8 (repeatedText n).toList) := by rfl
  have hsep : ";".toList.all Text.isPlain = true := by rfl
  have hpiece : "a = 0".toList.all Text.isPlain = true := by rfl
  have hplain : ∀ c ∈ (repeatedText n).toList, Text.isPlain c = true := by
    rw [repeatedText, String.toList_intercalate, List.map_replicate]
    refine forall_mem_intercalate (List.all_eq_true.mp hsep) fun piece hmem => ?_
    rw [List.eq_of_mem_replicate hmem]
    exact List.all_eq_true.mp hpiece
  exact ⟨_, _, hread, Text.decodeUtf8From_encodeUtf8 _ 0,
    (Text.unifyNewlines_plain hplain).symm⟩

/-- The longest program of equations `a = 0` that is listed. -/
theorem compile_outcome_longest :
    ∃ c document d, Circuit.parse .default (repeatedText 14283) = .ok c ∧ c.IsListable ∧
      Ends (withProgram (repeatedText 14283)) (compile .reliable .default "f" none)
        ⟨d, .unconfigured⟩ (.ok 0) ["f.gates.json"] ∧
      d.find (.ofText "f.gates.json") = .ok (.file (Text.encodeUtf8 document)) := by
  obtain ⟨c, hc, hexpressions⟩ := Circuit.parse_repeatedText 14283
  have hlistable := (Circuit.isListable_repeatedText hexpressions).mpr (Nat.le_refl _)
  have hwrite := canWrite_withProgram (repeatedText 14283)
  obtain ⟨-, -, document, d, -, -, -, -, hends, hfound⟩ :=
    (compile_outcome (holdsText_repeatedText 14283) hc hwrite).1 hlistable
  exact ⟨c, document.toList, d, hc, hlistable, hends, hfound⟩

/-- One equation more, and the command ends in a fault that is not reported. -/
theorem compile_tooLong :
    ∃ c d, Circuit.parse .default (repeatedText 14284) = .ok c ∧
      (withProgram (repeatedText 14284)).disk.HoldsText .reliable "f" (repeatedText 14284) ∧
      (withProgram (repeatedText 14284)).disk.CanWrite .reliable (Environment.reliable.depth - 1)
        (outputTarget "f" none) ∧
      Ends (withProgram (repeatedText 14284)) (compile .reliable .default "f" none)
        ⟨d, .unconfigured⟩ (.error .tooLongToWrite) [] ∧
      Fault.tooLongToWrite.reported = false := by
  obtain ⟨c, hc, hexpressions⟩ := Circuit.parse_repeatedText 14284
  have hlong : ¬c.IsListable := by
    rw [Circuit.isListable_repeatedText hexpressions]
    decide
  have htext := holdsText_repeatedText 14284
  have hwrite := canWrite_withProgram (repeatedText 14284)
  obtain ⟨d, hends⟩ := ends_compile_of_not_listable htext hc hwrite hlong
  exact ⟨c, d, hc, htext, hwrite, hends, rfl⟩

end Session

end PlonkGates
