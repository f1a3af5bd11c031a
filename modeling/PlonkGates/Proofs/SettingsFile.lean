import PlonkGates.Proofs.Atomicity
import PlonkGates.Proofs.JsonIntegers

/-!
# Settings from a file

A command line may name a file with settings. Most of what is wrong in it is told to the user, as an
error of the input. What is not is found here: the file is no text in UTF-8, or the reader of JSON
gives up (`Settings.Unread`), or the suffix of listings makes no path (`Disk.TurnsDown`) or one that
cannot be printed. Whatever else a file holds, its settings are turned down with a report, or they
carry the compilation through to its last step: the order is an integer that was read, so it is
short enough to be written (`Json.isDisplayable_of_parse`), and a program that is accepted under the
default settings can only have a coefficient that is too large now (`Circuit.ofEquations_under`).
-/

namespace PlonkGates

open Text (IsShort)

/-! ## Settings -/

namespace Settings

variable {depth : Nat} {config : String} {bytes : List UInt8} {settings : Settings}

/-- A step that fails only because of settings. -/
def Checks {α : Type} (x : Except Fault α) : Prop :=
  ∀ fault, x = .error fault → ∃ cause, fault = .settings cause

namespace Checks

variable {α β : Type}

theorem ok (a : α) : Checks (.ok a) := fun _ h => by cases h

theorem error (cause : SettingsFault) : Checks (.error (.settings cause) : Except Fault α) := by
  intro fault h
  cases h
  exact ⟨cause, rfl⟩

theorem bind {x : Except Fault α} {f : α → Except Fault β} (hx : Checks x)
    (hf : ∀ a, Checks (f a)) : Checks (x >>= f) := by
  cases x with
  | error fault =>
    intro fault' h
    cases h
    exact hx fault rfl
  | ok a => exact hf a

end Checks

theorem checks_choose {α : Type} {entries : List (Text.CodePoints × Value)}
    {key : Text.CodePoints} {read : Value → Except Fault α} (base : α)
    (hread : ∀ v, entries.lookup key = some v → Checks (read v)) :
    Checks (choose entries key read base) := by
  rw [choose]
  cases hlookup : entries.lookup key with
  | some v => exact hread v hlookup
  | none => exact .ok base

theorem checks_readModulus (v : Value) : Checks (readModulus v) := by
  cases v with
  | int n =>
    rw [readModulus]
    split_ifs
    · exact .error _
    · exact .ok _
  | _ => exact .error _

theorem checks_readMaximum (v : Value) : Checks (readMaximum v) := by
  cases v with
  | int n =>
    rw [readMaximum]
    split_ifs
    · exact .error _
    · exact .ok _
  | _ => exact .error _

theorem checks_readLevel {v : Value} (h : v.isDisplayable = true) : Checks (readLevel v) := by
  rw [readLevel, Value.write_of_isWritable (Value.isWritable_of_isDisplayable h), ok_bind]
  cases LogLevel.ofTitle? (Text.uppercase v.plain) with
  | some level => exact .ok level
  | none => exact .error _

theorem isDisplayable_of_lookup {entries : List (Text.CodePoints × Value)}
    {key : Text.CodePoints} {v : Value} (hentries : (Value.object entries).isDisplayable = true)
    (h : entries.lookup key = some v) : v.isDisplayable = true :=
  Value.isDisplayable_object.mp hentries _ (VariableTable.mem_of_lookup h)

theorem checks_readSuffix (v : Value) : Checks (readSuffix v) := by
  rw [readSuffix]
  split_ifs
  · exact .error _
  · exact .ok v

theorem copied_default (hdepth : leastDepth ≤ depth) :
    default.outputSuffix.copied (depth - 1 - stepsOutsideCopying) = .ok default.outputSuffix := by
  have hroom : 2 ≤ depth - 1 - stepsOutsideCopying := by
    rw [leastDepth] at hdepth
    rw [stepsOutsideCopying]
    omega
  obtain ⟨n, hn⟩ := Nat.exists_eq_add_of_le' hroom
  rw [hn]
  rfl

/-- **The entries of an object are accepted as settings or turned down as such.** -/
theorem checks_update (hdepth : leastDepth ≤ depth) {entries : List (Text.CodePoints × Value)}
    (hentries : (Value.object entries).isDisplayable = true) :
    Checks (default.update (depth - 1) entries) := by
  rw [update]
  split_ifs
  · exact .error _
  · rw [copied_default hdepth, ok_bind]
    exact (checks_choose _ fun v _ => checks_readModulus v).bind fun field =>
      (checks_choose _ fun v _ => checks_readMaximum v).bind fun maximum =>
      (checks_choose _ fun v hv => checks_readLevel (isDisplayable_of_lookup hentries hv)).bind
        fun level => (checks_choose _ fun v _ => checks_readSuffix v).bind fun suffix => .ok _

/-- The settings in a file with these bytes, in steps that are nested up to a depth; its path is for
messages. -/
def ofBytes (depth : Nat) (config : String) (bytes : List UInt8) : Except Fault Settings :=
  match Text.decodeUtf8 bytes with
  | .error failure => .error (.undecodable failure)
  | .ok text => default.updateFromText depth config (Text.unifyNewlines text)

theorem load_of_read {env : Environment} {d : Disk}
    (h : d.read env (Path.ofText config) = .ok bytes) :
    load env d depth default config = ofBytes depth config bytes := by
  have hholds : d.holds (Path.ofText config) = .ok true := by
    unfold Disk.read at h
    unfold Disk.holds
    dsimp only at h
    split_ifs at h ⊢ with hnul
    cases hfind : d.find (Path.ofText config) with
    | ok entry => rfl
    | error error =>
      cases henv : env.failure (.read (Path.ofText config)) with
      | some error =>
        rw [henv] at h
        cases h
      | none =>
        rw [henv, hfind] at h
        cases h
  rw [load, hholds, ok_bind, if_pos rfl, h, ok_bind]
  rfl

/-- How reading a file with settings fails without a report. -/
inductive Unread (depth : Nat) (bytes : List UInt8) : Fault → Prop
  | undecodable {failure : Text.Utf8Failure} (h : Text.decodeUtf8 bytes = .error failure) :
    Unread depth bytes (.undecodable failure)
  | tooManyDigits {text : List Char} {count : Nat} (htext : Text.decodeUtf8 bytes = .ok text)
    (h : Json.parse (depth - stepsOutsideReading) (Text.unifyNewlines text) =
      .error (.tooManyDigits count)) : Unread depth bytes (.tooManyDigits count)
  | tooDeep {text : List Char} {cause : Nesting} (htext : Text.decodeUtf8 bytes = .ok text)
    (h : Json.parse (depth - stepsOutsideReading) (Text.unifyNewlines text) =
      .error (.tooDeep cause)) : Unread depth bytes (.tooDeep cause)

theorem Unread.reported {fault : Fault} (h : Unread depth bytes fault) :
    fault.reported = false := by
  cases h <;> rfl

theorem Unread.ofBytes {fault : Fault} (h : Unread depth bytes fault) (config : String) :
    ofBytes depth config bytes = .error fault := by
  unfold Settings.ofBytes
  cases h with
  | undecodable h => rw [h]
  | tooManyDigits htext h =>
    rw [htext]
    dsimp only
    rw [updateFromText, h]
  | tooDeep htext h =>
    rw [htext]
    dsimp only
    rw [updateFromText, h]

/-- **What a file with settings comes to.** It is turned down, or its reading fails without a
report, or it is an object with short integers whose entries are looked at. -/
theorem ofBytes_cases (depth : Nat) (config : String) (bytes : List UInt8) :
    (∃ cause, ofBytes depth config bytes = .error (.settings cause)) ∨
    (∃ fault, Unread depth bytes fault ∧ ofBytes depth config bytes = .error fault) ∨
    ∃ entries, (Value.object entries).isDisplayable = true ∧
      ofBytes depth config bytes = default.update (depth - 1) entries := by
  unfold ofBytes
  cases htext : Text.decodeUtf8 bytes with
  | error failure => exact Or.inr (Or.inl ⟨_, .undecodable htext, rfl⟩)
  | ok text =>
    dsimp only
    rw [updateFromText]
    cases hparse : Json.parse (depth - stepsOutsideReading) (Text.unifyNewlines text) with
    | error error =>
      cases error with
      | malformed => exact Or.inl ⟨_, rfl⟩
      | tooManyDigits count => exact Or.inr (Or.inl ⟨_, .tooManyDigits htext hparse, rfl⟩)
      | tooDeep cause => exact Or.inr (Or.inl ⟨_, .tooDeep htext hparse, rfl⟩)
    | ok v =>
      cases v with
      | object entries => exact Or.inr (Or.inr ⟨entries, Json.isDisplayable_of_parse hparse, rfl⟩)
      | _ => exact Or.inl ⟨_, rfl⟩

theorem fault_of_ofBytes (hdepth : leastDepth ≤ depth) {fault : Fault}
    (h : ofBytes depth config bytes = .error fault) :
    (∃ cause, fault = .settings cause) ∨ Unread depth bytes fault := by
  obtain ⟨cause, hcause⟩ | ⟨fault', hunread, hfault⟩ | ⟨entries, hentries, hupdate⟩ :=
    ofBytes_cases depth config bytes
  · cases hcause.symm.trans h
    exact Or.inl ⟨cause, rfl⟩
  · cases hfault.symm.trans h
    exact Or.inr hunread
  · exact Or.inl (checks_update hdepth hentries fault (hupdate.symm.trans h))

theorem order_of_readModulus {v : Value} {F : PrimeField} (h : readModulus v = .ok F) :
    ∃ n : Int, v = .int n ∧ F.order = n.toNat := by
  cases v with
  | int n =>
    rw [readModulus] at h
    split_ifs at h
    cases h
    exact ⟨n, rfl, rfl⟩
  | _ => cases h

/-- **The order in accepted settings has a numeral,** as it was read or is the default one. -/
theorem isShort_order_ofBytes (h : ofBytes depth config bytes = .ok settings) :
    IsShort settings.field.order := by
  obtain ⟨cause, hcause⟩ | ⟨fault, -, hfault⟩ | ⟨entries, hentries, hupdate⟩ :=
    ofBytes_cases depth config bytes
  · cases hcause.symm.trans h
  · cases hfault.symm.trans h
  rw [hupdate, update] at h
  split_ifs at h
  obtain ⟨kept, -, h⟩ := bind_eq_ok.mp h
  obtain ⟨field, hfield, h⟩ := bind_eq_ok.mp h
  obtain ⟨maximum, -, h⟩ := bind_eq_ok.mp h
  obtain ⟨level, -, h⟩ := bind_eq_ok.mp h
  obtain ⟨suffix, -, h⟩ := bind_eq_ok.mp h
  cases h
  -- the order is that of the entry, if there is one
  rw [choose] at hfield
  cases hlookup : entries.lookup (.ofText "field_modulus") with
  | none =>
    rw [hlookup] at hfield
    cases hfield
    exact isShort_order_default
  | some v =>
    rw [hlookup] at hfield
    obtain ⟨n, rfl, horder⟩ := order_of_readModulus hfield
    have hn : IsShort n := Value.isDisplayable_int.mp (isDisplayable_of_lookup hentries hlookup)
    refine Text.isShort_of_natAbs_le ?_ hn
    rw [horder]
    omega

end Settings

/-! ## Programs under other settings -/

/-- A step that returns what another one does, unless a coefficient is too large for it. -/
def OnlyLarge {α : Type} (x y : Except Fault α) : Prop :=
  ∀ a, x = .ok a → y = .ok a ∨ ∃ digits line, y = .error (.badCoefficient digits line)

namespace OnlyLarge

variable {α β : Type}

theorem refl (x : Except Fault α) : OnlyLarge x x := fun _ h => Or.inl h

theorem bind {x y : Except Fault α} {f g : α → Except Fault β} (hx : OnlyLarge x y)
    (hf : ∀ a, OnlyLarge (f a) (g a)) : OnlyLarge (x >>= f) (y >>= g) := by
  intro b h
  obtain ⟨a, ha, hb⟩ := bind_eq_ok.mp h
  obtain hy | ⟨digits, line, hy⟩ := hx a ha
  · rw [hy, ok_bind]
    exact hf a b hb
  · exact Or.inr ⟨digits, line, by rw [hy, error_bind]⟩

theorem mapM {f g : α → Except Fault β} (h : ∀ a, OnlyLarge (f a) (g a)) (as : List α) :
    OnlyLarge (as.mapM f) (as.mapM g) := by
  induction as with
  | nil => exact refl _
  | cons a as ih =>
    rw [List.mapM_cons, List.mapM_cons]
    exact (h a).bind fun _ => ih.bind fun _ => refl _

end OnlyLarge

section Maximum

variable (maximum other : Nat)

theorem readCoefficient_onlyLarge (line : Option Int) (text : Option String) :
    OnlyLarge (readCoefficient (.int maximum) line text)
      (readCoefficient (.int other) line text) := by
  cases text with
  | none => exact .refl _
  | some text =>
    intro n h
    rw [readCoefficient] at h ⊢
    dsimp only at h ⊢
    split_ifs at h ⊢ with hmalformed hlong
    obtain ⟨exceeds, -, h⟩ := bind_eq_ok.mp h
    split_ifs at h
    cases h
    -- a numeral that one maximum lets pass is read, so the other one can only find it too large
    have hbound : exceedsBound (Text.ofAsciiDigits text.toList) (.int other) =
        .ok (decide ((Text.ofAsciiDigits text.toList : Int) > other)) := rfl
    rw [hbound, ok_bind]
    split_ifs
    · exact Or.inr ⟨text, line, rfl⟩
    · exact Or.inl rfl

theorem Expression.ofEquation_onlyLarge (q : Equation) (index : Int) :
    OnlyLarge (ofEquation q index (.int maximum)) (ofEquation q index (.int other)) := by
  have hterm : ∀ t, OnlyLarge (NormalTerm.ofTerm (.int maximum) q.line t)
      (NormalTerm.ofTerm (.int other) q.line t) := fun t =>
    (readCoefficient_onlyLarge maximum other q.line t.coefficient).bind fun _ => .refl _
  exact (OnlyLarge.mapM hterm q.terms).bind fun _ => .refl _

theorem Expression.listOfEquations_onlyLarge (index : Nat) (qs : List Equation) :
    OnlyLarge (listOfEquations (.int maximum) index qs)
      (listOfEquations (.int other) index qs) := by
  induction qs generalizing index with
  | nil => exact .refl _
  | cons q qs ih =>
    exact (ofEquation_onlyLarge maximum other q index).bind fun _ =>
      (ih (index + 1)).bind fun _ => .refl _

end Maximum

/-- **A program that is accepted stays accepted under other settings,** with the same expressions,
unless a coefficient is too large for them. -/
theorem Circuit.ofEquations_under {base : Settings} {qs : List Equation} {c : Circuit}
    (hc : ofEquations base qs = .ok c) (settings : Settings) :
    (∃ c', ofEquations settings qs = .ok c' ∧ c'.expressions = c.expressions) ∨
      ∃ digits line, ofEquations settings qs = .error (.badCoefficient digits line) := by
  obtain ⟨es, hes, hof⟩ := bind_eq_ok.mp hc
  obtain ⟨hvalid, rfl⟩ := ofExpressions_ok hof
  rw [ofEquations]
  obtain hread | ⟨digits, line, hlarge⟩ := Expression.listOfEquations_onlyLarge base.maxCoefficient
    settings.maxCoefficient 0 qs es hes
  · rw [hread, ok_bind]
    exact Or.inl ⟨_, ofExpressions_eq_ok settings.field hvalid, rfl⟩
  · exact Or.inr ⟨digits, line, by rw [hlarge, error_bind]⟩

theorem Circuit.IsListable.congr {c c' : Circuit} (h : c.IsListable)
    (he : c'.expressions = c.expressions) : c'.IsListable := by
  rwa [IsListable, size, he]

/-! ## Targets that cannot be written to -/

namespace Disk

variable {env : Environment} {d : Disk} {depth : Nat} {target : Path} {fault : Fault}

theorem reported_pathFault? {barrier : Option Text.SurrogateRun} {p : Path}
    (h : pathFault? barrier p = some fault) : fault.reported = false := by
  cases barrier with
  | some run =>
    cases h
    rfl
  | none =>
    rw [pathFault?] at h
    split_ifs at h
    cases h
    rfl

theorem TurnsDown.reported (h : TurnsDown env d depth target fault) : fault.reported = false := by
  cases h with
  | directory h => exact reported_pathFault? h
  | waiting => rfl
  | name _ _ h => exact reported_pathFault? h

/-- A target is turned down whatever the content. -/
theorem TurnsDown.writeWhole (h : TurnsDown env d depth target fault)
    (content : Except Fault String) :
    (d.writeWhole env depth target content).2 = .error fault := by
  unfold Disk.writeWhole
  dsimp only
  cases h with
  | directory h => rw [h]
  | waiting hdirectory h =>
    cases hway : d.makeWay env depth target with
    | mk d' result =>
      rw [hway] at h
      obtain rfl : result = _ := h
      have hmake : ensureDirectory env d target.parent.root (depth - stepsAroundDirectories)
          target.parent.parts.reverse = (d', _) := hway
      rw [hdirectory, hmake]
  | name hdirectory hmade h =>
    cases hway : d.makeWay env depth target with
    | mk d' result =>
      rw [hway] at hmade
      obtain rfl : result = _ := hmade
      have hmake : ensureDirectory env d target.parent.root (depth - stepsAroundDirectories)
          target.parent.parts.reverse = (d', _) := hway
      rw [hdirectory, hmake]
      dsimp only
      rw [h]

theorem fault_of_fillAndMove {key : DiskKey} {temporary p : Path} {text : String}
    (h : (d.fillAndMove env key temporary p (.ok text)).2 = .error fault) :
    ∃ cause, fault = .disk cause := by
  rw [fillAndMove] at h
  cases henv : env.failure (.write p) with
  | some error =>
    rw [henv] at h
    cases h
    exact ⟨_, rfl⟩
  | none =>
    rw [henv] at h
    dsimp only at h
    obtain ⟨cause, hfail⟩ | ⟨d', hmoved⟩ := replace_cases env
      (d.put key (.file (Text.encodeUtf8 text.toList))) key temporary p
      (Text.encodeUtf8 text.toList)
    · rw [hfail] at h
      cases h
      exact ⟨cause, rfl⟩
    · rw [hmoved] at h
      cases h

/-- **A text is written unless the disk fails or the target is turned down.** -/
theorem fault_of_writeWhole {text : String}
    (h : (d.writeWhole env depth target (.ok text)).2 = .error fault) :
    (∃ cause, fault = .disk cause) ∨ TurnsDown env d depth target fault := by
  obtain ⟨d', cause, -, hcause, hfail⟩ | ⟨place, temporary, -, hwrite⟩ :=
    writeWhole_cases env d depth target
  · rw [hfail] at h
    cases h
    exact hcause
  · rw [hwrite, snd_cleanUp] at h
    exact Or.inl (fault_of_fillAndMove h)

theorem holdsNul_parent {p : Path} (h : p.holdsNul = false) : p.parent.holdsNul = false := by
  rw [Path.holdsNul, List.any_eq_false] at h ⊢
  exact fun part hpart => h part (List.mem_of_mem_dropLast hpart)

theorem pathFault?_none {p : Path} (h : p.holdsNul = false) : pathFault? none p = none := by
  rw [pathFault?, h]
  rfl

/-- A path without surrogates and NUL that does not name too many directories can be written to. -/
theorem not_turnsDown_of_isPlain (hplain : target.IsPlain) (hnul : target.holdsNul = false)
    (hparent : target.parent.parts.length < depth - stepsAroundDirectories) :
    ¬TurnsDown env d depth target fault := by
  intro h
  cases h with
  | directory h =>
    rw [hplain.parent.barrier?, pathFault?_none (holdsNul_parent hnul)] at h
    cases h
  | waiting _ h =>
    obtain ⟨cause, hdisk⟩ | ⟨-, hlength⟩ := fault_of_ensureDirectory h
    · cases hdisk
    · rw [List.length_reverse] at hlength
      exact Nat.not_lt.mpr hlength hparent
  | name _ _ h =>
    rw [hplain.nameBarrier?, pathFault?_none hnul] at h
    cases h

end Disk

/-! ## The command -/

namespace Run

theorem Ends.result_unique {α : Type} {s s₁ s₂ : Session} {x : Run α} {r₁ r₂ : Except Fault α}
    {lines₁ lines₂ : List String} (h₁ : Ends s x s₁ r₁ lines₁) (h₂ : Ends s x s₂ r₂ lines₂) :
    r₁ = r₂ := by
  obtain ⟨log₁, hrun₁⟩ := h₁ [] []
  obtain ⟨log₂, hrun₂⟩ := h₂ [] []
  exact congrArg Prod.fst (hrun₁.symm.trans hrun₂)

end Run

namespace Session

open Run Disk

variable {env : Environment} {settings : Settings} {d : Disk} {path : String}
  {output : Option String} {qs : List Equation} {c : Circuit}

/-- What is prepared for an accepted program: where the listing goes is all that may be wrong. -/
theorem exists_prepared (horder : IsShort settings.field.order)
    (hload : Equation.load env d path = .ok qs) (hc : Circuit.ofEquations settings qs = .ok c)
    (output : Option String) :
    ∃ listing : Listing,
      prepare env settings d path output =
        (listingTarget settings path output).map (·, listing) ∧
      ((∃ document, Json.document (env.depth - 1) (some listingIndent)
        listing.toValue = .ok document) ↔ c.IsListable) := by
  obtain ⟨l, listing, hl, hlisting, -, hshort⟩ :=
    Circuit.exists_listing_ofEquations hc horder path
  refine ⟨listing, ?_, ?_⟩
  · rw [prepare, circuitOf, hload, ok_bind, hc, ok_bind, hl, ok_bind]
    cases listingTarget settings path output with
    | error fault => rfl
    | ok target => rw [ok_bind, hlisting, ok_bind, ok_map]
  · rw [← hshort]
    exact (Json.writes_document (some listingIndent) (nesting_document env listing)).exists_ok_iff

/-- A program that was compiled is accepted and listable, and its listing has a place. -/
theorem of_ends_compile {s s' : Session} {n : Nat} {lines : List String}
    (h : Ends s (compile env .default path output) s' (.ok n) lines) :
    ∃ qs c, Equation.load env s.disk path = .ok qs ∧ Circuit.ofEquations .default qs = .ok c ∧
      c.IsListable ∧ ∀ fault,
        ¬TurnsDown env s.disk (env.depth - 1) (outputTarget path output) fault := by
  cases hwritten : writePrepared env s.disk (prepare env .default s.disk path output) with
  | mk d result =>
    obtain ⟨line, hline, -⟩ := map_eq_ok.mp ((ends_compile hwritten).result_unique h)
    obtain ⟨target, rfl, -⟩ := bind_eq_ok.mp hline
    cases hprepare : prepare env .default s.disk path output with
    | error fault =>
      rw [hprepare] at hwritten
      cases hwritten
    | ok prepared =>
      obtain ⟨c, hcircuit, -⟩ := bind_eq_ok.mp hprepare
      obtain ⟨qs, hload, hc⟩ := bind_eq_ok.mp hcircuit
      obtain ⟨listing, hprepared, hlistable⟩ :=
        exists_prepared Settings.isShort_order_default hload hc output
      rw [hprepare, listingTarget_default, ok_map] at hprepared
      cases hprepared
      have hok := congrArg Prod.snd hwritten
      rw [hprepare, snd_writePrepared] at hok
      obtain ⟨_, hwrite, -⟩ := map_eq_ok.mp hok
      refine ⟨qs, c, hload, hc, hlistable.mp ?_, fun fault hturns => ?_⟩
      · obtain ⟨fault, hfault, -⟩ | ⟨document, -, hdocument, -⟩ :=
          writeWhole_outcome Prod.mk.eta.symm
        · cases hwrite.symm.trans hfault
        · exact ⟨document, hdocument⟩
      · cases hwrite.symm.trans (hturns.writeWhole _)

/-- How a compilation ends under the settings in a file, with the line that it prints. -/
def endUnder (env : Environment) (d : Disk) (config path : String) (bytes : List UInt8) :
    Except Fault String := do
  let settings ← Settings.ofBytes env.depth config bytes
  let target ← (writePrepared env d (prepare env settings d path none)).2
  pathLine env target

/-- How the settings in a file end a compilation without a report. -/
inductive Escapes (env : Environment) (d : Disk) (config path : String) (bytes : List UInt8) :
    Fault → Prop
  /-- The file is no text, or its reading is given up. -/
  | unread {fault : Fault} (h : Settings.Unread env.depth bytes fault) :
    Escapes env d config path bytes fault
  /-- The suffix of listings is no text. -/
  | suffix {settings : Settings} {c : Circuit}
    (hsettings : Settings.ofBytes env.depth config bytes = .ok settings)
    (hc : circuitOf env settings d path = .ok c)
    (htext : ∀ text, settings.outputSuffix ≠ .text text)
    (hpoints : ∀ points, settings.outputSuffix ≠ .codePoints points) :
    Escapes env d config path bytes (.textAppend settings.outputSuffix.kind)
  /-- The path of the program with the suffix is no path to write to. -/
  | target {settings : Settings} {c : Circuit} {target : Path} {fault : Fault}
    (hsettings : Settings.ofBytes env.depth config bytes = .ok settings)
    (hc : circuitOf env settings d path = .ok c)
    (htarget : listingTarget settings path none = .ok target)
    (h : TurnsDown env d (env.depth - 1) target fault) :
    Escapes env d config path bytes fault
  /-- The listing is written, and its path cannot be printed. -/
  | printing {settings : Settings} {target : Path} {fault : Fault}
    (hsettings : Settings.ofBytes env.depth config bytes = .ok settings)
    (hwritten : (writePrepared env d (prepare env settings d path none)).2 = .ok target)
    (h : pathLine env target = .error fault) : Escapes env d config path bytes fault

/-- How the settings in a file end a compilation with a report: they are turned down, or a
coefficient is too large under them, or the disk fails. -/
inductive Told (env : Environment) (d : Disk) (config path : String) (bytes : List UInt8) :
    Fault → Prop
  | settings {cause : SettingsFault}
    (h : Settings.ofBytes env.depth config bytes = .error (.settings cause)) :
    Told env d config path bytes (.settings cause)
  | coefficient {settings : Settings} {digits : String} {line : Option Int}
    (hsettings : Settings.ofBytes env.depth config bytes = .ok settings)
    (h : circuitOf env settings d path = .error (.badCoefficient digits line)) :
    Told env d config path bytes (.badCoefficient digits line)
  | disk {settings : Settings} {target : Path} {listing : Listing} {cause : DiskFault}
    (hsettings : Settings.ofBytes env.depth config bytes = .ok settings)
    (hprepare : prepare env settings d path none = .ok (target, listing))
    (h : (writePrepared env d (.ok (target, listing))).2 = .error (.disk cause)) :
    Told env d config path bytes (.disk cause)

theorem listingTarget_eq_error_iff {fault : Fault} :
    listingTarget settings path none = .error fault ↔
      fault = .textAppend settings.outputSuffix.kind ∧
        (∀ text, settings.outputSuffix ≠ .text text) ∧
        ∀ points, settings.outputSuffix ≠ .codePoints points := by
  rw [listingTarget]
  cases settings.outputSuffix <;> simp [eq_comm]

theorem listingTarget_text {suffix : String} (h : settings.outputSuffix = .text suffix) :
    listingTarget settings path none = .ok (.ofText (path ++ suffix)) := by
  rw [listingTarget, h]
  rfl

theorem reported_pathLine {target : Path} {fault : Fault}
    (h : pathLine env target = .error fault) : fault.reported = false := by
  rw [pathLine] at h
  cases hrun : printBarrier? env target.text with
  | none =>
    rw [hrun] at h
    cases h
  | some run =>
    rw [hrun] at h
    cases h
    rfl

/-- A file that is read or found malformed, and that leaves the suffix of listings alone or sets it
to a text that makes a path. -/
structure Harmless (depth : Nat) (config path : String) (bytes : List UInt8) : Prop where
  read : ∃ text, Text.decodeUtf8 bytes = .ok text ∧ ∀ error,
    Json.parse (depth - Settings.stepsOutsideReading) (Text.unifyNewlines text) =
      .error error → error = .malformed
  suffix : ∀ settings, Settings.ofBytes depth config bytes = .ok settings →
    settings.outputSuffix = Settings.default.outputSuffix ∨
    ∃ suffix, settings.outputSuffix = .text suffix ∧
      (Path.ofText (path ++ suffix)).holdsNul = false ∧
      (Path.ofText (path ++ suffix)).parent.parts.length < depth - 1 - stepsAroundDirectories

section Accepted

variable {config : String} {bytes : List UInt8} {fault : Fault}

theorem Told.reported (h : Told env d config path bytes fault) : fault.reported = true := by
  cases h <;> rfl

/-- **What ends a compilation under the settings in a file is told or escapes.** -/
theorem told_or_escapes (hload : Equation.load env d path = .ok qs)
    (hc : Circuit.ofEquations .default qs = .ok c) (hlistable : c.IsListable)
    (h : endUnder env d config path bytes = .error fault) :
    Told env d config path bytes fault ∨ Escapes env d config path bytes fault := by
  rw [endUnder] at h
  cases hsettings : Settings.ofBytes env.depth config bytes with
  | error cause =>
    rw [hsettings, error_bind] at h
    cases h
    obtain ⟨cause, rfl⟩ | hunread := Settings.fault_of_ofBytes env.leastDepth_le hsettings
    · exact Or.inl (.settings hsettings)
    · exact Or.inr (.unread hunread)
  | ok settings =>
    rw [hsettings, ok_bind] at h
    -- the program is turned down now, or it has the expressions that it has under the default
    obtain ⟨c', hc', he⟩ | ⟨digits, line, hlarge⟩ := Circuit.ofEquations_under hc settings
    · have hcircuit : circuitOf env settings d path = .ok c' := by
        rw [circuitOf, hload, ok_bind, hc']
      obtain ⟨listing, hprepare, hdocument⟩ :=
        exists_prepared (Settings.isShort_order_ofBytes hsettings) hload hc' none
      obtain ⟨document, hdocument⟩ := hdocument.mpr (hlistable.congr he)
      cases htarget : listingTarget settings path none with
      | ok target =>
        rw [htarget, ok_map] at hprepare
        cases hwritten : (writePrepared env d (prepare env settings d path none)).2 with
        | ok target =>
          rw [hwritten, ok_bind] at h
          exact Or.inr (.printing hsettings hwritten h)
        | error cause =>
          rw [hwritten, error_bind] at h
          cases h
          rw [hprepare] at hwritten
          have hfault := hwritten
          rw [snd_writePrepared, hdocument] at hfault
          obtain ⟨cause, rfl⟩ | hturns := fault_of_writeWhole (map_eq_error.mp hfault)
          · exact Or.inl (.disk hsettings hprepare hwritten)
          · exact Or.inr (.target hsettings hcircuit htarget hturns)
      | error cause =>
        rw [hprepare, htarget] at h
        cases h
        obtain ⟨rfl, htext, hpoints⟩ := listingTarget_eq_error_iff.mp htarget
        exact Or.inr (.suffix hsettings hcircuit htext hpoints)
    · have hcircuit : circuitOf env settings d path = .error (.badCoefficient digits line) := by
        rw [circuitOf, hload, ok_bind, hlarge]
      rw [prepare, hcircuit] at h
      cases h
      exact Or.inl (.coefficient hsettings hcircuit)

/-- What is prepared of a file that makes a circuit under accepted settings. -/
theorem exists_prepared_ofBytes
    (hsettings : Settings.ofBytes env.depth config bytes = .ok settings)
    (hc : circuitOf env settings d path = .ok c) :
    ∃ listing : Listing, prepare env settings d path none =
      (listingTarget settings path none).map (·, listing) := by
  obtain ⟨qs, hload, hc⟩ := bind_eq_ok.mp hc
  obtain ⟨listing, hprepare, -⟩ :=
    exists_prepared (Settings.isShort_order_ofBytes hsettings) hload hc none
  exact ⟨listing, hprepare⟩

/-- What escapes ends the compilation, and is not reported. -/
theorem Escapes.endUnder (h : Escapes env d config path bytes fault) :
    Session.endUnder env d config path bytes = .error fault ∧ fault.reported = false := by
  rw [Session.endUnder]
  cases h with
  | unread h =>
    rw [h.ofBytes config, error_bind]
    exact ⟨rfl, h.reported⟩
  | suffix hsettings hc htext hpoints =>
    obtain ⟨listing, hprepare⟩ := exists_prepared_ofBytes hsettings hc
    rw [hsettings, ok_bind, hprepare, listingTarget_eq_error_iff.mpr ⟨rfl, htext, hpoints⟩]
    exact ⟨rfl, rfl⟩
  | @target settings _ _ _ hsettings hc htarget h =>
    obtain ⟨listing, hprepare⟩ := exists_prepared_ofBytes hsettings hc
    have hfault : (writePrepared env d (prepare env settings d path none)).2 = .error fault := by
      rw [hprepare, htarget, ok_map, snd_writePrepared]
      exact map_eq_error.mpr (h.writeWhole _)
    rw [hsettings, ok_bind, hfault, error_bind]
    exact ⟨rfl, h.reported⟩
  | printing hsettings hwritten h =>
    rw [hsettings, ok_bind, hwritten, ok_bind]
    exact ⟨h, reported_pathLine h⟩

/-- The place of a listing under harmless settings is one that can be written to and printed. -/
theorem Harmless.target (h : Harmless env.depth config path bytes)
    (hdefault : ∀ fault,
      ¬TurnsDown env d (env.depth - 1) (outputTarget path none) fault)
    (hsettings : Settings.ofBytes env.depth config bytes = .ok settings) :
    ∃ target, listingTarget settings path none = .ok target ∧ target.IsPlain ∧
      ∀ fault, ¬TurnsDown env d (env.depth - 1) target fault := by
  obtain hsuffix | ⟨suffix, hsuffix, hnul, hparent⟩ := h.suffix settings hsettings
  · exact ⟨_, listingTarget_text hsuffix, Path.isPlain_ofText _, hdefault⟩
  · exact ⟨_, listingTarget_text hsuffix, Path.isPlain_ofText _, fun fault =>
      not_turnsDown_of_isPlain (Path.isPlain_ofText _) hnul hparent⟩

theorem Harmless.not_escapes (h : Harmless env.depth config path bytes)
    (hdefault : ∀ fault,
      ¬TurnsDown env d (env.depth - 1) (outputTarget path none) fault) :
    ¬Escapes env d config path bytes fault := by
  intro hescapes
  cases hescapes with
  | unread hunread =>
    obtain ⟨text, htext, hparse⟩ := h.read
    cases hunread with
    | undecodable hdecode => cases htext.symm.trans hdecode
    | tooManyDigits hdecode hdigits =>
      cases htext.symm.trans hdecode
      cases hparse _ hdigits
    | tooDeep hdecode hdeep =>
      cases htext.symm.trans hdecode
      cases hparse _ hdeep
  | suffix hsettings _ htext hpoints =>
    obtain ⟨target, htarget, -⟩ := h.target hdefault hsettings
    cases htarget.symm.trans (listingTarget_eq_error_iff.mpr ⟨rfl, htext, hpoints⟩)
  | target hsettings _ htarget hturns =>
    obtain ⟨target, htarget', -, hfine⟩ := h.target hdefault hsettings
    cases htarget.symm.trans htarget'
    exact hfine _ hturns
  | printing hsettings hwritten hfault =>
    obtain ⟨target, htarget, hplain, -⟩ := h.target hdefault hsettings
    obtain ⟨_, hfail, -⟩ | ⟨target', listing, -, hprepare, hok, -⟩ :=
      writePrepared_outcome Prod.mk.eta.symm
    · cases hwritten.symm.trans hfail
    · cases hwritten.symm.trans hok
      cases htarget.symm.trans (of_prepare hprepare).1
      rw [pathLine_of_isPlain env hplain] at hfault
      cases hfault

end Accepted

theorem toldOf_eq_error_iff {result : Except Fault Nat} {fault : Fault} :
    (toldOf result).1 = .error fault ↔ result = .error fault ∧ fault.reported = false := by
  cases result with
  | ok n => simp [toldOf]
  | error cause =>
    rw [toldOf]
    by_cases hreported : cause.reported = true
    · rw [if_pos hreported]
      constructor
      · intro h
        cases h
      · rintro ⟨h, hnot⟩
        cases h
        cases hreported.symm.trans hnot
    · rw [if_neg hreported]
      constructor
      · intro h
        cases h
        exact ⟨rfl, Bool.eq_false_of_not_eq_true hreported⟩
      · exact fun h => h.1

/-- The outcome of a command line that asks for a compilation under the settings in a file. -/
theorem run_compile {s : Session} {arguments : List String} {i : Invocation} {config : String}
    {bytes : List UInt8} (hi : Invocation.parse arguments = .ok i) (hcommand : i.command = .compile)
    (houtput : i.output = none) (hconfig : i.config = some config)
    (hread : s.disk.read env (Path.ofText config) = .ok bytes) :
    (run env s arguments).status =
        (toldOf ((endUnder env s.disk config i.circuit bytes).map fun _ => 0)).1 ∧
      (run env s arguments).complaint =
        (toldOf ((endUnder env s.disk config i.circuit bytes).map fun _ => 0)).2 ∧
      ∀ settings, Settings.ofBytes env.depth config bytes = .ok settings →
        (run env s arguments).session.disk =
          (writePrepared env s.disk (prepare env settings s.disk i.circuit none)).1 := by
  have hsettingsOf : settingsOf env s.disk i = Settings.ofBytes env.depth config bytes := by
    rw [settingsOf, hconfig]
    exact Settings.load_of_read hread
  rw [endUnder]
  cases hsettings : Settings.ofBytes env.depth config bytes with
  | error fault =>
    obtain ⟨-, hstatus, hcomplaint, -⟩ :=
      run_of_ends hi (ends_carryOut_of_error (hsettingsOf.trans hsettings))
    exact ⟨hstatus, hcomplaint, fun _ h => by cases h⟩
  | ok settings =>
    have hends : Ends (s.atStart settings i) (compile env settings i.circuit none) _ _ _ :=
      ends_compile Prod.mk.eta.symm
    have hcommandOf : commandOf env settings i = compile env settings i.circuit none := by
      rw [commandOf, hcommand, houtput]
    rw [← hcommandOf] at hends
    obtain ⟨hsession, hstatus, hcomplaint, -⟩ :=
      run_of_ends hi (ends_carryOut (hsettingsOf.trans hsettings) hends)
    refine ⟨hstatus, hcomplaint, fun settings' h => ?_⟩
    cases h
    rw [hsession]
    rfl

/-- **The settings in a file are carried through or turned down with a report,** if the file is
harmless. The program is one that compiles under the default settings, and the file may hold any
bytes. A command line that asks for its compilation has the status 0 and has written the listing, or
it has the status 2 and tells why. It ends without a status exactly if the file is not read as a
text or as JSON, or if the suffix in it is no text, or makes no path or one that cannot be
printed. -/
theorem compile_with_settings {s s' : Session} {arguments : List String} {i : Invocation}
    {config : String} {bytes : List UInt8} {lines : List String}
    (hi : Invocation.parse arguments = .ok i) (hcommand : i.command = .compile)
    (houtput : i.output = none) (hconfig : i.config = some config)
    (hread : s.disk.read env (Path.ofText config) = .ok bytes)
    (hcompiles : Ends s (compile env .default i.circuit none) s' (.ok 0) lines) :
    (Harmless env.depth config i.circuit bytes →
      (run env s arguments).status = .ok 0 ∨ (run env s arguments).status = .ok exitError) ∧
    (∀ fault, (run env s arguments).status = .error fault ↔
      Escapes env s.disk config i.circuit bytes fault) ∧
    ∀ n, (run env s arguments).status = .ok n →
      (n = 0 ∧ ∃ settings target listing text,
        Settings.ofBytes env.depth config bytes = .ok settings ∧
        prepare env settings s.disk i.circuit none = .ok (target, listing) ∧
        Json.toText (some listingIndent) listing.toValue = .ok text ∧
        (run env s arguments).session.disk.find target =
          .ok (.file (Text.encodeUtf8 (text ++ "\n").toList))) ∨
      (n = exitError ∧ ∃ fault, Told env s.disk config i.circuit bytes fault ∧
        (run env s arguments).complaint = "error: " ++ fault.message ++ "\n") := by
  obtain ⟨qs, c, hload, hc, hlistable, hdefault⟩ := of_ends_compile hcompiles
  obtain ⟨hstatus, hcomplaint, hdisk⟩ := run_compile hi hcommand houtput hconfig hread
  have hescapes : ∀ fault, (run env s arguments).status = .error fault ↔
      Escapes env s.disk config i.circuit bytes fault := by
    intro fault
    rw [hstatus, toldOf_eq_error_iff, map_eq_error]
    refine ⟨fun ⟨h, hnot⟩ => ?_, Escapes.endUnder⟩
    refine (told_or_escapes hload hc hlistable h).resolve_left fun htold => ?_
    cases hnot.symm.trans htold.reported
  refine ⟨fun hharmless => ?_, hescapes, fun n hn => ?_⟩
  · cases hend : endUnder env s.disk config i.circuit bytes with
    | ok shown =>
      rw [hend] at hstatus
      exact Or.inl hstatus
    | error fault =>
      obtain htold | hbad := told_or_escapes hload hc hlistable hend
      · rw [hend, error_map, toldOf, if_pos htold.reported] at hstatus
        exact Or.inr hstatus
      · exact absurd hbad (hharmless.not_escapes hdefault)
  · rw [hstatus] at hn
    cases hend : endUnder env s.disk config i.circuit bytes with
    | ok shown =>
      rw [hend] at hn
      cases hn
      obtain ⟨settings, hsettings, hend⟩ := bind_eq_ok.mp hend
      obtain ⟨target, hwritten, -⟩ := bind_eq_ok.mp hend
      obtain ⟨fault, hfault, -⟩ | ⟨target, listing, text, hprepare, -, htext, hfind, -⟩ :=
        writePrepared_outcome (Prod.mk.eta
          (p := writePrepared env s.disk (prepare env settings s.disk i.circuit none))).symm
      · cases hwritten.symm.trans hfault
      · rw [← hdisk settings hsettings] at hfind
        exact Or.inl ⟨rfl, settings, target, listing, text, hsettings, hprepare, htext, hfind⟩
    | error fault =>
      rw [hend, error_map] at hn hcomplaint
      obtain htold | hbad := told_or_escapes hload hc hlistable hend
      · rw [toldOf, if_pos htold.reported] at hn hcomplaint
        cases hn
        exact Or.inr ⟨rfl, fault, htold, hcomplaint⟩
      · rw [toldOf, if_neg (Bool.eq_false_iff.mp hbad.endUnder.2)] at hn
        cases hn

/-- A disk with a program in a file `f` and settings in a file `k`. -/
def sessionWith (settings : String) : Session :=
  ⟨(Disk.empty.withFile (.ofText "f") "a = 0".toUTF8.toList).withFile (.ofText "k")
    settings.toUTF8.toList, .unconfigured⟩

theorem parse_settingsArguments : Invocation.parse ["-c", "k", "compile", "f"] =
    .ok ⟨some "k", false, .compile, "f", none, []⟩ := by decide +kernel

theorem eq_text_of_same {v : Value} {s : String} (h : v.same (.text s) = true) : v = .text s := by
  cases v with
  | text t => exact congrArg Value.text (eq_of_beq h)
  | _ => cases h

/-- An order and a suffix. -/
def plainSettings : String := "\x7b\"field_modulus\": 97, \"output_suffix\": \".out\"\x7d"

/-- Settings with a small order and another suffix are harmless, and carried through. -/
theorem compile_with_settings_plain :
    Harmless Environment.reliable.depth "k" "f" plainSettings.toUTF8.toList ∧
      ((run .reliable (sessionWith plainSettings) ["-c", "k", "compile", "f"]).status = .ok 0 ∨
        (run .reliable (sessionWith plainSettings) ["-c", "k", "compile", "f"]).status =
          .ok exitError) := by
  let s := sessionWith plainSettings
  have hread : s.disk.read .reliable (Path.ofText "k") = .ok plainSettings.toUTF8.toList :=
    eq_ok_of_toOption (by decide +kernel)
  have hwritten : (writePrepared .reliable s.disk (prepare .reliable .default s.disk "f" none)).2 =
      .ok (.ofText "f.gates.json") := eq_ok_of_toOption (by decide +kernel)
  have hends : Ends s (compile .reliable .default "f" none) _ _ _ := ends_compile Prod.mk.eta.symm
  rw [hwritten] at hends
  have hdecode : Text.decodeUtf8 plainSettings.toUTF8.toList = .ok plainSettings.toList :=
    eq_ok_of_toOption (by decide +kernel)
  have hparse : (Json.parse (Environment.reliable.depth - Settings.stepsOutsideReading)
      (Text.unifyNewlines plainSettings.toList)).toOption.isSome = true := by decide +kernel
  have hsuffix : (Settings.ofBytes Environment.reliable.depth "k" plainSettings.toUTF8.toList).map
      (·.outputSuffix.same (.text ".out")) = .ok true := eq_ok_of_toOption (by decide +kernel)
  have hharmless : Harmless Environment.reliable.depth "k" "f" plainSettings.toUTF8.toList := by
    refine ⟨⟨_, hdecode, fun error herror => ?_⟩, fun settings hsettings => Or.inr ?_⟩
    · rw [herror] at hparse
      cases hparse
    · rw [hsettings] at hsuffix
      exact ⟨".out", eq_text_of_same (Except.ok.inj hsuffix), by decide +kernel,
        by decide +kernel⟩
  exact ⟨hharmless,
    (compile_with_settings parse_settingsArguments rfl rfl rfl hread hends).1 hharmless⟩

/-- A suffix that is no text. -/
def numberSuffix : String := "\x7b\"output_suffix\": 5\x7d"

/-- Settings with a number as the suffix are accepted. The program compiles without them, and with
them its compilation ends without a status. -/
theorem compile_numberSuffix :
    (run .reliable (sessionWith numberSuffix) ["compile", "f"]).status = .ok 0 ∧
      (run .reliable (sessionWith numberSuffix) ["-c", "k", "compile", "f"]).status =
        .error (.textAppend "int") ∧
      (Fault.textAppend "int").reported = false := by
  let s := sessionWith numberSuffix
  have hread : s.disk.read .reliable (Path.ofText "k") = .ok numberSuffix.toUTF8.toList :=
    eq_ok_of_toOption (by decide +kernel)
  have hkind : ((Settings.ofBytes Environment.reliable.depth "k"
      numberSuffix.toUTF8.toList >>= fun settings =>
      (circuitOf .reliable settings s.disk "f").map fun _ => settings.outputSuffix.kind)) =
        .ok "int" := eq_ok_of_toOption (by decide +kernel)
  obtain ⟨settings, hsettings, hkind⟩ := bind_eq_ok.mp hkind
  obtain ⟨c, hc, hkind⟩ := map_eq_ok.mp hkind
  have hescapes : Escapes .reliable s.disk "k" "f" numberSuffix.toUTF8.toList
      (.textAppend settings.outputSuffix.kind) := by
    refine .suffix hsettings hc (fun text htext => ?_) fun points hpoints => ?_
    · rw [htext] at hkind
      exact absurd (show "str" = "int" from hkind) (by decide)
    · rw [hpoints] at hkind
      exact absurd (show "str" = "int" from hkind) (by decide)
  refine ⟨eq_ok_of_toOption (by decide +kernel), ?_, rfl⟩
  rw [(run_compile parse_settingsArguments rfl rfl rfl hread).1, toldOf_eq_error_iff, map_eq_error,
    ← hkind]
  exact hescapes.endUnder

end Session

end PlonkGates
