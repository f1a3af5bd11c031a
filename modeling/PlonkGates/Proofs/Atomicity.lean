import PlonkGates.Proofs.Compiling
import PlonkGates.Proofs.JsonRoundtrip

/-!
# A file is written as a whole or not at all

Any step of writing a file may fail, also halfway. Whatever happens, a disk is left on which all
files are what they were before, but for the one that was written if all went well. Directories that
were missing on the way to it may have been added (`Disk.Adds`), and nothing else.

What was written is all there: the listing is read back from the file (`Listing.parse_toText`).

The temporary file has a name that nothing else has (`get?_temporaryKey`). So taking it away at the
end gives back the disk from before it was made (`get?_erase_of_away`), whatever had been written to
it by then.
-/

namespace PlonkGates

/-! ## Fresh names -/

theorem DiskTree.child_of_not_mem {t : DiskTree} {name : DiskName} (h : name ∉ t.names) :
    t.child name = (none, bare) := by
  induction t with
  | bare => rfl
  | node n entry below beside _ ih =>
    obtain ⟨hne, hrest⟩ := not_or.mp (fun hmem => h (List.mem_cons.mpr hmem))
    rw [child, if_neg (Ne.symm hne), ih hrest]

theorem Text.CodePoints.encode_append (s t : CodePoints) :
    (s.append t).encode = s.encode ++ t.encode := List.flatMap_append

namespace Disk

open Text (CodePoints)

variable {env : Environment} {d d' d'' : Disk} {p : Path} {key other : DiskKey}

theorem le_foldl_max (lengths : List Nat) (least : Nat) :
    least ≤ lengths.foldl max least ∧ ∀ n ∈ lengths, n ≤ lengths.foldl max least := by
  induction lengths generalizing least with
  | nil => exact ⟨Nat.le_refl least, by simp⟩
  | cons m lengths ih =>
    obtain ⟨hleast, hall⟩ := ih (max least m)
    rw [List.foldl_cons]
    exact ⟨Nat.le_trans (Nat.le_max_left least m) hleast,
      List.forall_mem_cons.mpr ⟨Nat.le_trans (Nat.le_max_right least m) hleast, hall⟩⟩

/-- A fresh name is longer than every name in the directory, and than a double dot. -/
theorem length_freshName (directory : DiskTree) (base : CodePoints) :
    2 < (freshName directory base).encode.length ∧
      ∀ name ∈ directory.names, name.length < (freshName directory base).encode.length := by
  obtain ⟨hleast, hall⟩ := le_foldl_max (directory.names.map List.length) 8
  have hfill : ∀ n, (CodePoints.ofChars (List.replicate n '_')).encode.length = n := by
    intro n
    have hbytes : CodePoints.pointBytes '_'.toNat = [0x5f] := by decide
    rw [CodePoints.ofChars, List.map_replicate, CodePoints.encode, List.flatMap_replicate, hbytes,
      List.length_flatten]
    simp
  rw [freshName, Text.CodePoints.encode_append, List.length_append, hfill]
  refine ⟨by omega, fun name hname => ?_⟩
  have hlength := hall name.length (List.mem_map_of_mem hname)
  omega

theorem freshName_not_mem (directory : DiskTree) (base : CodePoints) :
    (freshName directory base).encode ∉ directory.names := fun hmem =>
  Nat.lt_irrefl _ ((length_freshName directory base).2 _ hmem)

theorem isBase_append {name : DiskName} (h : 2 < name.length) (key : DiskKey) :
    isBase (key ++ [name]) = false := by
  have hdots : name ≠ upName := by
    rintro rfl
    exact absurd h (by decide)
  have hroot : key ++ [name] ≠ [rootName] := by
    intro heq
    have hlast : name = rootName := by simpa using congrArg List.getLast? heq
    rw [hlast] at h
    exact absurd h (by decide)
  simp [isBase, hroot, hdots]

/-! ## Entries -/

theorem get?_put_of_ne (h : key ≠ other) (entry : DiskEntry) :
    (d.put key entry).get? other = d.get? other := by
  rw [get?, get?, put, DiskTree.get?_put_ne d.tree _ h]

theorem get?_erase_of_ne (h : key ≠ other) : (d.erase key).get? other = d.get? other := by
  rw [get?, get?, erase, DiskTree.get?_put_ne d.tree _ h]

theorem ne_nil_of_isBase (hkey : isBase key = false) : key ≠ [] := by
  rintro rfl
  cases hkey

theorem get?_put_self (hkey : isBase key = false) (entry : DiskEntry) :
    (d.put key entry).get? key = some entry := by
  rw [get?, hkey, put]
  exact DiskTree.get?_put d.tree _ (ne_nil_of_isBase hkey)

theorem get?_erase_self (hkey : isBase key = false) : (d.erase key).get? key = none := by
  rw [get?, hkey, erase]
  exact DiskTree.get?_put d.tree none (ne_nil_of_isBase hkey)

/-- What changed at one key alone is as before without the entry there, if there was none. -/
theorem get?_erase_of_away (hkey : isBase key = false) (hfree : d.get? key = none)
    (haway : ∀ other, key ≠ other → d'.get? other = d.get? other) (other : DiskKey) :
    (d'.erase key).get? other = d.get? other := by
  by_cases hother : key = other
  · rw [← hother, get?_erase_self hkey, hfree]
  · rw [get?_erase_of_ne hother, haway other hother]

/-! ## The keys of places -/

namespace Walk

variable {w v : Walk}

/-- What a walk knows of the disk: the tree that is below it, and that nothing is there. -/
structure Sound (d : Disk) (w : Walk) : Prop where
  below : w.below = d.tree.subtree w.key
  entry : w.entry = none → d.tree.get? w.key = none

theorem key_ofKey (d : Disk) (key : DiskKey) : (ofKey d key).key = key := List.reverse_reverse key

theorem sound_ofKey (d : Disk) (key : DiskKey) : Sound d (ofKey d key) where
  below := by rw [key_ofKey, ofKey]
  entry := by
    rw [key_ofKey, ofKey, Disk.get?]
    split_ifs
    · exact fun hnone => by cases hnone
    · exact id

theorem Sound.onTo (h : Sound d w) (name : DiskName) : Sound d (w.onTo d name) := by
  by_cases hname : name = upName
  · rw [Walk.onTo, if_pos hname]
    exact sound_ofKey d _
  · rw [onTo_of_below h.below hname]
    exact ⟨by rw [key_cons]; rfl, fun hnone => by rw [key_cons]; exact hnone⟩

theorem back_onTo (d : Disk) (w : Walk) (name : DiskName) :
    (w.onTo d name).back = if name = upName then above w.back else name :: w.back := by
  rw [Walk.onTo]
  split_ifs
  · exact List.reverse_reverse _
  · rfl

end Walk

theorem follow_sound {w v : Walk} {names : List DiskName} (hw : w.Sound d)
    (h : d.follow w names = .ok v) : v.Sound d ∧ v.key = keyFrom w.key names := by
  induction names generalizing w with
  | nil =>
    cases h
    exact ⟨hw, by rw [keyFrom, Walk.key, List.reverse_reverse]; rfl⟩
  | cons name names ih =>
    obtain ⟨-, -, hrest⟩ := follow_cons_eq_ok_iff.mp h
    obtain ⟨hsound, hkey⟩ := ih (hw.onTo name) hrest
    refine ⟨hsound, hkey.trans ?_⟩
    rw [keyFrom, keyFrom, Walk.key, Walk.key, List.reverse_reverse, List.reverse_reverse,
      Walk.back_onTo, List.foldl_cons]

theorem locate_sound {place : Walk} (h : d.locate p = .ok place) :
    place.Sound d ∧ place.key = keyOf p := by
  obtain ⟨hsound, hkey⟩ := follow_sound (Walk.sound_ofKey d _) (locate_eq_ok_iff.mp h).2
  rw [Walk.key_ofKey] at hkey
  exact ⟨hsound, hkey⟩

/-- Nothing is on the disk where a temporary file is made. -/
theorem get?_temporaryKey {place : Walk} (h : d.locate p = .ok place) (base : CodePoints) :
    isBase (temporaryKey place base) = false ∧ d.get? (temporaryKey place base) = none := by
  have hbase := isBase_append (length_freshName place.below base).1 place.key
  have hchild := DiskTree.child_of_not_mem (freshName_not_mem place.below base)
  have hentry := DiskTree.child_subtree d.tree place.key (freshName place.below base).encode
  rw [← (locate_sound h).1.below, hchild] at hentry
  refine ⟨hbase, ?_⟩
  rw [get?, temporaryKey, hbase, if_neg Bool.false_ne_true]
  exact (Prod.mk.inj hentry).1.symm

/-! ## Directories that are added -/

/-- The key of a directory on the way to a path, or of the path itself. -/
def OnWay (p : Path) (key : DiskKey) : Prop :=
  ∃ before, before <+: p.parts ∧ key = keyOf ⟨p.root, before⟩

/-- A disk has the entry of another one at a key, or a directory where that one had none. -/
def KeepsEntry (new : DiskKey → Prop) (d d' : Disk) (key : DiskKey) : Prop :=
  d'.get? key = d.get? key ∨ (new key ∧ d.get? key = none ∧ d'.get? key = some .directory)

/-- A disk has all entries of another one, and directories beside them. -/
def Adds (new : DiskKey → Prop) (d d' : Disk) : Prop := ∀ key, KeepsEntry new d d' key

variable {new new' : DiskKey → Prop}

theorem KeepsEntry.trans (h : KeepsEntry new d d' key) (h' : KeepsEntry new d' d'' key) :
    KeepsEntry new d d'' key := by
  rcases h' with hsame | ⟨hnew, hnone, hdirectory⟩
  · rwa [KeepsEntry, hsame]
  · rcases h with hsame | ⟨-, -, hfull⟩
    · exact Or.inr ⟨hnew, hsame ▸ hnone, hdirectory⟩
    · rw [hfull] at hnone
      cases hnone

theorem KeepsEntry.mono (h : KeepsEntry new d d' key) (hnew : new key → new' key) :
    KeepsEntry new' d d' key :=
  h.imp_right fun hadded => ⟨hnew hadded.1, hadded.2⟩

theorem Adds.refl (new : DiskKey → Prop) (d : Disk) : Adds new d d := fun _ => Or.inl rfl

theorem Adds.trans (h : Adds new d d') (h' : Adds new d' d'') : Adds new d d'' := fun key =>
  (h key).trans (h' key)

theorem Adds.mono (h : Adds new d d') (hnew : ∀ key, new key → new' key) : Adds new' d d' :=
  fun key => (h key).mono (hnew key)

theorem makeDirectory_adds (env : Environment) (d : Disk) (p : Path) (again : Bool) :
    Adds (OnWay p) d (d.makeDirectory env p again).1 := by
  unfold makeDirectory
  cases env.failure (.makeDirectory p again) with
  | some error => exact .refl _ d
  | none =>
    cases hplace : d.locate p with
    | error error => exact .refl _ d
    | ok place =>
      dsimp only
      split_ifs with hentry
      · exact .refl _ d
      · obtain ⟨hsound, hkey⟩ := locate_sound hplace
        have hnone := hsound.entry (Option.not_isSome_iff_eq_none.mp hentry)
        intro key
        by_cases hsame : place.key = key
        · subst hsame
          cases hbase : isBase place.key with
          | true => exact Or.inl (by rw [get?, get?, hbase]; rfl)
          | false =>
            refine Or.inr ⟨⟨p.parts, List.prefix_refl _, hkey⟩, ?_, get?_put_self hbase _⟩
            rw [get?, hbase]
            exact hnone
        · exact Or.inl (get?_put_of_ne hsame _)

theorem fst_excuse (p : Path) (x : Disk × Except DiskError Unit) : (excuse p x).1 = x.1 := by
  obtain ⟨d, result⟩ := x
  cases result with
  | ok _ => rfl
  | error error =>
    rw [excuse]
    split_ifs <;> rfl

/-- **Only directories on the way are made,** also when one of them cannot be made. -/
theorem ensureDirectory_adds (env : Environment) (d : Disk) (root : String) (waiting : Nat)
    (names : List CodePoints) :
    Adds (OnWay ⟨root, names.reverse⟩) d (ensureDirectory env d root waiting names).1 := by
  induction names generalizing d waiting with
  | nil =>
    cases waiting with
    | zero => exact .refl _ d
    | succ waiting =>
      rw [ensureDirectory, fst_excuse]
      exact makeDirectory_adds env d _ false
  | cons name above ih =>
    cases waiting with
    | zero => exact .refl _ d
    | succ waiting =>
      -- what is on the way to the directory above is on the way to this one
      have hway : ∀ key, OnWay ⟨root, above.reverse⟩ key →
          OnWay ⟨root, (name :: above).reverse⟩ key := by
        rintro key ⟨before, hbefore, rfl⟩
        exact ⟨before, hbefore.trans (by simp), rfl⟩
      have hmake := makeDirectory_adds env d ⟨root, (name :: above).reverse⟩ false
      rw [ensureDirectory]
      cases hfirst : d.makeDirectory env ⟨root, (name :: above).reverse⟩ false with
      | mk d₁ result =>
        rw [hfirst] at hmake
        by_cases hmissing : result = .error .notFound
        · subst hmissing
          dsimp only
          have habove := (ih d₁ waiting).mono hway
          cases hresult : ensureDirectory env d₁ root waiting above with
          | mk d₂ result =>
            rw [hresult] at habove
            cases result with
            | error fault => exact hmake.trans habove
            | ok _ =>
              rw [fst_excuse]
              exact (hmake.trans habove).trans (makeDirectory_adds env d₂ _ true)
        · cases result with
          | ok _ => exact hmake
          | error error =>
            cases error
            case notFound => exact absurd rfl hmissing
            all_goals
              rw [fst_excuse]
              exact hmake

/-! ## Writing -/

section Whole

variable {depth : Nat} {target : Path} {content : Except Fault String}
  {result : Except Fault Unit}

theorem makeWay_adds : Adds (OnWay target.parent) d (d.makeWay env depth target).1 := by
  have hadds := ensureDirectory_adds env d target.parent.root
    (depth - stepsAroundDirectories) target.parent.parts.reverse
  rwa [List.reverse_reverse] at hadds

/-- A move that fails leaves the disk as it is. -/
theorem replace_cases (env : Environment) (d : Disk) (key : DiskKey) (source target : Path)
    (bytes : List UInt8) :
    (∃ cause, d.replace env key source target bytes = (d, .error (.disk cause))) ∨
      ∃ d', d.replace env key source target bytes = (d', .ok ()) := by
  unfold replace
  dsimp only
  split_ifs
  · exact Or.inl ⟨_, rfl⟩
  · cases env.failure (.replace target) with
    | some error => exact Or.inl ⟨_, rfl⟩
    | none =>
      cases d.locate target with
      | error error => exact Or.inl ⟨_, rfl⟩
      | ok place =>
        dsimp only
        cases place.entry with
        | none => exact Or.inr ⟨_, rfl⟩
        | some entry =>
          cases entry with
          | file old => exact Or.inr ⟨_, rfl⟩
          | directory => exact Or.inl ⟨_, rfl⟩

/-- **Filling and moving a temporary file changes the target or nothing.** If a step fails, the
temporary file is gone again. -/
theorem get?_cleanUp (hkey : isBase key = false) (hfree : d.get? key = none) (temporary : Path)
    (hresult : cleanUp key ((d.put key (.file [])).fillAndMove env key temporary p content) =
      (d', result)) :
    (∃ fault, result = .error fault ∧ ∀ other, d'.get? other = d.get? other) ∨
      ∃ text, result = .ok () ∧ content = .ok text ∧
        d'.find p = .ok (.file (Text.encodeUtf8 text.toList)) ∧
        ∀ other, keyOf p ≠ other → d'.get? other = d.get? other := by
  have haway : ∀ other, key ≠ other → (d.put key (.file [])).get? other = d.get? other :=
    fun other hother => get?_put_of_ne hother _
  cases content with
  | error fault =>
    cases hresult
    exact Or.inl ⟨fault, rfl, get?_erase_of_away hkey hfree haway⟩
  | ok text =>
    rw [fillAndMove] at hresult
    -- whatever was written, it was written to the temporary file
    have hfilled : ∀ bytes other, key ≠ other →
        ((d.put key (.file [])).put key (.file bytes)).get? other = d.get? other :=
      fun bytes other hother => (get?_put_of_ne hother _).trans (haway other hother)
    cases henv : env.failure (.write p) with
    | some error =>
      rw [henv] at hresult
      cases hresult
      exact Or.inl ⟨_, rfl, get?_erase_of_away hkey hfree (hfilled _)⟩
    | none =>
      rw [henv] at hresult
      dsimp only at hresult
      have hfile : ∀ bytes, ((d.put key (.file [])).put key (.file bytes)).tree.get? key ≠
          some .directory := fun bytes hdirectory =>
        ((get?_put_file_eq_directory (ne_nil_of_isBase hkey) bytes key).mp hdirectory).1 rfl
      obtain ⟨cause, hfail⟩ | ⟨moved, hmoved⟩ := replace_cases env _ key temporary p
        (Text.encodeUtf8 text.toList)
      · rw [hfail] at hresult
        cases hresult
        exact Or.inl ⟨_, rfl, get?_erase_of_away hkey hfree (hfilled _)⟩
      · rw [hmoved] at hresult
        cases hresult
        refine Or.inr ⟨text, rfl, rfl, find_of_replace (hfile _) hmoved, fun other hother => ?_⟩
        obtain ⟨-, -, place, hplace, -, rfl⟩ := replace_eq_ok_iff.mp hmoved
        rw [← (locate_sound hplace).2] at hother
        rw [get?_put_of_ne hother]
        exact get?_erase_of_away hkey hfree (hfilled _) other

/-- **A file is written as a whole or not at all.** The content is at the target, or nothing has
changed but for directories on the way to it. -/
theorem writeWhole_outcome
    (hresult : d.writeWhole env depth target content = (d', result)) :
    (∃ fault, result = .error fault ∧ Adds (OnWay target.parent) d d') ∨
      ∃ text, result = .ok () ∧ content = .ok text ∧
        d'.find target = .ok (.file (Text.encodeUtf8 text.toList)) ∧
        ∀ other, keyOf target ≠ other → KeepsEntry (OnWay target.parent) d d' other := by
  have hway : Adds (OnWay target.parent) d (d.makeWay env depth target).1 := makeWay_adds
  obtain ⟨d₁, fault, hd₁, -, hfail⟩ | ⟨place, temporary, hplace, hwrite⟩ :=
    writeWhole_cases env d depth target
  · rw [hfail] at hresult
    cases hresult
    refine Or.inl ⟨fault, rfl, ?_⟩
    rcases hd₁ with rfl | rfl
    · exact .refl _ _
    · exact hway
  · rw [hwrite] at hresult
    obtain ⟨hkey, hfree⟩ := get?_temporaryKey hplace target.name
    obtain ⟨fault, hfault, hsame⟩ | ⟨text, hok, hcontent, hfind, hsame⟩ :=
      get?_cleanUp hkey hfree temporary hresult
    · exact Or.inl ⟨fault, hfault, hway.trans fun other => Or.inl (hsame other)⟩
    · exact Or.inr ⟨text, hok, hcontent, hfind, fun other hother =>
        (hway other).trans (Or.inl (hsame other hother))⟩

end Whole

end Disk

/-! ## The command -/

theorem Json.document_eq_ok {depth : Nat} {indent : Option Nat} {v : Value} {document : String}
    (h : Json.document depth indent v = .ok document) :
    ∃ text, Json.toText indent v = .ok text ∧ document = text ++ "\n" := by
  rw [Json.document] at h
  split_ifs at h
  obtain ⟨text, htext, hdocument⟩ := map_eq_ok.mp h
  exact ⟨text, htext, hdocument.symm⟩

namespace Session

open Disk Run

/-- What is prepared is the listing of a lowered circuit and the place where it goes. -/
theorem of_prepare {env : Environment} {settings : Settings} {d : Disk} {path : String}
    {output : Option String} {target : Path} {listing : Listing}
    (h : prepare env settings d path output = .ok (target, listing)) :
    listingTarget settings path output = .ok target ∧
      ∃ c l, Listing.ofLowered c l path = .ok listing := by
  obtain ⟨c, -, h⟩ := bind_eq_ok.mp h
  obtain ⟨l, -, h⟩ := bind_eq_ok.mp h
  obtain ⟨target', htarget, h⟩ := bind_eq_ok.mp h
  obtain ⟨listing', hlisting, h⟩ := bind_eq_ok.mp h
  cases h
  exact ⟨htarget, c, l, hlisting⟩

/-- What is prepared is written as a whole or not at all. -/
theorem writePrepared_outcome {env : Environment} {d d' : Disk}
    {prepared : Except Fault (Path × Listing)} {result : Except Fault Path}
    (h : writePrepared env d prepared = (d', result)) :
    (∃ fault, result = .error fault ∧
      d.Adds (fun key => ∃ x, prepared = .ok x ∧ OnWay x.1.parent key) d') ∨
    ∃ target listing text, prepared = .ok (target, listing) ∧ result = .ok target ∧
      Json.toText (some listingIndent) listing.toValue = .ok text ∧
      d'.find target = .ok (.file (Text.encodeUtf8 (text ++ "\n").toList)) ∧
      ∀ key, keyOf target ≠ key → d.KeepsEntry (OnWay target.parent) d' key := by
  cases prepared with
  | error fault =>
    cases h
    exact Or.inl ⟨fault, rfl, .refl _ _⟩
  | ok prepared =>
    obtain ⟨target, listing⟩ := prepared
    cases hwrite : d.writeJson env (env.depth - 1) target (some listingIndent)
        listing.toValue with
    | mk d₁ written =>
      rw [writePrepared, hwrite] at h
      cases h
      obtain ⟨fault, rfl, hadds⟩ | ⟨document, rfl, hdocument, hfind, hkeeps⟩ :=
        writeWhole_outcome hwrite
      · exact Or.inl ⟨fault, rfl, hadds.mono fun key hkey => ⟨_, rfl, hkey⟩⟩
      · obtain ⟨text, htext, rfl⟩ := Json.document_eq_ok hdocument
        exact Or.inr ⟨target, listing, text, rfl, rfl, htext, hfind, hkeeps⟩

end Session

end PlonkGates
