import PlonkGates.Disk.Write
import PlonkGates.Proofs.Outcome

/-!
# A file that was written is there

A file is written under a temporary name and then moved, and a path may lead to its place through
`..` and back. Neither matters in the end: a path leads to the same place on two disks if the one
has the directories of the other (`Disk.Keeps`, `locate_of_keeps`). Writing takes no directory away,
so the path to the file leads to it afterwards.

Whether a file can be written does not depend on what is in it (`CanWrite.exists_written`).
-/

namespace PlonkGates

/-- One name further in a tree. -/
theorem DiskTree.child_subtree (t : DiskTree) (key : DiskKey) (name : DiskName) :
    (t.subtree key).child name = (t.get? (key ++ [name]), t.subtree (key ++ [name])) := by
  induction key generalizing t with
  | nil => rfl
  | cons first rest ih =>
    cases rest with
    | nil => rfl
    | cons second rest => exact ih (t.child first).2

namespace Disk

open Text (CodePoints)

/-! ## The same place on two disks -/

variable {env : Environment} {d d' : Disk}

/-- What is a directory on one disk is one on the other. -/
def Keeps (d d' : Disk) : Prop :=
  ∀ key, d.tree.get? key = some .directory → d'.tree.get? key = some .directory

theorem Keeps.refl (d : Disk) : Keeps d d := fun _ h => h

theorem Keeps.trans {d'' : Disk} (h : Keeps d d') (h' : Keeps d' d'') : Keeps d d'' :=
  fun key hkey => h' key (h key hkey)

theorem Keeps.get? (h : Keeps d d') {key : DiskKey} (hkey : d.get? key = some .directory) :
    d'.get? key = some .directory := by
  unfold Disk.get? at hkey ⊢
  split_ifs at hkey ⊢ with hbase
  · rfl
  · exact h key hkey

/-- A change where no directory is keeps all directories. -/
theorem keeps_put {key : DiskKey} (hkey : d.tree.get? key ≠ some .directory)
    (entry : Option DiskEntry) : Keeps d ⟨d.tree.put entry key⟩ := by
  intro other hother
  have hne : key ≠ other := fun h => hkey (h ▸ hother)
  rw [← hother]
  exact DiskTree.get?_put_ne d.tree entry hne

/-- Walks over two disks that are at one place. On the way only directories are passed, so it is
enough that these are there on the second disk. -/
structure Walk.Alike (d d' : Disk) (w w' : Walk) : Prop where
  back : w'.back = w.back
  below : w.below = d.tree.subtree w.key
  below' : w'.below = d'.tree.subtree w.key
  entry : w.entry = some .directory → w'.entry = some .directory

namespace Walk

theorem alike_ofKey (h : Keeps d d') (key : DiskKey) : Alike d d' (ofKey d key) (ofKey d' key) where
  back := rfl
  below := by rw [ofKey, Walk.key, List.reverse_reverse]
  below' := by rw [ofKey, ofKey, Walk.key, List.reverse_reverse]
  entry := h.get?

variable {w w' : Walk} {name : DiskName}

/-- A name other than `..` leads one entry further down. -/
theorem onTo_of_below (hbelow : w.below = d.tree.subtree w.key) (hname : name ≠ upName) :
    w.onTo d name = ⟨name :: w.back, d.tree.get? (w.key ++ [name]),
      d.tree.subtree (w.key ++ [name])⟩ := by
  rw [onTo, if_neg hname, hbelow, DiskTree.child_subtree]

theorem key_cons (name : DiskName) (back : DiskKey) (entry : Option DiskEntry)
    (below : DiskTree) : key ⟨name :: back, entry, below⟩ = back.reverse ++ [name] :=
  List.reverse_cons

theorem Alike.onTo (h : Keeps d d') (hw : Alike d d' w w') (name : DiskName) :
    Alike d d' (w.onTo d name) (w'.onTo d' name) := by
  have hkey : w'.key = w.key := congrArg List.reverse hw.back
  by_cases hname : name = upName
  · rw [Walk.onTo, Walk.onTo, if_pos hname, if_pos hname, hw.back]
    exact alike_ofKey h _
  · rw [onTo_of_below hw.below hname, onTo_of_below (hkey ▸ hw.below') hname, hkey]
    exact ⟨congrArg (name :: ·) hw.back, by rw [key_cons]; rfl, by rw [key_cons]; rfl, h _⟩

end Walk

theorem follow_append (w : Walk) (before after : List DiskName) :
    d.follow w (before ++ after) = d.follow w before >>= fun v => d.follow v after := by
  induction before generalizing w with
  | nil => rfl
  | cons name before ih =>
    rw [List.cons_append, follow, follow]
    cases w.entry with
    | none => rfl
    | some entry =>
      cases entry with
      | file bytes => rfl
      | directory =>
        dsimp only
        split_ifs with hlong
        · rfl
        · exact ih (w.onTo d name)

/-- A name can be followed from a directory if it is not too long. -/
theorem follow_cons_eq_ok_iff {w v : Walk} {name : DiskName} {rest : List DiskName} :
    d.follow w (name :: rest) = .ok v ↔ w.entry = some .directory ∧
      name.length ≤ maxNameLength ∧ d.follow (w.onTo d name) rest = .ok v := by
  rw [follow]
  cases hentry : w.entry with
  | none => simp
  | some entry =>
    cases entry with
    | file bytes => simp
    | directory =>
      by_cases hlong : name.length > maxNameLength
      · simp [hlong, Nat.not_le.mpr hlong]
      · simp [hlong, Nat.not_lt.mp hlong]

/-- **Names lead to the same place on both disks.** -/
theorem follow_of_keeps (h : Keeps d d') {w w' v : Walk} (hw : Walk.Alike d d' w w')
    {names : List DiskName} (hfollow : d.follow w names = .ok v) :
    ∃ v', d'.follow w' names = .ok v' ∧ Walk.Alike d d' v v' := by
  induction names generalizing w w' with
  | nil =>
    cases hfollow
    exact ⟨w', rfl, hw⟩
  | cons name names ih =>
    obtain ⟨hentry, hshort, hrest⟩ := follow_cons_eq_ok_iff.mp hfollow
    obtain ⟨v', hv', halike⟩ := ih (hw.onTo h name) hrest
    exact ⟨v', follow_cons_eq_ok_iff.mpr ⟨hw.entry hentry, hshort, hv'⟩, halike⟩

theorem locate_eq_ok_iff {p : Path} {place : Walk} :
    d.locate p = .ok place ↔ p.byteSize ≤ maxPathLength ∧
      d.follow (.ofKey d (startKey p)) (namesOf p) = .ok place := by
  rw [locate]
  by_cases hlong : p.byteSize > maxPathLength
  · simp [hlong, Nat.not_le.mpr hlong]
  · simp [hlong, Nat.not_lt.mp hlong]

/-- The last name of a path is one that a file may have. -/
def IsFilePath (p : Path) : Prop := ¬(p.name.encode = [] ∨ p.name.encode = upName)

theorem exists_namesOf {p : Path} (h : IsFilePath p) :
    ∃ before, namesOf p = before ++ [p.name.encode] := by
  cases hparts : p.parts.getLast? with
  | none => exact absurd (Or.inl (by rw [Path.name, hparts]; rfl)) h
  | some last =>
    obtain ⟨before, hbefore⟩ := List.getLast?_eq_some_iff.mp hparts
    refine ⟨before.map (·.encode), ?_⟩
    rw [namesOf, hbefore, Path.name, hparts, List.map_append]
    rfl

/-- **A path to a file leads to the same key on both disks,** and to what is there. -/
theorem locate_of_keeps (h : Keeps d d') {p : Path} (hname : IsFilePath p) {place : Walk}
    (hplace : d.locate p = .ok place) :
    place.key ≠ [] ∧ place.entry = d.tree.get? place.key ∧
      ∃ place', d'.locate p = .ok place' ∧ place'.key = place.key ∧
        place'.entry = d'.tree.get? place.key := by
  obtain ⟨hsize, hfollow⟩ := locate_eq_ok_iff.mp hplace
  obtain ⟨before, hparts⟩ := exists_namesOf hname
  have hdots : p.name.encode ≠ upName := fun hdots => hname (Or.inr hdots)
  -- the names before the last one lead to a directory, and from there the last one leads down
  rw [hparts, follow_append] at hfollow
  obtain ⟨v, hv, hlast⟩ := bind_eq_ok.mp hfollow
  obtain ⟨v', hv', halike⟩ := follow_of_keeps h (Walk.alike_ofKey h _) hv
  obtain ⟨hentry, hshort, hend⟩ := follow_cons_eq_ok_iff.mp hlast
  have hkey : v'.key = v.key := congrArg List.reverse halike.back
  have hlast' : d'.follow v' [p.name.encode] = .ok (v'.onTo d' p.name.encode) :=
    follow_cons_eq_ok_iff.mpr ⟨halike.entry hentry, hshort, rfl⟩
  cases hend
  rw [Walk.onTo_of_below halike.below hdots, Walk.key_cons]
  refine ⟨by simp, rfl, v'.onTo d' p.name.encode, ?_, ?_⟩
  · refine locate_eq_ok_iff.mpr ⟨hsize, ?_⟩
    rw [hparts, follow_append]
    exact bind_eq_ok.mpr ⟨v', hv', hlast'⟩
  · rw [Walk.onTo_of_below (hkey ▸ halike.below') hdots, Walk.key_cons, ← Walk.key, hkey]
    exact ⟨rfl, rfl⟩

/-! ## Moving a file into place -/

theorem replace_eq_ok_iff {key : DiskKey} {source target : Path} {bytes : List UInt8} :
    d.replace env key source target bytes = (d', .ok ()) ↔
      IsFilePath target ∧ env.failure (.replace target) = none ∧
        ∃ place, d.locate target = .ok place ∧ place.entry ≠ some .directory ∧
          (d.erase key).put place.key (.file bytes) = d' := by
  rw [replace]
  by_cases hname : target.name.encode = [] ∨ target.name.encode = upName
  · simp [hname, IsFilePath]
  · rw [if_neg hname]
    cases henv : env.failure (.replace target) with
    | some error => simp
    | none =>
      cases hplace : d.locate target with
      | error error => simp
      | ok place =>
        cases hentry : place.entry with
        | none => simp [hentry, IsFilePath, hname]
        | some entry => cases entry <;> simp [hentry, IsFilePath, hname]

section Moving

variable {key : DiskKey} {source target : Path}

theorem get?_erase_ne_directory {other : DiskKey} (h : d.tree.get? other ≠ some .directory) :
    (d.erase key).tree.get? other ≠ some .directory := by
  by_cases hkey : key = other
  · subst hkey
    cases key with
    | nil => exact h
    | cons name rest =>
      rw [erase, DiskTree.get?_put d.tree none (List.cons_ne_nil name rest)]
      simp
  · rw [erase, DiskTree.get?_put_ne d.tree none hkey]
    exact h

/-- A file that was moved is found at the path it was moved to. -/
theorem find_of_replace {bytes : List UInt8} (hkey : d.tree.get? key ≠ some .directory)
    (h : d.replace env key source target bytes = (d', .ok ())) :
    d'.find target = .ok (.file bytes) := by
  obtain ⟨hname, -, place, hplace, hentry, rfl⟩ := replace_eq_ok_iff.mp h
  obtain ⟨hne, hfound, -⟩ := locate_of_keeps (.refl d) hname hplace
  rw [hfound] at hentry
  -- neither the temporary file nor what it replaces is a directory
  have hkeeps : Keeps d ((d.erase key).put place.key (.file bytes)) :=
    (keeps_put hkey none).trans (keeps_put (get?_erase_ne_directory hentry) _)
  obtain ⟨-, -, place', hplace', -, hentry'⟩ := locate_of_keeps hkeeps hname hplace
  have hfile : place'.entry = some (.file bytes) := by
    rw [hentry', put, DiskTree.get?_put _ _ hne]
  rw [find, hplace', ok_bind, hfile]

/-- A file takes the place of what was there, and is no directory. -/
theorem get?_put_file_eq_directory (hkey : key ≠ []) (bytes : List UInt8) (other : DiskKey) :
    (d.put key (.file bytes)).tree.get? other = some .directory ↔
      key ≠ other ∧ d.tree.get? other = some .directory := by
  by_cases hother : key = other
  · subst hother
    rw [put, DiskTree.get?_put _ _ hkey]
    simp
  · rw [put, DiskTree.get?_put_ne _ _ hother, and_iff_right hother]

/-- **Whether a file can be moved does not depend on what is in it,** and where it was moved it is
found. -/
theorem exists_replace (hkey : key ≠ []) {old : List UInt8}
    (h : ((d.put key (.file old)).replace env key source target old).2 = .ok ())
    (bytes : List UInt8) :
    ∃ d', (d.put key (.file bytes)).replace env key source target bytes = (d', .ok ()) ∧
      d'.find target = .ok (.file bytes) := by
  have hsame : ∀ other, (d.put key (.file old)).tree.get? other = some .directory ↔
      (d.put key (.file bytes)).tree.get? other = some .directory := fun other =>
    (get?_put_file_eq_directory hkey old other).trans
      (get?_put_file_eq_directory hkey bytes other).symm
  obtain ⟨hname, henv, place, hplace, hentry, -⟩ := replace_eq_ok_iff.mp (Prod.ext rfl h)
  obtain ⟨-, hfound, place', hplace', -, hentry'⟩ :=
    locate_of_keeps (fun other => (hsame other).mp) hname hplace
  have hfree : place'.entry ≠ some .directory := by
    rwa [hentry', Ne, ← hsame, ← hfound]
  have hmoved : (d.put key (.file bytes)).replace env key source target bytes =
      (((d.put key (.file bytes)).erase key).put place'.key (.file bytes), .ok ()) :=
    replace_eq_ok_iff.mpr ⟨hname, henv, place', hplace', hfree, rfl⟩
  refine ⟨_, hmoved, find_of_replace ?_ hmoved⟩
  rw [Ne, get?_put_file_eq_directory hkey]
  exact fun hdirectory => hdirectory.1 rfl

end Moving

/-! ## Writing -/

/-- The key of a temporary file in a directory. -/
def temporaryKey (place : Walk) (base : CodePoints) : DiskKey :=
  place.key ++ [(freshName place.below base).encode]

/-- A temporary file is an empty one with a fresh name. -/
theorem makeTemporary_cases (env : Environment) (d : Disk) (directory : Path) (base : CodePoints) :
    (∃ cause, d.makeTemporary env directory base = (d, .error (.disk cause))) ∨
    ∃ place temporary, d.locate directory = .ok place ∧
      d.makeTemporary env directory base = (d.put (temporaryKey place base) (.file []),
        .ok (temporaryKey place base, temporary)) := by
  unfold makeTemporary
  cases env.failure (.makeTemporary directory) with
  | some error => exact Or.inl ⟨_, rfl⟩
  | none =>
    cases d.locate directory with
    | error error => exact Or.inl ⟨_, rfl⟩
    | ok place =>
      dsimp only
      split_ifs
      · exact Or.inl ⟨_, rfl⟩
      · exact Or.inr ⟨place, _, rfl, rfl⟩

/-- A temporary file is removed if it could not be moved. -/
def cleanUp (key : DiskKey) : Disk × Except Fault Unit → Disk × Except Fault Unit
  | (d, .ok ()) => (d, .ok ())
  | (d, .error fault) => (d.erase key, .error fault)

theorem snd_cleanUp (key : DiskKey) (x : Disk × Except Fault Unit) : (cleanUp key x).2 = x.2 := by
  obtain ⟨d, result⟩ := x
  cases result <;> rfl

section Whole

variable {depth : Nat} {target : Path}

/-- Making the directories on the way to a target. -/
def makeWay (env : Environment) (d : Disk) (depth : Nat) (target : Path) :
    Disk × Except Fault Unit :=
  ensureDirectory env d target.parent.root (depth - stepsAroundDirectories)
    target.parent.parts.reverse

/-- How writing to a target fails other than by an error of the disk: it is no path, or too many
directories are missing on the way to it. -/
inductive TurnsDown (env : Environment) (d : Disk) (depth : Nat) (target : Path) : Fault → Prop
  | directory {fault : Fault}
    (h : pathFault? target.parent.text.barrier? target.parent = some fault) :
    TurnsDown env d depth target fault
  | waiting {cause : Nesting}
    (hdirectory : pathFault? target.parent.text.barrier? target.parent = none)
    (h : (d.makeWay env depth target).2 = .error (.tooDeep cause)) :
    TurnsDown env d depth target (.tooDeep cause)
  | name {fault : Fault}
    (hdirectory : pathFault? target.parent.text.barrier? target.parent = none)
    (hmade : (d.makeWay env depth target).2 = .ok ())
    (h : pathFault? (target.nameBarrier? env.start) target = some fault) :
    TurnsDown env d depth target fault

theorem fault_of_excuse {p : Path} {x : Disk × Except DiskError Unit} {fault : Fault}
    (h : (excuse p x).2 = .error fault) : ∃ cause, fault = .disk cause := by
  obtain ⟨d, result⟩ := x
  cases result with
  | ok _ => cases h
  | error error =>
    rw [excuse] at h
    split_ifs at h
    cases h
    exact ⟨_, rfl⟩

/-- Making directories fails by an error of the disk, or too many of them wait for others. -/
theorem fault_of_ensureDirectory {root : String} {waiting : Nat} {names : List CodePoints}
    {fault : Fault} (h : (ensureDirectory env d root waiting names).2 = .error fault) :
    (∃ cause, fault = .disk cause) ∨
      (∃ cause, fault = .tooDeep cause) ∧ waiting ≤ names.length := by
  induction waiting generalizing d names with
  | zero =>
    cases h
    exact Or.inr ⟨⟨_, rfl⟩, Nat.zero_le _⟩
  | succ waiting ih =>
    cases names with
    | nil => exact Or.inl (fault_of_excuse h)
    | cons name above =>
      rw [ensureDirectory] at h
      cases hmake : d.makeDirectory env ⟨root, (name :: above).reverse⟩ false with
      | mk d' result =>
        rw [hmake] at h
        cases result with
        | ok _ => exact Or.inl (fault_of_excuse h)
        | error error =>
          cases error with
          | notFound =>
            dsimp only at h
            cases hupper : ensureDirectory env d' root waiting above with
            | mk d'' made =>
              rw [hupper] at h
              cases made with
              | ok _ => exact Or.inl (fault_of_excuse h)
              | error cause =>
                cases h
                obtain hdisk | ⟨hdeep, hlength⟩ := ih (congrArg Prod.snd hupper)
                · exact Or.inl hdisk
                · exact Or.inr ⟨hdeep, Nat.succ_le_succ hlength⟩
          | _ => exact Or.inl (fault_of_excuse h)

/-- **The content does not matter before there is a temporary file.** What was done by then is to
make directories. -/
theorem writeWhole_cases (env : Environment) (d : Disk) (depth : Nat) (target : Path) :
    (∃ d' fault, (d' = d ∨ d' = (d.makeWay env depth target).1) ∧
      ((∃ cause, fault = .disk cause) ∨ TurnsDown env d depth target fault) ∧
      ∀ content, d.writeWhole env depth target content = (d', .error fault)) ∨
    ∃ place temporary,
      (d.makeWay env depth target).1.locate target.parent = .ok place ∧
      ∀ content, d.writeWhole env depth target content =
        cleanUp (temporaryKey place target.name)
          (((d.makeWay env depth target).1.put (temporaryKey place target.name)
            (.file [])).fillAndMove env (temporaryKey place target.name) temporary target
              content) := by
  unfold writeWhole
  dsimp only
  cases hdirectory : pathFault? target.parent.text.barrier? target.parent with
  | some fault =>
    exact Or.inl ⟨d, fault, Or.inl rfl, Or.inr (.directory hdirectory), fun _ => rfl⟩
  | none =>
    cases hway : d.makeWay env depth target with
    | mk d₁ result =>
      have hmake : ensureDirectory env d target.parent.root (depth - stepsAroundDirectories)
          target.parent.parts.reverse = (d₁, result) := hway
      rw [hmake]
      cases result with
      | error fault =>
        refine Or.inl ⟨d₁, fault, Or.inr rfl, ?_, fun _ => rfl⟩
        obtain ⟨cause, rfl⟩ | ⟨⟨cause, rfl⟩, -⟩ :=
          fault_of_ensureDirectory (congrArg Prod.snd hmake)
        · exact Or.inl ⟨_, rfl⟩
        · exact Or.inr (.waiting hdirectory (congrArg Prod.snd hway))
      | ok _ =>
        cases hname : pathFault? (target.nameBarrier? env.start) target with
        | some fault =>
          exact Or.inl ⟨d₁, fault, Or.inr rfl,
            Or.inr (.name hdirectory (congrArg Prod.snd hway) hname), fun _ => rfl⟩
        | none =>
          dsimp only
          obtain ⟨cause, hfail⟩ | ⟨place, temporary, hplace, hmade⟩ :=
            makeTemporary_cases env d₁ target.parent target.name
          · exact Or.inl ⟨d₁, _, Or.inr rfl, Or.inl ⟨cause, rfl⟩, fun _ => by rw [hfail]⟩
          · refine Or.inr ⟨place, temporary, hplace, fun content => ?_⟩
            rw [hmade]
            rfl

/-- All steps succeed that write an empty file to a target. -/
def CanWrite (env : Environment) (d : Disk) (depth : Nat) (target : Path) : Prop :=
  (d.writeWhole env depth target (.ok "")).2 = .ok ()

/-- **Where an empty file can be written, every text can,** and it is found there. Without a text
the fault is the one that there is instead. -/
theorem CanWrite.exists_written (h : d.CanWrite env depth target) (content : Except Fault String) :
    ∃ d', d.writeWhole env depth target content = (d', content.map fun _ => ()) ∧
      ∀ text, content = .ok text →
        d'.find target = .ok (.file (Text.encodeUtf8 text.toList)) := by
  rw [CanWrite] at h
  obtain ⟨d', fault, -, -, hfail⟩ | ⟨place, temporary, -, hwrite⟩ :=
    writeWhole_cases env d depth target
  · rw [hfail] at h
    cases h
  · have hkey : temporaryKey place target.name ≠ [] := by simp [temporaryKey]
    simp only [hwrite] at h ⊢
    cases content with
    | error fault => exact ⟨_, rfl, fun _ hcontent => by cases hcontent⟩
    | ok text =>
      rw [snd_cleanUp, fillAndMove] at h
      rw [fillAndMove]
      cases henv : env.failure (.write target) with
      | some error =>
        rw [henv] at h
        cases h
      | none =>
        rw [henv] at h
        obtain ⟨d'', hmoved, hfound⟩ := exists_replace hkey h (Text.encodeUtf8 text.toList)
        refine ⟨d'', congrArg (cleanUp _) hmoved, fun other hother => ?_⟩
        cases hother
        exact hfound

end Whole

end Disk

end PlonkGates
