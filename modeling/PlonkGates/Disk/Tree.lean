/-!
# Trees of entries

What stands on a disk, by name. A tree lists what stands in one directory: every name with its own
entry, with the tree below it, and with the rest of the list beside it. A name may have no entry of
its own and still have some below it.
-/

namespace PlonkGates

inductive DiskEntry where
  | file (bytes : List UInt8)
  | directory
deriving DecidableEq, Repr

/-- A name on a disk, which is any bytes. -/
abbrev DiskName := List UInt8

/-- The names on the way to an entry. -/
abbrev DiskKey := List DiskName

inductive DiskTree where
  | bare
  | node (name : DiskName) (entry : Option DiskEntry) (below beside : DiskTree)
deriving DecidableEq, Repr

namespace DiskTree

/-- What a name stands for: its entry, and what is below it. -/
def child (name : DiskName) : DiskTree → Option DiskEntry × DiskTree
  | bare => (none, bare)
  | node n entry below beside => if n = name then (entry, below) else beside.child name

/-- Lets a name stand for an entry and for what is below it. -/
def setChild (name : DiskName) (entry : Option DiskEntry) (below : DiskTree) : DiskTree → DiskTree
  | bare => node name entry below bare
  | node n e b beside =>
    if n = name then node n entry below beside else node n e b (setChild name entry below beside)

/-- The tree below a key. -/
def subtree (t : DiskTree) : DiskKey → DiskTree
  | [] => t
  | name :: rest => (t.child name).2.subtree rest

/-- The entry at a key. The start of a tree has none. -/
def get? (t : DiskTree) : DiskKey → Option DiskEntry
  | [] => none
  | [name] => (t.child name).1
  | name :: rest => (t.child name).2.get? rest

/-- Sets the entry at a key or, without one, removes it. What is below stays. -/
def put (t : DiskTree) (entry : Option DiskEntry) : DiskKey → DiskTree
  | [] => t
  | [name] => setChild name entry (t.child name).2 t
  | name :: rest => setChild name (t.child name).1 ((t.child name).2.put entry rest) t

/-- The names in the directory itself. -/
def names : DiskTree → List DiskName
  | bare => []
  | node name _ _ beside => name :: beside.names

/-- All entries below the names in `back`, the last of which comes first. -/
def entriesFrom (back : DiskKey) : DiskTree → List (DiskKey × DiskEntry)
  | bare => []
  | node name entry below beside =>
    (entry.map fun e => ((name :: back).reverse, e)).toList ++
      below.entriesFrom (name :: back) ++ beside.entriesFrom back

/-- All entries, a directory before those in it. -/
def entries (t : DiskTree) : List (DiskKey × DiskEntry) := t.entriesFrom []

/-! ## Reading what was set -/

theorem child_setChild (t : DiskTree) (name : DiskName) (entry : Option DiskEntry)
    (below : DiskTree) : (setChild name entry below t).child name = (entry, below) := by
  induction t with
  | bare => simp [setChild, child]
  | node n e b s _ ih =>
    by_cases h : n = name
    · simp [setChild, child, h]
    · simp [setChild, child, h, ih]

theorem child_setChild_ne (t : DiskTree) {name other : DiskName} (entry : Option DiskEntry)
    (below : DiskTree) (h : name ≠ other) :
    (setChild name entry below t).child other = t.child other := by
  induction t with
  | bare => simp [setChild, child, h]
  | node n e b s _ ih =>
    by_cases hn : n = name
    · subst hn
      simp [setChild, child, h]
    · by_cases ho : n = other
      · subst ho
        simp [setChild, child, hn]
      · simp [setChild, child, hn, ho, ih]

/-- The entry that was set is the one that is found. -/
theorem get?_put (t : DiskTree) (entry : Option DiskEntry) {key : DiskKey} (h : key ≠ []) :
    (t.put entry key).get? key = entry := by
  fun_induction put t entry key with
  | case1 => exact absurd rfl h
  | case2 t name => simp [get?, child_setChild]
  | case3 t name rest hrest ih =>
    cases rest with
    | nil => exact absurd rfl hrest
    | cons next rest => simpa [get?, child_setChild] using ih (by simp)

/-- Setting an entry leaves all others as they are. -/
theorem get?_put_ne (t : DiskTree) (entry : Option DiskEntry) {key other : DiskKey}
    (h : key ≠ other) : (t.put entry key).get? other = t.get? other := by
  fun_induction put t entry key generalizing other with
  | case1 => rfl
  | case2 t name =>
    cases other with
    | nil => simp [get?]
    | cons n rest =>
      by_cases hn : name = n
      · subst hn
        cases rest with
        | nil => exact absurd rfl h
        | cons next rest => simp [get?, child_setChild]
      · cases rest <;> simp [get?, child_setChild_ne, hn]
  | case3 t name rest hrest ih =>
    cases other with
    | nil => simp [get?]
    | cons n others =>
      by_cases hn : name = n
      · subst hn
        cases others with
        | nil => simp [get?, child_setChild]
        | cons next others =>
          have hne : rest ≠ next :: others := fun hr => h (by rw [hr])
          simpa [get?, child_setChild] using ih hne
      · cases others <;> simp [get?, child_setChild_ne, hn]

end DiskTree

end PlonkGates
