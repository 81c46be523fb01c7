/-
# Writing one file

Putting bytes into a file that is there changes what lies at its place and at no other
(`Files.at?_put`).  What lies where stays of one kind, a file or a directory, so every
path leads where it led (`Files.SameShape.find_eq`).

Reading a path depends on the place that it leads to and on what lies there only
(`Files.readBytes_congr`).
-/

import DocHighlighter.Site.Files

namespace DocHighlighter

/-- Whether something is a file. -/
def Entry.isFile : Entry → Bool
  | file _ => true
  | directory => false

namespace Files

variable {fs fs' : Files} {place other : Place} {p : Path} {bytes old : List UInt8}

/-! ## Putting bytes into a file -/

/-- Puts bytes into the files of a place. -/
def replaced (files : List (Place × List UInt8)) (place : Place) (bytes : List UInt8) :
    List (Place × List UInt8) :=
  files.map fun f => if f.1 == place then (place, bytes) else f

theorem lookup_replaced_of_ne (files : List (Place × List UInt8)) (bytes : List UInt8)
    (h : other ≠ place) : (replaced files place bytes).lookup other = files.lookup other := by
  induction files with
  | nil => rfl
  | cons f rest ih =>
    rw [replaced, List.map_cons, ← replaced]
    by_cases hname : f.1 = place
    · have hother : (other == place) = false := by simpa using h
      rw [if_pos (beq_iff_eq.2 hname), List.lookup_cons, List.lookup_cons, hname, hother]
      exact ih
    · rw [if_neg (by simpa using hname), List.lookup_cons, List.lookup_cons, ih]

theorem lookup_replaced {files : List (Place × List UInt8)} (bytes : List UInt8)
    (h : (files.lookup place).isSome) : (replaced files place bytes).lookup place = some bytes := by
  induction files with
  | nil => simp at h
  | cons f rest ih =>
    rw [replaced, List.map_cons, ← replaced]
    by_cases hname : f.1 = place
    · simp [hname]
    · have hother : (place == f.1) = false := by simpa using Ne.symm hname
      rw [List.lookup_cons, hother] at h
      rw [if_neg (by simpa using hname), List.lookup_cons, hother]
      exact ih h

theorem map_fst_replaced (files : List (Place × List UInt8)) (place : Place)
    (bytes : List UInt8) : (replaced files place bytes).map (·.1) = files.map (·.1) := by
  rw [replaced, List.map_map]
  refine List.map_congr_left fun f _ => ?_
  by_cases hname : f.1 = place
  · simp [hname]
  · simp [hname]

theorem lookup_of_at? (h : fs.at? place = some (.file bytes)) :
    fs.files.lookup place = some bytes := by
  unfold at? at h
  split at h
  · next found hlookup =>
    obtain rfl := Entry.file.inj (Option.some.inj h)
    exact hlookup
  · split at h <;> simp at h

/-- What is put where a file is takes its place. -/
theorem put_eq (h : fs.at? place = some (.file old)) (bytes : List UInt8) :
    fs.put place bytes = { fs with files := replaced fs.files place bytes } := by
  obtain ⟨before, rest, hfiles, -⟩ := List.lookup_eq_some_iff.1 (lookup_of_at? h)
  have hthere : fs.files.any (·.1 == place) = true := by simp [hfiles]
  rw [put, if_pos hthere]
  rfl

/-- **Putting bytes into a file changes that file and nothing else.** -/
theorem at?_put (h : fs.at? place = some (.file old)) (bytes : List UInt8) (other : Place) :
    (fs.put place bytes).at? other =
      if other = place then some (.file bytes) else fs.at? other := by
  rw [put_eq h]
  unfold at?
  by_cases hother : other = place
  · rw [if_pos hother, hother, lookup_replaced bytes (by simp [lookup_of_at? h])]
  · rw [if_neg hother, lookup_replaced_of_ne fs.files bytes hother]
    simp only [places, map_fst_replaced]
    rfl

/-! ## Where paths lead -/

/-- Files and directories are at the same places, whatever the files hold. -/
structure SameShape (fs fs' : Files) : Prop where
  here : fs'.here = fs.here
  isFile : ∀ place, (fs'.at? place).map Entry.isFile = (fs.at? place).map Entry.isFile

theorem SameShape.refl (fs : Files) : fs.SameShape fs :=
  ⟨rfl, fun _ => rfl⟩

theorem SameShape.trans {fs'' : Files} (h : fs.SameShape fs') (h' : fs'.SameShape fs'') :
    fs.SameShape fs'' :=
  ⟨h'.here.trans h.here, fun place => (h'.isFile place).trans (h.isFile place)⟩

theorem sameShape_put (h : fs.at? place = some (.file old)) (bytes : List UInt8) :
    fs.SameShape (fs.put place bytes) := by
  refine ⟨by rw [put_eq h], fun other => ?_⟩
  rw [at?_put h]
  split
  · next hother =>
    rw [hother, h]
    rfl
  · rfl

theorem SameShape.follow_eq (h : fs.SameShape fs') (back : Place) (names : List String) :
    fs'.follow back names = fs.follow back names := by
  induction names generalizing back with
  | nil => rfl
  | cons name rest ih =>
    have hfile := h.isFile back.reverse
    rw [follow, follow]
    cases hold : fs.at? back.reverse with
    | none =>
      rw [hold] at hfile
      rw [Option.map_eq_none_iff.1 hfile]
    | some e =>
      obtain ⟨e', hnew, hkind⟩ := Option.map_eq_some_iff.1 (hfile.trans (by rw [hold]; rfl))
      rw [hnew]
      cases e <;> cases e' <;> simp_all [Entry.isFile]

/-- Paths lead where they led. -/
theorem SameShape.find_eq (h : fs.SameShape fs') (p : Path) : fs'.find p = fs.find p := by
  rw [find, find, h.follow_eq, startOf, startOf, h.here]

/-- Paths that lead to one place read the same. -/
theorem readBytes_congr_find {q : Path} (hfind : fs.find q = fs.find p) :
    fs.readBytes q = fs.readBytes p := by
  rw [readBytes, readBytes, entry, entry, hfind]

/-- A path reads the same if it leads to the same. -/
theorem readBytes_congr (hfind : fs'.find p = fs.find p)
    (hplace : ∀ place, fs.find p = .ok place → fs'.at? place = fs.at? place) :
    fs'.readBytes p = fs.readBytes p := by
  unfold readBytes entry
  rw [hfind]
  cases hp : fs.find p with
  | error fault => rfl
  | ok place =>
    dsimp only
    rw [hplace place hp]

theorem readBytes_eq_ok_iff :
    fs.readBytes p = .ok bytes ↔ ∃ place, fs.find p = .ok place ∧
      fs.at? place = some (.file bytes) := by
  unfold readBytes entry
  cases hp : fs.find p with
  | error fault => simp
  | ok place =>
    cases hplace : fs.at? place with
    | none => simp [hplace]
    | some e => cases e <;> simp [hplace]

end Files
end DocHighlighter
