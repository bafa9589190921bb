import ArrayOffload.Disk
import ArrayOffload.Proofs.Exec

/-!
# Disks that only grow

Making directories takes nothing away, and neither does writing a file where none stands. What a
path holds then stays as it is.

* `PathNames.ofText_joinPath`: where the file of a name in a directory stands;
* `Disk.Grows`: the files are still there, with others behind them, and so are the directories;
* `Disk.Grows.read`: paths hold what they held;
* `Disk.Adds`: the disk has grown by files of a kind;
* `Disk.maintains_makeDirs`: making directories adds no file;
* `Disk.write_cases`: what is written, and where.
-/

namespace ArrayOffload

/-! ## Paths -/

/-- A name of something in a directory. -/
structure PathNames.Plain (name : String) : Prop where
  nonempty : name ≠ ""
  not_here : name ≠ "."
  not_above : name ≠ ".."
  no_slash : '/' ∉ name.toList

theorem slashParts_append (front back : String) :
    slashParts (front ++ "/" ++ back) = slashParts front ++ slashParts back := by
  unfold slashParts
  rw [String.toList_append, String.toList_append, List.append_assoc, ← List.map_append]
  exact congrArg _ (List.splitOn_append_cons_self _ _)

theorem slashParts_of_not_mem {name : String} (h : '/' ∉ name.toList) :
    slashParts name = [name] := by
  rw [slashParts, List.splitOn_eq_singleton h, List.map_singleton, String.ofList_toList]

namespace PathNames

theorem start_eq (path : String) :
    start path = if path.toList.head? = some '/' then ["/"] else [] := by
  have hslash : path.startsWith "/" = true ↔ path.toList.head? = some '/' := by
    rw [String.startsWith_string_iff, show "/".toList = ['/'] from rfl]
    cases path.toList <;> simp [eq_comm]
  simp only [start, hslash]

theorem step_plain {name : String} (plain : Plain name) (names : PathNames) :
    names.step name = names ++ [name] := by
  simp [step, plain.nonempty, plain.not_here, plain.not_above]

/-- A slash at the end changes nothing. -/
theorem ofText_slash {dir : String} (h : dir ≠ "") : ofText (dir ++ "/") = ofText dir := by
  have hparts := slashParts_append dir ""
  rw [String.append_empty] at hparts
  have hstart : start (dir ++ "/") = start dir := by
    rw [start_eq, start_eq, String.toList_append]
    cases hdir : dir.toList with
    | nil => exact absurd (String.toList_eq_nil_iff.mp hdir) h
    | cons => rfl
  rw [ofText, hparts, hstart, List.foldl_append]
  rfl

theorem ofText_append {name : String} (plain : Plain name) (dir : String) :
    ofText (dir ++ "/" ++ name) = ofText (dir ++ "/") ++ [name] := by
  have hparts := slashParts_append dir ""
  rw [String.append_empty] at hparts
  have hstart : start (dir ++ "/" ++ name) = start (dir ++ "/") := by
    rw [start_eq, start_eq]
    cases h : dir.toList <;> simp [h]
  rw [ofText, ofText, slashParts_append, slashParts_of_not_mem plain.no_slash, hparts, hstart,
    List.foldl_append, List.foldl_append]
  exact step_plain plain _

/-- A file in a directory is reached through the directory. -/
theorem ofText_joinPath {name : String} (plain : Plain name) (dir : String) :
    ofText (joinPath dir name) = ofText dir ++ [name] := by
  by_cases hempty : dir = ""
  · have hstart : start name = [] := by
      rw [start_eq, if_neg]
      exact fun h => plain.no_slash (List.mem_of_head? h)
    subst hempty
    rw [joinPath, if_pos (by rfl), String.empty_append, ofText,
      slashParts_of_not_mem plain.no_slash, hstart]
    exact step_plain plain []
  · unfold joinPath
    split
    · next h =>
      have hslash : "/".toList <:+ dir.toList := by
        rw [decide_eq_false hempty, Bool.false_or, ← String.endsWith_toSlice,
          String.Slice.endsWith_string_iff] at h
        simpa using h
      obtain ⟨front, hfront⟩ := hslash
      have hdir : dir = String.ofList front ++ "/" := by
        rw [← String.toList_inj, String.toList_append, String.toList_ofList, hfront]
      rw [hdir]
      exact ofText_append plain _
    · rw [ofText_append plain, ofText_slash hempty]

end PathNames

/-! ## What stays -/

namespace Disk

variable {disk before after : Disk} {names found : PathNames} {path name contents : String}

theorem enter_ok (h : disk.enter names name = .ok found) : found = names.step name := by
  unfold enter at h
  split at h
  · split at h <;> cases h
    rfl
  · split at h <;> cases h

/-- A path that can be followed leads to where its names say. -/
theorem locate_ok (h : disk.locate path = .ok names) : names = PathNames.ofText path := by
  have follow : ∀ (parts : List String) {start found : PathNames},
      parts.foldlM disk.enter start = .ok found → found = parts.foldl PathNames.step start := by
    intro parts
    induction parts with
    | nil =>
      intro start found h
      cases h
      rfl
    | cons part rest ih =>
      intro start found h
      rw [List.foldlM_cons, bind_eq_ok] at h
      obtain ⟨next, henter, hrest⟩ := h
      rw [List.foldl_cons, ← enter_ok henter]
      exact ih hrest
  simp only [locate, bind_eq_ok] at h
  obtain ⟨_, _, h⟩ := h
  exact follow _ h

theorem pathExists_of_locate (h : disk.locate path = .ok names) :
    disk.pathExists path = disk.has names := by
  rw [pathExists, h]
  rfl

/-- The files are still there, with others behind them, and so are the directories. -/
structure Grows (before after : Disk) : Prop where
  files : before.files <+: after.files
  dirs : before.dirs ⊆ after.dirs

namespace Grows

variable (h : Grows before after)

include h

theorem file? (hfile : before.file? names = some contents) : after.file? names = some contents :=
  h.files.lookup_eq_some hfile

theorem hasDir (hdir : before.hasDir names = true) : after.hasDir names = true := by
  simp only [Disk.hasDir, Bool.or_eq_true, decide_eq_true_eq, List.any_eq_true] at hdir ⊢
  rcases hdir with (habove | hknown) | ⟨file, hfile, hbelow⟩
  · exact .inl (.inl habove)
  · exact .inl (.inr (h.dirs hknown))
  · exact .inr ⟨file, h.files.subset hfile, hbelow⟩

theorem has (hhas : before.has names = true) : after.has names = true := by
  simp only [Disk.has, Bool.or_eq_true, Option.isSome_iff_exists] at hhas ⊢
  exact hhas.imp (fun ⟨contents, hfile⟩ => ⟨contents, h.file? hfile⟩) h.hasDir

theorem enter (henter : before.enter names name = .ok found) :
    after.enter names name = .ok found := by
  unfold Disk.enter at henter ⊢
  split at henter
  · next hdir => rwa [if_pos (h.hasDir hdir)]
  · split at henter <;> cases henter

theorem locate (hlocate : before.locate path = .ok names) : after.locate path = .ok names := by
  have follow : ∀ (parts : List String) {start found : PathNames},
      parts.foldlM before.enter start = .ok found → parts.foldlM after.enter start = .ok found := by
    intro parts
    induction parts with
    | nil => exact fun hfound => hfound
    | cons part rest ih =>
      intro start found hfound
      rw [List.foldlM_cons, bind_eq_ok] at hfound ⊢
      obtain ⟨next, henter, hrest⟩ := hfound
      exact ⟨next, h.enter henter, ih hrest⟩
  simp only [Disk.locate, bind_eq_ok] at hlocate ⊢
  obtain ⟨_, hchecked, hfound⟩ := hlocate
  exact ⟨_, hchecked, follow _ hfound⟩

theorem pathExists (hexists : before.pathExists path = true) : after.pathExists path = true := by
  cases hlocate : before.locate path with
  | error cause =>
    rw [Disk.pathExists, hlocate] at hexists
    cases hexists
  | ok names =>
    rw [pathExists_of_locate hlocate] at hexists
    rw [pathExists_of_locate (h.locate hlocate)]
    exact h.has hexists

/-- What a path holds stays. -/
theorem read (hread : before.read path = .ok contents) : after.read path = .ok contents := by
  simp only [Disk.read, bind_eq_ok] at hread ⊢
  obtain ⟨names, hlocate, hread⟩ := hread
  refine ⟨names, h.locate hlocate, ?_⟩
  split at hread
  · next found hfile =>
    rw [h.file? hfile]
    exact hread
  · cases hread

end Grows

theorem read_ok (h : disk.read path = .ok contents) :
    disk.file? (PathNames.ofText path) = some contents := by
  simp only [read, bind_eq_ok] at h
  obtain ⟨names, hlocate, h⟩ := h
  rw [← locate_ok hlocate]
  split at h
  · next hfile =>
    cases h
    exact hfile
  · cases h

/-! ## Work on a disk -/

/-- A file that was not there stands behind the others. -/
theorem put_of_free (free : disk.file? names = none) (contents : String) :
    disk.put names contents = { disk with files := disk.files ++ [(names, contents)] } := by
  rw [put, free]
  rfl

theorem grows_put (free : disk.file? names = none) (contents : String) :
    Grows disk (disk.put names contents) := by
  rw [put_of_free free]
  exact ⟨List.prefix_append _ _, fun _ h => h⟩

theorem has_put (free : disk.file? names = none) (contents : String) :
    (disk.put names contents).has names = true := by
  rw [put_of_free free]
  simp [has, file?, List.lookup_append]

/-- Nothing is gone, and there are new files of a kind behind the others. -/
structure Adds (new : PathNames × String → Prop) (before after : Disk) : Prop where
  files : ∃ added, after.files = before.files ++ added ∧ ∀ file ∈ added, new file
  dirs : before.dirs ⊆ after.dirs

section
variable {new : PathNames × String → Prop}

theorem Adds.refl (disk : Disk) : Adds new disk disk :=
  ⟨⟨[], (List.append_nil _).symm, nofun⟩, fun _ h => h⟩

theorem Adds.grows (h : Adds new before after) : Grows before after := by
  obtain ⟨⟨added, hfiles, _⟩, hdirs⟩ := h
  exact ⟨⟨added, hfiles.symm⟩, hdirs⟩

/-- A new file where none stood. -/
theorem Adds.put (h : Adds new before after) (free : after.file? names = none)
    (hnew : new (names, contents)) : Adds new before (after.put names contents) := by
  obtain ⟨⟨added, hfiles, hadded⟩, hdirs⟩ := h
  rw [put_of_free free]
  refine ⟨⟨added ++ [(names, contents)], by simp [hfiles], fun file hfile => ?_⟩, hdirs⟩
  rcases List.mem_append.mp hfile with hold | hlast
  · exact hadded file hold
  · rw [List.mem_singleton.mp hlast]
    exact hnew

/-- A file that was read where none stood is one of the new ones. -/
theorem Adds.new_of_read (h : Adds new before after)
    (free : before.file? (PathNames.ofText path) = none) (hread : after.read path = .ok contents) :
    new (PathNames.ofText path, contents) := by
  obtain ⟨⟨added, hfiles, hadded⟩, _⟩ := h
  have hfile := read_ok hread
  rw [file?] at free hfile
  rw [hfiles, List.lookup_append, free, Option.none_or, List.lookup_eq_some_iff] at hfile
  obtain ⟨front, back, rfl, _⟩ := hfile
  exact hadded _ (by simp)

variable (new)

theorem maintains_makeDir (start : Disk) (path : String) :
    Maintains (Adds new start) (makeDir path) := by
  refine Ensures.get fun disk _ => ?_
  intro s hs
  rw [exec_bind, exec_ofExcept]
  cases disk.newDir path with
  | error cause => exact hs
  | ok names => exact ⟨hs.files, fun _ hmem => List.mem_append_left _ (hs.dirs hmem)⟩

theorem maintains_ensureDir (start : Disk) (path : String) :
    Maintains (Adds new start) (ensureDir path) := by
  unfold ensureDir
  refine Maintains.bind (Maintains.tryCatch ?_ fun cause => ?_) fun ended => ?_
  · exact (maintains_makeDir new start path).bind fun _ _ hs => hs
  · refine Ensures.get fun disk _ => ?_
    split <;> exact fun _ hs => hs
  · cases ended <;> exact fun _ hs => hs

theorem maintains_makeUpward (start : Disk) (paths : List String) :
    Maintains (Adds new start) (makeUpward paths) := by
  induction paths with
  | nil => exact fun _ hs => hs
  | cons path above ih =>
    rw [makeUpward]
    have hdir := maintains_ensureDir new start path
    refine hdir.tryCatch fun cause => ?_
    split
    · exact ih.bind fun _ => hdir
    · exact fun _ hs => hs

/-- Making directories adds no file. -/
theorem maintains_makeDirs (start : Disk) (path : String) :
    Maintains (Adds new start) (makeDirs path) := by
  unfold makeDirs
  split
  · exact fun _ hs => hs
  · exact maintains_makeUpward new start _

end

/-- A file is written where its path leads, or not at all. -/
theorem write_cases (disk : Disk) (path contents : String) :
    (∃ cause, exec (write path contents) disk = (.error cause, disk)) ∨
      ∃ names, disk.locate path = .ok names ∧
        exec (write path contents) disk = (.ok (), disk.put names contents) := by
  rw [write, exec_bind, exec_get]
  dsimp only
  rw [exec_bind, exec_ofExcept]
  cases hlocate : disk.locate path with
  | error cause => exact .inl ⟨cause, rfl⟩
  | ok names =>
    dsimp only
    split
    · exact .inl ⟨_, rfl⟩
    · exact .inr ⟨names, rfl, rfl⟩

end Disk

end ArrayOffload
