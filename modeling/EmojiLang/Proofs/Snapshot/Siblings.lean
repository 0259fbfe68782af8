import EmojiLang.Snapshot
import EmojiLang.Proofs.Disk.Names

/-!
# The snapshot beside a program

The snapshot of a program stands in the directory of the program, under a name that is made from the
program's own.

**Method.** The name of a program is a text in front of its extension, and this text is neither empty nor
a single point.  Everything that is said of the snapshot's name is read off that text.

**Results.** `pathFor_join` says that the path of the snapshot is the snapshot's name in the same
directory, `isProgram_pathFor` that no snapshot is a program, and `pathFor_injective` that no two programs
share one.
-/

namespace EmojiLang

namespace Path

/-- The last name of a path, if it is not passed over. -/
theorem fileName?_of_names {path name : String} {start : Place} (stem : List String)
    (named : names path = (start, stem ++ [name])) (visible : name ≠ "" ∧ name ≠ ".") :
    fileName? path = if name = ".." then none else some name := by
  have last : ((stem ++ [name]).filter fun n => n != "" && n != ".").getLast? = some name := by
    rw [List.filter_append, List.filter_cons_of_pos (by simp [visible]), List.filter_nil,
      List.getLast?_append, List.getLast?_singleton, Option.some_or]
  rw [fileName?, named, last]
  by_cases up : name = ".."
  · subst up
    rfl
  · rw [if_neg up]
    split
    · next equal => exact absurd (Option.some.inj equal) up
    · rfl

theorem names_of_slashless {name : String} (slashless : '/' ∉ name.toList) :
    names name = ([], [name]) := by
  by_cases empty : name = ""
  · subst empty
    rfl
  · rw [names_of_parts empty (parts_of_slashless slashless), if_neg empty]

theorem join_append (dir name extension : String) :
    join dir (name ++ extension) = join dir name ++ extension := by
  simp only [join]
  split
  · rfl
  · split <;> simp only [String.append_assoc]

/-- What stands in front of an extension, the point included. -/
theorem exists_bare_of_splitExtension {name extension : String}
    (extended : (splitExtension name).2 = some extension) :
    ∃ bare, name = bare ++ extension ∧ bare ≠ "" ∧ bare ≠ "." := by
  obtain ⟨back, parted⟩ := List.takeWhile_prefix (· ≠ '.') (l := name.toList.reverse)
  rw [splitExtension] at extended
  generalize name.toList.reverse.takeWhile (· ≠ '.') = ending at parted extended
  simp only [← parted, List.drop_left] at extended
  have whole : name.toList = back.reverse ++ ending.reverse := by
    rw [← List.reverse_append, parted, List.reverse_reverse]
  match back, whole, extended with
  | point :: stem, whole, extended =>
      have nonempty : stem ≠ [] := by
        rintro rfl
        cases extended
      simp only [List.isEmpty_iff, nonempty, if_false, Option.some.injEq] at extended
      have longer : 2 ≤ (String.ofList (point :: stem).reverse).length := by
        have := List.length_pos_iff.2 nonempty
        simp only [String.length_ofList, List.length_reverse, List.length_cons]
        omega
      refine ⟨String.ofList (point :: stem).reverse, ?_, ?_, ?_⟩
      · rw [← String.toList_inj, String.toList_append, whole, ← extended]
        simp only [String.toList_ofList]
      · rintro empty
        rw [empty] at longer
        exact absurd longer (by decide)
      · rintro single
        rw [single] at longer
        exact absurd longer (by decide)

end Path

/-- The name of a program in a directory. -/
structure ProgramName (name : String) : Prop where
  slashless : '/' ∉ name.toList
  program : Batch.isProgram name = true

namespace ProgramName

open Snapshot (pathFor)

variable {name other dir : String}

theorem isStep (named : ProgramName name) : Place.isStep name = false := by
  rw [Bool.eq_false_iff]
  intro step
  simp only [Place.isStep, Bool.or_eq_true, beq_iff_eq] at step
  obtain ⟨slashless, program⟩ := named
  rcases step with (rfl | rfl) | rfl <;> exact absurd program (by decide)

/-- The name is the extension behind a text that is neither empty nor a point. -/
theorem exists_bare (named : ProgramName name) :
    ∃ bare, name = bare ++ Batch.programExtension ∧ '/' ∉ bare.toList ∧ bare ≠ "" ∧ bare ≠ "." := by
  have visible : name ≠ "" ∧ name ≠ "." := by
    have step := named.isStep
    simp only [Place.isStep, Bool.or_eq_false_iff, beq_eq_false_iff_ne] at step
    exact step.1
  have fileName :=
    Path.fileName?_of_names [] (Path.names_of_slashless named.slashless) visible
  have program := named.program
  rw [Batch.isProgram, beq_iff_eq, Path.extension?, fileName] at program
  split at program
  · cases program
  · obtain ⟨bare, parted, nonempty, notHere⟩ := Path.exists_bare_of_splitExtension program
    refine ⟨bare, parted, fun slash => named.slashless ?_, nonempty, notHere⟩
    rw [parted, String.toList_append]
    exact List.mem_append_left _ slash

/-- The extension is exchanged unless that leads to the directory above. -/
theorem pathFor_append {path bare : String}
    (fileName : Path.fileName? path = if bare = ".." then none else some bare) :
    pathFor (path ++ Batch.programExtension) =
      if bare = ".." then path else path ++ Snapshot.extension := by
  have cut : String.ofList ((path ++ Batch.programExtension).toList.take
      ((path ++ Batch.programExtension).length - Batch.programExtension.length)) = path := by
    rw [String.length_append, Nat.add_sub_cancel, String.toList_append, ← String.length_toList,
      List.take_left, String.ofList_toList]
  rw [pathFor, cut, fileName]
  split <;> rfl

theorem pathFor_of_bare {bare : String} (slashless : '/' ∉ bare.toList)
    (visible : bare ≠ "" ∧ bare ≠ ".") :
    pathFor (bare ++ Batch.programExtension) =
      if bare = ".." then bare else bare ++ Snapshot.extension :=
  pathFor_append (Path.fileName?_of_names [] (Path.names_of_slashless slashless) visible)

/-- The snapshot stands beside its program. -/
theorem pathFor_join (named : ProgramName name) (nonempty : dir ≠ "") :
    pathFor (Path.join dir name) = Path.join dir (pathFor name) := by
  obtain ⟨bare, rfl, slashless, visible⟩ := named.exists_bare
  obtain ⟨start, stem, -, joined⟩ := Path.names_join nonempty
  rw [Path.join_append, pathFor_of_bare slashless visible,
    pathFor_append (Path.fileName?_of_names stem (joined bare slashless) visible)]
  split
  · rfl
  · rw [Path.join_append]

theorem slashless_pathFor (named : ProgramName name) : '/' ∉ (pathFor name).toList := by
  obtain ⟨bare, rfl, slashless, visible⟩ := named.exists_bare
  rw [pathFor_of_bare slashless visible]
  split
  · exact slashless
  · rw [String.toList_append, List.mem_append, not_or]
    exact ⟨slashless, by decide⟩

theorem getLast?_programExtension (bare : String) :
    (bare ++ Batch.programExtension).toList.getLast? = some 'o' := by
  rw [String.toList_append, List.getLast?_append]
  rfl

theorem getLast?_extension (bare : String) :
    (bare ++ Snapshot.extension).toList.getLast? = some 't' := by
  rw [String.toList_append, List.getLast?_append]
  rfl

/-- No snapshot is a program. -/
theorem isProgram_pathFor (named : ProgramName name) :
    Batch.isProgram (pathFor name) = false := by
  rw [Bool.eq_false_iff]
  intro program
  obtain ⟨bare', equal, -, -⟩ := exists_bare ⟨named.slashless_pathFor, program⟩
  have last := congrArg (fun text => text.toList.getLast?) equal
  simp only [getLast?_programExtension] at last
  obtain ⟨bare, rfl, slashless, visible⟩ := named.exists_bare
  rw [pathFor_of_bare slashless visible] at last
  split at last
  · next up =>
      rw [up] at last
      exact absurd last (by decide)
  · rw [getLast?_extension] at last
    exact absurd last (by decide)

/-- No two programs share a snapshot. -/
theorem pathFor_injective (named : ProgramName name) (named' : ProgramName other)
    (same : pathFor name = pathFor other) : name = other := by
  obtain ⟨bare, rfl, slashless, visible⟩ := named.exists_bare
  obtain ⟨bare', rfl, slashless', visible'⟩ := named'.exists_bare
  rw [pathFor_of_bare slashless visible, pathFor_of_bare slashless' visible'] at same
  have parent (bare : String) : ".." ≠ bare ++ Snapshot.extension := by
    intro equal
    have last := congrArg (fun text => text.toList.getLast?) equal
    simp only [getLast?_extension] at last
    exact absurd last (by decide)
  split at same <;> split at same
  · rw [same]
  · next up _ => exact absurd (up ▸ same) (parent bare')
  · next up => exact absurd (up ▸ same).symm (parent bare)
  · rw [← String.toList_inj, String.toList_append, String.toList_append,
      List.append_left_inj, String.toList_inj] at same
    rw [same]

/-- A snapshot that a program's name leads to is another place than the program. -/
theorem next_ne_snapshot (named : ProgramName name) (named' : ProgramName other) (p : Place) :
    Place.next p name ≠ p ++ [pathFor other] := by
  rw [Place.next_of_not_isStep p named.isStep]
  intro equal
  have same : name = pathFor other := by simpa using equal
  have program := named.program
  rw [same, named'.isProgram_pathFor] at program
  cases program

/-- The snapshots of two programs are two places. -/
theorem next_pathFor_ne (named : ProgramName name) (named' : ProgramName other)
    (different : name ≠ other) (p : Place) (written : Place.isStep (pathFor other) = false) :
    Place.next p (pathFor name) ≠ p ++ [pathFor other] := by
  by_cases step : Place.isStep (pathFor name) = true
  · exact Place.next_ne_of_isStep p step written named'.slashless_pathFor
  · rw [Place.next_of_not_isStep p (Bool.eq_false_iff.2 step)]
    intro equal
    exact different (named.pathFor_injective named' (by simpa using equal))

section Writing

variable {d after : Disk} {p : Place}

/-- The snapshot of a program is written if its name is accepted, and it then stands beside the
program. -/
theorem write_pathFor_eq_ok_iff (named : ProgramName name) (opened : d.Opens dir p)
    (text : String) :
    d.write (pathFor (Path.join dir name)) text = .ok after ↔
      d.Accepts dir p (pathFor name) ∧
        after = d.put (p ++ [pathFor name]) (.file (Text.encode text)) := by
  rw [named.pathFor_join opened.ne_empty]
  exact Disk.write_join_eq_ok_iff opened named.slashless_pathFor text

theorem exists_write_pathFor_iff (named : ProgramName name) (opened : d.Opens dir p)
    (text : String) :
    (∃ after, d.write (pathFor (Path.join dir name)) text = .ok after) ↔
      d.Accepts dir p (pathFor name) := by
  rw [named.pathFor_join opened.ne_empty]
  exact Disk.exists_write_join_iff opened named.slashless_pathFor text

end Writing

end ProgramName

end EmojiLang
