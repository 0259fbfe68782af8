import EmojiLang.Disk
import EmojiLang.Proofs.Text.Storage

/-!
# The names in a directory

A path to a directory and a name without slashes make the path to that name in the directory.  What is
done along such a path depends on the place of the directory and on the name alone.

**Definitions.** `Disk.Opens d dir p` says that the path `dir` leads to the directory at `p`.
`Disk.Accepts d dir p name` says that a file can be written under the name, and `Disk.Writable d path` that
this can be done along a path.  `SoundDisk` is a disk whose entries have proper names and stand in directories.

**Method.** `Path.names_join` finds the way to the directory at the front of the way to a name in it,
so `resolve_join` and `write_join` need to look at the last step only.  A file put where no directory is
changes no way through directories, by `Opens.put`.

**Results.** `write_join_eq_ok_iff` says when a file can be written under a name, and `Accepts.read_put`
that its text is read back.  `resolve_join_congr`, `read_join_congr` and `Accepts.congr` say that the
answers for a name depend on what stands there, and `SoundDisk.withFile` that a disk stays sound.
-/

namespace EmojiLang

namespace Place

theorem beq_up_of_not_isStep {name : String} (named : isStep name = false) :
    (name == "..") = false := by
  simp only [isStep, Bool.or_eq_false_iff] at named
  exact named.2

theorem next_of_not_isStep {name : String} (p : Place) (named : isStep name = false) :
    next p name = p ++ [name] := by
  have notUp := beq_up_of_not_isStep named
  simp only [next, notUp, named, Bool.false_eq_true, if_false]

/-- A name without slashes leads to a place that is not there of itself. -/
theorem isGiven_append_name {name : String} (p : Place) (named : isStep name = false)
    (slashless : '/' ∉ name.toList) : isGiven (p ++ [name]) = false := by
  have notUp := beq_up_of_not_isStep named
  have notTop : p ++ [name] ≠ top := by
    intro equal
    have last := congrArg List.getLast? equal
    simp only [List.getLast?_append, List.getLast?_singleton, Option.some_or, top,
      Option.some.injEq] at last
    exact slashless (last ▸ by decide)
  simp only [isGiven, List.all_append, List.all_cons, notUp, Bool.false_and, Bool.and_false,
    Bool.false_or, beq_eq_false_iff_ne]
  exact notTop

theorem parent_append_name {name : String} (p : Place) (named : isStep name = false)
    (slashless : '/' ∉ name.toList) : parent (p ++ [name]) = p := by
  have fresh := isGiven_append_name p named slashless
  simp only [isGiven, Bool.or_eq_false_iff] at fresh
  simp only [parent, fresh, Bool.false_eq_true, if_false, List.dropLast_concat]

theorem isGiven_parent {p : Place} (given : isGiven p = true) : isGiven (parent p) = true := by
  simp only [isGiven, Bool.or_eq_true, parent] at given ⊢
  by_cases topmost : (p == top) = true
  · simp [topmost]
  · have above := given.resolve_right topmost
    simp [topmost, above]

/-- A place in a directory is neither the directory above nor the directory itself. -/
theorem next_ne_of_isStep {name other : String} (p : Place) (step : isStep name = true)
    (named : isStep other = false) (slashless : '/' ∉ other.toList) :
    next p name ≠ p ++ [other] := by
  have longer : p ≠ p ++ [other] := fun equal => by simpa using congrArg List.length equal
  intro equal
  simp only [next, step, if_true] at equal
  split at equal
  · next up =>
      rcases Bool.eq_false_or_eq_true (isGiven p) with given | fresh
      · have := isGiven_append_name p named slashless
        rw [← equal, isGiven_parent given] at this
        cases this
      · simp only [isGiven, Bool.or_eq_false_iff] at fresh
        simp only [parent, fresh, Bool.false_eq_true, if_false] at equal
        have shorter := congrArg List.length equal
        simp only [List.length_dropLast, List.length_append, List.length_singleton] at shorter
        omega
  · exact longer equal

end Place

namespace Path

theorem parts_of_slashless {name : String} (slashless : '/' ∉ name.toList) :
    parts name = [name] := by
  rw [parts, List.splitOn_eq_singleton slashless, List.map_singleton, String.ofList_toList]

theorem parts_ne_nil (path : String) : parts path ≠ [] := by
  simp only [parts, ne_eq, List.map_eq_nil_iff]
  exact List.splitOn_ne_nil '/' path.toList

/-- The last slash divides the last part from those in front. -/
theorem parts_of_slash {path : String} {front : List Char} (name : String)
    (divided : path.toList = front ++ '/' :: name.toList) (slashless : '/' ∉ name.toList) :
    parts path = parts (String.ofList front) ++ [name] := by
  rw [← parts_of_slashless slashless]
  simp only [parts, divided, String.toList_ofList, List.splitOn_append_cons_self, List.map_append]

theorem endsWith_slash_iff (path : String) :
    path.endsWith "/" = true ↔ ['/'] <:+ path.toList := by
  rw [String.endsWith, String.Slice.endsWith_string_iff, String.copy_toSlice]
  exact Iff.rfl

/-- One slash stands between the path of a directory and a name in it. -/
theorem toList_join {dir : String} (nonempty : dir ≠ "") :
    ∃ front, (dir.toList = front ∨ dir.toList = front ++ ['/']) ∧
      ∀ name, (join dir name).toList = front ++ '/' :: name.toList := by
  have whole : dir.isEmpty = false := String.isEmpty_eq_false_iff.2 nonempty
  by_cases closed : dir.endsWith "/" = true
  · obtain ⟨front, parted⟩ := (endsWith_slash_iff dir).1 closed
    refine ⟨front, .inr parted.symm, fun name => ?_⟩
    simp only [join, whole, closed, Bool.false_eq_true, if_false, if_true, String.toList_append,
      ← parted, List.append_assoc, List.singleton_append]
  · refine ⟨dir.toList, .inl rfl, fun name => ?_⟩
    simp only [join, whole, closed, Bool.false_eq_true, if_false, String.toList_append,
      List.append_assoc]
    rfl

theorem names_of_parts {path first : String} {rest : List String} (nonempty : path ≠ "")
    (parted : parts path = first :: rest) :
    names path = if first = "" then (Place.top, rest) else ([], first :: rest) := by
  have whole : path.isEmpty = false := String.isEmpty_eq_false_iff.2 nonempty
  rw [names, parted]
  by_cases empty : first = ""
  · subst empty
    simp only [whole, Bool.false_eq_true, if_false, if_true]
  · rw [if_neg empty]
    split
    · next equal => exact absurd (List.cons.inj equal).1 empty
    · rfl

/-- The names on the way to a directory are followed by the name in it. -/
theorem names_join {dir : String} (nonempty : dir ≠ "") :
    ∃ start stem, (names dir = (start, stem) ∨ names dir = (start, stem ++ [""])) ∧
      ∀ name, '/' ∉ name.toList → names (join dir name) = (start, stem ++ [name]) := by
  obtain ⟨front, ends, joined⟩ := toList_join nonempty
  obtain ⟨first, rest, parted⟩ := List.exists_cons_of_ne_nil (parts_ne_nil (String.ofList front))
  have joinedNames (name : String) (slashless : '/' ∉ name.toList) :
      names (join dir name) =
        if first = "" then (Place.top, rest ++ [name]) else ([], first :: rest ++ [name]) := by
    have proper : join dir name ≠ "" := by
      intro empty
      have := joined name
      rw [empty] at this
      exact absurd this.symm (by simp)
    refine names_of_parts proper ?_
    rw [parts_of_slash name (joined name) slashless, parted, List.cons_append]
  have dirNames : names dir = (if first = "" then (Place.top, rest) else ([], first :: rest)) ∨
      names dir = if first = "" then (Place.top, rest ++ [""]) else ([], first :: rest ++ [""]) := by
    rcases ends with whole | closed
    · refine .inl (names_of_parts nonempty ?_)
      rw [← whole, String.ofList_toList] at parted
      exact parted
    · refine .inr (names_of_parts nonempty ?_)
      rw [parts_of_slash "" closed (by decide), parted, List.cons_append]
  by_cases absolute : first = ""
  · simp only [absolute, if_true] at joinedNames dirNames
    exact ⟨Place.top, rest, dirNames, joinedNames⟩
  · simp only [absolute, if_false] at joinedNames dirNames
    exact ⟨[], first :: rest, dirNames, joinedNames⟩

end Path

namespace Disk

section Entries

variable {d : Disk} {p q : Place} {e : Entry}

theorem lookup_filter_ne (entries : List (Place × Entry)) (different : q ≠ p) :
    (entries.filter fun other => other.1 != p).lookup q = entries.lookup q := by
  induction entries with
  | nil => rfl
  | cons entry entries ih =>
      by_cases removed : entry.1 = p
      · rw [List.filter_cons_of_neg (by simp [removed]), ih, List.lookup_cons,
          beq_eq_false_iff_ne.2 (removed ▸ different)]
      · rw [List.filter_cons_of_pos (by simp [removed]), List.lookup_cons, List.lookup_cons, ih]

/-- What is put at a place changes no other place. -/
theorem at?_put_of_ne (d : Disk) (e : Entry) (different : q ≠ p) :
    (d.put p e).at? q = d.at? q := by
  simp only [at?, put, List.lookup_cons, beq_eq_false_iff_ne.2 different,
    lookup_filter_ne d.entries different]

/-- The names of the entries that stand in a place. -/
def namesIn (d : Disk) (p : Place) : List String :=
  d.entries.filterMap fun entry =>
    if !entry.1.isEmpty && entry.1.dropLast == p then entry.1.getLast? else none

/-- Only the name that is put at a place comes or goes. -/
theorem filter_namesIn_put (d : Disk) (p : Place) {name : String} (e : Entry)
    {keep : String → Bool} (left : keep name = false) :
    ((d.put (p ++ [name]) e).namesIn p).filter keep = (d.namesIn p).filter keep := by
  have added : (if !(p ++ [name]).isEmpty && (p ++ [name]).dropLast == p then
      (p ++ [name]).getLast? else none) = some name := by
    simp
  rw [namesIn, put, List.filterMap_cons, added]
  simp only [List.filter_cons_of_neg (Bool.eq_false_iff.1 left), namesIn]
  induction d.entries with
  | nil => rfl
  | cons entry entries ih =>
      by_cases replaced : entry.1 = p ++ [name]
      · rw [List.filter_cons_of_neg (by simp [replaced]), ih, List.filterMap_cons, replaced, added,
          List.filter_cons_of_neg (Bool.eq_false_iff.1 left)]
      · rw [List.filter_cons_of_pos (by simp [replaced]), List.filterMap_cons, List.filterMap_cons]
        split
        · exact ih
        · rw [List.filter_cons, List.filter_cons, ih]

end Entries

section Ways

variable {d d' : Disk}

theorem walk_append (d : Disk) (p : Place) (front back : List String) :
    d.walk p (front ++ back) =
      match d.walk p front with
      | .ok q => d.walk q back
      | .error e => .error e := by
  induction front generalizing p with
  | nil => rfl
  | cons name front ih =>
      rw [List.cons_append, walk, walk]
      cases d.step p name with
      | error e => rfl
      | ok q => exact ih q

theorem step_of_directory {p : Place} (directory : d.at? p = some .directory) (name : String) :
    d.step p name =
      if Path.nameLimit < name.utf8ByteSize then .error .nameTooLong
      else if (d.at? (Place.next p name)).isSome then .ok (Place.next p name)
      else .error .notFound := by
  rw [step, directory]

theorem directory_of_step {p q : Place} {name : String} (stepped : d.step p name = .ok q) :
    d.at? p = some .directory := by
  rw [step] at stepped
  split at stepped
  · cases stepped
  · cases stepped
  · assumption

theorem step_eq_ok_iff {p q : Place} (directory : d.at? p = some .directory) {name : String} :
    d.step p name = .ok q ↔
      name.utf8ByteSize ≤ Path.nameLimit ∧ (d.at? q).isSome ∧ q = Place.next p name := by
  rw [step_of_directory directory]
  by_cases long : Path.nameLimit < name.utf8ByteSize
  · simp only [long, if_true, reduceCtorEq, Nat.not_le.2 long, false_and]
  · by_cases there : (d.at? (Place.next p name)).isSome
    · simp only [long, there, if_false, if_true, Except.ok.injEq]
      constructor
      · rintro rfl
        exact ⟨Nat.le_of_not_lt long, there, rfl⟩
      · exact fun h => h.2.2.symm
    · simp only [long, there, if_false, reduceCtorEq, Bool.false_eq_true, false_iff]
      rintro ⟨-, found, rfl⟩
      exact there found

/-- A way that ends in a directory begins in one. -/
theorem directory_of_walk {p q : Place} {names : List String} (walked : d.walk p names = .ok q)
    (directory : d.at? q = some .directory) : d.at? p = some .directory := by
  cases names with
  | nil =>
      cases walked
      exact directory
  | cons name names =>
      rw [walk] at walked
      split at walked
      · next stepped => exact directory_of_step stepped
      · cases walked

/-- A way through directories is there on every disk that has these directories. -/
theorem walk_of_directories {p q : Place} {names : List String}
    (kept : ∀ r, d.at? r = some .directory → d'.at? r = some .directory)
    (walked : d.walk p names = .ok q) (directory : d.at? q = some .directory) :
    d'.walk p names = .ok q := by
  induction names generalizing p with
  | nil => exact walked
  | cons name names ih =>
      have start := directory_of_walk walked directory
      rw [walk] at walked ⊢
      split at walked
      · next next stepped =>
          obtain ⟨short, -, rfl⟩ := (step_eq_ok_iff start).1 stepped
          have there := kept _ (directory_of_walk walked directory)
          have again := (step_eq_ok_iff (kept _ start)).2 ⟨short, by rw [there]; rfl, rfl⟩
          rw [again]
          exact ih walked
      · cases walked

end Ways

/-- The path `dir` leads to the directory at `p`. -/
structure Opens (d : Disk) (dir : String) (p : Place) : Prop where
  resolves : d.resolve dir = .ok p
  directory : d.at? p = some .directory

section Directory

variable {d d' : Disk} {dir name : String} {p : Place}

theorem resolve_eq_ok_iff {path : String} :
    d.resolve path = .ok p ↔
      Path.refusal? path = none ∧ d.walk (Path.names path).1 (Path.names path).2 = .ok p := by
  rw [resolve]
  cases Path.refusal? path with
  | none => simp only [true_and]
  | some e => simp only [reduceCtorEq, false_and]

theorem list_eq_ok_iff {names : List String} :
    d.list dir = .ok names ↔ ∃ p, d.Opens dir p ∧ names = d.namesIn p := by
  constructor
  · intro listed
    rw [list] at listed
    split at listed
    · cases listed
    · next p resolves =>
        split at listed
        · next directory => exact ⟨p, ⟨resolves, directory⟩, (Except.ok.inj listed).symm⟩
        · cases listed
  · rintro ⟨p, opened, rfl⟩
    simp only [list, opened.resolves, opened.directory, namesIn]

theorem Opens.ne_empty (opened : d.Opens dir p) : dir ≠ "" := by
  rintro rfl
  cases opened.resolves

/-- The way to a directory is the way to a name in it without the last step. -/
theorem Opens.walks (opened : d.Opens dir p) :
    ∃ start stem, d.walk start stem = .ok p ∧
      ∀ name, '/' ∉ name.toList → Path.names (Path.join dir name) = (start, stem ++ [name]) := by
  obtain ⟨-, walked⟩ := resolve_eq_ok_iff.1 opened.resolves
  obtain ⟨start, stem, dirNames, joined⟩ := Path.names_join opened.ne_empty
  refine ⟨start, stem, ?_, joined⟩
  rcases dirNames with whole | closed
  · rw [whole] at walked
    exact walked
  · -- the empty name behind the last slash stays in the directory
    rw [closed, walk_append] at walked
    split at walked
    · next q stemWalked =>
        rw [walk] at walked
        split at walked
        · next r stepped =>
            have start := directory_of_step stepped
            obtain ⟨-, -, rfl⟩ := (step_eq_ok_iff start).1 stepped
            cases walked
            exact stemWalked
        · cases walked
    · cases walked

/-- A file where no directory is leaves every directory open. -/
theorem Opens.put {q : Place} (opened : d.Opens dir p) (content : List UInt8)
    (noDirectory : d.at? q ≠ some .directory) : (d.put q (.file content)).Opens dir p := by
  have kept (r : Place) (directory : d.at? r = some .directory) :
      (d.put q (.file content)).at? r = some .directory := by
    have different : r ≠ q := by
      rintro rfl
      exact noDirectory directory
    rw [at?_put_of_ne d _ different, directory]
  obtain ⟨accepted, walked⟩ := resolve_eq_ok_iff.1 opened.resolves
  exact ⟨resolve_eq_ok_iff.2 ⟨accepted, walk_of_directories kept walked opened.directory⟩,
    kept p opened.directory⟩

theorem resolve_join (opened : d.Opens dir p) (slashless : '/' ∉ name.toList) :
    d.resolve (Path.join dir name) =
      match Path.refusal? (Path.join dir name) with
      | some e => .error e
      | none => d.step p name := by
  obtain ⟨start, stem, walked, joined⟩ := opened.walks
  rw [resolve]
  cases Path.refusal? (Path.join dir name) with
  | some e => rfl
  | none =>
      simp only [joined name slashless, walk_append, walked, walk]
      cases d.step p name <;> rfl

theorem resolve_join_eq_ok_iff {q : Place} (opened : d.Opens dir p)
    (slashless : '/' ∉ name.toList) :
    d.resolve (Path.join dir name) = .ok q ↔
      Path.refusal? (Path.join dir name) = none ∧ name.utf8ByteSize ≤ Path.nameLimit ∧
        (d.at? q).isSome ∧ q = Place.next p name := by
  rw [resolve_join opened slashless]
  cases Path.refusal? (Path.join dir name) with
  | some e => simp only [reduceCtorEq, false_and]
  | none => simp only [step_eq_ok_iff opened.directory, true_and]

theorem write_join (opened : d.Opens dir p) (slashless : '/' ∉ name.toList) (text : String) :
    d.write (Path.join dir name) text =
      match Path.refusal? (Path.join dir name) with
      | some e => .error e
      | none => d.putFile p name text := by
  obtain ⟨start, stem, walked, joined⟩ := opened.walks
  rw [write]
  cases Path.refusal? (Path.join dir name) with
  | some e => rfl
  | none =>
      simp only [joined name slashless, List.dropLast_concat, walked, List.getLastD_concat]

/-- What can be read under a name is decided by what stands there. -/
theorem resolve_join_congr (opened : d.Opens dir p) (opened' : d'.Opens dir p)
    (slashless : '/' ∉ name.toList)
    (same : d'.at? (Place.next p name) = d.at? (Place.next p name)) :
    d'.resolve (Path.join dir name) = d.resolve (Path.join dir name) := by
  rw [resolve_join opened slashless, resolve_join opened' slashless,
    step_of_directory opened.directory, step_of_directory opened'.directory, same]

theorem contains_join_congr (opened : d.Opens dir p) (opened' : d'.Opens dir p)
    (slashless : '/' ∉ name.toList)
    (same : d'.at? (Place.next p name) = d.at? (Place.next p name)) :
    d'.contains (Path.join dir name) = d.contains (Path.join dir name) := by
  rw [contains, contains, resolve_join_congr opened opened' slashless same]

theorem read_join_congr (opened : d.Opens dir p) (opened' : d'.Opens dir p)
    (slashless : '/' ∉ name.toList)
    (same : d'.at? (Place.next p name) = d.at? (Place.next p name)) :
    d'.read (Path.join dir name) = d.read (Path.join dir name) := by
  have resolved := resolve_join_congr opened opened' slashless same
  have bytes : d'.readBytes (Path.join dir name) = d.readBytes (Path.join dir name) := by
    rw [readBytes, readBytes, resolved]
    split
    · rfl
    · next q led =>
        rw [((resolve_join_eq_ok_iff opened slashless).1 led).2.2.2, same]
  rw [read, read, bytes]

end Directory

/-- A file can be written under the name. -/
structure Accepts (d : Disk) (dir : String) (p : Place) (name : String) : Prop where
  accepted : Path.refusal? (Path.join dir name) = none
  named : Place.isStep name = false
  short : name.utf8ByteSize ≤ Path.nameLimit
  free : d.at? (p ++ [name]) ≠ some .directory

/-- The path leads to no directory, and if it leads nowhere, some text can be written there. -/
structure Writable (d : Disk) (path : String) : Prop where
  file : ∀ q, d.resolve path = .ok q → d.at? q ≠ some .directory
  free : d.contains path = false → ∃ text after, d.write path text = .ok after

section Writing

variable {d d' : Disk} {dir name : String} {p : Place}

theorem putFile_eq_ok_iff {after : Disk} (directory : d.at? p = some .directory) (text : String) :
    d.putFile p name text = .ok after ↔
      (Place.isStep name = false ∧ name.utf8ByteSize ≤ Path.nameLimit ∧
        d.at? (p ++ [name]) ≠ some .directory) ∧
      after = d.put (p ++ [name]) (.file (Text.encode text)) := by
  rw [putFile, directory]
  by_cases step : Place.isStep name = true
  · simp only [step, if_true, reduceCtorEq, Bool.true_eq_false, false_and]
  · by_cases long : Path.nameLimit < name.utf8ByteSize
    · simp only [step, long, if_true, reduceCtorEq, Nat.not_le.2 long, false_and, and_false,
        Bool.false_eq_true, if_false]
    · simp only [step, long, Nat.le_of_not_lt long, true_and, Bool.false_eq_true, if_false]
      split
      · next blocked => simp only [blocked, reduceCtorEq, ne_eq, not_true_eq_false, false_and]
      · next free =>
          exact ⟨fun written => ⟨free, (Except.ok.inj written).symm⟩, fun put => put.2 ▸ rfl⟩

/-- A text is written if its name is accepted, and it then stands under the name. -/
theorem write_join_eq_ok_iff {after : Disk} (opened : d.Opens dir p)
    (slashless : '/' ∉ name.toList) (text : String) :
    d.write (Path.join dir name) text = .ok after ↔
      d.Accepts dir p name ∧ after = d.put (p ++ [name]) (.file (Text.encode text)) := by
  rw [write_join opened slashless]
  cases accepted : Path.refusal? (Path.join dir name) with
  | some e =>
      simp only [reduceCtorEq, false_iff, not_and]
      intro accepts
      rw [accepts.accepted] at accepted
      cases accepted
  | none =>
      rw [putFile_eq_ok_iff opened.directory]
      constructor
      · rintro ⟨⟨named, short, free⟩, rfl⟩
        exact ⟨⟨accepted, named, short, free⟩, rfl⟩
      · rintro ⟨accepts, rfl⟩
        exact ⟨⟨accepts.named, accepts.short, accepts.free⟩, rfl⟩

theorem exists_write_join_iff (opened : d.Opens dir p) (slashless : '/' ∉ name.toList)
    (text : String) :
    (∃ after, d.write (Path.join dir name) text = .ok after) ↔ d.Accepts dir p name := by
  constructor
  · rintro ⟨after, written⟩
    exact ((write_join_eq_ok_iff opened slashless text).1 written).1
  · intro accepts
    exact ⟨_, (write_join_eq_ok_iff opened slashless text).2 ⟨accepts, rfl⟩⟩

namespace Accepts

theorem congr (accepts : d.Accepts dir p name)
    (same : d'.at? (p ++ [name]) = d.at? (p ++ [name])) : d'.Accepts dir p name :=
  { accepts with free := same ▸ accepts.free }

/-- What is put under the name stands there. -/
theorem at?_put (accepts : d.Accepts dir p name) (slashless : '/' ∉ name.toList) (e : Entry) :
    (d.put (p ++ [name]) e).at? (p ++ [name]) = some e :=
  at?_put_self d e (Place.isGiven_append_name p accepts.named slashless)

theorem put (accepts : d.Accepts dir p name) (slashless : '/' ∉ name.toList)
    (content : List UInt8) : (d.put (p ++ [name]) (.file content)).Accepts dir p name := by
  refine { accepts with free := ?_ }
  rw [accepts.at?_put slashless]
  exact nofun

/-- The path leads to what stands under the name. -/
theorem resolve (accepts : d.Accepts dir p name) (slashless : '/' ∉ name.toList)
    (opened : d.Opens dir p) (there : d.at? (p ++ [name]) ≠ none) :
    d.resolve (Path.join dir name) = .ok (p ++ [name]) :=
  (resolve_join_eq_ok_iff opened slashless).2 ⟨accepts.accepted, accepts.short,
    Option.isSome_iff_ne_none.2 there, (Place.next_of_not_isStep p accepts.named).symm⟩

theorem resolve_put (accepts : d.Accepts dir p name) (slashless : '/' ∉ name.toList)
    (opened : d.Opens dir p) (content : List UInt8) :
    (d.put (p ++ [name]) (.file content)).resolve (Path.join dir name) = .ok (p ++ [name]) := by
  refine (accepts.put slashless content).resolve slashless (opened.put content accepts.free) ?_
  rw [accepts.at?_put slashless]
  exact nofun

/-- A text that is put under the name is read back. -/
theorem read_put (accepts : d.Accepts dir p name) (slashless : '/' ∉ name.toList)
    (opened : d.Opens dir p) (text : String) :
    (d.put (p ++ [name]) (.file (Text.encode text))).read (Path.join dir name) = .ok text := by
  simp only [read, readBytes, accepts.resolve_put slashless opened, accepts.at?_put slashless,
    Text.decode?_encode]

end Accepts

end Writing

end Disk

/-- A disk whose entries have proper names and stand in directories. -/
structure SoundDisk extends Disk where
  named : ∀ entry ∈ entries, '/' ∉ (entry.1.getLastD "").toList
  parents : ∀ entry ∈ entries, toDisk.at? (Place.parent entry.1) = some .directory

namespace SoundDisk

variable (d : SoundDisk) {p : Place} {name : String}

theorem slashless_of_mem_namesIn (listed : name ∈ d.namesIn p) : '/' ∉ name.toList := by
  obtain ⟨entry, present, chosen⟩ := List.mem_filterMap.1 listed
  split at chosen
  · have last := d.named entry present
    rw [List.getLastD_eq_getLast?, chosen] at last
    exact last
  · cases chosen

/-- Whatever is there stands in a directory. -/
theorem parent {e : Entry} (there : d.at? p = some e) : d.at? (Place.parent p) = some .directory := by
  by_cases given : Place.isGiven p = true
  · rw [Disk.at?, Place.isGiven_parent given, if_pos rfl]
  · rw [Disk.at?, if_neg given] at there
    obtain ⟨front, back, parted, -⟩ := List.lookup_eq_some_iff.1 there
    exact d.parents (p, e) (parted ▸ List.mem_append_right front List.mem_cons_self)

/-- No step leads out of the directories. -/
theorem directory_of_isStep (directory : d.at? p = some .directory) (step : Place.isStep name = true) :
    d.at? (Place.next p name) = some .directory := by
  rw [Place.next, if_pos step]
  split
  · exact d.parent directory
  · exact directory

/-- The disk with a file under a name that is accepted. -/
def withFile {dir : String} (opened : d.Opens dir p) (slashless : '/' ∉ name.toList)
    (accepts : d.Accepts dir p name) (content : List UInt8) : SoundDisk where
  toDisk := d.put (p ++ [name]) (.file content)
  named := by
    intro entry present
    rcases List.mem_cons.1 present with rfl | kept
    · rw [List.getLastD_concat]
      exact slashless
    · exact d.named entry (List.mem_of_mem_filter kept)
  parents := by
    have directories {q : Place} (directory : d.at? q = some .directory) :
        (d.put (p ++ [name]) (.file content)).at? q = some .directory := by
      have different : q ≠ p ++ [name] := by
        rintro rfl
        exact accepts.free directory
      rw [Disk.at?_put_of_ne _ _ different, directory]
    intro entry present
    rcases List.mem_cons.1 present with rfl | kept
    · rw [Place.parent_append_name p accepts.named slashless]
      exact directories opened.directory
    · exact directories (d.parents entry (List.mem_of_mem_filter kept))

end SoundDisk

end EmojiLang
