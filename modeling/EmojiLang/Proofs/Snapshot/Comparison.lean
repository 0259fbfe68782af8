import Mathlib.Data.List.Forall2
import EmojiLang.Proofs.Snapshot.Siblings

/-!
# Comparing programs with their snapshots

**Definitions.** `Checked` lists all that can come of one program.  `Records` says which places of a disk
may change while the programs of a directory are compared.

**Method.** `check_eq_some_iff` and `checkAll_cons_eq_some_iff` open the two functions once; everything
else goes by cases on `Checked`.  `records_of_checkAll` follows a whole directory: each program meets a
disk on which only snapshots have changed, so its source is what it was at the beginning, and so is its
snapshot if it was there.

**Results.** `passed_mem_iff` says when a program passes whose snapshot is there: if the snapshot is a text
that agrees with its output, or if it cannot be read and there is no output.  `illegible_passed` is a case
of the latter.
-/

namespace EmojiLang
namespace Snapshot

/-- What can come of a program and its snapshot, and the disk that is left. -/
inductive Checked (fuel : Nat) (update : Bool) (d : Disk) (program : String) : Verdict → Disk → Prop
  | matching {output : String} (acts : actual fuel d program = some output)
      (present : d.contains (pathFor program) = true) (compared : update = false)
      (same : output = expected d (pathFor program)) :
      Checked fuel update d program (.passed program) d
  | differing {output : String} (acts : actual fuel d program = some output)
      (present : d.contains (pathFor program) = true) (compared : update = false)
      (different : output ≠ expected d (pathFor program)) :
      Checked fuel update d program
        (.differs program (expected d (pathFor program)) output) d
  | recorded {output : String} {after : Disk} (acts : actual fuel d program = some output)
      (due : d.contains (pathFor program) = true → update = true)
      (written : d.write (pathFor program) (output ++ "\n") = .ok after) :
      Checked fuel update d program (.passed program) after
  | refused {output : String} {cause : FileError} (acts : actual fuel d program = some output)
      (due : d.contains (pathFor program) = true → update = true)
      (failed : d.write (pathFor program) (output ++ "\n") = .error cause) :
      Checked fuel update d program (.unwritable program (pathFor program) cause) d

section Steps

variable {fuel : Nat} {update : Bool} {d last : Disk} {program : String} {v : Verdict}

theorem check_eq_some_iff {after : Disk} :
    check fuel update d program = some (v, after) ↔ Checked fuel update d program v after := by
  constructor
  · intro checked
    rw [check] at checked
    split at checked
    · cases checked
    · next output acts =>
        dsimp only at checked
        split at checked
        · next comparing =>
            simp only [Bool.and_eq_true, Bool.not_eq_true'] at comparing
            split at checked
            · next same =>
                cases checked
                exact .matching acts comparing.1 comparing.2 (beq_iff_eq.1 same)
            · next different =>
                cases checked
                exact .differing acts comparing.1 comparing.2 (fun same => different (by simp [same]))
        · next writing =>
            have due : d.contains (pathFor program) = true → update = true := by
              intro present
              simpa [present] using writing
            split at checked
            · next written =>
                cases checked
                exact .recorded acts due written
            · next failed =>
                cases checked
                exact .refused acts due failed
  · intro checked
    have writing (due : d.contains (pathFor program) = true → update = true) :
        (d.contains (pathFor program) && !update) = false := by
      cases present : d.contains (pathFor program) with
      | false => rfl
      | true => rw [due present]; rfl
    cases checked with
    | matching acts present compared same => simp [check, acts, present, compared, same]
    | differing acts present compared different => simp [check, acts, present, compared, different]
    | recorded acts due written => simp [check, acts, writing due, written]
    | refused acts due failed => simp [check, acts, writing due, failed]

theorem Checked.unique {v' : Verdict} {after after' : Disk}
    (checked : Checked fuel update d program v after)
    (checked' : Checked fuel update d program v' after') : v = v' ∧ after = after' := by
  have same := (check_eq_some_iff.2 checked).symm.trans (check_eq_some_iff.2 checked')
  exact Prod.mk.inj (Option.some.inj same)

/-- A program that comes to an end can be compared. -/
theorem exists_checked (update : Bool) {output : String}
    (acts : actual fuel d program = some output) :
    ∃ v after, Checked fuel update d program v after := by
  by_cases due : d.contains (pathFor program) = true → update = true
  · cases written : d.write (pathFor program) (output ++ "\n") with
    | ok after => exact ⟨_, after, .recorded acts due written⟩
    | error cause => exact ⟨_, d, .refused acts due written⟩
  · obtain ⟨present, off⟩ := Classical.not_imp.1 due
    by_cases same : output = expected d (pathFor program)
    · exact ⟨_, d, .matching acts present (Bool.eq_false_iff.2 off) same⟩
    · exact ⟨_, d, .differing acts present (Bool.eq_false_iff.2 off) same⟩

theorem checkAll_cons_eq_some_iff {rest : List String} {verdicts : List Verdict} :
    checkAll fuel update d (program :: rest) = some (verdicts, last) ↔
      ∃ v after others, Checked fuel update d program v after ∧
        checkAll fuel update after rest = some (others, last) ∧ verdicts = v :: others := by
  constructor
  · intro ran
    rw [checkAll] at ran
    split at ran
    · cases ran
    · next v after checked =>
        split at ran
        · cases ran
        · next others final followed =>
            cases ran
            exact ⟨v, after, others, check_eq_some_iff.1 checked, followed, rfl⟩
  · rintro ⟨v, after, others, checked, followed, rfl⟩
    simp only [checkAll, check_eq_some_iff.2 checked, followed]

end Steps

/-- From `d` to `after` only snapshots of the programs `names` in a directory were written, and without
`update` only such as were missing. -/
structure Records (update : Bool) (names : List String) (dir : String) (p : Place)
    (d after : Disk) : Prop where
  opened : after.Opens dir p
  programs : (after.namesIn p).filter Batch.isProgram = (d.namesIn p).filter Batch.isProgram
  changed : ∀ q, after.at? q ≠ d.at? q → ∃ name ∈ names,
    q = p ++ [pathFor name] ∧ after.Accepts dir p (pathFor name) ∧ after.at? q ≠ none ∧
      (update = false → d.at? q = none)

section Directory

variable {fuel : Nat} {update : Bool} {d after last : Disk} {dir name : String} {p : Place}
  {names : List String} {v : Verdict}

theorem Records.refl (opened : d.Opens dir p) : Records update names dir p d d :=
  ⟨opened, rfl, fun _ different => absurd rfl different⟩

theorem Records.mono {more : List String} (records : Records update names dir p d after)
    (subset : names ⊆ more) : Records update more dir p d after := by
  refine { records with changed := fun q different => ?_ }
  obtain ⟨name, member, rest⟩ := records.changed q different
  exact ⟨name, subset member, rest⟩

theorem Records.trans (first : Records update names dir p d after)
    (second : Records update names dir p after last) :
    Records update names dir p d last := by
  refine ⟨second.opened, second.programs.trans first.programs, fun q different => ?_⟩
  by_cases late : last.at? q = after.at? q
  · have early : after.at? q ≠ d.at? q := by rwa [late] at different
    obtain ⟨name, member, place, accepts, there, missing⟩ := first.changed q early
    exact ⟨name, member, place, accepts.congr (place ▸ late), late ▸ there, missing⟩
  · obtain ⟨name, member, place, accepts, there, missing⟩ := second.changed q late
    refine ⟨name, member, place, accepts, there, fun off => ?_⟩
    by_cases early : after.at? q = d.at? q
    · rw [← early, missing off]
    · obtain ⟨-, -, -, -, -, missing⟩ := first.changed q early
      exact missing off

/-- No program changes. -/
theorem Records.at?_program (records : Records update names dir p d after)
    (named : ∀ name ∈ names, ProgramName name) {program : String} (isName : ProgramName program) :
    after.at? (Place.next p program) = d.at? (Place.next p program) := by
  by_contra different
  obtain ⟨name, member, place, -⟩ := records.changed _ different
  exact isName.next_ne_snapshot (named name member) p place

/-- Without `update` what is there stays as it is. -/
theorem Records.at?_present (records : Records false names dir p d after) {q : Place}
    (present : d.at? q ≠ none) : after.at? q = d.at? q := by
  by_contra different
  obtain ⟨-, -, -, -, -, missing⟩ := records.changed _ different
  exact present (missing rfl)

/-- A name that can be written stays one. -/
theorem Records.accepts {other : String} (records : Records update names dir p d after)
    (accepts : d.Accepts dir p other) : after.Accepts dir p other := by
  by_cases same : after.at? (p ++ [other]) = d.at? (p ++ [other])
  · exact accepts.congr same
  · obtain ⟨name, -, place, written, -⟩ := records.changed _ same
    refine { accepts with free := ?_ }
    rw [place]
    exact written.free

/-- What changed is the snapshot of a program. -/
theorem Records.resolve_of_changed (records : Records update names dir p d after)
    (named : ∀ name ∈ names, ProgramName name) {q : Place} (different : after.at? q ≠ d.at? q) :
    ∃ name ∈ names, after.resolve (pathFor (Path.join dir name)) = .ok q := by
  obtain ⟨name, member, place, accepts, there, -⟩ := records.changed q different
  have isName := named name member
  rw [place] at there
  refine ⟨name, member, ?_⟩
  rw [isName.pathFor_join records.opened.ne_empty, place]
  exact accepts.resolve isName.slashless_pathFor records.opened there

/-- The output of a program depends on what stands under its name. -/
theorem actual_join_congr (fuel : Nat) (opened : d.Opens dir p) (opened' : after.Opens dir p)
    (slashless : '/' ∉ name.toList)
    (same : after.at? (Place.next p name) = d.at? (Place.next p name)) :
    actual fuel after (Path.join dir name) = actual fuel d (Path.join dir name) := by
  rw [actual, actual, Disk.read_join_congr opened opened' slashless same]

theorem expected_join_congr (opened : d.Opens dir p) (opened' : after.Opens dir p)
    (slashless : '/' ∉ name.toList)
    (same : after.at? (Place.next p name) = d.at? (Place.next p name)) :
    expected after (Path.join dir name) = expected d (Path.join dir name) := by
  rw [expected, expected, Disk.read_join_congr opened opened' slashless same]

theorem Records.put (opened : d.Opens dir p) (named : ProgramName name)
    (accepts : d.Accepts dir p (pathFor name))
    (due : d.contains (pathFor (Path.join dir name)) = true → update = true)
    (content : List UInt8) :
    Records update [name] dir p d (d.put (p ++ [pathFor name]) (.file content)) := by
  have slashless := named.slashless_pathFor
  refine ⟨opened.put _ accepts.free, Disk.filter_namesIn_put d p _ named.isProgram_pathFor, ?_⟩
  intro q different
  have place : q = p ++ [pathFor name] := by
    by_contra elsewhere
    exact different (Disk.at?_put_of_ne d _ elsewhere)
  subst place
  refine ⟨name, List.mem_singleton_self name, rfl, accepts.put slashless content, ?_,
    fun off => ?_⟩
  · rw [accepts.at?_put slashless]
    exact nofun
  · -- whatever stood there would have been found under the path of the snapshot
    by_contra there
    have present : d.contains (pathFor (Path.join dir name)) = true := by
      rw [named.pathFor_join opened.ne_empty, Disk.contains,
        accepts.resolve slashless opened there]
    rw [due present] at off
    cases off

/-- One comparison writes the snapshot of its program or nothing. -/
theorem Checked.records (opened : d.Opens dir p) (named : ProgramName name)
    (checked : Checked fuel update d (Path.join dir name) v after) :
    Records update [name] dir p d after := by
  cases checked with
  | matching => exact .refl opened
  | differing => exact .refl opened
  | refused => exact .refl opened
  | recorded acts due written =>
      obtain ⟨accepts, rfl⟩ := (named.write_pathFor_eq_ok_iff opened _).1 written
      exact .put opened named accepts due _

/-- Each program of a directory meets a disk on which only snapshots have changed. -/
theorem records_of_checkAll {all : List String} {verdicts : List Verdict} (opened : d.Opens dir p)
    (named : ∀ name ∈ all, ProgramName name) (subset : names ⊆ all)
    (ran : checkAll fuel update d (names.map (Path.join dir)) = some (verdicts, last)) :
    Records update all dir p d last ∧
      List.Forall₂ (fun name v => ∃ now after, Records update all dir p d now ∧
        Checked fuel update now (Path.join dir name) v after) names verdicts := by
  induction names generalizing d verdicts with
  | nil =>
      cases ran
      exact ⟨.refl opened, .nil⟩
  | cons name names ih =>
      obtain ⟨member, subset⟩ := List.cons_subset.1 subset
      obtain ⟨v, after, others, checked, followed, rfl⟩ := checkAll_cons_eq_some_iff.1 ran
      have step := (checked.records opened (named name member)).mono
        (List.cons_subset.2 ⟨member, List.nil_subset _⟩)
      obtain ⟨rest, verdicts⟩ := ih step.opened subset followed
      refine ⟨step.trans rest, .cons ⟨d, after, .refl opened, checked⟩ ?_⟩
      exact verdicts.imp fun _ _ ⟨now, after, records, checked⟩ =>
        ⟨now, after, step.trans records, checked⟩

end Directory

/-- The names of the programs in a place, in their order. -/
def programsIn (d : Disk) (p : Place) : List String :=
  ((d.namesIn p).filter Batch.isProgram).mergeSort fun a b => decide (a ≤ b)

section Listing

variable {d after : Disk} {dir : String} {p : Place}

theorem collect_eq_ok_iff {programs : List String} :
    Batch.collect d dir = .ok programs ↔
      ∃ p, d.Opens dir p ∧ programs = (programsIn d p).map (Path.join dir) := by
  constructor
  · intro collected
    rw [Batch.collect] at collected
    split at collected
    · cases collected
    · next names listed =>
        obtain ⟨p, opened, rfl⟩ := Disk.list_eq_ok_iff.1 listed
        exact ⟨p, opened, (Except.ok.inj collected).symm⟩
  · rintro ⟨p, opened, rfl⟩
    rw [Batch.collect, Disk.list_eq_ok_iff.2 ⟨p, opened, rfl⟩]
    rfl

theorem programName_of_mem_programsIn (d : SoundDisk) :
    ∀ name ∈ programsIn d.toDisk p, ProgramName name := by
  intro name member
  rw [programsIn, List.mem_mergeSort, List.mem_filter] at member
  exact ⟨d.slashless_of_mem_namesIn member.1, member.2⟩

theorem Records.programsIn_eq {update : Bool} {names : List String}
    (records : Records update names dir p d after) : programsIn after p = programsIn d p := by
  rw [programsIn, programsIn, records.programs]

theorem run_eq_some_iff {fuel : Nat} {update : Bool} {report : Report} (opened : d.Opens dir p) :
    run fuel update d dir = some report ↔
      ∃ verdicts, checkAll fuel update d ((programsIn d p).map (Path.join dir)) =
          some (verdicts, report.disk) ∧ report.verdicts = some verdicts := by
  rw [run, collect_eq_ok_iff.2 ⟨p, opened, rfl⟩]
  constructor
  · intro ran
    dsimp only at ran
    split at ran
    · cases ran
    · next verdicts after checked =>
        cases ran
        exact ⟨verdicts, checked, rfl⟩
  · rintro ⟨verdicts, checked, reported⟩
    obtain ⟨reports, last⟩ := report
    cases reported
    simp only [checked]

end Listing

section Verdicts

variable {fuel : Nat} {d now after : Disk} {dir program : String} {p : Place} {v : Verdict}

theorem Checked.of_passed {update : Bool} {other : String}
    (checked : Checked fuel update d program (.passed other) after) : other = program := by
  cases checked <;> rfl

/-- The verdict on a program whose snapshot was there at the beginning. -/
theorem Checked.of_present {names : List String} {name : String} (opened : d.Opens dir p)
    (named : ∀ name ∈ names, ProgramName name)
    (records : Records false names dir p d now) (isName : ProgramName name)
    (present : d.contains (pathFor (Path.join dir name)) = true)
    (checked : Checked fuel false now (Path.join dir name) v after) :
    ∃ output, actual fuel d (Path.join dir name) = some output ∧
      (v = .passed (Path.join dir name) ↔
        output = expected d (pathFor (Path.join dir name))) := by
  have slashless := isName.slashless_pathFor
  rw [isName.pathFor_join opened.ne_empty] at present ⊢
  have stands : d.at? (Place.next p (pathFor name)) ≠ none := by
    rw [Disk.contains] at present
    split at present
    · next q led =>
        obtain ⟨-, -, there, place⟩ := (Disk.resolve_join_eq_ok_iff opened slashless).1 led
        rw [← place]
        exact Option.isSome_iff_ne_none.1 there
    · cases present
  have same := records.at?_present stands
  have acting := actual_join_congr fuel opened records.opened isName.slashless
    (records.at?_program named isName)
  have wanted := expected_join_congr opened records.opened slashless same
  rw [← Disk.contains_join_congr opened records.opened slashless same] at present
  have snapshot := isName.pathFor_join opened.ne_empty
  cases checked with
  | matching acts _ _ same =>
      rw [snapshot, wanted] at same
      exact ⟨_, acting ▸ acts, iff_of_true rfl same⟩
  | differing acts _ _ different =>
      rw [snapshot, wanted] at different
      exact ⟨_, acting ▸ acts, iff_of_false (by simp) different⟩
  | recorded acts due _ =>
      rw [snapshot] at due
      cases due present
  | refused acts due _ =>
      rw [snapshot] at due
      cases due present

theorem exists_of_mem {α β : Type} {R : α → β → Prop} {l : List α} {l' : List β}
    (related : List.Forall₂ R l l') {b : β} (member : b ∈ l') : ∃ a ∈ l, R a b := by
  induction related with
  | nil => cases member
  | cons here _ ih =>
      rcases List.mem_cons.1 member with rfl | later
      · exact ⟨_, List.mem_cons_self, here⟩
      · obtain ⟨a, found, related⟩ := ih later
        exact ⟨a, List.mem_cons_of_mem _ found, related⟩

/-- A snapshot that cannot be read counts as empty. -/
theorem eq_expected_iff {output snapshot : String} :
    output = expected d snapshot ↔
      (∃ text, d.read snapshot = .ok text ∧ Text.trim text = output) ∨
        (∃ cause, d.read snapshot = .error cause) ∧ output = "" := by
  rw [expected]
  cases d.read snapshot with
  | ok text => simp [eq_comm]
  | error cause => simp

/-- A program whose snapshot is there passes if the snapshot is a text that agrees with its output, or if
the snapshot cannot be read and the program has no output.  So a pass means agreement unless the latter
is the case. -/
theorem passed_mem_iff (d : SoundDisk) {programs : List String} {report : Report}
    (collected : Batch.collect d.toDisk dir = .ok programs)
    (ran : run fuel false d.toDisk dir = some report) (listed : program ∈ programs)
    (present : d.contains (pathFor program) = true) :
    ∃ output, actual fuel d.toDisk program = some output ∧
      (.passed program ∈ report.verdicts.getD [] ↔
        (∃ text, d.read (pathFor program) = .ok text ∧ Text.trim text = output) ∨
          (∃ cause, d.read (pathFor program) = .error cause) ∧ output = "") ∧
      ((.passed program ∈ report.verdicts.getD [] →
          ∃ text, d.read (pathFor program) = .ok text ∧ Text.trim text = output) ↔
        ¬ ((∃ cause, d.read (pathFor program) = .error cause) ∧ output = "")) := by
  obtain ⟨p, opened, rfl⟩ := collect_eq_ok_iff.1 collected
  obtain ⟨verdicts, checked, reported⟩ := (run_eq_some_iff opened).1 ran
  obtain ⟨name, member, rfl⟩ := List.mem_map.1 listed
  have named : ∀ name ∈ programsIn d.toDisk p, ProgramName name := programName_of_mem_programsIn d
  obtain ⟨-, each⟩ := records_of_checkAll opened named (fun _ member => member) checked
  have isName := named name member
  obtain ⟨v, given, now, after, records, checkedNow⟩ := exists_of_mem each.flip member
  obtain ⟨output, acts, verdict⟩ := checkedNow.of_present opened named records isName present
  have passed : .passed (Path.join dir name) ∈ verdicts ↔
      output = expected d.toDisk (pathFor (Path.join dir name)) := by
    constructor
    · intro pass
      obtain ⟨other, -, now, after, records, checkedOther⟩ := exists_of_mem each pass
      rw [← checkedOther.of_passed] at checkedOther
      obtain ⟨output', acts', verdict'⟩ := checkedOther.of_present opened named records isName present
      rw [Option.some.inj (acts.symm.trans acts')]
      exact verdict'.1 rfl
    · intro same
      exact verdict.2 same ▸ given
  rw [reported, Option.getD_some, passed, eq_expected_iff]
  refine ⟨output, acts, Iff.rfl, ?_⟩
  constructor
  · rintro reads ⟨⟨cause, unread⟩, empty⟩
    obtain ⟨text, read, -⟩ := reads (.inr ⟨⟨cause, unread⟩, empty⟩)
    rw [unread] at read
    cases read
  · rintro exclude (reads | unread)
    · exact reads
    · exact absurd unread exclude

/-- A program without output beside a snapshot that is no text. -/
def illegible : SoundDisk where
  toDisk := (({} : Disk).addFile "t/c.emo" (Text.encode "decl x = 1\n")).addFile "t/c.out" [0xff, 0x0a]
  named := by decide +kernel
  parents := by decide +kernel

theorem passed_mem_iff_illegible :
    ∃ report, run 40 false illegible.toDisk "t" = some report ∧
      ∃ output, actual 40 illegible.toDisk "t/c.emo" = some output ∧
        (.passed "t/c.emo" ∈ report.verdicts.getD [] ↔
          (∃ text, illegible.read "t/c.out" = .ok text ∧ Text.trim text = output) ∨
            (∃ cause, illegible.read "t/c.out" = .error cause) ∧ output = "") ∧
        ((.passed "t/c.emo" ∈ report.verdicts.getD [] →
            ∃ text, illegible.read "t/c.out" = .ok text ∧ Text.trim text = output) ↔
          ¬ ((∃ cause, illegible.read "t/c.out" = .error cause) ∧ output = "")) := by
  have collected : Batch.collect illegible.toDisk "t" = .ok ["t/c.emo"] := by decide +kernel
  have ran : run 40 false illegible.toDisk "t" = some ⟨some [.passed "t/c.emo"], illegible.toDisk⟩ := by
    decide +kernel
  have snapshot : pathFor "t/c.emo" = "t/c.out" := by decide +kernel
  have present : illegible.contains (pathFor "t/c.emo") = true := by decide +kernel
  refine ⟨_, ran, ?_⟩
  rw [← snapshot]
  exact passed_mem_iff illegible collected ran (List.mem_singleton_self _) present

/-- A program passes although its snapshot cannot be read. -/
theorem illegible_passed :
    ∃ report, run 40 false illegible.toDisk "t" = some report ∧ report.passed = 1 ∧
      .passed "t/c.emo" ∈ report.verdicts.getD [] ∧
      illegible.contains (pathFor "t/c.emo") = true ∧
      illegible.read (pathFor "t/c.emo") = .error .notText :=
  ⟨⟨some [.passed "t/c.emo"], illegible.toDisk⟩, by decide +kernel, by decide +kernel, by decide +kernel,
    by decide +kernel, by decide +kernel⟩

end Verdicts

end Snapshot
end EmojiLang
