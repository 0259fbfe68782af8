import EmojiLang.Proofs.Eval.Respelling
import EmojiLang.Proofs.Snapshot.Comparison

/-!
# Snapshots that were recorded

**Definitions.** `Stable fuel d program passes` says that comparing the program changes nothing on the
disk, and tells whether it passes.

**Method.** A comparison leaves its program stable: a snapshot just written is read back as the output of
the program, and one that could not be written cannot be written again.  What is stable stays so while the
other programs are compared, because they write other snapshots.  So all programs are stable at the end
of a run, and a second run finds them so.

**Results.** `Program.capture_order` says that the output that counts does not depend on the order in which
scopes give their names.  `run_again` says that a second run gives the numbers of the first one and changes
nothing, `records_of_run` what a run may change, and `sound_of_checkAll` that it leaves a sound disk.
`recorded_passes` puts them together with the fuel that is enough and with the snapshots that can be written.
-/

namespace EmojiLang

namespace Program

/-- The text by which runs are compared has no white space at its ends. -/
theorem trim_of_capture {fuel : Nat} {source output : String}
    (captured : capture fuel source = some output) : Text.trim output = output := by
  rw [capture] at captured
  split at captured
  · rw [← Option.some.inj captured, Text.trim_trim]
  · split at captured
    · cases captured
    · rw [← Option.some.inj captured, Text.trim_trim]
    · rw [← Option.some.inj captured, Text.trim_trim]

/-- More fuel captures the same text. -/
theorem capture_of_le {fuel fuel' : Nat} {source output : String} (le : fuel ≤ fuel')
    (captured : capture fuel source = some output) : capture fuel' source = some output := by
  rw [capture] at captured ⊢
  cases prepared : prepare {} source with
  | error d =>
      rw [prepared] at captured
      exact captured
  | ok p =>
      rw [prepared] at captured
      dsimp only at captured ⊢
      have answered : run fuel {} p.tree ≠ .outOfFuel := by
        intro starved
        rw [starved] at captured
        cases captured
      have same : run fuel' {} p.tree = run fuel {} p.tree :=
        startWith_of_le le answered
      rw [same]
      exact captured

/-- A program is run in plain spelling as it is run in its own. -/
theorem startWith_plain {ts : List Token} {t : Tree} (made : Tree.ofTokens ts = .ok t) (fuel : Nat)
    (m : Machine) : Machine.startWith fuel t.plain m = Machine.startWith fuel t m := by
  have alike : Tree.Alike Token.EquivalentInPlace t t.plain :=
    Tree.alike_mapTokens Token.equivalentInPlace_plain t
  have related := startWith_related (respectsPlaces_eq m.order) (Grammar.ofTokens_derives made) alike
    ⟨rfl, rfl⟩ fuel
  generalize Machine.startWith fuel t m = o, Machine.startWith fuel t.plain m = o' at related ⊢
  cases related with
  | done same => rw [same.eq]
  | failed cause same => rw [cause, same.eq]
  | outOfFuel => rfl

/-- What is captured does not depend on the order of the names, because the line on a failure offers
nothing. -/
theorem capture_order (fuel : Nat) (source : String) (order : NameOrder) :
    capture fuel source order = capture fuel source := by
  cases made : Tree.ofSource (source ++ "\n") with
  | error d => simp only [capture, prepare, made]
  | ok t =>
      have alike : Tree.Alike Token.EquivalentInPlace t t :=
        Tree.alike_self fun a _ => Token.equivalentInPlace_self a
      have reordered : Machine.Reordered order .declared (machine {} order) (machine {}) := ⟨rfl, rfl⟩
      have related := startWith_related (respectsPlaces_reordered order .declared)
        (Grammar.ofTokens_derives made) alike reordered fuel
      simp only [capture, prepare, made, run, if_true, startWith_plain made]
      generalize Machine.startWith fuel t (machine {} order) = o,
        Machine.startWith fuel t (machine {}) = o' at related ⊢
      cases related with
      | done same => rw [same.2]
      | failed cause same => simp only [cause.sameButHint.summary_eq, same.2]
      | outOfFuel => rfl

end Program

namespace Snapshot

theorem trim_of_actual {fuel : Nat} {d : Disk} {program output : String}
    (acts : actual fuel d program = some output) : Text.trim output = output := by
  rw [actual] at acts
  split at acts
  · exact Program.trim_of_capture acts
  · next cause _ =>
      rw [← Option.some.inj acts]
      cases cause <;> decide +kernel

theorem actual_of_le {fuel fuel' : Nat} {d : Disk} {program output : String} (le : fuel ≤ fuel')
    (acts : actual fuel d program = some output) : actual fuel' d program = some output := by
  rw [actual] at acts ⊢
  split at acts
  · exact Program.capture_of_le le acts
  · exact acts

/-- A program that cannot be read comes to an end as well. -/
theorem exists_actual {d : Disk} {program : String}
    (ends : ∀ source, d.read program = .ok source →
      ∃ fuel output, Program.capture fuel source = some output) :
    ∃ fuel output, actual fuel d program = some output := by
  cases read : d.read program with
  | ok source =>
      obtain ⟨fuel, output, captured⟩ := ends source read
      exact ⟨fuel, output, by rw [actual, read]; exact captured⟩
  | error cause => exact ⟨0, _, by rw [actual, read]⟩

/-- Comparing the program changes nothing, and tells whether it passes. -/
def Stable (fuel : Nat) (d : Disk) (program : String) (passes : Bool) : Prop :=
  ∃ v, Checked fuel false d program v d ∧ v.isPassed = passes

section Steps

variable {fuel : Nat} {update passes : Bool} {d after last : Disk} {dir name other : String}
  {p : Place} {v : Verdict}

/-- What is written for a program is its expected output from then on. -/
theorem stable_of_put {output : String} (opened : d.Opens dir p) (named : ProgramName name)
    (accepts : d.Accepts dir p (pathFor name))
    (acts : actual fuel d (Path.join dir name) = some output) :
    Stable fuel (d.put (p ++ [pathFor name]) (.file (Text.encode (output ++ "\n"))))
      (Path.join dir name) true := by
  have slashless := named.slashless_pathFor
  have snapshot := named.pathFor_join opened.ne_empty
  have opened' := opened.put (Text.encode (output ++ "\n")) accepts.free
  have acting := actual_join_congr fuel opened opened' named.slashless
    (Disk.at?_put_of_ne d _ (named.next_ne_snapshot named p))
  refine ⟨_, .matching (acting.trans acts) ?_ rfl ?_, rfl⟩
  · rw [snapshot, Disk.contains, accepts.resolve_put slashless opened]
  · rw [snapshot, expected, accepts.read_put slashless opened]
    exact (Text.trim_append_lineFeed (trim_of_actual acts)).symm

/-- A comparison leaves its program stable. -/
theorem Checked.stable (opened : d.Opens dir p) (named : ProgramName name)
    (checked : Checked fuel update d (Path.join dir name) v after)
    (passing : update = true → v.isPassed = true) :
    Stable fuel after (Path.join dir name) v.isPassed := by
  cases checked with
  | matching acts present _ same => exact ⟨_, .matching acts present rfl same, rfl⟩
  | differing acts present _ different => exact ⟨_, .differing acts present rfl different, rfl⟩
  | recorded acts due written =>
      obtain ⟨accepts, rfl⟩ := (named.write_pathFor_eq_ok_iff opened _).1 written
      exact stable_of_put opened named accepts acts
  | refused acts due failed =>
      refine ⟨_, .refused acts (fun present => ?_) failed, rfl⟩
      exact absurd (passing (due present)) Bool.false_ne_true

/-- Whether a program is stable depends on what stands under its name and that of its snapshot. -/
theorem Stable.congr (stable : Stable fuel d (Path.join dir name) passes) (opened : d.Opens dir p)
    (opened' : after.Opens dir p) (named : ProgramName name)
    (source : after.at? (Place.next p name) = d.at? (Place.next p name))
    (snapshot : after.at? (Place.next p (pathFor name)) = d.at? (Place.next p (pathFor name))) :
    Stable fuel after (Path.join dir name) passes := by
  have slashless := named.slashless_pathFor
  have path := named.pathFor_join opened.ne_empty
  have acting := actual_join_congr fuel opened opened' named.slashless source
  have presence := Disk.contains_join_congr opened opened' slashless snapshot
  have wanted := expected_join_congr opened opened' slashless snapshot
  rw [← path] at presence wanted
  obtain ⟨v, checked, verdict⟩ := stable
  cases checked with
  | matching acts present _ same =>
      exact ⟨_, .matching (acting.trans acts) (presence.trans present) rfl
        (same.trans wanted.symm), verdict⟩
  | differing acts present _ different =>
      refine ⟨_, .differing (acting.trans acts) (presence.trans present) rfl
        (fun same => different (same.trans wanted)), ?_⟩
      rw [wanted]
      exact verdict
  | @recorded output _ acts due written =>
      -- a snapshot that was written just now is there
      obtain ⟨accepts, unchanged⟩ := (named.write_pathFor_eq_ok_iff opened _).1 written
      have led := accepts.resolve_put slashless opened (Text.encode (output ++ "\n"))
      rw [← unchanged] at led
      have absurdity := due (by rw [path, Disk.contains, led])
      cases absurdity
  | @refused output cause acts due failed =>
      cases again : after.write (pathFor (Path.join dir name)) (output ++ "\n") with
      | ok written =>
          have accepts := (named.exists_write_pathFor_iff opened' _).1 ⟨written, again⟩
          rw [Place.next_of_not_isStep p accepts.named] at snapshot
          obtain ⟨_, written⟩ := (named.exists_write_pathFor_iff opened _).2
            (accepts.congr snapshot.symm)
          rw [failed] at written
          cases written
      | error cause =>
          exact ⟨_, .refused (acting.trans acts) (fun present => due (presence.symm.trans present))
            again, verdict⟩

/-- What is stable stays so while the programs of the directory are compared. -/
theorem Stable.of_checked (stable : Stable fuel d (Path.join dir name) passes)
    (opened : d.Opens dir p) (named : ProgramName name) (named' : ProgramName other)
    (checked : Checked fuel update d (Path.join dir other) v after)
    (passing : update = true → passes = true ∧ v.isPassed = true) :
    Stable fuel after (Path.join dir name) passes := by
  by_cases same : name = other
  · subst same
    have settled := checked.stable opened named fun on => (passing on).2
    cases update with
    | true =>
        rw [(passing rfl).2, ← (passing rfl).1] at settled
        exact settled
    | false =>
        obtain ⟨v', checked', rfl⟩ := stable
        obtain ⟨rfl, rfl⟩ := checked.unique checked'
        exact settled
  · have records := checked.records opened named'
    refine stable.congr opened records.opened named
      (records.at?_program (List.forall_mem_singleton.2 named') named) ?_
    by_contra different
    obtain ⟨_, found, place, accepts, -⟩ := records.changed _ different
    rw [List.mem_singleton.1 found] at place accepts
    exact named.next_pathFor_ne named' same p accepts.named place

/-- A snapshot that can be written is recorded, and the program passes. -/
theorem Checked.isPassed_of_accepts (opened : d.Opens dir p) (named : ProgramName name)
    (accepts : d.Accepts dir p (pathFor name))
    (checked : Checked fuel true d (Path.join dir name) v after) : v.isPassed = true := by
  cases checked with
  | matching => rfl
  | differing _ _ compared _ => cases compared
  | recorded => rfl
  | refused acts due failed =>
      obtain ⟨_, written⟩ := (named.exists_write_pathFor_iff opened _).2 accepts
      rw [failed] at written
      cases written

end Steps

section Runs

variable {fuel : Nat} {update : Bool} {d last : Disk} {dir : String} {p : Place}
  {names : List String} {verdicts : List Verdict}

/-- Every program can be compared if every program comes to an end. -/
theorem exists_checkAll (update : Bool) (opened : d.Opens dir p)
    (named : ∀ name ∈ names, ProgramName name)
    (acting : ∀ name ∈ names, ∃ output, actual fuel d (Path.join dir name) = some output) :
    ∃ verdicts last,
      checkAll fuel update d (names.map (Path.join dir)) = some (verdicts, last) := by
  induction names generalizing d with
  | nil => exact ⟨[], d, rfl⟩
  | cons name names ih =>
      obtain ⟨isName, rest⟩ := List.forall_mem_cons.1 named
      obtain ⟨⟨output, acts⟩, later⟩ := List.forall_mem_cons.1 acting
      obtain ⟨v, after, checked⟩ := exists_checked update acts
      have records := checked.records opened isName
      obtain ⟨verdicts, last, followed⟩ := ih records.opened rest fun other member => by
        rw [actual_join_congr fuel opened records.opened (rest other member).slashless
          (records.at?_program (List.forall_mem_singleton.2 isName) (rest other member))]
        exact later other member
      exact ⟨v :: verdicts, last,
        checkAll_cons_eq_some_iff.2 ⟨v, after, verdicts, checked, followed, rfl⟩⟩

/-- With `update` all programs pass whose snapshots can be written. -/
theorem isPassed_of_update (opened : d.Opens dir p) (named : ∀ name ∈ names, ProgramName name)
    (accepts : ∀ name ∈ names, d.Accepts dir p (pathFor name))
    (ran : checkAll fuel true d (names.map (Path.join dir)) = some (verdicts, last)) :
    ∀ v ∈ verdicts, v.isPassed = true := by
  induction names generalizing d verdicts with
  | nil =>
      cases ran
      exact List.forall_mem_nil _
  | cons name names ih =>
      obtain ⟨isName, rest⟩ := List.forall_mem_cons.1 named
      obtain ⟨accepted, later⟩ := List.forall_mem_cons.1 accepts
      obtain ⟨v, after, others, checked, followed, rfl⟩ := checkAll_cons_eq_some_iff.1 ran
      have records := checked.records opened isName
      refine List.forall_mem_cons.2 ⟨checked.isPassed_of_accepts opened isName accepted, ?_⟩
      exact ih records.opened rest (fun name member => records.accepts (later name member)) followed

theorem Stable.of_checkAll {passes : Bool} {name : String}
    (stable : Stable fuel d (Path.join dir name) passes)
    (opened : d.Opens dir p) (isName : ProgramName name)
    (named : ∀ name ∈ names, ProgramName name)
    (ran : checkAll fuel update d (names.map (Path.join dir)) = some (verdicts, last))
    (passing : update = true → passes = true ∧ ∀ v ∈ verdicts, v.isPassed = true) :
    Stable fuel last (Path.join dir name) passes := by
  induction names generalizing d verdicts with
  | nil =>
      cases ran
      exact stable
  | cons other names ih =>
      obtain ⟨v, after, others, checked, followed, rfl⟩ := checkAll_cons_eq_some_iff.1 ran
      obtain ⟨named', rest⟩ := List.forall_mem_cons.1 named
      simp only [List.forall_mem_cons] at passing
      have kept := stable.of_checked opened isName named' checked fun on =>
        ⟨(passing on).1, (passing on).2.1⟩
      exact ih kept (checked.records opened named').opened rest followed fun on =>
        ⟨(passing on).1, (passing on).2.2⟩

/-- All programs are stable at the end of a run. -/
theorem stable_of_checkAll (opened : d.Opens dir p) (named : ∀ name ∈ names, ProgramName name)
    (ran : checkAll fuel update d (names.map (Path.join dir)) = some (verdicts, last))
    (passing : update = true → ∀ v ∈ verdicts, v.isPassed = true) :
    List.Forall₂ (Stable fuel last) (names.map (Path.join dir))
      (verdicts.map Verdict.isPassed) := by
  induction names generalizing d verdicts with
  | nil =>
      cases ran
      exact .nil
  | cons name names ih =>
      obtain ⟨v, after, others, checked, followed, rfl⟩ := checkAll_cons_eq_some_iff.1 ran
      obtain ⟨isName, rest⟩ := List.forall_mem_cons.1 named
      simp only [List.forall_mem_cons] at passing
      have opened' := (checked.records opened isName).opened
      have settled := checked.stable opened isName fun on => (passing on).1
      exact .cons (settled.of_checkAll opened' isName rest followed passing)
        (ih opened' rest followed fun on => (passing on).2)

/-- A run over stable programs changes nothing. -/
theorem checkAll_of_stable {programs : List String} {passes : List Bool}
    (stable : List.Forall₂ (Stable fuel d) programs passes) :
    ∃ verdicts, checkAll fuel false d programs = some (verdicts, d) ∧
      verdicts.map Verdict.isPassed = passes := by
  induction stable with
  | nil => exact ⟨[], rfl, rfl⟩
  | cons here _ ih =>
      obtain ⟨v, checked, rfl⟩ := here
      obtain ⟨verdicts, followed, rfl⟩ := ih
      exact ⟨v :: verdicts, checkAll_cons_eq_some_iff.2 ⟨v, d, verdicts, checked, followed, rfl⟩, rfl⟩

/-- One amount of fuel is enough for all programs if each comes to an end. -/
theorem exists_enough {programs : List String}
    (ends : ∀ program ∈ programs, ∃ fuel output, actual fuel d program = some output) :
    ∃ enough, ∀ fuel ≥ enough, ∀ program ∈ programs,
      ∃ output, actual fuel d program = some output := by
  induction programs with
  | nil => exact ⟨0, fun _ _ => List.forall_mem_nil _⟩
  | cons program programs ih =>
      obtain ⟨⟨one, output, acts⟩, later⟩ := List.forall_mem_cons.1 ends
      obtain ⟨others, enough⟩ := ih later
      refine ⟨max one others, fun fuel more => List.forall_mem_cons.2 ⟨⟨output, ?_⟩, ?_⟩⟩
      · exact actual_of_le (le_trans (le_max_left _ _) more) acts
      · exact enough fuel (le_trans (le_max_right _ _) more)

end Runs

section Reports

variable {fuel : Nat} {update : Bool} {dir : String} {p : Place}

/-- A snapshot that can be written along its path is accepted under its name. -/
theorem accepts_of_writable (d : SoundDisk) {name : String} (opened : d.Opens dir p)
    (named : ProgramName name) (writable : d.Writable (pathFor (Path.join dir name))) :
    d.Accepts dir p (pathFor name) := by
  cases led : d.resolve (pathFor (Path.join dir name)) with
  | error e =>
      obtain ⟨text, written⟩ := writable.free (by rw [Disk.contains, led])
      exact (named.exists_write_pathFor_iff opened text).1 written
  | ok q =>
      have noDirectory := writable.file q led
      rw [named.pathFor_join opened.ne_empty] at led
      obtain ⟨accepted, short, there, place⟩ :=
        (Disk.resolve_join_eq_ok_iff opened named.slashless_pathFor).1 led
      rw [place] at noDirectory
      -- a step would lead to a directory
      by_cases step : Place.isStep (pathFor name) = true
      · exact absurd (d.directory_of_isStep opened.directory step) noDirectory
      · rw [Place.next_of_not_isStep p (Bool.eq_false_iff.2 step)] at noDirectory
        exact ⟨accepted, Bool.eq_false_iff.2 step, short, noDirectory⟩

/-- A comparison leaves a sound disk. -/
theorem Checked.sound {d : SoundDisk} {after : Disk} {name : String} {v : Verdict}
    (opened : d.Opens dir p) (named : ProgramName name)
    (checked : Checked fuel update d.toDisk (Path.join dir name) v after) :
    ∃ sound : SoundDisk, sound.toDisk = after := by
  cases checked with
  | matching => exact ⟨d, rfl⟩
  | differing => exact ⟨d, rfl⟩
  | refused => exact ⟨d, rfl⟩
  | recorded acts due written =>
      obtain ⟨accepts, rfl⟩ := (named.write_pathFor_eq_ok_iff opened _).1 written
      exact ⟨d.withFile opened named.slashless_pathFor accepts _, rfl⟩

/-- So do all comparisons together. -/
theorem sound_of_checkAll {d : SoundDisk} {last : Disk} {names : List String} {verdicts : List Verdict}
    (opened : d.Opens dir p) (named : ∀ name ∈ names, ProgramName name)
    (ran : checkAll fuel update d.toDisk (names.map (Path.join dir)) = some (verdicts, last)) :
    ∃ sound : SoundDisk, sound.toDisk = last := by
  induction names generalizing d verdicts with
  | nil =>
      cases ran
      exact ⟨d, rfl⟩
  | cons name names ih =>
      obtain ⟨v, after, others, checked, followed, rfl⟩ := checkAll_cons_eq_some_iff.1 ran
      obtain ⟨isName, rest⟩ := List.forall_mem_cons.1 named
      have opened' := (checked.records opened isName).opened
      obtain ⟨next, rfl⟩ := checked.sound opened isName
      exact ih opened' rest followed

variable (d : SoundDisk)

theorem exists_run (update : Bool) (opened : d.Opens dir p)
    (acting : ∀ program ∈ (programsIn d.toDisk p).map (Path.join dir),
      ∃ output, actual fuel d.toDisk program = some output) :
    ∃ report, run fuel update d.toDisk dir = some report := by
  rw [List.forall_mem_map] at acting
  obtain ⟨verdicts, last, ran⟩ :=
    exists_checkAll update opened (programName_of_mem_programsIn d) acting
  exact ⟨⟨some verdicts, last⟩, (run_eq_some_iff opened).2 ⟨verdicts, ran, rfl⟩⟩

variable {d} {report : Report} (opened : d.Opens dir p)
include opened

/-- A run reports on every program, writes snapshots only, and leaves a sound disk. -/
theorem records_of_run (ran : run fuel update d.toDisk dir = some report) :
    Records update (programsIn d.toDisk p) dir p d.toDisk report.disk ∧
      report.total = (programsIn d.toDisk p).length ∧ ∃ sound : SoundDisk, sound.toDisk = report.disk := by
  obtain ⟨verdicts, ran, reported⟩ := (run_eq_some_iff opened).1 ran
  have named : ∀ name ∈ programsIn d.toDisk p, ProgramName name := programName_of_mem_programsIn d
  obtain ⟨records, each⟩ := records_of_checkAll opened named (fun _ member => member) ran
  refine ⟨records, ?_, sound_of_checkAll opened named ran⟩
  rw [Report.total, reported, Option.getD_some, each.length_eq]

/-- With `update` all programs pass whose snapshots can be written. -/
theorem passed_of_update (accepts : ∀ name ∈ programsIn d.toDisk p, d.Accepts dir p (pathFor name))
    (ran : run fuel true d.toDisk dir = some report) : report.passed = report.total := by
  obtain ⟨verdicts, ran, reported⟩ := (run_eq_some_iff opened).1 ran
  rw [Report.passed, Report.total, reported, Option.getD_some, List.countP_eq_length]
  exact isPassed_of_update opened (programName_of_mem_programsIn d) accepts ran

/-- A run that follows another one finds every program as that one left it. -/
theorem run_again (ran : run fuel update d.toDisk dir = some report)
    (passing : update = true → report.passed = report.total) :
    ∃ second, run fuel false report.disk dir = some second ∧ second.passed = report.passed ∧
      second.total = report.total ∧ second.disk = report.disk := by
  obtain ⟨records, -, -⟩ := records_of_run opened ran
  obtain ⟨verdicts, ran, reported⟩ := (run_eq_some_iff opened).1 ran
  simp only [Report.passed, Report.total, reported, Option.getD_some, List.countP_eq_length] at *
  obtain ⟨again, reran, same⟩ := checkAll_of_stable
    (stable_of_checkAll opened (programName_of_mem_programsIn d) ran passing)
  refine ⟨⟨some again, report.disk⟩, ?_, ?_, ?_, rfl⟩
  · rw [run_eq_some_iff records.opened, records.programsIn_eq]
    exact ⟨again, reran, rfl⟩
  · have passed := congrArg (List.countP (· == true)) same
    simpa only [List.countP_map, Function.comp_def, beq_true, Option.getD_some] using passed
  · simpa only [List.length_map, Option.getD_some] using congrArg List.length same

omit opened

/-- Snapshots that were recorded are passed.

Let every program of a directory come to an end.  If the snapshots can be written, then a run with `update`
passes all programs, and so does a run after it, which changes nothing.  In any case the second of two runs
without `update` gives the numbers of the first one and changes nothing, and a run leaves a sound disk and
changes no place but those of the snapshots; without `update` only such as held nothing. -/
theorem recorded_passes (d : SoundDisk) {names : List String} (listed : d.list dir = .ok names)
    (ends : ∀ name ∈ names.filter Batch.isProgram, ∀ source,
      d.read (Path.join dir name) = .ok source →
        ∃ fuel output, Program.capture fuel source = some output) :
    ∃ enough, ∀ fuel ≥ enough,
      ((∀ name ∈ names.filter Batch.isProgram, d.Writable (pathFor (Path.join dir name))) →
        ∃ first second, run fuel true d.toDisk dir = some first ∧
          run fuel false first.disk dir = some second ∧
          first.passed = names.countP Batch.isProgram ∧
          first.total = names.countP Batch.isProgram ∧
          second.passed = names.countP Batch.isProgram ∧
          second.total = names.countP Batch.isProgram ∧ second.disk = first.disk) ∧
      (∃ first second, run fuel false d.toDisk dir = some first ∧
        run fuel false first.disk dir = some second ∧
        second.passed = first.passed ∧ second.total = first.total ∧ second.disk = first.disk) ∧
      ∀ update, ∃ report, run fuel update d.toDisk dir = some report ∧
        (∃ sound : SoundDisk, sound.toDisk = report.disk) ∧
        ∀ q, report.disk.at? q ≠ d.at? q →
          (∃ name ∈ names.filter Batch.isProgram,
            report.disk.resolve (pathFor (Path.join dir name)) = .ok q) ∧
          (update = false → d.at? q = none) := by
  obtain ⟨p, opened, rfl⟩ := Disk.list_eq_ok_iff.1 listed
  have member (name : String) :
      name ∈ programsIn d.toDisk p ↔ name ∈ (d.namesIn p).filter Batch.isProgram := List.mem_mergeSort
  have number : (programsIn d.toDisk p).length = (d.namesIn p).countP Batch.isProgram := by
    rw [programsIn, List.length_mergeSort, List.countP_eq_length_filter]
  have named : ∀ name ∈ programsIn d.toDisk p, ProgramName name := programName_of_mem_programsIn d
  obtain ⟨enough, suffice⟩ := exists_enough (List.forall_mem_map.2 fun name found =>
    exists_actual (ends name ((member name).1 found)))
  refine ⟨enough, fun fuel more => ⟨fun writable => ?_, ?_, fun update => ?_⟩⟩
  · have accepts (name : String) (found : name ∈ programsIn d.toDisk p) :=
      accepts_of_writable d opened (named name found) (writable name ((member name).1 found))
    obtain ⟨first, ran⟩ := exists_run d true opened (suffice fuel more)
    have passed := passed_of_update opened accepts ran
    have total := (records_of_run opened ran).2.1.trans number
    obtain ⟨second, reran, passed', total', unchanged⟩ := run_again opened ran fun _ => passed
    rw [total] at passed total'
    exact ⟨first, second, ran, reran, passed, total, passed'.trans passed, total', unchanged⟩
  · obtain ⟨first, ran⟩ := exists_run d false opened (suffice fuel more)
    obtain ⟨second, reran, rest⟩ := run_again opened ran fun on => absurd on Bool.false_ne_true
    exact ⟨first, second, ran, reran, rest⟩
  · obtain ⟨report, ran⟩ := exists_run d update opened (suffice fuel more)
    obtain ⟨records, -, sound⟩ := records_of_run opened ran
    refine ⟨report, ran, sound, fun q different => ⟨?_, ?_⟩⟩
    · obtain ⟨name, found, led⟩ := records.resolve_of_changed named different
      exact ⟨name, (member name).1 found, led⟩
    · obtain ⟨-, -, -, -, -, missing⟩ := records.changed q different
      exact missing

/-- A program without a snapshot, and one that cannot be read beside a snapshot of old. -/
def mixed : SoundDisk where
  toDisk := ((({} : Disk).addFile "t/a.emo" (Text.encode "print(1)\n")).addFile "t/b.emo" [0xff]).addFile
    "t/b.out" (Text.encode "old\n")
  named := by decide +kernel
  parents := by decide +kernel

theorem recorded_passes_mixed :
    mixed.list "t" = .ok ["b.out", "b.emo", "a.emo"] ∧
      ∃ enough, ∀ fuel ≥ enough, ∃ first second, run fuel true mixed.toDisk "t" = some first ∧
        run fuel false first.disk "t" = some second ∧ first.passed = 2 ∧ first.total = 2 ∧
        second.passed = 2 ∧ second.total = 2 ∧ second.disk = first.disk := by
  have listed : mixed.list "t" = .ok ["b.out", "b.emo", "a.emo"] := by decide +kernel
  have programs : ["b.out", "b.emo", "a.emo"].filter Batch.isProgram = ["b.emo", "a.emo"] := by
    decide +kernel
  have readA : mixed.read (Path.join "t" "a.emo") = .ok "print(1)\n" := by decide +kernel
  have readB : mixed.read (Path.join "t" "b.emo") = .error .notText := by decide +kernel
  have ledA : mixed.resolve (pathFor (Path.join "t" "a.emo")) = .error .notFound := by
    decide +kernel
  have ledB : mixed.resolve (pathFor (Path.join "t" "b.emo")) = .ok ["t", "b.out"] := by
    decide +kernel
  have file : mixed.at? ["t", "b.out"] ≠ some .directory := by decide +kernel
  have writableA : mixed.Writable (pathFor (Path.join "t" "a.emo")) := by
    refine ⟨fun q led => ?_, fun _ => ?_⟩
    · rw [ledA] at led
      cases led
    · exact ⟨"", (Disk.put mixed.toDisk ["t", "a.out"] (.file [])), by decide +kernel⟩
  have writableB : mixed.Writable (pathFor (Path.join "t" "b.emo")) := by
    refine ⟨fun q led => ?_, fun missing => ?_⟩
    · rw [ledB] at led
      cases led
      exact file
    · rw [Disk.contains, ledB] at missing
      cases missing
  refine ⟨listed, ?_⟩
  obtain ⟨enough, rest⟩ := recorded_passes mixed listed (by
    rw [programs]
    simp only [List.forall_mem_cons, List.not_mem_nil, readA, readB, reduceCtorEq, false_implies,
      implies_true, true_and, and_true, Except.ok.injEq]
    rintro source rfl
    exact ⟨40, "1", by decide +kernel⟩)
  refine ⟨enough, fun fuel more => (rest fuel more).1 ?_⟩
  rw [programs]
  exact List.forall_mem_cons.2 ⟨writableB, List.forall_mem_singleton.2 writableA⟩

end Reports

end Snapshot

end EmojiLang
