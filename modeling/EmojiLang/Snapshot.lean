import EmojiLang.Batch

/-!
# Snapshots

The snapshot of a program is what it is expected to print, kept in a file beside it.  A program without
a snapshot gets one from its present output; a program with one passes if the two agree, white space at
the ends apart.  With `update` all snapshots are made anew.

A program that cannot be read has the text of that failure for its output.  A snapshot that cannot be
read counts as empty, and one that cannot be written is a failure.
-/

namespace EmojiLang

/-- What came of comparing a program with its snapshot. -/
inductive Verdict where
  | passed (path : String)
  | differs (path expected actual : String)
  | unwritable (path snapshot : String) (cause : FileError)
deriving DecidableEq, Repr, Inhabited

namespace Verdict

/-- The program agrees with its snapshot. -/
def isPassed : Verdict → Bool
  | .passed _ => true
  | _ => false

/-- The lines on one program; `elapsed` is the time it took, in words. -/
def written (elapsed : String) : Verdict → Console
  | .passed path => Console.empty.print ("[✓] " ++ path ++ " (" ++ elapsed ++ ")\n")
  | .differs path expected actual =>
      Console.empty.print ("[✗] " ++ path ++ "\nExpected:\n" ++ expected ++ "\nGot:\n" ++ actual ++
        "\n\n")
  | .unwritable path snapshot cause =>
      Console.empty.warn ("[!] Failed to write snapshot " ++ snapshot ++ ": " ++ cause.message ++ "\n")
        |>.print ("[✗] " ++ path ++ "\n")

end Verdict

namespace Snapshot

/-- A time span in words: two decimal places of the largest unit that it reaches. -/
def elapsedText (nanoseconds : Nat) : String :=
  let inUnit (unit : Nat) (name : String) : String :=
    Binary64.pointed 2 (Number.roundDiv (100 * nanoseconds) unit) ++ name
  if nanoseconds < Number.tenTo 3 then inUnit 1 "ns"
  else if nanoseconds < Number.tenTo 6 then inUnit (Number.tenTo 3) "µs"
  else if nanoseconds < Number.tenTo 9 then inUnit (Number.tenTo 6) "ms"
  else inUnit (Number.tenTo 9) "s"

/-- The extension of snapshot files. -/
def extension : String := "out"

/-- The snapshot of a program, whose path ends with the extension of programs.  Where the path without
its extension names no file, because it ends with two points, it is kept as it is. -/
def pathFor (program : String) : String :=
  let bare := String.ofList
    (program.toList.take (program.length - Batch.programExtension.length))
  if (Path.fileName? bare).isSome then bare ++ extension else bare

/-- The output of a program that counts for its snapshot. -/
def actual (fuel : Nat) (disk : Disk) (program : String) : Option String :=
  match disk.read program with
  | .ok source => Program.capture fuel source
  | .error e => some ("cannot read file: " ++ e.message)

/-- The text of a snapshot. -/
def expected (disk : Disk) (snapshot : String) : String :=
  match disk.read snapshot with
  | .ok text => Text.trim text
  | .error _ => ""

/-- Compares a program with its snapshot, or makes the snapshot. -/
def check (fuel : Nat) (update : Bool) (disk : Disk) (program : String) : Option (Verdict × Disk) :=
  match actual fuel disk program with
  | none => none
  | some output =>
      let snapshot := pathFor program
      if disk.contains snapshot && !update then
        let wanted := expected disk snapshot
        if output == wanted then some (.passed program, disk)
        else some (.differs program wanted output, disk)
      else
        match disk.write snapshot (output ++ "\n") with
        | .ok after => some (.passed program, after)
        | .error e => some (.unwritable program snapshot e, disk)

/-- Compares programs one after the other. -/
def checkAll (fuel : Nat) (update : Bool) : Disk → List String → Option (List Verdict × Disk)
  | disk, [] => some ([], disk)
  | disk, program :: rest =>
      match check fuel update disk program with
      | none => none
      | some (verdict, after) =>
          match checkAll fuel update after rest with
          | none => none
          | some (verdicts, last) => some (verdict :: verdicts, last)

/-- What came of a directory of programs.  `verdicts` is `none` if the directory cannot be read. -/
structure Report where
  verdicts : Option (List Verdict)
  disk : Disk
deriving DecidableEq, Repr

namespace Report

/-- The number of programs that agree with their snapshots. -/
def passed (r : Report) : Nat := (r.verdicts.getD []).countP Verdict.isPassed

/-- The number of programs. -/
def total (r : Report) : Nat := (r.verdicts.getD []).length

end Report

/-- The last line on a directory. -/
def summary (passed total : Nat) : String :=
  "\n[✓] Passed " ++ toString passed ++ "/" ++ toString total ++ " tests\n"

/-- The line on a directory that cannot be read. -/
def unreadable (dir : String) : String := "[!] Failed to read test directory: " ++ dir ++ "\n"

/-- Compares all programs of a directory with their snapshots. -/
def run (fuel : Nat) (update : Bool) (disk : Disk) (dir : String) : Option Report :=
  match Batch.collect disk dir with
  | .error _ => some ⟨none, disk⟩
  | .ok programs =>
      match checkAll fuel update disk programs with
      | none => none
      | some (verdicts, after) => some ⟨some verdicts, after⟩

/-- The lines on a directory; `elapsed` is the time that each program took, in words. -/
def written (elapsed : String) (dir : String) (r : Report) : Console :=
  match r.verdicts with
  | none => Console.empty.warn (unreadable dir)
  | some verdicts =>
      (verdicts.foldl (fun console verdict => console ++ verdict.written elapsed) Console.empty)
        |>.print (summary r.passed r.total)

end Snapshot

end EmojiLang
