import EmojiLang.Disk
import EmojiLang.Program

/-!
# Running files

Every file runs on a machine of its own, in the order given, and a file that fails does not stop those
behind it.  Around each program two banners tell how far it came, unless they are switched off.

**Results.** `exitCode_eq_zero_iff` says that a batch ends well exactly if no file failed.
-/

namespace EmojiLang

/-- How many files ran to the end, and how many failed. -/
structure Tally where
  succeeded : Nat := 0
  failed : Nat := 0
deriving DecidableEq, Repr, Inhabited

namespace Tally

/-- Counts a file. -/
def count (t : Tally) (success : Bool) : Tally :=
  if success then { t with succeeded := t.succeeded + 1 } else { t with failed := t.failed + 1 }

/-- The exit code of a batch. -/
def exitCode (t : Tally) : Nat := if 0 < t.failed then 1 else 0

theorem exitCode_eq_zero_iff (t : Tally) : t.exitCode = 0 ↔ t.failed = 0 := by
  simp [exitCode, Nat.pos_iff_ne_zero]

end Tally

namespace Batch

/-- The extension of program files. -/
def programExtension : String := "emo"

/-- The path names a program file. -/
def isProgram (path : String) : Bool := Path.extension? path == some programExtension

/-- The line between the outputs of two programs. -/
def separator : String := Text.times 50 "-"

/-- The report on a program that failed. -/
def report (name : String) (d : Diagnostic) : String :=
  "ERROR in " ++ name ++ ": " ++ d.render false

/-- The report on a file that cannot be read. -/
def unreadable (name : String) (e : FileError) : String :=
  "ERROR in " ++ name ++ ": cannot read file: " ++ e.message ++ "\n"

/-- A line that is written only with banners. -/
def banner (o : Options) (text : String) : String := if o.banners then text ++ "\n" else ""

/-- Runs the program text of a file, and tells whether it ran to the end. -/
def runText (fuel : Nat) (o : Options) (name source : String) (order : NameOrder := .declared) :
    Option (Bool × Console) :=
  match Program.prepare o source with
  | .error d => some (false, Console.empty.warn (report name (d.inFile name source)))
  | .ok p =>
      let parsed := Console.empty.print p.outline
        |>.print (banner o ("STATUS: " ++ name ++ " Parsed Successfully"))
      match Program.run fuel o p.tree order with
      | .outOfFuel => none
      | .done _ m =>
          some (true, parsed ++ ⟨m.output, m.trace⟩
            |>.print (banner o ("STATUS: " ++ name ++ " ran without any interrupt"))
            |>.print (banner o separator))
      | .failed d m =>
          some (false, parsed ++ ⟨m.output, m.trace⟩
            |>.warn (report name (d.inFile name source)))

/-- Runs a file, and tells whether it ran to the end. -/
def runFile (fuel : Nat) (o : Options) (disk : Disk) (path : String) (order : NameOrder := .declared) :
    Option (Bool × Console) :=
  if isProgram path then
    match disk.read path with
    | .error e => some (false, Console.empty.warn (unreadable path e))
    | .ok source => runText fuel o path source order
  else
    some (false, Console.empty.warn
      ("ERROR: " ++ path ++ " is not a ." ++ programExtension ++ " file\n"))

/-- Runs files one after the other, behind those counted in `tally`. -/
def runFilesFrom (fuel : Nat) (o : Options) (disk : Disk) (order : NameOrder) :
    Tally → Console → List String → Option (Tally × Console)
  | tally, console, [] => some (tally, console)
  | tally, console, path :: rest =>
      match runFile fuel o disk path order with
      | none => none
      | some (success, written) =>
          runFilesFrom fuel o disk order (tally.count success) (console ++ written) rest

/-- Runs files one after the other. -/
def runFiles (fuel : Nat) (o : Options) (disk : Disk) (paths : List String)
    (order : NameOrder := .declared) : Option (Tally × Console) :=
  runFilesFrom fuel o disk order {} .empty paths

/-- The program files of a directory in the order of their names. -/
def collect (disk : Disk) (dir : String) : Except FileError (List String) :=
  match disk.list dir with
  | .error e => .error e
  | .ok names =>
      let programs := names.filter isProgram
      .ok ((programs.mergeSort fun a b => decide (a ≤ b)).map (Path.join dir))

end Batch

end EmojiLang
