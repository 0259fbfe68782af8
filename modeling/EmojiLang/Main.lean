import EmojiLang.CommandLine

/-!
# The program

The outer layer of the command line: it fetches what a command needs from the file system, lets the
library carry the command out, and writes what came of it.  Sessions are carried on line by line.
-/

namespace EmojiLang
namespace Main

/-- Fuel for a run.  No run on a machine of today uses it up. -/
def fuel : Nat := Number.twoTo 62

/-- Writes what a console holds. -/
def writeOut (console : Console) : IO Unit := do
  IO.print console.out
  IO.eprint console.err

/-- Adds to a disk what the file system has at a path, which may be nothing. -/
def fetchEntry (disk : Disk) (path : String) : IO Disk := do
  if path.isEmpty then
    return disk
  try
    let content ← IO.FS.readBinFile path
    return disk.addFile path content.toList
  catch _ => try
    let real ← IO.FS.realPath path
    return if ← real.isDir then disk.addDirectory path else disk
  catch _ =>
    return disk

/-- Adds to a disk what the file system has at a path and on the way to it. -/
def fetch (disk : Disk) (path : String) : IO Disk :=
  (Path.along path).foldlM fetchEntry disk

/-- Adds to a disk a directory with all that is directly in it. -/
def fetchDirectory (disk : Disk) (dir : String) : IO Disk := do
  let mut fetched ← fetch disk dir
  if let .ok p := fetched.resolve dir then
    if fetched.at? p == some .directory then
      let real ← IO.FS.realPath dir
      for entry in ← real.readDir do
        fetched ← fetch fetched (Path.join dir entry.fileName)
  return fetched

/-- Adds to a disk what a command reads. -/
def fetchFor (disk : Disk) (s : Settings) : Command → IO Disk
  | .run [] _ _ _ _ => fetchDirectory disk s.testsDir
  | .run files _ _ _ _ => files.foldlM fetch disk
  | .repl => return disk
  | .test dir _ => fetchDirectory disk (dir.getD s.testsDir)
  | .tokens file => fetch disk file

/-- Writes the files that differ between two disks. -/
def store (before after : Disk) : IO Unit := do
  for (place, entry) in after.entries do
    if before.at? place != some entry then
      if let .file content := entry then
        IO.FS.writeBinFile (Path.ofPlace place) ⟨content.toArray⟩

/-- A line without its line end. -/
def withoutLineEnd (line : String) : String :=
  match line.toList.reverse with
  | '\n' :: '\r' :: reversed => String.ofList reversed.reverse
  | '\n' :: reversed => String.ofList reversed.reverse
  | _ => line

/-- Carries on a session until it ends. -/
partial def converse (input : IO.FS.Stream) (session : Session) : IO Unit := do
  if ← input.isTty then
    IO.print (if session.pending.isEmpty then "emo> " else "...> ")
    (← IO.getStdout).flush
  let line ← input.getLine
  if line.isEmpty then
    IO.print ("\n" ++ Session.farewell)
    return
  match session.feed fuel (withoutLineEnd line) with
  | none => return
  | some (.close, console) => writeOut console
  | some (.goOn next, console) => do
      writeOut console
      converse input next

/-- Compares programs with their snapshots, with the time that each takes, and counts those that
pass. -/
def checkSnapshots (update : Bool) : Disk → Nat → List String → IO Nat
  | _, passed, [] => return passed
  | disk, passed, program :: rest => do
      let start ← IO.monoNanosNow
      match Snapshot.check fuel update disk program with
      | none => return passed
      | some (verdict, after) => do
          store disk after
          let stop ← IO.monoNanosNow
          writeOut (verdict.written (Snapshot.elapsedText (stop - start)))
          checkSnapshots update after (if verdict.isPassed then passed + 1 else passed) rest

/-- Compares the programs of a directory with their snapshots. -/
def test (update : Bool) (disk : Disk) (dir : String) : IO UInt32 := do
  match Batch.collect disk dir with
  | .error _ =>
      IO.eprint (Snapshot.unreadable dir)
      return 0
  | .ok programs =>
      let passed ← checkSnapshots update disk 0 programs
      IO.print (Snapshot.summary passed programs.length)
      return if passed = programs.length then 0 else 1

/-- Carries out a command under its settings. -/
def execute (s : Settings) (command : Command) : IO UInt32 := do
  let disk ← fetchFor {} s command
  match command with
  | .repl =>
      IO.print Session.greeting
      converse (← IO.getStdin) (Session.start s.options)
      return 0
  | .test dir update => test update disk (dir.getD s.testsDir)
  | command =>
      match CommandLine.executeCommand fuel "" disk [] s command with
      | none => return 1
      | some result =>
          writeOut result.console
          return UInt32.ofNat result.exitCode

end Main
end EmojiLang

/-- The command line of the language. -/
def main (args : List String) : IO UInt32 := do
  match EmojiLang.CommandLine.parse args with
  | .error stop =>
      let (code, console) := EmojiLang.CommandLine.stopped stop
      EmojiLang.Main.writeOut console
      return UInt32.ofNat code
  | .ok invocation =>
      let disk ← EmojiLang.Main.fetch {} invocation.settings
      let (settings, warned) := EmojiLang.Settings.load disk invocation.settings
      EmojiLang.Main.writeOut warned
      EmojiLang.Main.execute settings invocation.command
