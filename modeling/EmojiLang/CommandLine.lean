import EmojiLang.Session
import EmojiLang.Settings
import EmojiLang.Snapshot

/-!
# The command line

The arguments name a command, with its flags and operands; the option `--config` may stand anywhere.
`CommandLine.parse` reads them from left to right and stops at the first that does not fit, or at a
request for the version or for help.  `--` ends the flags.

`CommandLine.execute` carries a command out on a disk: it gives what is written, the exit code, and the
disk afterwards.
-/

namespace EmojiLang

/-- What is asked for. -/
inductive Command where
  | run (files : List String) (tree debugScopes noNormalize quiet : Bool)
  | repl
  | test (dir : Option String) (update : Bool)
  | tokens (file : String)
deriving DecidableEq, Repr, Inhabited

/-- A command, with the path of its settings file. -/
structure Invocation where
  settings : String
  command : Command
deriving DecidableEq, Repr, Inhabited

namespace CommandLine

/-- Why the arguments name no command to carry out. -/
inductive Stop where
  | usage
  | help
  | version
deriving DecidableEq, Repr, Inhabited

section Arguments

/-- A flag: its long name and, for some, a letter. -/
structure Flag where
  long : String
  letter : Option Char := none
deriving DecidableEq, Repr

/-- What a command accepts: its flags and the number of its operands, without a bound if `most` is
missing. -/
structure Shape where
  flags : List Flag
  least : Nat := 0
  most : Option Nat
deriving Repr

/-- What has been given: long names of flags, operands, and the settings file. -/
structure Given where
  flags : List String := []
  operands : List String := []
  settings : Option String := none
deriving DecidableEq, Repr, Inhabited

/-- An argument that can be the value of an option. -/
def isValue (arg : String) : Bool := arg == "-" || !arg.startsWith "-"

/-- Notes a flag, which may be given only once. -/
def Given.flag (g : Given) (flag : Flag) : Except Stop Given :=
  if g.flags.contains flag.long then .error .usage
  else .ok { g with flags := flag.long :: g.flags }

/-- Notes an operand, if there is room for it.  An empty operand is refused. -/
def Given.operand (g : Given) (shape : Shape) (arg : String) : Except Stop Given :=
  let full := shape.most.any fun most => decide (most ≤ g.operands.length)
  if full || arg.isEmpty then .error .usage
  else .ok { g with operands := g.operands ++ [arg] }

/-- Notes the settings file, which may be given only once. -/
def Given.config (g : Given) (path : String) : Except Stop Given :=
  if g.settings.isSome || path.isEmpty then .error .usage
  else .ok { g with settings := some path }

/-- Notes a flag given by its long name. -/
def longFlag (shape : Shape) (name : String) (g : Given) : Except Stop Given :=
  if name == "help" then .error .help
  else
    match shape.flags.find? fun f => f.long == name with
    | some f => g.flag f
    | none => .error .usage

/-- Notes flags given by their letters. -/
def letterFlags (shape : Shape) : List Char → Given → Except Stop Given
  | [], g => .ok g
  | c :: rest, g =>
      if c = 'h' then .error .help
      else
        match shape.flags.find? fun f => f.letter == some c with
        | some f =>
            match g.flag f with
            | .ok g => letterFlags shape rest g
            | .error stop => .error stop
        | none => .error .usage

/-- A long argument without its dashes, as a name and a value behind an equals sign. -/
def splitLong (arg : String) : String × Option String :=
  let body := arg.toList.drop 2
  let name := body.takeWhile (· ≠ '=')
  match body.drop name.length with
  | [] => (String.ofList name, none)
  | _ :: value => (String.ofList name, some (String.ofList value))

/-- The arguments of a command. -/
def given (shape : Shape) : (flagsEnded : Bool) → Given → List String → Except Stop Given
  | _, g, [] => .ok g
  | true, g, arg :: rest =>
      match g.operand shape arg with
      | .ok g => given shape true g rest
      | .error stop => .error stop
  | false, g, "--" :: rest => given shape true g rest
  | false, g, "--config" :: value :: rest =>
      if isValue value then
        match g.config value with
        | .ok g => given shape false g rest
        | .error stop => .error stop
      else .error .usage
  | false, g, arg :: rest =>
      let next :=
        if arg.startsWith "--" then
          match splitLong arg with
          | ("config", some path) => g.config path
          | (name, none) => longFlag shape name g
          | (_, some _) => .error .usage
        else if arg.startsWith "-" && arg != "-" then
          letterFlags shape (arg.toList.drop 1) g
        else
          g.operand shape arg
      match next with
      | .ok g => given shape false g rest
      | .error stop => .error stop

/-- The arguments of a command, none of its operands missing. -/
def complete (shape : Shape) (args : List String) : Except Stop Given :=
  match given shape false {} args with
  | .error stop => .error stop
  | .ok g => if g.operands.length < shape.least then .error .usage else .ok g

end Arguments

section Commands

/-- What the command to run programs accepts. -/
def runShape : Shape :=
  ⟨[⟨"tree", none⟩, ⟨"debug-scopes", none⟩, ⟨"no-normalize", none⟩, ⟨"quiet", some 'q'⟩], 0, none⟩

/-- What the command for a session accepts. -/
def replShape : Shape := ⟨[], 0, some 0⟩

/-- What the command for snapshots accepts. -/
def testShape : Shape := ⟨[⟨"update", none⟩], 0, some 1⟩

/-- What the command for tokens accepts. -/
def tokensShape : Shape := ⟨[], 1, some 1⟩

/-- The names of the commands. -/
def commandNames : List String := ["run", "repl", "test", "tokens", "help"]

/-- A command by its name and arguments, with the settings file given among them. -/
def command (name : String) (args : List String) : Except Stop (Command × Option String) :=
  match name with
  | "run" =>
      (complete runShape args).map fun g =>
        (.run g.operands (g.flags.contains "tree") (g.flags.contains "debug-scopes")
          (g.flags.contains "no-normalize") (g.flags.contains "quiet"), g.settings)
  | "repl" => (complete replShape args).map fun g => (.repl, g.settings)
  | "test" =>
      (complete testShape args).map fun g =>
        (.test g.operands.head? (g.flags.contains "update"), g.settings)
  | "tokens" =>
      (complete tokensShape args).map fun g => (.tokens (g.operands.headD ""), g.settings)
  | "help" =>
      match args with
      | [] => .error .help
      | [topic] => if commandNames.contains topic then .error .help else .error .usage
      | _ => .error .usage
  | _ => .error .usage

/-- Reads the arguments up to the name of the command, and then the command.  A settings file given
with the command counts before one given in front of it. -/
def parseFrom : (settings : Option String) → List String → Except Stop Invocation
  | _, [] => .error .usage
  | settings, "--config" :: value :: rest =>
      if isValue value && settings.isNone && !value.isEmpty then parseFrom (some value) rest
      else .error .usage
  | settings, arg :: rest =>
      if arg.startsWith "--" then
        match splitLong arg with
        | ("config", some path) =>
            if settings.isNone && !path.isEmpty then parseFrom (some path) rest
            else .error .usage
        | ("version", none) => .error .version
        | ("help", none) => .error .help
        | _ => .error .usage
      else if arg.startsWith "-V" then .error .version
      else if arg.startsWith "-h" then .error .help
      else
        (command arg rest).map fun (c, inner) =>
          ⟨(inner <|> settings).getD Settings.fileName, c⟩

/-- The command that the arguments name. -/
def parse (args : List String) : Except Stop Invocation := parseFrom none args

end Commands

/-- What came of a command. -/
structure Result where
  exitCode : Nat
  console : Console
  disk : Disk
deriving Repr

/-- The usage of the program. -/
def usageText : String :=
  "Usage: emo [--config PATH] <COMMAND>\n\n" ++
  "Commands:\n" ++
  "  run [FILES] [--tree] [--debug-scopes] [--no-normalize] [-q|--quiet]\n" ++
  "  repl\n" ++
  "  test [DIR] [--update]\n" ++
  "  tokens <FILE>\n"

/-- What is written when there is no command to carry out, and the exit code. -/
def stopped : Stop → Nat × Console
  | .usage => (2, Console.empty.warn usageText)
  | .help => (0, Console.empty.print usageText)
  | .version => (0, Console.empty.print ("emo " ++ Session.version ++ "\n"))

/-- The options of a run under the settings and the flags of the command. -/
def runOptions (s : Settings) (tree debugScopes noNormalize quiet : Bool) : Options :=
  let o := s.options
  { o with
    showTree := o.showTree || tree
    debugScopes := o.debugScopes || debugScopes
    normalize := o.normalize && !noNormalize
    banners := o.banners && !quiet }

/-- A line of the token listing. -/
def tokenLine (t : Token) : String :=
  Text.padLeft 4 (toString t.position.line) ++ ":" ++
    Text.padRight 4 (toString t.position.column) ++ " " ++
    Text.padRight 10 t.kind.label ++ " " ++ t.shown ++ "\n"

/-- The tokens of a file. -/
def tokens (disk : Disk) (file : String) : Nat × Console :=
  match disk.read file with
  | .ok source => (0, Console.empty.print (String.join ((Token.scan source).map tokenLine)))
  | .error e => (1, Console.empty.warn (Batch.unreadable file e))

/-- Runs the files of a command, or all programs of the tests directory. -/
def runPrograms (fuel : Nat) (o : Options) (disk : Disk) (testsDir : String) (files : List String) :
    Option (Nat × Console) :=
  let run (paths : List String) : Option (Nat × Console) :=
    (Batch.runFiles fuel o disk paths).map fun (tally, console) => (tally.exitCode, console)
  if files.isEmpty then
    match Batch.collect disk testsDir with
    | .ok paths => run paths
    | .error e =>
        some (1, Console.empty.warn
          ("ERROR: cannot read " ++ testsDir ++ ": " ++ e.message ++ "\n"))
  else run files

/-- Carries out a command.  `elapsed` is the time that each snapshot took, in words; `none` says that
the fuel did not suffice. -/
def executeCommand (fuel : Nat) (elapsed : String) (disk : Disk) (input : List UInt8)
    (s : Settings) : Command → Option Result
  | .run files tree debugScopes noNormalize quiet =>
      (runPrograms fuel (runOptions s tree debugScopes noNormalize quiet) disk s.testsDir files).map
        fun (code, console) => ⟨code, console, disk⟩
  | .repl => (Session.run fuel s.options input).map fun console => ⟨0, console, disk⟩
  | .test dir update =>
      let path := dir.getD s.testsDir
      (Snapshot.run fuel update disk path).map fun report =>
        ⟨if report.passed = report.total then 0 else 1, Snapshot.written elapsed path report,
          report.disk⟩
  | .tokens file =>
      let (code, console) := tokens disk file
      some ⟨code, console, disk⟩

/-- Carries out the command that the arguments name. -/
def execute (fuel : Nat) (elapsed : String) (disk : Disk) (input : List UInt8)
    (args : List String) : Option Result :=
  match parse args with
  | .error stop =>
      let (code, console) := stopped stop
      some ⟨code, console, disk⟩
  | .ok invocation =>
      let (settings, warned) := Settings.load disk invocation.settings
      (executeCommand fuel elapsed disk input settings invocation.command).map fun r =>
        { r with console := warned ++ r.console }

end CommandLine

end EmojiLang
