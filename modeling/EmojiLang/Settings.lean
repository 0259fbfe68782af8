import EmojiLang.Console
import EmojiLang.Disk
import EmojiLang.Number.Decimal
import EmojiLang.Program
import EmojiLang.Text.Quoted
import EmojiLang.Toml.Grammar

/-!
# Settings

Settings are read from a configuration document.  Every setting may be missing, and none may be unknown
or of the wrong type; the first entry at fault is reported.

A settings file that cannot be read is as good as none.  One that is at fault is reported and ignored as a
whole.
-/

namespace EmojiLang

/-- What is wrong with a settings document. -/
inductive SettingsError where
  | malformed
  | unknownField (key : String)
  | invalidType (found expected : String)
deriving DecidableEq, Repr

/-- The settings of a working directory. -/
structure Settings where
  normalizeGlyphs : Bool := true
  showTree : Bool := false
  debugScopes : Bool := false
  banners : Bool := true
  testsDir : String := "tests"
deriving DecidableEq, Repr, Inhabited

namespace Settings

/-- The names of the settings in a document. -/
def fieldNames : List String :=
  ["normalize_glyphs", "show_tree", "debug_scopes", "banners", "tests_dir"]

/-- A name as it is quoted in messages. -/
def ticked (text : String) : String := "`" ++ text ++ "`"

end Settings

namespace SettingsError

/-- The text of a report. -/
def message : SettingsError → String
  | .malformed => "malformed document"
  | .unknownField key =>
      "unknown field " ++ Settings.ticked key ++ ", expected one of " ++
        String.intercalate ", " (Settings.fieldNames.map Settings.ticked)
  | .invalidType found expected => "invalid type: " ++ found ++ ", expected " ++ expected

end SettingsError

namespace Toml

/-- A value as it is named in messages. -/
def described : Toml → String
  | .string s => "string " ++ Text.quoted s
  | .integer n => "integer " ++ Settings.ticked (toString n)
  | .float x => "floating point " ++ Settings.ticked x.shortest
  | .boolean b => "boolean " ++ Settings.ticked (if b then "true" else "false")
  | .array _ | .tables _ => "sequence"
  | .moment | .table _ _ => "map"

/-- A truth value. -/
def toBool : Toml → Except SettingsError Bool
  | .boolean b => .ok b
  | other => .error (.invalidType other.described "a boolean")

/-- A path. -/
def toPath : Toml → Except SettingsError String
  | .string s => .ok s
  | other => .error (.invalidType other.described "path string")

end Toml

namespace Settings

/-- Takes over one entry of a document. -/
def set (s : Settings) (key : String) (v : Toml) : Except SettingsError Settings :=
  match key with
  | "normalize_glyphs" => v.toBool.map fun b => { s with normalizeGlyphs := b }
  | "show_tree" => v.toBool.map fun b => { s with showTree := b }
  | "debug_scopes" => v.toBool.map fun b => { s with debugScopes := b }
  | "banners" => v.toBool.map fun b => { s with banners := b }
  | "tests_dir" => v.toPath.map fun path => { s with testsDir := path }
  | other => .error (.unknownField other)

/-- Takes over entries in order, up to the first fault. -/
def setAll : Settings → List (String × Toml) → Except SettingsError Settings
  | s, [] => .ok s
  | s, (key, v) :: rest =>
      match s.set key v with
      | .ok s => setAll s rest
      | .error e => .error e

/-- The settings of a document. -/
def ofText (text : String) : Except SettingsError Settings :=
  match Toml.ofText text with
  | some t => setAll {} t.entries
  | none => .error .malformed

/-- The name of the settings file. -/
def fileName : String := "emo.toml"

/-- The settings of a file, and what is reported about it. -/
def load (disk : Disk) (path : String) : Settings × Console :=
  match disk.read path with
  | .error _ => ({}, .empty)
  | .ok text =>
      match ofText text with
      | .ok s => (s, .empty)
      | .error e =>
          ({}, Console.empty.warn ("warning: ignoring " ++ path ++ ": " ++ e.message ++ "\n"))

/-- How programs are run under the settings. -/
def options (s : Settings) : Options :=
  { normalize := s.normalizeGlyphs
    showTree := s.showTree
    debugScopes := s.debugScopes
    banners := s.banners }

end Settings

end EmojiLang
