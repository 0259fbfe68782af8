import EmojiLang.Program
import EmojiLang.Proofs.Eval.Blame
import EmojiLang.Proofs.Grammar.Respelling
import EmojiLang.Proofs.Text.Lines

/-!
# Failures point at their culprit

A program that fails is reported with a place and with the line of its text that this place is in.  What
stands in that line from the place on is the culprit that the report names: the token that could not be
read, the name that is undeclared or declared twice, or the sign of the remainder that was by zero.  Only
the end of the input has no line.

**Method.** The tokens of a program stand in its text where they say (`Token.shows_of_mem_scan`).  A
failure to read names one of them or the end mark; a failure to run is traced back to one of them by
`Eval.cause_of_failed`, in whichever spelling the program is run.

**Results.**
* `points_unexpectedToken`, `points_undeclared`, `points_redeclared` and `points_remainderByZero`: what
  the single diagnostics point at.
* `runSource_pointsAt`: every failure of a program points at its culprit, or is at the end of the input.
-/

namespace EmojiLang

namespace Diagnostic

/-- What the diagnostic names as the culprit, in its message or by its kind. -/
def Names (d : Diagnostic) (culprit : String) : Prop :=
  match d.kind with
  | .malformed => d.message = "Unexpected token: " ++ culprit
  | .undeclared => d.message = "'" ++ culprit ++ "' is undeclared"
  | .redeclared => d.message = "Redeclaration in same scope of '" ++ culprit ++ "'"
  | .divisionByZero => culprit ∈ ["%", "mod", "📎"]

/-- The diagnostic names something that stands in the source at its place, and keeps no line yet. -/
def Points (source : String) (d : Diagnostic) : Prop :=
  d.sourceLine = none ∧
    ∃ line culprit, d.Names culprit ∧ Text.Shows source d.location.position line culprit

/-- The line that is attached to a diagnostic is the one it points into. -/
theorem inFile_sourceLine {source : String} {d : Diagnostic} (name : String) (bare : d.sourceLine = none)
    {line culprit : String} (shows : Text.Shows source d.location.position line culprit) :
    (d.inFile name source).sourceLine = some line := by
  have known : d.location.isKnown = true := decide_eq_true shows.counted.1
  simp [inFile, bare, known, shows.found]

end Diagnostic

section Tokens

variable {source : String} {t : Token} (mem : t ∈ Token.scan (source ++ "\n"))
include mem

theorem points_undeclared (named : t.kind = .name) (visible : List String) :
    (Diagnostic.undeclared t.text t.position visible).Points source := by
  obtain ⟨line, shows⟩ := Token.shows_of_mem_scan mem (by simp [named]) (by simp [named])
  unfold Diagnostic.undeclared
  cases Text.closest t.text visible with
  | none => exact ⟨rfl, line, t.text, rfl, shows⟩
  | some near => exact ⟨rfl, line, t.text, rfl, shows⟩

theorem points_redeclared (named : t.kind = .name) :
    (Diagnostic.redeclared t.text t.position).Points source := by
  obtain ⟨line, shows⟩ := Token.shows_of_mem_scan mem (by simp [named]) (by simp [named])
  exact ⟨rfl, line, t.text, rfl, shows⟩

omit mem in
/-- The spellings of the remainder. -/
theorem mem_of_ofText_rem {text : String} (h : BinaryOp.ofText text = some .rem) :
    text ∈ ["%", "mod", "📎"] := by
  have operations : ∀ s ∈ BinaryOp.spellings, s.2 = .rem → s.1 ∈ ["%", "mod"] := by decide
  have glyphs : ∀ e ∈ Glyph.table, e.plain ∈ ["%", "mod"] → e.glyph = "📎" := by decide
  obtain ⟨_, _, split, -⟩ := List.lookup_eq_some_iff.1 h
  have listed : (Glyph.plain text, BinaryOp.rem) ∈ BinaryOp.spellings := by
    rw [split]
    simp
  have plain : Glyph.plain text ∈ ["%", "mod"] := operations _ listed rfl
  unfold Glyph.plain at plain
  split at plain
  · next e found =>
      have same : e.glyph = text := by
        simpa using List.find?_some found
      rw [← same, glyphs e (List.mem_of_find?_eq_some found) plain]
      simp
  · simp only [List.mem_cons, List.not_mem_nil, or_false] at plain ⊢
    exact plain.imp_right Or.inl

theorem points_remainderByZero (spelled : t.kind.isSpelled = true)
    (named : BinaryOp.ofText t.text = some .rem) :
    (Diagnostic.remainderByZero t.position).Points source := by
  have marks : t.kind ≠ .eof := TokenKind.ne_of_isSpelled spelled rfl
  have other : t.kind ≠ .string := TokenKind.ne_of_isSpelled spelled rfl
  obtain ⟨line, shows⟩ := Token.shows_of_mem_scan mem marks other
  exact ⟨rfl, line, t.text, mem_of_ofText_rem named, shows⟩

theorem points_unexpectedToken (marks : t.kind ≠ .eof)
    (refused : Grammar.operandKind t.kind = none) :
    (Diagnostic.unexpectedToken t).Points source := by
  have other : t.kind ≠ .string := by
    intro kind
    simp [kind, Grammar.operandKind] at refused
  obtain ⟨line, shows⟩ := Token.shows_of_mem_scan mem marks other
  obtain ⟨_, _, -, -, begins⟩ := Token.standsIn_of_mem_scan mem marks other
  have filled : t.text.isEmpty = false := by
    simpa using begins.nonempty
  refine ⟨rfl, line, t.text, ?_, shows⟩
  simp [Diagnostic.Names, Diagnostic.unexpectedToken, filled]

end Tokens

section Runs

/-- What the tokens of a program may be blamed for points at them. -/
theorem blames_points (source : String) :
    Simulation.Blames (fun t => t ∈ Token.scan (source ++ "\n")) (Diagnostic.Points source) where
  undeclared visible mem named := points_undeclared mem named visible
  redeclared mem named := points_redeclared mem named
  remainder mem spelled named := points_remainderByZero mem spelled named

theorem exec_of_startWith {fuel : Nat} {t : Tree} {m after : Machine} {d : Diagnostic}
    (fails : Machine.startWith fuel t m = .failed d after) :
    Eval.exec fuel t { m with env := Env.empty.push } = .failed d after := by
  simp only [Machine.startWith, Exec.bind_apply] at fails
  cases ends : Eval.exec fuel t { m with env := Env.empty.push } with
  | done flow last => simp [ends] at fails
  | failed cause last => simpa [ends] using fails
  | outOfFuel => simp [ends] at fails

/-- A program that has been read points at its culprit if it fails, in whichever spelling it is run. -/
theorem points_of_failed {source : String} {t : Tree} {f : Token → Token}
    (made : Tree.ofSource (source ++ "\n") = .ok t) (respells : ∀ a, Token.EquivalentInPlace a (f a))
    {fuel : Nat} {m after : Machine} {d : Diagnostic}
    (fails : Machine.startWith fuel (t.mapTokens f) m = .failed d after) : d.Points source :=
  Eval.cause_of_failed respells (blames_points source) (Grammar.ofTokens_derives made)
    (fun _ => mem_of_mem_leaves made) (exec_of_startWith fails)

theorem points_of_run {source : String} {t : Tree} (made : Tree.ofSource (source ++ "\n") = .ok t)
    {fuel : Nat} {o : Options} {order : NameOrder} {d : Diagnostic} {after : Machine}
    (fails : Program.run fuel o (if o.normalize then t.plain else t) order = .failed d after) :
    d.Points source := by
  unfold Program.run at fails
  split at fails
  · exact points_of_failed made Token.equivalentInPlace_plain fails
  · rw [← Tree.mapTokens_id t] at fails
    exact points_of_failed made Token.equivalentInPlace_self fails

/-- What cannot be read is a token of the program or its end. -/
theorem ofSource_fails {source : String} {d : Diagnostic}
    (fails : Tree.ofSource (source ++ "\n") = .error d) :
    d.Points source ∨
      d = .unexpectedToken (.eof (Position.start.afterAll (source.toList ++ ['\n']))) := by
  obtain ⟨ts, scanned, marks⟩ :=
    Token.scanFrom_eq_append (source ++ "\n").toList 0 Position.start
  have whole : Token.scan (source ++ "\n") =
      ts ++ [Token.eof (Position.start.afterAll (source ++ "\n").toList)] := scanned
  obtain ⟨rest, left, refused, rfl⟩ := Grammar.ofTokens_refused fails
  rw [whole, Token.beforeEnd_append_eof marks] at left
  cases rest with
  | nil =>
      refine Or.inr ?_
      rw [whole, Token.endMark_append_eof marks, String.toList_append]
      rfl
  | cons t rest =>
      have inside : t ∈ ts := left.subset (List.mem_cons_self)
      have mem : t ∈ Token.scan (source ++ "\n") := whole ▸ List.mem_append_left _ inside
      exact Or.inl (points_unexpectedToken mem (marks t inside) (refused t rfl).1)

/-- Every failure of a program is a syntax error at the end of the input, which has no line, or it points
at its culprit: the reported line is the line of the program at the reported place, and from the reported
column on it begins with what the report names.  That holds for every program, whatever the options and
the order of the names. -/
theorem runSource_pointsAt {fuel : Nat} {o : Options} {name source : String} {order : NameOrder}
    {e : Diagnostic} {console : Console}
    (fails : Program.runSource fuel o name source order = some ⟨.error e, console⟩) :
    e.kind = .malformed ∧ e.message = "Unexpected token: end of input" ∧ e.sourceLine = none ∨
      ∃ line culprit, e.sourceLine = some line ∧ e.Names culprit ∧
        Text.Shows source e.location.position line culprit := by
  have attached {d : Diagnostic} (points : d.Points source) :
      ∃ line culprit, (d.inFile name source).sourceLine = some line ∧
        (d.inFile name source).Names culprit ∧
        Text.Shows source (d.inFile name source).location.position line culprit := by
    obtain ⟨bare, line, culprit, names, shows⟩ := points
    exact ⟨line, culprit, d.inFile_sourceLine name bare shows, names, shows⟩
  unfold Program.runSource Program.prepare at fails
  cases made : Tree.ofSource (source ++ "\n") with
  | error d =>
      simp only [made, Option.some.injEq, SourceRun.mk.injEq, Except.error.injEq] at fails
      obtain ⟨rfl, -⟩ := fails
      rcases ofSource_fails made with points | rfl
      · exact Or.inr (attached points)
      · refine Or.inl ⟨rfl, rfl, ?_⟩
        simp [Diagnostic.inFile, Diagnostic.unexpectedToken, Token.eof, Text.lines_behind]
  | ok t =>
      rw [made] at fails
      simp only at fails
      split at fails
      · cases fails
      · next _ m ended => simp at fails
      · next d m failed =>
          simp only [Option.some.injEq, SourceRun.mk.injEq, Except.error.injEq] at fails
          obtain ⟨rfl, -⟩ := fails
          exact Or.inr (attached (points_of_run made failed))

/-- A program of two lines that ends with a remainder by zero. -/
def zeroRemainder : String := "decl x\r\nx = x 📎 ❌\r\n"

/-- The tokens of `zeroRemainder` with a line feed behind it. -/
def zeroRemainderTokens : List Token :=
  [⟨.keyword, "decl", ⟨1, 1⟩⟩, ⟨.name, "x", ⟨1, 6⟩⟩, ⟨.name, "x", ⟨2, 1⟩⟩,
    ⟨.operator, "=", ⟨2, 3⟩⟩, ⟨.name, "x", ⟨2, 5⟩⟩, ⟨.operator, "📎", ⟨2, 7⟩⟩,
    ⟨.boolean, "❌", ⟨2, 9⟩⟩, ⟨.eof, "", ⟨4, 1⟩⟩]

/-- The program is run in plain spelling, and fails at the glyph in its second line. -/
theorem runSource_pointsAt_zeroRemainder :
    ∃ e line culprit, Program.runSource 9 {} "zero" zeroRemainder = some ⟨.error e, .empty⟩ ∧
      e.location.position = ⟨2, 7⟩ ∧ e.sourceLine = some line ∧ e.Names culprit ∧
      Text.Shows zeroRemainder e.location.position line culprit := by
  have scanned : Token.scan (zeroRemainder ++ "\n") = zeroRemainderTokens := by
    decide +kernel
  have fails : Program.runSource 9 {} "zero" zeroRemainder =
      some ⟨.error ((Diagnostic.remainderByZero ⟨2, 7⟩).inFile "zero" zeroRemainder), .empty⟩ := by
    rw [Program.runSource, Program.prepare, Tree.ofSource, scanned]
    rfl
  rcases runSource_pointsAt fails with ⟨malformed, -⟩ | ⟨line, culprit, points⟩
  · cases malformed
  · exact ⟨_, line, culprit, fails, rfl, points⟩

end Runs

end EmojiLang
