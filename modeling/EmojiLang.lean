import EmojiLang.Text.Blank
import EmojiLang.Text.EditDistance
import EmojiLang.Text.Lines
import EmojiLang.Token
import EmojiLang.Glyph
import EmojiLang.Token.Lexer
import EmojiLang.Diagnostic
import EmojiLang.Tree
import EmojiLang.Tree.Reader
import EmojiLang.Tree.Parser
import EmojiLang.Number.Rounding
import EmojiLang.Number.Binary64
import EmojiLang.Number.Decimal
import EmojiLang.Number.Numeral
import EmojiLang.Value
import EmojiLang.Value.Operation
import EmojiLang.Scope
import EmojiLang.Machine
import EmojiLang.Eval
import EmojiLang.Eval.Fuel
import EmojiLang.Console
import EmojiLang.Program
import EmojiLang.Text.Utf8
import EmojiLang.Text.Hidden
import EmojiLang.Text.Quoted
import EmojiLang.Disk
import EmojiLang.Batch
import EmojiLang.Snapshot
import EmojiLang.Session
import EmojiLang.Toml
import EmojiLang.Toml.Grammar
import EmojiLang.Settings
import EmojiLang.CommandLine
import EmojiLang.Main
import EmojiLang.Proofs.Grammar.Derivation
import EmojiLang.Proofs.Grammar.Soundness
import EmojiLang.Proofs.Grammar.Consumption
import EmojiLang.Proofs.Eval.Phrases
import EmojiLang.Proofs.Token.Spelling
import EmojiLang.Proofs.Token.Lexical
import EmojiLang.Proofs.Token.Placement
import EmojiLang.Proofs.Token.Lossless
import EmojiLang.Proofs.Token.Selector
import EmojiLang.Proofs.Text.Lines
import EmojiLang.Proofs.Text.EditDistance
import EmojiLang.Proofs.Grammar.Unparse
import EmojiLang.Proofs.Grammar.Follow
import EmojiLang.Proofs.Grammar.Expressions
import EmojiLang.Proofs.Grammar.Layout
import EmojiLang.Proofs.Grammar.RoundTrip
import EmojiLang.Proofs.Grammar.Lookahead
import EmojiLang.Proofs.Grammar.Segments
import EmojiLang.Proofs.Grammar.Cursor
import EmojiLang.Proofs.Grammar.Progress
import EmojiLang.Proofs.Eval.Simulation
import EmojiLang.Proofs.Eval.Respelling
import EmojiLang.Proofs.Token.Reprint
import EmojiLang.Proofs.Token.LineBreaks
import EmojiLang.Proofs.Eval.Blame
import EmojiLang.Proofs.Grammar.Respelling
import EmojiLang.Proofs.Grammar.Viability
import EmojiLang.Proofs.Eval.Gaps
import EmojiLang.Proofs.Scope.Discipline
import EmojiLang.Proofs.Scope.WellScoped
import EmojiLang.Proofs.Scope.Hint
import EmojiLang.Proofs.Scope.Correspondence
import EmojiLang.Proofs.Scope.Padding
import EmojiLang.Proofs.Eval.Signals
import EmojiLang.Proofs.Eval.Nesting
import EmojiLang.Proofs.Eval.Counting
import EmojiLang.Proofs.Scope.Frame
import EmojiLang.Proofs.Scope.Renaming
import EmojiLang.Proofs.Scope.Bindings
import EmojiLang.Proofs.Number.Numeral
import EmojiLang.Proofs.Number.Forms
import EmojiLang.Proofs.Number.Bytes
import EmojiLang.Proofs.Number.Heads
import EmojiLang.Proofs.Value.Integers
import EmojiLang.Proofs.Value.Texts
import EmojiLang.Proofs.Program.Culprit
import EmojiLang.Proofs.Program.Increments
import EmojiLang.Proofs.Session.Completeness
import EmojiLang.Proofs.Session.Requests
import EmojiLang.Proofs.Session.Prompts
import EmojiLang.Proofs.Text.Storage
import EmojiLang.Proofs.Disk.Names
import EmojiLang.Proofs.Snapshot.Siblings
import EmojiLang.Proofs.Snapshot.Comparison
import EmojiLang.Proofs.Snapshot.Recording
