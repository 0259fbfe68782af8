import EmojiLang.Token

/-!
# The table of spellings

Every keyword, delimiter and operator of the language has a plain spelling, and most have a glyph as
well.  The table lists them; everything that asks "does this token spell `if`?" goes through
`Token.spells`, so the two spellings are accepted alike.

**Results.** `plain_glyphFor` says that a glyph found for a plain spelling stands for that spelling.
-/

namespace EmojiLang
namespace Glyph

/-- A line of the table: a glyph, the plain spelling it stands for, and its class. -/
structure Entry where
  glyph : String
  plain : String
  kind : TokenKind
deriving DecidableEq, Repr

/-- The character that begins a comment. -/
def comment : Char := '💩'

/-- The selector that editors append to a glyph to ask for its coloured form. -/
def presentationSelector : Char := '\ufe0f'

/-- The glyphs of the language. -/
def table : List Entry :=
  [⟨"📢", "decl", .keyword⟩,
    ⟨"😌", "=", .operator⟩,
    ⟨"🗿", ",", .delimiter⟩,
    ⟨"👄", ";", .delimiter⟩,
    ⟨"🖨", "print", .keyword⟩,
    ⟨"👉", "(", .delimiter⟩,
    ⟨"👈", ")", .delimiter⟩,
    ⟨"🍽", "\x7b", .delimiter⟩,
    ⟨"🥂", "\x7d", .delimiter⟩,
    ⟨"💿", "while", .keyword⟩,
    ⟨"📀", "for", .keyword⟩,
    ⟨"🚩", "if", .keyword⟩,
    ⟨"🏳", "elif", .keyword⟩,
    ⟨"🏁", "else", .keyword⟩,
    ⟨"⏸", "break", .keyword⟩,
    ⟨"⏩", "continue", .keyword⟩,
    ⟨"✔", "true", .boolean⟩,
    ⟨"❌", "false", .boolean⟩,
    ⟨"➕", "+", .operator⟩,
    ⟨"➖", "-", .operator⟩,
    ⟨"✖", "*", .operator⟩,
    ⟨"➗", "/", .operator⟩,
    ⟨"📎", "%", .operator⟩,
    ⟨"😭", "<", .operator⟩,
    ⟨"😁", ">", .operator⟩,
    ⟨"😁😌", ">=", .operator⟩,
    ⟨"😭😌", "<=", .operator⟩,
    ⟨"😌😌", "==", .operator⟩,
    ⟨"❗😌", "!=", .operator⟩,
    ⟨"⚛", "&", .operator⟩,
    ⟨"☯", "|", .operator⟩,
    ⟨"⚓", "xor", .operator⟩,
    ⟨"😠", "and", .operator⟩,
    ⟨"😇", "or", .operator⟩,
    ⟨"❗", "!", .operator⟩,
    ⟨"〰", "~", .operator⟩]

/-- Plain spellings that are recognized outside of words. -/
def symbols : List (String × TokenKind) :=
  [("==", .operator), ("!=", .operator), ("<=", .operator), (">=", .operator),
    ("&&", .operator), ("||", .operator), ("(", .delimiter), (")", .delimiter),
    ("\x7b", .delimiter), ("\x7d", .delimiter), (",", .delimiter), (";", .delimiter)]

/-- Words with a meaning of their own. -/
def words : List (String × TokenKind) :=
  [("decl", .keyword), ("print", .keyword), ("while", .keyword), ("for", .keyword),
    ("if", .keyword), ("elif", .keyword), ("else", .keyword), ("break", .keyword),
    ("continue", .keyword), ("true", .boolean), ("false", .boolean), ("and", .operator),
    ("or", .operator), ("xor", .operator), ("not", .operator), ("mod", .operator)]

/-- Everything that can be recognized outside of words: the glyphs, then the symbols. -/
def spellings : List (String × TokenKind) :=
  table.map (fun e => (e.glyph, e.kind)) ++ symbols

/-- The spellings with their characters. -/
def lettered : List (List Char × String × TokenKind) :=
  spellings.map fun s => (s.1.toList, s)

/-- The plain spelling of a glyph; any other text stands for itself. -/
def plain (text : String) : String :=
  match table.find? fun e => e.glyph == text with
  | some e => e.plain
  | none => text

/-- The glyph of a plain spelling, if it has one. -/
def glyphFor (text : String) : Option String :=
  (table.find? fun e => e.plain == text).map Entry.glyph

/-- The class of a word; a word without a meaning of its own is a name. -/
def wordKind (word : String) : TokenKind :=
  match words.find? fun w => w.1 == word with
  | some w => w.2
  | none => .name

/-- Of two spellings found at one place the later one replaces the earlier only if it is longer. -/
def longer (best : Option (String × TokenKind)) (next : String × TokenKind) :
    Option (String × TokenKind) :=
  match best with
  | none => some next
  | some b => if b.1.length < next.1.length then some next else best

/-- The longest spelling of the table that stands at the head of `cs`. -/
def longestMatch (cs : List Char) : Option (String × TokenKind) :=
  ((lettered.filter fun s => s.1.isPrefixOf cs).map Prod.snd).foldl longer none

theorem longestMatch_eq (cs : List Char) :
    longestMatch cs = (spellings.filter fun s => s.1.toList.isPrefixOf cs).foldl longer none := by
  rw [longestMatch, lettered, List.filter_map, List.map_map]
  congr 1
  exact List.map_id' _

/-- The glyph of a plain spelling stands for that spelling. -/
theorem plain_glyphFor {text glyph : String} (h : glyphFor text = some glyph) :
    plain glyph = text := by
  simp only [glyphFor, Option.map_eq_some_iff] at h
  obtain ⟨e, he, rfl⟩ := h
  have hp : e.plain = text := by simpa using List.find?_some he
  have hm : e ∈ table := List.mem_of_find?_eq_some he
  have all : ∀ e ∈ table, plain e.glyph = e.plain := by decide
  rw [all e hm, hp]

end Glyph

namespace Token

/-- The token spells `text`, plainly or by its glyph.  A literal, a name and the end mark spell
nothing, so the string `"if"` is no keyword. -/
def spells (t : Token) (text : String) : Bool :=
  t.kind.isSpelled && Glyph.plain t.text == text

/-- The token spells one of `texts`. -/
def spellsAny (t : Token) (texts : List String) : Bool :=
  texts.any t.spells

end Token

end EmojiLang
