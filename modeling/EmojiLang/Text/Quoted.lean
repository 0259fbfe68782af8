import EmojiLang.Text.Hidden

/-!
# Quoted text

A quoted text stands between double quotes and shows every character in a visible way.  Quotes and
backslashes are escaped; the usual control characters have escapes of one letter; a character that is
not visible by itself, or that would combine with the one before it, is shown by its number.

**Results.** `quoted_plain` says that a text of visible characters is only put between quotes.
-/

namespace EmojiLang
namespace Text

/-- The escapes of one letter. -/
def letterEscape : Char → Option Char
  | '\x00' => some '0'
  | '\t' => some 't'
  | '\n' => some 'n'
  | '\r' => some 'r'
  | '"' => some '"'
  | '\\' => some '\\'
  | _ => none

/-- The visible form of a character. -/
def visible (c : Char) : List Char :=
  match letterEscape c with
  | some letter => ['\\', letter]
  | none =>
      if isHidden c then
        "\\u\x7b".toList ++ Nat.toDigits 16 c.toNat ++ "\x7d".toList
      else
        [c]

/-- A text between quotes, with every character visible. -/
def quoted (text : String) : String :=
  String.ofList ('"' :: text.toList.flatMap visible ++ ['"'])

theorem quoted_plain {text : String} (h : ∀ c ∈ text.toList, visible c = [c]) :
    quoted text = String.ofList ('"' :: text.toList ++ ['"']) := by
  have same : text.toList.flatMap visible = text.toList := by
    generalize text.toList = cs at h
    induction cs with
    | nil => rfl
    | cons c cs ih =>
        have here : visible c = [c] := h c List.mem_cons_self
        have rest := ih fun d hd => h d (List.mem_cons_of_mem c hd)
        rw [List.flatMap_cons, here, rest]
        rfl
  rw [quoted, same]

end Text
end EmojiLang
