import EmojiLang.Session

/-!
# Matching what is opened with what is closed

A closing token cancels the latest token that is still open, whether brace or parenthesis; one that
finds none open is surplus.  A session does not match tokens.  It counts, and takes an input for complete
as soon as no more has been opened than closed.

**Definitions.**
* `Session.Matching`: the tokens that are still open, and the closing tokens that are surplus.
* `Session.matching`: what is left of a row of tokens when they are matched from left to right.

**Results.**
* `depth_eq`: the count is the number of open tokens less the number of surplus ones.
* `isComplete_iff_matching`: an input is complete exactly if there are at least as many surplus tokens as
  open ones; so a complete input can have something open, but only behind surplus tokens.
-/

namespace EmojiLang

namespace Session

/-- An opening brace or parenthesis. -/
def opens (t : Token) : Bool :=
  decide (t.kind = .delimiter) && ["\x7b", "("].contains (Glyph.plain t.text)

/-- A closing brace or parenthesis. -/
def closes (t : Token) : Bool :=
  decide (t.kind = .delimiter) && ["\x7d", ")"].contains (Glyph.plain t.text)

/-- The tokens that are still open and the closing tokens that found none open, the latest first. -/
structure Matching where
  opened : List Token := []
  surplus : List Token := []
deriving DecidableEq, Repr

namespace Matching

/-- Takes in a token. -/
def next (m : Matching) (t : Token) : Matching :=
  if opens t then { m with opened := t :: m.opened }
  else if closes t then
    match m.opened with
    | _ :: outer => { m with opened := outer }
    | [] => { m with surplus := t :: m.surplus }
  else m

/-- The number of tokens that are open, less the number of surplus ones. -/
def balance (m : Matching) : Int := m.opened.length - m.surplus.length

end Matching

/-- What is left of a row of tokens when they are matched from left to right. -/
def matching (ts : List Token) : Matching := ts.foldl Matching.next {}

section Counting

/-- What a token adds to the count. -/
theorem nesting_eq (t : Token) :
    nesting t = if opens t then 1 else if closes t then -1 else 0 := by
  unfold nesting opens closes
  by_cases kind : t.kind = .delimiter
  · simp only [kind, if_true, decide_true, Bool.true_and, List.contains_eq_mem, decide_eq_true_eq,
      List.mem_cons, List.not_mem_nil, or_false]
    generalize Glyph.plain t.text = text
    split
    all_goals simp_all
  · simp [kind]

/-- A token changes the balance by what it adds to the count. -/
theorem Matching.balance_next (m : Matching) (t : Token) :
    (m.next t).balance = m.balance + nesting t := by
  rw [nesting_eq]
  cases opening : opens t with
  | true =>
      simp only [next, opening, if_true, balance, List.length_cons]
      omega
  | false =>
      cases closing : closes t with
      | true =>
          cases inner : m.opened with
          | nil =>
              simp [next, opening, closing, inner, balance]
              omega
          | cons latest outer =>
              simp [next, opening, closing, inner, balance]
              omega
      | false =>
          simp [next, opening, closing]

theorem balance_foldl (ts : List Token) (m : Matching) :
    (ts.foldl Matching.next m).balance = m.balance + depth ts := by
  induction ts generalizing m with
  | nil => simp [depth]
  | cons t ts ih =>
      rw [List.foldl_cons, ih, Matching.balance_next, depth, Int.add_assoc]

/-- What the count amounts to. -/
theorem depth_eq (ts : List Token) :
    depth ts = (matching ts).opened.length - (matching ts).surplus.length := by
  have run := balance_foldl ts {}
  simpa [Matching.balance, matching] using run.symm

end Counting

/-- An input is complete exactly if there are at least as many surplus tokens as open ones.  So whether
it is complete agrees with whether nothing is open, exactly if nothing is open or more tokens are open
than are surplus. -/
theorem isComplete_iff_matching (text : String) :
    (isComplete text = true ↔
      (matching (Token.scan text)).opened.length ≤ (matching (Token.scan text)).surplus.length) ∧
    ((isComplete text = true ↔ (matching (Token.scan text)).opened = []) ↔
      (matching (Token.scan text)).opened = [] ∨
        (matching (Token.scan text)).surplus.length < (matching (Token.scan text)).opened.length) := by
  have counted : isComplete text = true ↔
      (matching (Token.scan text)).opened.length ≤ (matching (Token.scan text)).surplus.length := by
    rw [isComplete_iff, depth_eq]
    omega
  refine ⟨counted, ?_⟩
  rw [counted]
  generalize matching (Token.scan text) = left
  constructor
  · intro agree
    by_cases allClosed : left.opened = []
    · exact Or.inl allClosed
    · exact Or.inr (Nat.lt_of_not_le fun enough => allClosed (agree.1 enough))
  · rintro (allClosed | more)
    · simp [allClosed]
    · have nonempty : left.opened ≠ [] := List.length_pos_iff.1 (Nat.lt_of_le_of_lt (Nat.zero_le _) more)
      exact iff_of_false (Nat.not_le_of_lt more) nonempty

/-- A parenthesis too many in front of a block that has only been begun. -/
def begunBlock : String := "print 1) if x \x7b"

/-- The block is still open, and the input counts as complete. -/
theorem isComplete_begunBlock :
    (matching (Token.scan begunBlock)).opened = [⟨.delimiter, "\x7b", ⟨1, 15⟩⟩] ∧
      ¬ (isComplete begunBlock = true ↔ (matching (Token.scan begunBlock)).opened = []) := by
  decide +kernel

end Session

end EmojiLang
