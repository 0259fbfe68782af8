import EmojiLang.Proofs.Grammar.Unparse
import EmojiLang.Proofs.Token.Lexical

/-!
# Where a reader stops

There is nothing between one statement and the next, so a reader has to stop by itself where its phrase
ends.  It does so because of the token that comes next: a phrase begins with tokens that can not go on
with the phrase before it.

**Definitions.**
* `Reader.Reads r ts a follow`: in front of any tokens with `follow`, `r` reads `a` off `ts` and nothing
  more.
* `Avoids texts rest`: the next token spells none of `texts`.
* `Starts texts ts`: there is a first token, and if the table spells it, it is one of `texts`.
* `Tree.Writable`: the tokens are such as a text can have, and no declaration is empty.

**Results.**
* `starts_expression` and `starts_statement`: what a phrase can begin with.
* `assignmentAhead_expression`: no expression is taken for an assignment.
-/

namespace EmojiLang

namespace Tree

theorem mem_leavesOf {token : Token} {t : Tree} :
    ∀ {ts : List Tree}, t ∈ ts → token ∈ t.leaves → token ∈ leavesOf ts
  | first :: ts, mem, h => by
      rw [leavesOf, List.mem_append]
      rcases List.mem_cons.1 mem with rfl | mem
      · exact Or.inl h
      · exact Or.inr (mem_leavesOf mem h)

/-- The tree can have come from a text as far as its tokens go, and none of its declarations is
empty. -/
structure Writable (t : Tree) : Prop where
  lexical : ∀ token ∈ t.leaves, token.Lexical
  declares : ∀ entries, Within (.node .declaration entries) t → entries ≠ []

theorem Writable.part {kind : NodeKind} {children : List Tree} {t : Tree}
    (h : Writable (.node kind children)) (mem : t ∈ children) : Writable t where
  lexical token leaf := h.lexical token (mem_leavesOf mem leaf)
  declares entries within := h.declares entries (.inside mem within)

theorem Writable.token {kind : NodeKind} {token : Token} (h : Writable (.atom kind token)) :
    token.Lexical :=
  h.lexical token (List.mem_singleton_self _)

theorem Writable.within {s t : Tree} (h : Writable t) (hs : Within s t) : Writable s := by
  induction hs with
  | here => exact h
  | inside mem _ ih => exact ih (h.part mem)

end Tree

namespace Reader

variable {α β : Type} {r : Reader α} {f : α → Reader β} {ts us rest : List Token} {a : α} {b : β}
  {follow goal : List Token → Prop} {texts others : List String} {t : Token}

/-- The next token spells none of the texts. -/
def Avoids (texts : List String) (rest : List Token) : Prop :=
  ∀ t ∈ rest.head?, t.spellsAny texts = false

theorem avoids_nil : Avoids texts [] := by
  simp [Avoids]

theorem avoids_cons : Avoids texts (t :: rest) ↔ t.spellsAny texts = false := by
  simp [Avoids]

theorem Avoids.mono (h : Avoids texts rest) (le : others ⊆ texts) : Avoids others rest := by
  intro t ht
  have avoids := h t ht
  rw [Bool.eq_false_iff, ne_eq, Token.spellsAny_iff] at avoids ⊢
  rintro ⟨spelled, mem⟩
  exact avoids ⟨spelled, le mem⟩

/-- The first token can spell nothing but one of the texts. -/
def Starts (texts : List String) (ts : List Token) : Prop :=
  ∃ t more, ts = t :: more ∧ t.SpellsOnly texts

theorem Starts.append (h : Starts texts ts) (rest : List Token) : Starts texts (ts ++ rest) := by
  obtain ⟨t, more, rfl, only⟩ := h
  exact ⟨t, more ++ rest, rfl, only⟩

theorem Starts.mono (h : Starts texts ts) (le : texts ⊆ others) : Starts others ts := by
  obtain ⟨t, more, rfl, only⟩ := h
  exact ⟨t, more, rfl, only.mono le⟩

theorem Starts.avoids (h : Starts texts ts) (apart : ∀ text ∈ texts, text ∉ others) :
    Avoids others ts := by
  obtain ⟨t, more, rfl, only⟩ := h
  exact avoids_cons.2 (only.spellsAny_eq_false apart)

theorem starts_of_spells {text : String} (h : t.spells text = true) : Starts [text] (t :: rest) :=
  ⟨t, rest, rfl, .of_spells h⟩

/-- In front of tokens with `follow`, the reader reads `a` off `ts` and stops there. -/
def Reads (r : Reader α) (ts : List Token) (a : α) (follow : List Token → Prop) : Prop :=
  ∀ rest, follow rest → r (ts ++ rest) = .read a rest

namespace Reads

theorem weaken (h : Reads r ts a follow) (le : ∀ rest, goal rest → follow rest) :
    Reads r ts a goal :=
  fun rest hrest => h rest (le rest hrest)

theorem pure (a : α) : Reads (Pure.pure a) [] a follow :=
  fun _ _ => rfl

/-- Behind a phrase that has been read, the next reader goes on. -/
theorem goesOn (h : Reads r ts a follow) (hrest : follow rest) (f : α → Reader β) :
    (r >>= f) (ts ++ rest) = f a rest := by
  rw [Reader.bind_apply, h rest hrest]

theorem bind (hr : Reads r ts a follow) (hf : Reads (f a) us b goal)
    (next : ∀ rest, goal rest → follow (us ++ rest)) : Reads (r >>= f) (ts ++ us) b goal := by
  intro rest hrest
  rw [List.append_assoc, hr.goesOn (next rest hrest)]
  exact hf rest hrest

/-- A reader that has read everything hands over a result. -/
theorem map (hr : Reads r ts a follow) (g : α → β) :
    Reads (do let a ← r; return g a) ts (g a) follow := by
  intro rest hrest
  rw [hr.goesOn hrest]
  rfl

/-- A delimiter that is there is stepped over. -/
theorem accept {text : String} {f : Bool → Reader β} (h : t.spells text = true)
    (hf : Reads (f true) us b goal) : Reads (Reader.accept text >>= f) (t :: us) b goal := by
  intro rest hrest
  have stepped : Reader.accept text (t :: (us ++ rest)) = .read true (us ++ rest) := by
    simp [Reader.accept, h]
  rw [Reader.bind_apply, List.cons_append, stepped]
  exact hf rest hrest

/-- A delimiter that is not there is done without. -/
theorem decline {text : String} {f : Bool → Reader β} (hf : Reads (f false) us b goal)
    (next : ∀ rest, goal rest → Avoids [text] (us ++ rest)) :
    Reads (Reader.accept text >>= f) us b goal := by
  intro rest hrest
  have stays : Reader.accept text (us ++ rest) = .read false (us ++ rest) := by
    cases ahead : us ++ rest with
    | nil => rfl
    | cons t more =>
        have avoids := next rest hrest
        rw [ahead, avoids_cons] at avoids
        have other : t.spells text = false := by
          simpa [Token.spellsAny] using avoids
        simp [Reader.accept, other]
  rw [Reader.bind_apply, stays]
  exact hf rest hrest

end Reads

end Reader

namespace Grammar

open Reader EmojiLang.Tree

/-- What an expression can begin with, apart from names and literals. -/
def expressionStarts : List String := unarySigns ++ ["(", "true", "false"]

/-- What a statement can begin with, apart from names and literals. -/
def statementStarts : List String :=
  expressionStarts ++ ["decl", "print", "if", "while", "for", "break", "continue"]

variable {hand : Hand}

theorem starts_mark (mark : Mark) (rest : List Token) :
    Starts [mark.text] (hand.token mark :: rest) :=
  starts_of_spells (hand.spells mark)

/-- A name or a literal can spell a truth value only. -/
theorem spellsOnly_operand {kind : NodeKind} {t : Token} (own : operandKind t.kind = some kind)
    (lexical : t.Lexical) : t.SpellsOnly ["true", "false"] := by
  rcases operandKind_cases own with ⟨hk, -⟩ | ⟨hk, -⟩ | ⟨hk, -⟩ | ⟨hk, -⟩
  · exact .of_spellsAny (lexical.spells_truth hk)
  all_goals exact .of_kind (by rw [hk]; rfl)

theorem starts_operandTokens {kind : NodeKind} {t : Tree} (node : t.isNode = true)
    (h : Starts expressionStarts (unparse hand t)) :
    Starts expressionStarts (operandTokens hand kind t) := by
  rcases operandTokens_cases hand kind node with ⟨-, parens⟩ | ⟨-, bare⟩
  · exact parens ▸ (starts_mark .openParen _).mono (by decide)
  · exact bare ▸ h

theorem starts_expression (hand : Hand) {t : Tree} (ht : Derives .expression t) (w : t.Writable) :
    Starts expressionStarts (unparse hand t) := by
  generalize expression : Phrase.expression = p at ht
  induction ht with
  | @atom kind t own =>
      rw [unparse_atom hand own]
      exact ⟨t, [], rfl, (spellsOnly_operand own w.token).mono (by decide)⟩
  | negation sign operand ih =>
      rw [unparse_negation]
      exact ⟨_, _, rfl, (Token.SpellsOnly.of_spellsAny sign).mono (by decide)⟩
  | chain own _ _ left _ ihleft _ =>
      rw [unparse_chain hand own]
      exact (starts_operandTokens left.isNode (ihleft (w.part (by simp)) rfl)).append _
  | _ => cases expression

theorem starts_statement (hand : Hand) {t : Tree} (ht : Derives .statement t) (w : t.Writable) :
    Starts statementStarts (unparse hand t) := by
  cases ht with
  | ofExpression ht => exact (starts_expression hand ht w).mono (by decide)
  | ofDeclaration ht =>
      cases ht
      rw [unparse_declaration]
      exact (starts_mark .declare _).mono (by decide)
  | ofAssignment ht =>
      cases ht with
      | assignment named _ =>
          rw [unparse_assignment]
          exact ⟨_, _, rfl, .of_kind (by rw [named]; rfl)⟩
  | printing _ =>
      rw [unparse_printing]
      exact (starts_mark .output _).mono (by decide)
  | jump spelled =>
      rw [unparse_jump]
      exact ⟨_, _, rfl, (Token.SpellsOnly.of_spellsAny spelled).mono (by decide)⟩
  | conditional opens elifs closes tests blocks ends =>
      rw [unparse_conditional hand (.of_keywords opens elifs closes tests blocks ends)]
      exact ⟨_, _, rfl, (Token.SpellsOnly.of_spells opens).mono (by decide)⟩
  | whileLoop test block =>
      rw [unparse_whileLoop hand test block]
      exact (starts_mark .whileDo _).mono (by decide)
  | forLoop _ _ _ _ =>
      rw [unparse_forLoop]
      exact (starts_mark .count _).mono (by decide)

theorem assignmentAhead_of_ne_name {t : Token} (other : t.kind ≠ .name) (rest : List Token) :
    assignmentAhead (t :: rest) = false := by
  cases rest <;> simp [assignmentAhead, other]

/-- An expression that begins with a name goes on with an operator, not with an assignment sign. -/
theorem assignmentAhead_expression (hand : Hand) {t : Tree} (ht : Derives .expression t) {rest : List Token}
    (follow : Avoids ["="] rest) : assignmentAhead (unparse hand t ++ rest) = false := by
  generalize expression : Phrase.expression = p at ht
  induction ht generalizing rest with
  | @atom kind t own =>
      rw [unparse_atom hand own]
      cases rest with
      | nil => simp [assignmentAhead]
      | cons next more =>
          have other : next.spells "=" = false := by
            simpa [Token.spellsAny] using avoids_cons.1 follow
          simp [assignmentAhead, other]
  | negation sign operand _ =>
      rw [unparse_negation]
      have spelled := (Token.spellsAny_iff.1 sign).1
      refine assignmentAhead_of_ne_name ?_ _
      intro named
      simp [named, TokenKind.isSpelled] at spelled
  | @chain kind signs first links own nonempty spelled left _ ihleft _ =>
      rw [unparse_chain hand own, List.append_assoc]
      have behind : Avoids ["="] (linkTokens hand kind links ++ rest) := by
        cases links with
        | nil => exact absurd rfl nonempty
        | cons link links =>
            have sign := Token.SpellsOnly.of_spellsAny (spelled link (by simp))
            refine avoids_cons.2 (sign.spellsAny_eq_false ?_)
            cases kind <;> simp only [signsOf, reduceCtorEq, Option.some.injEq] at own <;>
              subst own <;> decide
      rcases operandTokens_cases hand kind left.isNode with ⟨-, parens⟩ | ⟨-, bare⟩
      · rw [parens]
        exact assignmentAhead_of_ne_name (Token.kind_ne_name_of_spells (hand.spells .openParen)) _
      · rw [bare]
        exact ihleft behind rfl
  | _ => cases expression

end Grammar

end EmojiLang
