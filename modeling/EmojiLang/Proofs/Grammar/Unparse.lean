import EmojiLang.Proofs.Grammar.Derivation

/-!
# Writing trees as tokens

`Tree.unparse` writes a tree with all the delimiters that its layout calls for.  An operand stands in
parentheses exactly when it does not bind tighter than the chain or the sign around it.

**Definitions.**
* `Mark`: the tokens that trees do not keep, and `Hand`: how they are written, plainly or by glyphs,
  and where.
* `NodeKind.rank`: how tight a node binds.
* `Tree.arrange`: the tokens of a node from those of its subtrees.

**Results.**
* `unparse_node`: `unparse` by plain maps over the subtrees.
* `endless_unparse`: a phrase is written without end marks.
-/

namespace EmojiLang

/-- The keywords and delimiters that a tree does not keep. -/
inductive Mark where
  | declare
  | output
  | whileDo
  | count
  | openParen
  | closeParen
  | openBrace
  | closeBrace
  | comma
  | semicolon
  | equals
deriving DecidableEq, Repr

namespace Mark

/-- The plain spelling. -/
def text : Mark → String
  | declare => "decl"
  | output => "print"
  | whileDo => "while"
  | count => "for"
  | openParen => "("
  | closeParen => ")"
  | openBrace => "\x7b"
  | closeBrace => "\x7d"
  | comma => ","
  | semicolon => ";"
  | equals => "="

/-- The class of the token. -/
def kind : Mark → TokenKind
  | declare | output | whileDo | count => .keyword
  | equals => .operator
  | _ => .delimiter

end Mark

/-- A way to write the marks, each in any spelling and at any place. -/
structure Hand where
  token : Mark → Token
  kind_eq : ∀ mark, (token mark).kind = mark.kind
  plain_eq : ∀ mark, Glyph.plain (token mark).text = mark.text

namespace Hand

theorem spells (hand : Hand) (mark : Mark) : (hand.token mark).spells mark.text = true := by
  refine Token.spells_iff.2 ⟨?_, hand.plain_eq mark⟩
  rw [hand.kind_eq]
  cases mark <;> rfl

end Hand

namespace NodeKind

/-- How tight a node binds as an operand. -/
def rank : NodeKind → Nat
  | .disjunction => 0
  | .conjunction => 1
  | .comparison => 2
  | .sum => 3
  | .product => 4
  | .unary => 5
  | _ => 6

end NodeKind

namespace Tree

/-- How tight a tree binds as an operand. -/
def rank : Tree → Nat
  | .leaf _ => 6
  | .node kind _ => kind.rank

variable (hand : Hand)

/-- Puts tokens in parentheses. -/
def enclose (ts : List Token) : List Token :=
  hand.token .openParen :: (ts ++ [hand.token .closeParen])

/-- The operand of a chain or sign of the given kind, in parentheses if it does not bind tighter. -/
def operandPart (kind : NodeKind) (operand : Tree) (ts : List Token) : List Token :=
  match operand with
  | .leaf _ => ts
  | .node inner _ => if inner.rank ≤ kind.rank then enclose hand ts else ts

/-- A part of a statement with blocks: conditions stand in parentheses. -/
def guardPart (part : Tree) (ts : List Token) : List Token :=
  match part with
  | .leaf _ => ts
  | .node kind _ => if kind = .suite then ts else enclose hand ts

/-- Parts with a token between any two of them. -/
def divided (token : Token) : List (List Token) → List Token
  | [] => []
  | [part] => part
  | part :: next :: parts => part ++ token :: divided token (next :: parts)

/-- The tokens of a node, given those of its subtrees. -/
def arrange (kind : NodeKind) (children : List Tree) (parts : List (List Token)) : List Token :=
  match kind with
  | .suite => hand.token .openBrace :: (parts.flatten ++ [hand.token .closeBrace])
  | .declaration => hand.token .declare :: divided (hand.token .comma) parts
  | .forUpdates => divided (hand.token .comma) parts
  | .assignment => divided (hand.token .equals) parts
  | .printing => hand.token .output :: enclose hand parts.flatten
  | .conditional => (List.zipWith (guardPart hand) children parts).flatten
  | .whileLoop => hand.token .whileDo :: (List.zipWith (guardPart hand) children parts).flatten
  | .forLoop =>
      let header := divided (hand.token .semicolon) (parts.take 3)
      hand.token .count :: (enclose hand header ++ (parts.drop 3).flatten)
  | .disjunction | .conjunction | .comparison | .sum | .product | .unary =>
      (List.zipWith (operandPart hand kind) children parts).flatten
  | _ => parts.flatten

mutual

/-- The tokens of a tree, with all delimiters. -/
def unparse : Tree → List Token
  | .leaf t => [t]
  | .node kind children => arrange hand kind children (unparseEach children)

/-- The tokens of each tree of a row. -/
def unparseEach : List Tree → List (List Token)
  | [] => []
  | t :: ts => unparse t :: unparseEach ts

end

@[simp]
theorem unparse_leaf (t : Token) : unparse hand (.leaf t) = [t] := rfl

@[simp]
theorem operandPart_leaf (kind : NodeKind) (t : Token) (ts : List Token) :
    operandPart hand kind (.leaf t) ts = ts := rfl

@[simp]
theorem guardPart_leaf (t : Token) (ts : List Token) : guardPart hand (.leaf t) ts = ts := rfl

theorem unparseEach_eq_map (ts : List Tree) : unparseEach hand ts = ts.map (unparse hand) := by
  induction ts with
  | nil => rfl
  | cons t ts ih => simp [unparseEach, ih]

theorem unparse_node (kind : NodeKind) (children : List Tree) :
    unparse hand (.node kind children) =
      arrange hand kind children (children.map (unparse hand)) := by
  rw [unparse, unparseEach_eq_map]

section Lengths

variable {hand}

theorem length_enclose (ts : List Token) : (enclose hand ts).length = ts.length + 2 := by
  simp [enclose]

theorem length_le_operandPart (kind : NodeKind) (child : Tree) (ts : List Token) :
    ts.length ≤ (operandPart hand kind child ts).length := by
  unfold operandPart
  split
  · exact Nat.le_refl _
  · split
    · rw [length_enclose]
      omega
    · exact Nat.le_refl _

theorem length_le_guardPart (child : Tree) (ts : List Token) :
    ts.length ≤ (guardPart hand child ts).length := by
  unfold guardPart
  split
  · exact Nat.le_refl _
  · split
    · exact Nat.le_refl _
    · rw [length_enclose]
      omega

theorem length_le_divided {token : Token} {part : List Token} :
    ∀ {parts : List (List Token)}, part ∈ parts → part.length ≤ (divided token parts).length
  | [only], mem => by
      rw [List.mem_singleton.1 mem]
      exact Nat.le_refl _
  | first :: next :: parts, mem => by
      rw [divided, List.length_append, List.length_cons]
      rcases List.mem_cons.1 mem with rfl | mem
      · omega
      · have rest : part.length ≤ (divided token (next :: parts)).length := length_le_divided mem
        omega

theorem length_parts_le_divided (token : Token) :
    ∀ parts : List (List Token), parts.length ≤ (divided token parts).length + 1
  | [] | [_] => by
      simp
  | first :: next :: parts => by
      have rest := length_parts_le_divided token (next :: parts)
      simp only [divided, List.length_append, List.length_cons] at rest ⊢
      omega

theorem length_le_flatten_zipWith {f : Tree → List Token → List Token}
    (hf : ∀ child ts, ts.length ≤ (f child ts).length) {part : List Token} :
    ∀ {children : List Tree} {parts : List (List Token)}, children.length = parts.length →
      part ∈ parts → part.length ≤ (List.zipWith f children parts).flatten.length
  | [], parts, same, mem => by
      simp [List.eq_nil_of_length_eq_zero same.symm] at mem
  | child :: children, first :: parts, same, mem => by
      rw [List.zipWith_cons_cons, List.flatten_cons, List.length_append]
      rcases List.mem_cons.1 mem with rfl | mem
      · have := hf child part
        omega
      · have rest := length_le_flatten_zipWith hf (Nat.succ.inj same) mem
        omega

/-- The tokens of a subtree are among those of the node. -/
theorem length_le_arrange {kind : NodeKind} {children : List Tree} {parts : List (List Token)}
    (same : children.length = parts.length) {part : List Token} (mem : part ∈ parts) :
    part.length ≤ (arrange hand kind children parts).length := by
  have plain : part.length ≤ parts.flatten.length := (List.sublist_flatten_of_mem mem).length_le
  have operands : part.length ≤
      (List.zipWith (operandPart hand kind) children parts).flatten.length :=
    length_le_flatten_zipWith (length_le_operandPart kind) same mem
  have guards : part.length ≤ (List.zipWith (guardPart hand) children parts).flatten.length :=
    length_le_flatten_zipWith length_le_guardPart same mem
  cases kind with
  | suite | printing =>
      simp only [arrange.eq_def, enclose, List.length_cons, List.length_append]
      omega
  | declaration =>
      have listed : part.length ≤ (divided (hand.token .comma) parts).length :=
        length_le_divided mem
      simp only [arrange.eq_def, List.length_cons]
      omega
  | forUpdates => exact length_le_divided mem
  | assignment => exact length_le_divided mem
  | conditional => exact guards
  | whileLoop =>
      simp only [arrange.eq_def, List.length_cons]
      omega
  | forLoop =>
      rw [← List.take_append_drop 3 parts, List.mem_append] at mem
      simp only [arrange.eq_def, List.length_cons, List.length_append, length_enclose]
      rcases mem with mem | mem
      · have header : part.length ≤
            (divided (hand.token .semicolon) (parts.take 3)).length := length_le_divided mem
        omega
      · have block := (List.sublist_flatten_of_mem mem).length_le
        omega
  | disjunction | conjunction | comparison | sum | product | unary => exact operands
  | program | forInit | forTest | jump | name | number | boolean | string => exact plain

theorem length_unparse_within (hand : Hand) {s t : Tree} (h : Within s t) :
    (unparse hand s).length ≤ (unparse hand t).length := by
  induction h with
  | here => exact Nat.le_refl _
  | inside mem _ ih =>
      rw [unparse_node]
      exact Nat.le_trans ih (length_le_arrange (by simp) (List.mem_map_of_mem mem))

end Lengths

end Tree

namespace Grammar

open EmojiLang.Tree

variable (hand : Hand)

/-- An operand as the chain or sign around it has it written. -/
def operandTokens (kind : NodeKind) (t : Tree) : List Token :=
  operandPart hand kind t (unparse hand t)

/-- Parentheses stand around an operand that does not bind tighter, and around no other. -/
theorem operandTokens_cases (kind : NodeKind) {t : Tree} (node : t.isNode = true) :
    t.rank ≤ kind.rank ∧ operandTokens hand kind t = enclose hand (unparse hand t) ∨
      kind.rank < t.rank ∧ operandTokens hand kind t = unparse hand t := by
  cases t with
  | leaf token => simp [isNode] at node
  | node inner children =>
      by_cases loose : inner.rank ≤ kind.rank
      · exact Or.inl ⟨loose, by simp [operandTokens, operandPart, loose]⟩
      · exact Or.inr ⟨Nat.lt_of_not_le loose, by simp [operandTokens, operandPart, loose]⟩

/-- The operators and operands of a chain behind its first operand. -/
def linkTokens (kind : NodeKind) (links : List (Token × Tree)) : List Token :=
  links.flatMap fun link => link.1 :: operandTokens hand kind link.2

/-- A branch with a test. -/
def branchTokens (b : Branch) : List Token :=
  b.keyword :: (enclose hand (unparse hand b.test) ++ unparse hand b.block)

/-- The branch without a test, if there is one. -/
def closingTokens : Option (Token × Tree) → List Token
  | none => []
  | some (keyword, block) => keyword :: unparse hand block

section Productions

theorem unparse_atom {kind : NodeKind} {t : Token} (own : operandKind t.kind = some kind) :
    unparse hand (.atom kind t) = [t] := by
  rcases operandKind_cases own with ⟨-, rfl⟩ | ⟨-, rfl⟩ | ⟨-, rfl⟩ | ⟨-, rfl⟩ <;> rfl

theorem unparse_name (t : Token) : unparse hand (.atom .name t) = [t] := rfl

theorem unparse_negation (sign : Token) (operand : Tree) :
    unparse hand (.node .unary [.leaf sign, operand]) =
      sign :: operandTokens hand .unary operand := by
  simp [unparse_node, arrange.eq_def, operandTokens]

theorem unparse_chain {kind : NodeKind} {signs : List String} (own : signsOf kind = some signs)
    (first : Tree) (links : List (Token × Tree)) :
    unparse hand (.node kind (first :: chained links)) =
      operandTokens hand kind first ++ linkTokens hand kind links := by
  have parts : ∀ links : List (Token × Tree),
      (List.zipWith (operandPart hand kind) (chained links)
        ((chained links).map (unparse hand))).flatten = linkTokens hand kind links := by
    intro links
    induction links with
    | nil => rfl
    | cons link links ih =>
        simp [linkTokens, operandTokens] at ih ⊢
        exact ih
  rw [unparse_node]
  cases kind <;> simp only [signsOf, reduceCtorEq] at own <;>
    simp only [arrange.eq_def, List.map_cons, List.zipWith_cons_cons, List.flatten_cons, parts] <;> rfl

theorem unparse_assignment (name : Token) (right : Tree) :
    unparse hand (.node .assignment [.atom .name name, right]) =
      name :: hand.token .equals :: unparse hand right := by
  simp [unparse_node, arrange.eq_def, divided, unparse_name]

theorem unparse_declaration (entries : List Tree) :
    unparse hand (.node .declaration entries) =
      hand.token .declare :: divided (hand.token .comma) (entries.map (unparse hand)) := by
  rw [unparse_node, arrange.eq_def]

theorem unparse_printing (operand : Tree) :
    unparse hand (.node .printing [operand]) =
      hand.token .output :: enclose hand (unparse hand operand) := by
  simp [unparse_node, arrange.eq_def]

theorem unparse_jump (keyword : Token) :
    unparse hand (.node .jump [.leaf keyword]) = [keyword] := rfl

theorem guardPart_expression {t : Tree} (ht : Derives .expression t) (ts : List Token) :
    guardPart hand t ts = enclose hand ts := by
  obtain ⟨kind, children, rfl, value⟩ := ht.isExpression
  have other : kind ≠ .suite := by
    rintro rfl
    simp [NodeKind.isExpression] at value
  simp [guardPart, other]

theorem guardPart_suite {t : Tree} (ht : Derives .suite t) (ts : List Token) :
    guardPart hand t ts = ts := by
  cases ht
  rfl

theorem unparse_conditional {bs : List Branch} {last : Option (Token × Tree)}
    (guards : Guards bs last) :
    unparse hand (.node .conditional (branched bs ++ closing last)) =
      bs.flatMap (branchTokens hand) ++ closingTokens hand last := by
  rw [unparse_node, arrange.eq_def]
  induction bs with
  | nil =>
      cases last with
      | none => rfl
      | some e =>
          have block := guardPart_suite hand (guards.ends e rfl) (unparse hand e.2)
          simp [closing, closingTokens, block]
  | cons b bs ih =>
      have test := guardPart_expression hand (guards.tests b (by simp)) (unparse hand b.test)
      have block := guardPart_suite hand (guards.blocks b (by simp)) (unparse hand b.block)
      have rest := ih guards.tail
      rw [branched_cons]
      simp only [List.cons_append, List.map_cons, List.zipWith_cons_cons, List.flatten_cons, rest,
        test, block]
      simp [branchTokens]

theorem unparse_whileLoop {test block : Tree} (htest : Derives .expression test)
    (hblock : Derives .suite block) :
    unparse hand (.node .whileLoop [test, block]) =
      hand.token .whileDo :: (enclose hand (unparse hand test) ++ unparse hand block) := by
  simp [unparse_node, arrange.eq_def, guardPart_expression hand htest, guardPart_suite hand hblock]

theorem unparse_forLoop (start test updates block : Tree) :
    unparse hand (.node .forLoop [start, test, updates, block]) =
      hand.token .count ::
        (enclose hand (unparse hand start ++ hand.token .semicolon ::
          (unparse hand test ++ hand.token .semicolon :: unparse hand updates)) ++
          unparse hand block) := by
  simp [unparse_node, arrange.eq_def, divided]

theorem unparse_forInit (ts : List Tree) :
    unparse hand (.node .forInit ts) = ts.flatMap (unparse hand) := by
  rw [unparse_node, List.flatMap_def]
  rfl

theorem unparse_forTest (ts : List Tree) :
    unparse hand (.node .forTest ts) = ts.flatMap (unparse hand) := by
  rw [unparse_node, List.flatMap_def]
  rfl

theorem unparse_forUpdates (ts : List Tree) :
    unparse hand (.node .forUpdates ts) =
      divided (hand.token .comma) (ts.map (unparse hand)) := by
  rw [unparse_node, arrange.eq_def]

theorem unparse_suite (ts : List Tree) :
    unparse hand (.node .suite ts) =
      hand.token .openBrace :: (ts.flatMap (unparse hand) ++ [hand.token .closeBrace]) := by
  rw [unparse_node, arrange.eq_def, List.flatMap_def]

theorem unparse_program (ts : List Tree) :
    unparse hand (.node .program ts) = ts.flatMap (unparse hand) := by
  rw [unparse_node, List.flatMap_def]
  rfl

end Productions

section Ends

/-- No token is an end mark. -/
def Endless (ts : List Token) : Prop := ∀ t ∈ ts, t.kind ≠ .eof

theorem endless_nil : Endless [] := by
  simp [Endless]

theorem endless_cons {t : Token} {ts : List Token} :
    Endless (t :: ts) ↔ t.kind ≠ .eof ∧ Endless ts := by
  simp [Endless]

theorem endless_append {ts us : List Token} : Endless (ts ++ us) ↔ Endless ts ∧ Endless us := by
  simp only [Endless, List.forall_mem_append]

theorem endless_flatMap {α : Type} {f : α → List Token} {as : List α} :
    Endless (as.flatMap f) ↔ ∀ a ∈ as, Endless (f a) := by
  simp only [Endless, List.mem_flatMap]
  grind

variable {hand}

theorem ne_eof_of_spellsAny {t : Token} {texts : List String} (h : t.spellsAny texts = true) :
    t.kind ≠ .eof :=
  TokenKind.ne_of_isSpelled (Token.spellsAny_iff.1 h).1 rfl

theorem mark_ne_eof (mark : Mark) : (hand.token mark).kind ≠ .eof :=
  ne_eof_of_spellsAny (Token.spellsAny_of_spells (hand.spells mark) (List.mem_singleton_self _))

theorem endless_enclose {ts : List Token} (h : Endless ts) : Endless (enclose hand ts) := by
  simp [enclose, endless_cons, endless_append, endless_nil, mark_ne_eof, h]

theorem endless_operandTokens {kind : NodeKind} {t : Tree} (node : t.isNode = true)
    (h : Endless (unparse hand t)) : Endless (operandTokens hand kind t) := by
  rcases operandTokens_cases hand kind node with ⟨-, parens⟩ | ⟨-, bare⟩
  · exact parens ▸ endless_enclose h
  · exact bare ▸ h

theorem endless_divided {mark : Mark} :
    ∀ {parts : List (List Token)}, (∀ part ∈ parts, Endless part) →
      Endless (divided (hand.token mark) parts)
  | [], _ => endless_nil
  | [part], h => h part (List.mem_singleton_self _)
  | part :: next :: parts, h => by
      rw [divided, endless_append, endless_cons]
      exact ⟨h part (by simp), mark_ne_eof mark,
        endless_divided fun p hp => h p (List.mem_cons_of_mem _ hp)⟩

/-- A phrase is written without end marks. -/
theorem endless_unparse {p : Phrase} {t : Tree} (h : Derives p t) : Endless (unparse hand t) := by
  induction h with
  | @atom kind t own =>
      have operand : t.kind ≠ .eof := by
        intro ends
        simp [ends, operandKind] at own
      simp [unparse_atom hand own, endless_cons, endless_nil, operand]
  | bareEntry named => simp [unparse_name, endless_cons, endless_nil, named]
  | negation sign operand ih =>
      rw [unparse_negation, endless_cons]
      exact ⟨ne_eof_of_spellsAny sign, endless_operandTokens operand.isNode ih⟩
  | chain own _ signs left right ihleft ihright =>
      rw [unparse_chain hand own, endless_append, linkTokens, endless_flatMap]
      refine ⟨endless_operandTokens left.isNode ihleft, fun link hlink => ?_⟩
      rw [endless_cons]
      exact ⟨ne_eof_of_spellsAny (signs link hlink),
        endless_operandTokens (right link hlink).isNode (ihright link hlink)⟩
  | assignment named _ ih =>
      simp [unparse_assignment, endless_cons, named, mark_ne_eof, ih]
  | declaration _ ih =>
      rw [unparse_declaration, endless_cons]
      exact ⟨mark_ne_eof _, endless_divided (by simpa using ih)⟩
  | printing _ ih =>
      rw [unparse_printing, endless_cons]
      exact ⟨mark_ne_eof _, endless_enclose ih⟩
  | jump spelled =>
      simp [unparse_jump, endless_cons, endless_nil, ne_eof_of_spellsAny spelled]
  | @conditional _ _ last opens elifs closes tests blocks ends ihtests ihblocks ihends =>
      have guards : Guards _ _ := .of_keywords opens elifs closes tests blocks ends
      rw [unparse_conditional hand guards, endless_append, endless_flatMap]
      constructor
      · intro b hb
        rw [branchTokens, endless_cons, endless_append]
        exact ⟨ne_eof_of_spellsAny (guards.spelled b hb), endless_enclose (ihtests b hb),
          ihblocks b hb⟩
      · cases last with
        | none => exact endless_nil
        | some e =>
            rw [closingTokens, endless_cons]
            exact ⟨ne_eof_of_spellsAny (Token.spellsAny_of_spells (closes e rfl)
              (List.mem_singleton_self _)), ihends e rfl⟩
  | whileLoop test block ihtest ihblock =>
      rw [unparse_whileLoop hand test block, endless_cons, endless_append]
      exact ⟨mark_ne_eof _, endless_enclose ihtest, ihblock⟩
  | forLoop _ _ _ _ ihstart ihtest ihupdates ihblock =>
      rw [unparse_forLoop, endless_cons, endless_append]
      refine ⟨mark_ne_eof _, endless_enclose ?_, ihblock⟩
      simp [endless_append, endless_cons, mark_ne_eof, ihstart, ihtest, ihupdates]
  | noStart | noTest => exact endless_nil
  | declaringStart _ ih | assigningStart _ ih => simpa [unparse_forInit] using ih
  | test _ ih => simpa [unparse_forTest] using ih
  | updates _ ih =>
      rw [unparse_forUpdates]
      exact endless_divided (by simpa using ih)
  | suite _ ih =>
      rw [unparse_suite, endless_cons, endless_append, endless_flatMap, endless_cons]
      exact ⟨mark_ne_eof _, ih, mark_ne_eof _, endless_nil⟩
  | program _ ih =>
      rw [unparse_program, endless_flatMap]
      exact ih
  | initializedEntry _ ih | ofExpression _ ih | ofDeclaration _ ih | ofAssignment _ ih => exact ih

end Ends

end Grammar

end EmojiLang
