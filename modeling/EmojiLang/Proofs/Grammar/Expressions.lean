import EmojiLang.Proofs.Grammar.Follow

/-!
# Reading expressions back

The reader of expressions is a ladder of levels above the reader of negations.  A tree that has been
written for one level is read back there, and the levels below it pass it on, as long as the next token
is none of their operators.

**Definitions.**
* `ladder`: the levels from the loosest to the tightest, and `climb`: the reader of some of them.
* `signsFrom k`: the operators of the levels from `k` on.
* `ReadsBack hand t`: with enough budget, `t` is read back at every level that is not tighter than it.

**Results.**
* `climb_passes`: what is read at some level is read at all looser ones.
* `level_reads_chain`: a chain is read at its own level.
* `readsBack`: an expression is read back without its parentheses, and nothing behind it is touched.
-/

namespace EmojiLang
namespace Grammar

open Reader EmojiLang.Tree

/-- The levels of precedence, the loosest first. -/
def ladder : List (NodeKind × List String) :=
  [(.disjunction, orSigns), (.conjunction, andSigns), (.comparison, comparisonSigns),
    (.sum, sumSigns), (.product, productSigns)]

/-- The reader of some levels above that of negations. -/
def climb (budget : Nat) (inner : Reader Tree) (rungs : List (NodeKind × List String)) :
    Reader Tree :=
  rungs.foldr (fun rung operand => level rung.1 rung.2 budget operand) (unary inner)

/-- The operators of the levels from `k` on. -/
def signsFrom (k : Nat) : List String := (ladder.drop k).flatMap Prod.snd

theorem expression_eq_climb (budget : Nat) :
    expression (budget + 1) = climb (budget + 1) (expression budget) ladder := rfl

/-- Where a kind of chain has its level, whose operators none of the tighter levels has. -/
theorem ladder_of_signsOf {kind : NodeKind} {signs : List String} (own : signsOf kind = some signs) :
    kind.rank < 5 ∧ ladder.drop kind.rank = (kind, signs) :: ladder.drop (kind.rank + 1) ∧
      ∀ text ∈ signs, text ∉ signsFrom (kind.rank + 1) := by
  cases kind <;> simp only [signsOf, reduceCtorEq, Option.some.injEq] at own <;> subst own <;>
    exact ⟨by decide, rfl, by decide⟩

section Levels

variable {hand : Hand} {kind : NodeKind} {signs above : List String} {operand : Reader Tree}

/-- Without any of its operators a level is the operand alone. -/
theorem level_reads_operand {ts : List Token} {t : Tree} {budget : Nat}
    (h : Reads operand ts t (Avoids above)) :
    Reads (level kind signs (budget + 1) operand) ts t (Avoids (signs ++ above)) := by
  intro rest follow
  have hfirst := h rest (follow.mono (List.subset_append_right _ _))
  have unlinked : links signs operand (budget + 1) rest = .read [] rest := by
    cases rest with
    | nil => rfl
    | cons next more =>
        have other := avoids_cons.1 (follow.mono (List.subset_append_left _ _))
        simp [links, other]
  simp [level, Reader.bind_apply, hfirst, unlinked]

theorem climb_passes {ts : List Token} {t : Tree} {budget : Nat} {inner : Reader Tree}
    {tighter : List (NodeKind × List String)}
    (h : Reads (climb (budget + 1) inner tighter) ts t (Avoids (tighter.flatMap Prod.snd)))
    (rungs : List (NodeKind × List String)) :
    Reads (climb (budget + 1) inner (rungs ++ tighter)) ts t
      (Avoids ((rungs ++ tighter).flatMap Prod.snd)) := by
  induction rungs with
  | nil => exact h
  | cons rung rungs ih => exact level_reads_operand ih

/-- A tree that is read at level `k` is read at every looser level `j`. -/
theorem climb_loosens {ts : List Token} {t : Tree} {budget : Nat} {inner : Reader Tree} {j k : Nat}
    (le : j ≤ k)
    (h : Reads (climb (budget + 1) inner (ladder.drop k)) ts t (Avoids (signsFrom k))) :
    Reads (climb (budget + 1) inner (ladder.drop j)) ts t (Avoids (signsFrom j)) := by
  have split : ladder.drop j = (ladder.drop j).take (k - j) ++ ladder.drop k := by
    have rest : ladder.drop k = (ladder.drop j).drop (k - j) := by
      rw [List.drop_drop, Nat.add_sub_cancel' le]
    rw [rest, List.take_append_drop]
  rw [signsFrom, split]
  exact climb_passes h _

/-- What the reader of negations reads in front of anything is read at all levels. -/
theorem climb_reads_unary {ts : List Token} {t : Tree} {budget : Nat} {inner : Reader Tree}
    (h : Reads (unary inner) ts t fun _ => True) (k : Nat) :
    Reads (climb (budget + 1) inner (ladder.drop k)) ts t (Avoids (signsFrom k)) := by
  have base : Reads (climb (budget + 1) inner []) ts t (Avoids []) := h.weaken fun _ _ => trivial
  have lifted := climb_passes base (ladder.drop k)
  rwa [List.append_nil] at lifted

theorem avoids_linkTokens {links : List (Token × Tree)}
    (spelled : ∀ link ∈ links, link.1.spellsAny signs = true)
    (apart : ∀ text ∈ signs, text ∉ above) {rest : List Token} (follow : Avoids above rest) :
    Avoids above (linkTokens hand kind links ++ rest) := by
  cases links with
  | nil => exact follow
  | cons link links =>
      have sign := Token.SpellsOnly.of_spellsAny (spelled link (by simp))
      exact avoids_cons.2 (sign.spellsAny_eq_false apart)

theorem links_reads {links : List (Token × Tree)}
    (spelled : ∀ link ∈ links, link.1.spellsAny signs = true)
    (apart : ∀ text ∈ signs, text ∉ above)
    (h : ∀ link ∈ links, Reads operand (operandTokens hand kind link.2) link.2 (Avoids above))
    {budget : Nat} (enough : links.length < budget) :
    Reads (Grammar.links signs operand budget) (linkTokens hand kind links) (chained links)
      (Avoids (signs ++ above)) := by
  induction links generalizing budget with
  | nil =>
      intro rest follow
      obtain ⟨budget, rfl⟩ := Nat.exists_eq_add_one.2 (Nat.zero_lt_of_lt enough)
      cases rest with
      | nil => rfl
      | cons next more =>
          have other := avoids_cons.1 (follow.mono (List.subset_append_left _ _))
          simp [Grammar.links, linkTokens, other]
  | cons link links ih =>
      intro rest follow
      obtain ⟨budget, rfl⟩ := Nat.exists_eq_add_one.2 (Nat.zero_lt_of_lt enough)
      have others : ∀ link ∈ links, link.1.spellsAny signs = true :=
        fun link hlink => spelled link (List.mem_cons_of_mem _ hlink)
      have hright := h link (by simp) (linkTokens hand kind links ++ rest)
        (avoids_linkTokens others apart (follow.mono (List.subset_append_right _ _)))
      have more := ih others (fun link hlink => h link (List.mem_cons_of_mem _ hlink))
        (Nat.lt_of_succ_lt_succ enough) rest follow
      have tokens : linkTokens hand kind (link :: links) ++ rest =
          link.1 :: (operandTokens hand kind link.2 ++ (linkTokens hand kind links ++ rest)) := by
        simp [linkTokens]
      rw [tokens]
      simp [Grammar.links, spelled link (by simp), Reader.on, Reader.bind_apply, hright, more]

/-- A chain is read at its own level, if its operands are read at the next one. -/
theorem level_reads_chain {first : Tree} {links : List (Token × Tree)} (nonempty : links ≠ [])
    (spelled : ∀ link ∈ links, link.1.spellsAny signs = true)
    (apart : ∀ text ∈ signs, text ∉ above)
    (left : Reads operand (operandTokens hand kind first) first (Avoids above))
    (right : ∀ link ∈ links, Reads operand (operandTokens hand kind link.2) link.2 (Avoids above))
    {budget : Nat} (enough : links.length < budget) :
    Reads (level kind signs budget operand)
      (operandTokens hand kind first ++ linkTokens hand kind links)
      (.node kind (first :: chained links)) (Avoids (signs ++ above)) := by
  intro rest follow
  have begun := left (linkTokens hand kind links ++ rest)
    (avoids_linkTokens spelled apart (follow.mono (List.subset_append_right _ _)))
  have linked := links_reads spelled apart right enough rest follow
  have several : chained links ≠ [] := by
    cases links with
    | nil => exact absurd rfl nonempty
    | cons link links => simp
  simp [level, Reader.bind_apply, List.append_assoc, begun, linked, several]

end Levels

section Operands

variable {hand : Hand} {inner : Reader Tree} {ts : List Token} {t : Tree}

theorem operand_reads_atom {kind : NodeKind} {token : Token}
    (own : operandKind token.kind = some kind) :
    Reads (operand inner) [token] (.atom kind token) fun _ => True := by
  intro rest _
  simp [operand, own]

theorem avoids_closeParen {texts : List String} (apart : ")" ∉ texts) (rest : List Token) :
    Avoids texts (hand.token .closeParen :: rest) :=
  (starts_mark .closeParen rest).avoids (by simpa [Mark.text] using apart)

/-- Parentheses leave no trace. -/
theorem operand_reads_enclosed (h : Reads inner ts t (Avoids (signsFrom 0))) :
    Reads (operand inner) (enclose hand ts) t fun _ => True := by
  have spelled : (hand.token .openParen).spells "(" = true := hand.spells .openParen
  have kind : operandKind (hand.token .openParen).kind = none := by
    rw [hand.kind_eq]
    rfl
  have body : Reads (do let e ← inner; let _ ← Reader.accept ")"; return e)
      (ts ++ [hand.token .closeParen]) t fun _ => True :=
    h.bind (.accept (hand.spells .closeParen) (.pure _)) fun rest _ =>
      avoids_closeParen (by decide) rest
  intro rest follow
  simp only [enclose, List.cons_append, operand, kind, spelled, if_true, Reader.on]
  exact body rest trivial

theorem unary_reads_operand {texts : List String} {follow : List Token → Prop}
    (h : Reads (operand inner) ts t follow) (begins : Starts texts ts)
    (apart : ∀ text ∈ texts, text ∉ unarySigns) : Reads (unary inner) ts t follow := by
  obtain ⟨token, more, rfl, only⟩ := begins
  intro rest hrest
  have bare : token.spellsAny unarySigns = false := only.spellsAny_eq_false apart
  simp only [List.cons_append, unary, bare, Bool.false_eq_true, if_false]
  exact h rest hrest

theorem unary_reads_enclosed (h : Reads inner ts t (Avoids (signsFrom 0))) :
    Reads (unary inner) (enclose hand ts) t fun _ => True :=
  unary_reads_operand (operand_reads_enclosed h) (starts_mark .openParen _) (by decide)

theorem unary_reads_negation {sign : Token} (spelled : sign.spellsAny unarySigns = true)
    {follow : List Token → Prop} (h : Reads (operand inner) ts t follow) :
    Reads (unary inner) (sign :: ts) (.node .unary [.leaf sign, t]) follow := by
  intro rest hrest
  simp only [List.cons_append, unary, spelled, if_true, Reader.on]
  exact h.map (fun right => Tree.node .unary [.leaf sign, right]) rest hrest

end Operands

/-- The reader of expressions with a budget reads the tree back at all levels that are not tighter than
the tree itself, if its tokens are fewer than the budget. -/
def ReadsBack (hand : Hand) (t : Tree) : Prop :=
  ∀ budget : Nat, (unparse hand t).length ≤ budget → ∀ k : Nat, k ≤ t.rank →
    Reads (climb (budget + 1) (expression budget) (ladder.drop k)) (unparse hand t) t
      (Avoids (signsFrom k))

section Expressions

variable {hand : Hand}

theorem ReadsBack.expression {t : Tree} (h : ReadsBack hand t) {budget : Nat}
    (enough : (unparse hand t).length < budget) :
    Reads (expression budget) (unparse hand t) t (Avoids (signsFrom 0)) := by
  obtain ⟨budget, rfl⟩ := Nat.exists_eq_add_one.2 (Nat.zero_lt_of_lt enough)
  rw [expression_eq_climb]
  exact h budget (Nat.le_of_lt_succ enough) 0 (Nat.zero_le _)

theorem length_linkTokens (hand : Hand) (kind : NodeKind) (links : List (Token × Tree)) :
    links.length ≤ (linkTokens hand kind links).length ∧
      ∀ link ∈ links,
        (operandTokens hand kind link.2).length < (linkTokens hand kind links).length := by
  induction links with
  | nil => simp
  | cons link links ih =>
      have tokens : (linkTokens hand kind (link :: links)).length =
          (operandTokens hand kind link.2).length + 1 + (linkTokens hand kind links).length := by
        simp [linkTokens]
        omega
      rw [tokens]
      refine ⟨by simp; omega, ?_⟩
      intro other mem
      rcases List.mem_cons.1 mem with rfl | mem
      · omega
      · have := ih.2 other mem
        omega

/-- Operands are read back at the level behind that of the chain around them. -/
theorem ReadsBack.operand {t : Tree} (h : ReadsBack hand t) (node : t.isNode = true)
    {kind : NodeKind} {budget : Nat} (enough : (operandTokens hand kind t).length ≤ budget) :
    Reads (climb (budget + 1) (Grammar.expression budget) (ladder.drop (kind.rank + 1)))
      (operandTokens hand kind t) t (Avoids (signsFrom (kind.rank + 1))) := by
  rcases operandTokens_cases hand kind node with ⟨-, parens⟩ | ⟨tight, bare⟩
  · rw [parens, length_enclose] at enough
    rw [parens]
    have body := h.expression (by omega : (unparse hand t).length < budget)
    exact climb_reads_unary (unary_reads_enclosed body) _
  · rw [bare] at enough
    rw [bare]
    exact h budget enough _ tight

/-- The operand of a negation is a name or literal, or stands in parentheses. -/
theorem ReadsBack.negated {t : Tree} (h : ReadsBack hand t) (ht : Derives .expression t)
    {budget : Nat} (enough : (operandTokens hand .unary t).length ≤ budget) :
    Reads (Grammar.operand (Grammar.expression budget)) (operandTokens hand .unary t) t
      fun _ => True := by
  rcases operandTokens_cases hand .unary ht.isNode with ⟨-, parens⟩ | ⟨tight, bare⟩
  · rw [parens, length_enclose] at enough
    rw [parens]
    have body := h.expression (by omega : (unparse hand t).length < budget)
    exact operand_reads_enclosed body
  · rw [bare]
    cases ht with
    | atom own =>
        rw [unparse_atom hand own]
        exact operand_reads_atom own
    | negation _ _ => exact absurd tight (Nat.lt_irrefl _)
    | @chain kind _ _ _ own _ _ _ _ =>
        have loose : kind.rank < 5 := (ladder_of_signsOf own).1
        exact absurd tight (Nat.not_lt_of_lt loose)

/-- Expressions are read back at all levels that are not tighter than themselves. -/
theorem readsBack {t : Tree} (ht : Derives .expression t) (w : t.Writable) : ReadsBack hand t := by
  generalize expression : Phrase.expression = p at ht
  induction ht with
  | @atom kind token own =>
      intro budget enough k le
      rw [unparse_atom hand own]
      have begins : Starts ["true", "false"] [token] :=
        ⟨token, [], rfl, spellsOnly_operand own w.token⟩
      exact climb_reads_unary (unary_reads_operand (operand_reads_atom own) begins (by decide)) k
  | @negation sign operand spelled derived ih =>
      intro budget enough k le
      rw [unparse_negation] at enough ⊢
      rw [List.length_cons] at enough
      have inner := (ih (w.part (by simp)) rfl).negated derived (Nat.le_of_succ_le enough)
      exact climb_reads_unary (unary_reads_negation spelled inner) k
  | @chain kind signs first links own nonempty spelled left right ihleft ihright =>
      intro budget enough k le
      obtain ⟨-, rungs, apart⟩ := ladder_of_signsOf own
      rw [unparse_chain hand own] at enough ⊢
      rw [List.length_append] at enough
      have parts := length_linkTokens hand kind links
      have begun := (ihleft (w.part (by simp)) rfl).operand left.isNode
        (by omega : (operandTokens hand kind first).length ≤ budget)
      have linked : ∀ link ∈ links, Reads (climb (budget + 1) (Grammar.expression budget)
          (ladder.drop (kind.rank + 1))) (operandTokens hand kind link.2) link.2
          (Avoids (signsFrom (kind.rank + 1))) := by
        intro link hlink
        have part : link.2 ∈ first :: chained links :=
          List.mem_cons_of_mem _ (List.mem_flatMap.2 ⟨link, hlink, by simp⟩)
        have fits := parts.2 link hlink
        exact (ihright link hlink (w.part part) rfl).operand (right link hlink).isNode (by omega)
      have whole := level_reads_chain nonempty spelled apart begun linked
        (by omega : links.length < budget + 1)
      have tight : Reads (climb (budget + 1) (Grammar.expression budget) (ladder.drop kind.rank))
          (operandTokens hand kind first ++ linkTokens hand kind links)
          (.node kind (first :: chained links)) (Avoids (signsFrom kind.rank)) := by
        rw [signsFrom, rungs]
        exact whole
      exact climb_loosens le tight
  | _ => cases expression

end Expressions

end Grammar
end EmojiLang
