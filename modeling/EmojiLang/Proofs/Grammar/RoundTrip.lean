import EmojiLang.Proofs.Grammar.Expressions
import EmojiLang.Proofs.Grammar.Soundness
import Mathlib.Data.List.TakeWhile

/-!
# Reading programs back

Statements follow each other without anything between them.  Each form of statement ends where the next
one begins, since no statement begins with a token that `continuing` lists.

**Results.**
* one lemma for each reader: if the readers of its parts read them back, it reads the whole back;
* `statement_reads`: a statement is read back in front of everything that can follow it;
* `ofTokens_unparse`: the tokens of a program spell that program and no other.
-/

namespace EmojiLang
namespace Grammar

open Reader EmojiLang.Tree

/-- The tokens that go on with a statement: binary operators, and what can stand behind an entry of a
declaration or behind the block of a branch. -/
def continuing : List String := signsFrom 0 ++ [",", "=", "elif", "else"]

/-- The next token spells the text. -/
def Next (text : String) (rest : List Token) : Prop :=
  ∃ t more, rest = t :: more ∧ t.spells text = true

theorem Next.avoids {text : String} {texts : List String} {rest : List Token} (h : Next text rest)
    (apart : text ∉ texts) : Avoids texts rest := by
  obtain ⟨t, more, rfl, spelled⟩ := h
  exact (starts_of_spells spelled).avoids (by simpa using apart)

theorem Next.assignmentAhead {text : String} {rest : List Token} (h : Next text rest) :
    assignmentAhead rest = false := by
  obtain ⟨t, more, rfl, spelled⟩ := h
  exact assignmentAhead_of_ne_name (Token.kind_ne_name_of_spells spelled) more

variable {hand : Hand} {e s : Reader Tree}

theorem next_mark (hand : Hand) (mark : Mark) (rest : List Token) : Next mark.text (hand.token mark :: rest) :=
  ⟨_, _, rfl, hand.spells mark⟩

/-- The reader of expressions reads this one back. -/
abbrev ReadsExpression (hand : Hand) (e : Reader Tree) (t : Tree) : Prop :=
  Reads e (unparse hand t) t (Avoids (signsFrom 0))

/-- The reader of statements reads this one back. -/
abbrev ReadsStatement (hand : Hand) (s : Reader Tree) (t : Tree) : Prop :=
  Reads s (unparse hand t) t (Avoids continuing)

section Rows

/-- What stands behind an entry of a row. -/
def rowTail (row : Reader (List Tree)) (first : Tree) : Reader (List Tree) := do
  if ← Reader.accept "," then
    let more ← row
    return first :: more
  else
    return [first]

/-- In front of tokens other than `texts`, the row reader reads the entry and then goes on behind it. -/
def ReadsFirst (hand : Hand) (row : Nat → Reader (List Tree)) (texts : List String) (t : Tree) :
    Prop :=
  ∀ budget rest, Avoids texts rest →
    row (budget + 1) (unparse hand t ++ rest) = rowTail (row budget) t rest

/-- A row with commas is read up to its last entry. -/
theorem divided_reads {row : Nat → Reader (List Tree)} {texts : List String} (apart : "," ∉ texts) :
    ∀ {ts : List Tree} {budget : Nat}, ts ≠ [] → (∀ t ∈ ts, ReadsFirst hand row texts t) →
      ts.length ≤ budget →
      Reads (row budget) (divided (hand.token .comma) (ts.map (unparse hand))) ts
        (Avoids ("," :: texts))
  | [t], budget + 1, _, h, _ => by
      intro rest follow
      have last : Reads (rowTail (row budget) t) [] [t] (Avoids ("," :: texts)) :=
        .decline (.pure _) fun rest follow => follow.mono (by simp)
      rw [List.map_singleton, divided, h t (by simp) budget rest (follow.mono (by simp))]
      exact last rest follow
  | t :: u :: ts, budget + 1, _, h, enough => by
      have others := divided_reads apart (List.cons_ne_nil u ts)
        (fun t ht => h t (List.mem_cons_of_mem _ ht)) (Nat.le_of_succ_le_succ enough)
      have following : Reads (rowTail (row budget) t)
          (hand.token .comma :: divided (hand.token .comma) ((u :: ts).map (unparse hand)))
          (t :: u :: ts) (Avoids ("," :: texts)) :=
        .accept (hand.spells .comma) (others.map _)
      intro rest follow
      have comma := (next_mark hand .comma
        (divided (hand.token .comma) ((u :: ts).map (unparse hand)) ++ rest)).avoids apart
      rw [List.map_cons, List.map_cons, divided, List.append_assoc]
      exact (h t (by simp) budget _ comma).trans (following rest follow)

end Rows

section Simple

theorem assignment_reads {t : Tree} (ht : Derives .assignment t)
    (h : ∀ {right}, Within right t → Derives .expression right → ReadsExpression hand e right) :
    Reads (assignment e) (unparse hand t) t (Avoids (signsFrom 0)) := by
  cases ht with
  | @assignment name right named hright =>
      have value := h (.inside (by simp) .here) hright
      have tail : Reads
          (do
            let _ ← Reader.accept "="
            let right ← e
            return Tree.node .assignment [.atom .name name, right])
          (hand.token .equals :: unparse hand right) (.node .assignment [.atom .name name, right])
          (Avoids (signsFrom 0)) :=
        .accept (hand.spells .equals) (value.map _)
      intro rest follow
      rw [unparse_assignment]
      exact tail rest follow

/-- An assignment is recognized by its name and the sign behind it. -/
theorem assignment_begins (hand : Hand) {t : Tree} (ht : Derives .assignment t) :
    ∃ name more, unparse hand t = name :: more ∧ name.kind = .name ∧
      ∀ rest, assignmentAhead (name :: (more ++ rest)) = true := by
  cases ht with
  | @assignment name right named _ =>
      have equals : (hand.token .equals).spells "=" = true := hand.spells .equals
      refine ⟨name, _, unparse_assignment hand name right, named, fun rest => ?_⟩
      simp [assignmentAhead, named, equals]

/-- What stands behind the name of an entry. -/
def entryTail (e : Reader Tree) (name : Token) : Reader Tree := do
  if ← Reader.accept "=" then
    let right ← e
    return .node .assignment [.atom .name name, right]
  else
    return .atom .name name

theorem entries_succ (e : Reader Tree) (budget : Nat) {name : Token} (named : name.kind = .name)
    (rest : List Token) :
    entries e (budget + 1) (name :: rest) =
      (entryTail e name >>= rowTail (entries e budget)) rest := by
  simp only [entries, named, if_true]
  rfl

theorem entry_readsFirst {t : Tree} (ht : Derives .entry t)
    (h : ∀ {right}, Within right t → Derives .expression right → ReadsExpression hand e right) :
    ReadsFirst hand (entries e) ("=" :: signsFrom 0) t := by
  intro budget rest follow
  cases ht with
  | @bareEntry name named =>
      have tail : Reads (entryTail e name) [] (.atom .name name) (Avoids ["="]) :=
        .decline (.pure _) fun rest follow => follow
      rw [unparse_name, List.singleton_append, entries_succ e budget named]
      exact tail.goesOn (follow.mono (by simp)) _
  | initializedEntry ha =>
      cases ha with
      | @assignment name right named hright =>
          have value := h (.inside (by simp) .here) hright
          have tail : Reads (entryTail e name) (hand.token .equals :: unparse hand right)
              (.node .assignment [.atom .name name, right]) (Avoids (signsFrom 0)) :=
            .accept (hand.spells .equals) (value.map _)
          rw [unparse_assignment, List.cons_append, entries_succ e budget named]
          exact tail.goesOn (follow.mono (by simp)) _

theorem updates_succ (e : Reader Tree) (budget : Nat) {ts : List Token}
    (ahead : assignmentAhead ts = true) :
    updates e (budget + 1) ts = (assignment e >>= rowTail (updates e budget)) ts := by
  simp only [updates, ahead, if_true]
  rfl

theorem update_readsFirst {t : Tree} (ht : Derives .assignment t)
    (h : ∀ {right}, Within right t → Derives .expression right → ReadsExpression hand e right) :
    ReadsFirst hand (updates e) (signsFrom 0) t := by
  intro budget rest follow
  obtain ⟨name, more, tokens, -, ahead⟩ := assignment_begins hand ht
  have reads := (assignment_reads ht h).goesOn follow (rowTail (updates e budget))
  rw [tokens] at reads ⊢
  exact (updates_succ e budget (ahead rest)).trans reads

theorem declaration_reads {ts : List Tree} {budget : Nat} (nonempty : ts ≠ [])
    (hts : ∀ t ∈ ts, Derives .entry t)
    (h : ∀ t ∈ ts, ∀ {right}, Within right t → Derives .expression right →
      ReadsExpression hand e right)
    (enough : ts.length ≤ budget) :
    Reads (declaration e budget) (divided (hand.token .comma) (ts.map (unparse hand)))
      (.node .declaration ts) (Avoids ("," :: "=" :: signsFrom 0)) := by
  have entries := divided_reads (by decide) nonempty (fun t ht => entry_readsFirst (hts t ht) (h t ht))
    enough
  exact entries.map _

theorem updates_reads {ts : List Tree} {budget : Nat} (hts : ∀ t ∈ ts, Derives .assignment t)
    (h : ∀ t ∈ ts, ∀ {right}, Within right t → Derives .expression right →
      ReadsExpression hand e right)
    (enough : ts.length < budget) :
    Reads (updates e budget) (divided (hand.token .comma) (ts.map (unparse hand))) ts
      (Next ")") := by
  cases ts with
  | nil =>
      obtain ⟨budget, rfl⟩ := Nat.exists_eq_add_one.2 (Nat.zero_lt_of_lt enough)
      intro rest follow
      simp [updates, divided, follow.assignmentAhead]
  | cons t ts =>
      have row := divided_reads (by decide) (List.cons_ne_nil t ts)
        (fun t ht => update_readsFirst (hts t ht) (h t ht)) (Nat.le_of_lt enough)
      exact row.weaken fun rest follow => follow.avoids (by decide)

theorem printing_reads {t : Tree} (h : ReadsExpression hand e t) :
    Reads (printing e) (enclose hand (unparse hand t)) (.node .printing [t]) fun _ => True :=
  .accept (hand.spells .openParen)
    (h.bind (.accept (hand.spells .closeParen) (.pure _)) fun rest _ =>
      avoids_closeParen (by decide) rest)

end Simple

section Headers

/-- A declaration with its keyword, as the readers of statements and of headers know it. -/
theorem declaration_reads_behind {t : Tree} {budget : Nat} (ht : Derives .declaration t)
    (w : t.Writable)
    (h : ∀ {right}, Within right t → Derives .expression right → ReadsExpression hand e right)
    (enough : (unparse hand t).length ≤ budget) :
    ∃ more, unparse hand t = hand.token .declare :: more ∧
      Reads (declaration e budget) more t (Avoids ("," :: "=" :: signsFrom 0)) := by
  cases ht with
  | @declaration entries parts =>
      have several := length_parts_le_divided (hand.token .comma) (entries.map (unparse hand))
      rw [unparse_declaration, List.length_cons] at enough
      rw [List.length_map] at several
      refine ⟨_, unparse_declaration hand entries, declaration_reads (w.declares _ .here) parts ?_ ?_⟩
      · exact fun t ht right within => h (.inside ht within)
      · omega

theorem forInit_reads {t : Tree} {budget : Nat} (ht : Derives .forInit t) (w : t.Writable)
    (h : ∀ {right}, Within right t → Derives .expression right → ReadsExpression hand e right)
    (enough : (unparse hand t).length ≤ budget) :
    Reads (forInit e budget) (unparse hand t) t (Next ";") := by
  intro rest follow
  cases ht with
  | noStart =>
      have ahead := follow.assignmentAhead
      obtain ⟨token, more, rfl, spelled⟩ := follow
      have other : token.spells "decl" = false :=
        (Token.SpellsOnly.of_spells spelled).spells_eq_false (by decide)
      simp [forInit, unparse_forInit, other, ahead]
  | @declaringStart start part =>
      have tokens : unparse hand (.node .forInit [start]) = unparse hand start := by
        simp [unparse_forInit]
      rw [tokens] at enough ⊢
      obtain ⟨more, spelled, reads⟩ := declaration_reads_behind part (w.part (by simp))
        (fun within => h (.inside (by simp) within)) enough
      have keyword : (hand.token .declare).spells "decl" = true := hand.spells .declare
      rw [spelled]
      simp only [List.cons_append, forInit, keyword, if_true]
      exact reads.goesOn (follow.avoids (by decide)) _
  | @assigningStart start part =>
      have tokens : unparse hand (.node .forInit [start]) = unparse hand start := by
        simp [unparse_forInit]
      obtain ⟨name, more, spelled, named, ahead⟩ := assignment_begins hand part
      have other : name.spells "decl" = false := by
        simp [Token.spells, named, TokenKind.isSpelled]
      have reads := assignment_reads part fun within => h (.inside (by simp) within)
      have goesOn := reads.goesOn (follow.avoids (by decide)) fun start =>
        (return .node .forInit [start] : Reader Tree)
      rw [tokens]
      rw [spelled] at goesOn ⊢
      simp only [List.cons_append, forInit, other, ahead, Bool.false_eq_true, if_false, if_true]
      exact goesOn

theorem forTest_reads {t : Tree} (ht : Derives .forTest t) (w : t.Writable)
    (h : ∀ {right}, Within right t → Derives .expression right → ReadsExpression hand e right) :
    Reads (forTest e) (unparse hand t) t (Next ";") := by
  intro rest follow
  cases ht with
  | noTest =>
      obtain ⟨token, more, rfl, spelled⟩ := follow
      simp [forTest, unparse_forTest, Reader.ahead, spelled]
  | @test part hpart =>
      have tokens : unparse hand (.node .forTest [part]) = unparse hand part := by
        simp [unparse_forTest]
      have value := h (.inside (by simp) .here) hpart
      have other : Reader.ahead ";" (unparse hand part ++ rest) = false := by
        obtain ⟨token, more, tokens, only⟩ := starts_expression hand hpart (w.part (by simp))
        rw [tokens]
        exact only.spells_eq_false (by decide)
      rw [tokens]
      simp only [forTest, other, Bool.false_eq_true, if_false]
      exact value.goesOn (follow.avoids (by decide)) _

end Headers

section Blocks

/-- Whatever stops a statement, a row of statements in front of it stops the statement too. -/
theorem avoids_statements {ts : List Tree}
    (begins : ∀ t ∈ ts, Starts statementStarts (unparse hand t)) {rest : List Token}
    (follow : Avoids continuing rest) : Avoids continuing (ts.flatMap (unparse hand) ++ rest) := by
  cases ts with
  | nil => exact follow
  | cons t ts =>
      have begun := (begins t (by simp)).append (ts.flatMap (unparse hand) ++ rest)
      rw [List.flatMap_cons, List.append_assoc]
      exact begun.avoids (by decide)

/-- A reader of rows that reads a statement where one begins, and nothing where the row stops, reads
the row back. -/
theorem row_reads {row : Nat → Reader (List Tree)} {stop : List Token → Prop}
    (ends : ∀ budget rest, stop rest → row (budget + 1) rest = .read [] rest)
    (step : ∀ budget ts, Starts statementStarts ts →
      row (budget + 1) ts =
        (do
          let first ← s
          let more ← row budget
          return first :: more : Reader (List Tree)) ts)
    (stops : ∀ rest, stop rest → Avoids continuing rest) {ts : List Tree} {budget : Nat}
    (h : ∀ t ∈ ts, ReadsStatement hand s t)
    (begins : ∀ t ∈ ts, Starts statementStarts (unparse hand t)) (enough : ts.length < budget) :
    Reads (row budget) (ts.flatMap (unparse hand)) ts stop := by
  induction ts generalizing budget with
  | nil =>
      obtain ⟨budget, rfl⟩ := Nat.exists_eq_add_one.2 (Nat.zero_lt_of_lt enough)
      exact ends budget
  | cons t ts ih =>
      obtain ⟨budget, rfl⟩ := Nat.exists_eq_add_one.2 (Nat.zero_lt_of_lt enough)
      have later := fun t ht => begins t (List.mem_cons_of_mem _ ht)
      have others := ih (fun t ht => h t (List.mem_cons_of_mem _ ht)) later
        (Nat.lt_of_succ_lt_succ enough)
      intro rest follow
      have goesOn := avoids_statements later (stops rest follow)
      rw [List.flatMap_cons, List.append_assoc, step budget _ ((begins t (by simp)).append _),
        (h t (by simp)).goesOn goesOn]
      exact (others.map _) rest follow

theorem body_reads {ts : List Tree} {budget : Nat} (h : ∀ t ∈ ts, ReadsStatement hand s t)
    (begins : ∀ t ∈ ts, Starts statementStarts (unparse hand t)) (enough : ts.length < budget) :
    Reads (body s budget) (ts.flatMap (unparse hand)) ts (Next "\x7d") := by
  refine row_reads ?_ ?_ (fun rest follow => follow.avoids (by decide)) h begins enough
  · rintro budget rest ⟨token, more, rfl, spelled⟩
    simp [body, Reader.ahead, spelled]
  · rintro budget ts ⟨token, more, rfl, only⟩
    have inside : token.spells "\x7d" = false := only.spells_eq_false (by decide)
    simp [body, Reader.ahead, inside, Reader.on]

/-- The block is read back with any budget that its tokens fit in. -/
def ReadsBlock (hand : Hand) (s : Reader Tree) (t : Tree) : Prop :=
  ∀ budget, (unparse hand t).length ≤ budget →
    Reads (block s budget) (unparse hand t) t fun _ => True

theorem length_le_flatMap {ts : List Tree}
    (begins : ∀ t ∈ ts, Starts statementStarts (unparse hand t)) :
    ts.length ≤ (ts.flatMap (unparse hand)).length := by
  induction ts with
  | nil => exact Nat.le_refl _
  | cons t ts ih =>
      have rest := ih fun t ht => begins t (List.mem_cons_of_mem _ ht)
      obtain ⟨token, more, tokens, -⟩ := begins t (by simp)
      rw [List.flatMap_cons, List.length_append, List.length_cons, tokens, List.length_cons]
      omega

theorem readsBlock {ts : List Tree} (h : ∀ t ∈ ts, ReadsStatement hand s t)
    (begins : ∀ t ∈ ts, Starts statementStarts (unparse hand t)) :
    ReadsBlock hand s (.node .suite ts) := by
  intro budget enough
  have several := length_le_flatMap begins
  rw [unparse_suite] at enough ⊢
  simp only [List.length_cons, List.length_append] at enough
  have inside := body_reads h begins (by omega : ts.length < budget)
  exact .accept (hand.spells .openBrace)
    (inside.bind (.accept (hand.spells .closeBrace) (.pure _)) fun rest _ =>
      next_mark hand .closeBrace rest)

theorem guarded_reads {test block : Tree} {budget : Nat} (htest : ReadsExpression hand e test)
    (hblock : ReadsBlock hand s block) (enough : (unparse hand block).length ≤ budget) :
    Reads (guarded e s budget) (enclose hand (unparse hand test) ++ unparse hand block)
      [test, block] fun _ => True := by
  have tokens : enclose hand (unparse hand test) ++ unparse hand block =
      hand.token .openParen ::
        (unparse hand test ++ hand.token .closeParen :: unparse hand block) := by
    simp [enclose]
  rw [tokens]
  exact .accept (hand.spells .openParen)
    (htest.bind (.accept (hand.spells .closeParen) ((hblock budget enough).map _)) fun rest _ =>
      avoids_closeParen (by decide) _)

/-- Behind the last branch with a test, the branch without one is read, if it is there. -/
theorem closing_reads {last : Option (Token × Tree)} {budget : Nat}
    (closes : ∀ c ∈ last, c.1.spells "else" = true) (hends : ∀ c ∈ last, ReadsBlock hand s c.2)
    (enough : (closingTokens hand last).length < budget) :
    Reads (branches e s budget) (closingTokens hand last) (closing last) (Avoids ["elif", "else"]) := by
  obtain ⟨budget, rfl⟩ := Nat.exists_eq_add_one.2 (Nat.zero_lt_of_lt enough)
  intro rest follow
  cases last with
  | none =>
      cases rest with
      | nil => rfl
      | cons next more =>
          have refused := avoids_cons.1 follow
          simp only [Token.spellsAny, List.any_cons, List.any_nil, Bool.or_false,
            Bool.or_eq_false_iff] at refused
          simp [branches, closingTokens, closing, refused.1, refused.2]
  | some c =>
      have spelled := closes c rfl
      have other : c.1.spells "elif" = false :=
        (Token.SpellsOnly.of_spells spelled).spells_eq_false (by decide)
      simp only [closingTokens, List.length_cons] at enough
      have inside := hends c rfl budget (by omega)
      simp only [closingTokens, List.cons_append, branches, spelled, other, Bool.false_eq_true,
        if_false, if_true]
      exact inside.goesOn trivial _

/-- The branches behind the first one are read up to the last one that is there. -/
theorem branches_reads {bs : List Branch} {last : Option (Token × Tree)} {budget : Nat}
    (elifs : ∀ b ∈ bs, b.keyword.spells "elif" = true)
    (closes : ∀ c ∈ last, c.1.spells "else" = true)
    (htests : ∀ b ∈ bs, ReadsExpression hand e b.test)
    (hblocks : ∀ b ∈ bs, ReadsBlock hand s b.block) (hends : ∀ c ∈ last, ReadsBlock hand s c.2)
    (enough : (bs.flatMap (branchTokens hand) ++ closingTokens hand last).length < budget) :
    Reads (branches e s budget) (bs.flatMap (branchTokens hand) ++ closingTokens hand last)
      (branched bs ++ closing last) (Avoids ["elif", "else"]) := by
  induction bs generalizing budget with
  | nil => exact closing_reads closes hends enough
  | cons b bs ih =>
      obtain ⟨budget, rfl⟩ := Nat.exists_eq_add_one.2 (Nat.zero_lt_of_lt enough)
      have spelled := elifs b (by simp)
      simp only [List.flatMap_cons, branchTokens, List.append_assoc, List.cons_append,
        List.length_cons, List.length_append] at enough
      have hfirst := guarded_reads (htests b (by simp)) (hblocks b (by simp))
        (by omega : (unparse hand b.block).length ≤ budget)
      have others := ih (fun c hc => elifs c (List.mem_cons_of_mem _ hc))
        (fun c hc => htests c (List.mem_cons_of_mem _ hc))
        (fun c hc => hblocks c (List.mem_cons_of_mem _ hc))
        (by rw [List.length_append]; omega : _ < budget)
      intro rest follow
      have tokens : (b :: bs).flatMap (branchTokens hand) ++ closingTokens hand last ++ rest =
          b.keyword :: ((enclose hand (unparse hand b.test) ++ unparse hand b.block) ++
            ((bs.flatMap (branchTokens hand) ++ closingTokens hand last) ++ rest)) := by
        simp [branchTokens]
      rw [tokens]
      simp only [branches, spelled, if_true]
      refine (hfirst.goesOn trivial _).trans ?_
      exact (others.map _) rest follow

theorem conditional_reads {first : Branch} {more : List Branch} {last : Option (Token × Tree)}
    {budget : Nat} (elifs : ∀ b ∈ more, b.keyword.spells "elif" = true)
    (closes : ∀ c ∈ last, c.1.spells "else" = true)
    (htests : ∀ b ∈ first :: more, ReadsExpression hand e b.test)
    (hblocks : ∀ b ∈ first :: more, ReadsBlock hand s b.block)
    (hends : ∀ c ∈ last, ReadsBlock hand s c.2)
    (enough : ((first :: more).flatMap (branchTokens hand) ++ closingTokens hand last).length ≤
      budget) :
    ∃ tokens, (first :: more).flatMap (branchTokens hand) ++ closingTokens hand last =
        first.keyword :: tokens ∧
      Reads (conditional e s budget first.keyword) tokens
        (.node .conditional (branched (first :: more) ++ closing last))
        (Avoids ["elif", "else"]) := by
  simp only [List.flatMap_cons, branchTokens, List.append_assoc, List.cons_append,
    List.length_cons, List.length_append] at enough
  refine ⟨(enclose hand (unparse hand first.test) ++ unparse hand first.block) ++
    (more.flatMap (branchTokens hand) ++ closingTokens hand last), by simp [branchTokens], ?_⟩
  have guard := guarded_reads (htests first (by simp)) (hblocks first (by simp))
    (by omega : (unparse hand first.block).length ≤ budget)
  have others := branches_reads elifs closes (fun b hb => htests b (List.mem_cons_of_mem _ hb))
    (fun b hb => hblocks b (List.mem_cons_of_mem _ hb)) hends
    (by rw [List.length_append]; omega : _ < budget)
  exact guard.bind (others.map _) fun _ _ => trivial

theorem forLoop_reads {start test block : Tree} {updates : List Tree} {budget : Nat}
    (hstart : Reads (forInit e budget) (unparse hand start) start (Next ";"))
    (htest : Reads (forTest e) (unparse hand test) test (Next ";"))
    (hupdates : Reads (Grammar.updates e budget)
      (divided (hand.token .comma) (updates.map (unparse hand))) updates (Next ")"))
    (hblock : ReadsBlock hand s block) (enough : (unparse hand block).length ≤ budget) :
    ∃ tokens, unparse hand (.node .forLoop [start, test, .node .forUpdates updates, block]) =
        hand.token .count :: tokens ∧
      Reads (forLoop e s budget) tokens
        (.node .forLoop [start, test, .node .forUpdates updates, block]) fun _ => True := by
  have tokens : enclose hand (unparse hand start ++ hand.token .semicolon ::
        (unparse hand test ++ hand.token .semicolon ::
          unparse hand (.node .forUpdates updates))) ++ unparse hand block =
      hand.token .openParen :: (unparse hand start ++ hand.token .semicolon ::
        (unparse hand test ++ hand.token .semicolon ::
          (divided (hand.token .comma) (updates.map (unparse hand)) ++
            hand.token .closeParen :: unparse hand block))) := by
    simp [enclose, unparse_forUpdates]
  refine ⟨_, unparse_forLoop hand _ _ _ _, ?_⟩
  rw [tokens]
  -- from the inside out: the block, the updates, the test and the start
  have inside := (hblock budget enough).map fun inner =>
    Tree.node .forLoop [start, test, .node .forUpdates updates, inner]
  refine .accept (hand.spells .openParen) (hstart.bind ?_ fun _ _ => next_mark hand .semicolon _)
  refine .accept (hand.spells .semicolon) (htest.bind ?_ fun _ _ => next_mark hand .semicolon _)
  refine .accept (hand.spells .semicolon) (hupdates.bind ?_ fun _ _ => next_mark hand .closeParen _)
  exact .accept (hand.spells .closeParen) inside

theorem whileLoop_reads {test block : Tree} {budget : Nat} (htest : ReadsExpression hand e test)
    (hblock : ReadsBlock hand s block) (enough : (unparse hand block).length ≤ budget) :
    Reads (whileLoop e s budget) (enclose hand (unparse hand test) ++ unparse hand block)
      (.node .whileLoop [test, block]) fun _ => True :=
  (guarded_reads htest hblock enough).map _

end Blocks

section Statements

theorem expression_reads {t : Tree} (ht : Derives .expression t) (w : t.Writable) {budget : Nat}
    (enough : (unparse hand t).length < budget) : ReadsExpression hand (expression budget) t :=
  (readsBack ht w).expression enough

theorem length_lt_suite (hand : Hand) {t : Tree} {ts : List Tree} (mem : t ∈ ts) :
    (unparse hand t).length < (unparse hand (.node .suite ts)).length := by
  have part : unparse hand t ∈ ts.map (unparse hand) := List.mem_map_of_mem mem
  have inside := (List.sublist_flatten_of_mem part).length_le
  rw [unparse_suite, List.length_cons, List.length_append, List.flatMap_def]
  omega

/-- Without a keyword at its head, a statement is an assignment or an expression. -/
theorem statement_plain {budget : Nat} {token : Token} (only : token.SpellsOnly expressionStarts)
    (rest : List Token) :
    statement (budget + 1) (token :: rest) =
      if assignmentAhead (token :: rest) then
        assignment (expression (budget + 1)) (token :: rest)
      else
        expression (budget + 1) (token :: rest) := by
  have other : ∀ text, text ∉ expressionStarts → token.spells text = false :=
    fun text apart => only.spells_eq_false apart
  have jump : token.spellsAny ["break", "continue"] = false := only.spellsAny_eq_false (by decide)
  simp only [statement, other "decl" (by decide), other "print" (by decide), other "if" (by decide),
    other "while" (by decide), other "for" (by decide), jump, Bool.false_eq_true, if_false]

/-- With this budget the expressions and the blocks in a tree are read back. -/
structure ReadsParts (hand : Hand) (budget : Nat) (t : Tree) : Prop where
  expressions {u : Tree} :
    Within u t → Derives .expression u → ReadsExpression hand (expression (budget + 1)) u
  blocks {u : Tree} : Within u t → Derives .suite u → ReadsBlock hand (statement budget) u

/-- If shorter statements are read back, so are the parts of this one. -/
theorem readsParts {t : Tree} (w : t.Writable) {budget : Nat}
    (enough : (unparse hand t).length < budget + 1)
    (shorter : ∀ {u : Tree}, Derives .statement u → u.Writable →
      (unparse hand u).length < budget → ReadsStatement hand (statement budget) u) :
    ReadsParts hand budget t where
  expressions {u} within hu := by
    have fits := length_unparse_within hand within
    exact expression_reads hu (w.within within) (by omega)
  blocks {u} within hu := by
    cases hu with
    | @suite ts parts =>
        have fits := length_unparse_within hand within
        have inner : ∀ v ∈ ts, v.Writable := fun v hv => (w.within within).part hv
        refine readsBlock (fun v hv => shorter (parts v hv) (inner v hv) ?_)
          fun v hv => starts_statement hand (parts v hv) (inner v hv)
        have less := length_lt_suite hand hv
        omega

theorem expression_statement_reads {t : Tree} (ht : Derives .expression t) (w : t.Writable)
    {budget : Nat} (parts : ReadsParts hand budget t) :
    ReadsStatement hand (statement (budget + 1)) t := by
  intro rest follow
  have reads := parts.expressions .here ht rest (follow.mono (List.subset_append_left _ _))
  have ahead := assignmentAhead_expression hand ht (follow.mono (by simp [continuing]))
  obtain ⟨token, more, tokens, only⟩ := starts_expression hand ht w
  rw [tokens, List.cons_append] at reads ahead ⊢
  rw [statement_plain only, ahead]
  exact reads

theorem assignment_statement_reads {t : Tree} (ht : Derives .assignment t) {budget : Nat}
    (parts : ReadsParts hand budget t) : ReadsStatement hand (statement (budget + 1)) t := by
  intro rest follow
  have reads := assignment_reads ht parts.expressions rest
    (follow.mono (List.subset_append_left _ _))
  obtain ⟨name, more, tokens, named, ahead⟩ := assignment_begins hand ht
  have only : name.SpellsOnly expressionStarts := .of_kind (by rw [named]; rfl)
  rw [tokens, List.cons_append] at reads ⊢
  rw [statement_plain only, ahead]
  exact reads

theorem declaration_statement_reads {t : Tree} (ht : Derives .declaration t) (w : t.Writable)
    {budget : Nat} (enough : (unparse hand t).length ≤ budget + 1)
    (parts : ReadsParts hand budget t) : ReadsStatement hand (statement (budget + 1)) t := by
  intro rest follow
  obtain ⟨more, tokens, reads⟩ := declaration_reads_behind ht w parts.expressions enough
  have keyword := Token.spells_eq_beq (hand.spells .declare)
  rw [tokens]
  simp only [List.cons_append, statement, keyword, Mark.text]
  exact reads rest (follow.mono (by decide))

theorem jump_statement_reads {keyword : Token}
    (spelled : keyword.spellsAny ["break", "continue"] = true) (budget : Nat) :
    ReadsStatement hand (statement (budget + 1)) (.node .jump [.leaf keyword]) := by
  intro rest _
  have other : ∀ text, text ∉ ["break", "continue"] → keyword.spells text = false :=
    fun text apart => (Token.SpellsOnly.of_spellsAny spelled).spells_eq_false apart
  rw [unparse_jump]
  simp only [List.singleton_append, statement, other "decl" (by decide), other "print" (by decide),
    other "if" (by decide), other "while" (by decide), other "for" (by decide), spelled,
    Bool.false_eq_true, if_false, if_true]

theorem conditional_statement_reads {first : Branch} {more : List Branch}
    {last : Option (Token × Tree)} (opens : first.keyword.spells "if" = true)
    (elifs : ∀ b ∈ more, b.keyword.spells "elif" = true)
    (closes : ∀ c ∈ last, c.1.spells "else" = true)
    (tests : ∀ b ∈ first :: more, Derives .expression b.test)
    (suites : ∀ b ∈ first :: more, Derives .suite b.block)
    (ends : ∀ c ∈ last, Derives .suite c.2) {budget : Nat}
    (enough : (unparse hand
      (.node .conditional (branched (first :: more) ++ closing last))).length ≤ budget + 1)
    (parts : ReadsParts hand budget
      (.node .conditional (branched (first :: more) ++ closing last))) :
    ReadsStatement hand (statement (budget + 1))
      (.node .conditional (branched (first :: more) ++ closing last)) := by
  intro rest follow
  have guards : Guards (first :: more) last := .of_keywords opens elifs closes tests suites ends
  have keyword := Token.spells_eq_beq opens
  rw [unparse_conditional hand guards] at enough
  have branch : ∀ {u}, u ∈ branched (first :: more) → Within u
      (.node .conditional (branched (first :: more) ++ closing last)) :=
    fun mem => .inside (List.mem_append_left _ mem) .here
  have final : ∀ c ∈ last, Within c.2
      (.node .conditional (branched (first :: more) ++ closing last)) :=
    fun c hc => .inside (List.mem_append_right _ (block_mem_closing hc)) .here
  obtain ⟨others, tokens, reads⟩ := conditional_reads elifs closes
    (fun b hb => parts.expressions (branch (test_mem_branched hb)) (tests b hb))
    (fun b hb => parts.blocks (branch (block_mem_branched hb)) (suites b hb))
    (fun c hc => parts.blocks (final c hc) (ends c hc)) enough
  rw [unparse_conditional hand guards, tokens]
  simp only [List.cons_append, statement, keyword]
  exact reads rest (follow.mono (by decide))

theorem whileLoop_statement_reads {test block : Tree} (htest : Derives .expression test)
    (hblock : Derives .suite block) {budget : Nat}
    (enough : (unparse hand (.node .whileLoop [test, block])).length ≤ budget + 1)
    (parts : ReadsParts hand budget (.node .whileLoop [test, block])) :
    ReadsStatement hand (statement (budget + 1)) (.node .whileLoop [test, block]) := by
  intro rest _
  have keyword := Token.spells_eq_beq (hand.spells .whileDo)
  have within : Within block (.node .whileLoop [test, block]) := .inside (by simp) .here
  have fits := length_unparse_within hand within
  have reads := whileLoop_reads (parts.expressions (.inside (by simp) .here) htest)
    (parts.blocks within hblock) (by omega : _ ≤ budget + 1)
  rw [unparse_whileLoop hand htest hblock]
  simp only [List.cons_append, statement, keyword, Mark.text]
  exact reads rest trivial

/-- The header has a part at each of its three places, and the updates are a row of their own. -/
theorem forLoop_statement_reads {start test block : Tree} {assignments : List Tree}
    (hstart : Derives .forInit start) (htest : Derives .forTest test)
    (hupdates : ∀ t ∈ assignments, Derives .assignment t) (hblock : Derives .suite block)
    (w : (Tree.node .forLoop [start, test, .node .forUpdates assignments, block]).Writable)
    {budget : Nat}
    (enough : (unparse hand
      (.node .forLoop [start, test, .node .forUpdates assignments, block])).length ≤ budget + 1)
    (parts : ReadsParts hand budget
      (.node .forLoop [start, test, .node .forUpdates assignments, block])) :
    ReadsStatement hand (statement (budget + 1))
      (.node .forLoop [start, test, .node .forUpdates assignments, block]) := by
  intro rest _
  have keyword := Token.spells_eq_beq (hand.spells .count)
  have several := length_parts_le_divided (hand.token .comma) (assignments.map (unparse hand))
  rw [List.length_map, ← unparse_forUpdates] at several
  simp only [unparse_forLoop, List.length_cons, List.length_append, length_enclose] at enough
  have begun := forInit_reads hstart (w.part (by simp))
    (fun within => parts.expressions (.inside (by simp) within))
    (by omega : (unparse hand start).length ≤ budget + 1)
  have tested := forTest_reads htest (w.part (by simp))
    (fun within => parts.expressions (.inside (by simp) within))
  have row : Within (.node .forUpdates assignments)
      (.node .forLoop [start, test, .node .forUpdates assignments, block]) :=
    .inside (by simp) .here
  have updated := updates_reads hupdates
    (fun u hu right within => parts.expressions (row.trans (.inside hu within)))
    (by omega : assignments.length < budget + 1)
  obtain ⟨more, tokens, reads⟩ := forLoop_reads begun tested updated
    (parts.blocks (.inside (by simp) .here) hblock)
    (by omega : (unparse hand block).length ≤ budget + 1)
  rw [tokens]
  simp only [List.cons_append, statement, keyword, Mark.text]
  exact reads rest trivial

/-- A statement is read back, and reading stops where the next one can begin. -/
theorem statement_reads {t : Tree} (ht : Derives .statement t) (w : t.Writable) {budget : Nat}
    (enough : (unparse hand t).length < budget) : ReadsStatement hand (statement budget) t := by
  induction budget generalizing t with
  | zero => omega
  | succ budget ih =>
      have parts := readsParts w enough ih
      have fits := Nat.le_of_lt enough
      cases ht with
      | ofExpression ht => exact expression_statement_reads ht w parts
      | ofDeclaration ht => exact declaration_statement_reads ht w fits parts
      | ofAssignment ht => exact assignment_statement_reads ht parts
      | printing ht =>
          have keyword := Token.spells_eq_beq (hand.spells .output)
          have reads := printing_reads (parts.expressions (.inside (by simp) .here) ht)
          intro rest _
          rw [unparse_printing]
          simp only [List.cons_append, statement, keyword, Mark.text]
          exact reads rest trivial
      | jump spelled => exact jump_statement_reads spelled budget
      | conditional opens elifs closes tests suites ends =>
          exact conditional_statement_reads opens elifs closes tests suites ends fits parts
      | whileLoop htest hblock => exact whileLoop_statement_reads htest hblock fits parts
      | forLoop hstart htest hupdates hblock =>
          cases hupdates with
          | updates assignments =>
              exact forLoop_statement_reads hstart htest assignments hblock w fits parts

theorem statements_reads {ts : List Tree} {budget : Nat} (h : ∀ t ∈ ts, ReadsStatement hand s t)
    (begins : ∀ t ∈ ts, Starts statementStarts (unparse hand t)) (enough : ts.length < budget) :
    Reads (statements s budget) (ts.flatMap (unparse hand)) ts (· = []) := by
  refine row_reads ?_ ?_ ?_ h begins enough
  · rintro budget rest rfl
    simp [statements]
  · rintro budget ts ⟨token, more, rfl, -⟩
    simp [statements, Reader.on]
  · rintro rest rfl
    exact avoids_nil

theorem program_reads {t : Tree} (ht : Derives .program t) (w : t.Writable) {budget : Nat}
    (enough : (unparse hand t).length < budget) :
    Reads (program budget) (unparse hand t) t (· = []) := by
  cases ht with
  | @program ts parts =>
      have begins : ∀ t ∈ ts, Starts statementStarts (unparse hand t) :=
        fun t ht => starts_statement hand (parts t ht) (w.part ht)
      have several := length_le_flatMap begins
      have reads : ∀ t ∈ ts, ReadsStatement hand (statement budget) t := by
        intro t ht
        have fits := length_unparse_within hand (.inside ht .here : Within t (.node .program ts))
        exact statement_reads (parts t ht) (w.part ht) (by omega)
      rw [unparse_program] at enough ⊢
      exact (statements_reads reads begins (by omega)).map _

end Statements

end Grammar

/-- A program that has been written down is read back, with every token at its place. -/
theorem ofTokens_unparse (hand : Hand) {t : Tree} (derived : Grammar.Derives .program t)
    (writable : t.Writable) : Tree.ofTokens (t.unparse hand) = .ok t := by
  have all : Token.beforeEnd (t.unparse hand) = t.unparse hand := by
    rw [Token.beforeEnd, List.takeWhile_eq_self_iff]
    intro token mem
    simpa using Grammar.endless_unparse derived token mem
  have reads := Grammar.program_reads derived writable (Nat.lt_succ_self (t.unparse hand).length) []
    rfl
  rw [List.append_nil] at reads
  simp only [Tree.ofTokens, all]
  rw [reads]

/-- Marks in words and symbols, all at one place. -/
def plainHand : Hand where
  token mark := ⟨mark.kind, mark.text, ⟨9, 9⟩⟩
  kind_eq _ := rfl
  plain_eq mark := by
    cases mark <;> decide

/-- A text with two operands that need their parentheses, and one statement directly behind another. -/
def nestedText : String := "decl x = (a + b) * !(c or d)\nwhile (x) \x7b break \x7d"

/-- The tokens of `nestedText`. -/
def nestedTokens : List Token :=
  [⟨.keyword, "decl", ⟨1, 1⟩⟩, ⟨.name, "x", ⟨1, 6⟩⟩, ⟨.operator, "=", ⟨1, 8⟩⟩,
    ⟨.delimiter, "(", ⟨1, 10⟩⟩, ⟨.name, "a", ⟨1, 11⟩⟩, ⟨.operator, "+", ⟨1, 13⟩⟩,
    ⟨.name, "b", ⟨1, 15⟩⟩, ⟨.delimiter, ")", ⟨1, 16⟩⟩, ⟨.operator, "*", ⟨1, 18⟩⟩,
    ⟨.operator, "!", ⟨1, 20⟩⟩, ⟨.delimiter, "(", ⟨1, 21⟩⟩, ⟨.name, "c", ⟨1, 22⟩⟩,
    ⟨.operator, "or", ⟨1, 24⟩⟩, ⟨.name, "d", ⟨1, 27⟩⟩, ⟨.delimiter, ")", ⟨1, 28⟩⟩,
    ⟨.keyword, "while", ⟨2, 1⟩⟩, ⟨.delimiter, "(", ⟨2, 7⟩⟩, ⟨.name, "x", ⟨2, 8⟩⟩,
    ⟨.delimiter, ")", ⟨2, 9⟩⟩, ⟨.delimiter, "\x7b", ⟨2, 11⟩⟩, ⟨.keyword, "break", ⟨2, 13⟩⟩,
    ⟨.delimiter, "\x7d", ⟨2, 19⟩⟩, Token.eof ⟨2, 20⟩]

/-- The tree of `nestedText`. -/
def nestedTree : Tree :=
  .node .program
    [.node .declaration
      [.node .assignment
        [.atom .name ⟨.name, "x", ⟨1, 6⟩⟩,
          .node .product
            [.node .sum
              [.atom .name ⟨.name, "a", ⟨1, 11⟩⟩, .leaf ⟨.operator, "+", ⟨1, 13⟩⟩,
                .atom .name ⟨.name, "b", ⟨1, 15⟩⟩],
              .leaf ⟨.operator, "*", ⟨1, 18⟩⟩,
              .node .unary
                [.leaf ⟨.operator, "!", ⟨1, 20⟩⟩,
                  .node .disjunction
                    [.atom .name ⟨.name, "c", ⟨1, 22⟩⟩, .leaf ⟨.operator, "or", ⟨1, 24⟩⟩,
                      .atom .name ⟨.name, "d", ⟨1, 27⟩⟩]]]]],
      .node .whileLoop
        [.atom .name ⟨.name, "x", ⟨2, 8⟩⟩,
          .node .suite [.node .jump [.leaf ⟨.keyword, "break", ⟨2, 13⟩⟩]]]]

theorem ofTokens_unparse_nestedTree :
    Tree.ofTokens (nestedTree.unparse plainHand) = .ok nestedTree := by
  have scanned : Token.scan nestedText = nestedTokens := by
    decide +kernel
  have made : Tree.ofTokens nestedTokens = .ok nestedTree := by
    rfl
  have leaves : ∀ token ∈ nestedTree.leaves, token ∈ Token.scan nestedText := by
    rw [scanned]
    decide
  have lexical : ∀ token ∈ nestedTree.leaves, token.Lexical :=
    fun token leaf => ⟨nestedText, token, leaves token leaf, rfl, rfl⟩
  have declares : ∀ entries, Tree.Within (.node .declaration entries) nestedTree →
      entries ≠ [] := by
    rintro entries within rfl
    simp [nestedTree, Tree.atom, Tree.within_node, Tree.within_leaf] at within
  exact ofTokens_unparse plainHand (Grammar.ofTokens_derives made) ⟨lexical, declares⟩

end EmojiLang
