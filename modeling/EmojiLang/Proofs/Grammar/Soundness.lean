import EmojiLang.Proofs.Grammar.Derivation
import Mathlib.Tactic.SplitIfs

/-!
# Every tree that is read is derived

Whatever the tokens are, and however many delimiters are missing among them, a tree that is read off
them has one of the shapes of the grammar.

**Definition.** `Reader.Makes r P` says that everything which `r` reads satisfies `P`.

**Results.**
* `expression_makes` and `statement_makes`: the readers of the two main categories, for every budget.
* `ofTokens_derives`: a tree that is read off a token sequence is derived as a program.
-/

namespace EmojiLang

namespace Reader

variable {α β : Type}

/-- Everything that the reader reads satisfies `P`. -/
def Makes (r : Reader α) (P : α → Prop) : Prop := ∀ ts a rest, r ts = .read a rest → P a

namespace Makes

theorem pure {P : α → Prop} {a : α} (h : P a) : Makes (Pure.pure a) P := by
  intro ts b rest read
  simp only [Reader.pure_apply, Reading.read.injEq] at read
  exact read.1 ▸ h

theorem bind {r : Reader α} {f : α → Reader β} {P : α → Prop} {Q : β → Prop} (hr : Makes r P)
    (hf : ∀ a, P a → Makes (f a) Q) : Makes (r >>= f) Q := by
  intro ts b rest read
  rw [Reader.bind_apply] at read
  cases hfirst : r ts with
  | stuck other =>
      simp [hfirst] at read
  | read a next =>
      rw [hfirst] at read
      exact hf a (hr ts a next hfirst) next b rest read

theorem fail {P : α → Prop} : Makes Reader.fail P := by
  intro ts a rest read
  simp [Reader.fail] at read

/-- A reader whose results do not matter. -/
theorem any (r : Reader α) : Makes r fun _ => True := fun _ _ _ _ => trivial

end Makes

end Reader

namespace Grammar

open Reader (Makes)

section Expressions

/-- Subtrees that continue a chain of the given operators. -/
def Linked (signs : List String) (more : List Tree) : Prop :=
  ∃ links : List (Token × Tree), more = chained links ∧
    (∀ link ∈ links, link.1.spellsAny signs = true) ∧ ∀ link ∈ links, Derives .expression link.2

theorem links_makes {signs : List String} {operand : Reader Tree}
    (h : Makes operand (Derives .expression)) (budget : Nat) :
    Makes (links signs operand budget) (Linked signs) := by
  induction budget with
  | zero => exact .fail
  | succ budget ih =>
      intro ts more rest read
      cases ts with
      | nil =>
          simp only [links, Reading.read.injEq] at read
          exact ⟨[], read.1.symm, by simp, by simp⟩
      | cons t next =>
          by_cases spelled : t.spellsAny signs = true
          · simp only [links, spelled, if_true] at read
            refine Makes.bind h (fun right hright => Makes.bind ih fun more hmore => Makes.pure ?_)
              next more rest read
            obtain ⟨pairs, rfl, hsigns, hoperands⟩ := hmore
            refine ⟨(t, right) :: pairs, rfl, ?_, ?_⟩
            · simpa [spelled] using hsigns
            · simpa [hright] using hoperands
          · simp only [links, spelled, Bool.false_eq_true, if_false, Reading.read.injEq] at read
            exact ⟨[], read.1.symm, by simp, by simp⟩

theorem level_makes {kind : NodeKind} {signs : List String} (own : signsOf kind = some signs)
    {operand : Reader Tree} (h : Makes operand (Derives .expression)) (budget : Nat) :
    Makes (level kind signs budget operand) (Derives .expression) := by
  refine Makes.bind h fun first left => Makes.bind (links_makes h budget) fun more linked => ?_
  refine Makes.pure ?_
  obtain ⟨pairs, rfl, hsigns, hoperands⟩ := linked
  cases pairs with
  | nil => exact left
  | cons pair pairs => exact .chain own (by simp) hsigns left hoperands

theorem operand_makes {inner : Reader Tree} (h : Makes inner (Derives .expression)) :
    Makes (operand inner) (Derives .expression) := by
  intro ts a rest read
  cases ts with
  | nil =>
      simp [operand] at read
  | cons t next =>
      cases own : operandKind t.kind with
      | some kind =>
          simp only [operand, own, Reading.read.injEq] at read
          exact read.1 ▸ .atom own
      | none =>
          by_cases opens : t.spells "(" = true
          · simp only [operand, own, opens, if_true] at read
            exact Makes.bind h (fun e he => Makes.bind (Makes.any _) fun _ _ => Makes.pure he)
              next a rest read
          · simp [operand, own, opens] at read

theorem unary_makes {inner : Reader Tree} (h : Makes inner (Derives .expression)) :
    Makes (unary inner) (Derives .expression) := by
  intro ts a rest read
  cases ts with
  | nil =>
      simp [unary] at read
  | cons t next =>
      by_cases negates : t.spellsAny unarySigns = true
      · simp only [unary, negates, if_true] at read
        exact Makes.bind (operand_makes h) (fun e he => Makes.pure (.negation negates he))
          next a rest read
      · simp only [unary, negates, Bool.false_eq_true, if_false] at read
        exact operand_makes h _ _ _ read

/-- Whatever is read as an expression is one. -/
theorem expression_makes (budget : Nat) : Makes (expression budget) (Derives .expression) := by
  induction budget with
  | zero => exact .fail
  | succ budget ih =>
      exact level_makes rfl (level_makes rfl (level_makes rfl (level_makes rfl (level_makes rfl
        (unary_makes ih) _) _) _) _) _

end Expressions

section Statements

/-- A row of phrases of one category. -/
def Row (p : Phrase) (ts : List Tree) : Prop := ∀ t ∈ ts, Derives p t

theorem Row.nil {p : Phrase} : Row p [] := by
  simp [Row]

theorem Row.cons {p : Phrase} {t : Tree} {ts : List Tree} (h : Derives p t) (hs : Row p ts) :
    Row p (t :: ts) := by
  simpa [Row, h] using hs

variable {inner : Reader Tree} (h : Makes inner (Derives .expression))
include h

/-- An assignment, where a name and the sign behind it come next. -/
theorem assignment_makes {ts rest : List Token} {a : Tree}
    (ahead : Reader.assignmentAhead ts = true) (read : assignment inner ts = .read a rest) :
    Derives .assignment a := by
  match ts, ahead with
  | t :: sign :: next, ahead =>
      have named : t.kind = .name := by
        simp only [Reader.assignmentAhead, Bool.and_eq_true, decide_eq_true_eq] at ahead
        exact ahead.1
      exact Makes.bind (Makes.any _) (fun _ _ => Makes.bind h fun right hright =>
        Makes.pure (.assignment named hright)) (sign :: next) a rest read

theorem entries_makes (budget : Nat) :
    Makes (entries inner budget) (Row .entry) := by
  induction budget with
  | zero => exact .fail
  | succ budget ih =>
      intro ts es rest read
      cases ts with
      | nil =>
          simp only [entries, Reading.read.injEq] at read
          exact read.1 ▸ .nil
      | cons t next =>
          by_cases named : t.kind = .name
          · simp only [entries, named, if_true] at read
            refine Makes.bind (P := Derives .entry) (Makes.bind (Makes.any _) fun given _ => ?_)
              (fun entry hentry => Makes.bind (Makes.any _) fun goesOn _ => ?_) next es rest read
            · cases given with
              | true =>
                  exact Makes.bind h fun right hright =>
                    Makes.pure (.initializedEntry (.assignment named hright))
              | false => exact Makes.pure (.bareEntry named)
            · cases goesOn with
              | true => exact Makes.bind ih fun more hmore => Makes.pure (.cons hentry hmore)
              | false => exact Makes.pure (.cons hentry .nil)
          · simp only [entries, named, if_false, Reading.read.injEq] at read
            exact read.1 ▸ .nil

theorem declaration_makes (budget : Nat) :
    Makes (declaration inner budget) (Derives .declaration) :=
  Makes.bind (entries_makes h budget) fun _ hentries => Makes.pure (.declaration hentries)

theorem printing_makes : Makes (printing inner) (Derives .statement) :=
  Makes.bind (Makes.any _) fun _ _ => Makes.bind h fun _ he => Makes.bind (Makes.any _) fun _ _ =>
    Makes.pure (.printing he)

theorem updates_makes (budget : Nat) :
    Makes (updates inner budget) (Row .assignment) := by
  induction budget with
  | zero => exact .fail
  | succ budget ih =>
      intro ts us rest read
      by_cases ahead : Reader.assignmentAhead ts = true
      · simp only [updates, ahead, if_true] at read
        rw [Reader.on, Reader.bind_apply] at read
        cases done : assignment inner ts with
        | stuck other =>
            simp [done] at read
        | read a next =>
            rw [done] at read
            have ha := assignment_makes h ahead done
            refine Makes.bind (Makes.any _) (fun goesOn _ => ?_) next us rest read
            cases goesOn with
            | true => exact Makes.bind ih fun more hmore => Makes.pure (.cons ha hmore)
            | false => exact Makes.pure (.cons ha .nil)
      · simp only [updates, ahead, Bool.false_eq_true, if_false, Reading.read.injEq] at read
        exact read.1 ▸ .nil

theorem forInit_makes (budget : Nat) : Makes (forInit inner budget) (Derives .forInit) := by
  intro ts a rest read
  cases ts with
  | nil =>
      simp only [forInit, Reading.read.injEq] at read
      exact read.1 ▸ .noStart
  | cons t next =>
      by_cases declares : t.spells "decl" = true
      · simp only [forInit, declares, if_true] at read
        exact Makes.bind (declaration_makes h budget) (fun d hd => Makes.pure (.declaringStart hd))
          next a rest read
      · by_cases ahead : Reader.assignmentAhead (t :: next) = true
        · simp only [forInit, declares, ahead, Bool.false_eq_true, if_false, if_true] at read
          rw [Reader.on, Reader.bind_apply] at read
          cases done : assignment inner (t :: next) with
          | stuck other =>
              simp [done] at read
          | read b after =>
              simp only [done, Reader.pure_apply, Reading.read.injEq] at read
              exact read.1 ▸ .assigningStart (assignment_makes h ahead done)
        · simp only [forInit, declares, ahead, Bool.false_eq_true, if_false,
            Reading.read.injEq] at read
          exact read.1 ▸ .noStart

theorem forTest_makes : Makes (forTest inner) (Derives .forTest) := by
  intro ts a rest read
  by_cases missing : Reader.ahead ";" ts = true
  · simp only [forTest, missing, if_true, Reading.read.injEq] at read
    exact read.1 ▸ .noTest
  · simp only [forTest, missing, Bool.false_eq_true, if_false] at read
    exact Makes.bind h (fun e he => Makes.pure (.test he)) ts a rest read

variable {single : Reader Tree} (hs : Makes single (Derives .statement))
include hs

omit h in
theorem body_makes (budget : Nat) : Makes (body single budget) (Row .statement) := by
  induction budget with
  | zero => exact .fail
  | succ budget ih =>
      intro ts more rest read
      by_cases ends : (ts.isEmpty || Reader.ahead "\x7d" ts) = true
      · simp only [body, ends, if_true, Reading.read.injEq] at read
        exact read.1 ▸ .nil
      · simp only [body, ends, Bool.false_eq_true, if_false] at read
        exact Makes.bind hs (fun first hfirst => Makes.bind ih fun more hmore =>
          Makes.pure (.cons hfirst hmore)) ts more rest read

omit h in
theorem block_makes (budget : Nat) : Makes (block single budget) (Derives .suite) :=
  Makes.bind (Makes.any _) fun _ _ => Makes.bind (body_makes hs budget) fun _ hbody =>
    Makes.bind (Makes.any _) fun _ _ => Makes.pure (.suite hbody)

/-- The test and the block of a guarded branch. -/
def Guarded (parts : List Tree) : Prop :=
  ∃ test guardedBlock, parts = [test, guardedBlock] ∧
    Derives .expression test ∧ Derives .suite guardedBlock

theorem guarded_makes (budget : Nat) : Makes (guarded inner single budget) Guarded :=
  Makes.bind (Makes.any _) fun _ _ => Makes.bind h fun test htest =>
    Makes.bind (Makes.any _) fun _ _ => Makes.bind (block_makes hs budget) fun inner hinner =>
      Makes.pure ⟨test, inner, rfl, htest, hinner⟩

/-- The subtrees of a conditional behind its first branch. -/
def Branching (parts : List Tree) : Prop :=
  ∃ (more : List Branch) (last : Option (Token × Tree)), parts = branched more ++ closing last ∧
    (∀ b ∈ more, b.keyword.spells "elif" = true) ∧ (∀ e ∈ last, e.1.spells "else" = true) ∧
    (∀ b ∈ more, Derives .expression b.test) ∧ (∀ b ∈ more, Derives .suite b.block) ∧
    ∀ e ∈ last, Derives .suite e.2

omit h hs in
theorem Branching.nil : Branching [] :=
  ⟨[], none, rfl, by simp, by simp, by simp, by simp, by simp⟩

theorem branches_makes (budget : Nat) : Makes (branches inner single budget) Branching := by
  induction budget with
  | zero => exact .fail
  | succ budget ih =>
      intro ts parts rest read
      cases ts with
      | nil =>
          simp only [branches, Reading.read.injEq] at read
          exact read.1 ▸ .nil
      | cons t next =>
          by_cases tests : t.spells "elif" = true
          · simp only [branches, tests, if_true] at read
            refine Makes.bind (guarded_makes h hs budget) (fun branch hbranch =>
              Makes.bind ih fun more hmore => Makes.pure ?_) next parts rest read
            obtain ⟨test, inner, rfl, htest, hinner⟩ := hbranch
            obtain ⟨others, last, rfl, elifs, elses, htests, hblocks, hlast⟩ := hmore
            exact ⟨⟨t, test, inner⟩ :: others, last, rfl, by simpa [tests] using elifs, elses,
              by simpa [htest] using htests, by simpa [hinner] using hblocks, hlast⟩
          · by_cases closes : t.spells "else" = true
            · simp only [branches, tests, closes, Bool.false_eq_true, if_false, if_true] at read
              refine Makes.bind (block_makes hs budget) (fun inner hinner => Makes.pure ?_)
                next parts rest read
              exact ⟨[], some (t, inner), rfl, by simp, by simpa using closes, by simp, by simp,
                by simpa using hinner⟩
            · simp only [branches, tests, closes, Bool.false_eq_true, if_false,
                Reading.read.injEq] at read
              exact read.1 ▸ .nil

theorem conditional_makes (budget : Nat) {t : Token} (spelled : t.spells "if" = true) :
    Makes (conditional inner single budget t) (Derives .statement) := by
  refine Makes.bind (guarded_makes h hs budget) fun branch hbranch =>
    Makes.bind (branches_makes h hs budget) fun parts hparts => Makes.pure ?_
  obtain ⟨test, inner, rfl, htest, hinner⟩ := hbranch
  obtain ⟨more, last, rfl, elifs, elses, htests, hblocks, hlast⟩ := hparts
  exact @Derives.conditional ⟨t, test, inner⟩ more last spelled elifs elses
    (by simpa [htest] using htests) (by simpa [hinner] using hblocks) hlast

theorem whileLoop_makes (budget : Nat) :
    Makes (whileLoop inner single budget) (Derives .statement) := by
  refine Makes.bind (guarded_makes h hs budget) fun parts hparts => Makes.pure ?_
  obtain ⟨test, inner, rfl, htest, hinner⟩ := hparts
  exact .whileLoop htest hinner

theorem forLoop_makes (budget : Nat) :
    Makes (forLoop inner single budget) (Derives .statement) :=
  Makes.bind (Makes.any _) fun _ _ => Makes.bind (forInit_makes h budget) fun _ hstart =>
    Makes.bind (Makes.any _) fun _ _ => Makes.bind (forTest_makes h) fun _ htest =>
      Makes.bind (Makes.any _) fun _ _ => Makes.bind (updates_makes h budget) fun _ hupdates =>
        Makes.bind (Makes.any _) fun _ _ => Makes.bind (block_makes hs budget) fun _ hblock =>
          Makes.pure (.forLoop hstart htest (.updates hupdates) hblock)

end Statements

/-- Whatever is read as a statement is one. -/
theorem statement_makes (budget : Nat) : Makes (statement budget) (Derives .statement) := by
  induction budget with
  | zero => exact .fail
  | succ budget ih =>
      have inner := expression_makes (budget + 1)
      intro ts a rest read
      cases ts with
      | nil =>
          simp [statement] at read
      | cons t next =>
          simp only [statement] at read
          split_ifs at read with declares prints tests loops counts jumps assigns
          · exact .ofDeclaration (declaration_makes inner _ _ _ _ read)
          · exact printing_makes inner _ _ _ read
          · exact conditional_makes inner ih _ tests _ _ _ read
          · exact whileLoop_makes inner ih _ _ _ _ read
          · exact forLoop_makes inner ih _ _ _ _ read
          · simp only [Reading.read.injEq] at read
            exact read.1 ▸ .jump jumps
          · exact .ofAssignment (assignment_makes inner assigns read)
          · exact .ofExpression (inner _ _ _ read)

theorem statements_makes {single : Reader Tree} (hs : Makes single (Derives .statement))
    (budget : Nat) : Makes (statements single budget) (Row .statement) := by
  induction budget with
  | zero => exact .fail
  | succ budget ih =>
      intro ts more rest read
      by_cases ends : ts.isEmpty = true
      · simp only [statements, ends, if_true, Reading.read.injEq] at read
        exact read.1 ▸ .nil
      · simp only [statements, ends, Bool.false_eq_true, if_false] at read
        exact Makes.bind hs (fun first hfirst => Makes.bind ih fun more hmore =>
          Makes.pure (.cons hfirst hmore)) ts more rest read

theorem program_makes (budget : Nat) : Makes (program budget) (Derives .program) :=
  Makes.bind (statements_makes (statement_makes budget) budget) fun _ hall =>
    Makes.pure (.program hall)

/-- A tree that is read off a token sequence is derived as a program. -/
theorem ofTokens_derives {ts : List Token} {t : Tree} (made : Tree.ofTokens ts = .ok t) :
    Derives .program t := by
  simp only [Tree.ofTokens] at made
  split at made
  · next tree rest read =>
      injection made with same
      exact same ▸ program_makes _ _ _ _ read
  · simp at made

end Grammar

end EmojiLang
