import EmojiLang.Proofs.Eval.Phrases
import EmojiLang.Proofs.Number.Numeral
import EmojiLang.Eval.Fuel
import Mathlib.Data.Int.Bitwise
import Mathlib.Data.Int.ModEq
import Mathlib.Order.Filter.AtTopBot.Basic
import Mathlib.Order.Filter.Finite

/-!
# Integer expressions

An expression that is built from integers alone has a value also where integers have no bounds and negative
ones go on with infinitely many set bits to the left.  What the language computes is the integer of 64 bits
that is congruent to this value modulo `2 ^ 64`, however often it has been cut off on the way.

**Definitions.**
* `Integral.operations`: the binary operations that stay within the integers, with what they do there.
* `Tree.Integral env t n`: the tree is built from integers alone, and `n` is its value without bounds.

**Results.**
* `toInt_modEq_iff`: to be congruent modulo `2 ^ 64` is to be the integer of 64 bits that is made of
  the last bits.
* `ofInt_land`, `ofInt_lor`, `ofInt_xor` and `ofInt_lnot`: cutting off commutes with the bitwise operations.
* `Eval.applyBinary_ofInt` and `Eval.negated_ofInt`: one operator on integers that have been cut off.
* `exec_integral`: a whole expression.
-/

namespace EmojiLang

section Bits

theorem getLsbD_toBitVec_ofInt (n : Int) {i : Nat} (below : i < 64) :
    (Int64.ofInt n).toBitVec.getLsbD i = n.testBit i := by
  rw [Int64.toBitVec_ofInt]
  cases n with
  | ofNat k =>
      rw [Int.ofNat_eq_natCast, BitVec.ofInt_natCast, BitVec.getLsbD_ofNat, decide_eq_true below]
      rfl
  | negSucc k =>
      rw [BitVec.ofInt_negSucc_eq_not_ofNat, BitVec.getLsbD_not, BitVec.getLsbD_ofNat,
        decide_eq_true below]
      rfl

/-- An integer is cut off to the 64 bits that it ends with. -/
theorem ofInt_eq_of_bits {n : Int} {k : Int64} (bits : ∀ i < 64, k.toBitVec.getLsbD i = n.testBit i) :
    Int64.ofInt n = k := by
  rw [← Int64.toBitVec_inj]
  refine BitVec.eq_of_getLsbD_eq fun i below => ?_
  rw [getLsbD_toBitVec_ofInt n below, bits i below]

theorem ofInt_land (a b : Int) : Int64.ofInt (Int.land a b) = Int64.ofInt a &&& Int64.ofInt b := by
  refine ofInt_eq_of_bits fun i below => ?_
  rw [Int64.toBitVec_and, BitVec.getLsbD_and, getLsbD_toBitVec_ofInt a below,
    getLsbD_toBitVec_ofInt b below, Int.testBit_land]

theorem ofInt_lor (a b : Int) : Int64.ofInt (Int.lor a b) = Int64.ofInt a ||| Int64.ofInt b := by
  refine ofInt_eq_of_bits fun i below => ?_
  rw [Int64.toBitVec_or, BitVec.getLsbD_or, getLsbD_toBitVec_ofInt a below,
    getLsbD_toBitVec_ofInt b below, Int.testBit_lor]

theorem ofInt_xor (a b : Int) : Int64.ofInt (Int.xor a b) = Int64.ofInt a ^^^ Int64.ofInt b := by
  refine ofInt_eq_of_bits fun i below => ?_
  rw [Int64.toBitVec_xor, BitVec.getLsbD_xor, getLsbD_toBitVec_ofInt a below,
    getLsbD_toBitVec_ofInt b below, Int.testBit_lxor]

theorem ofInt_lnot (a : Int) : Int64.ofInt (Int.lnot a) = ~~~ Int64.ofInt a := by
  refine ofInt_eq_of_bits fun i below => ?_
  rw [Int64.toBitVec_not, BitVec.getLsbD_not, getLsbD_toBitVec_ofInt a below, decide_eq_true below,
    Int.testBit_lnot]
  rfl

/-- Of the integers of 64 bits exactly one is congruent to a given integer. -/
theorem toInt_modEq_iff {k : Int64} {n : Int} : k.toInt ≡ n [ZMOD 2 ^ 64] ↔ k = Int64.ofInt n := by
  constructor
  · intro (same : k.toInt % (2 ^ 64 : Nat) = n % (2 ^ 64 : Nat))
    refine ((Int64.ofInt_eq_iff_bmod_eq_toInt n k).2 ?_).symm
    rw [← Int.emod_bmod, ← same, Int.emod_bmod, ← Int64.ofInt_eq_iff_bmod_eq_toInt]
    exact Int64.ofInt_toInt k
  · rintro rfl
    rw [Int64.toInt_ofInt]
    exact Int.bmod_emod

end Bits

namespace Integral

/-- The operations that make an integer of integers, by their plain spellings, without any bound.  A negative
integer has infinitely many set bits. -/
def operations : List (String × (Int → Int → Int)) :=
  [("+", (· + ·)), ("-", (· - ·)), ("*", (· * ·)), ("&", Int.land), ("|", Int.lor), ("^", Int.xor),
    ("xor", Int.xor)]

/-- The token spells the operation, plainly or by its glyph. -/
def Stands (sign : Token) (operation : Int → Int → Int) : Prop :=
  ∃ text, sign.spells text = true ∧ (text, operation) ∈ operations

/-- An operator in a chain with the operand behind it: the operation that it stands for, and the value of the
operand. -/
structure Link where
  sign : Token
  operation : Int → Int → Int
  operand : Tree
  value : Int

/-- The value of a chain, folded from the left. -/
def folded (n : Int) (links : List Link) : Int :=
  links.foldl (fun acc link => link.operation acc link.value) n

end Integral

open Integral

/-- The tree is an expression of integers: of literals without a point and in range, of names that are bound to
integers, of complements, and of chains of the operations above.  Its value without bounds is `n`. -/
inductive Tree.Integral (env : Env) : Tree → Int → Prop
  | literal {t : Token} {n : Int} :
      t.kind = .number →
      '.' ∉ t.text.toList →
      Numeral.Denotes t.text n →
      -2 ^ 63 ≤ n ∧ n < 2 ^ 63 →
      Integral env (.atom .number t) n
  | name {t : Token} {k : Int64} :
      t.kind = .name →
      env.get? t.text = some (.int k) →
      Integral env (.atom .name t) k.toInt
  | complement {sign : Token} {operand : Tree} {n : Int} :
      sign.spells "~" = true →
      Integral env operand n →
      Integral env (.node .unary [.leaf sign, operand]) (Int.lnot n)
  | chain {kind : NodeKind} {signs : List String} {first : Tree} {n : Int} {links : List Link} :
      Grammar.signsOf kind = some signs →
      Integral env first n →
      (∀ link ∈ links, Stands link.sign link.operation) →
      (∀ link ∈ links, Integral env link.operand link.value) →
      Integral env (.node kind (first :: Grammar.chained (links.map fun link => (link.sign, link.operand))))
        (folded n links)

namespace Tree.Integral

variable {env : Env} {t : Tree} {n : Int}

theorem isNode (h : Integral env t n) : t.isNode = true := by
  cases h <;> rfl

/-- A chain with one operator. -/
theorem pair {kind : NodeKind} {signs : List String} {first operand : Tree} {sign : Token}
    {operation : Int → Int → Int} {k : Int} (own : Grammar.signsOf kind = some signs)
    (left : Integral env first n) (stands : Stands sign operation) (right : Integral env operand k) :
    Integral env (.node kind [first, .leaf sign, operand]) (operation n k) := by
  have signs : ∀ link ∈ [(⟨sign, operation, operand, k⟩ : Link)], Stands link.sign link.operation :=
    List.forall_mem_singleton.2 stands
  exact .chain own left signs (List.forall_mem_singleton.2 right)

end Tree.Integral

namespace Eval

section Operators

/-- An operator on integers that have been cut off gives what it gives without bounds, cut off. -/
theorem applyBinary_ofInt {sign : Token} {operation : Int → Int → Int} (stands : Stands sign operation)
    (a b : Int) :
    applyBinary sign (.int (.ofInt a)) (.int (.ofInt b)) = return .int (.ofInt (operation a b)) := by
  obtain ⟨text, spelled, mem⟩ := stands
  have plain : Glyph.plain sign.text = text := (Token.spells_iff.1 spelled).2
  simp only [applyBinary, BinaryOp.ofText, plain]
  simp only [operations, List.mem_cons, List.not_mem_nil, or_false, Prod.mk.injEq] at mem
  rcases mem with ⟨rfl, rfl⟩ | ⟨rfl, rfl⟩ | ⟨rfl, rfl⟩ | ⟨rfl, rfl⟩ | ⟨rfl, rfl⟩ | ⟨rfl, rfl⟩ | ⟨rfl, rfl⟩
  · rw [Int64.ofInt_add]; rfl
  · rw [Int64.ofInt_sub]; rfl
  · rw [Int64.ofInt_mul]; rfl
  · rw [ofInt_land]; rfl
  · rw [ofInt_lor]; rfl
  · rw [ofInt_xor]; rfl
  · rw [ofInt_xor]; rfl

theorem negated_ofInt {sign : Token} (spelled : sign.spells "~" = true) (a : Int) :
    negated sign (.int (.ofInt a)) = .int (.ofInt (Int.lnot a)) := by
  have plain : Glyph.plain sign.text = "~" := (Token.spells_iff.1 spelled).2
  rw [negated, UnaryOp.ofText, plain, ofInt_lnot]
  rfl

end Operators

section Runs

variable {run : Tree → Exec Flow} {m : Machine}

/-- Running the tree gives the integer, cut off, and leaves the machine as it is. -/
def Gives (run : Tree → Exec Flow) (m : Machine) (t : Tree) (n : Int) : Prop :=
  run t m = .done (.normal (.int (.ofInt n))) m

theorem Gives.value {t : Tree} {n : Int} (h : Gives run m t n) :
    value run t m = .done (.int (.ofInt n)) m := by
  have run : run t m = .done (.normal (.int (.ofInt n))) m := h
  simp only [Eval.value, Exec.bind_apply, run]
  rfl

theorem fold_integral {links : List Link} (signs : ∀ link ∈ links, Stands link.sign link.operation)
    (operands : ∀ link ∈ links, Gives run m link.operand link.value) (n : Int) :
    fold run (.int (.ofInt n)) (links.map fun link => (link.sign, link.operand)) m =
      .done (.int (.ofInt (folded n links))) m := by
  induction links generalizing n with
  | nil => rfl
  | cons link links ih =>
      have rest := ih (fun l mem => signs l (List.mem_cons_of_mem _ mem))
        (fun l mem => operands l (List.mem_cons_of_mem _ mem)) (link.operation n link.value)
      rw [List.map_cons, fold]
      simp only [Exec.bind_apply, (operands link (by simp)).value,
        applyBinary_ofInt (signs link (by simp)), Exec.pure_apply]
      exact rest

end Runs

section Fuel

open Filter

variable {m : Machine} {t : Tree}

/-- What visiting a tree does with much fuel is what running it does. -/
theorem eventually_exec {o : Outcome Flow} (h : ∀ᶠ fuel in atTop, visit fuel (exec fuel) t m = o) :
    ∀ᶠ fuel in atTop, exec fuel t m = o := by
  obtain ⟨least, enough⟩ := eventually_atTop.1 h
  refine eventually_atTop.2 ⟨least + 1, fun fuel le => ?_⟩
  obtain ⟨below, rfl⟩ : ∃ below, fuel = below + 1 := Nat.exists_eq_add_one.2 (by omega)
  exact enough below (by omega)

/-- With enough fuel, an expression of integers gives its value without bounds, cut off. -/
theorem eventually_gives {n : Int} (h : t.Integral m.env n) :
    ∀ᶠ fuel in atTop, Gives (exec fuel) m t n := by
  induction h with
  | @literal t n _ point denotes fits =>
      refine eventually_exec (.of_forall fun fuel => ?_)
      rw [visit_atom_number, Value.ofNumeral_int64? point (Numeral.int64?_of_denotes denotes fits)]
      rfl
  | @name t k _ bound =>
      refine eventually_exec (.of_forall fun fuel => ?_)
      simp only [visit_atom_name, Exec.bind_apply, Exec.lookup, Env.lookup, bound]
      rw [Int64.ofInt_toInt]
      rfl
  | @complement sign operand n spelled inner ih =>
      refine eventually_exec (ih.mono fun fuel gives => ?_)
      simp only [visit_negation fuel _ sign inner.isNode, Exec.bind_apply, gives.value,
        negated_ofInt spelled]
      rfl
  | @chain kind signs first n links own start stands operands ihFirst ihLinks =>
      have all := (eventually_all_finite (List.finite_toSet links)).2 ihLinks
      refine eventually_exec ((ihFirst.and all).mono fun fuel gives => ?_)
      have nodes : ∀ p ∈ links.map fun link => (link.sign, link.operand), p.2.isNode = true := by
        intro p mem
        obtain ⟨link, held, rfl⟩ := List.mem_map.1 mem
        exact (operands link held).isNode
      simp only [visit_chain fuel _ own start.isNode nodes, Exec.bind_apply, gives.1.value,
        fold_integral stands gives.2 n]
      rfl

end Fuel

end Eval

/-- An expression of integers is evaluated without a failure and without a trace of it in the machine, and what
comes of it is the one integer of 64 bits that is congruent to the value without bounds. -/
theorem exec_integral {t : Tree} {n : Int} {m : Machine} (h : t.Integral m.env n) :
    ∃ k : Int64, (∀ j : Int64, j.toInt ≡ n [ZMOD 2 ^ 64] ↔ j = k) ∧
      ∃ enough, ∀ fuel, enough ≤ fuel → Eval.exec fuel t m = .done (.normal (.int k)) m := by
  refine ⟨Int64.ofInt n, fun j => toInt_modEq_iff, ?_⟩
  exact Filter.eventually_atTop.1 (Eval.eventually_gives h)

/-- A sum beyond the greatest integer, masked by a complement. -/
def maskedSum : List Token :=
  [⟨.delimiter, "(", ⟨1, 1⟩⟩, ⟨.number, "9223372036854775807", ⟨1, 2⟩⟩, ⟨.operator, "➕", ⟨1, 21⟩⟩,
    ⟨.name, "x", ⟨1, 22⟩⟩, ⟨.delimiter, ")", ⟨1, 23⟩⟩, ⟨.operator, "⚛", ⟨1, 24⟩⟩, ⟨.operator, "~", ⟨1, 25⟩⟩,
    ⟨.name, "y", ⟨1, 26⟩⟩]

/-- The tree of `maskedSum`. -/
def maskedSumTree : Tree :=
  .node .comparison
    [.node .sum
        [.atom .number ⟨.number, "9223372036854775807", ⟨1, 2⟩⟩, .leaf ⟨.operator, "➕", ⟨1, 21⟩⟩,
          .atom .name ⟨.name, "x", ⟨1, 22⟩⟩],
      .leaf ⟨.operator, "⚛", ⟨1, 24⟩⟩,
      .node .unary [.leaf ⟨.operator, "~", ⟨1, 25⟩⟩, .atom .name ⟨.name, "y", ⟨1, 26⟩⟩]]

/-- Scopes for `maskedSum`. -/
def maskedSumScopes : Env := [[("x", .int 2), ("y", .int 0)]]

/-- The value without bounds is greater by two than the greatest integer of 64 bits, and what is computed is
greater by one than the least one. -/
theorem exec_integral_maskedSum :
    Tree.ofTokens maskedSum = .ok (.node .program [maskedSumTree]) ∧
      maskedSumTree.Integral maskedSumScopes 9223372036854775809 ∧
      ∃ enough, ∀ fuel, enough ≤ fuel →
        Eval.exec fuel maskedSumTree { env := maskedSumScopes } =
          .done (.normal (.int (-9223372036854775807))) { env := maskedSumScopes } := by
  have made : Tree.ofTokens maskedSum = .ok (.node .program [maskedSumTree]) := by
    rfl
  have greatest : Tree.Integral maskedSumScopes
      (.atom .number ⟨.number, "9223372036854775807", ⟨1, 2⟩⟩) 9223372036854775807 :=
    .literal rfl (by decide) (Numeral.denotes_toString 9223372036854775807) (by decide)
  have two : Tree.Integral maskedSumScopes (.atom .name ⟨.name, "x", ⟨1, 22⟩⟩) (2 : Int64).toInt :=
    .name rfl rfl
  have mask : Tree.Integral maskedSumScopes
      (.node .unary [.leaf ⟨.operator, "~", ⟨1, 25⟩⟩, .atom .name ⟨.name, "y", ⟨1, 26⟩⟩])
      (Int.lnot (0 : Int64).toInt) :=
    .complement (by decide) (.name rfl rfl)
  have plus : Stands ⟨.operator, "➕", ⟨1, 21⟩⟩ (· + ·) := ⟨"+", by decide, by simp [operations]⟩
  have both : Stands ⟨.operator, "⚛", ⟨1, 24⟩⟩ Int.land := ⟨"&", by decide, by simp [operations]⟩
  have inner : Grammar.signsOf .sum = some Grammar.sumSigns := rfl
  have outer : Grammar.signsOf .comparison = some Grammar.comparisonSigns := rfl
  have masked := Tree.Integral.pair outer (.pair inner greatest plus two) both mask
  have large : Int.land (9223372036854775807 + (2 : Int64).toInt) (Int.lnot (0 : Int64).toInt) =
      9223372036854775809 := by
    decide +kernel
  rw [large] at masked
  have integral : maskedSumTree.Integral maskedSumScopes 9223372036854775809 := masked
  obtain ⟨k, only, runs⟩ := exec_integral (m := { env := maskedSumScopes }) integral
  have value : (-9223372036854775807 : Int64) = k := (only _).1 (by decide)
  exact ⟨made, integral, value ▸ runs⟩

end EmojiLang
