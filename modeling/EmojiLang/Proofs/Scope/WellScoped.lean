import EmojiLang.Proofs.Scope.Discipline

/-!
# Programs that never miss a name

A program can be checked for its names before it is run.  The check walks through the statements in
order and keeps the names that each scope holds at that point; a program that passes can only fail with
a remainder by zero, whichever way its run takes through branches, rounds and signals.

**Definitions.**
* `Known`: for each scope the names it holds, with the innermost scope first.
* `Tree.check`: the names known behind a tree, if all of its own names are right.
* `Exec.Meets P x Q`: from machines with `P`, the action ends in machines with `Q`, or fails with a
  remainder by zero, or runs out of fuel.

**Invariant.** `Machine.Holds known m` says that the scopes of the machine hold exactly the known names.
A block that a signal cuts short may leave its own scope behind what is known of it, but that scope is
dropped with the block.

**Results.**
* `exec_meets`: every phrase that passes the check carries the invariant from before to behind it.
* `startWith_divisionByZero`: a program that passes fails with nothing but a remainder by zero.
-/

namespace EmojiLang

/-- The names that each scope holds, innermost scope first. -/
abbrev Known := List (List String)

namespace Known

/-- Some scope holds the name. -/
def holds (known : Known) (name : String) : Bool := known.any fun names => names.contains name

/-- Adds a name to the innermost scope, which must not hold it yet. -/
def declare : Known → String → Option Known
  | [], _ => none
  | names :: outer, name => if names.contains name then none else some ((names ++ [name]) :: outer)

end Known

namespace Tree

mutual

/-- Checks the names of a tree and gives the names that are known behind it.  A block has a set of its
own, and so has the header of a counting loop, around that of the loop's block. -/
def check (known : Known) : Tree → Option Known
  | .leaf _ => some known
  | .node .suite children | .node .forLoop children => do
      let _ ← checkAll ([] :: known) children
      return known
  | .node .declaration children => checkEntries known children
  | .node .name children =>
      match children with
      | [.leaf name] => if known.holds name.text then some known else none
      | _ => none
  | .node _ children => checkAll known children

/-- Checks trees one after the other. -/
def checkAll (known : Known) : List Tree → Option Known
  | [] => some known
  | t :: ts => do
      let next ← check known t
      checkAll next ts

/-- Checks the entries of a declaration; a name is known only behind its own initializer. -/
def checkEntries (known : Known) : List Tree → Option Known
  | [] => some known
  | .node .name [.leaf name] :: ts => do
      let next ← known.declare name.text
      checkEntries next ts
  | .node .assignment [.node .name [.leaf name], right] :: ts => do
      let initialized ← check known right
      let next ← initialized.declare name.text
      checkEntries next ts
  | _ => none

end

/-- The program passes the check, from a single scope without names. -/
def wellScoped (t : Tree) : Bool := (t.check [[]]).isSome

end Tree

namespace Env

/-- The names that the scopes hold. -/
def known (env : Env) : Known := env.map Scope.names

theorem known_holds (env : Env) (name : String) :
    env.known.holds name = env.any fun s => s.holds name := by
  simp only [known, Known.holds, List.any_map, Scope.holds_eq_contains]
  rfl

theorem lookup_of_holds {env : Env} {name : String} (h : env.known.holds name = true)
    (p : Position) (order : NameOrder) : ∃ v, env.lookup name p order = .ok v := by
  have found : (env.get? name).isSome = true := by
    rw [known_holds, List.any_eq_true] at h
    obtain ⟨s, hs, held⟩ := h
    rw [get?, List.findSome?_isSome_iff]
    exact ⟨s, hs, held⟩
  obtain ⟨v, hv⟩ := Option.isSome_iff_exists.1 found
  exact ⟨v, by rw [lookup, hv]⟩

theorem assign?_of_holds (v : Value) {name : String} :
    ∀ {env : Env}, env.known.holds name = true → ∃ after, assign? name v env = some after
  | [], h => by
      simp [known, Known.holds] at h
  | s :: outer, h => by
      cases held : s.holds name with
      | true => exact ⟨_, by rw [assign?, held, if_pos rfl]⟩
      | false =>
          have below : (known outer).holds name = true := by
            rw [known_holds] at h ⊢
            simpa [held] using h
          obtain ⟨after, hafter⟩ := assign?_of_holds v below
          exact ⟨_, by rw [assign?, held, if_neg Bool.false_ne_true, hafter]; rfl⟩

theorem assign_of_holds {env : Env} {name : String} (h : env.known.holds name = true) (v : Value)
    (p : Position) (order : NameOrder) :
    ∃ after, env.assign name v p order = .ok after ∧ after.known = env.known := by
  obtain ⟨after, hafter⟩ := assign?_of_holds v h
  exact ⟨after, by rw [assign, hafter], assign?_sameNames hafter⟩

theorem declare_of_known {env : Env} {name : String} {after : Known}
    (h : env.known.declare name = some after) (v : Value) (p : Position) :
    ∃ env', env.declare name v p = .ok env' ∧ env'.known = after := by
  cases env with
  | nil => simp [known, Known.declare] at h
  | cons s outer =>
      simp only [known, List.map_cons, Known.declare, ← Scope.holds_eq_contains] at h
      cases held : s.holds name with
      | true => simp [held] at h
      | false =>
          simp only [held, Bool.false_eq_true, if_false, Option.some.injEq] at h
          refine ⟨s.bind name v :: outer, by simp [declare, held], ?_⟩
          rw [← h, known, List.map_cons, Scope.names_bind]

end Env

namespace Tree

open Grammar (Branch Derives Guards Phrase branched closing mem_branched mem_chained mem_closing)

theorem check_leaf (known : Known) (token : Token) : check known (.leaf token) = some known := rfl

theorem check_declaration (known : Known) (entries : List Tree) :
    check known (.node .declaration entries) = checkEntries known entries := rfl

theorem checkAll_nil (known : Known) : checkAll known [] = some known := rfl

theorem checkAll_cons_eq_some {known last : Known} {t : Tree} {ts : List Tree} :
    checkAll known (t :: ts) = some last ↔
      ∃ next, check known t = some next ∧ checkAll next ts = some last := by
  simp only [checkAll, Option.bind_eq_bind, Option.bind_eq_some_iff]

theorem checkAll_singleton (known : Known) (t : Tree) : checkAll known [t] = check known t := by
  simp [checkAll]

/-- The node is checked by checking its subtrees in order. -/
def checksInOrder : NodeKind → Bool
  | .suite | .forLoop | .declaration | .name => false
  | _ => true

theorem check_node {kind : NodeKind} (inOrder : checksInOrder kind = true) (known : Known)
    (children : List Tree) : check known (.node kind children) = checkAll known children := by
  cases kind <;> first | rfl | simp [checksInOrder] at inOrder

theorem checksInOrder_of_isExpression {kind : NodeKind} (value : kind.isExpression = true)
    (unnamed : kind ≠ .name) : checksInOrder kind = true := by
  cases kind <;> simp [NodeKind.isExpression] at value unnamed <;> rfl

theorem checksInOrder_of_signsOf {kind : NodeKind} {signs : List String}
    (h : Grammar.signsOf kind = some signs) : checksInOrder kind = true := by
  cases kind <;> simp [Grammar.signsOf] at h <;> rfl

/-- A block and a counting loop have a set of their own, which is dropped behind them. -/
theorem check_ownScope {kind : NodeKind} (own : kind = .suite ∨ kind = .forLoop)
    {known next : Known} {children : List Tree} (h : check known (.node kind children) = some next) :
    next = known ∧ ∃ inner, checkAll ([] :: known) children = some inner := by
  rcases own with rfl | rfl
  all_goals
    simp only [check, Option.bind_eq_bind, Option.bind_eq_some_iff, Option.pure_def,
      Option.some.injEq] at h
    obtain ⟨inner, checked, rfl⟩ := h
    exact ⟨rfl, inner, checked⟩

theorem check_name {known next : Known} {name : Token}
    (h : check known (.atom .name name) = some next) :
    next = known ∧ known.holds name.text = true := by
  simp only [atom, check] at h
  split_ifs at h with held
  exact ⟨(Option.some.inj h).symm, held⟩

/-- The tree makes no name known behind it. -/
def Steady (t : Tree) : Prop := ∀ known next : Known, check known t = some next → next = known

theorem steady_leaf (token : Token) : Steady (.leaf token) := by
  intro known next h
  rw [check_leaf, Option.some.injEq] at h
  exact h.symm

theorem checkAll_steady {ts : List Tree} (h : ∀ t ∈ ts, Steady t) {known last : Known}
    (checked : checkAll known ts = some last) : last = known := by
  induction ts generalizing known with
  | nil =>
      rw [checkAll_nil, Option.some.injEq] at checked
      exact checked.symm
  | cons t ts ih =>
      obtain ⟨next, hfirst, rest⟩ := checkAll_cons_eq_some.1 checked
      have same : next = known := h t (by simp) known next hfirst
      exact (ih (fun t ht => h t (List.mem_cons_of_mem _ ht)) rest).trans same

theorem steady_node {kind : NodeKind} (inOrder : checksInOrder kind = true) {ts : List Tree}
    (h : ∀ t ∈ ts, Steady t) : Steady (.node kind ts) := by
  intro known next checked
  rw [check_node inOrder] at checked
  exact checkAll_steady h checked

theorem steady_suite {t : Tree} (ht : Derives .suite t) : Steady t := by
  intro known next checked
  cases ht
  exact (check_ownScope (Or.inl rfl) checked).1

theorem steady_expression {t : Tree} (ht : Derives .expression t) : Steady t := by
  generalize expression : Phrase.expression = p at ht
  induction ht with
  | @atom kind token own =>
      by_cases named : kind = .name
      · subst named
        intro known next checked
        exact (check_name checked).1
      · have value := Grammar.isExpression_of_operandKind own
        exact steady_node (checksInOrder_of_isExpression value named) (by simp [steady_leaf])
  | negation sign operand ih =>
      exact steady_node rfl (by simp [steady_leaf, ih rfl])
  | @chain kind signs first links own _ _ _ _ ihleft ihright =>
      refine steady_node (checksInOrder_of_signsOf own) fun t ht => ?_
      rcases List.mem_cons.1 ht with rfl | ht
      · exact ihleft rfl
      · obtain ⟨link, hlink, rfl | rfl⟩ := mem_chained ht
        · exact steady_leaf _
        · exact ihright link hlink rfl
  | _ => cases expression

theorem steady_assignment {t : Tree} (ht : Derives .assignment t) : Steady t := by
  cases ht with
  | assignment named right =>
      have target : Steady (.atom .name _) := steady_expression (.atom (by rw [named]; rfl))
      exact steady_node rfl (by simp [target, steady_expression right])

theorem steady_forTest {t : Tree} (ht : Derives .forTest t) : Steady t := by
  cases ht with
  | noTest => exact steady_node rfl (by simp)
  | test part => exact steady_node rfl (by simp [steady_expression part])

theorem steady_forUpdates {t : Tree} (ht : Derives .forUpdates t) : Steady t := by
  cases ht with
  | updates parts => exact steady_node rfl fun t ht => steady_assignment (parts t ht)

theorem steady_of_mem_guards {bs : List Branch} {last : Option (Token × Tree)}
    (guards : Guards bs last) : ∀ t ∈ branched bs ++ closing last, Steady t := by
  intro t ht
  rcases List.mem_append.1 ht with ht | ht
  · obtain ⟨b, hb, rfl | rfl | rfl⟩ := mem_branched ht
    · exact steady_leaf _
    · exact steady_expression (guards.tests b hb)
    · exact steady_suite (guards.blocks b hb)
  · obtain ⟨e, he, rfl | rfl⟩ := mem_closing ht
    · exact steady_leaf _
    · exact steady_suite (guards.ends e he)

end Tree

namespace Machine

/-- The scopes of the machine hold exactly the known names. -/
def Holds (known : Known) (m : Machine) : Prop := m.env.known = known

end Machine

namespace Exec

open Machine (Holds)

variable {α β : Type} {P Q R : Machine → Prop}

/-- From machines with `P` the action ends in machines with `Q`; it can fail with a remainder by zero
only. -/
def Meets (P : Machine → Prop) (x : Exec α) (Q : Machine → Prop) : Prop :=
  ∀ m, P m →
    match x m with
    | .done _ after => Q after
    | .failed d _ => d.kind = .divisionByZero
    | .outOfFuel => True

namespace Meets

theorem pure (a : α) : Meets P (Pure.pure a : Exec α) P :=
  fun _ hm => hm

theorem giveUp : Meets P (Exec.giveUp : Exec α) Q :=
  fun _ _ => trivial

theorem weaken {x : Exec α} (h : Meets P x Q) (le : ∀ m, Q m → R m) : Meets P x R := by
  intro m hm
  have meets := h m hm
  cases hx : x m with
  | done a after =>
      rw [hx] at meets
      exact le after meets
  | failed d after =>
      rw [hx] at meets
      exact meets
  | outOfFuel => trivial

theorem bind {x : Exec α} {f : α → Exec β} (hx : Meets P x Q) (hf : ∀ a, Meets Q (f a) R) :
    Meets P (x >>= f) R := by
  intro m hm
  have hfirst := hx m hm
  rw [Exec.bind_apply]
  cases hxm : x m with
  | done a next =>
      rw [hxm] at hfirst
      exact hf a next hfirst
  | failed d after =>
      rw [hxm] at hfirst
      exact hfirst
  | outOfFuel => trivial

theorem kind_of_failed {x : Exec α} (h : Meets P x Q) {m after : Machine} {d : Diagnostic}
    (hm : P m) (fails : x m = .failed d after) : d.kind = .divisionByZero := by
  have meets := h m hm
  rw [fails] at meets
  exact meets

end Meets

section Names

variable {known next : Known} {name : Token}

theorem lookup_meets (h : known.holds name.text = true) :
    Meets (Holds known) (lookup name) (Holds known) := by
  intro m hm
  obtain ⟨v, hv⟩ := Env.lookup_of_holds (hm ▸ h) name.position m.order
  simp only [lookup, hv]
  exact hm

theorem declare_meets (h : known.declare name.text = some next) (v : Value) :
    Meets (Holds known) (declare name v) (Holds next) := by
  intro m hm
  obtain ⟨env, henv, names⟩ := Env.declare_of_known (hm ▸ h) v name.position
  simp only [declare, store, henv]
  exact names

theorem assign_meets (h : known.holds name.text = true) (v : Value) :
    Meets (Holds known) (assign name v) (Holds known) := by
  intro m hm
  obtain ⟨env, henv, names⟩ := Env.assign_of_holds (hm ▸ h) v name.position m.order
  simp only [assign, store, henv]
  exact names.trans hm

theorem print_meets (text : String) : Meets (Holds known) (print text) (Holds known) :=
  fun _ hm => hm

/-- Whatever is known of the inner scope in the end, it is dropped. -/
theorem inScope_meets {x : Exec α} (h : Meets (Holds ([] :: known)) x fun _ => True)
    (keeps : Keeps Machine.Grows x) : Meets (Holds known) (inScope x) (Holds known) := by
  intro m hm
  have entered : Holds ([] :: known) { m with env := m.env.push } := congrArg ([] :: ·) hm
  have meets := h _ entered
  have same := inScope_keeps keeps m
  simp only [inScope] at same ⊢
  cases inner : x { m with env := m.env.push } with
  | done a after =>
      have names := same _ (by rw [inner, Outcome.done_endsIn])
      exact names.trans hm
  | failed d after =>
      rw [inner] at meets
      exact meets
  | outOfFuel => trivial

end Names

end Exec

namespace Eval

open Exec (Meets)
open Grammar (Branch Derives Guards Phrase branched closing)
open Machine (Holds)
open EmojiLang.Tree

theorem rounds_meets {P : Machine → Prop} {test : Exec Bool} {body : Exec Flow}
    {update : Exec Unit} (ht : Meets P test P) (hb : Meets P body P) (hu : Meets P update P)
    (fuel : Nat) : Meets P (rounds test body update fuel) P := by
  induction fuel with
  | zero => exact .giveUp
  | succ fuel ih =>
      rw [rounds_succ]
      have goOn := hu.bind fun _ => ih
      refine ht.bind fun holds => ?_
      cases holds with
      | false => exact .pure _
      | true =>
          refine hb.bind fun flow => ?_
          cases flow with
          | leave => exact .pure _
          | next => exact goOn
          | normal v => exact goOn

theorem applyBinary_meets {P : Machine → Prop} (sign : Token) (left right : Value) :
    Meets P (applyBinary sign left right) P := by
  unfold applyBinary
  split
  · exact .pure _
  · split
    · exact .pure _
    · exact fun _ _ => rfl

theorem atom_meets (fuel : Nat) (run : Tree → Exec Flow) {known next : Known} {kind : NodeKind}
    {token : Token} (own : Grammar.operandKind token.kind = some kind)
    (checked : check known (.atom kind token) = some next) :
    Meets (Holds known) (visit fuel run (.atom kind token)) (Holds known) := by
  rcases Grammar.operandKind_cases own with ⟨-, rfl⟩ | ⟨-, rfl⟩ | ⟨-, rfl⟩ | ⟨-, rfl⟩
  · exact .pure _
  · exact .pure _
  · rw [visit_atom_name]
    exact (Exec.lookup_meets (check_name checked).2).bind fun _ => .pure _
  · exact .pure _

/-- A phrase as it is run by the phrase around it: a block gets a scope of its own. -/
def entered : Phrase → Exec Flow → Exec Flow
  | .suite, x => Exec.inScope x
  | _, x => x

/-- Phrases that pass the check lead from what is known before them to what is known behind them. -/
def RunsChecked (run : Tree → Exec Flow) : Prop :=
  ∀ {p : Phrase} {t : Tree} {known next : Known}, Derives p t → check known t = some next →
    Meets (Holds known) (entered p (run t)) (Holds next)

section Parts

variable {run : Tree → Exec Flow} (h : RunsChecked run) {known next : Known}
include h

theorem expression_meets {t : Tree} (ht : Derives .expression t)
    (checked : check known t = some next) : Meets (Holds known) (value run t) (Holds known) := by
  have same : next = known := steady_expression ht known next checked
  subst same
  exact (h ht checked).bind fun _ => .pure _

theorem block_meets {t : Tree} (ht : Derives .suite t) (checked : check known t = some next) :
    Meets (Holds known) (Exec.inScope (run t)) (Holds known) := by
  have same : next = known := steady_suite ht known next checked
  subst same
  exact h ht checked

theorem lastValue_meets {p : Phrase} (open_ : entered p = id) {ts : List Tree}
    (hts : ∀ t ∈ ts, Derives p t) (checked : checkAll known ts = some next) (last : Value) :
    Meets (Holds known) (lastValue run last ts) (Holds next) := by
  induction ts generalizing known last with
  | nil =>
      rw [checkAll_nil, Option.some.injEq] at checked
      exact checked ▸ .pure _
  | cons t ts ih =>
      obtain ⟨middle, hfirst, rest⟩ := checkAll_cons_eq_some.1 checked
      have runs := h (hts t (by simp)) hfirst
      rw [open_] at runs
      have step : Meets (Holds known) (value run t) (Holds middle) := runs.bind fun _ => .pure _
      exact step.bind fun v => ih (fun t ht => hts t (List.mem_cons_of_mem _ ht)) rest v

/-- A row of statements that a signal may cut short. -/
theorem untilSignal_meets {ts : List Tree} (hts : ∀ t ∈ ts, Derives .statement t)
    (checked : checkAll known ts = some next) :
    Meets (Holds known) (untilSignal run ts) fun _ => True := by
  induction ts generalizing known with
  | nil => exact fun _ _ => trivial
  | cons t ts ih =>
      obtain ⟨middle, hfirst, rest⟩ := checkAll_cons_eq_some.1 checked
      have step : Meets (Holds known) (run t) (Holds middle) := h (hts t (by simp)) hfirst
      refine step.bind fun flow => ?_
      cases flow with
      | normal v => exact ih (fun t ht => hts t (List.mem_cons_of_mem _ ht)) rest
      | leave | next => exact fun _ _ => trivial

theorem entries_meets {ts : List Tree} (hts : ∀ t ∈ ts, Derives .entry t)
    (checked : checkEntries known ts = some next) :
    Meets (Holds known) (entries run ts) (Holds next) := by
  induction ts generalizing known with
  | nil =>
      have same : known = next := by simpa [checkEntries] using checked
      exact same ▸ .pure _
  | cons t ts ih =>
      have others := fun t ht => hts t (List.mem_cons_of_mem _ ht)
      cases hts t (by simp) with
      | bareEntry named =>
          simp only [atom, checkEntries, Option.bind_eq_bind, Option.bind_eq_some_iff] at checked
          obtain ⟨middle, declared, rest⟩ := checked
          rw [entries, entry_bare]
          exact (Exec.declare_meets declared .unit).bind fun _ => ih others rest
      | initializedEntry ha =>
          cases ha with
          | assignment named right =>
              simp only [atom, checkEntries, Option.bind_eq_bind,
                Option.bind_eq_some_iff] at checked
              obtain ⟨initialized, hfirst, middle, declared, rest⟩ := checked
              have same : initialized = known := steady_expression right _ _ hfirst
              have value := expression_meets h right hfirst
              rw [same] at declared
              rw [entries, entry_initialized run _ right.isNode]
              exact (value.bind fun v => Exec.declare_meets declared v).bind fun _ => ih others rest

theorem fold_meets {pairs : List (Token × Tree)} (hpairs : ∀ p ∈ pairs, Derives .expression p.2)
    (checked : checkAll known (Grammar.chained pairs) = some next) (acc : Value) :
    Meets (Holds known) (fold run acc pairs) (Holds known) := by
  induction pairs generalizing acc with
  | nil => exact .pure _
  | cons pair pairs ih =>
      obtain ⟨sign, hsign, checked⟩ := checkAll_cons_eq_some.1 checked
      obtain ⟨operand, hfirst, rest⟩ := checkAll_cons_eq_some.1 checked
      have hright := hpairs pair (by simp)
      rw [steady_leaf _ _ _ hsign] at hfirst
      rw [steady_expression hright _ _ hfirst] at rest
      have others := ih (fun p hp => hpairs p (List.mem_cons_of_mem _ hp)) rest
      exact (expression_meets h hright hfirst).bind fun v =>
        (applyBinary_meets pair.1 acc v).bind others

theorem branches_meets {bs : List Branch} {last : Option (Token × Tree)} (guards : Guards bs last)
    (checked : checkAll known (branched bs ++ closing last) = some next) :
    Meets (Holds known) (branches run (branched bs ++ closing last)) (Holds known) := by
  induction bs with
  | nil =>
      rw [branches_guards_nil run guards]
      cases last with
      | none => exact .pure _
      | some e =>
          obtain ⟨keyword, hkeyword, checked⟩ := checkAll_cons_eq_some.1 checked
          obtain ⟨block, hfirst, -⟩ := checkAll_cons_eq_some.1 checked
          rw [steady_leaf _ _ _ hkeyword] at hfirst
          exact block_meets h (guards.ends e rfl) hfirst
  | cons b bs ih =>
      obtain ⟨keyword, hkeyword, checked⟩ := checkAll_cons_eq_some.1 checked
      obtain ⟨test, hfirst, checked⟩ := checkAll_cons_eq_some.1 checked
      obtain ⟨block, hsecond, rest⟩ := checkAll_cons_eq_some.1 checked
      have htest := guards.tests b (by simp)
      have hblock := guards.blocks b (by simp)
      rw [steady_leaf _ _ _ hkeyword] at hfirst
      rw [steady_expression htest _ _ hfirst] at hsecond
      rw [steady_suite hblock _ _ hsecond] at rest
      rw [branches_guards_cons run guards]
      refine (expression_meets h htest hfirst).bind fun v => ?_
      cases v.toBool with
      | true => exact block_meets h hblock hsecond
      | false => exact ih guards.tail rest

theorem negation_meets (fuel : Nat) {sign : Token} {operand : Tree}
    (hoperand : Derives .expression operand)
    (checked : check known (.node .unary [.leaf sign, operand]) = some next) :
    Meets (Holds known) (visit fuel run (.node .unary [.leaf sign, operand])) (Holds known) := by
  rw [check_node rfl] at checked
  obtain ⟨middle, hfirst, checked⟩ := checkAll_cons_eq_some.1 checked
  obtain ⟨last, hsecond, -⟩ := checkAll_cons_eq_some.1 checked
  rw [steady_leaf _ _ _ hfirst] at hsecond
  rw [visit_negation fuel run _ hoperand.isNode]
  exact (expression_meets h hoperand hsecond).bind fun _ => .pure _

theorem chain_meets (fuel : Nat) {kind : NodeKind} {signs : List String} {left : Tree}
    {links : List (Token × Tree)} (own : Grammar.signsOf kind = some signs)
    (hleft : Derives .expression left) (hlinks : ∀ link ∈ links, Derives .expression link.2)
    (checked : check known (.node kind (left :: Grammar.chained links)) = some next) :
    Meets (Holds known) (visit fuel run (.node kind (left :: Grammar.chained links)))
      (Holds known) := by
  rw [check_node (checksInOrder_of_signsOf own)] at checked
  obtain ⟨middle, hfirst, rest⟩ := checkAll_cons_eq_some.1 checked
  rw [steady_expression hleft _ _ hfirst] at rest
  rw [visit_chain fuel run own hleft.isNode fun link hl => (hlinks link hl).isNode]
  exact (expression_meets h hleft hfirst).bind fun v =>
    (fold_meets h hlinks rest v).bind fun _ => .pure _

theorem conditional_meets (fuel : Nat) {bs : List Branch} {last : Option (Token × Tree)}
    (guards : Guards bs last)
    (checked : check known (.node .conditional (branched bs ++ closing last)) = some next) :
    Meets (Holds known) (visit fuel run (.node .conditional (branched bs ++ closing last)))
      (Holds next) := by
  rw [check_node rfl] at checked
  obtain rfl := checkAll_steady (steady_of_mem_guards guards) checked
  exact branches_meets h guards checked

theorem assignment_meets (fuel : Nat) {name : Token} {right : Tree} (hright : Derives .expression right)
    (checked : check known (.node .assignment [.atom .name name, right]) = some next) :
    Meets (Holds known) (visit fuel run (.node .assignment [.atom .name name, right]))
      (Holds known) := by
  rw [check_node rfl] at checked
  obtain ⟨target, hfirst, checked⟩ := checkAll_cons_eq_some.1 checked
  obtain ⟨middle, hsecond, -⟩ := checkAll_cons_eq_some.1 checked
  obtain ⟨rfl, held⟩ := check_name hfirst
  rw [visit_assignment fuel run _ hright.isNode]
  exact (expression_meets h hright hsecond).bind fun v =>
    (Exec.assign_meets held v).bind fun _ => .pure _

theorem whileLoop_meets (fuel : Nat) {test block : Tree} (htest : Derives .expression test)
    (hblock : Derives .suite block)
    (checked : check known (.node .whileLoop [test, block]) = some next) :
    Meets (Holds known) (visit fuel run (.node .whileLoop [test, block])) (Holds known) := by
  rw [check_node rfl] at checked
  obtain ⟨middle, hfirst, checked⟩ := checkAll_cons_eq_some.1 checked
  obtain ⟨last, hsecond, -⟩ := checkAll_cons_eq_some.1 checked
  rw [steady_expression htest _ _ hfirst] at hsecond
  have condition : Meets (Holds known) (condition run test) (Holds known) :=
    (expression_meets h htest hfirst).bind fun _ => .pure _
  rw [visit_whileLoop fuel run htest.isNode hblock.isNode]
  exact (rounds_meets condition (block_meets h hblock hsecond) (.pure _) fuel).bind fun _ => .pure _

/-- The scope of the header is entered once; all rounds find the names that the start has declared. -/
theorem forLoop_meets (fuel : Nat) (grows : ∀ t, Exec.Keeps Machine.Grows (run t))
    {start test updates block : Tree} (hstart : Derives .forInit start)
    (htest : Derives .forTest test) (hupdates : Derives .forUpdates updates)
    (hblock : Derives .suite block)
    (checked : check known (.node .forLoop [start, test, updates, block]) = some next) :
    Meets (Holds known) (visit fuel run (.node .forLoop [start, test, updates, block]))
      (Holds known) := by
  obtain ⟨-, inner, checked⟩ := check_ownScope (Or.inr rfl) checked
  obtain ⟨header, hfirst, checked⟩ := checkAll_cons_eq_some.1 checked
  obtain ⟨tested, hsecond, checked⟩ := checkAll_cons_eq_some.1 checked
  obtain ⟨updated, hthird, checked⟩ := checkAll_cons_eq_some.1 checked
  obtain ⟨last, hfourth, -⟩ := checkAll_cons_eq_some.1 checked
  obtain rfl := steady_forTest htest _ _ hsecond
  obtain rfl := steady_forUpdates hupdates _ _ hthird
  have begun : Meets (Holds ([] :: known)) (run start) (Holds updated) := h hstart hfirst
  have condition : Meets (Holds updated) (condition run test) (Holds updated) :=
    ((h htest hsecond).bind fun _ => .pure _).bind fun _ => .pure _
  have update : Meets (Holds updated) (do let _ ← run updates : Exec Unit) (Holds updated) :=
    (h hupdates hthird).bind fun _ => .pure _
  have loop := rounds_meets condition (block_meets h hblock hfourth) update fuel
  have whole := (begun.bind fun _ => loop).weaken fun _ _ => trivial
  rw [visit_forLoop fuel run hstart.isNode htest.isNode hupdates.isNode hblock.isNode]
  refine (Exec.inScope_meets whole ?_).bind fun _ => .pure _
  have updateGrows : Exec.Keeps Machine.Grows (do let _ ← run updates : Exec Unit) :=
    (grows updates).bind fun _ => .pure _
  exact (grows start).bind fun _ => rounds_keeps (condition_keeps (grows test))
    (Exec.inScope_keeps (grows block)).grows updateGrows fuel

/-- The start of a counting loop with a part in it. -/
theorem forInit_meets (fuel : Nat) {p : Phrase} (open_ : entered p = id) {part : Tree}
    (hpart : Derives p part) (checked : check known (.node .forInit [part]) = some next) :
    Meets (Holds known) (visit fuel run (.node .forInit [part])) (Holds next) := by
  have row := List.forall_mem_singleton.2 hpart
  rw [check_node rfl] at checked
  rw [visit_forInit fuel run (Derives.isNode_of_mem row)]
  exact (lastValue_meets h open_ row checked .unit).bind fun _ => .pure _

/-- One step of the run keeps the invariant. -/
theorem visit_meets (fuel : Nat) (grows : ∀ t, Exec.Keeps Machine.Grows (run t)) :
    RunsChecked (visit fuel run) := by
  intro p t known next ht checked
  induction ht with
  | atom own =>
      obtain rfl := steady_expression (.atom own) _ _ checked
      exact atom_meets fuel run own checked
  | @bareEntry name named =>
      obtain ⟨rfl, -⟩ := check_name checked
      have own : Grammar.operandKind name.kind = some .name := by
        rw [named]
        rfl
      exact atom_meets fuel run own checked
  | negation sign operand =>
      obtain rfl := steady_expression (.negation sign operand) _ _ checked
      exact negation_meets h fuel operand checked
  | chain own nonempty signs left right =>
      obtain rfl := steady_expression (.chain own nonempty signs left right) _ _ checked
      exact chain_meets h fuel own left right checked
  | assignment named right =>
      obtain rfl := steady_assignment (.assignment named right) _ _ checked
      exact assignment_meets h fuel right checked
  | declaration parts =>
      rw [visit_declaration fuel run (Derives.isNode_of_mem parts)]
      rw [check_declaration] at checked
      exact (entries_meets h parts checked).bind fun _ => .pure _
  | printing operand =>
      rw [check_node rfl, checkAll_singleton] at checked
      obtain rfl := steady_expression operand _ _ checked
      rw [visit_printing fuel run operand.isNode]
      exact (expression_meets h operand checked).bind fun v =>
        (Exec.print_meets v.text).bind fun _ => .pure _
  | jump _ =>
      rw [check_node rfl, checkAll_singleton] at checked
      obtain rfl := steady_leaf _ _ _ checked
      exact .pure _
  | conditional opens elifs closes tests blocks ends =>
      exact conditional_meets h fuel (.of_keywords opens elifs closes tests blocks ends) checked
  | @whileLoop test block htest hblock =>
      have parts : ∀ t ∈ [test, block], Steady t := by
        simp [steady_expression htest, steady_suite hblock]
      obtain rfl := steady_node rfl parts _ _ checked
      exact whileLoop_meets h fuel htest hblock checked
  | forLoop start test updates block =>
      obtain ⟨rfl, -⟩ := check_ownScope (Or.inr rfl) checked
      exact forLoop_meets h fuel grows start test updates block checked
  | noStart | noTest =>
      rw [check_node rfl, checkAll_nil, Option.some.injEq] at checked
      exact checked ▸ .pure _
  | declaringStart part => exact forInit_meets h fuel rfl part checked
  | assigningStart part => exact forInit_meets h fuel rfl part checked
  | test part =>
      rw [check_node rfl, checkAll_singleton] at checked
      obtain rfl := steady_expression part _ _ checked
      rw [visit_test fuel run part.isNode]
      exact (expression_meets h part checked).bind fun _ => .pure _
  | updates parts =>
      rw [check_node rfl] at checked
      rw [visit_forUpdates fuel run (Derives.isNode_of_mem parts)]
      exact (lastValue_meets h rfl parts checked .unit).bind fun _ => .pure _
  | suite parts =>
      obtain ⟨rfl, inner, checked⟩ := check_ownScope (Or.inl rfl) checked
      have whole := untilSignal_meets h parts checked
      rw [visit_suite fuel run (Derives.isNode_of_mem parts)]
      exact Exec.inScope_meets whole (untilSignal_keeps fun t _ => grows t)
  | program parts =>
      rw [check_node rfl] at checked
      rw [visit_program fuel run (Derives.isNode_of_mem parts)]
      exact (lastValue_meets h rfl parts checked .unit).bind fun _ => .pure _
  | initializedEntry _ ih | ofExpression _ ih | ofDeclaration _ ih | ofAssignment _ ih =>
      exact ih checked

end Parts

/-- A whole run keeps the invariant. -/
theorem exec_meets (fuel : Nat) : RunsChecked (exec fuel) := by
  induction fuel with
  | zero =>
      intro p t known next ht checked
      cases p <;> exact fun _ _ => trivial
  | succ fuel ih => exact visit_meets ih fuel (exec_keeps_grows fuel)

end Eval

/-- A program that passes the check can only fail with a remainder by zero. -/
theorem startWith_divisionByZero {ts : List Token} {t : Tree} (made : Tree.ofTokens ts = .ok t)
    (passes : t.wellScoped = true) {fuel : Nat} {m after : Machine} {d : Diagnostic}
    (fails : Machine.startWith fuel t m = .failed d after) : d.kind = .divisionByZero := by
  obtain ⟨next, checked⟩ := Option.isSome_iff_exists.1 passes
  have meets := Eval.exec_meets fuel (Grammar.ofTokens_derives made) checked
  have whole : Exec.Meets (Machine.Holds [[]]) (do let _ ← Eval.exec fuel t : Exec Unit)
      (Machine.Holds next) := meets.bind fun _ => .pure ()
  exact whole.kind_of_failed (m := { m with env := Env.empty.push }) rfl fails

/-- A counting loop whose block declares the name of the limit once more, with a remainder by the
counter as its value, and then leaves the loop. -/
def shadowedLimit : List Token :=
  [⟨.keyword, "decl", ⟨1, 1⟩⟩, ⟨.name, "limit", ⟨1, 6⟩⟩, ⟨.operator, "=", ⟨1, 12⟩⟩,
    ⟨.boolean, "true", ⟨1, 14⟩⟩, ⟨.keyword, "for", ⟨2, 1⟩⟩, ⟨.delimiter, "(", ⟨2, 5⟩⟩,
    ⟨.keyword, "decl", ⟨2, 6⟩⟩, ⟨.name, "i", ⟨2, 11⟩⟩, ⟨.operator, "=", ⟨2, 13⟩⟩,
    ⟨.boolean, "false", ⟨2, 15⟩⟩, ⟨.delimiter, ";", ⟨2, 20⟩⟩, ⟨.name, "limit", ⟨2, 22⟩⟩,
    ⟨.delimiter, ";", ⟨2, 27⟩⟩, ⟨.name, "i", ⟨2, 29⟩⟩, ⟨.operator, "=", ⟨2, 31⟩⟩,
    ⟨.boolean, "true", ⟨2, 33⟩⟩, ⟨.delimiter, ")", ⟨2, 37⟩⟩, ⟨.delimiter, "\x7b", ⟨2, 39⟩⟩,
    ⟨.keyword, "decl", ⟨3, 1⟩⟩, ⟨.name, "limit", ⟨3, 6⟩⟩, ⟨.operator, "=", ⟨3, 12⟩⟩,
    ⟨.name, "limit", ⟨3, 14⟩⟩, ⟨.operator, "%", ⟨3, 20⟩⟩, ⟨.name, "i", ⟨3, 22⟩⟩,
    ⟨.keyword, "break", ⟨4, 1⟩⟩, ⟨.delimiter, "\x7d", ⟨5, 1⟩⟩]

/-- The tree of `shadowedLimit`. -/
def shadowedLimitTree : Tree :=
  .node .program
    [.node .declaration
      [.node .assignment
        [.atom .name ⟨.name, "limit", ⟨1, 6⟩⟩, .atom .boolean ⟨.boolean, "true", ⟨1, 14⟩⟩]],
      .node .forLoop
        [.node .forInit
          [.node .declaration
            [.node .assignment
              [.atom .name ⟨.name, "i", ⟨2, 11⟩⟩, .atom .boolean ⟨.boolean, "false", ⟨2, 15⟩⟩]]],
          .node .forTest [.atom .name ⟨.name, "limit", ⟨2, 22⟩⟩],
          .node .forUpdates
            [.node .assignment
              [.atom .name ⟨.name, "i", ⟨2, 29⟩⟩, .atom .boolean ⟨.boolean, "true", ⟨2, 33⟩⟩]],
          .node .suite
            [.node .declaration
              [.node .assignment
                [.atom .name ⟨.name, "limit", ⟨3, 6⟩⟩,
                  .node .product
                    [.atom .name ⟨.name, "limit", ⟨3, 14⟩⟩, .leaf ⟨.operator, "%", ⟨3, 20⟩⟩,
                      .atom .name ⟨.name, "i", ⟨3, 22⟩⟩]]],
              .node .jump [.leaf ⟨.keyword, "break", ⟨4, 1⟩⟩]]]]

/-- The loop passes the check, and fails in its first round. -/
theorem startWith_divisionByZero_shadowedLimit :
    Tree.ofTokens shadowedLimit = .ok shadowedLimitTree ∧ shadowedLimitTree.wellScoped = true ∧
      ∃ d after, Machine.startWith 9 shadowedLimitTree {} = .failed d after ∧
        d.kind = .divisionByZero := by
  have made : Tree.ofTokens shadowedLimit = .ok shadowedLimitTree := by
    rfl
  have passes : shadowedLimitTree.wellScoped = true := by
    rfl
  obtain ⟨d, after, fails⟩ : ∃ d after,
      Machine.startWith 9 shadowedLimitTree {} = .failed d after :=
    ⟨_, _, rfl⟩
  exact ⟨made, passes, d, after, fails, startWith_divisionByZero made passes fails⟩

end EmojiLang
