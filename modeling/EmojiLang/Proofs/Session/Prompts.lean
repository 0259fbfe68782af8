import EmojiLang.Proofs.Eval.Blame
import EmojiLang.Proofs.Scope.Discipline
import EmojiLang.Proofs.Session.Requests
import Mathlib.Data.List.DropRight

/-!
# The scopes of a session

Between its requests a session keeps one stack of scopes.  It is changed by the programs of its inputs and
by commands to reset, and by nothing else: blank inputs, inputs that cannot be read and all other commands
leave it as it is.  A program that fails leaves what it has done before, but no scope of a block.

**Definitions.**
* `Machine.attemptAll`: programs run one after the other on one machine, whether or not they fail.
* `Session.sinceReset` and `Session.treesOf`: the requests behind the last reset, and their programs.

**Method.**  For the scopes it does not matter how a program is spelled, what has been printed, what has been
traced and in which order names are given: `Simulation.scopes` says so.  This takes care of plain spelling,
which can be switched off, and of the output, which a session takes away after each input.

**Results.**
* `prompt_leaves`: the scopes at a prompt are those that the programs since the last reset leave behind.
* `feedAll_splits`: what a session does with its lines, and the scopes at each of its prompts.
-/

namespace EmojiLang

/-- For the scopes it matters neither how a program is spelled, nor what has been printed and traced, nor in which
order the names are given. -/
def Simulation.scopes : Simulation where
  tokens := Token.EquivalentInPlace
  machines _ m n := m.env = n.env
  causes _ _ := True
  kind_eq := (respelling (respectsPlaces_eq .declared)).kind_eq
  plain_eq := (respelling (respectsPlaces_eq .declared)).plain_eq
  literal_eq := (respelling (respectsPlaces_eq .declared)).literal_eq
  remainder _ _ _ := trivial
  lookup related named := by
    intro depth m n same
    have text := related.1.text_eq (by rw [named]; rfl)
    simp only [Exec.lookup, Env.lookup, text, related.2, same]
    cases n.env.get? _ with
    | some v => exact .done same
    | none => exact .failed trivial same
  declare v related named := by
    intro depth m n same
    have text := related.1.text_eq (by rw [named]; rfl)
    simp only [Exec.declare, text, related.2, same]
    cases n.env.declare _ _ _ with
    | ok env => exact .done rfl
    | error d => exact .failed trivial same
  assign v related named := by
    intro depth m n same
    have text := related.1.text_eq (by rw [named]; rfl)
    simp only [Exec.assign, Env.assign, text, related.2, same]
    cases Env.assign? _ v n.env with
    | some env => exact .done rfl
    | none => exact .failed trivial same
  print text := fun _ _ _ same => .done same
  push same := congrArg Env.push same
  pop same := congrArg Env.pop same

/-- A program that has been read does the same to the same scopes, in plain spelling or not. -/
theorem continueWith_scopes (fuel : Nat) (plain : Bool) {input : String} {t : Tree}
    (made : Tree.ofSource input = .ok t) {m n : Machine} (same : m.env = n.env) :
    Outcome.Related (fun m n => m.env = n.env) (fun _ _ => True) (Machine.continueWith fuel t m)
      (Machine.continueWith fuel (if plain then t.plain else t) n) := by
  have alike : Tree.Alike Token.EquivalentInPlace t (if plain then t.plain else t) := by
    cases plain with
    | true => exact Tree.alike_mapTokens Token.equivalentInPlace_plain t
    | false => exact Tree.alike_self fun a _ => Token.equivalentInPlace_self a
  refine Simulation.value_simulates (Simulation.scopes.exec_simulates fuel)
    (Grammar.ofTokens_derives made) alike 0 _ _ ?_
  change (if m.env.isEmpty then m.env.push else m.env) = if n.env.isEmpty then n.env.push else n.env
  rw [same]

/-- Runs programs one after the other on one machine, whether or not they fail.  A program that fails
leaves what it has done before. -/
def Machine.attemptAll (fuel : Nat) : List Tree → Machine → Option Machine
  | [], m => some m
  | t :: ts, m =>
      match continueWith fuel t m with
      | .done _ after => attemptAll fuel ts after
      | .failed _ after => attemptAll fuel ts after
      | .outOfFuel => none

theorem Machine.attemptAll_append (fuel : Nat) (ts us : List Tree) (m : Machine) :
    attemptAll fuel (ts ++ us) m = (attemptAll fuel ts m).bind (attemptAll fuel us) := by
  induction ts generalizing m with
  | nil => rfl
  | cons t ts ih =>
      rw [List.cons_append, attemptAll, attemptAll]
      cases continueWith fuel t m with
      | done _ after => exact ih after
      | failed _ after => exact ih after
      | outOfFuel => rfl

/-- Between programs there is at most one scope. -/
theorem Machine.length_le_one_of_attemptAll {fuel : Nat} {ts : List Tree} {m after : Machine}
    (top : m.env.length ≤ 1) (ran : attemptAll fuel ts m = some after) : after.env.length ≤ 1 := by
  induction ts generalizing m with
  | nil =>
      simp only [attemptAll, Option.some.injEq] at ran
      exact ran ▸ top
  | cons t ts ih =>
      rw [attemptAll] at ran
      have step {mid : Machine} (ends : (continueWith fuel t m).EndsIn mid) : mid.env.length ≤ 1 :=
        Nat.le_of_eq (Continues.length_eq_one ⟨fuel, t, m, rfl, ends⟩ top)
      split at ran
      · next v mid ended => exact ih (step (Or.inl ⟨v, ended⟩)) ran
      · next d mid ended => exact ih (step (Or.inr ⟨d, ended⟩)) ran
      · cases ran

namespace Session

/-- A command to reset the session. -/
def Request.isReset : Request → Bool
  | .command text => decide (Command.ofText text = .reset)
  | .input _ => false

/-- The program of an input that is not blank and can be read. -/
def Request.tree? : Request → Option Tree
  | .command _ => none
  | .input text => if Text.isBlank text then none else (Tree.ofSource text).toOption

/-- The requests behind the last reset. -/
def sinceReset (requests : List Request) : List Request :=
  requests.rtakeWhile fun request => !request.isReset

theorem sinceReset_cons (request : Request) (requests : List Request) :
    sinceReset (request :: requests) =
      if requests.any Request.isReset then sinceReset requests
      else if request.isReset then requests
      else request :: requests := by
  induction requests using List.reverseRecOn with
  | nil =>
      cases resets : request.isReset <;> simp [sinceReset, List.rtakeWhile, resets]
  | append_singleton requests last ih =>
      rw [← List.cons_append, sinceReset, sinceReset, List.rtakeWhile_concat, List.rtakeWhile_concat]
      rw [sinceReset, sinceReset] at ih
      cases resets : last.isReset with
      | true => simp [resets]
      | false =>
          simp only [ih, List.any_append, List.any_cons, List.any_nil, resets, Bool.or_false,
            Bool.not_false, if_true]
          cases requests.any Request.isReset <;> cases request.isReset <;> rfl

/-- A request other than a reset attempts its program, if it has one; a reset puts a new machine in
place. -/
theorem perform_scopes {fuel : Nat} {s next : Session} {request : Request} {written : Console}
    (answered : s.perform fuel request = some (.goOn next, written)) {m : Machine}
    (same : m.env = s.machine.env) :
    ∃ after, Machine.attemptAll fuel request.tree?.toList (if request.isReset then {} else m) =
        some after ∧ after.env = next.machine.env := by
  cases request with
  | command text =>
      simp only [perform, Option.some.injEq] at answered
      cases named : Command.ofText text <;> simp [named, obey] at answered <;>
        simp [Request.tree?, Request.isReset, named, Machine.attemptAll, ← answered.1, same]
  | input text =>
      simp only [perform, Option.map_eq_some_iff] at answered
      obtain ⟨⟨last, console⟩, ran, ends⟩ := answered
      injection ends with ends _
      injection ends with ends
      subst ends
      rw [Request.isReset, if_neg Bool.false_ne_true, Request.tree?]
      unfold runInput at ran
      split at ran
      · next blank =>
          injection ran with ran
          injection ran with ran _
          exact ⟨m, by simp [blank, Machine.attemptAll], ran ▸ same⟩
      · next filled =>
          rw [if_neg filled]
          cases made : Tree.ofSource text with
          | error d =>
              simp only [made, Option.some.injEq, Prod.mk.injEq] at ran
              exact ⟨m, rfl, ran.1 ▸ same⟩
          | ok t =>
              have alike := continueWith_scopes fuel s.normalize made (n := fresh s.machine) same
              simp only [made] at ran
              simp only [Except.toOption, Option.toList_some, Machine.attemptAll]
              generalize Machine.continueWith fuel t m = o,
                Machine.continueWith fuel (if s.normalize = true then t.plain else t) (fresh s.machine) =
                  o' at alike ran
              cases alike with
              | done scopes =>
                  simp only [Option.some.injEq, Prod.mk.injEq] at ran
                  exact ⟨_, rfl, by rw [scopes, ← ran.1]; rfl⟩
              | failed _ scopes =>
                  simp only [Option.some.injEq, Prod.mk.injEq] at ran
                  exact ⟨_, rfl, by rw [scopes, ← ran.1]; rfl⟩
              | outOfFuel => cases ran

/-- The programs of requests. -/
def treesOf (requests : List Request) : List Tree := requests.filterMap Request.tree?

theorem treesOf_cons (request : Request) (requests : List Request) :
    treesOf (request :: requests) = request.tree?.toList ++ treesOf requests := by
  rw [treesOf, List.filterMap_cons]
  cases request.tree? <;> rfl

/-- On a machine with the scopes of the first session, or on a new one if there is a reset, the programs
since the last reset leave the scopes of the other session. -/
def Leaves (fuel : Nat) (requests : List Request) (s next : Session) : Prop :=
  ∀ m : Machine, m.env = s.machine.env →
    ∃ after, Machine.attemptAll fuel (treesOf (sinceReset requests))
        (if requests.any Request.isReset then {} else m) = some after ∧ after.env = next.machine.env

theorem leaves_nil {fuel : Nat} {s next : Session} (same : s.machine = next.machine) :
    Leaves fuel [] s next :=
  fun m scopes => ⟨m, rfl, same ▸ scopes⟩

theorem Leaves.cons {fuel : Nat} {s mid next : Session} {request : Request} {requests : List Request}
    {written : Console} (answered : s.perform fuel request = some (.goOn mid, written))
    (h : Leaves fuel requests mid next) : Leaves fuel (request :: requests) s next := by
  intro m scopes
  obtain ⟨first, attempted, scopes⟩ := perform_scopes answered scopes
  obtain ⟨after, ran, scopes⟩ := h first scopes
  refine ⟨after, ?_, scopes⟩
  rw [sinceReset_cons, List.any_cons]
  cases later : requests.any Request.isReset with
  | true =>
      rw [later] at ran
      simpa using ran
  | false =>
      have whole : sinceReset requests = requests := by
        refine List.rtakeWhile_eq_self_iff.2 fun r mem => ?_
        simpa using List.any_eq_false.1 later r mem
      rw [later, whole] at ran
      cases resets : request.isReset with
      | true =>
          -- a reset has no program, so the machine is still the new one
          have treeless : request.tree? = none := by
            cases request with
            | command text => rfl
            | input text => cases resets
          rw [resets, treeless] at attempted
          simp only [if_true, Option.toList_none, Machine.attemptAll, Option.some.injEq] at attempted
          subst attempted
          simpa using ran
      | false =>
          rw [resets, if_neg Bool.false_ne_true] at attempted
          simpa [treesOf_cons, Machine.attemptAll_append, attempted] using ran

theorem prompt_cons {fuel : Nat} {s next : Session} {line : String} {rest : List String}
    {written : Console} (reached : prompt fuel s (line :: rest) = some (next, written)) :
    ∃ mid first more, s.feed fuel line = some (.goOn mid, first) ∧
      prompt fuel mid rest = some (next, more) := by
  rw [prompt] at reached
  split at reached
  · next mid first answered =>
      rw [Option.map_eq_some_iff] at reached
      obtain ⟨⟨last, more⟩, reached, same⟩ := reached
      injection same with same _
      exact ⟨mid, first, more, answered, same ▸ reached⟩
  · cases reached

/-- The scopes at a prompt are those that the programs since the last reset leave behind. -/
theorem prompt_leaves {fuel : Nat} {read : List String} {handed : List Request}
    (h : Splits read handed) {s next : Session} {written : Console} (idle : s.pending = "")
    (reached : prompt fuel s read = some (next, written)) : Leaves fuel handed s next := by
  induction h generalizing s written with
  | @dropped lines gathers =>
      have waits := @prompt_of_gathers fuel s [] lines gathers
      rw [joined, ← idle] at waits
      cases waits.symm.trans reached
      exact leaves_nil rfl
  | quit isColon quits =>
      obtain ⟨mid, first, more, answered, -⟩ := prompt_cons reached
      rw [feed_of_isCommand fuel s idle isColon] at answered
      simp [perform, quits, obey] at answered
  | command isColon _ _ ih =>
      obtain ⟨mid, first, more, answered, reached⟩ := prompt_cons reached
      rw [feed_of_isCommand fuel s idle isColon] at answered
      exact .cons answered (ih ((perform_pending fuel s answered).trans idle) reached)
  | @input begun rest line requests gathers first complete _ ih =>
      have waits := @prompt_of_gathers fuel s [] begun gathers
      rw [joined, ← idle] at waits
      rw [prompt_append] at reached
      change prompt fuel s begun = _ at waits
      simp only [waits, Option.bind_some, Option.map_eq_some_iff] at reached
      obtain ⟨⟨last, more⟩, reached, same⟩ := reached
      injection same with same _
      subst same
      obtain ⟨mid, first', more, answered, reached⟩ := prompt_cons reached
      rw [List.nil_append, feed_of_complete fuel s idle first complete] at answered
      exact .cons answered (ih ((perform_pending fuel s answered).trans idle) reached)

/-- The lines of a session fall into requests in exactly one way, and the session answers these requests,
each of them once and in order.  At every prompt the lines read so far fall into the first of these
requests, the session goes on from there, and its scopes, of which there is at most one, are those that
the programs since the last reset leave behind when they are run one after the other on a new machine,
whether or not they fail. -/
theorem feedAll_splits (o : Options) (order : NameOrder) (lines : List String) :
    ∃ requests, Splits lines requests ∧ (∀ others, Splits lines others → others = requests) ∧
      (∀ fuel console, feedAll fuel (start o order) console (lines.map some) =
        performAll fuel (start o order) console requests) ∧
      ∀ fuel read rest next written, lines = read ++ rest →
        prompt fuel (start o order) read = some (next, written) →
          (∀ console, feedAll fuel (start o order) console (lines.map some) =
            feedAll fuel next (console ++ written) (rest.map some)) ∧
          ∃ handed after, Splits read handed ∧ handed <+: requests ∧
            Machine.attemptAll fuel (treesOf (sinceReset handed)) {} = some after ∧
              next.machine.env = after.env ∧ next.machine.env.length ≤ 1 := by
  refine ⟨split [] lines, splits_iff.2 rfl, fun others h => (splits_iff.1 h).symm, ?_, ?_⟩
  · exact fun fuel console => feedAll_eq_performAll fuel _ (splits_iff.2 rfl) rfl console
  · rintro fuel read rest next written rfl reached
    have handed : Splits read (split [] read) := splits_iff.2 rfl
    obtain ⟨after, ran, scopes⟩ := prompt_leaves handed rfl reached {} rfl
    rw [ite_self] at ran
    refine ⟨fun console => ?_, _, after, handed, handed.prefix rest, ran, scopes.symm, ?_⟩
    · rw [List.map_append]
      exact feedAll_append fuel _ reached _ console
    · rw [← scopes]
      exact Machine.length_le_one_of_attemptAll (m := {}) (Nat.zero_le 1) ran

/-- An input of two lines, a reset, an input that fails behind an assignment, and a last one. -/
def resetSession : List String :=
  ["decl n = 1", "if (n) \x7b", "n = 2 \x7d", ":reset", "decl k = 5", "k = 7 print(n)", "print(k)"]

/-- The lines but the last one of `resetSession` make up five requests.  At the prompt behind them the session has
the scopes of the two programs since the reset, the second of which has failed. -/
theorem feedAll_splits_resetSession :
    ∃ requests handed next written after, Splits resetSession requests ∧ handed <+: requests ∧
      handed = [.input "decl n = 1\n", .input "if (n) \x7b\nn = 2 \x7d\n", .command ":reset",
        .input "decl k = 5\n", .input "k = 7 print(n)\n"] ∧
      feedAll 9 (start {} .newestFirst) .empty (resetSession.map some) =
        performAll 9 (start {} .newestFirst) .empty requests ∧
      prompt 9 (start {} .newestFirst) (resetSession.take 6) = some (next, written) ∧
      feedAll 9 (start {} .newestFirst) .empty (resetSession.map some) = feedAll 9 next written [some "print(k)"] ∧
      Machine.attemptAll 9 (treesOf (sinceReset handed)) {} = some after ∧
      next.machine.env = after.env ∧ after.env = [[("k", .int 7)]] := by
  obtain ⟨requests, splits, -, performs, prompts⟩ := feedAll_splits {} .newestFirst resetSession
  have scopes : (prompt 9 (start {} .newestFirst) (resetSession.take 6)).map (fun p => p.1.machine.env) =
      some [[("k", .int 7)]] := by
    decide +kernel
  obtain ⟨⟨next, written⟩, reached, bound⟩ := Option.map_eq_some_iff.1 scopes
  obtain ⟨goesOn, handed, after, parts, begins, ran, same, -⟩ :=
    prompts 9 _ ["print(k)"] next written rfl reached
  have five : split [] (resetSession.take 6) = [.input "decl n = 1\n", .input "if (n) \x7b\nn = 2 \x7d\n",
      .command ":reset", .input "decl k = 5\n", .input "k = 7 print(n)\n"] := by
    decide +kernel
  exact ⟨requests, handed, next, written, after, splits, begins, (splits_iff.1 parts).symm.trans five,
    performs 9 .empty, reached, goesOn .empty, ran, same, same ▸ bound⟩

end Session

end EmojiLang
