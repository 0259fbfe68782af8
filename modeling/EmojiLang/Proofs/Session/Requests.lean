import EmojiLang.Session

/-!
# What a session makes of its lines

The lines of a session fall into requests.  Where nothing is pending, a line that begins with a colon is a
command; otherwise the shortest row of lines that is complete is an input.  Lines that never become complete
are dropped, and so is everything behind a command to quit.

**Definitions.**
* `Session.Splits`: the requests that a list of lines falls into.
* `Session.split`: the same, computed line by line.
* `Session.performAll`: a session that is given the requests themselves.
* `Session.prompt`: the session that waits for the next line.

**Method.**  A row of lines that is not complete moves nothing but the pending text.  So a session that
takes in the lines of a request one by one ends up where it would be if it were given the request at once.

**Results.**
* `splits_iff`: there is exactly one way to split lines.
* `feedAll_append`: a session goes on from any of its prompts.
* `feedAll_eq_performAll`: a session answers its requests, each of them once and in order.
-/

namespace EmojiLang

namespace Session

/-- What a session is asked to do. -/
inductive Request where
  | command (text : String)
  | input (text : String)
deriving DecidableEq, Repr

/-- The line is a command, if nothing is pending. -/
def isCommand (line : String) : Bool := (Text.trim line).startsWith ":"

/-- The text of several lines. -/
def joined : List String → String
  | [] => ""
  | line :: rest => line ++ "\n" ++ joined rest

/-- The lines are the beginning of an input, no part of which is complete. -/
def Gathers (lines : List String) : Prop :=
  (∀ line ∈ lines.head?, isCommand line = false) ∧
    ∀ begun, begun ≠ [] → begun <+: lines → isComplete (joined begun) = false

/-- The requests that lines fall into: commands where nothing is pending, and otherwise the shortest rows
of lines that are complete. -/
inductive Splits : List String → List Request → Prop
  | dropped {lines : List String} : Gathers lines → Splits lines []
  | quit {line : String} {rest : List String} :
      isCommand line = true → Command.ofText (Text.trim line) = .quit →
        Splits (line :: rest) [.command (Text.trim line)]
  | command {line : String} {rest : List String} {requests : List Request} :
      isCommand line = true → Command.ofText (Text.trim line) ≠ .quit → Splits rest requests →
        Splits (line :: rest) (.command (Text.trim line) :: requests)
  | input {begun rest : List String} {line : String} {requests : List Request} :
      Gathers begun → (begun = [] → isCommand line = false) →
        isComplete (joined (begun ++ [line])) = true → Splits rest requests →
          Splits (begun ++ line :: rest) (.input (joined (begun ++ [line])) :: requests)

/-- The requests of lines that follow on those of an input already begun. -/
def split (begun : List String) : List String → List Request
  | [] => []
  | line :: rest =>
      if begun.isEmpty && isCommand line then
        .command (Text.trim line) ::
          (if Command.ofText (Text.trim line) = .quit then [] else split [] rest)
      else if isComplete (joined (begun ++ [line])) then
        .input (joined (begun ++ [line])) :: split [] rest
      else
        split (begun ++ [line]) rest

section Gathering

theorem joined_concat (lines : List String) (line : String) :
    joined (lines ++ [line]) = joined lines ++ line ++ "\n" := by
  induction lines with
  | nil => simp [joined]
  | cons first lines ih => simp [joined, ih, String.append_assoc]

theorem isEmpty_joined (lines : List String) : (joined lines).isEmpty = lines.isEmpty := by
  cases lines with
  | nil => rfl
  | cons first lines => simp [joined]

theorem gathers_nil : Gathers [] :=
  ⟨by simp, fun begun nonempty part => absurd (List.prefix_nil.1 part) nonempty⟩

/-- A line that completes nothing is gathered with those before it. -/
theorem Gathers.concat {begun : List String} {line : String} (h : Gathers begun)
    (first : begun = [] → isCommand line = false)
    (incomplete : isComplete (joined (begun ++ [line])) = false) : Gathers (begun ++ [line]) := by
  constructor
  · intro head holds
    cases begun with
    | nil =>
        have same : line = head := by simpa using holds
        exact same ▸ first rfl
    | cons head' begun => exact h.1 head (by simpa using holds)
  · intro shorter nonempty part
    rcases List.prefix_concat_iff.1 part with rfl | part
    · exact incomplete
    · exact h.2 shorter nonempty part

theorem Gathers.not_command {begun rest : List String} {line : String}
    (h : Gathers (begun ++ line :: rest)) : (begun.isEmpty && isCommand line) = false := by
  cases begun with
  | nil => simpa using h.1 line (by simp)
  | cons head begun => rfl

theorem Gathers.incomplete {begun rest : List String} {line : String}
    (h : Gathers (begun ++ line :: rest)) : isComplete (joined (begun ++ [line])) = false :=
  h.2 _ (by simp) ⟨rest, by simp⟩

theorem split_append {begun lines : List String} (h : Gathers (begun ++ lines))
    (rest : List String) : split begun (lines ++ rest) = split (begun ++ lines) rest := by
  induction lines generalizing begun with
  | nil => simp
  | cons line lines ih =>
      have gathered : Gathers ((begun ++ [line]) ++ lines) := by
        simpa using h
      rw [List.cons_append, split, h.not_command, h.incomplete]
      simpa using ih gathered

theorem split_of_gathers {lines : List String} (h : Gathers lines) (rest : List String) :
    split [] (lines ++ rest) = split lines rest :=
  @split_append [] lines h rest

theorem splits_split {begun : List String} (lines : List String) (h : Gathers begun) :
    Splits (begun ++ lines) (split begun lines) := by
  induction lines generalizing begun with
  | nil =>
      rw [List.append_nil, split]
      exact .dropped h
  | cons line lines ih =>
      rw [split]
      split
      · next isColon =>
          simp only [Bool.and_eq_true, List.isEmpty_iff] at isColon
          obtain ⟨rfl, isColon⟩ := isColon
          split
          · next quits => exact .quit isColon quits
          · next goesOn => exact .command isColon goesOn (ih gathers_nil)
      · next noColon =>
          have first : begun = [] → isCommand line = false := by
            rintro rfl
            simpa using noColon
          split
          · next complete => exact .input h first complete (ih gathers_nil)
          · next incomplete =>
              have more := ih (h.concat first (Bool.eq_false_iff.2 incomplete))
              rwa [List.append_assoc] at more

/-- There is exactly one way to split lines. -/
theorem splits_iff {lines : List String} {requests : List Request} :
    Splits lines requests ↔ split [] lines = requests := by
  constructor
  · intro h
    induction h with
    | dropped gathers =>
        simpa [split] using split_of_gathers gathers []
    | quit isColon quits =>
        simp [split, isColon, quits]
    | command isColon goesOn _ ih =>
        simp [split, isColon, goesOn, ih]
    | @input begun rest line requests gathers first complete _ ih =>
        have noColon : (begun.isEmpty && isCommand line) = false := by
          cases begun with
          | nil => simpa using first rfl
          | cons head begun => rfl
        rw [split_of_gathers gathers, split, noColon, complete, ih]
        rfl
  · rintro rfl
    exact splits_split lines gathers_nil

/-- The requests of the first lines are the first requests of all lines. -/
theorem Splits.prefix {read : List String} {handed : List Request} (h : Splits read handed)
    (rest : List String) : handed <+: split [] (read ++ rest) := by
  induction h with
  | dropped _ => exact List.nil_prefix
  | quit isColon quits => simp [split, isColon, quits]
  | command isColon goesOn _ ih => simpa [split, isColon, goesOn] using ih
  | @input begun read line requests gathers first complete _ ih =>
      have whole : Splits (begun ++ line :: (read ++ rest)) _ :=
        .input gathers first complete (splits_iff.2 rfl)
      rw [List.append_assoc, List.cons_append, splits_iff.1 whole]
      simpa using ih

/-- A colon inside of an input begins no command, and what is left at the end is dropped. -/
example :
    split [] ["decl n = 1", " :reset ", "if (n) \x7b", ":vars \x7d", "n (", ":quit"] =
      [.input "decl n = 1\n", .command ":reset", .input "if (n) \x7b\n:vars \x7d\n"] := by
  decide +kernel

end Gathering

section Answers

/-- Answers a request. -/
def perform (fuel : Nat) (s : Session) : Request → Option (Reaction × Console)
  | .command text => some (s.obey (Command.ofText text))
  | .input text => (runInput fuel s text).map fun (after, console) => (.goOn after, console)

/-- Answers requests until the session ends. -/
def performAll (fuel : Nat) : Session → Console → List Request → Option Console
  | _, console, [] => some (console.print ("\n" ++ farewell))
  | s, console, request :: requests =>
      match s.perform fuel request with
      | none => none
      | some (.close, written) => some (console ++ written)
      | some (.goOn next, written) => performAll fuel next (console ++ written) requests

/-- The session that has taken in lines and waits for the next one, with what it has written. -/
def prompt (fuel : Nat) : Session → List String → Option (Session × Console)
  | s, [] => some (s, .empty)
  | s, line :: rest =>
      match s.feed fuel line with
      | some (.goOn next, written) =>
          (prompt fuel next rest).map fun (last, more) => (last, written ++ more)
      | _ => none

variable (fuel : Nat) (s : Session)

/-- What is pending has no part in running an input. -/
theorem runInput_pending (text input : String) :
    runInput fuel { s with pending := text } input =
      (runInput fuel s input).map fun (after, console) => ({ after with pending := text }, console) := by
  unfold runInput
  cases Text.isBlank input with
  | true => rfl
  | false =>
      cases Tree.ofSource input with
      | error d => rfl
      | ok tree =>
          simp only [Bool.false_eq_true, if_false]
          cases Machine.continueWith fuel (if s.normalize = true then tree.plain else tree)
            (fresh s.machine) <;> rfl

/-- A line is taken for a command, makes an input complete, or is added to what is pending. -/
theorem feed_joined (begun : List String) (line : String) :
    feed fuel { s with pending := joined begun } line =
      if begun.isEmpty && isCommand line then
        perform fuel { s with pending := joined begun } (.command (Text.trim line))
      else if isComplete (joined (begun ++ [line])) then
        perform fuel { s with pending := "" } (.input (joined (begun ++ [line])))
      else some (.goOn { s with pending := joined (begun ++ [line]) }, .empty) := by
  rw [joined_concat]
  unfold feed perform
  rw [isEmpty_joined]
  refine ite_congr rfl (fun _ => rfl) fun _ => ite_congr rfl (fun _ => ?_) fun _ => rfl
  simp only
  rw [runInput_pending fuel s (joined begun), runInput_pending fuel s "", Option.map_map, Option.map_map]
  rfl

theorem feed_of_isCommand {line : String} (idle : s.pending = "") (isColon : isCommand line = true) :
    s.feed fuel line = s.perform fuel (.command (Text.trim line)) := by
  have taken := feed_joined fuel s [] line
  rw [isColon] at taken
  rwa [joined, ← idle] at taken

/-- The line that completes an input has it run. -/
theorem feed_of_complete {begun : List String} {line : String} (idle : s.pending = "")
    (first : begun = [] → isCommand line = false)
    (complete : isComplete (joined (begun ++ [line])) = true) :
    feed fuel { s with pending := joined begun } line =
      s.perform fuel (.input (joined (begun ++ [line]))) := by
  have noColon : (begun.isEmpty && isCommand line) = false := by
    cases begun with
    | nil => simpa using first rfl
    | cons head begun => rfl
  rw [feed_joined, noColon, complete, ← idle]
  rfl

/-- A row of lines that is not complete moves nothing but the pending text. -/
theorem prompt_of_gathers {begun lines : List String} (h : Gathers (begun ++ lines)) :
    prompt fuel { s with pending := joined begun } lines =
      some ({ s with pending := joined (begun ++ lines) }, .empty) := by
  induction lines generalizing begun with
  | nil => simp [prompt]
  | cons line lines ih =>
      have gathered : Gathers ((begun ++ [line]) ++ lines) := by
        simpa using h
      simp [prompt, feed_joined, h.not_command, h.incomplete, ih gathered]

/-- A session on its way to a later prompt. -/
theorem prompt_append (read rest : List String) :
    prompt fuel s (read ++ rest) =
      (prompt fuel s read).bind fun (next, written) =>
        (prompt fuel next rest).map fun (last, more) => (last, written ++ more) := by
  induction read generalizing s with
  | nil => simp [prompt]
  | cons line read ih =>
      rw [List.cons_append, prompt, prompt]
      cases s.feed fuel line with
      | none => rfl
      | some answer =>
          obtain ⟨reaction, written⟩ := answer
          cases reaction with
          | close => rfl
          | goOn next =>
              simp only [ih]
              cases prompt fuel next read with
              | none => rfl
              | some reached =>
                  simp only [Option.bind_some, Option.map_some]
                  cases prompt fuel reached.1 rest with
                  | none => rfl
                  | some last => simp [Console.append_assoc]

/-- A session goes on from any of its prompts. -/
theorem feedAll_append {read : List String} {next : Session} {written : Console}
    (reached : prompt fuel s read = some (next, written)) (rest : List Line) (console : Console) :
    feedAll fuel s console (read.map some ++ rest) = feedAll fuel next (console ++ written) rest := by
  induction read generalizing s console written with
  | nil =>
      simp only [prompt, Option.some.injEq, Prod.mk.injEq] at reached
      obtain ⟨rfl, rfl⟩ := reached
      simp
  | cons line read ih =>
      rw [prompt] at reached
      rw [List.map_cons, List.cons_append, feedAll]
      split at reached
      · next after begins answered =>
          rw [Option.map_eq_some_iff] at reached
          obtain ⟨⟨last, more⟩, reached, same⟩ := reached
          injection same with same₁ same₂
          subst same₁ same₂
          simp only [answered]
          rw [ih after reached, Console.append_assoc]
      · cases reached

theorem perform_pending {request : Request} {next : Session} {written : Console}
    (answered : s.perform fuel request = some (.goOn next, written)) : next.pending = s.pending := by
  cases request with
  | command text =>
      simp only [perform, Option.some.injEq] at answered
      cases named : Command.ofText text <;> simp [named, obey] at answered <;> rw [← answered.1]
  | input text =>
      have kept := runInput_pending fuel s s.pending text
      simp only [perform, Option.map_eq_some_iff] at answered
      obtain ⟨⟨after, console⟩, ran, same⟩ := answered
      injection same with same _
      injection same with same
      subst same
      rw [show { s with pending := s.pending } = s from rfl, ran] at kept
      have pending := congrArg (Option.map fun run => run.1.pending) kept
      simpa using pending

/-- A line is taken in as a request is answered, if the rest of the lines is. -/
theorem feedAll_cons {line : String} {request : Request} {rest : List Line} {requests : List Request}
    {begun : Session} (same : begun.feed fuel line = s.perform fuel request)
    (later : ∀ next written, s.perform fuel request = some (.goOn next, written) →
      ∀ console, feedAll fuel next console rest = performAll fuel next console requests)
    (console : Console) :
    feedAll fuel begun console (some line :: rest) = performAll fuel s console (request :: requests) := by
  rw [feedAll, performAll, same]
  cases answered : s.perform fuel request with
  | none => rfl
  | some answer =>
      obtain ⟨reaction, written⟩ := answer
      cases reaction with
      | close => rfl
      | goOn next => exact later next written answered _

/-- A session answers its requests, each of them once and in order. -/
theorem feedAll_eq_performAll {lines : List String} {requests : List Request}
    (h : Splits lines requests) (idle : s.pending = "") (console : Console) :
    feedAll fuel s console (lines.map some) = performAll fuel s console requests := by
  induction h generalizing s console with
  | @dropped lines gathers =>
      have waits := @prompt_of_gathers fuel s [] lines gathers
      rw [joined, ← idle] at waits
      simpa [feedAll, performAll] using feedAll_append fuel s waits [] console
  | quit isColon quits =>
      rw [List.map_cons, feedAll, performAll, feed_of_isCommand fuel s idle isColon]
      simp [perform, quits, obey]
  | command isColon _ _ ih =>
      refine feedAll_cons fuel s (feed_of_isCommand fuel s idle isColon) ?_ console
      exact fun next _ answered => ih next ((perform_pending fuel s answered).trans idle)
  | @input begun rest line requests gathers first complete _ ih =>
      have waits := @prompt_of_gathers fuel s [] begun gathers
      rw [joined, ← idle] at waits
      rw [List.map_append, feedAll_append fuel s waits, Console.append_empty]
      refine feedAll_cons fuel s (feed_of_complete fuel s idle first complete) ?_ console
      exact fun next _ answered => ih next ((perform_pending fuel s answered).trans idle)

end Answers

end Session

end EmojiLang
