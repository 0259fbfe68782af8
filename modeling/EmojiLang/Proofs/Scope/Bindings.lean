import EmojiLang.Proofs.Scope.Frame
import EmojiLang.Proofs.Scope.WellScoped
import Mathlib.Data.List.Nodup

/-!
# Binding stacks, name by name

A stack of scopes keeps together what is bound in one block.  The same can be kept apart by names: a counter
of the frames that are open, and for each name on its own the values bound to it, each with the number of its
frame and the newest one first.  Whatever is done with the scopes, in whatever order, the two cannot be told
apart.

**Definitions.**
* `Bindings`: the frame counter and the stacks of the names, with what can be done with them.
* `Operation`: what can be done from outside with either of the two, and `Answer`: what comes back.
* `Operation.actAll`: a row of operations on a machine, where a failure is an answer like any other.
* `Bindings.performAll`: the same row on the stacks of the names.
* `Env.bindings`: a stack of scopes, seen name by name.
* `Env.Holds`: the scopes hold the pairs of the stacks of the names, each of them once.

**Results.**
* `Env.bindings_push`, `Env.bindings_pop`, `Env.declare_performs` and `Env.assign_performs`: each change of
  the scopes is the change of the same name on what is seen of them.
* `Operation.act_perform`: one operation gives the same answer on both sides.
* `actAll_eq_performAll`: so do all operations of a row that begins with no scopes at all.
-/

namespace EmojiLang

/-- The number of open frames and, for each name, the values bound to it.  Each value stands with the number
of its frame, and the newest pair comes first.  Frames are numbered from zero. -/
structure Bindings where
  frames : Nat
  stack : String → List (Nat × Value)

namespace Bindings

/-- No frame and no pair. -/
def empty : Bindings := ⟨0, fun _ => []⟩

/-- Opens a frame. -/
def push (b : Bindings) : Bindings := { b with frames := b.frames + 1 }

/-- Closes the newest frame and removes all pairs of it.  Without any frame nothing happens. -/
def pop (b : Bindings) : Bindings :=
  match b.frames with
  | 0 => b
  | newest + 1 => ⟨newest, fun name => (b.stack name).filter fun pair => pair.1 ≠ newest⟩

/-- The newest pair of a name. -/
def top? (b : Bindings) (name : String) : Option (Nat × Value) := (b.stack name).head?

/-- The first frame is opened if there is none. -/
def opened (b : Bindings) : Bindings := if b.frames = 0 then b.push else b

/-- Pushes a pair for the newest frame, unless the newest pair of the name is of that frame already. -/
def declare (b : Bindings) (name : String) (v : Value) : Option Bindings :=
  let newest := b.opened.frames - 1
  if (b.top? name).any fun pair => pair.1 = newest then none
  else some { b.opened with stack := Function.update b.stack name ((newest, v) :: b.stack name) }

/-- Overwrites the value in the newest pair of the name, if there is one. -/
def assign (b : Bindings) (name : String) (v : Value) : Option Bindings :=
  match b.stack name with
  | [] => none
  | (frame, _) :: older => some { b with stack := Function.update b.stack name ((frame, v) :: older) }

end Bindings

/-- What can be done with scopes from outside.  The tokens say at which place it is done. -/
inductive Operation where
  | push
  | pop
  | declare (name : Token) (v : Value)
  | assign (name : Token) (v : Value)
  | get (name : String)
  | find (name : String)
  | lookup (name : Token)
deriving DecidableEq, Repr

/-- What comes back from an operation. -/
inductive Answer where
  | nothing
  | found (v : Option Value)
  | frame (i : Option Nat)
  | value (v : Value)
  | failed (kind : DiagnosticKind)
deriving DecidableEq, Repr

/-- A failure is taken as an answer, and the machine goes on as the failure has left it. -/
def Exec.attempt (x : Exec Answer) : Exec Answer := fun m =>
  match x m with
  | .done a m => .done a m
  | .failed d m => .done (.failed d.kind) m
  | .outOfFuel => .outOfFuel

namespace Operation

/-- The operation on the scopes of a machine. -/
def act : Operation → Exec Answer
  | .push => fun m => .done .nothing { m with env := m.env.push }
  | .pop => fun m => .done .nothing { m with env := m.env.pop }
  | .declare name v => do
      Exec.declare name v
      return .nothing
  | .assign name v => do
      Exec.assign name v
      return .nothing
  | .get name => fun m => .done (.found (m.env.get? name)) m
  | .find name => fun m => .done (.frame (m.env.find? name)) m
  | .lookup name => do
      let v ← Exec.lookup name
      return .value v

/-- A row of operations with all their answers. -/
def actAll : List Operation → Exec (List Answer)
  | [] => return []
  | op :: ops => do
      let a ← op.act.attempt
      let more ← actAll ops
      return a :: more

end Operation

namespace Bindings

/-- What comes of a change.  One that cannot be made is answered by a failure, and nothing changes. -/
def attempted (b : Bindings) (kind : DiagnosticKind) : Option Bindings → Answer × Bindings
  | some changed => (.nothing, changed)
  | none => (.failed kind, b)

/-- The operation on the stacks of the names. -/
def perform (b : Bindings) : Operation → Answer × Bindings
  | .push => (.nothing, b.push)
  | .pop => (.nothing, b.pop)
  | .declare name v => b.attempted .redeclared (b.declare name.text v)
  | .assign name v => b.attempted .undeclared (b.assign name.text v)
  | .get name => (.found ((b.top? name).map Prod.snd), b)
  | .find name => (.frame ((b.top? name).map Prod.fst), b)
  | .lookup name =>
      match b.top? name.text with
      | some pair => (.value pair.2, b)
      | none => (.failed .undeclared, b)

/-- A row of operations with all their answers. -/
def performAll (b : Bindings) : List Operation → List Answer × Bindings
  | [] => ([], b)
  | op :: ops =>
      let (a, after) := b.perform op
      let (more, last) := after.performAll ops
      (a :: more, last)

end Bindings

namespace Scope

/-- If no name is bound twice, what a name is bound to is its value. -/
theorem get?_eq_some_iff_mem {s : Scope} (once : s.names.Nodup) {name : String} {v : Value} :
    s.get? name = some v ↔ (name, v) ∈ s := by
  induction s with
  | nil => simp [get?]
  | cons binding s ih =>
      obtain ⟨key, w⟩ := binding
      obtain ⟨new, once⟩ := List.nodup_cons.1 once
      by_cases here : name = key
      · have elsewhere : (name, v) ∉ s := fun mem =>
          new (here ▸ List.mem_map.2 ⟨(name, v), mem, rfl⟩)
        rw [get?, if_pos here, List.mem_cons, or_iff_left elsewhere, Option.some.injEq, Prod.mk.injEq,
          and_iff_right here, eq_comm]
      · simp [get?, here, ih once]

end Scope

namespace Env

/-- The bindings of one name with the numbers of their scopes, counted from the outermost one. -/
def pairs : Env → String → List (Nat × Value)
  | [], _ => []
  | s :: outer, name => ((s.get? name).map fun v => (outer.length, v)).toList ++ pairs outer name

/-- The stack of scopes, seen name by name. -/
def bindings (env : Env) : Bindings := ⟨env.length, env.pairs⟩

/-- The scopes are as many as the frames, and what they bind are the pairs of the stacks, each of them once.
The pairs of a name stand in the order of their scopes. -/
structure Holds (env : Env) (b : Bindings) : Prop where
  depth : env.length = b.frames
  pairs (i : Nat) (name : String) (v : Value) :
    (∃ s, env.outermostFirst[i]? = some s ∧ (name, v) ∈ s) ↔ (i, v) ∈ b.stack name
  once : ∀ s ∈ env, s.names.Nodup
  newestFirst (name : String) : (b.stack name).Pairwise fun newer older => older.1 < newer.1

section Pairs

variable {env : Env} {name : String}

theorem pairs_cons_none {s : Scope} (outer : Env) (absent : s.get? name = none) :
    pairs (s :: outer) name = pairs outer name := by
  simp [pairs, absent]

theorem pairs_cons_some {s : Scope} (outer : Env) {v : Value} (bound : s.get? name = some v) :
    pairs (s :: outer) name = (outer.length, v) :: pairs outer name := by
  simp [pairs, bound]

/-- A binding is numbered by the number of the scopes outside of its own. -/
theorem fst_lt_of_mem_pairs {pair : Nat × Value} (mem : pair ∈ env.pairs name) : pair.1 < env.length := by
  induction env with
  | nil => cases mem
  | cons s outer ih =>
      rw [List.length_cons]
      cases found : s.get? name with
      | none =>
          rw [pairs_cons_none outer found] at mem
          exact Nat.lt_succ_of_lt (ih mem)
      | some v =>
          rw [pairs_cons_some outer found] at mem
          rcases List.mem_cons.1 mem with rfl | older
          · exact Nat.lt_succ_self _
          · exact Nat.lt_succ_of_lt (ih older)

theorem pairs_newestFirst (env : Env) (name : String) :
    (env.pairs name).Pairwise fun newer older => older.1 < newer.1 := by
  induction env with
  | nil => exact .nil
  | cons s outer ih =>
      cases found : s.get? name with
      | none => exact pairs_cons_none outer found ▸ ih
      | some v =>
          rw [pairs_cons_some outer found]
          exact .cons (fun older mem => fst_lt_of_mem_pairs mem) ih

theorem mem_pairs_iff {i : Nat} {v : Value} :
    (i, v) ∈ env.pairs name ↔ ∃ s, env.outermostFirst[i]? = some s ∧ s.get? name = some v := by
  induction env with
  | nil => simp [pairs, outermostFirst]
  | cons s outer ih =>
      simp only [outermostFirst] at ih ⊢
      rw [List.reverse_cons, pairs, List.mem_append, ih]
      rcases Nat.lt_trichotomy i outer.length with below | rfl | above
      · rw [List.getElem?_append_left (by simpa using below)]
        simp [Nat.ne_of_gt below]
      · simp
      · have beyond : (outer.reverse ++ [s])[i]? = none := by
          simpa using Nat.succ_le_of_lt above
        have absent : outer.reverse[i]? = none := by
          simpa using Nat.le_of_lt above
        simp [beyond, absent, Nat.ne_of_lt above]

end Pairs

section Reading

variable (env : Env) (name : String)

theorem top?_bindings_cons (s : Scope) (outer : Env) :
    (bindings (s :: outer)).top? name =
      ((s.get? name).map fun v => (outer.length, v)).or (outer.bindings.top? name) := by
  simp only [Bindings.top?, bindings, pairs]
  cases s.get? name <;> rfl

theorem get?_eq_top? : env.get? name = (env.bindings.top? name).map Prod.snd := by
  induction env with
  | nil => rfl
  | cons s outer ih =>
      rw [get?_cons, top?_bindings_cons, ih]
      cases s.get? name <;> rfl

theorem find?_eq_top? : env.find? name = (env.bindings.top? name).map Prod.fst := by
  induction env with
  | nil => rfl
  | cons s outer ih =>
      rw [top?_bindings_cons, find?, List.findIdx?_cons, Scope.holds]
      cases found : s.get? name with
      | some v => simp
      | none =>
          -- one scope more is passed over, and there is one scope more outside
          have shifted (i : Nat) : (s :: outer).length - 1 - (i + 1) = outer.length - 1 - i := by
            rw [List.length_cons]
            omega
          rw [Option.map_none, Option.none_or, ← ih, find?]
          simp only [Option.isSome_none, Bool.false_eq_true, if_false, Option.map_map,
            Function.comp_def, shifted]

end Reading

section Writing

/-- What comes of a change of the scopes: it succeeds on both sides and leaves the same to be seen, or it
fails on both sides, in one way. -/
inductive Performs (kind : DiagnosticKind) : Except Diagnostic Env → Option Bindings → Prop
  | ok {after : Env} : Performs kind (.ok after) (some after.bindings)
  | error {d : Diagnostic} : d.kind = kind → Performs kind (.error d) none

theorem bindings_push (env : Env) : env.push.bindings = env.bindings.push := rfl

theorem bindings_pop (env : Env) : env.pop.bindings = env.bindings.pop := by
  cases env with
  | nil => rfl
  | cons s outer =>
      have kept : ∀ name, (pairs (s :: outer) name).filter (fun pair => pair.1 ≠ outer.length) =
          pairs outer name := by
        intro name
        have older : (pairs outer name).filter (fun pair => pair.1 ≠ outer.length) = pairs outer name :=
          List.filter_eq_self.2 fun pair mem => by simpa using Nat.ne_of_lt (fst_lt_of_mem_pairs mem)
        cases found : s.get? name with
        | none => rw [pairs_cons_none outer found, older]
        | some v => rw [pairs_cons_some outer found, List.filter_cons_of_neg (by simp), older]
      simp only [pop, List.tail_cons, bindings, Bindings.pop, List.length_cons, kept]

/-- Only a binding of the innermost scope is numbered by it. -/
theorem any_top?_eq (s : Scope) (outer : Env) (name : String) :
    (((bindings (s :: outer)).top? name).any fun pair => pair.1 = outer.length) = s.holds name := by
  rw [top?_bindings_cons, Scope.holds]
  cases s.get? name with
  | some v => simp
  | none =>
      rw [Option.map_none, Option.none_or, Option.isSome_none]
      cases top : outer.bindings.top? name with
      | none => rfl
      | some pair =>
          have mem : pair ∈ pairs outer name := List.mem_of_mem_head? top
          simpa using Nat.ne_of_lt (fst_lt_of_mem_pairs mem)

theorem pairs_bind {s : Scope} (outer : Env) {name : String} (v : Value) (new : s.holds name = false) :
    pairs (s.bind name v :: outer) =
      Function.update (pairs (s :: outer)) name ((outer.length, v) :: pairs (s :: outer) name) := by
  funext other
  have absent := Scope.get?_eq_none new
  by_cases same : other = name
  · rw [same, Function.update_self, pairs_cons_none outer absent]
    exact pairs_cons_some outer (Scope.get?_bind_self v new)
  · rw [Function.update_of_ne same, pairs, pairs, Scope.get?_bind, if_neg same, Option.or_none]

theorem declare_performs_cons (s : Scope) (outer : Env) (name : String) (v : Value) (p : Position) :
    Performs .redeclared (declare (s :: outer) name v p) ((bindings (s :: outer)).declare name v) := by
  have opened : (bindings (s :: outer)).opened = bindings (s :: outer) := rfl
  have newest : (bindings (s :: outer)).frames - 1 = outer.length := rfl
  rw [declare, Bindings.declare, opened, newest, any_top?_eq]
  cases held : s.holds name with
  | true => exact .error rfl
  | false =>
      have after : { bindings (s :: outer) with
          stack := Function.update (bindings (s :: outer)).stack name
            ((outer.length, v) :: (bindings (s :: outer)).stack name) } =
          bindings (s.bind name v :: outer) := by
        simp only [bindings, pairs_bind outer v held, List.length_cons]
      rw [if_neg Bool.false_ne_true, if_neg Bool.false_ne_true, after]
      exact .ok

theorem declare_performs (env : Env) (name : String) (v : Value) (p : Position) :
    Performs .redeclared (env.declare name v p) (env.bindings.declare name v) := by
  cases env with
  | nil => exact declare_performs_cons [] [] name v p  -- the scope that is made first
  | cons s outer => exact declare_performs_cons s outer name v p

theorem pairs_eq_nil_of_assign? {name : String} {v : Value} :
    ∀ {env : Env}, assign? name v env = none → env.pairs name = []
  | [], _ => rfl
  | s :: outer, h => by
      cases held : s.holds name with
      | true => simp [assign?, held] at h
      | false =>
          rw [assign?, held, if_neg Bool.false_ne_true, Option.map_eq_none_iff] at h
          rw [pairs_cons_none outer (Scope.get?_eq_none held)]
          exact pairs_eq_nil_of_assign? h

/-- An assignment overwrites the newest pair of its name and nothing else. -/
theorem pairs_assign? {name : String} {v : Value} :
    ∀ {env after : Env}, assign? name v env = some after →
      ∃ frame w older, env.pairs name = (frame, w) :: older ∧
        after.pairs = Function.update env.pairs name ((frame, v) :: older)
  | [], _, h => by
      cases h
  | s :: outer, after, h => by
      cases held : s.holds name with
      | true =>
          rw [assign?, held, if_pos rfl] at h
          injection h with same
          obtain ⟨w, bound⟩ := Option.isSome_iff_exists.1 held
          refine ⟨outer.length, w, pairs outer name, pairs_cons_some outer bound, ?_⟩
          funext other
          rw [← same]
          by_cases here : other = name
          · rw [here, Function.update_self, pairs_cons_some outer (Scope.get?_update_self v held)]
          · rw [Function.update_of_ne here, pairs, pairs, Scope.get?_update, if_neg here]
      | false =>
          rw [assign?, held, if_neg Bool.false_ne_true, Option.map_eq_some_iff] at h
          obtain ⟨rest, found, rfl⟩ := h
          obtain ⟨frame, w, older, pairsOf, changed⟩ := pairs_assign? found
          have absent := Scope.get?_eq_none held
          refine ⟨frame, w, older, (pairs_cons_none outer absent).trans pairsOf, ?_⟩
          funext other
          by_cases here : other = name
          · rw [here, Function.update_self, pairs_cons_none rest absent, changed, Function.update_self]
          · rw [Function.update_of_ne here, pairs, pairs, length_assign? found, changed,
              Function.update_of_ne here]

theorem assign_performs (env : Env) (name : String) (v : Value) (p : Position) (order : NameOrder) :
    Performs .undeclared (env.assign name v p order) (env.bindings.assign name v) := by
  rw [assign]
  cases found : assign? name v env with
  | none =>
      have unassigned : env.bindings.assign name v = none := by
        simp only [Bindings.assign, bindings, pairs_eq_nil_of_assign? found]
      rw [unassigned]
      exact .error (Diagnostic.undeclared_kind ..)
  | some after =>
      obtain ⟨frame, w, older, pairsOf, changed⟩ := pairs_assign? found
      have assigned : env.bindings.assign name v = some after.bindings := by
        simp only [Bindings.assign, bindings, pairsOf, changed, length_assign? found]
      rw [assigned]
      exact .ok

end Writing

section Distinct

/-- No scope binds a name twice. -/
def Distinct (env : Env) : Prop := ∀ s ∈ env, s.names.Nodup

theorem Distinct.of_sameNames {env after : Env} (h : env.Distinct) (same : SameNames env after) :
    after.Distinct := by
  intro s mem
  have names : s.names ∈ env.map Scope.names := same ▸ List.mem_map_of_mem mem
  obtain ⟨old, held, equal⟩ := List.mem_map.1 names
  exact equal ▸ h old held

theorem Distinct.declare {env after : Env} {name : String} {v : Value} {p : Position}
    (h : env.Distinct) (declared : env.declare name v p = .ok after) : after.Distinct := by
  cases env with
  | nil =>
      injection declared with same
      rw [← same]
      intro s mem
      rw [List.mem_singleton.1 mem]
      exact List.nodup_singleton name
  | cons s outer =>
      cases held : s.holds name with
      | true => simp [Env.declare, held] at declared
      | false =>
          simp only [Env.declare, held, Bool.false_eq_true, if_false, Except.ok.injEq] at declared
          have new : name ∉ s.names := by
            rw [Scope.holds_eq_contains] at held
            simpa using held
          subst declared
          refine List.forall_mem_cons.2 ⟨?_, fun t mem => h t (List.mem_cons_of_mem _ mem)⟩
          rw [Scope.names_bind, List.nodup_append]
          refine ⟨h s (by simp), List.nodup_singleton name, ?_⟩
          rintro other mem _ last rfl
          exact new (List.mem_singleton.1 last ▸ mem)

theorem Distinct.assign {env after : Env} {name : String} {v : Value} {p : Position} {order : NameOrder}
    (h : env.Distinct) (assigned : env.assign name v p order = .ok after) : after.Distinct :=
  h.of_sameNames (assign_sameNames assigned)

theorem Distinct.push {env : Env} (h : env.Distinct) : env.push.Distinct :=
  List.forall_mem_cons.2 ⟨List.nodup_nil, h⟩

theorem Distinct.pop {env : Env} (h : env.Distinct) : env.pop.Distinct :=
  fun s mem => h s (List.mem_of_mem_tail mem)

/-- What is seen of the scopes is what they hold. -/
theorem Distinct.holds_bindings {env : Env} (h : env.Distinct) : env.Holds env.bindings where
  depth := rfl
  once := h
  newestFirst := pairs_newestFirst env
  pairs i name v := by
    refine Iff.trans ?_ mem_pairs_iff.symm
    refine exists_congr fun s => and_congr_right fun at_i => ?_
    have mem : s ∈ env := List.mem_reverse.1 (List.mem_of_getElem? at_i)
    exact (Scope.get?_eq_some_iff_mem (h s mem)).symm

end Distinct

end Env

section Rows

variable {m after : Machine}

/-- A failed change of the scopes leaves the machine as it was. -/
theorem Exec.store_failed {result : Except Diagnostic Env} {a : Answer} {d : Diagnostic}
    (fails : (do Exec.store result; return a : Exec Answer) m = .failed d after) : after = m := by
  cases result with
  | ok env => cases fails
  | error e =>
      injection fails with _ same
      exact same.symm

/-- An operation that fails leaves the machine as it was. -/
theorem Operation.act_failed {op : Operation} {d : Diagnostic} (fails : op.act m = .failed d after) :
    after = m := by
  cases op with
  | push => cases fails
  | pop => cases fails
  | get name => cases fails
  | find name => cases fails
  | declare name v => exact Exec.store_failed fails
  | assign name v => exact Exec.store_failed fails
  | lookup name =>
      simp only [Operation.act, Exec.bind_apply, Exec.lookup] at fails
      cases read : m.env.lookup name.text name.position m.order with
      | ok v =>
          rw [read] at fails
          cases fails
      | error e =>
          rw [read] at fails
          injection fails with _ same
          exact same.symm

/-- A change of the scopes that does what is done on the stacks of the names is answered alike. -/
theorem Exec.attempt_store {kind : DiagnosticKind} {result : Except Diagnostic Env} {b : Option Bindings}
    (same : Env.Performs kind result b) (distinct : m.env.Distinct)
    (kept : ∀ env, result = .ok env → env.Distinct) :
    ∃ after, (do Exec.store result; return .nothing : Exec Answer).attempt m =
        .done (m.env.bindings.attempted kind b).1 after ∧
      after.env.bindings = (m.env.bindings.attempted kind b).2 ∧ after.env.Distinct := by
  cases same with
  | ok => exact ⟨_, rfl, rfl, kept _ rfl⟩
  | error reported => exact ⟨m, by rw [← reported]; rfl, rfl, distinct⟩

/-- One operation gives the answer that it gives on what is seen of the scopes, and leaves the same to be
seen. -/
theorem Operation.act_perform (op : Operation) (distinct : m.env.Distinct) :
    ∃ after, op.act.attempt m = .done (m.env.bindings.perform op).1 after ∧
      after.env.bindings = (m.env.bindings.perform op).2 ∧ after.env.Distinct := by
  cases op with
  | push => exact ⟨_, rfl, Env.bindings_push m.env, distinct.push⟩
  | pop => exact ⟨_, rfl, Env.bindings_pop m.env, distinct.pop⟩
  | get name =>
      refine ⟨m, ?_, rfl, distinct⟩
      rw [Bindings.perform, ← Env.get?_eq_top?]
      rfl
  | find name =>
      refine ⟨m, ?_, rfl, distinct⟩
      rw [Bindings.perform, ← Env.find?_eq_top?]
      rfl
  | lookup name =>
      have read : m.env.get? name.text = (m.env.bindings.top? name.text).map Prod.snd :=
        Env.get?_eq_top? m.env name.text
      simp only [Operation.act, Exec.attempt, Exec.bind_apply, Exec.lookup, Env.lookup, read,
        Bindings.perform]
      cases m.env.bindings.top? name.text with
      | some pair => exact ⟨m, rfl, rfl, distinct⟩
      | none => exact ⟨m, by rw [← Diagnostic.undeclared_kind]; rfl, rfl, distinct⟩
  | declare name v =>
      exact Exec.attempt_store (m.env.declare_performs name.text v name.position) distinct
        fun _ declared => distinct.declare declared
  | assign name v =>
      exact Exec.attempt_store (m.env.assign_performs name.text v name.position m.order) distinct
        fun _ assigned => distinct.assign assigned

/-- A row of operations gives the answers that it gives on what is seen of the scopes. -/
theorem Operation.actAll_perform (ops : List Operation) :
    ∀ {m : Machine}, m.env.Distinct →
      ∃ after, actAll ops m = .done (m.env.bindings.performAll ops).1 after ∧
        after.env.bindings = (m.env.bindings.performAll ops).2 ∧ after.env.Distinct := by
  induction ops with
  | nil => exact fun {m} distinct => ⟨m, rfl, rfl, distinct⟩
  | cons op ops ih =>
      intro m distinct
      obtain ⟨next, answer, seen, kept⟩ := op.act_perform distinct
      obtain ⟨after, answers, last, keptLast⟩ := ih kept
      rw [seen] at answers last
      refine ⟨after, ?_, last, keptLast⟩
      simp only [actAll, Exec.bind_apply, answer, answers]
      rfl

/-- A row of operations that begins with no scopes at all gives the answers that it gives on the stacks of the
names.  Behind each such row the scopes hold the pairs of the stacks and no others, and an operation that
fails leaves everything as it is. -/
theorem actAll_eq_performAll (ops : List Operation) (m : Machine) :
    ∃ after,
      Operation.actAll ops { m with env := Env.empty } = .done (Bindings.empty.performAll ops).1 after ∧
        after.env.Holds (Bindings.empty.performAll ops).2 ∧
        ∀ op d later, Operation.act op after = .failed d later → later = after := by
  have start : Env.Distinct { m with env := Env.empty }.env := fun s mem => by cases mem
  obtain ⟨after, answers, seen, distinct⟩ := Operation.actAll_perform ops start
  have same : Env.bindings Env.empty = Bindings.empty := rfl
  simp only [same] at answers seen
  refine ⟨after, answers, ?_, fun op d later fails => Operation.act_failed fails⟩
  exact seen ▸ distinct.holds_bindings

/-- A name that is bound in two scopes, with a scope closed before there is any and a name that is bound
nowhere. -/
def shadowedName : List Operation :=
  let x : Token := ⟨.name, "x", ⟨1, 1⟩⟩
  let y : Token := ⟨.name, "y", ⟨1, 5⟩⟩
  [.pop, .declare x (.int 1), .push, .find "x", .declare x (.int 2), .declare x (.int 9), .assign x (.bool true),
    .find "x", .lookup x, .pop, .get "x", .get "y", .lookup y, .assign y .unit]

/-- The inner binding hides the outer one until its scope is closed, and the three operations that fail do
nothing. -/
theorem actAll_eq_performAll_shadowedName :
    ∃ after,
      Operation.actAll shadowedName {} =
        .done [.nothing, .nothing, .nothing, .frame (some 0), .nothing, .failed .redeclared, .nothing,
          .frame (some 1), .value (.bool true), .nothing, .found (some (.int 1)), .found none,
          .failed .undeclared, .failed .undeclared] after ∧
        after.env.Holds (Bindings.empty.performAll shadowedName).2 ∧
        (∃ s, after.env.outermostFirst[0]? = some s ∧ ("x", .int 1) ∈ s) ∧
        ∃ d, Operation.act (.declare ⟨.name, "x", ⟨2, 1⟩⟩ .unit) after = .failed d after := by
  obtain ⟨after, answers, holds, unchanged⟩ := actAll_eq_performAll shadowedName {}
  have hfirst : (0, .int 1) ∈ (Bindings.empty.performAll shadowedName).2.stack "x" := by
    decide
  have run : Operation.actAll shadowedName {} =
      .done (Bindings.empty.performAll shadowedName).1 { env := [[("x", .int 1)]] } := by
    rfl
  obtain rfl : { env := [[("x", .int 1)]] } = after := by
    injection run.symm.trans answers
  have fails : ∃ d later,
      Operation.act (.declare ⟨.name, "x", ⟨2, 1⟩⟩ .unit) { env := [[("x", .int 1)]] } = .failed d later :=
    ⟨_, _, rfl⟩
  obtain ⟨d, later, fails⟩ := fails
  obtain rfl := unchanged _ d later fails
  exact ⟨_, run, holds, (holds.pairs 0 "x" (.int 1)).2 hfirst, d, fails⟩

end Rows

end EmojiLang
