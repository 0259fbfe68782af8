import EmojiLang.Scope

/-!
# The machine that runs programs

A machine holds the scopes of a running program, what has been printed, and, if asked for, a trace of
the scopes after each declaration and assignment.  It also has the order in which its scopes give their names,
which no action changes.

An action `Exec α` takes a machine and is done with a result, or has failed with a diagnostic, or has
run out of fuel.  A failed action keeps the machine it has reached: what was printed and bound before
the failure stays.  Out of fuel is no behaviour of programs; it says that the given fuel did not
suffice to find out what the action does.

**Results.**
* `Exec.pure_apply` and `Exec.bind_apply`: what actions in sequence do to a machine.
* `Exec.pure_bind`, `Exec.bind_pure` and `Exec.bind_assoc`: the monad laws, and an instance of
  `LawfulMonad` made of them.
-/

namespace EmojiLang

/-- The state of a run.  With `tracing`, `trace` collects the scope listings. -/
structure Machine where
  env : Env := Env.empty
  output : String := ""
  tracing : Bool := false
  trace : String := ""
  order : NameOrder := .declared
deriving Repr, Inhabited

/-- How an action ends. -/
inductive Outcome (α : Type) where
  | done (value : α) (machine : Machine)
  | failed (cause : Diagnostic) (machine : Machine)
  | outOfFuel
deriving Repr

/-- An action on a machine. -/
def Exec (α : Type) : Type := Machine → Outcome α

namespace Exec

variable {α β γ : Type}

/-- Does nothing. -/
def pure (a : α) : Exec α := fun m => .done a m

/-- Does one action after the other. -/
def bind (x : Exec α) (f : α → Exec β) : Exec β := fun m =>
  match x m with
  | .done a m => f a m
  | .failed d m => .failed d m
  | .outOfFuel => .outOfFuel

instance : Monad Exec where
  pure := Exec.pure
  bind := Exec.bind

@[simp]
theorem pure_apply (a : α) (m : Machine) : (Pure.pure a : Exec α) m = .done a m := rfl

theorem bind_apply (x : Exec α) (f : α → Exec β) (m : Machine) :
    (x >>= f) m =
      match x m with
      | .done a m => f a m
      | .failed d m => .failed d m
      | .outOfFuel => .outOfFuel := rfl

theorem pure_bind (a : α) (f : α → Exec β) : (Exec.pure a).bind f = f a := rfl

theorem bind_pure (x : Exec α) : x.bind Exec.pure = x := by
  funext m
  simp only [bind]
  cases x m <;> rfl

theorem bind_assoc (x : Exec α) (f : α → Exec β) (g : β → Exec γ) :
    (x.bind f).bind g = x.bind fun a => (f a).bind g := by
  funext m
  simp only [bind]
  cases x m <;> rfl

instance : LawfulMonad Exec := LawfulMonad.mk' Exec bind_pure pure_bind bind_assoc

/-- Stops with a diagnostic. -/
def fail (d : Diagnostic) : Exec α := fun m => .failed d m

/-- Gives up for want of fuel. -/
def giveUp : Exec α := fun _ => .outOfFuel

/-- Reads a name. -/
def lookup (name : Token) : Exec Value := fun m =>
  match m.env.lookup name.text name.position m.order with
  | .ok v => .done v m
  | .error d => .failed d m

/-- Takes over the scopes after a declaration or assignment, and lists them in the trace. -/
def store (result : Except Diagnostic Env) : Exec Unit := fun m =>
  match result with
  | .ok env =>
      let trace := if m.tracing then m.trace ++ env.dump else m.trace
      .done () { m with env, trace }
  | .error d => .failed d m

/-- Binds a name in the innermost scope. -/
def declare (name : Token) (v : Value) : Exec Unit := fun m =>
  store (m.env.declare name.text v name.position) m

/-- Changes the innermost binding of a name. -/
def assign (name : Token) (v : Value) : Exec Unit := fun m =>
  store (m.env.assign name.text v name.position m.order) m

/-- Prints a line. -/
def print (text : String) : Exec Unit := fun m =>
  .done () { m with output := m.output ++ text ++ "\n" }

/-- Acts in a scope of its own, which is left also on failure. -/
def inScope (x : Exec α) : Exec α := fun m =>
  match x { m with env := m.env.push } with
  | .done a m => .done a { m with env := m.env.pop }
  | .failed d m => .failed d { m with env := m.env.pop }
  | .outOfFuel => .outOfFuel

end Exec

end EmojiLang
