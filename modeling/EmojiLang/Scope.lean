import EmojiLang.Diagnostic
import EmojiLang.Value

/-!
# Scopes

A scope binds names to values.  The environment of a running program is a stack of scopes with the
innermost first; an inner binding hides an outer one of the same name.

A declaration binds in the innermost scope, which must not hold the name yet.  An assignment changes
the innermost binding of its name, which must exist.

A scope is a table that is looked up by name.  Its bindings are kept in the order of their declaration, but
a table gives its names in any order, which may be another one for each scope and in each run.  The order
matters in one place only: of the names that come equally near to one that is not bound, the first one is
offered.  So a `NameOrder` belongs to every report on such a name.

**Results.** `get?_declare_self` and `get?_assign?_self` say that the name just written has the value
just written; `length_assign?` that an assignment keeps the number of scopes; `get?_cons` and
`visible_cons` what the innermost scope adds; `mem_visible` that the order of the names does not decide which
names there are.
-/

namespace EmojiLang

/-- The bindings of one block. -/
abbrev Scope := List (String × Value)

namespace Scope

/-- The value of a name. -/
def get? : Scope → String → Option Value
  | [], _ => none
  | (key, v) :: s, name => if name = key then some v else get? s name

/-- The scope binds the name. -/
def holds (s : Scope) (name : String) : Bool := (s.get? name).isSome

/-- The names in the order of their declaration. -/
def names (s : Scope) : List String := s.map Prod.fst

/-- Binds a new name. -/
def bind (s : Scope) (name : String) (v : Value) : Scope := s ++ [(name, v)]

/-- Changes the value of a name in place. -/
def update (name : String) (v : Value) : Scope → Scope
  | [] => []
  | (key, w) :: s => if name = key then (key, v) :: s else (key, w) :: update name v s

/-- The names in the order of their characters. -/
def sortedNames (s : Scope) : List String := s.names.mergeSort fun a b => decide (a ≤ b)

theorem holds_eq_contains (s : Scope) (name : String) : s.holds name = s.names.contains name := by
  induction s with
  | nil => rfl
  | cons binding s ih =>
      obtain ⟨key, w⟩ := binding
      by_cases here : name = key
      · simp [holds, get?, names, here]
      · have later : holds ((key, w) :: s) name = holds s name := by
          simp [holds, get?, here]
        have other : (name == key) = false := by
          simp [here]
        rw [later, ih, names, names, List.map_cons, List.contains_cons, other, Bool.false_or]

theorem get?_eq_none {s : Scope} {name : String} (absent : s.holds name = false) : s.get? name = none := by
  simpa [holds] using absent

theorem get?_bind_self {name : String} (v : Value) :
    ∀ {s : Scope}, s.holds name = false → (s.bind name v).get? name = some v
  | [], _ => by
      simp [bind, get?]
  | (key, w) :: s, new => by
      by_cases here : name = key
      · simp [holds, get?, here] at new
      · have rest : holds s name = false := by
          simpa [holds, get?, here] using new
        simpa [bind, get?, here] using get?_bind_self v rest

theorem get?_update_self {name : String} (v : Value) :
    ∀ {s : Scope}, s.holds name = true → (update name v s).get? name = some v
  | [], old => by
      simp [holds, get?] at old
  | (key, w) :: s, old => by
      by_cases here : name = key
      · simp [update, get?, here]
      · have rest : holds s name = true := by
          simpa [holds, get?, here] using old
        simpa [update, get?, here] using get?_update_self v rest

end Scope

/-- The stack of scopes, the innermost one first. -/
abbrev Env := List Scope

/-- An order in which the scopes of a run give their names.  What stands outside of a scope tells it from other
scopes with the same bindings, which may give their names in another order. -/
structure NameOrder where
  names : (outer : Env) → Scope → List String
  perm : ∀ outer s, (names outer s).Perm s.names

namespace NameOrder

/-- Names are given in the order of their declaration. -/
def declared : NameOrder := ⟨fun _ s => s.names, fun _ _ => .refl _⟩

/-- The names that have been declared last are given first. -/
def newestFirst : NameOrder := ⟨fun _ s => s.names.reverse, fun _ s => s.names.reverse_perm⟩

instance : Inhabited NameOrder := ⟨declared⟩

instance : Repr NameOrder := ⟨fun _ _ => "an order of names"⟩

/-- A scope gives its names in the same order wherever it stands. -/
def IsLocal (order : NameOrder) : Prop := ∀ outer outer' s, order.names outer s = order.names outer' s

theorem isLocal_declared : declared.IsLocal := fun _ _ _ => rfl

end NameOrder

namespace Env

/-- No scope at all. -/
def empty : Env := []

/-- Enters a block. -/
def push (env : Env) : Env := [] :: env

/-- Leaves a block; without any scope nothing happens. -/
def pop (env : Env) : Env := env.tail

/-- The value of the innermost binding of a name. -/
def get? (env : Env) (name : String) : Option Value := env.findSome? fun s => s.get? name

/-- The number, counted from the outermost, of the innermost scope that binds a name. -/
def find? (env : Env) (name : String) : Option Nat :=
  (env.findIdx? fun s => s.holds name).map fun i => env.length - 1 - i

/-- The scopes from the outermost to the innermost. -/
def outermostFirst (env : Env) : List Scope := env.reverse

/-- All bound names, those of outer scopes first. -/
def visible (order : NameOrder) : Env → List String
  | [] => []
  | s :: outer => visible order outer ++ order.names outer s

/-- The report on a name without a binding. -/
def undeclared (env : Env) (name : String) (p : Position) (order : NameOrder := .declared) : Diagnostic :=
  .undeclared name p (env.visible order)

/-- Reads a name. -/
def lookup (env : Env) (name : String) (p : Position) (order : NameOrder := .declared) :
    Except Diagnostic Value :=
  match env.get? name with
  | some v => .ok v
  | none => .error (env.undeclared name p order)

/-- Binds a name in the innermost scope.  Without any scope one is made first. -/
def declare (env : Env) (name : String) (v : Value) (p : Position) : Except Diagnostic Env :=
  match env with
  | [] => .ok [Scope.bind [] name v]
  | s :: outer =>
      if s.holds name then .error (.redeclared name p) else .ok (s.bind name v :: outer)

/-- Changes the innermost binding of a name, if there is one. -/
def assign? (name : String) (v : Value) : Env → Option Env
  | [] => none
  | s :: outer =>
      if s.holds name then some (s.update name v :: outer)
      else (assign? name v outer).map (s :: ·)

/-- Changes the innermost binding of a name. -/
def assign (env : Env) (name : String) (v : Value) (p : Position) (order : NameOrder := .declared) :
    Except Diagnostic Env :=
  match assign? name v env with
  | some env => .ok env
  | none => .error (env.undeclared name p order)

theorem get?_cons (s : Scope) (env : Env) (name : String) :
    get? (s :: env) name = (s.get? name).or (env.get? name) := by
  rw [get?, List.findSome?_cons, get?]
  cases s.get? name <;> rfl

theorem visible_cons (order : NameOrder) (s : Scope) (env : Env) :
    visible order (s :: env) = env.visible order ++ order.names env s := rfl

theorem mem_visible (order : NameOrder) {env : Env} {name : String} :
    name ∈ env.visible order ↔ ∃ s ∈ env, name ∈ s.names := by
  induction env with
  | nil => simp [visible]
  | cons s outer ih =>
      rw [visible_cons, List.mem_append, ih, (order.perm outer s).mem_iff, or_comm]
      simp only [List.mem_cons, exists_eq_or_imp]

theorem get?_declare_self {env after : Env} {name : String} {v : Value} {p : Position}
    (h : env.declare name v p = .ok after) : after.get? name = some v := by
  cases env with
  | nil =>
      simp only [declare, Except.ok.injEq] at h
      subst h
      simp [get?, Scope.get?, Scope.bind]
  | cons s outer =>
      cases held : s.holds name with
      | true => simp [declare, held] at h
      | false =>
          simp only [declare, held, Bool.false_eq_true, if_false, Except.ok.injEq] at h
          subst h
          simp [get?, Scope.get?_bind_self v held]

theorem length_assign? {name : String} {v : Value} :
    ∀ {env after : Env}, assign? name v env = some after → after.length = env.length
  | [], _, h => by
      simp [assign?] at h
  | s :: outer, after, h => by
      cases held : s.holds name with
      | true =>
          simp only [assign?, held, if_true, Option.some.injEq] at h
          subst h
          rfl
      | false =>
          rw [assign?, held, if_neg Bool.false_ne_true, Option.map_eq_some_iff] at h
          obtain ⟨rest, hrest, rfl⟩ := h
          simp [length_assign? hrest]

theorem get?_assign?_self {name : String} {v : Value} :
    ∀ {env after : Env}, assign? name v env = some after → after.get? name = some v
  | [], _, h => by
      simp [assign?] at h
  | s :: outer, after, h => by
      cases held : s.holds name with
      | true =>
          simp only [assign?, held, if_true, Option.some.injEq] at h
          subst h
          simp [get?, Scope.get?_update_self v held]
      | false =>
          have absent := Scope.get?_eq_none held
          rw [assign?, held, if_neg Bool.false_ne_true, Option.map_eq_some_iff] at h
          obtain ⟨rest, hrest, rfl⟩ := h
          have inner := get?_assign?_self hrest
          simpa [get?, absent] using inner

/-- One line for each scope, outermost first, with its names in order. -/
def dump (env : Env) : String :=
  let line (entry : Scope × Nat) : String :=
    "Scope " ++ toString entry.2 ++ ":" ++
      String.join (entry.1.sortedNames.map (" " ++ ·)) ++ "\n"
  "Symbol Table Debug:\n" ++ String.join (env.outermostFirst.zipIdx.map line)

end Env

end EmojiLang
