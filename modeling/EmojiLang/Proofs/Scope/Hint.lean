import EmojiLang.Scope

/-!
# Hints for names that are not bound

A name that no scope binds is reported with the bound name that comes nearest to it.  The bound names are
gone through once, those of outer scopes first, and a later one is preferred only if it is nearer.  In which
order a scope gives its own names is not known, so nothing is said about it.

**Definitions.**
* `Text.FirstNearest target candidates s`: of the candidates that are nearest to the target, `s` is the
  first one, and it is near enough for a hint.
* `Text.Best target candidates best`: what is known when the candidates have been gone through.
* `Env.Binds env name`: some scope binds the name.
* `Env.Offers env name near`: the name `near` is the best hint for the name that is sought.

**Results.**
* `Text.Best.nearer`: one candidate more.
* `Text.best_foldl`: all candidates.
* `Env.firstNearest_visible`: of the nearest bound names, the first one stands in an outermost scope.
* `Env.undeclared_spec`: what the report on a name that is not bound offers.
* `Env.undeclared_hint`: what is said about a name that is sought in vain.
-/

namespace EmojiLang

namespace Text

/-- None of the candidates is nearer to the target, and those in front are farther away. -/
def FirstNearest (target : String) (candidates : List String) (s : String) : Prop :=
  editDistance target s ≤ hintDistance ∧
    ∃ before after, candidates = before ++ s :: after ∧
      (∀ c ∈ before, editDistance target s < editDistance target c) ∧
      ∀ c ∈ after, editDistance target s ≤ editDistance target c

/-- What is known when the candidates have been gone through: the first of the nearest ones with its distance,
or that all of them are too far away. -/
inductive Best (target : String) (candidates : List String) : Option (String × Nat) → Prop
  | none : (∀ c ∈ candidates, hintDistance < editDistance target c) → Best target candidates none
  | some {s : String} :
      FirstNearest target candidates s → Best target candidates (some (s, editDistance target s))

section Candidates

variable {target s : String} {candidates : List String}

theorem FirstNearest.le (h : FirstNearest target candidates s) :
    ∀ c ∈ candidates, editDistance target s ≤ editDistance target c := by
  obtain ⟨-, before, after, rfl, farther, later⟩ := h
  intro c mem
  rcases List.mem_append.1 mem with front | back
  · exact Nat.le_of_lt (farther c front)
  · rcases List.mem_cons.1 back with rfl | back
    · exact Nat.le_refl _
    · exact later c back

/-- A new candidate that is nearer than all the others comes first among the nearest. -/
theorem FirstNearest.replace (near : editDistance target s ≤ hintDistance)
    (farther : ∀ c ∈ candidates, editDistance target s < editDistance target c) :
    FirstNearest target (candidates ++ [s]) s :=
  ⟨near, candidates, [], rfl, farther, by simp⟩

/-- A new candidate that is not nearer makes no difference. -/
theorem FirstNearest.keep (h : FirstNearest target candidates s) {next : String}
    (le : editDistance target s ≤ editDistance target next) :
    FirstNearest target (candidates ++ [next]) s := by
  obtain ⟨near, before, after, rfl, farther, later⟩ := h
  refine ⟨near, before, after ++ [next], by simp, farther, fun c mem => ?_⟩
  rcases List.mem_append.1 mem with old | new
  · exact later c old
  · exact List.mem_singleton.1 new ▸ le

namespace Best

/-- One candidate more. -/
theorem nearer {best : Option (String × Nat)} (h : Best target candidates best) (next : String) :
    Best target (candidates ++ [next]) (nearer target best next) := by
  cases h with
  | none far =>
      by_cases near : editDistance target next ≤ hintDistance
      · simp only [Text.nearer, near, decide_true, Bool.and_true, if_true]
        exact .some (.replace near fun c mem => Nat.lt_of_le_of_lt near (far c mem))
      · simp only [Text.nearer, near, decide_false, Bool.false_and, Bool.false_eq_true, if_false]
        refine .none fun c mem => ?_
        rcases List.mem_append.1 mem with old | new
        · exact far c old
        · exact List.mem_singleton.1 new ▸ Nat.lt_of_not_le near
  | @some s found =>
      by_cases better : editDistance target next < editDistance target s
      · have near : editDistance target next ≤ hintDistance :=
          Nat.le_trans (Nat.le_of_lt better) found.1
        simp only [Text.nearer, near, better, decide_true, Bool.and_true, if_true]
        exact .some (.replace near fun c mem => Nat.lt_of_lt_of_le better (found.le c mem))
      · simp only [Text.nearer, better, decide_false, Bool.and_false, Bool.false_eq_true, if_false]
        exact .some (found.keep (Nat.le_of_not_lt better))

/-- All further candidates. -/
theorem foldl {best : Option (String × Nat)} (h : Best target candidates best) (more : List String) :
    Best target (candidates ++ more) (more.foldl (Text.nearer target) best) := by
  induction more generalizing candidates best with
  | nil => simpa using h
  | cons next more ih => simpa using ih (h.nearer next)

end Best

/-- The candidates that have been gone through from the beginning. -/
theorem best_foldl (target : String) (candidates : List String) :
    Best target candidates (candidates.foldl (nearer target) none) := by
  have start : Best target [] none := .none (by simp)
  exact start.foldl candidates

theorem closest_eq_none_iff :
    closest target candidates = none ↔ ∀ c ∈ candidates, hintDistance < editDistance target c := by
  have best := best_foldl target candidates
  rw [closest]
  generalize candidates.foldl (nearer target) none = found at best ⊢
  cases best with
  | none far => exact iff_of_true rfl far
  | @some s found =>
      refine iff_of_false (by simp) fun far => ?_
      obtain ⟨near, before, after, rfl, -, -⟩ := found
      exact absurd (far s (by simp)) (Nat.not_lt_of_le near)

theorem firstNearest_of_closest (found : closest target candidates = some s) :
    FirstNearest target candidates s := by
  have best := best_foldl target candidates
  rw [closest] at found
  generalize candidates.foldl (nearer target) none = last at best found
  cases best with
  | none far => cases found
  | some nearest =>
      injection found with same
      exact same ▸ nearest

end Candidates

end Text

namespace Env

open Text (FirstNearest closest editDistance hintDistance)

/-- Some scope binds the name. -/
def Binds (env : Env) (name : String) : Prop := ∃ s ∈ env, s.holds name = true

/-- The best hint for a name that is not bound: another name, which is bound, within three edits, and none
that is bound is nearer.  The scopes further out than the outermost one that binds it bind no name that is
as near. -/
structure Offers (env : Env) (name near : String) : Prop where
  binds : env.Binds near
  other : near ≠ name
  close : editDistance name near ≤ 3
  nearest : ∀ n, env.Binds n → editDistance name near ≤ editDistance name n
  outermost : ∃ outer s inner, env.outermostFirst = outer ++ s :: inner ∧ s.holds near = true ∧
    (∀ t ∈ outer, t.holds near = false) ∧
    ∀ t ∈ outer, ∀ n, t.holds n = true → editDistance name n ≠ editDistance name near

section Visible

variable {env : Env} {name near : String}

theorem mem_names_iff {s : Scope} : name ∈ s.names ↔ s.holds name = true := by
  simp [Scope.holds_eq_contains]

theorem mem_visible_iff {order : NameOrder} : name ∈ env.visible order ↔ env.Binds name := by
  simp only [mem_visible, Binds, mem_names_iff]

/-- Where a name stands among the visible names, the names of the scopes further out stand in front. -/
theorem split_visible {order : NameOrder} {before after : List String}
    (whole : env.visible order = before ++ name :: after) :
    ∃ outer s inner, env.outermostFirst = outer ++ s :: inner ∧ name ∈ s.names ∧
      ∀ t ∈ outer, ∀ n ∈ t.names, n ∈ before := by
  induction env generalizing before after with
  | nil => simp [visible] at whole
  | cons s outer ih =>
      have scopes : outermostFirst (s :: outer) = outermostFirst outer ++ [s] := List.reverse_cons
      -- in the innermost scope the name has all names of the other scopes in front
      have innermost (more : List String) (front : before = visible order outer ++ more)
          (here : order.names outer s = more ++ name :: after) :
          ∃ out t inner, outermostFirst (s :: outer) = out ++ t :: inner ∧ name ∈ t.names ∧
            ∀ u ∈ out, ∀ n ∈ u.names, n ∈ before := by
        refine ⟨outermostFirst outer, s, [], scopes, ?_, fun u hu n hn => ?_⟩
        · exact (order.perm outer s).mem_iff.1 (by simp [here])
        · have inside : n ∈ visible order outer :=
            (mem_visible order).2 ⟨u, List.mem_reverse.1 hu, hn⟩
          exact front ▸ List.mem_append_left more inside
      rw [visible_cons] at whole
      rcases List.append_eq_append_iff.1 whole with ⟨more, front, here⟩ | ⟨more, further, rest⟩
      · exact innermost more front here
      · cases more with
        | nil =>
            rw [List.append_nil] at further
            exact innermost [] (by rw [List.append_nil, further]) rest.symm
        | cons m more =>
            obtain ⟨rfl, -⟩ := List.cons.inj rest
            obtain ⟨out, t, inner, split, here, front⟩ := ih further
            exact ⟨out, t, inner ++ [s], by rw [scopes, split]; simp, here, front⟩

/-- The first of the nearest bound names is the best hint there is. -/
theorem firstNearest_visible {order : NameOrder} (absent : ¬ env.Binds name)
    (h : FirstNearest name (env.visible order) near) : env.Offers name near := by
  have le := h.le
  obtain ⟨close, before, after, whole, farther, -⟩ := h
  have inside : near ∈ env.visible order := by simp [whole]
  have binds : env.Binds near := mem_visible_iff.1 inside
  obtain ⟨outer, s, inner, scopes, here, front⟩ := split_visible whole
  have beyond : ∀ t ∈ outer, ∀ n, t.holds n = true → editDistance name near < editDistance name n :=
    fun t ht n hn => farther n (front t ht n (mem_names_iff.2 hn))
  refine ⟨binds, ?_, close, fun n hn => le n (mem_visible_iff.2 hn), outer, s, inner, scopes,
    mem_names_iff.1 here, fun t ht => ?_, fun t ht n hn => ?_⟩
  · rintro rfl
    exact absent binds
  · rw [Bool.eq_false_iff]
    exact fun held => Nat.lt_irrefl _ (beyond t ht near held)
  · exact Nat.ne_of_gt (beyond t ht n hn)

end Visible

section Reports

variable {env : Env} {name : String}

theorem get?_eq_none_iff : env.get? name = none ↔ ¬ env.Binds name := by
  rw [get?, List.findSome?_eq_none_iff]
  constructor
  · rintro unbound ⟨s, mem, held⟩
    rw [Scope.holds, unbound s mem] at held
    cases held
  · intro absent s mem
    exact Scope.get?_eq_none (Bool.eq_false_iff.2 fun held => absent ⟨s, mem, held⟩)

theorem binds_cons {s : Scope} {outer : Env} :
    Binds (s :: outer) name ↔ s.holds name = true ∨ outer.Binds name := by
  simp only [Binds, List.mem_cons, exists_eq_or_imp]

theorem assign?_eq_none_iff {v : Value} : assign? name v env = none ↔ ¬ env.Binds name := by
  induction env with
  | nil => exact iff_of_true rfl nofun
  | cons s outer ih =>
      rw [assign?, binds_cons]
      cases s.holds name with
      | true => simp
      | false => simp [ih]

/-- The report either offers the best hint and no help, or, exactly if every bound name is more than three
edits away, it offers nothing and helps with a declaration. -/
theorem undeclared_spec (absent : ¬ env.Binds name) (p : Position) (order : NameOrder) :
    (∀ near, (env.undeclared name p order).suggestion = some near →
        env.Offers name near ∧ (env.undeclared name p order).help = none) ∧
      ((env.undeclared name p order).suggestion = none ↔
        ∀ n, env.Binds n → 3 < editDistance name n) ∧
      ((env.undeclared name p order).suggestion = none →
        (env.undeclared name p order).help =
          some ("declare it first with `decl " ++ name ++ "` (" ++ "📢" ++ ")")) := by
  have glyph : Glyph.glyphFor "decl" = some "📢" := by
    decide
  have far : closest name (env.visible order) = none ↔ ∀ n, env.Binds n → 3 < editDistance name n := by
    simp only [Text.closest_eq_none_iff, mem_visible_iff]
    rfl
  rw [← far]
  simp only [undeclared, Diagnostic.undeclared]
  cases found : closest name (env.visible order) with
  | none => simp [glyph]
  | some near =>
      have offers := firstNearest_visible absent (Text.firstNearest_of_closest found)
      simpa using offers

end Reports

/-- To read or to change a name that no scope binds fails, and both fail alike.  Either the report offers the
best hint and no help, or, exactly if every bound name is more than three edits away, it offers nothing and
helps with the declaration of the name that was sought.  That holds in whatever order the scopes give their
names. -/
theorem undeclared_hint {env : Env} {name : String} (absent : ¬ env.Binds name) (v : Value)
    (p : Position) (order : NameOrder) :
    ∃ d, env.lookup name p order = .error d ∧ env.assign name v p order = .error d ∧
      d.kind = .undeclared ∧
      (∀ near, d.suggestion = some near → env.Offers name near ∧ d.help = none) ∧
      (d.suggestion = none ↔ ∀ n, env.Binds n → 3 < editDistance name n) ∧
      (d.suggestion = none →
        d.help = some ("declare it first with `decl " ++ name ++ "` (" ++ "📢" ++ ")")) := by
  have read : env.lookup name p order = .error (env.undeclared name p order) := by
    rw [lookup, get?_eq_none_iff.2 absent]
  have written : env.assign name v p order = .error (env.undeclared name p order) := by
    rw [assign, assign?_eq_none_iff.2 absent]
  exact ⟨_, read, written, Diagnostic.undeclared_kind _ _ _, undeclared_spec absent p order⟩

/-- Two scopes with names that are alike.  The inner scope hides one name of the outer one. -/
def similarNames : Env :=
  [[("totals", .int 3), ("tota", .int 4)], [("index", .int 0), ("totals", .int 1), ("totel", .int 2)]]

/-- Four of the bindings are for names one edit away from the name that is sought.  One of those in the outer
scope is offered, and which one it is depends on the order of the names. -/
theorem undeclared_hint_similarNames :
    ¬ Env.Binds similarNames "total" ∧
      ∃ d e, similarNames.lookup "total" ⟨2, 1⟩ .declared = .error d ∧
        similarNames.lookup "total" ⟨2, 1⟩ .newestFirst = .error e ∧
        d.suggestion = some "totals" ∧ similarNames.Offers "total" "totals" ∧ d.help = none ∧
        e.suggestion = some "totel" ∧ similarNames.Offers "total" "totel" ∧ e.help = none := by
  have absent : ¬ Env.Binds similarNames "total" := by
    rintro ⟨s, mem, held⟩
    have unbound : ∀ s ∈ similarNames, s.holds "total" = false := by decide
    rw [unbound s mem] at held
    cases held
  have offered (order : NameOrder) (near : String)
      (hfirst : closest "total" (similarNames.visible order) = some near) :
      ∃ d, similarNames.lookup "total" ⟨2, 1⟩ order = .error d ∧ d.suggestion = some near ∧
        similarNames.Offers "total" near ∧ d.help = none := by
    obtain ⟨d, read, -, -, hints, -, -⟩ := undeclared_hint absent .unit ⟨2, 1⟩ order
    have suggested : d.suggestion = some near := by
      rw [lookup, get?_eq_none_iff.2 absent] at read
      injection read with same
      rw [← same, undeclared, Diagnostic.undeclared, hfirst]
    exact ⟨d, read, suggested, hints near suggested⟩
  obtain ⟨d, declared⟩ := offered .declared "totals" (by decide +kernel)
  obtain ⟨e, newest⟩ := offered .newestFirst "totel" (by decide +kernel)
  exact ⟨absent, d, e, declared.1, newest.1, declared.2.1, declared.2.2.1, declared.2.2.2, newest.2⟩

end Env

end EmojiLang
