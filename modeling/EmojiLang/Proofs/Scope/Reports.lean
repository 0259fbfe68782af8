import EmojiLang.Proofs.Scope.Hint

/-!
# Reports in different orders of the names

Of several names that come equally near to one that is not bound, the report offers the first one, and that
depends on the order in which the scopes give their names.  Nothing else does.  So two reports on one name,
made in different orders, differ at most in what they offer, and then both offer a best hint.

**Definitions.**
* `Env.filled env`: the scopes that bind something.
* `Diagnostic.SameButHint d e`: the diagnostics are equal, or they report on one name and offer two names
  that are both best hints for it.
* `Diagnostic.Reordered left right d e`: the diagnostics are equal, or they report on one name in the two
  orders, perhaps with scopes more or less that bind nothing.

**Results.**
* `Env.offers_filled` and `Env.visible_filled`: scopes that bind nothing offer nothing.
* `Diagnostic.Reordered.sameButHint`: what differs with the order.
* `Diagnostic.Reordered.eq`: in one order, given by the single scopes, nothing differs.
-/

namespace EmojiLang

theorem Scope.isEmpty_of_holds {s : Scope} {name : String} (held : s.holds name = true) :
    s.isEmpty = false := by
  cases s with
  | nil => cases held
  | cons => rfl

namespace Env

/-- The scopes that bind something. -/
def filled (env : Env) : Env := env.filter fun s => !s.isEmpty

variable {env env' : Env} {name near : String}

@[simp]
theorem filled_empty_cons : filled ([] :: env) = filled env := rfl

theorem mem_filled {s : Scope} (held : s.holds name = true) : s ∈ env.filled ↔ s ∈ env := by
  simp [filled, Scope.isEmpty_of_holds held]

theorem binds_filled : env.filled.Binds name ↔ env.Binds name := by
  unfold Binds
  exact exists_congr fun s => and_congr_left fun held => mem_filled held

theorem binds_congr (same : env.filled = env'.filled) (name : String) :
    env'.Binds name ↔ env.Binds name := by
  rw [← binds_filled, ← same, binds_filled]

/-- The scopes that bind something, from the outermost to the innermost. -/
theorem outermostFirst_filled : outermostFirst (filled env) = filled (outermostFirst env) :=
  List.filter_reverse.symm

theorem offers_of_filled (h : env.filled.Offers name near) : env.Offers name near := by
  obtain ⟨outer, s, inner, scopes, held, unheld, farther⟩ := h.outermost
  rw [outermostFirst_filled, filled, List.filter_eq_append_iff] at scopes
  obtain ⟨front, back, scopes, hfront, hback⟩ := scopes
  obtain ⟨gap, rest, rfl, hgap, -, -⟩ := List.filter_eq_cons_iff.1 hback
  -- a scope that is further out and binds something is one of those in `outer`
  have further {t : Scope} {n : String} (mem : t ∈ front ++ gap) (held : t.holds n = true) : t ∈ outer := by
    have nonempty := Scope.isEmpty_of_holds held
    rcases List.mem_append.1 mem with mem | mem
    · exact hfront ▸ List.mem_filter.2 ⟨mem, by simp [nonempty]⟩
    · exact absurd nonempty (by simpa using hgap t mem)
  refine ⟨binds_filled.1 h.binds, h.other, h.close, fun n hn => h.nearest n (binds_filled.2 hn),
    front ++ gap, s, rest, by simp [scopes], held, fun t ht => ?_, fun t ht n hn => ?_⟩
  · rw [Bool.eq_false_iff]
    intro held
    rw [unheld t (further ht held)] at held
    cases held
  · exact farther t (further ht hn) n hn

/-- Scopes that bind nothing offer nothing. -/
theorem offers_filled : env.filled.Offers name near ↔ env.Offers name near := by
  refine ⟨offers_of_filled, fun h => ?_⟩
  obtain ⟨outer, s, inner, scopes, held, unheld, farther⟩ := h.outermost
  have nonempty := Scope.isEmpty_of_holds held
  refine ⟨binds_filled.2 h.binds, h.other, h.close, fun n hn => h.nearest n (binds_filled.1 hn),
    filled outer, s, filled inner, ?_, held, fun t ht => unheld t ((List.mem_filter.1 ht).1),
    fun t ht => farther t ((List.mem_filter.1 ht).1)⟩
  rw [outermostFirst_filled, scopes]
  simp [filled, nonempty]

theorem visible_filled {order : NameOrder} (fixed : order.IsLocal) :
    env.filled.visible order = env.visible order := by
  induction env with
  | nil => rfl
  | cons s outer ih =>
      cases s with
      | nil =>
          have bare : order.names outer [] = [] := (order.perm outer []).eq_nil
          rw [filled_empty_cons, ih, visible_cons, bare, List.append_nil]
      | cons binding s =>
          have kept : filled ((binding :: s) :: outer) = (binding :: s) :: filled outer := rfl
          rw [kept, visible_cons, visible_cons, ih, fixed (filled outer) outer]

end Env

namespace Diagnostic

/-- The diagnostics are equal, or they report on one name and offer two names that are both best hints for
it. -/
inductive SameButHint : Diagnostic → Diagnostic → Prop
  | same (d : Diagnostic) : SameButHint d d
  | sought {d : Diagnostic} {env : Env} {name near near' : String} :
      d.message = "'" ++ name ++ "' is undeclared" → env.Offers name near → env.Offers name near' →
        SameButHint { d with suggestion := some near } { d with suggestion := some near' }

/-- The diagnostics are equal, or the reports in these orders on a name that is not bound.  The stacks that
they are about differ at most in scopes that bind nothing. -/
inductive Reordered (left right : NameOrder) : Diagnostic → Diagnostic → Prop
  | same (d : Diagnostic) : Reordered left right d d
  | sought {env env' : Env} {name : String} (p : Position) :
      env.filled = env'.filled → ¬ env.Binds name →
        Reordered left right (env.undeclared name p left) (env'.undeclared name p right)

namespace SameButHint

variable {d e : Diagnostic}

theorem summary_eq (h : SameButHint d e) : e.summary = d.summary := by
  cases h <;> rfl

end SameButHint

namespace Reordered

variable {left right : NameOrder} {d e : Diagnostic}

theorem sameButHint (h : Reordered left right d e) : SameButHint d e := by
  cases h with
  | same => exact .same d
  | @sought env env' name p filled absent =>
      have bound := Env.binds_congr filled
      have offers := (Env.undeclared_spec absent p left).1
      have offers' := (Env.undeclared_spec (absent ∘ (bound name).1) p right).1
      have both : Text.closest name (env.visible left) = none ↔
          Text.closest name (env'.visible right) = none := by
        simp only [Text.closest_eq_none_iff, Env.mem_visible_iff, bound]
      simp only [Env.undeclared, Diagnostic.undeclared] at offers offers' ⊢
      cases found : Text.closest name (env.visible left) with
      | none =>
          rw [both.1 found]
          exact .same _
      | some near =>
          cases found' : Text.closest name (env'.visible right) with
          | none => rw [both.2 found'] at found; cases found
          | some near' =>
              rw [found] at offers
              rw [found'] at offers'
              have best' : env'.filled.Offers name near' := Env.offers_filled.2 (offers' near' rfl).1
              rw [← filled] at best'
              exact .sought
                (d := ⟨.undeclared, "'" ++ name ++ "' is undeclared", ⟨p, none⟩, none, none, none, none⟩)
                rfl (offers near rfl).1 (Env.offers_filled.1 best')

/-- In one order, given by the single scopes, the reports are equal. -/
theorem eq (fixed : left.IsLocal) (h : Reordered left left d e) : d = e := by
  cases h with
  | same => rfl
  | sought p filled _ =>
      rw [Env.undeclared, Env.undeclared, ← Env.visible_filled fixed, filled, Env.visible_filled fixed]

end Reordered

end Diagnostic

end EmojiLang
