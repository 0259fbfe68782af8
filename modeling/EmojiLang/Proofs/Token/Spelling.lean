import EmojiLang.Glyph

/-!
# What a token spells

A token of the table spells one plain text, and every other token spells none.  So a token that spells
a text of one list spells no text of a list disjoint from it.

**Results.**
* `spells_iff` and `spellsAny_iff`: what it takes to spell a text, or one of several.
* `SpellsOnly.spellsAny_eq_false`: a token that can spell nothing but certain texts spells no others.
-/

namespace EmojiLang

theorem TokenKind.ne_of_isSpelled {k other : TokenKind} (spelled : k.isSpelled = true)
    (silent : other.isSpelled = false) : k ≠ other := by
  rintro rfl
  simp [spelled] at silent

namespace Token

variable {t : Token} {text : String} {texts others : List String}

theorem spells_iff :
    t.spells text = true ↔ t.kind.isSpelled = true ∧ Glyph.plain t.text = text := by
  simp [spells]

theorem spellsAny_iff :
    t.spellsAny texts = true ↔ t.kind.isSpelled = true ∧ Glyph.plain t.text ∈ texts := by
  simp only [spellsAny, List.any_eq_true, spells_iff]
  constructor
  · rintro ⟨text, mem, spelled, rfl⟩
    exact ⟨spelled, mem⟩
  · rintro ⟨spelled, mem⟩
    exact ⟨_, mem, spelled, rfl⟩

theorem spellsAny_of_spells (h : t.spells text = true) (mem : text ∈ texts) :
    t.spellsAny texts = true := by
  rw [spells_iff] at h
  exact spellsAny_iff.2 ⟨h.1, h.2 ▸ mem⟩

theorem spells_eq_beq (h : t.spells text = true) (other : String) :
    t.spells other = (text == other) := by
  rw [spells_iff] at h
  simp [spells, h.1, h.2]

theorem kind_ne_name_of_spells (h : t.spells text = true) : t.kind ≠ .name :=
  TokenKind.ne_of_isSpelled (spells_iff.1 h).1 rfl

/-- If the table spells the token at all, it is one of `texts`. -/
def SpellsOnly (t : Token) (texts : List String) : Prop :=
  t.kind.isSpelled = true → Glyph.plain t.text ∈ texts

namespace SpellsOnly

theorem of_spellsAny (h : t.spellsAny texts = true) : t.SpellsOnly texts :=
  fun _ => (spellsAny_iff.1 h).2

theorem of_spells (h : t.spells text = true) : t.SpellsOnly [text] :=
  fun _ => List.mem_singleton.2 (spells_iff.1 h).2

/-- Literals other than truth values, names and the end mark spell nothing. -/
theorem of_kind (h : t.kind.isSpelled = false) : t.SpellsOnly texts := by
  intro spelled
  simp [h] at spelled

theorem mono (h : t.SpellsOnly texts) (le : texts ⊆ others) : t.SpellsOnly others :=
  fun spelled => le (h spelled)

theorem spellsAny_eq_false (h : t.SpellsOnly texts) (apart : ∀ text ∈ texts, text ∉ others) :
    t.spellsAny others = false := by
  rw [Bool.eq_false_iff, ne_eq, spellsAny_iff]
  rintro ⟨spelled, mem⟩
  exact apart _ (h spelled) mem

theorem spells_eq_false (h : t.SpellsOnly texts) (apart : text ∉ texts) : t.spells text = false := by
  rw [Bool.eq_false_iff, ne_eq, spells_iff]
  rintro ⟨spelled, rfl⟩
  exact apart (h spelled)

end SpellsOnly

end Token
end EmojiLang
