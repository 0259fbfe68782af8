import EmojiLang.Number.Binary64

/-!
# Configuration values

A configuration document denotes a table: names in the order in which they first appear, each with a
value.  Tables are filled from several places of a document, and the way in which a table came about
decides what may still be added to it.

* A table with a *header* of its own may not get a second header, nor entries by dotted names from
  outside of its header.
* A table that is only *implied*, as a step on the way to another one, may still get its header.
* A *dotted* table, made by a dotted name, may get entries by dotted names only.
* An *inline* table is closed.

**Results.** `put_duplicate` says that no name of a table can be given twice.
-/

namespace EmojiLang

/-- The way in which a table came about. -/
inductive TableForm where
  | header
  | implied
  | dotted
  | inline
deriving DecidableEq, Repr, Inhabited

/-- A value of a configuration document.  `tables` is an array whose elements have headers. -/
inductive Toml where
  | string (s : String)
  | integer (n : Int)
  | float (x : Binary64)
  | boolean (b : Bool)
  | moment
  | array (items : List Toml)
  | table (form : TableForm) (entries : List (String × Toml))
  | tables (items : List Toml)
deriving Repr, Inhabited

namespace Toml

/-- The entries of a table; other values have none. -/
def entries : Toml → List (String × Toml)
  | .table _ entries => entries
  | _ => []

/-- Replaces the value of a name in place. -/
def replace (key : String) (v : Toml) (entries : List (String × Toml)) : List (String × Toml) :=
  entries.map fun e => if e.1 == key then (key, v) else e

/-- Changes the last element of a list, if the change succeeds. -/
def changeLast (f : Toml → Option Toml) : List Toml → Option (List Toml)
  | [] => none
  | [last] => (f last).map fun v => [v]
  | v :: rest => (changeLast f rest).map (v :: ·)

/-- Changes the table at the end of a path.  Tables that are missing on the way are made; `byDots` says
whether the path is a dotted name or part of a header. -/
def change (byDots : Bool) (f : Toml → Option Toml) : List String → Toml → Option Toml
  | [], t => f t
  | key :: path, .table form entries =>
      match entries.lookup key with
      | none =>
          let missing := Toml.table (if byDots then .dotted else .implied) []
          (change byDots f path missing).map fun t => .table form (entries ++ [(key, t)])
      | some (.table inner innerEntries) =>
          if inner = .inline ∨ (byDots = true ∧ inner = .header) then none
          else
            (change byDots f path (.table inner innerEntries)).map fun t =>
              .table form (replace key t entries)
      | some (.tables items) =>
          (changeLast (change byDots f path) items).map fun items =>
            .table form (replace key (.tables items) entries)
      | some _ => none
  | _ :: _, _ => none

/-- Adds an entry to a table.  A table is filled either by dotted names or otherwise, never both. -/
def put (byDots : Bool) (key : String) (v : Toml) : Toml → Option Toml
  | .table form entries =>
      if decide (form = .dotted) != byDots then none
      else if (entries.lookup key).isSome then none
      else some (.table form (entries ++ [(key, v)]))
  | _ => none

theorem put_duplicate (byDots : Bool) {key : String} (v : Toml) {form : TableForm}
    {entries : List (String × Toml)} (h : (entries.lookup key).isSome = true) :
    put byDots key v (.table form entries) = none := by
  simp [put, h]

/-- Adds the value of a possibly dotted name to a table. -/
def insert (path : List String) (key : String) (v : Toml) (t : Toml) : Option Toml :=
  change true (put (!path.isEmpty) key v) path t

/-- Opens a table by its header.  An implied table of that name becomes the last one. -/
def openTable (key : String) : Toml → Option Toml
  | .table form entries =>
      match entries.lookup key with
      | none => some (.table form (entries ++ [(key, .table .header [])]))
      | some (.table .implied inner) =>
          some (.table form ((entries.filter fun e => e.1 != key) ++ [(key, .table .header inner)]))
      | some _ => none
  | _ => none

/-- Opens a further element of an array of tables by its header. -/
def openElement (key : String) : Toml → Option Toml
  | .table form entries =>
      match entries.lookup key with
      | none => some (.table form (entries ++ [(key, .tables [.table .header []])]))
      | some (.tables items) =>
          some (.table form (replace key (.tables (items ++ [.table .header []])) entries))
      | some _ => none
  | _ => none

/-- A line of a document.  A path is given without its last name. -/
inductive Line where
  | entry (path : List String) (key : String) (v : Toml)
  | table (path : List String) (key : String)
  | element (path : List String) (key : String)
deriving Repr

/-- A document under way: its table, and the path of the header last seen. -/
structure Draft where
  root : Toml := .table .header []
  current : List String := []
deriving Repr, Inhabited

/-- Adds a line to a document. -/
def Draft.add (d : Draft) : Line → Option Draft
  | .entry path key v =>
      (change false (insert path key v) d.current d.root).map fun root => { d with root }
  | .table path key =>
      (change false (openTable key) path d.root).map fun root => ⟨root, path ++ [key]⟩
  | .element path key =>
      (change false (openElement key) path d.root).map fun root => ⟨root, path ++ [key]⟩

/-- The table that lines denote, if they agree with one another. -/
def ofLines (lines : List Line) : Option Toml :=
  (lines.foldlM Draft.add {}).map Draft.root

/-- The inline table with the given entries. -/
def ofInline (entries : List (List String × String × Toml)) : Option Toml :=
  entries.foldlM (fun t (path, key, v) => insert path key v t) (.table .inline [])

end Toml

end EmojiLang
