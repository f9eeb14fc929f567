import Std.Data.ExtHashMap

/-!
# Catalogs

A catalog holds entries in the order in which they came, at most one for each key, together with an
index that leads from a key to the place of its entry.

* `Catalog`, `Catalog.toList`, `Catalog.keys`;
* look-ups through the index: `Catalog.position?`, `Catalog.find?`, `Catalog.contains`;
* `Catalog.push`: a new entry at the end; `Catalog.put`: an entry in the place of the old one;
  `Catalog.erase`, `Catalog.take`: an entry taken out; `Catalog.renew`: an entry taken out and a new one
  at the end.
-/

namespace SurveyTables

/-- Entries in order, with an index from keys to places. -/
structure Catalog {α : Type} (key : α → String) where
  entries : Array α
  index : Std.ExtHashMap String Nat
  deriving DecidableEq

namespace Catalog

variable {α : Type} {key : α → String}

/-- The catalog without entries. -/
def empty : Catalog key :=
  { entries := #[], index := ∅ }

instance : Inhabited (Catalog key) := ⟨empty⟩

/-- The entries in order. -/
def toList (c : Catalog key) : List α :=
  c.entries.toList

/-- The keys of the entries in order. -/
def keys (c : Catalog key) : List String :=
  c.toList.map key

/-- How many entries there are. -/
def size (c : Catalog key) : Nat :=
  c.entries.size

/-- There are no entries. -/
def isEmpty (c : Catalog key) : Bool :=
  c.size == 0

/-- The place of the entry with the key. -/
def position? (c : Catalog key) (k : String) : Option Nat :=
  c.index[k]?

/-- The key is in the index. -/
def contains (c : Catalog key) (k : String) : Bool :=
  c.index.contains k

/-- The entry with the key. -/
def find? (c : Catalog key) (k : String) : Option α :=
  (c.position? k).bind fun i => c.entries[i]?

/-- The catalog with a new entry at the end. Its key must be new. -/
def push (c : Catalog key) (a : α) : Catalog key :=
  { entries := c.entries.push a, index := c.index.insert (key a) c.size }

/-- The catalog with an entry in the place of the one with its key, or at the end if there is none. -/
def put (c : Catalog key) (a : α) : Catalog key :=
  match c.position? (key a) with
  | some i => { c with entries := c.entries.setIfInBounds i a }
  | none => c.push a

/-- The catalog with the entry, unless there is one with its key. -/
def add (c : Catalog key) (a : α) : Catalog key :=
  if c.contains (key a) then c else c.push a

/-- The catalog without the entry with the key. The places behind it move up by one. -/
def erase (c : Catalog key) (k : String) : Catalog key :=
  match c.position? k with
  | some i =>
    { entries := c.entries.eraseIdxIfInBounds i
      index := (c.index.erase k).map fun _ j => if i < j then j - 1 else j }
  | none => c

/-- The entry with the key, if there is one, and the catalog that is left. The key goes from the index
first, whether or not it was there. -/
def take (c : Catalog key) (k : String) : Option α × Catalog key :=
  let index := c.index.erase k
  match c.position? k with
  | some i =>
    (c.entries[i]?,
      { entries := c.entries.eraseIdxIfInBounds i
        index := index.map fun _ j => if i < j then j - 1 else j })
  | none => (none, { c with index })

/-- The catalog with the entry at the end, and without an older one with its key. -/
def renew (c : Catalog key) (a : α) : Catalog key :=
  (c.erase (key a)).push a

/-- The catalog of the entries, each put in turn. -/
def ofList (entries : List α) : Catalog key :=
  entries.foldl put empty

end Catalog

end SurveyTables
