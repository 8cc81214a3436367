import Std.Data.HashMap
import EntityLinking.Mention

/-!
# Maps from mentions that keep their order

A `MentionMap` holds at most one value for each mention and remembers the order in which the
mentions came.  The entries are the map; beside them a hash index from keys to positions makes
finding an entry fast.  The index holds exactly the keys of the entries, each with its position, so
keys are distinct and positions are within bounds.
-/

namespace EntityLinking

/-- A mention with the value filed under it. -/
structure MentionMap.Entry (α : Type) where
  mention : Mention
  value : α
deriving DecidableEq

/-- The key under which an entry is found. -/
def MentionMap.Entry.key {α : Type} (e : MentionMap.Entry α) : Mention.Key :=
  e.mention.key

/-- An insertion-ordered map from mentions, indexed by their keys. -/
structure MentionMap (α : Type) where
  entries : Array (MentionMap.Entry α)
  index : Std.HashMap Mention.Key Nat
  /-- The index finds a position exactly where the entries have the key. -/
  index_spec : ∀ key i, index[key]? = some i ↔ (entries[i]?).map MentionMap.Entry.key = some key

namespace MentionMap

variable {α β : Type}

def empty : MentionMap α where
  entries := #[]
  index := ∅
  index_spec := by simp

instance : Inhabited (MentionMap α) := ⟨empty⟩

def position? (m : MentionMap α) (mention : Mention) : Option Nat :=
  m.index[mention.key]?

def contains (m : MentionMap α) (mention : Mention) : Bool :=
  (m.position? mention).isSome

def find? (m : MentionMap α) (mention : Mention) : Option α :=
  (m.position? mention).bind fun i => (m.entries[i]?).map (·.value)

def toList (m : MentionMap α) : List (Entry α) :=
  m.entries.toList

def size (m : MentionMap α) : Nat :=
  m.entries.size

def isEmpty (m : MentionMap α) : Bool :=
  m.entries.isEmpty

/-- The mentions in the order in which they came. -/
def mentions (m : MentionMap α) : List Mention :=
  m.toList.map (·.mention)

theorem index_spec_modify (m : MentionMap α) (i : Nat) (f : α → α) (key : Mention.Key) (j : Nat) :
    m.index[key]? = some j ↔
      ((m.entries.modify i fun e => { e with value := f e.value })[j]?).map Entry.key =
        some key := by
  rw [m.index_spec, Array.getElem?_modify]
  split <;> cases m.entries[j]? <;> simp [Entry.key]

theorem index_spec_push (m : MentionMap α) (mention : Mention) (value : α)
    (h : m.index[mention.key]? = none) (key : Mention.Key) (j : Nat) :
    (m.index.insert mention.key m.entries.size)[key]? = some j ↔
      ((m.entries.push ⟨mention, value⟩)[j]?).map Entry.key = some key := by
  rw [Std.HashMap.getElem?_insert, Array.getElem?_push]
  have below {k : Mention.Key} {i : Nat} (hi : m.index[k]? = some i) : i < m.entries.size := by
    rw [m.index_spec] at hi
    cases he : m.entries[i]? with
    | none => simp [he] at hi
    | some e => exact (Array.getElem?_eq_some_iff.1 he).1
  by_cases hk : mention.key = key
  · subst hk
    simp only [beq_self_eq_true, if_true]
    by_cases hj : j = m.entries.size
    · simp [hj, Entry.key]
    · have := m.index_spec mention.key j
      rw [h] at this
      simp only [hj, if_false]
      constructor
      · intro e
        exact absurd (Option.some.inj e).symm hj
      · intro e
        exact absurd (this.2 e) (by simp)
  · simp only [beq_iff_eq, hk, if_false]
    by_cases hj : j = m.entries.size
    · subst hj
      constructor
      · intro e
        exact absurd (below e) (Nat.lt_irrefl _)
      · intro e
        simp only [if_true, Option.map_some, Option.some.injEq] at e
        exact absurd e hk
    · simp only [hj, if_false]
      exact m.index_spec key j

/-- Replaces what is filed under a mention by a function of it.  A new mention gets the last place;
one that is there keeps its place and its context. -/
def alter (m : MentionMap α) (mention : Mention) (f : Option α → α) : MentionMap α :=
  match h : m.index[mention.key]? with
  | some i =>
    { entries := m.entries.modify i fun e => { e with value := f (some e.value) }
      index := m.index
      index_spec := m.index_spec_modify i (fun a => f (some a)) }
  | none =>
    { entries := m.entries.push ⟨mention, f none⟩
      index := m.index.insert mention.key m.entries.size
      index_spec := m.index_spec_push mention (f none) h }

/-- Files a value under a mention in place of an earlier one. -/
def insert (m : MentionMap α) (mention : Mention) (value : α) : MentionMap α :=
  m.alter mention fun _ => value

/-- Files a value under a mention in place of an earlier one, and tells whether the mention is
new. -/
def enter (m : MentionMap α) (mention : Mention) (value : α) : Bool × MentionMap α :=
  (!m.contains mention, m.insert mention value)

/-- The map with the same mentions in the same order, each value replaced by a function of its
entry. -/
def map (f : Entry α → β) (m : MentionMap α) : MentionMap β where
  entries := m.entries.map fun e => ⟨e.mention, f e⟩
  index := m.index
  index_spec key i := by
    rw [m.index_spec, Array.getElem?_map]
    cases m.entries[i]? <;> simp [Entry.key]

/-- Files each value under its mention, in order. -/
def ofList (rows : List (Mention × α)) : MentionMap α :=
  rows.foldl (fun m row => m.insert row.1 row.2) empty

end MentionMap
end EntityLinking
