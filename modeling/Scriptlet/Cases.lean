import Scriptlet.Value

/-!
# Cases by label

The cases of a `switch` in the order in which their labels first came up. A
second case for the same label replaces the body of the first and keeps its
place and its label.
-/

namespace Scriptlet

/-- Bodies by label. -/
structure Cases (α : Type) where
  entries : List (Value × α)

namespace Cases

variable {α : Type}

/-- No cases. -/
def empty : Cases α := ⟨[]⟩

/-- Adds a case behind the others, or replaces the body of the case with the
same label. -/
def insertEntry (label : Value) (body : α) : List (Value × α) → List (Value × α)
  | [] => [(label, body)]
  | (key, old) :: rest =>
    if key.sameKey label then (key, body) :: rest
    else (key, old) :: insertEntry label body rest

/-- Adds a case; the last body for a label wins. -/
def insert (cases : Cases α) (label : Value) (body : α) : Cases α :=
  ⟨insertEntry label body cases.entries⟩

/-- The cases that come from inserting a list one by one. -/
def ofList (entries : List (Value × α)) : Cases α :=
  entries.foldl (fun cases entry => cases.insert entry.1 entry.2) empty

/-- The body for a value. -/
def get? (cases : Cases α) (value : Value) : Option α :=
  (cases.entries.find? fun entry => entry.1.sameKey value).map Prod.snd

/-- The labels in order. -/
def keys (cases : Cases α) : List Value := cases.entries.map Prod.fst

/-- The number of cases. -/
def size (cases : Cases α) : Nat := cases.entries.length

@[simp] theorem get?_empty (value : Value) : (empty : Cases α).get? value = none := rfl

@[simp] theorem keys_empty : (empty : Cases α).keys = [] := rfl

@[simp] theorem length_keys (cases : Cases α) : cases.keys.length = cases.size := by
  simp [keys, size]

end Cases
end Scriptlet
