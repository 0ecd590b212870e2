import Scriptlet.Text.Blank

/-!
# Lines of a text

A text is cut after each newline, so the lines put together are the text again;
a stream of bytes is cut into lines in the same way. Offsets count the bytes of
the UTF-8 encoding, as positions in a source do.
-/

namespace Scriptlet.Text

/-- The number of bytes that the characters take in UTF-8. -/
def byteLength (cs : List Char) : Nat := cs.foldr (fun c bytes => c.utf8Size + bytes) 0

@[simp] theorem byteLength_nil : byteLength [] = 0 := rfl

@[simp] theorem byteLength_cons (c : Char) (cs : List Char) :
    byteLength (c :: cs) = c.utf8Size + byteLength cs := rfl

@[simp] theorem byteLength_append (xs ys : List Char) :
    byteLength (xs ++ ys) = byteLength xs + byteLength ys := by
  induction xs with
  | nil => rw [List.nil_append, byteLength_nil, Nat.zero_add]
  | cons c xs ih => rw [List.cons_append, byteLength_cons, byteLength_cons, ih, Nat.add_assoc]

theorem byteLength_eq_utf8ByteSize (cs : List Char) :
    byteLength cs = (String.ofList cs).utf8ByteSize := by
  induction cs with
  | nil => rfl
  | cons c cs ih =>
    rw [byteLength_cons, ih, ← List.singleton_append, String.ofList_append,
      String.utf8ByteSize_append, ← String.singleton_eq_ofList, String.utf8ByteSize_singleton]

/-- The bytes of a text are the bytes of its characters. -/
@[simp] theorem byteLength_toList (s : String) : byteLength s.toList = s.utf8ByteSize := by
  rw [byteLength_eq_utf8ByteSize, String.ofList_toList]

/-- Puts an item before the first piece. A break ends the piece it is in. -/
def consPiece {α : Type} (isBreak : α → Bool) (a : α) (lines : List (List α)) : List (List α) :=
  if isBreak a then [a] :: lines
  else
    match lines with
    | [] => [[a]]
    | line :: rest => (a :: line) :: rest

/-- Cuts a list after each break. The last piece may lack one. -/
def cutAfter {α : Type} (isBreak : α → Bool) (as : List α) : List (List α) :=
  as.foldr (consPiece isBreak) []

/-- The lines of a text, each with its newline. -/
def pieces (cs : List Char) : List (List Char) := cutAfter (· == '\n') cs

section

variable {α : Type} (isBreak : α → Bool)

@[simp] theorem cutAfter_nil : cutAfter isBreak [] = [] := rfl

theorem cutAfter_cons (a : α) (as : List α) :
    cutAfter isBreak (a :: as) = consPiece isBreak a (cutAfter isBreak as) := rfl

theorem flatten_consPiece (a : α) (lines : List (List α)) :
    (consPiece isBreak a lines).flatten = a :: lines.flatten := by
  unfold consPiece
  split
  · rfl
  · split <;> rfl

/-- Nothing is lost by cutting. -/
@[simp] theorem flatten_cutAfter (as : List α) : (cutAfter isBreak as).flatten = as := by
  induction as with
  | nil => rfl
  | cons a as ih => rw [cutAfter_cons, flatten_consPiece, ih]

end

/-- A line found by an offset: its number from 1, its text, and how many bytes
of it stand before the offset. -/
structure Place where
  number : Nat
  text : List Char
  column : Nat
  deriving DecidableEq, Repr

/-- Walks over lines, the first of which has number `number` and starts at
offset `start`, to the one that holds the offset `position`. -/
def findPlace (position : Nat) (number start : Nat) : List (List Char) → Option Place
  | [] => none
  | line :: rest =>
    let stop := start + byteLength line
    if start ≤ position ∧ position < stop then
      some ⟨number, line, position - start⟩
    else
      findPlace position (number + 1) stop rest

/-- The line that holds a byte offset, if the offset is inside the text. -/
def placeAt (cs : List Char) (position : Nat) : Option Place :=
  findPlace position 1 0 (pieces cs)

/-- A line without its line break, which is a newline or a carriage return and
a newline. -/
def dropBreak (line : List Char) : List Char :=
  match line.reverse with
  | '\n' :: '\r' :: rest => rest.reverse
  | '\n' :: rest => rest.reverse
  | _ => line

/-- The place one past the last character of a text: its last line, without the
line break, and the whole length of that line. -/
def endPlace (cs : List Char) : Place :=
  let lines := pieces cs
  let text := dropBreak (lines.getLastD [])
  ⟨max lines.length 1, text, byteLength text⟩

end Scriptlet.Text
