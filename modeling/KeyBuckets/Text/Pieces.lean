/-!
# Text — pieces between separators

A text is cut at every character that satisfies a predicate, and the cuts
themselves are dropped. The colon-separated fields of a record and the lines of
an output are both such pieces; lines have two rules more, about the carriage
return and about the end of the text.

`pieces_append_cons` is the law that later cuts rest on: a separator in the
middle of a text cuts it into two texts that know nothing of each other.
-/

namespace KeyBuckets.Text

/-- The pieces of a text between the characters that satisfy `cut`. A text without
such a character is one piece, so there is always at least one. -/
def pieces (cut : Char → Bool) (cs : List Char) : List (List Char) :=
  cs.foldr (fun c ps => if cut c then [] :: ps else ps.modifyHead (c :: ·)) [[]]

@[simp] theorem pieces_nil (cut : Char → Bool) : pieces cut [] = [[]] := rfl

theorem pieces_cons (cut : Char → Bool) (c : Char) (cs : List Char) :
    pieces cut (c :: cs)
      = if cut c then [] :: pieces cut cs else (pieces cut cs).modifyHead (c :: ·) := rfl

theorem pieces_ne_nil (cut : Char → Bool) (cs : List Char) : pieces cut cs ≠ [] := by
  induction cs with
  | nil => simp
  | cons c cs ih =>
    rw [pieces_cons]
    split
    · simp
    · cases h : pieces cut cs with
      | nil => exact absurd h ih
      | cons p ps => simp

/-- A separator cuts a text in two, and the pieces of either side are found alone. -/
theorem pieces_append_cons (cut : Char → Bool) (xs ys : List Char) {c : Char} (hc : cut c = true) :
    pieces cut (xs ++ c :: ys) = pieces cut xs ++ pieces cut ys := by
  induction xs with
  | nil => simp [pieces_cons, hc]
  | cons x xs ih =>
    rw [List.cons_append, pieces_cons, pieces_cons, ih]
    split
    · rfl
    · cases h : pieces cut xs with
      | nil => exact absurd h (pieces_ne_nil cut xs)
      | cons p ps => simp

/-- A text in which nothing satisfies `cut` is its own only piece. -/
theorem pieces_of_forall_not (cut : Char → Bool) {xs : List Char} (h : ∀ c ∈ xs, cut c = false) :
    pieces cut xs = [xs] := by
  induction xs with
  | nil => rfl
  | cons x xs ih =>
    rw [pieces_cons, h x (by simp), ih (fun c hc => h c (by simp [hc]))]
    simp

/-- The fields of a record, which colons separate. -/
def fields (cs : List Char) : List (List Char) :=
  pieces (· == ':') cs

/-! ## Lines

A line ends at a line feed, and a carriage return right before it belongs to the
end. What follows the last line feed is a line of its own unless it is empty, and
a carriage return at the end of the text is part of it. -/

/-- A terminated line without the carriage return that may stand at its end. -/
def dropReturn (line : List Char) : List Char :=
  if line.getLast? = some '\r' then line.dropLast else line

/-- The lines among the pieces that line feeds leave: all pieces but the last were
terminated, and the last one counts only if it holds anything. -/
def linesOfPieces : List (List Char) → List (List Char)
  | [] => []
  | [rest] => if rest = [] then [] else [rest]
  | line :: rest => dropReturn line :: linesOfPieces rest

def lines (cs : List Char) : List (List Char) :=
  linesOfPieces (pieces (· == '\n') cs)

theorem linesOfPieces_cons (line : List Char) {rest : List (List Char)} (h : rest ≠ []) :
    linesOfPieces (line :: rest) = dropReturn line :: linesOfPieces rest := by
  cases rest with
  | nil => exact absurd rfl h
  | cons _ _ => rfl

@[simp] theorem lines_nil : lines [] = [] := rfl

/-- A line feed ends a line, whatever comes after it. -/
theorem lines_append_lineFeed (xs ys : List Char) :
    lines (xs ++ '\n' :: ys) = lines (xs ++ ['\n']) ++ lines ys := by
  have hcut : ∀ zs : List Char, pieces (· == '\n') (xs ++ '\n' :: zs)
      = pieces (· == '\n') xs ++ pieces (· == '\n') zs :=
    fun zs => pieces_append_cons _ xs zs (by simp)
  have split : ∀ (ps qs : List (List Char)), qs ≠ [] →
      linesOfPieces (ps ++ qs) = ps.map dropReturn ++ linesOfPieces qs := by
    intro ps qs hqs
    induction ps with
    | nil => rfl
    | cons p ps ih =>
      rw [List.cons_append, linesOfPieces_cons p (by simp [hqs]), ih]
      rfl
  unfold lines
  rw [hcut ys, hcut [], split _ _ (pieces_ne_nil _ _), split _ _ (pieces_ne_nil _ _)]
  simp [linesOfPieces]

end KeyBuckets.Text
