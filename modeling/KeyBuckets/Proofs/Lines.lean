import KeyBuckets.Text.Pieces

/-!
# Lines — the one way to cut a text

A text is cut into lines from its start: each line goes on to the next line feed, and the last one
to the end of the text, if anything is left there. What a text is cut into is stated here as a
relation between texts and lists of lines.

* **`Lined`** — a text and its lines.
* **`lined_iff`** — every text has lines, and no two lists of them.
* **`pieces_eq_splitOnP`**, **`fields_eq_splitOn`** — pieces are those of the library's `splitOn`.
-/

namespace KeyBuckets.Text

/-! ## Pieces -/

theorem pieces_eq_splitOnP (cut : Char → Bool) (cs : List Char) :
    pieces cut cs = cs.splitOnP cut := by
  induction cs with
  | nil => rfl
  | cons c cs ih => rw [pieces_cons, List.splitOnP_cons_eq_if_modifyHead, ih]

theorem fields_eq_splitOn (cs : List Char) : fields cs = cs.splitOn ':' :=
  pieces_eq_splitOnP _ cs

theorem pieces_of_not_mem {c : Char} {cs : List Char} (h : c ∉ cs) :
    pieces (· == c) cs = [cs] := by
  refine pieces_of_forall_not _ fun d hd => ?_
  rw [beq_eq_false_iff_ne]
  rintro rfl
  exact h hd

theorem splitOn_of_not_mem {text : List Char} (h : ':' ∉ text) : text.splitOn ':' = [text] := by
  rw [← fields_eq_splitOn]
  exact pieces_of_not_mem h

theorem splitOn_append_colon (before after : List Char) :
    (before ++ ':' :: after).splitOn ':' = before.splitOn ':' ++ after.splitOn ':' := by
  rw [← fields_eq_splitOn, ← fields_eq_splitOn, ← fields_eq_splitOn]
  exact pieces_append_cons _ before after (by rfl)

/-! ## Lines -/

/-- A text and its lines. A carriage return right before a line feed belongs to the end of the line,
and any other one to the line. -/
inductive Lined : List Char → List (List Char) → Prop where
  | empty : Lined [] []
  | unended {line : List Char} (hline : '\n' ∉ line) (hne : line ≠ []) : Lined line [line]
  | lineFeed {line text : List Char} {rest : List (List Char)} (hline : '\n' ∉ line)
      (hreturn : line.getLast? ≠ some '\r') (htext : Lined text rest) :
      Lined (line ++ '\n' :: text) (line :: rest)
  | returnLineFeed {line text : List Char} {rest : List (List Char)} (hline : '\n' ∉ line)
      (htext : Lined text rest) : Lined (line ++ '\r' :: '\n' :: text) (line :: rest)

theorem lines_unended {line : List Char} (h : '\n' ∉ line) (hne : line ≠ []) :
    lines line = [line] := by
  unfold lines
  rw [pieces_of_not_mem h]
  exact if_neg hne

theorem lines_lineFeed {line : List Char} (h : '\n' ∉ line) (text : List Char) :
    lines (line ++ '\n' :: text) = dropReturn line :: lines text := by
  unfold lines
  rw [pieces_append_cons _ line text (by rfl), pieces_of_not_mem h, List.singleton_append]
  exact linesOfPieces_cons line (pieces_ne_nil _ text)

theorem Lined.lines_eq {text : List Char} {ls : List (List Char)} (h : Lined text ls) :
    lines text = ls := by
  induction h with
  | empty => rfl
  | unended hline hne => exact lines_unended hline hne
  | lineFeed hline hreturn _ ih =>
    rw [lines_lineFeed hline, ih]
    unfold dropReturn
    rw [if_neg hreturn]
  | @returnLineFeed line text rest hline _ ih =>
    have hreturned : '\n' ∉ line ++ ['\r'] := by simpa using hline
    have hsplit : line ++ '\r' :: '\n' :: text = (line ++ ['\r']) ++ '\n' :: text := by simp
    rw [hsplit, lines_lineFeed hreturned, ih]
    unfold dropReturn
    rw [if_pos List.getLast?_concat, List.dropLast_concat]

/-- A line up to a line feed, with or without a carriage return before it. -/
theorem Lined.cons {line text : List Char} {rest : List (List Char)} (hline : '\n' ∉ line)
    (h : Lined text rest) : Lined (line ++ '\n' :: text) (dropReturn line :: rest) := by
  unfold dropReturn
  split
  · next hreturn =>
    obtain ⟨start, rfl⟩ := List.getLast?_eq_some_iff.mp hreturn
    rw [List.dropLast_concat, List.append_assoc]
    exact .returnLineFeed (fun hmem => hline (List.mem_append_left _ hmem)) h
  · next hreturn => exact .lineFeed hline hreturn h

theorem lined_lines (text : List Char) : Lined text (lines text) := by
  -- the rest after a line feed is shorter
  induction hn : text.length using Nat.strongRecOn generalizing text with
  | ind n ih =>
    by_cases hfeed : '\n' ∈ text
    · obtain ⟨line, rest, rfl, hline⟩ := List.eq_append_cons_of_mem hfeed
      have hshorter : rest.length < n := by
        rw [List.length_append, List.length_cons] at hn
        omega
      rw [lines_lineFeed hline]
      exact .cons hline (ih _ hshorter rest rfl)
    · by_cases hne : text = []
      · subst hne
        exact .empty
      · rw [lines_unended hfeed hne]
        exact .unended hfeed hne

/-- **There is one way to cut a text into lines.** -/
theorem lined_iff {text : List Char} {ls : List (List Char)} : Lined text ls ↔ ls = lines text := by
  constructor
  · exact fun h => h.lines_eq.symm
  · rintro rfl
    exact lined_lines text

/-- Lines one after the other, each with a line feed. -/
theorem lined_flatMap {ls : List (List Char)} (h : ∀ line ∈ ls, '\n' ∉ line ∧ '\r' ∉ line) :
    Lined (ls.flatMap (· ++ ['\n'])) ls := by
  induction ls with
  | nil => exact .empty
  | cons line ls ih =>
    obtain ⟨⟨hfeed, hreturn⟩, hls⟩ := List.forall_mem_cons.mp h
    rw [List.flatMap_cons, List.append_assoc]
    exact .lineFeed hfeed (fun hlast => hreturn (List.mem_of_getLast? hlast)) (ih hls)

end KeyBuckets.Text
