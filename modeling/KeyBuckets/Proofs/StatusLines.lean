import KeyBuckets.ImportCounts
import KeyBuckets.Proofs.Lines
import Mathlib.Data.List.Basic

/-!
# Status lines — what an account of an import is read from

Of all that a program prints, the last status line is the account of an import, and on it each
counter has its own place among the words. What is read from an output is stated here without a
reader: as a relation between a text and its words, a word and its value, and a line and what it
says.

* **`Worded`**, **`Worded.words_eq`**, **`worded_words`** — a text has its words in one way.
* **`Numeral.Denotes`**, **`Numeral.read?_eq_some_iff`** — a numeral and its value.
* **`Says`**, **`says_iff`** — the counters that some words say, each from its own place.
* **`LastStatus`** — the last status line of an output.
* **`last_status_alone_read`** — what is read is what the last status line says, and nothing else.
-/

namespace KeyBuckets.Text

/-! ## Words -/

/-- A text and its words. There is white space between any two of them, and there may be some
before the first and after the last. -/
inductive Worded : List Char → List (List Char) → Prop where
  | blank {gap : List Char} (hgap : ∀ c ∈ gap, isBlank c = true) : Worded gap []
  | last {gap word : List Char} (hgap : ∀ c ∈ gap, isBlank c = true) (hne : word ≠ [])
      (hword : ∀ c ∈ word, isBlank c = false) : Worded (gap ++ word) [word]
  | cons {gap word text : List Char} {c : Char} {ws : List (List Char)}
      (hgap : ∀ c ∈ gap, isBlank c = true) (hne : word ≠ [])
      (hword : ∀ c ∈ word, isBlank c = false) (hc : isBlank c = true) (htext : Worded text ws) :
      Worded (gap ++ (word ++ c :: text)) (word :: ws)

theorem words_append_of_blank {gap : List Char} (h : ∀ c ∈ gap, isBlank c = true)
    (text : List Char) : words (gap ++ text) = words text := by
  induction gap with
  | nil => rfl
  | cons c gap ih =>
    obtain ⟨hc, hgap⟩ := List.forall_mem_cons.mp h
    exact (words_append_cons [] (gap ++ text) hc).trans (ih hgap)

/-- The words of a text are those that it is made of. -/
theorem Worded.words_eq {text : List Char} {ws : List (List Char)} (h : Worded text ws) :
    words text = ws := by
  induction h with
  | @blank gap hgap =>
    rw [← List.append_nil gap]
    exact words_append_of_blank hgap []
  | @last gap word hgap hne hword =>
    rw [words_append_of_blank hgap]
    exact words_of_forall_not_blank hne hword
  | @cons gap word text c ws hgap hne hword hc _ ih =>
    rw [words_append_of_blank hgap, words_append_cons _ _ hc, ih,
      words_of_forall_not_blank hne hword, List.singleton_append]

/-- White space before a text belongs to none of its words. -/
theorem Worded.blank_cons {c : Char} {text : List Char} {ws : List (List Char)}
    (hc : isBlank c = true) (h : Worded text ws) : Worded (c :: text) ws := by
  cases h with
  | blank hgap => exact .blank (List.forall_mem_cons.mpr ⟨hc, hgap⟩)
  | last hgap hne hword => exact .last (List.forall_mem_cons.mpr ⟨hc, hgap⟩) hne hword
  | cons hgap hne hword hc' htext =>
    exact .cons (List.forall_mem_cons.mpr ⟨hc, hgap⟩) hne hword hc' htext

/-- And every text is made of its words. Induction on the length, as a word may be followed by more
than one blank. -/
theorem worded_words (text : List Char) : Worded text (words text) := by
  -- the rest after the first white space is shorter
  induction hn : text.length using Nat.strongRecOn generalizing text with
  | ind n ih =>
    cases hfind : text.find? isBlank with
    | none =>
      have hword : ∀ c ∈ text, isBlank c = false := by simpa using hfind
      by_cases hne : text = []
      · subst hne
        exact .blank (List.forall_mem_nil _)
      · rw [words_of_forall_not_blank hne hword]
        exact .last (List.forall_mem_nil _) hne hword
    | some c =>
      obtain ⟨hc, word, rest, rfl, hword⟩ := List.find?_eq_some_iff_append.mp hfind
      simp only [Bool.not_eq_true'] at hword
      have hshorter : rest.length < n := by
        rw [List.length_append, List.length_cons] at hn
        omega
      have hrest : Worded rest (words rest) := ih _ hshorter rest rfl
      rw [words_append_cons _ _ hc]
      by_cases hne : word = []
      · subst hne
        exact hrest.blank_cons hc
      · rw [words_of_forall_not_blank hne hword, List.singleton_append]
        exact .cons (List.forall_mem_nil _) hne hword hc hrest

/-- Words one after the other, with a space between any two. -/
theorem worded_intercalate {ws : List (List Char)}
    (h : ∀ word ∈ ws, word ≠ [] ∧ ∀ c ∈ word, isBlank c = false) :
    Worded ([' '].intercalate ws) ws := by
  induction ws with
  | nil => exact .blank (List.forall_mem_nil _)
  | cons word ws ih =>
    obtain ⟨⟨hne, hword⟩, hws⟩ := List.forall_mem_cons.mp h
    cases ws with
    | nil =>
      rw [List.intercalate_singleton]
      exact .last (List.forall_mem_nil _) hne hword
    | cons word' ws =>
      rw [List.intercalate_cons_cons, List.append_assoc]
      exact .cons (List.forall_mem_nil _) hne hword (by decide) (ih hws)

/-! ## Numerals -/

namespace Numeral

/-- A numeral and its value: at least one digit, after a plus sign or without one. -/
inductive Denotes : List Char → Nat → Prop where
  | plain {ds : List Char} (hne : ds ≠ []) (hdigits : ∀ d ∈ ds, d.isDigit = true) :
      Denotes ds (Nat.ofDigitChars 10 ds 0)
  | signed {ds : List Char} (hne : ds ≠ []) (hdigits : ∀ d ∈ ds, d.isDigit = true) :
      Denotes ('+' :: ds) (Nat.ofDigitChars 10 ds 0)

theorem eq_digitsOf_or_signed (word : List Char) :
    word = digitsOf word ∨ word = '+' :: digitsOf word := by
  unfold digitsOf
  split
  · exact .inr rfl
  · exact .inl rfl

/-- A numeral denotes what its digits come to, whatever sign and zeros stand before them. -/
theorem denotes_iff {word : List Char} {n : Nat} :
    Denotes word n ↔ digitsOf word ≠ [] ∧ (∀ d ∈ digitsOf word, d.isDigit = true)
      ∧ n = Nat.ofDigitChars 10 (digitsOf word) 0 := by
  constructor
  · rintro (⟨hne, hdigits⟩ | ⟨hne, hdigits⟩)
    · -- a plus sign is no digit, so there is none to drop
      rcases eq_digitsOf_or_signed word with hword | hword
      · rw [← hword]
        exact ⟨hne, hdigits, rfl⟩
      · exact absurd (hdigits '+' (hword ▸ List.mem_cons_self)) (by decide)
    · exact ⟨hne, hdigits, rfl⟩
  · rintro ⟨hne, hdigits, rfl⟩
    rcases eq_digitsOf_or_signed word with hword | hword
    · rw [← hword] at hne hdigits ⊢
      exact .plain hne hdigits
    · generalize digitsOf word = ds at *
      subst hword
      exact .signed hne hdigits

/-- What is read is the value of a numeral, if it is small enough. -/
theorem read?_eq_some_iff {bound n : Nat} {word : List Char} :
    read? bound word = some n ↔ Denotes word n ∧ n < bound := by
  rw [denotes_iff]
  unfold read?
  dsimp only
  constructor
  · intro h
    split at h
    · next hword =>
      obtain ⟨hne, hdigits, hbound⟩ := hword
      cases h
      exact ⟨⟨hne, List.all_eq_true.mp hdigits, rfl⟩, hbound⟩
    · cases h
  · rintro ⟨⟨hne, hdigits, rfl⟩, hbound⟩
    exact if_pos ⟨hne, List.all_eq_true.mpr hdigits, hbound⟩

/-- A number in decimal is a numeral of that number. -/
theorem denotes_repr (n : Nat) : Denotes n.repr.toList n := by
  have hvalue : Nat.ofDigitChars 10 n.repr.toList 0 = n := by
    rw [Nat.toList_repr, Nat.ofDigitChars_ten_toDigits]
  have hplain := Denotes.plain (repr_ne_nil n) fun _ hd => isDigit_of_mem_repr hd
  rwa [hvalue] at hplain

end Numeral

end KeyBuckets.Text

namespace KeyBuckets.ImportCounts

open Text

/-! ## What words say -/

/-- The counters, each after the number of its place among the words of a status line. -/
def placed (counts : ImportCounts) : List (Nat × Nat) :=
  [(0, counts.considered.toNat), (2, counts.imported.toNat), (4, counts.unchanged.toNat),
    (10, counts.secretImported.toNat), (11, counts.secretUnchanged.toNat)]

/-- The value of a place, whether there is a word and whether it is a 32-bit numeral. -/
inductive Worth : Option (List Char) → Nat → Prop where
  | missing : Worth none 0
  | numeral {word : List Char} {n : Nat} (hword : Numeral.Denotes word n) (hn : n < UInt32.size) :
      Worth (some word) n
  | unreadable {word : List Char} (hword : ∀ n < UInt32.size, ¬ Numeral.Denotes word n) :
      Worth (some word) 0

/-- Some words say some counters: each has the value of its own place. -/
def Says (ws : List (List Char)) (counts : ImportCounts) : Prop :=
  ∀ entry ∈ counts.placed, Worth ws[entry.1]? entry.2

theorem worth_some_iff {word : List Char} {n : Nat} :
    Worth (some word) n ↔ n = (counter word).toNat := by
  unfold counter
  cases hread : Numeral.read? UInt32.size word with
  | some value =>
    obtain ⟨hvalue, hbound⟩ := Numeral.read?_eq_some_iff.mp hread
    rw [Option.getD_some, UInt32.toNat_ofNat_of_lt' hbound]
    constructor
    · rintro (_ | ⟨hword, hn⟩ | hword)
      · exact Option.some.inj ((Numeral.read?_eq_some_iff.mpr ⟨hword, hn⟩).symm.trans hread)
      · exact absurd hvalue (hword value hbound)
    · rintro rfl
      exact .numeral hvalue hbound
  | none =>
    have hunreadable : ∀ n < UInt32.size, ¬ Numeral.Denotes word n := by
      intro n hn hword
      cases hread.symm.trans (Numeral.read?_eq_some_iff.mpr ⟨hword, hn⟩)
    constructor
    · rintro (_ | ⟨hword, hn⟩ | _)
      · exact absurd hword (hunreadable n hn)
      · rfl
    · rintro rfl
      exact .unreadable hunreadable

/-- A missing word is worth nothing. -/
theorem worth_iff {word? : Option (List Char)} {n : Nat} :
    Worth word? n ↔ n = ((word?.map counter).getD 0).toNat := by
  cases word? with
  | some word => exact worth_some_iff
  | none =>
    constructor
    · rintro ⟨⟩
      rfl
    · rintro rfl
      exact .missing

/-- Counters are told by their places. -/
theorem placed_injective {counts counts' : ImportCounts} (h : counts.placed = counts'.placed) :
    counts = counts' := by
  cases counts
  cases counts'
  simpa [placed, UInt32.toNat_inj] using h

/-- And each counter is read from its own place. -/
theorem placed_ofWords (ws : List (List Char)) :
    (ofWords ws).placed = [0, 2, 4, 10, 11].map fun place =>
      (place, (((ws[place]?).map counter).getD 0).toNat) := rfl

/-- **Words say exactly one set of counters.** -/
theorem says_iff {ws : List (List Char)} {counts : ImportCounts} :
    Says ws counts ↔ counts = ofWords ws := by
  constructor
  · intro h
    refine placed_injective ?_
    rw [placed_ofWords]
    simp only [Says, placed, List.forall_mem_cons, worth_iff] at h
    obtain ⟨h₀, h₂, h₄, h₁₀, h₁₁, -⟩ := h
    simp only [placed, h₀, h₂, h₄, h₁₀, h₁₁, List.map_cons, List.map_nil]
  · rintro rfl entry hentry
    rw [placed_ofWords] at hentry
    obtain ⟨place, -, rfl⟩ := List.mem_map.mp hentry
    exact worth_iff.mpr rfl

/-- Another word at a place changes no counter of another place. -/
theorem mem_placed_set {ws : List (List Char)} {place : Nat} {word : List Char}
    {entry : Nat × Nat} (hentry : entry ∈ (ofWords ws).placed) (hne : entry.1 ≠ place) :
    entry ∈ (ofWords (ws.set place word)).placed := by
  rw [placed_ofWords] at hentry ⊢
  obtain ⟨place', hplace', rfl⟩ := List.mem_map.mp hentry
  refine List.mem_map.mpr ⟨place', hplace', ?_⟩
  rw [List.getElem?_set_ne (Ne.symm hne)]

/-! ## The last status line -/

/-- The last status line of an output, without its tag. -/
def LastStatus (output rest : List Char) : Prop :=
  ∃ before after, Lined output (before ++ (statusTag ++ rest) :: after)
    ∧ ∀ line ∈ after, ¬ statusTag <+: line

theorem isPrefixOf?_statusTag_eq_none {line : List Char} :
    statusTag.isPrefixOf? line = none ↔ ¬ statusTag <+: line := by
  simp only [Option.eq_none_iff_forall_ne_some, ne_eq, List.isPrefixOf?_eq_some_iff_append_eq]
  exact not_exists.symm

/-- The last status line is the last one with the tag. -/
theorem lastStatus_iff {output rest : List Char} :
    LastStatus output rest
      ↔ ((lines output).filterMap (statusTag.isPrefixOf? ·)).getLast? = some rest := by
  rw [List.getLast?_filterMap, List.findSome?_eq_some_iff]
  simp only [isPrefixOf?_statusTag_eq_none, List.isPrefixOf?_eq_some_iff_append_eq]
  constructor
  · rintro ⟨before, after, hlined, hafter⟩
    refine ⟨after.reverse, statusTag ++ rest, before.reverse, ?_, rfl, fun line hline => ?_⟩
    · rw [hlined.lines_eq]
      simp
    · exact hafter line (List.mem_reverse.mp hline)
  · rintro ⟨after, line, before, hlines, rfl, hafter⟩
    refine ⟨before.reverse, after.reverse, ?_, fun line hline => ?_⟩
    · rw [lined_iff, ← List.reverse_inj, hlines]
      simp
    · exact hafter line (List.mem_reverse.mp hline)

theorem LastStatus.read?_eq {output rest : List Char} (h : LastStatus output rest) :
    read? output = some (ofWords (words rest)) := by
  unfold read?
  rw [lastStatus_iff.mp h, Option.map_some]

/-- Nothing is read where no line has the tag. -/
theorem read?_eq_none_iff {output : List Char} :
    read? output = none ↔ ∀ line ∈ lines output, ¬ statusTag <+: line := by
  unfold read?
  rw [Option.map_eq_none_iff, List.getLast?_eq_none_iff, List.filterMap_eq_nil_iff]
  simp only [isPrefixOf?_statusTag_eq_none]

theorem read?_eq_some_iff {output : List Char} {counts : ImportCounts} :
    read? output = some counts ↔ ∃ rest ws, LastStatus output rest ∧ Worded rest ws
      ∧ Says ws counts := by
  constructor
  · intro h
    unfold read? at h
    obtain ⟨rest, hrest, rfl⟩ := Option.map_eq_some_iff.mp h
    exact ⟨rest, words rest, lastStatus_iff.mpr hrest, worded_words rest, says_iff.mpr rfl⟩
  · rintro ⟨rest, ws, hstatus, hwords, hsays⟩
    rw [hstatus.read?_eq, hwords.words_eq, says_iff.mp hsays]

/-! ## Printed counters -/

/-- The fifteen counters of a status line, in decimal. -/
def printed (cs : Fin 15 → UInt32) : List Char :=
  [' '].intercalate (List.ofFn fun i => (cs i).toNat.repr.toList)

theorem worded_printed (cs : Fin 15 → UInt32) :
    Worded (printed cs) (List.ofFn fun i => (cs i).toNat.repr.toList) := by
  refine worded_intercalate fun word hword => ?_
  obtain ⟨i, rfl⟩ := List.mem_ofFn.mp hword
  exact ⟨Numeral.repr_ne_nil _, fun c hc => not_blank_of_isDigit (Numeral.isDigit_of_mem_repr hc)⟩

/-- A number that was printed is worth itself. -/
theorem worth_printed (cs : Fin 15 → UInt32) (i : Fin 15) :
    Worth (List.ofFn fun i => (cs i).toNat.repr.toList)[i.val]? (cs i).toNat := by
  have hword : (List.ofFn fun i => (cs i).toNat.repr.toList)[i.val]?
      = some (cs i).toNat.repr.toList := by
    rw [List.getElem?_ofFn, dif_pos i.isLt]
  rw [hword]
  exact .numeral (Numeral.denotes_repr _) (cs i).toNat_lt_size

theorem says_printed (cs : Fin 15 → UInt32) :
    Says (List.ofFn fun i => (cs i).toNat.repr.toList)
      { considered := cs 0
        imported := cs 2
        unchanged := cs 4
        secretImported := cs 10
        secretUnchanged := cs 11 } := by
  simp only [Says, placed, List.forall_mem_cons]
  exact ⟨worth_printed cs 0, worth_printed cs 2, worth_printed cs 4, worth_printed cs 10,
    worth_printed cs 11, List.forall_mem_nil _⟩

/-! ## What is read -/

/-- **The last status line alone is read.** Without one nothing is read. Otherwise the counters are
what its words say, wherever it stands; another word on it changes no counter of another place; and
fifteen counters printed in decimal are read back, those that have a place. -/
theorem last_status_alone_read (output : List Char) :
    (read? output = none ↔ ∃ ls, Lined output ls ∧ ∀ line ∈ ls, ¬ statusTag <+: line)
      ∧ (∀ counts, read? output = some counts
          ↔ ∃ rest ws, LastStatus output rest ∧ Worded rest ws ∧ Says ws counts)
      ∧ (∀ rest, LastStatus output rest → ∀ output', LastStatus output' rest →
          read? output' = read? output)
      ∧ (∀ rest ws, LastStatus output rest → Worded rest ws →
          ∀ output' rest' place word, LastStatus output' rest' →
            Worded rest' (ws.set place word) →
            ∃ counts counts', read? output = some counts ∧ read? output' = some counts'
              ∧ ∀ entry ∈ counts.placed, entry.1 ≠ place → entry ∈ counts'.placed)
      ∧ ∀ cs : Fin 15 → UInt32, LastStatus output (printed cs) →
          read? output = some
            { considered := cs 0
              imported := cs 2
              unchanged := cs 4
              secretImported := cs 10
              secretUnchanged := cs 11 } := by
  refine ⟨?_, fun counts => read?_eq_some_iff, ?_, ?_, ?_⟩
  · rw [read?_eq_none_iff]
    constructor
    · exact fun h => ⟨lines output, lined_lines output, h⟩
    · rintro ⟨ls, hlined, h⟩
      rwa [hlined.lines_eq]
  · intro rest hstatus output' hstatus'
    rw [hstatus.read?_eq, hstatus'.read?_eq]
  · intro rest ws hstatus hwords output' rest' place word hstatus' hwords'
    refine ⟨ofWords ws, ofWords (ws.set place word), ?_, ?_, fun entry => mem_placed_set⟩
    · rw [hstatus.read?_eq, hwords.words_eq]
    · rw [hstatus'.read?_eq, hwords'.words_eq]
  · intro cs hstatus
    exact read?_eq_some_iff.mpr ⟨_, _, hstatus, worded_printed cs, says_printed cs⟩

/-- Fifteen counters, the greatest among them, after another status line and before lines that
only look like one. -/
theorem last_status_alone_read_fifteen_counters :
    let cs : Fin 15 → UInt32 := fun i => 4294967295 - i.val.toUInt32
    let output := "[GNUPG:] IMPORT_OK 1\n[GNUPG:] IMPORT_RES 7 7 7\r\n".toList ++ statusTag
      ++ printed cs ++ "\r\n[GNUPG:] IMPORT_RES\n [GNUPG:] IMPORT_RES 8".toList
    LastStatus output (printed cs) ∧ read? output = some
      { considered := 4294967295
        imported := 4294967293
        unchanged := 4294967291
        secretImported := 4294967285
        secretUnchanged := 4294967284 } := by
  intro cs output
  have hstatus : LastStatus output (printed cs) := lastStatus_iff.mpr (by decide +kernel)
  exact ⟨hstatus, (last_status_alone_read output).2.2.2.2 cs hstatus⟩

end KeyBuckets.ImportCounts
