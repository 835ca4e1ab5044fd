import KeyBuckets.Proofs.Decoding
import KeyBuckets.Proofs.Segments
import KeyBuckets.Text.Search

/-!
# Clean cuts — a listing in parts

A listing comes as octets, and user ids in it need not be UTF-8. A primary record starts afresh all
the same: no character reaches over the line feed before it, and no key in progress over the record.

* **`EndsLine`**, **`StartsKey`** — what ends with a line, and what starts with a primary record.
* **`startsKey_iff`** — the octets with which primary records start.
* **`keys_decode_append`** — the keys on either side of a cut are read apart.
* **`exists_cut_before`** — the octets of a text can be cut before each of its lines.
* **`cut_cleanly`** — every primary record is a clean cut.
-/

namespace KeyBuckets.Listing

open Text

/-! ## Where a listing can be cut -/

/-- The octets end with a line feed, or are none. -/
def EndsLine (octets : List UInt8) : Prop :=
  octets = [] ∨ octets.getLast? = some 0x0A

/-- The first line of the text of these octets is the record of a primary key. -/
def StartsKey (octets : List UInt8) : Prop :=
  ∃ header rest, Lined (Utf8.decode octets) (header :: rest) ∧ Opens header

variable {before after octets : List UInt8}

/-- The lines before a cut and after it are decoded apart. -/
theorem lines_decode_append (h : EndsLine before) (after : List UInt8) :
    lines (Utf8.decode (before ++ after))
      = lines (Utf8.decode before) ++ lines (Utf8.decode after) := by
  rcases h with rfl | hlast
  · rfl
  · obtain ⟨start, rfl⟩ := List.getLast?_eq_some_iff.mp hlast
    have hfeed : (0x0A : UInt8).toNat < 0x80 := by decide
    rw [List.append_assoc, List.singleton_append, Utf8.decode_append_ascii hfeed,
      Utf8.decode_append_ascii hfeed]
    exact lines_append_lineFeed _ _

/-- What stands before a primary record and what starts with it have their own keys. -/
theorem keys_decode_append (hbefore : EndsLine before) (hafter : StartsKey after) :
    keys (Utf8.decode (before ++ after))
      = keys (Utf8.decode before) ++ keys (Utf8.decode after) := by
  obtain ⟨header, rest, hlined, hopens⟩ := hafter
  unfold keys
  rw [lines_decode_append hbefore, hlined.lines_eq, List.map_append, List.map_cons,
    ofLine_of_opens hopens]
  exact keysOf_append_primary _ _ _

/-! ## Every primary record is a cut -/

theorem endsLine_append_cons (before : List UInt8) (h : EndsLine after) :
    EndsLine (before ++ 0x0A :: after) := by
  rcases h with rfl | hlast
  · exact .inr List.getLast?_concat
  · right
    rw [List.getLast?_append_cons, List.getLast?_cons, hlast]
    rfl

/-- A line that is not the last one ends at a line feed. -/
theorem exists_of_lined_cons {line text : List Char} {rest : List (List Char)} (hne : rest ≠ [])
    (h : Lined text (line :: rest)) :
    ∃ ended more, text = ended ++ '\n' :: more ∧ '\n' ∉ ended ∧ dropReturn ended = line
      ∧ Lined more rest := by
  cases h with
  | unended => exact absurd rfl hne
  | lineFeed hline hreturn hrest => exact ⟨_, _, rfl, hline, if_neg hreturn, hrest⟩
  | @returnLineFeed _ more _ hline hrest =>
    refine ⟨line ++ ['\r'], more, by simp, by simpa using hline, ?_, hrest⟩
    unfold dropReturn
    rw [if_pos List.getLast?_concat, List.dropLast_concat]

/-- Before each line of a text its octets can be cut. -/
theorem exists_cut_before {ls rest : List (List Char)} {header : List Char}
    (h : Lined (Utf8.decode octets) (ls ++ header :: rest)) :
    ∃ before after, octets = before ++ after ∧ EndsLine before
      ∧ Lined (Utf8.decode before) ls ∧ Lined (Utf8.decode after) (header :: rest) := by
  induction ls generalizing octets with
  | nil => exact ⟨[], octets, rfl, .inl rfl, .empty, h⟩
  | cons line ls ih =>
    obtain ⟨ended, more, htext, hended, rfl, hmore⟩ := exists_of_lined_cons (by simp) h
    obtain ⟨start, octets, rfl, rfl, rfl⟩ :=
      (Utf8.decode_eq_append_cons_iff (by decide)).mp htext
    obtain ⟨before, after, rfl, hends, hbefore, hafter⟩ := ih hmore
    refine ⟨start ++ 0x0A :: before, after, by simp, endsLine_append_cons start hends, ?_, hafter⟩
    rw [Utf8.decode_append_ascii (by decide)]
    exact .cons hended hbefore

/-! ## The octets of a primary record -/

theorem kind_eq_iff {name line : List Char} (hname : ':' ∉ name) :
    kind line = name ↔ line = name ∨ name ++ [':'] <+: line := by
  have hkind : ∀ {start : List Char} (more : List Char), ':' ∉ start →
      kind (start ++ ':' :: more) = start := by
    intro start more hstart
    unfold kind
    rw [splitOn_append_colon, splitOn_of_not_mem hstart]
    rfl
  have hwhole : ∀ {start : List Char}, ':' ∉ start → kind start = start := by
    intro start hstart
    unfold kind
    rw [splitOn_of_not_mem hstart]
    rfl
  constructor
  · rintro rfl
    by_cases hcolon : ':' ∈ line
    · obtain ⟨start, more, rfl, hstart⟩ := List.eq_append_cons_of_mem hcolon
      rw [hkind more hstart]
      exact .inr ⟨more, by simp⟩
    · exact .inl (hwhole hcolon).symm
  · rintro (rfl | ⟨more, rfl⟩)
    · exact hwhole hname
    · rw [List.append_assoc]
      exact hkind more hname

theorem isPrefix_of_lined {header text : List Char} {rest : List (List Char)}
    (h : Lined text (header :: rest)) : header <+: text := by
  cases h with
  | unended => exact List.prefix_refl _
  | lineFeed => exact List.prefix_append _ _
  | returnLineFeed => exact List.prefix_append _ _

theorem exists_lined_cons {text : List Char} (h : text ≠ []) :
    ∃ header rest, Lined text (header :: rest) := by
  have hlined := lined_lines text
  cases hlines : lines text with
  | nil =>
    rw [hlines] at hlined
    cases hlined
    exact absurd rfl h
  | cons header rest => exact ⟨header, rest, hlines ▸ hlined⟩

/-- What can come right after the kind of a line: a colon, or the end of the line. -/
def marks : List (List Char) :=
  [[':'], ['\n'], ['\r', '\n']]

/-- The first line of a text is of some kind. -/
theorem exists_first_kind_iff {name text : List Char} (hcolon : ':' ∉ name) (hfeed : '\n' ∉ name)
    (hreturn : '\r' ∉ name) (hne : name ≠ []) :
    (∃ header rest, Lined text (header :: rest) ∧ kind header = name)
      ↔ text = name ∨ ∃ mark ∈ marks, name ++ mark <+: text := by
  have hkind : kind name = name := (kind_eq_iff hcolon).mpr (.inl rfl)
  constructor
  · rintro ⟨header, rest, hlined, hheader⟩
    rcases (kind_eq_iff hcolon).mp hheader with rfl | hstart
    · cases hlined with
      | unended => exact .inl rfl
      | lineFeed => exact .inr ⟨['\n'], by decide, _, List.append_assoc _ _ _⟩
      | returnLineFeed => exact .inr ⟨['\r', '\n'], by decide, _, List.append_assoc _ _ _⟩
    · exact .inr ⟨[':'], by decide, hstart.trans (isPrefix_of_lined hlined)⟩
  · rintro (rfl | ⟨mark, hmark, hstart⟩)
    · exact ⟨text, [], .unended hfeed hne, hkind⟩
    · simp only [marks, List.mem_cons, List.not_mem_nil, or_false] at hmark
      rcases hmark with rfl | rfl | rfl
      · have htext : text ≠ [] := by
          rintro rfl
          simp at hstart
        obtain ⟨header, rest, hlined⟩ := exists_lined_cons htext
        refine ⟨header, rest, hlined, (kind_eq_iff hcolon).mpr (.inr ?_)⟩
        cases hlined with
        | unended => exact hstart
        | lineFeed => exact isPrefix_of_not_mem (by simp [hfeed]) hstart
        | returnLineFeed => exact isPrefix_of_not_mem (by simp [hreturn]) hstart
      · obtain ⟨more, rfl⟩ := hstart
        rw [List.append_assoc]
        exact ⟨name, _, .lineFeed hfeed (fun hlast => hreturn (List.mem_of_getLast? hlast))
          (lined_lines more), hkind⟩
      · obtain ⟨more, rfl⟩ := hstart
        rw [List.append_assoc]
        exact ⟨name, _, .returnLineFeed hfeed (lined_lines more), hkind⟩

/-- The kinds of the records of primary keys. -/
def primaryKinds : List (List Char) :=
  [['p', 'u', 'b'], ['s', 'e', 'c']]

theorem opens_iff {line : List Char} : Opens line ↔ ∃ name ∈ primaryKinds, kind line = name := by
  simp [primaryKinds, Opens]

/-- **The octets with which a primary record starts.** The kind of the record is all there is, or a
colon or the end of the line comes next. -/
theorem startsKey_iff : StartsKey octets ↔ ∃ name ∈ primaryKinds, octets = Utf8.ascii name
    ∨ ∃ mark ∈ marks, Utf8.ascii (name ++ mark) <+: octets := by
  have hkinds : StartsKey octets ↔ ∃ name ∈ primaryKinds, ∃ header rest,
      Lined (Utf8.decode octets) (header :: rest) ∧ kind header = name := by
    unfold StartsKey
    simp only [opens_iff]
    constructor
    · rintro ⟨header, rest, hlined, name, hname, hkind⟩
      exact ⟨name, hname, header, rest, hlined, hkind⟩
    · rintro ⟨name, hname, header, rest, hlined, hkind⟩
      exact ⟨header, rest, hlined, name, hname, hkind⟩
  rw [hkinds]
  refine exists_congr fun name => and_congr_right fun hname => ?_
  have hplain : ':' ∉ name ∧ '\n' ∉ name ∧ '\r' ∉ name ∧ name ≠ [] := by
    revert name
    decide
  have hascii : ∀ mark ∈ [] :: marks, Utf8.IsAscii (name ++ mark) := by
    revert name
    decide
  rw [exists_first_kind_iff hplain.1 hplain.2.1 hplain.2.2.1 hplain.2.2.2]
  refine or_congr (Utf8.decode_eq_ascii_iff ?_) (exists_congr fun mark =>
    and_congr_right fun hmark => Utf8.isPrefix_decode_iff (hascii mark (.tail _ hmark)))
  simpa using hascii [] (.head _)

/-- **A primary record is a clean cut.** Octets are read with a replacement for each maximal subpart
that is not UTF-8. What stands before a primary record and ends with a line is read apart from it,
whatever octets there are on either side; and every primary record of a listing is such a place. -/
theorem cut_cleanly :
    (∀ octets text, Utf8.Reads octets text ↔ Utf8.decode octets = text)
      ∧ (∀ octets, StartsKey octets ↔ ∃ name ∈ primaryKinds,
        octets = Utf8.ascii name ∨ ∃ mark ∈ marks, Utf8.ascii (name ++ mark) <+: octets)
      ∧ (∀ before after, EndsLine before → StartsKey after →
        keys (Utf8.decode (before ++ after))
          = keys (Utf8.decode before) ++ keys (Utf8.decode after))
      ∧ ∀ octets ls header rest, Lined (Utf8.decode octets) (ls ++ header :: rest) → Opens header →
        ∃ before after, octets = before ++ after ∧ EndsLine before ∧ StartsKey after
          ∧ Lined (Utf8.decode before) ls ∧ Lined (Utf8.decode after) (header :: rest)
          ∧ keys (Utf8.decode octets)
            = keys (Utf8.decode before) ++ keys (Utf8.decode after) := by
  refine ⟨fun octets text => Utf8.reads_iff, fun octets => startsKey_iff,
    fun before after hbefore hafter => keys_decode_append hbefore hafter, ?_⟩
  intro octets ls header rest hlined hopens
  obtain ⟨before, after, rfl, hends, hbefore, hafter⟩ := exists_cut_before hlined
  have hstarts : StartsKey after := ⟨header, rest, hafter, hopens⟩
  exact ⟨before, after, rfl, hends, hstarts, hbefore, hafter, keys_decode_append hends hstarts⟩

/-- A user id that breaks off in the middle of a character, right before a key. -/
theorem cut_cleanly_broken_user_id :
    let before := Utf8.ascii "pub:\nfpr:::::::::AA:\nuid:::::::::".toList ++ [0xE2, 0x82, 0x0A]
    let after := Utf8.ascii "sec\r\nfpr:::::::::BB:\nuid:::::::::b".toList ++ [0xF0]
    EndsLine before ∧ StartsKey after
      ∧ keys (Utf8.decode before) = [⟨"AA", "\uFFFD", false⟩]
      ∧ keys (Utf8.decode after) = [⟨"BB", "b\uFFFD", true⟩]
      ∧ keys (Utf8.decode (before ++ after))
        = keys (Utf8.decode before) ++ keys (Utf8.decode after)
      ∧ ∃ start rest, before ++ after = start ++ rest ∧ StartsKey rest
        ∧ Lined (Utf8.decode start) (lines (Utf8.decode before)) := by
  intro before after
  obtain ⟨-, hforms, hkeys, hcuts⟩ := cut_cleanly
  have hends : EndsLine before := .inr (by decide +kernel)
  have hstarts : StartsKey after :=
    (hforms after).mpr ⟨['s', 'e', 'c'], by decide, .inr ⟨['\r', '\n'], by decide,
      by decide +kernel⟩⟩
  have hlined : Lined (Utf8.decode (before ++ after)) (lines (Utf8.decode before)
      ++ ['s', 'e', 'c'] :: (lines (Utf8.decode after)).tail) :=
    lined_iff.mpr (by decide +kernel)
  obtain ⟨start, rest, hcut, -, hrest, hstart, -⟩ := hcuts _ _ _ _ hlined (.inr rfl)
  exact ⟨hends, hstarts, by decide +kernel, by decide +kernel,
    hkeys before after hends hstarts, start, rest, hcut, hrest, hstart⟩

end KeyBuckets.Listing
