import KeyBuckets.Listing
import KeyBuckets.Proofs.Lines

/-!
# Segments — the keys of a listing without a key in progress

Keys are read line by line, with one key in progress and a note of whether its subkeys have begun.
What comes of it can be said of the lines at once: those that open a key cut the listing into
segments, and each segment has its fingerprint and its user id at the first line of the right kind.

* **`Segment`** — a line that opens a key, and the lines that belong to it.
* **`Segment.key?`** — the key of a segment.
* **`Cut`** — a listing, what stands before its first segment, and its segments.
* **`Draft.foldl_note`** — the key in progress after some lines, by what these lines say.
* **`keys_eq_filterMap_segments`** — a listing is cut in one way, and has the keys of its segments.
-/

namespace KeyBuckets.Listing

open Text

/-! ## What a line says -/

/-- The first field of a line, which names its kind. -/
def kind (line : List Char) : List Char :=
  (line.splitOn ':').headD []

def tenth? (line : List Char) : Option (List Char) :=
  (line.splitOn ':')[9]?

/-- The line is the record of a primary key. -/
def Opens (line : List Char) : Prop :=
  kind line = ['p', 'u', 'b'] ∨ kind line = ['s', 'e', 'c']

/-- The line is the record of a subkey. -/
def OpensSubkey (line : List Char) : Prop :=
  kind line = ['s', 'u', 'b'] ∨ kind line = ['s', 's', 'b']

instance (line : List Char) : Decidable (Opens line) :=
  inferInstanceAs (Decidable (_ ∨ _))

instance (line : List Char) : Decidable (OpensSubkey line) :=
  inferInstanceAs (Decidable (_ ∨ _))

/-- The fingerprint on a line, if the line is one of fingerprints and has one. -/
def fingerprintOn? (line : List Char) : Option (List Char) :=
  if kind line = ['f', 'p', 'r'] then (tenth? line).filter (· ≠ []) else none

/-- The user id on a line, which may be empty, if the line is one of user ids. -/
def userIdOn? (line : List Char) : Option (List Char) :=
  if kind line = ['u', 'i', 'd'] then tenth? line else none

/-! ## Segments -/

/-- A line that opens a key, and the lines up to the next one that does. -/
@[ext] structure Segment where
  header : List Char
  body : List (List Char)
  opens : Opens header
  closed : ∀ line ∈ body, ¬ Opens line

namespace Segment

def lines (segment : Segment) : List (List Char) :=
  segment.header :: segment.body

/-- The first fingerprint of a segment, unless its subkeys begin before. -/
def fingerprint? (segment : Segment) : Option (List Char) :=
  (segment.body.takeWhile (¬ OpensSubkey ·)).findSome? fingerprintOn?

/-- The first user id of a segment, wherever it stands. -/
def userId? (segment : Segment) : Option (List Char) :=
  segment.body.findSome? userIdOn?

/-- The key of a segment, if it has a fingerprint. -/
def key? (segment : Segment) : Option Key :=
  segment.fingerprint?.map fun text =>
    { fingerprint := String.ofList (upperCase text)
      userId := String.ofList (segment.userId?.getD [])
      hasSecret := kind segment.header = ['s', 'e', 'c'] }

end Segment

/-- A text, the lines of it that stand before all segments, and its segments. -/
structure Cut (text : List Char) (before : List (List Char)) (segments : List Segment) : Prop where
  lined : Lined text (before ++ segments.flatMap Segment.lines)
  closed : ∀ line ∈ before, ¬ Opens line

/-! ## There is one cut -/

theorem exists_segments (ls : List (List Char)) :
    ∃ (before : List (List Char)) (segments : List Segment),
      ls = before ++ segments.flatMap Segment.lines ∧ ∀ line ∈ before, ¬ Opens line := by
  induction ls with
  | nil => exact ⟨[], [], rfl, List.forall_mem_nil _⟩
  | cons line ls ih =>
    obtain ⟨body, segments, rfl, hbody⟩ := ih
    by_cases hline : Opens line
    · exact ⟨[], ⟨line, body, hline, hbody⟩ :: segments, rfl, List.forall_mem_nil _⟩
    · exact ⟨line :: body, segments, rfl, List.forall_mem_cons.mpr ⟨hline, hbody⟩⟩

theorem exists_cut (text : List Char) : ∃ before segments, Cut text before segments := by
  obtain ⟨before, segments, hlines, hbefore⟩ := exists_segments (lines text)
  exact ⟨before, segments, hlines ▸ lined_lines text, hbefore⟩

/-- What stands before all segments goes on to the first line that opens a key. -/
theorem takeWhile_append_segments {before : List (List Char)}
    (hbefore : ∀ line ∈ before, ¬ Opens line) (segments : List Segment) :
    (before ++ segments.flatMap Segment.lines).takeWhile (¬ Opens ·) = before := by
  have hnone : (segments.flatMap Segment.lines).takeWhile (¬ Opens ·) = [] := by
    cases segments with
    | nil => rfl
    | cons segment segments => simp [Segment.lines, segment.opens]
  rw [List.takeWhile_append_of_pos fun line hline => decide_eq_true (hbefore line hline), hnone,
    List.append_nil]

theorem append_segments_inj {before before' : List (List Char)} {segments segments' : List Segment}
    (hbefore : ∀ line ∈ before, ¬ Opens line) (hbefore' : ∀ line ∈ before', ¬ Opens line)
    (h : before ++ segments.flatMap Segment.lines = before' ++ segments'.flatMap Segment.lines) :
    before = before' ∧ segments.flatMap Segment.lines = segments'.flatMap Segment.lines := by
  have hsame : before = before' := by
    rw [← takeWhile_append_segments hbefore segments, h, takeWhile_append_segments hbefore']
  subst hsame
  exact ⟨rfl, List.append_cancel_left h⟩

theorem segments_unique {before before' : List (List Char)} {segments segments' : List Segment}
    (hbefore : ∀ line ∈ before, ¬ Opens line) (hbefore' : ∀ line ∈ before', ¬ Opens line)
    (h : before ++ segments.flatMap Segment.lines = before' ++ segments'.flatMap Segment.lines) :
    before = before' ∧ segments = segments' := by
  -- the body of a segment is what stands before all later segments
  induction segments generalizing before before' segments' with
  | nil =>
    obtain ⟨rfl, hrest⟩ := append_segments_inj hbefore hbefore' h
    cases segments' with
    | nil => exact ⟨rfl, rfl⟩
    | cons segment' segments' => cases hrest
  | cons segment segments ih =>
    obtain ⟨rfl, hrest⟩ := append_segments_inj hbefore hbefore' h
    cases segments' with
    | nil => cases hrest
    | cons segment' segments' =>
      obtain ⟨hheader, htail⟩ := List.cons.inj hrest
      obtain ⟨hbody, hsegments⟩ := ih segment.closed segment'.closed htail
      exact ⟨rfl, by rw [Segment.ext hheader hbody, hsegments]⟩

theorem Cut.unique {text : List Char} {before before' : List (List Char)}
    {segments segments' : List Segment} (h : Cut text before segments)
    (h' : Cut text before' segments') : before = before' ∧ segments = segments' := by
  refine segments_unique h.closed h'.closed ?_
  rw [lined_iff.mp h.lined, lined_iff.mp h'.lined]

/-! ## The records of a segment -/

theorem ofLine_eq (line : List Char) :
    Record.ofLine line =
      if kind line = ['p', 'u', 'b'] then .primary false
      else if kind line = ['s', 'e', 'c'] then .primary true
      else if OpensSubkey line then .subkey
      else match tenth? line with
        | none => .other
        | some text =>
          if kind line = ['f', 'p', 'r'] ∧ text ≠ [] then .fingerprint (upperCase text)
          else if kind line = ['u', 'i', 'd'] then .userId text
          else .other := by
  unfold Record.ofLine
  rw [fields_eq_splitOn]
  rfl

theorem ofLine_of_opens {line : List Char} (h : Opens line) :
    Record.ofLine line = .primary (kind line = ['s', 'e', 'c']) := by
  rw [ofLine_eq]
  rcases h with hpub | hsec
  · simp [hpub]
  · simp [hsec]

theorem ofLine_ne_primary {line : List Char} (h : ¬ Opens line) (secret : Bool) :
    Record.ofLine line ≠ .primary secret := by
  obtain ⟨hpub, hsec⟩ := not_or.mp h
  rw [ofLine_eq, if_neg hpub, if_neg hsec]
  repeat' split
  all_goals simp

/-- The record of a subkey says nothing of the key itself. -/
theorem says_nothing_of_opensSubkey {line : List Char} (h : OpensSubkey line) :
    fingerprintOn? line = none ∧ userIdOn? line = none := by
  unfold fingerprintOn? userIdOn?
  rcases h with hsub | hssb
  · simp [hsub]
  · simp [hssb]

/-- What the record on a line does to the key in progress, if the line does not open another. -/
theorem Draft.note_ofLine (draft : Draft) {line : List Char} (h : ¬ Opens line) :
    draft.note (Record.ofLine line)
      = { hasSecret := draft.hasSecret
          fingerprint := draft.fingerprint.or
            (if draft.inSubkey then none else (fingerprintOn? line).map upperCase)
          userId := draft.userId.or (userIdOn? line)
          inSubkey := draft.inSubkey || OpensSubkey line } := by
  obtain ⟨hpub, hsec⟩ := not_or.mp h
  rw [ofLine_eq, if_neg hpub, if_neg hsec]
  rcases draft with ⟨hasSecret, fingerprint, userId, inSubkey⟩
  by_cases hsubkey : OpensSubkey line
  · obtain ⟨hfingerprint, huserId⟩ := says_nothing_of_opensSubkey hsubkey
    simp [hsubkey, hfingerprint, huserId, note]
  · rw [if_neg hsubkey]
    unfold fingerprintOn? userIdOn?
    -- of the other lines only those with a tenth field say anything
    cases htenth : tenth? line with
    | none => simp [note, hsubkey]
    | some text =>
      by_cases hfpr : kind line = ['f', 'p', 'r']
      · by_cases hempty : text = []
        · simp [hfpr, hempty, hsubkey, note, Option.filter_some]
        · cases inSubkey <;> simp [hfpr, hempty, hsubkey, note, Option.filter_some]
      · by_cases huid : kind line = ['u', 'i', 'd']
        · simp [huid, hsubkey, note]
        · simp [hfpr, huid, hsubkey, note]

theorem findSome?_cons_eq_or {α β : Type} (f : α → Option β) (x : α) (xs : List α) :
    (x :: xs).findSome? f = (f x).or (xs.findSome? f) := by
  rw [List.findSome?_cons]
  cases f x <;> rfl

/-- **The key in progress after some lines**, by what these lines say. -/
theorem Draft.foldl_note (draft : Draft) {body : List (List Char)}
    (hbody : ∀ line ∈ body, ¬ Opens line) :
    (body.map Record.ofLine).foldl note draft
      = { hasSecret := draft.hasSecret
          fingerprint := draft.fingerprint.or
            (if draft.inSubkey then none
              else ((body.takeWhile (¬ OpensSubkey ·)).findSome? fingerprintOn?).map upperCase)
          userId := draft.userId.or (body.findSome? userIdOn?)
          inSubkey := draft.inSubkey || body.any (OpensSubkey ·) } := by
  induction body generalizing draft with
  | nil => simp
  | cons line body ih =>
    obtain ⟨hline, hbody⟩ := List.forall_mem_cons.mp hbody
    rw [List.map_cons, List.foldl_cons, note_ofLine draft hline, ih _ hbody]
    rw [findSome?_cons_eq_or, List.any_cons, Option.or_assoc, Option.or_assoc, Bool.or_assoc]
    congr 2
    -- fingerprints count up to the first subkey, which may be on this line or have come before
    cases hinSubkey : draft.inSubkey with
    | true => simp
    | false =>
      by_cases hsubkey : OpensSubkey line
      · obtain ⟨hfingerprint, -⟩ := says_nothing_of_opensSubkey hsubkey
        simp [hsubkey, hfingerprint]
      · rw [List.takeWhile_cons_of_pos (by simpa using hsubkey), findSome?_cons_eq_or]
        simp [hsubkey, Option.map_or]

/-! ## The keys of the segments -/

theorem keysFrom_of_not_primary {records : List Record}
    (h : ∀ record ∈ records, ∀ secret, record ≠ .primary secret) (draft : Option Draft) :
    keysFrom draft records
      = (draft.bind fun draft => (records.foldl Draft.note draft).key?).toList := by
  induction records generalizing draft with
  | nil => cases draft <;> rfl
  | cons record records ih =>
    obtain ⟨hrecord, hrecords⟩ := List.forall_mem_cons.mp h
    have hstep : keysFrom draft (record :: records)
        = keysFrom (draft.map (·.note record)) records := by
      cases record with
      | primary secret => exact absurd rfl (hrecord secret)
      | subkey => rfl
      | fingerprint text => rfl
      | userId text => rfl
      | other => rfl
    rw [hstep, ih hrecords]
    cases draft <;> rfl

theorem ofLine_body_ne_primary {body : List (List Char)} (h : ∀ line ∈ body, ¬ Opens line) :
    ∀ record ∈ body.map Record.ofLine, ∀ secret, record ≠ .primary secret := by
  intro record hrecord
  obtain ⟨line, hline, rfl⟩ := List.mem_map.mp hrecord
  exact ofLine_ne_primary (h line hline)

theorem keysOf_of_forall_not_opens {before : List (List Char)} (h : ∀ line ∈ before, ¬ Opens line) :
    keysOf (before.map Record.ofLine) = [] :=
  keysFrom_of_not_primary (ofLine_body_ne_primary h) none

theorem keysOf_segment (segment : Segment) :
    keysOf (segment.lines.map Record.ofLine) = segment.key?.toList := by
  unfold Segment.lines keysOf
  rw [List.map_cons, ofLine_of_opens segment.opens, keysFrom,
    keysFrom_of_not_primary (ofLine_body_ne_primary segment.closed), Option.bind_none,
    Option.toList_none, List.nil_append, Option.bind_some, Draft.foldl_note _ segment.closed]
  unfold Draft.key? Segment.key? Segment.fingerprint? Segment.userId?
  simp [Option.map_map, Function.comp_def]

/-- Segments are read apart from what stands before them. -/
theorem keysOf_append_segments (before : List Record) (segments : List Segment) :
    keysOf (before ++ (segments.flatMap Segment.lines).map Record.ofLine)
      = keysOf before ++ keysOf ((segments.flatMap Segment.lines).map Record.ofLine) := by
  cases segments with
  | nil =>
    rw [List.flatMap_nil, List.map_nil, List.append_nil]
    exact (List.append_nil _).symm
  | cons segment segments =>
    rw [List.flatMap_cons, Segment.lines, List.cons_append, List.map_cons,
      ofLine_of_opens segment.opens]
    exact keysOf_append_primary before _ _

theorem keysOf_segments (segments : List Segment) :
    keysOf ((segments.flatMap Segment.lines).map Record.ofLine)
      = segments.filterMap Segment.key? := by
  induction segments with
  | nil => rfl
  | cons segment segments ih =>
    rw [List.flatMap_cons, List.map_append, keysOf_append_segments, keysOf_segment, ih,
      List.filterMap_cons]
    cases segment.key? <;> rfl

theorem Cut.keys_eq {text : List Char} {before : List (List Char)} {segments : List Segment}
    (h : Cut text before segments) : keys text = segments.filterMap Segment.key? := by
  unfold keys
  rw [h.lined.lines_eq, List.map_append, keysOf_append_segments, keysOf_of_forall_not_opens h.closed,
    keysOf_segments, List.nil_append]

/-- **The keys of a listing.** A text is cut into segments in one way, and its keys are those of its
segments, in their order. -/
theorem keys_eq_filterMap_segments (text : List Char) :
    ∃ before segments, Cut text before segments ∧ keys text = segments.filterMap Segment.key?
      ∧ ∀ before' segments', Cut text before' segments' →
        before' = before ∧ segments' = segments := by
  obtain ⟨before, segments, hcut⟩ := exists_cut text
  exact ⟨before, segments, hcut, hcut.keys_eq, fun _ _ hcut' => hcut'.unique hcut⟩

/-- A key whose only fingerprint is that of a subkey, and one with its fingerprint in small letters
and its user id after a subkey. -/
example : keys ("tru:\nsec:\nsub:\nfpr:::::::::AA:\n".toList
      ++ "pub:\r\nfpr:::::::::ab\nsub:\nfpr:::::::::CC:\nuid:::::::::me:\n".toList)
    = [⟨"AB", "me", false⟩] := by decide +kernel

end KeyBuckets.Listing
