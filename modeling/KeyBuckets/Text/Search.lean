/-!
# Text — looking for a text inside a text

A text without some character never lies across that character: it comes before it or after it.
-/

namespace KeyBuckets.Text

/-- Whether `pattern` occurs in a text, at any place. -/
def occursIn (pattern : List Char) : List Char → Bool
  | [] => pattern.isEmpty
  | c :: cs => pattern.isPrefixOf (c :: cs) || occursIn pattern cs

/-- Searching finds exactly the stretches of a text. -/
theorem occursIn_iff {pattern cs : List Char} : occursIn pattern cs = true ↔ pattern <:+: cs := by
  induction cs with
  | nil => simp [occursIn]
  | cons c cs ih => simp [occursIn, List.infix_cons_iff, ih]

/-! ## What a text does not have -/

theorem isPrefix_of_not_mem {start before after : List Char} {c : Char} (hc : c ∉ start)
    (h : start <+: before ++ c :: after) : start <+: before := by
  refine List.prefix_of_prefix_length_le h (List.prefix_append _ _) (Nat.le_of_not_lt ?_)
  intro hlength
  have hlonger : before ++ [c] <+: start := by
    refine List.prefix_of_prefix_length_le ⟨after, by simp⟩ h ?_
    rw [List.length_append, List.length_singleton]
    exact hlength
  exact hc (hlonger.subset (by simp))

theorem infix_append_cons_iff {pattern before after : List Char} {c : Char} (hc : c ∉ pattern) :
    pattern <:+: before ++ c :: after ↔ pattern <:+: before ∨ pattern <:+: after := by
  induction before with
  | nil =>
    rw [List.nil_append, List.infix_cons_iff, List.infix_nil]
    refine or_congr_left ⟨fun hpre => ?_, fun hnil => hnil ▸ List.nil_prefix⟩
    exact List.prefix_nil.mp (isPrefix_of_not_mem hc hpre)
  | cons b before ih =>
    rw [List.cons_append, List.infix_cons_iff, List.infix_cons_iff, ih, or_assoc]
    refine or_congr_left ⟨fun hpre => ?_, fun hpre => hpre.trans ⟨c :: after, rfl⟩⟩
    exact isPrefix_of_not_mem hc hpre

/-- A text is not in the characters that it does not start with. -/
theorem infix_append_iff_of_head? {pattern before after : List Char}
    (h : ∀ c ∈ before, pattern.head? ≠ some c) :
    pattern <:+: before ++ after ↔ pattern <:+: after := by
  induction before with
  | nil => rfl
  | cons b before ih =>
    obtain ⟨hb, hbefore⟩ := List.forall_mem_cons.mp h
    rw [List.cons_append, List.infix_cons_iff, ih hbefore, or_iff_right_iff_imp]
    rintro ⟨more, hmore⟩
    cases pattern with
    | nil => exact List.nil_infix
    | cons c pattern => exact absurd (congrArg some (List.cons.inj hmore).1) hb

/-- A stretch with all of the text's characters of the kind that the text starts with is at the
start. -/
theorem isPrefix_of_infix_of_count {pattern cs : List Char} {c : Char} (hhead : cs.head? = some c)
    (hcount : pattern.count c = cs.count c) (h : pattern <:+: cs) : pattern <+: cs := by
  obtain ⟨before, after, rfl⟩ := h
  rw [List.count_append, List.count_append] at hcount
  cases before with
  | nil => exact ⟨after, rfl⟩
  | cons b before =>
    obtain rfl : b = c := Option.some.inj hhead
    rw [List.count_cons_self] at hcount
    omega

end KeyBuckets.Text
