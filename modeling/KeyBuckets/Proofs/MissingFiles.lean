import KeyBuckets.Proofs.Answers
import KeyBuckets.Proofs.Decoding
import KeyBuckets.Proofs.Preparation

/-!
# Missing files — whose home a message is about

A program that misses a file says so, with the path of the file. Whether the file is part of a
keyring is then a matter of components: the path has to lead on from the home. It is told by the
text instead, and the home may be part of a path that has nothing to do with it.

* **`Inside`** — a path that leads on from another, component by component.
* **`failure_of_saysMissing`** — what a message about a missing file is taken for.
* **`spokenOf_home_iff`**, **`not_inside_home`** — two homes with one stem: one is part of the text
  about the other exactly if its number starts the other number, and neither is inside the other.
* **`missing_elsewhere`** — which files elsewhere are taken for a missing keyring.
-/

namespace KeyBuckets

namespace Machine

/-! ## Paths inside others -/

/-- The components of a path: its names without those that lead nowhere. -/
def componentsOf (path : String) : List String :=
  (namesOf path).filter fun name => name ≠ "" ∧ name ≠ "."

/-- The path is the other one or leads on from it. -/
def Inside (home path : String) : Prop :=
  componentsOf home <+: componentsOf path

instance (home path : String) : Decidable (Inside home path) :=
  inferInstanceAs (Decidable (_ <+: _))

theorem namesOf_append_slash (path file : String) :
    namesOf (path ++ "/" ++ file) = namesOf path ++ namesOf file := by
  have hslash : (path ++ "/" ++ file).toList = path.toList ++ '/' :: file.toList := by simp
  unfold namesOf
  rw [hslash, Text.pieces_append_cons _ _ _ (by rfl), List.map_append]

/-! ## Messages -/

/-- The message that there is nothing at a path. -/
def missingText (path : String) : String :=
  "gpg: " ++ path ++ ": No such file or directory"

/-- The program says that there is nothing at a path. -/
def Reply.SaysMissing (reply : Reply) (path : String) : Prop :=
  Text.Utf8.decode reply.stderr = (missingText path).toList

/-- The home is part of the text about a path at which there is nothing, at any place. -/
def SpokenOf (home path : String) : Prop :=
  home.toList <:+: path.toList ++ ": No such file or directory".toList

variable {reply : Reply} {path : String}

theorem toList_missingText (path : String) :
    (missingText path).toList = ['g', 'p', 'g'] ++ ':' :: ((' ' :: path.toList)
      ++ ':' :: " No such file or directory".toList) := by
  simp [missingText]

/-- What is in such a message, has no colon and does not start with a space is in the path or in
what is said of it. -/
theorem infix_missingText_iff {text : List Char} (hcolon : ':' ∉ text)
    (hspace : text.head? ≠ some ' ') (hprogram : ¬ text <:+: ['g', 'p', 'g']) :
    text <:+: (missingText path).toList
      ↔ text <:+: path.toList ∨ text <:+: " No such file or directory".toList := by
  have hcons : text <:+: ' ' :: path.toList ↔ text <:+: path.toList :=
    @Text.infix_append_iff_of_head? text [' '] path.toList (by simpa using hspace)
  rw [toList_missingText, Text.infix_append_cons_iff hcolon, Text.infix_append_cons_iff hcolon,
    hcons, or_iff_right hprogram]

/-- Such a message refuses nothing, if its path does not read as if it did. -/
theorem Reply.SaysMissing.not_refused (h : reply.SaysMissing path)
    (hpath : ¬ "ermission denied".toList <:+: path.toList) : ¬ reply.Refused := by
  intro hrefused
  have hdenied : "ermission denied".toList <:+: (missingText path).toList := by
    rw [← h]
    rcases hrefused with hcapital | hsmall
    · have hpart : "ermission denied".toList <:+: "Permission denied".toList := by decide +kernel
      exact hpart.trans hcapital
    · have hpart : "ermission denied".toList <:+: "permission denied".toList := by decide +kernel
      exact hpart.trans hsmall
  rw [infix_missingText_iff (by decide +kernel) (by decide +kernel) (by decide +kernel)] at hdenied
  exact hdenied.elim hpath (by decide +kernel)

end Machine

namespace Keyring

open Machine

variable {ring : Keyring} {reply : Reply} {path : String}

theorem mentions_home_iff (hhome : isAbsolute ring.home = true) (h : reply.SaysMissing path) :
    reply.Mentions ring.home ↔ SpokenOf ring.home path := by
  have hslash : ring.home.toList.head? = some '/' := beq_iff_eq.mp hhome
  have htext : (missingText path).toList
      = "gpg: ".toList ++ (path.toList ++ ": No such file or directory".toList) := by
    simp [missingText]
  unfold Reply.Mentions SpokenOf
  rw [h, htext]
  refine Text.infix_append_iff_of_head? fun c hc hhead => ?_
  obtain rfl : '/' = c := Option.some.inj (hslash.symm.trans hhead)
  exact absurd hc (by decide +kernel)

/-- What a message about a missing file is taken for. -/
theorem failure_of_saysMissing (hhome : isAbsolute ring.home = true) (h : reply.SaysMissing path)
    (hpath : ¬ "ermission denied".toList <:+: path.toList) :
    (SpokenOf ring.home path ∧ ring.failure reply = .noKeyring)
      ∨ (¬ SpokenOf ring.home path
        ∧ ring.failure reply = .gpg reply.ending.status (missingText path)) := by
  have hmissing : reply.Mentions "No such file or directory" := by
    unfold Reply.Mentions
    rw [h, infix_missingText_iff (by decide +kernel) (by decide +kernel) (by decide +kernel)]
    exact .inr (by decide +kernel)
  have hmisses : ring.Misses reply ↔ SpokenOf ring.home path := by
    unfold Misses
    rw [and_iff_right hmissing, mentions_home_iff hhome h]
  rw [failure_eq, if_neg (h.not_refused hpath)]
  by_cases hspoken : SpokenOf ring.home path
  · exact .inl ⟨hspoken, if_pos (hmisses.mpr hspoken)⟩
  · rw [if_neg (mt hmisses.mp hspoken), h, String.ofList_toList]
    exact .inr ⟨hspoken, rfl⟩

theorem fails_of_saysMissing (hhome : isAbsolute ring.home = true) (h : reply.SaysMissing path)
    (hpath : ¬ "ermission denied".toList <:+: path.toList) :
    (ring.Fails reply (.gpg reply.ending.status (missingText path)) ↔ ¬ SpokenOf ring.home path)
      ∧ (ring.Fails reply .noKeyring ↔ SpokenOf ring.home path) := by
  rw [fails_iff, fails_iff]
  rcases failure_of_saysMissing hhome h hpath with ⟨hspoken, hfailure⟩ | ⟨hspoken, hfailure⟩ <;>
    simp [hspoken, hfailure]

end Keyring

namespace Bucket

open Machine

/-! ## Two homes with one stem -/

variable {stem : String} {i j : Nat}

/-- The home of a bucket is in the text about another one exactly if its number starts the other
number. -/
theorem spokenOf_home_iff (hstem : isAbsolute stem = true) :
    SpokenOf (home stem i) (home stem j) ↔ i.repr.toList <+: j.repr.toList := by
  have hhome : ∀ n, (home stem n).toList = stem.toList ++ n.repr.toList :=
    fun n => String.toList_append
  have hrest : ": No such file or directory".toList
      = ':' :: " No such file or directory".toList := by simp
  constructor
  · intro h
    -- both have the slashes of the stem, and the text starts with one of them
    have hhead : ((home stem j).toList ++ ": No such file or directory".toList).head?
        = some '/' := by
      have hslash := beq_iff_eq.mp ((isAbsolute_home stem j).trans hstem)
      rw [List.head?_append, hslash]
      rfl
    have hcount : (home stem i).toList.count '/'
        = ((home stem j).toList ++ ": No such file or directory".toList).count '/' := by
      have hnone : ": No such file or directory".toList.count '/' = 0 := by decide +kernel
      simp only [hhome, List.count_append, hnone,
        List.count_eq_zero_of_not_mem (slash_not_mem_repr _), Nat.add_zero]
    have hstart := Text.isPrefix_of_infix_of_count hhead hcount h
    rw [hhome, hhome, List.append_assoc, List.prefix_append_right_inj, hrest] at hstart
    have hcolon : ':' ∉ i.repr.toList := fun hmem =>
      absurd (Text.Numeral.isDigit_of_mem_repr hmem) (by decide)
    exact Text.isPrefix_of_not_mem hcolon hstart
  · rintro ⟨more, hmore⟩
    refine ⟨[], more ++ ": No such file or directory".toList, ?_⟩
    rw [hhome, hhome, ← hmore]
    simp

theorem spokenOf_home_file (h : i.repr.toList <+: j.repr.toList) (file : String) :
    SpokenOf (home stem i) (home stem j ++ "/" ++ file) := by
  obtain ⟨more, hmore⟩ := h
  refine ⟨[], more ++ '/' :: (file.toList ++ ": No such file or directory".toList), ?_⟩
  simp only [home, String.toList_append, ← hmore]
  simp

theorem exists_componentsOf_home (stem : String) : ∃ names base, ∀ n,
    componentsOf (home stem n) = names ++ [base ++ n.repr] := by
  obtain ⟨names, base, hnames⟩ := exists_namesOf_home stem
  refine ⟨names.filter fun name => name ≠ "" ∧ name ≠ ".", base, fun n => ?_⟩
  obtain ⟨hhome, hempty, hdot, -⟩ := hnames n
  unfold componentsOf
  rw [hhome, List.filter_append, List.filter_singleton]
  simp [hempty, hdot]

/-- No home is inside another with the same stem, and none of its files is. -/
theorem not_inside_home (hij : i ≠ j) (file : String) :
    ¬ Inside (home stem i) (home stem j) ∧ ¬ Inside (home stem i) (home stem j ++ "/" ++ file) := by
  obtain ⟨names, base, hcomponents⟩ := exists_componentsOf_home stem
  have hnot : ∀ more, ¬ names ++ [base ++ i.repr] <+: names ++ [base ++ j.repr] ++ more := by
    intro more hpre
    rw [List.append_assoc, List.prefix_append_right_inj] at hpre
    obtain ⟨hname, -⟩ := List.cons_prefix_cons.mp hpre
    exact hij (home_injective base hname)
  unfold Inside
  constructor
  · rw [hcomponents, hcomponents]
    simpa using hnot []
  · have hfile : componentsOf (home stem j ++ "/" ++ file)
        = componentsOf (home stem j) ++ componentsOf file := by
      unfold componentsOf
      rw [namesOf_append_slash, List.filter_append]
    rw [hfile, hcomponents, hcomponents]
    exact hnot _

end Bucket

namespace Keyring

open Machine

/-- **Which files elsewhere are taken for a missing keyring.** It is told by the text: a file is
taken for the keyring exactly if the home is part of what is said of it, wherever the file is. A
bucket with the same stem, which is never inside the home, is taken for it exactly if the number of
the home starts its number, and then its files are as well. -/
theorem missing_elsewhere (ring : Keyring) (reply : Reply) (path : String)
    (hhome : isAbsolute ring.home = true) (hmessage : reply.SaysMissing path)
    (hpath : ¬ "ermission denied".toList <:+: path.toList) :
    (ring.Fails reply (.gpg reply.ending.status (missingText path)) ↔ ¬ SpokenOf ring.home path)
      ∧ (ring.Fails reply .noKeyring ↔ SpokenOf ring.home path)
      ∧ ∀ (stem : String) (i j : Nat), ring.home = Bucket.home stem i → i ≠ j →
        (path = Bucket.home stem j → ¬ Inside ring.home path
          ∧ (ring.Fails reply (.gpg reply.ending.status (missingText path))
            ↔ ¬ i.repr.toList <+: j.repr.toList))
        ∧ ∀ file, path = Bucket.home stem j ++ "/" ++ file → ¬ Inside ring.home path
          ∧ (i.repr.toList <+: j.repr.toList → ring.Fails reply .noKeyring) := by
  obtain ⟨hgpg, hmissing⟩ := fails_of_saysMissing hhome hmessage hpath
  refine ⟨hgpg, hmissing, fun stem i j hring hij => ⟨?_, ?_⟩⟩
  · rintro rfl
    have hstem : isAbsolute stem = true := by rwa [hring, Bucket.isAbsolute_home] at hhome
    rw [hgpg, hring]
    exact ⟨(Bucket.not_inside_home hij "").1, not_congr (Bucket.spokenOf_home_iff hstem)⟩
  · rintro file rfl
    rw [hmissing, hring]
    exact ⟨(Bucket.not_inside_home hij file).2, fun hnumbers =>
      Bucket.spokenOf_home_file hnumbers file⟩

/-- The second bucket is missing, and the first one fails with the message. -/
theorem missing_elsewhere_second_bucket :
    let ring : Keyring := { home := Bucket.home "/p" 1 }
    let path := Bucket.home "/p" 2
    let reply : Reply :=
      { stderr := Text.Utf8.ascii (missingText path).toList, ending := .exited 2 }
    isAbsolute ring.home = true ∧ reply.SaysMissing path
      ∧ ¬ "ermission denied".toList <:+: path.toList ∧ ¬ Inside ring.home path
      ∧ ring.Fails reply (.gpg 2 (missingText path)) := by
  intro ring path reply
  have hhome : isAbsolute ring.home = true := by decide +kernel
  have hmessage : reply.SaysMissing path :=
    (Text.Utf8.decode_eq_ascii_iff (by decide +kernel)).mpr rfl
  have hpath : ¬ "ermission denied".toList <:+: path.toList := by decide +kernel
  obtain ⟨-, -, hbuckets⟩ := missing_elsewhere ring reply path hhome hmessage hpath
  obtain ⟨hinside, hfails⟩ := (hbuckets "/p" 1 2 rfl (by decide)).1 rfl
  exact ⟨hhome, hmessage, hpath, hinside, hfails.mpr (by decide +kernel)⟩

/-- A keyring in `/p1` is said to be missing when `/p10` is. -/
theorem missing_neighbour_taken_for_home :
    let ring : Keyring := { home := "/p1" }
    let reply : Reply :=
      { stderr := Text.Utf8.ascii (missingText "/p10").toList, ending := .exited 2 }
    isAbsolute ring.home = true ∧ isAbsolute "/p10" = true ∧ ¬ Inside ring.home "/p10"
      ∧ ¬ "ermission denied".toList <:+: ring.home.toList
      ∧ ¬ "ermission denied".toList <:+: "/p10".toList
      ∧ Bucket.home "/p" 1 = ring.home ∧ Bucket.home "/p" 10 = "/p10"
      ∧ reply.ending ≠ .exited 0 ∧ reply.SaysMissing "/p10"
      ∧ ring.output reply = .error .noKeyring
      ∧ ring.output reply ≠ .error (.gpg 2 (missingText "/p10")) := by
  intro ring reply
  have houtput : ring.output reply = .error .noKeyring := by decide +kernel
  refine ⟨by decide +kernel, by decide +kernel, by decide +kernel, by decide +kernel,
    by decide +kernel, by decide +kernel, by decide +kernel, by decide, ?_, houtput, ?_⟩
  · exact (Text.Utf8.decode_eq_ascii_iff (by decide +kernel)).mpr rfl
  · rw [houtput]
    simp

end Keyring

end KeyBuckets
