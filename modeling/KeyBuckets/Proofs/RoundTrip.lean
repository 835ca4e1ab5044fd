import KeyBuckets.Proofs.CanonicalForm
import KeyBuckets.Proofs.Merging
import KeyBuckets.Proofs.Segments
import Mathlib.Data.List.TakeWhile

/-!
# Round trip — a keyring and its two listings

A listing shows a key by the first fingerprint and the first user id of a segment, whatever else
stands there: further fingerprints and user ids, subkeys with fingerprints of their own, and lines
of other kinds. A listing of all keys and one of those with secret halves are enough to have the
keyring back.

* **`Segment.Shows`** — the segment of a key in a listing of public or of secret keys.
* **`Listed`** — a listing of some keys, in their order.
* **`Listed.keys_eq`** — such a listing has these keys.
* **`listed_plainText`** — there are such listings of any keys whose user ids fit into a field.
* **`markSecrets_keys_listed`** — a keyring from its two listings.
-/

namespace KeyBuckets

namespace Key

variable {keys : List Key}

/-! ## Keys with distinct fingerprints -/

theorem fingerprints_setSecret (secret : Bool) (keys : List Key) :
    fingerprints (keys.map fun key => { key with hasSecret := secret }) = fingerprints keys := by
  unfold fingerprints
  rw [List.map_map]
  rfl

/-- Where no two keys have the same fingerprint, each key is the first with its own. -/
theorem markFirsts_of_nodup (p : String → Bool) (h : (fingerprints keys).Nodup) :
    markFirsts p keys = keys.map fun key => key.mark (p key.fingerprint) := by
  induction keys generalizing p with
  | nil => rfl
  | cons k ks ih =>
    obtain ⟨hk, hks⟩ := List.nodup_cons.mp h
    have hothers : markFirsts (fun f => p f && f ≠ k.fingerprint) ks = markFirsts p ks := by
      refine markFirsts_congr fun f hf => ?_
      have hne : f ≠ k.fingerprint := by
        rintro rfl
        exact hk hf
      simp [hne]
    rw [markFirsts, hothers, ih p hks, List.map_cons]

theorem mem_fingerprints_filter_iff (h : (fingerprints keys).Nodup) {key : Key}
    (hkey : key ∈ keys) :
    key.fingerprint ∈ fingerprints (keys.filter (·.hasSecret)) ↔ key.hasSecret = true := by
  constructor
  · intro hmem
    obtain ⟨other, hother, hsame⟩ := List.mem_map.mp hmem
    obtain ⟨hin, hsecret⟩ := List.mem_filter.mp hother
    obtain rfl := List.inj_on_of_nodup_map h hin hkey hsame
    exact hsecret
  · intro hsecret
    exact List.mem_map_of_mem (List.mem_filter.mpr ⟨hkey, hsecret⟩)

/-- The keys with secret halves tell which of the keys these are, whatever else they say of them. -/
theorem markSecrets_of_perm {secretKeys : List Key} (h : (fingerprints keys).Nodup)
    (hperm : (fingerprints secretKeys).Perm (fingerprints (keys.filter (·.hasSecret)))) :
    markSecrets (keys.map fun key => { key with hasSecret := false }) secretKeys = keys := by
  have hbare := fingerprints_setSecret false keys
  have hknown : ∀ f ∈ fingerprints secretKeys,
      f ∈ fingerprints (keys.map fun key => { key with hasSecret := false }) := by
    intro f hf
    rw [hbare]
    have hsub : (keys.filter (·.hasSecret)).Sublist keys := List.filter_sublist
    exact (hsub.map _).subset (hperm.subset hf)
  rw [markSecrets_eq, strangers_eq_nil hknown, List.append_nil, markFirsts_of_nodup _ (hbare ▸ h),
    List.map_map]
  -- each key gets its own mark back
  refine (List.map_congr_left fun key hkey => ?_).trans (List.map_id keys)
  have hmark : decide (key.fingerprint ∈ fingerprints secretKeys) = key.hasSecret := by
    rw [Bool.eq_iff_iff, decide_eq_true_iff, hperm.mem_iff, mem_fingerprints_filter_iff h hkey]
  simp [mark, hmark]

end Key

namespace Listing

open Text Key

/-! ## The segment of a key -/

/-- A segment in a listing of public keys, or of secret ones, shows a key: by its first fingerprint,
in letters of either case and before all subkeys, and by its first user id. An empty user id may be
left out. -/
structure Segment.Shows (secret : Bool) (segment : Segment) (key : Key) : Prop where
  header : kind segment.header = if secret then ['s', 'e', 'c'] else ['p', 'u', 'b']
  fingerprint : ∃ early line late text, segment.body = early ++ line :: late
    ∧ (∀ other ∈ early, ¬ OpensSubkey other ∧ fingerprintOn? other = none)
    ∧ fingerprintOn? line = some text ∧ text.map Char.toUpper = key.fingerprint.toList
  userId : (∃ early line late, segment.body = early ++ line :: late
      ∧ (∀ other ∈ early, userIdOn? other = none) ∧ userIdOn? line = some key.userId.toList)
    ∨ key.userId = "" ∧ ∀ line ∈ segment.body, userIdOn? line = none

variable {secret : Bool} {segment : Segment} {key : Key}

/-- The line with the first fingerprint, where there is one before all subkeys. -/
theorem Segment.fingerprint?_eq_some_iff {text : List Char} :
    segment.fingerprint? = some text
      ↔ ∃ early line late, segment.body = early ++ line :: late
        ∧ (∀ other ∈ early, ¬ OpensSubkey other ∧ fingerprintOn? other = none)
        ∧ fingerprintOn? line = some text := by
  unfold fingerprint?
  constructor
  · intro h
    obtain ⟨early, line, rest, hprimary, hline, hearly⟩ := List.findSome?_eq_some_iff.mp h
    have hbody : segment.body.takeWhile (¬ OpensSubkey ·) ++ segment.body.dropWhile _
        = segment.body := List.takeWhile_append_dropWhile
    rw [hprimary, List.append_assoc, List.cons_append] at hbody
    refine ⟨early, line, _, hbody.symm, fun other hother => ⟨?_, hearly other hother⟩, hline⟩
    have hmem : other ∈ segment.body.takeWhile (¬ OpensSubkey ·) := by
      rw [hprimary]
      exact List.mem_append_left _ hother
    simpa using List.mem_takeWhile_imp hmem
  · rintro ⟨early, line, late, hbody, hearly, hline⟩
    have hkey : ∀ other ∈ early, decide (¬ OpensSubkey other) = true := fun other hother =>
      decide_eq_true (hearly other hother).1
    -- a line with a fingerprint is no record of a subkey itself
    have hprimary : ¬ OpensSubkey line := by
      intro hsubkey
      rw [(says_nothing_of_opensSubkey hsubkey).1] at hline
      cases hline
    rw [hbody, List.takeWhile_append_of_pos hkey,
      List.takeWhile_cons_of_pos (by simpa using hprimary), List.findSome?_eq_some_iff]
    exact ⟨early, line, _, rfl, hline, fun other hother => (hearly other hother).2⟩

/-- The line with the first user id. -/
theorem Segment.userId?_eq_some_iff {text : List Char} :
    segment.userId? = some text
      ↔ ∃ early line late, segment.body = early ++ line :: late
        ∧ (∀ other ∈ early, userIdOn? other = none) ∧ userIdOn? line = some text := by
  unfold userId?
  rw [List.findSome?_eq_some_iff]
  constructor
  · rintro ⟨early, line, late, hbody, hline, hearly⟩
    exact ⟨early, line, late, hbody, hearly, hline⟩
  · rintro ⟨early, line, late, hbody, hearly, hline⟩
    exact ⟨early, line, late, hbody, hline, hearly⟩

/-- An empty user id is as good as none. -/
theorem Segment.userId?_getD_eq_iff {text : List Char} :
    segment.userId?.getD [] = text
      ↔ segment.userId? = some text ∨ text = [] ∧ segment.userId? = none := by
  cases segment.userId? with
  | none => simp [eq_comm]
  | some found => simp

/-- What a segment shows can be computed. -/
theorem Segment.shows_iff :
    segment.Shows secret key
      ↔ kind segment.header = (if secret then ['s', 'e', 'c'] else ['p', 'u', 'b'])
        ∧ segment.fingerprint?.map (·.map Char.toUpper) = some key.fingerprint.toList
        ∧ segment.userId?.getD [] = key.userId.toList := by
  have hnone : segment.userId? = none ↔ ∀ line ∈ segment.body, userIdOn? line = none :=
    List.findSome?_eq_none_iff
  rw [userId?_getD_eq_iff, userId?_eq_some_iff, hnone, String.toList_eq_nil_iff]
  constructor
  · rintro ⟨hheader, ⟨early, line, late, text, hbody, hearly, hline, htext⟩, huserId⟩
    refine ⟨hheader, ?_, huserId⟩
    rw [fingerprint?_eq_some_iff.mpr ⟨early, line, late, hbody, hearly, hline⟩, Option.map_some,
      htext]
  · rintro ⟨hheader, hfingerprint, huserId⟩
    obtain ⟨text, hfound, htext⟩ := Option.map_eq_some_iff.mp hfingerprint
    obtain ⟨early, line, late, hbody, hearly, hline⟩ := fingerprint?_eq_some_iff.mp hfound
    exact ⟨hheader, ⟨early, line, late, text, hbody, hearly, hline, htext⟩, huserId⟩

instance : Decidable (segment.Shows secret key) :=
  decidable_of_iff _ Segment.shows_iff.symm

/-- What a segment shows is its key. -/
theorem Segment.Shows.key?_eq (h : segment.Shows secret key)
    (hform : Fingerprint.IsForm key.fingerprint) :
    segment.key? = some { key with hasSecret := secret } := by
  obtain ⟨hkind, hfingerprint, huserId⟩ := shows_iff.mp h
  obtain ⟨text, hfound, htext⟩ := Option.map_eq_some_iff.mp hfingerprint
  have hheader : decide (kind segment.header = ['s', 'e', 'c']) = secret := by
    rw [hkind]
    cases secret <;> rfl
  unfold key?
  rw [hfound, Option.map_some, hform.upperCase_eq htext, huserId, String.ofList_toList,
    String.ofList_toList, hheader]

/-! ## Listings -/

/-- The text is a listing of some public keys, or of some secret ones, in their order. What stands
before the first key is of no account. -/
def Listed (secret : Bool) (text : List Char) (keys : List Key) : Prop :=
  ∃ before segments, Cut text before segments
    ∧ List.Forall₂ (Segment.Shows secret) segments keys

variable {keys secretKeys : List Key}

/-- **A listing has the keys that it is one of.** -/
theorem Listed.keys_eq {text : List Char} (h : Listed secret text keys)
    (hforms : ∀ key ∈ keys, Fingerprint.IsForm key.fingerprint) :
    Listing.keys text = keys.map fun key => { key with hasSecret := secret } := by
  obtain ⟨before, segments, hcut, hshows⟩ := h
  rw [hcut.keys_eq]
  clear hcut
  induction hshows with
  | nil => rfl
  | cons hshow _ ih =>
    obtain ⟨hform, hforms⟩ := List.forall_mem_cons.mp hforms
    rw [List.filterMap_cons_some (hshow.key?_eq hform), ih hforms, List.map_cons]

/-! ## A plain listing -/

/-- A line of some kind that has a text as its tenth field and nothing else. -/
def plainLine (name text : List Char) : List Char :=
  name ++ List.replicate 9 ':' ++ text

theorem splitOn_plainLine {name : List Char} (hname : ':' ∉ name) (text : List Char) :
    (plainLine name text).splitOn ':' = name :: List.replicate 8 [] ++ text.splitOn ':' := by
  have hcolons : (List.replicate 8 ':' ++ text).splitOn ':'
      = List.replicate 8 [] ++ text.splitOn ':' := by
    simp [List.replicate, List.splitOn, List.splitOnP_cons_eq_if_modifyHead]
  have hline : plainLine name text = name ++ ':' :: (List.replicate 8 ':' ++ text) := by
    simp [plainLine, List.replicate]
  rw [hline, splitOn_append_colon, splitOn_of_not_mem hname, hcolons]
  rfl

theorem kind_plainLine {name : List Char} (hname : ':' ∉ name) (text : List Char) :
    kind (plainLine name text) = name := by
  unfold kind
  rw [splitOn_plainLine hname]
  rfl

theorem tenth?_plainLine {name text : List Char} (hname : ':' ∉ name) (htext : ':' ∉ text) :
    tenth? (plainLine name text) = some text := by
  unfold tenth?
  rw [splitOn_plainLine hname, splitOn_of_not_mem htext]
  rfl

/-- The segment of a key without anything that could be left out. -/
def Segment.plain (secret : Bool) (key : Key) : Segment where
  header := plainLine (if secret then ['s', 'e', 'c'] else ['p', 'u', 'b']) []
  body :=
    [plainLine ['f', 'p', 'r'] key.fingerprint.toList, plainLine ['u', 'i', 'd'] key.userId.toList]
  opens := by
    unfold Opens
    rw [kind_plainLine (by cases secret <;> decide)]
    cases secret <;> decide
  closed := by
    intro line hline
    unfold Opens
    rcases List.mem_pair.mp hline with rfl | rfl <;>
      rw [kind_plainLine (by decide)] <;> decide

/-- A listing of keys by their plain segments. -/
def plainText (secret : Bool) (keys : List Key) : List Char :=
  (keys.flatMap fun key => (Segment.plain secret key).lines).flatMap (· ++ ['\n'])

/-- A text that can stand in a field. -/
def Inline (text : List Char) : Prop :=
  ':' ∉ text ∧ '\n' ∉ text ∧ '\r' ∉ text

theorem inline_of_isForm {form : String} (h : Fingerprint.IsForm form) : Inline form.toList := by
  refine ⟨fun hmem => ?_, fun hmem => ?_, fun hmem => ?_⟩ <;>
    exact absurd (h.digits _ hmem) (by decide)

theorem not_mem_plainLine {name text : List Char} {c : Char} (hcolon : c ≠ ':') (hname : c ∉ name)
    (htext : c ∉ text) : c ∉ plainLine name text := by
  simp [plainLine, hcolon, hname, htext]

theorem shows_plain (secret : Bool) {key : Key} (hform : Fingerprint.IsForm key.fingerprint)
    (huserId : Inline key.userId.toList) : (Segment.plain secret key).Shows secret key := by
  refine ⟨kind_plainLine (by cases secret <;> decide) [],
    ⟨[], _, _, key.fingerprint.toList, rfl, List.forall_mem_nil _, ?_, ?_⟩,
    .inl ⟨[_], _, [], rfl, ?_, ?_⟩⟩
  · unfold fingerprintOn?
    rw [if_pos (kind_plainLine (by decide) _),
      tenth?_plainLine (by decide) (inline_of_isForm hform).1]
    simp [hform.toList_ne_nil]
  · exact (List.map_congr_left fun c hc => (hform.digits c hc).toUpper_eq).trans
      (List.map_id _)
  · unfold userIdOn?
    rw [List.forall_mem_singleton, kind_plainLine (by decide)]
    rfl
  · unfold userIdOn?
    rw [if_pos (kind_plainLine (by decide) _), tenth?_plainLine (by decide) huserId.1]

/-- **Every keyring has listings**, if its user ids can stand in a field. -/
theorem listed_plainText (secret : Bool) {keys : List Key}
    (hforms : ∀ key ∈ keys, Fingerprint.IsForm key.fingerprint)
    (huserIds : ∀ key ∈ keys, Inline key.userId.toList) :
    Listed secret (plainText secret keys) keys := by
  refine ⟨[], keys.map (Segment.plain secret), ⟨?_, List.forall_mem_nil _⟩, ?_⟩
  · rw [List.nil_append, List.flatMap_map]
    refine lined_flatMap fun line hline => ?_
    obtain ⟨key, hkey, hline⟩ := List.mem_flatMap.mp hline
    obtain ⟨-, hfeed, hreturn⟩ := inline_of_isForm (hforms key hkey)
    obtain ⟨-, hfeed', hreturn'⟩ := huserIds key hkey
    simp only [Segment.lines, Segment.plain, List.mem_cons, List.not_mem_nil, or_false] at hline
    rcases hline with rfl | rfl | rfl
    · cases secret <;> decide
    · exact ⟨not_mem_plainLine (by decide) (by decide) hfeed,
        not_mem_plainLine (by decide) (by decide) hreturn⟩
    · exact ⟨not_mem_plainLine (by decide) (by decide) hfeed',
        not_mem_plainLine (by decide) (by decide) hreturn'⟩
  · rw [List.forall₂_map_left_iff, List.forall₂_same]
    exact fun key hkey => shows_plain secret (hforms key hkey) (huserIds key hkey)

/-! ## The two listings of a keyring -/

/-- **A keyring from its two listings.** Any listing of the keys, and any of those that have their
secret halves, in whatever order, come to the keys as they were. -/
theorem markSecrets_keys_listed {publicText secretText : List Char}
    (hnodup : (fingerprints keys).Nodup)
    (hforms : ∀ key ∈ keys, Fingerprint.IsForm key.fingerprint)
    (hpublic : Listed false publicText keys) (hsecret : Listed true secretText secretKeys)
    (hperm : secretKeys.Perm (keys.filter (·.hasSecret))) :
    markSecrets (Listing.keys publicText) (Listing.keys secretText) = keys := by
  have hsecretForms : ∀ key ∈ secretKeys, Fingerprint.IsForm key.fingerprint := fun key hkey =>
    hforms key (List.mem_of_mem_filter (hperm.subset hkey))
  rw [hpublic.keys_eq hforms, hsecret.keys_eq hsecretForms]
  refine markSecrets_of_perm hnodup ?_
  rw [fingerprints_setSecret]
  exact hperm.map _

/-- Two keys with their secret halves and one without, among lines of all kinds. -/
theorem markSecrets_keys_listed_three_keys :
    let first := List.replicate 40 'A'
    let second := List.replicate 40 'B'
    let third := List.replicate 64 'C'
    let keys : List Key :=
      [⟨String.ofList first, "me", true⟩, ⟨String.ofList second, "", false⟩,
        ⟨String.ofList third, "you", true⟩]
    let secretKeys : List Key :=
      [⟨String.ofList third, "you", true⟩, ⟨String.ofList first, "me", true⟩]
    let publicText := "tru::1:\r\npub:u\r\nfpr:short\nfpr:::::::::".toList ++ List.replicate 40 'a'
      ++ ":\r\nuid:::::::::me:\nuid:::::::::also me:\nsub:\nfpr:::::::::".toList ++ second
      ++ "\npub:\nfpr::::::::::\nfpr:::::::::".toList ++ second ++ ":\nfpr:::::::::".toList ++ third
      ++ "\npub\n\nfpr:::::::::".toList ++ third ++ "\nsub\nuid:\nuid:::::::::you".toList
    let secretText := "fpr:::::::::".toList ++ second ++ "\nsec:\nfpr:::::::::".toList
      ++ List.replicate 64 'c' ++ "\nssb:\nfpr:::::::::".toList ++ second
      ++ "\nuid:::::::::you:\nsec:\nfpr:::::::::".toList ++ first ++ "\nuid:::::::::me:\n".toList
    (fingerprints keys).Nodup ∧ (∀ key ∈ keys, Fingerprint.IsForm key.fingerprint)
      ∧ Listed false publicText keys ∧ Listed true secretText secretKeys
      ∧ secretKeys.Perm (keys.filter (·.hasSecret))
      ∧ markSecrets (Listing.keys publicText) (Listing.keys secretText) = keys := by
  intro first second third keys secretKeys publicText secretText
  have hnodup : (fingerprints keys).Nodup := by decide +kernel
  have hforms : ∀ key ∈ keys, Fingerprint.IsForm key.fingerprint := by
    simp only [keys, List.forall_mem_cons]
    exact ⟨Fingerprint.isForm_replicate (by decide) (.inl rfl),
      Fingerprint.isForm_replicate (by decide) (.inl rfl),
      Fingerprint.isForm_replicate (by decide) (.inr rfl), List.forall_mem_nil _⟩
  have hpublic : Listed false publicText keys := by
    let fprOf (text : List Char) : List Char := "fpr:::::::::".toList ++ text
    let segments : List Segment :=
      [⟨"pub:u".toList, ["fpr:short".toList, fprOf (List.replicate 40 'a' ++ [':']),
          "uid:::::::::me:".toList, "uid:::::::::also me:".toList, "sub:".toList, fprOf second],
          by decide +kernel, by decide +kernel⟩,
        ⟨"pub:".toList, [fprOf [':'], fprOf (second ++ [':']), fprOf third],
          by decide +kernel, by decide +kernel⟩,
        ⟨"pub".toList, [[], fprOf third, "sub".toList, "uid:".toList, "uid:::::::::you".toList],
          by decide +kernel, by decide +kernel⟩]
    refine ⟨["tru::1:".toList], segments, ⟨lined_iff.mpr ?_, ?_⟩, ?_⟩ <;> decide +kernel
  have hsecret : Listed true secretText secretKeys := by
    let fprOf (text : List Char) : List Char := "fpr:::::::::".toList ++ text
    let segments : List Segment :=
      [⟨"sec:".toList, [fprOf (List.replicate 64 'c'), "ssb:".toList, fprOf second,
          "uid:::::::::you:".toList], by decide +kernel, by decide +kernel⟩,
        ⟨"sec:".toList, [fprOf first, "uid:::::::::me:".toList], by decide +kernel,
          by decide +kernel⟩]
    refine ⟨[fprOf second], segments, ⟨lined_iff.mpr ?_, ?_⟩, ?_⟩ <;> decide +kernel
  have hperm : secretKeys.Perm (keys.filter (·.hasSecret)) := by decide +kernel
  exact ⟨hnodup, hforms, hpublic, hsecret, hperm,
    markSecrets_keys_listed hnodup hforms hpublic hsecret hperm⟩

end Listing

end KeyBuckets
