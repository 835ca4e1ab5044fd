import KeyBuckets.Machine.FileTree
import KeyBuckets.Proofs.Lines

/-!
# Directories — what making them changes, and what it leaves

A directory is made in one place, and all that was there before stays as it was, so that each path
leads where it led. The place is known from the path: it is in the directory that all names but the
last lead to.

* **`Walks`**, **`walk_eq_ok_iff`** — where names lead, without the function that follows them.
* **`Site`** — where the last name of a path is, or would be.
* **`Gains`** — new directories and nothing else, empty and at the sites of some paths.
* **`gains_of_ensureDirectory`**, **`ensureDirectory_eq_error`** — one directory, made or not.
-/

namespace KeyBuckets.Machine.FileTree

/-! ## Walks -/

/-- A name that is looked up, and not a step that is always there. -/
def Proper (name : String) : Prop :=
  name ≠ "" ∧ name ≠ "." ∧ name ≠ ".."

/-- Names that lead from one location to another, through at most so many symbolic links. -/
inductive Walks (tree : FileTree) : Nat → Location → List String → Location → Prop where
  | done {links : Nat} {here : Location} : Walks tree links here [] here
  | stay {links : Nat} {here there : Location} {name : String} {rest : List String}
      (hhere : tree.isDirectory here = true) (hname : name = "" ∨ name = ".")
      (hrest : Walks tree links here rest there) : Walks tree links here (name :: rest) there
  | up {links : Nat} {here there : Location} {rest : List String}
      (hhere : tree.isDirectory here = true) (hrest : Walks tree links here.dropLast rest there) :
      Walks tree links here (".." :: rest) there
  | down {links : Nat} {here there : Location} {name : String} {rest : List String} {entry : Entry}
      (hhere : tree.isDirectory here = true) (hname : Proper name)
      (hsize : name.utf8ByteSize ≤ nameLimit) (hentry : tree.entry? (here ++ [name]) = some entry)
      (hlink : ∀ target, entry ≠ .link target)
      (hrest : Walks tree links (here ++ [name]) rest there) :
      Walks tree links here (name :: rest) there
  | through {links : Nat} {here there : Location} {name target : String} {rest : List String}
      (hhere : tree.isDirectory here = true) (hname : Proper name)
      (hsize : name.utf8ByteSize ≤ nameLimit)
      (hentry : tree.entry? (here ++ [name]) = some (.link target))
      (hrest : Walks tree links (startOf here target) (namesOf target ++ rest) there) :
      Walks tree (links + 1) here (name :: rest) there

variable {tree grown : FileTree} {working here there : Location} {links : Nat} {path : String}
  {names : List String} {name : String}

/-- Up to a link the names are followed one by one; what is done at a link need only be a walk with
one link less. -/
theorem walks_of_walkUntilLink {onLink : Location → List String → Except IoError Location}
    (hlinks : ∀ here names there, onLink here names = .ok there →
      ∃ fewer, links = fewer + 1 ∧ tree.Walks fewer here names there)
    (h : tree.walkUntilLink onLink here names = .ok there) : tree.Walks links here names there := by
  induction names generalizing here with
  | nil =>
    cases h
    exact .done
  | cons name rest ih =>
    unfold walkUntilLink at h
    split at h
    · cases h
    · next hhere =>
      have hhere : tree.isDirectory here = true := by simpa using hhere
      split at h
      · next hname => exact .stay hhere hname (ih h)
      · next hstay =>
        split at h
        · next hup =>
          subst hup
          exact .up hhere (ih h)
        · next hup =>
          have hname : Proper name := ⟨fun hempty => hstay (.inl hempty),
            fun hdot => hstay (.inr hdot), hup⟩
          split at h
          · cases h
          · next hsize =>
            have hsize : name.utf8ByteSize ≤ nameLimit := Nat.le_of_not_lt hsize
            split at h
            · cases h
            · next target hentry =>
              obtain ⟨fewer, rfl, hrest⟩ := hlinks _ _ _ h
              exact .through hhere hname hsize hentry hrest
            · next entry hlink hentry => exact .down hhere hname hsize hentry hlink (ih h)

theorem walk_eq_walkUntilLink (tree : FileTree) (links : Nat) :
    ∃ onLink, tree.walk links = tree.walkUntilLink onLink := by
  cases links with
  | zero => exact ⟨_, rfl⟩
  | succ links => exact ⟨_, rfl⟩

theorem walks_of_walk (h : tree.walk links here names = .ok there) :
    tree.Walks links here names there := by
  induction links generalizing here names there with
  | zero =>
    refine walks_of_walkUntilLink (fun _ _ _ hlink => ?_) h
    cases hlink
  | succ links ih => exact walks_of_walkUntilLink (fun _ _ _ hlink => ⟨links, rfl, ih hlink⟩) h

/-- A name that is looked up leads into its entry, or where a link there leads. -/
theorem walkUntilLink_proper {onLink : Location → List String → Except IoError Location}
    {rest : List String} (hhere : tree.isDirectory here = true) (hname : Proper name)
    (hsize : name.utf8ByteSize ≤ nameLimit) :
    tree.walkUntilLink onLink here (name :: rest) = match tree.entry? (here ++ [name]) with
      | none => .error .notFound
      | some (.link target) => onLink (startOf here target) (namesOf target ++ rest)
      | some _ => tree.walkUntilLink onLink (here ++ [name]) rest := by
  rw [walkUntilLink, if_neg (not_not_intro hhere), if_neg (not_or.mpr ⟨hname.1, hname.2.1⟩),
    if_neg hname.2.2]
  exact if_neg (Nat.not_lt.mpr hsize)

theorem Walks.walk_eq (h : tree.Walks links here names there) :
    tree.walk links here names = .ok there := by
  induction h with
  | @done links here =>
    obtain ⟨onLink, hwalk⟩ := walk_eq_walkUntilLink tree links
    rw [hwalk]
    rfl
  | @stay links here there name rest hhere hname _ ih =>
    obtain ⟨onLink, hwalk⟩ := walk_eq_walkUntilLink tree links
    rw [hwalk] at ih ⊢
    unfold walkUntilLink
    rw [if_neg (not_not_intro hhere), if_pos hname, ih]
  | @up links here there rest hhere _ ih =>
    obtain ⟨onLink, hwalk⟩ := walk_eq_walkUntilLink tree links
    rw [hwalk] at ih ⊢
    unfold walkUntilLink
    rw [if_neg (not_not_intro hhere), if_neg (by decide), if_pos rfl, ih]
  | @down links here there name rest entry hhere hname hsize hentry hlink _ ih =>
    obtain ⟨onLink, hwalk⟩ := walk_eq_walkUntilLink tree links
    rw [hwalk] at ih ⊢
    rw [walkUntilLink_proper hhere hname hsize, hentry]
    cases entry with
    | link target => exact absurd rfl (hlink target)
    | directory mode => exact ih
    | file executable => exact ih
  | @through links here there name target rest hhere hname hsize hentry _ ih =>
    show tree.walkUntilLink (tree.walk links) here (name :: rest) = _
    rw [walkUntilLink_proper hhere hname hsize, hentry]
    exact ih

/-- **Following names, and where names lead.** -/
theorem walk_eq_ok_iff :
    tree.walk links here names = .ok there ↔ tree.Walks links here names there :=
  ⟨walks_of_walk, Walks.walk_eq⟩

/-- A walk may have links to spare. -/
theorem Walks.mono (h : tree.Walks links here names there) (more : Nat) :
    tree.Walks (links + more) here names there := by
  induction h with
  | done => exact .done
  | stay hhere hname _ ih => exact .stay hhere hname ih
  | up hhere _ ih => exact .up hhere ih
  | down hhere hname hsize hentry hlink _ ih => exact .down hhere hname hsize hentry hlink ih
  | @through links _ _ _ _ _ hhere hname hsize hentry _ ih =>
    rw [Nat.add_right_comm]
    exact .through hhere hname hsize hentry ih

theorem Walks.append {last : Location} {more : List String}
    (h : tree.Walks links here names there) (hmore : tree.Walks 0 there more last) :
    tree.Walks links here (names ++ more) last := by
  induction h with
  | @done links here =>
    have hspare := hmore.mono links
    rwa [Nat.zero_add] at hspare
  | stay hhere hname _ ih => exact .stay hhere hname (ih hmore)
  | up hhere _ ih => exact .up hhere (ih hmore)
  | down hhere hname hsize hentry hlink _ ih =>
    exact .down hhere hname hsize hentry hlink (ih hmore)
  | through hhere hname hsize hentry _ ih =>
    have hrest := ih hmore
    rw [List.append_assoc] at hrest
    exact .through hhere hname hsize hentry hrest

/-- A walk along two lists of names stops between them. -/
theorem Walks.exists_split {more : List String} (h : tree.Walks links here (names ++ more) there) :
    ∃ middle fewer, tree.Walks links here names middle ∧ tree.Walks fewer middle more there := by
  -- the names of a link go before those that are left, so that both lists stay whole
  generalize hall : names ++ more = all at h
  induction h generalizing names with
  | @done links here =>
    obtain ⟨rfl, rfl⟩ := List.append_eq_nil_iff.mp hall
    exact ⟨here, links, .done, .done⟩
  | @stay links here there name rest hhere hname hrest ih =>
    cases names with
    | nil =>
      obtain rfl : more = _ := hall
      exact ⟨here, links, .done, .stay hhere hname hrest⟩
    | cons name' names =>
      obtain ⟨rfl, rfl⟩ := List.cons.inj hall
      obtain ⟨middle, fewer, hfirst, hsecond⟩ := ih rfl
      exact ⟨middle, fewer, .stay hhere hname hfirst, hsecond⟩
  | @up links here there rest hhere hrest ih =>
    cases names with
    | nil =>
      obtain rfl : more = _ := hall
      exact ⟨here, links, .done, .up hhere hrest⟩
    | cons name' names =>
      obtain ⟨rfl, rfl⟩ := List.cons.inj hall
      obtain ⟨middle, fewer, hfirst, hsecond⟩ := ih rfl
      exact ⟨middle, fewer, .up hhere hfirst, hsecond⟩
  | @down links here there name rest entry hhere hname hsize hentry hlink hrest ih =>
    cases names with
    | nil =>
      obtain rfl : more = _ := hall
      exact ⟨here, links, .done, .down hhere hname hsize hentry hlink hrest⟩
    | cons name' names =>
      obtain ⟨rfl, rfl⟩ := List.cons.inj hall
      obtain ⟨middle, fewer, hfirst, hsecond⟩ := ih rfl
      exact ⟨middle, fewer, .down hhere hname hsize hentry hlink hfirst, hsecond⟩
  | @through links here there name target rest hhere hname hsize hentry hrest ih =>
    cases names with
    | nil =>
      obtain rfl : more = _ := hall
      exact ⟨here, links + 1, .done, .through hhere hname hsize hentry hrest⟩
    | cons name' names =>
      obtain ⟨rfl, rfl⟩ := List.cons.inj hall
      obtain ⟨middle, fewer, hfirst, hsecond⟩ := ih (List.append_assoc _ _ _)
      exact ⟨middle, fewer, .through hhere hname hsize hentry hfirst, hsecond⟩

/-- The last name of a walk is looked up in a directory. -/
theorem Walks.exists_entry (h : tree.Walks links here [name] there) (hname : Proper name) :
    tree.isDirectory here = true ∧ name.utf8ByteSize ≤ nameLimit
      ∧ (tree.entry? (here ++ [name])).isSome = true := by
  cases h with
  | stay _ hstay _ => exact absurd hstay (not_or.mpr ⟨hname.1, hname.2.1⟩)
  | up => exact absurd rfl hname.2.2
  | down hhere _ hsize hentry => exact ⟨hhere, hsize, Option.isSome_of_eq_some hentry⟩
  | through hhere _ hsize hentry => exact ⟨hhere, hsize, Option.isSome_of_eq_some hentry⟩

/-! ## Trees that keep what there was -/

/-- Whatever is in one tree is in the same place of the other. -/
def Keeps (tree grown : FileTree) : Prop :=
  ∀ location entry, tree.entry? location = some entry → grown.entry? location = some entry

theorem Keeps.refl (tree : FileTree) : tree.Keeps tree :=
  fun _ _ hentry => hentry

theorem Keeps.trans {middle : FileTree} (h : tree.Keeps middle) (h' : middle.Keeps grown) :
    tree.Keeps grown :=
  fun location entry hentry => h' location entry (h location entry hentry)

theorem isDirectory_iff {location : Location} :
    tree.isDirectory location = true ↔ ∃ mode, tree.entry? location = some (.directory mode) := by
  unfold isDirectory directoryIn
  constructor
  · intro h
    split at h
    · next mode hentry => exact ⟨mode, hentry⟩
    · cases h
  · rintro ⟨mode, hentry⟩
    have hentry : entryIn tree.entries location = some (.directory mode) := hentry
    rw [hentry]

theorem Keeps.isDirectory {location : Location} (h : tree.Keeps grown)
    (hlocation : tree.isDirectory location = true) : grown.isDirectory location = true := by
  obtain ⟨mode, hentry⟩ := isDirectory_iff.mp hlocation
  exact isDirectory_iff.mpr ⟨mode, h _ _ hentry⟩

/-- Names lead where they led. -/
theorem Keeps.walks (hkeeps : tree.Keeps grown) (h : tree.Walks links here names there) :
    grown.Walks links here names there := by
  induction h with
  | done => exact .done
  | stay hhere hname _ ih => exact .stay (hkeeps.isDirectory hhere) hname ih
  | up hhere _ ih => exact .up (hkeeps.isDirectory hhere) ih
  | down hhere hname hsize hentry hlink _ ih =>
    exact .down (hkeeps.isDirectory hhere) hname hsize (hkeeps _ _ hentry) hlink ih
  | through hhere hname hsize hentry _ ih =>
    exact .through (hkeeps.isDirectory hhere) hname hsize (hkeeps _ _ hentry) ih

theorem leadsToDirectory_iff :
    tree.leadsToDirectory working path = true ↔ pathFault? path = none
      ∧ ∃ there, tree.Walks linkLimit (startOf working path) (namesOf path) there
        ∧ tree.isDirectory there = true := by
  simp only [← walk_eq_ok_iff]
  unfold leadsToDirectory resolve
  constructor
  · intro h
    split at h
    · next there hthere =>
      split at hthere
      · cases hthere
      · next hfault => exact ⟨hfault, there, hthere, h⟩
    · cases h
  · rintro ⟨hfault, there, hthere, hdirectory⟩
    rw [hfault]
    dsimp only
    rw [hthere]
    exact hdirectory

theorem Keeps.leadsToDirectory (hkeeps : tree.Keeps grown)
    (h : tree.leadsToDirectory working path = true) :
    grown.leadsToDirectory working path = true := by
  obtain ⟨hfault, there, hthere, hdirectory⟩ := leadsToDirectory_iff.mp h
  exact leadsToDirectory_iff.mpr
    ⟨hfault, there, hkeeps.walks hthere, hkeeps.isDirectory hdirectory⟩

/-- Where there is no directory, there is nothing inside. -/
theorem entry?_eq_none_of_not_isDirectory {location : Location}
    (h : ¬ tree.isDirectory location = true) (name : String) :
    tree.entry? (location ++ [name]) = none := by
  refine Option.eq_none_iff_forall_ne_some.mpr fun entry hentry => h ?_
  unfold entry? entryIn at hentry
  rw [if_neg (by simp)] at hentry
  obtain ⟨before, after, hentries, -⟩ := List.lookup_eq_some_iff.mp hentry
  have hparent := tree.inDirectory (location ++ [name], entry) (by rw [hentries]; simp)
  rwa [List.dropLast_concat] at hparent

section Insert

variable {parent : Location} {entry : Entry} (hparent : tree.isDirectory parent = true)

theorem keeps_insert : tree.Keeps (tree.insert parent name entry hparent) :=
  fun _ _ hentry => entryIn_append hentry

theorem entry?_insert_self (hfree : tree.entry? (parent ++ [name]) = none) :
    entry? (tree.insert parent name entry hparent) (parent ++ [name]) = some entry := by
  unfold entry? entryIn at *
  rw [if_neg (by simp)] at hfree ⊢
  unfold insert
  rw [List.lookup_append, hfree]
  simp

theorem entry?_insert_of_ne {location : Location} (hne : location ≠ parent ++ [name]) :
    entry? (tree.insert parent name entry hparent) location = tree.entry? location := by
  have hother : (location == parent ++ [name]) = false := beq_false_of_ne hne
  unfold entry? entryIn insert
  split
  · rfl
  · simp [List.lookup_append, List.lookup_cons, hother]

end Insert

/-! ## Where a directory is made -/

/-- Where the last name of a path is, or would be: in the directory that the other names lead to. -/
inductive Site (tree : FileTree) (working : Location) (path : String) : Location → Prop where
  | intro {names : List String} {name : String} {parent : Location}
      (hnames : namesOf path = names ++ [name])
      (hparent : tree.walk linkLimit (startOf working path) names = .ok parent)
      (hdirectory : tree.isDirectory parent = true) : Site tree working path (parent ++ [name])

/-- From one tree to another there are new directories and nothing else. They are empty, and each
of them is at the site of one of the paths, where nothing was before. -/
structure Gains (tree : FileTree) (working : Location) (mode : Nat) (paths : List String)
    (grown : FileTree) : Prop where
  kept : tree.Keeps grown
  new : ∀ location entry, tree.entry? location = none → grown.entry? location = some entry →
    entry = .directory mode ∧ ∃ path ∈ paths, tree.Site working path location
  empty : ∀ location, tree.entry? location = none → ∀ name,
    grown.entry? (location ++ [name]) = none

variable {mode : Nat} {paths : List String}

theorem Site.isDirectory_dropLast {location : Location} (h : tree.Site working path location) :
    tree.isDirectory location.dropLast = true := by
  cases h with
  | intro _ _ hdirectory => rwa [List.dropLast_concat]

/-- What is made in directories that were there before is empty. -/
theorem Gains.of_new (hkept : tree.Keeps grown)
    (hnew : ∀ location entry, tree.entry? location = none → grown.entry? location = some entry →
      entry = .directory mode ∧ ∃ path ∈ paths, tree.Site working path location) :
    tree.Gains working mode paths grown where
  kept := hkept
  new := hnew
  empty := by
    intro location hnone name
    -- something inside would be new as well, and so in a directory that was there before
    have hnot : ¬ tree.isDirectory location = true := by
      intro hdirectory
      obtain ⟨mode, hentry⟩ := isDirectory_iff.mp hdirectory
      cases hnone.symm.trans hentry
    refine Option.eq_none_iff_forall_ne_some.mpr fun entry hentry => ?_
    have hbefore := entry?_eq_none_of_not_isDirectory hnot name
    obtain ⟨-, path, -, hsite⟩ := hnew _ _ hbefore hentry
    have hparent := hsite.isDirectory_dropLast
    rw [List.dropLast_concat] at hparent
    exact hnot hparent

theorem Gains.refl (tree : FileTree) (working : Location) (mode : Nat) (paths : List String) :
    tree.Gains working mode paths tree :=
  .of_new (.refl tree) fun _ _ hnone hsome => by cases hnone.symm.trans hsome

theorem Gains.trans {middle : FileTree} {more : List String}
    (h : tree.Gains working mode paths middle) (h' : middle.Gains working mode more grown)
    (hsites : ∀ path ∈ more, ∀ location, middle.Site working path location →
      tree.Site working path location) : tree.Gains working mode (paths ++ more) grown := by
  refine .of_new (h.kept.trans h'.kept) fun location entry hnone hsome => ?_
  cases hmiddle : middle.entry? location with
  | none =>
    obtain ⟨hentry, path, hpath, hsite⟩ := h'.new location entry hmiddle hsome
    exact ⟨hentry, path, List.mem_append_right _ hpath, hsites path hpath location hsite⟩
  | some entry' =>
    obtain rfl : entry' = entry :=
      Option.some.inj ((h'.kept location entry' hmiddle).symm.trans hsome)
    obtain ⟨hentry, path, hpath, hsite⟩ := h.new location entry' hnone hmiddle
    exact ⟨hentry, path, List.mem_append_left _ hpath, hsite⟩

/-! ## One directory -/

section One

variable (hnames : namesOf path = names ++ [name]) (hname : Proper name)
include hnames hname

theorem dropWhile_reverse_namesOf :
    (namesOf path).reverse.dropWhile (· = "") = name :: names.reverse := by
  rw [hnames, List.reverse_concat]
  exact List.dropWhile_cons_of_neg (by simpa using hname.1)

theorem exists_of_makeDirectory (h : tree.makeDirectory working path mode = .ok grown) :
    pathFault? path = none ∧ ∃ (parent : Location) (hparent : tree.isDirectory parent = true),
      tree.walk linkLimit (startOf working path) names = .ok parent
        ∧ name.utf8ByteSize ≤ nameLimit ∧ tree.entry? (parent ++ [name]) = none
        ∧ grown = tree.insert parent name (.directory mode) hparent := by
  unfold makeDirectory add at h
  split at h
  · cases h
  · next hfault =>
    rw [dropWhile_reverse_namesOf hnames hname] at h
    dsimp only at h
    rw [List.reverse_reverse] at h
    split at h
    · cases h
    · next parent hwalk =>
      split at h
      · next hparent =>
        rw [if_neg (not_or.mpr ⟨hname.2.1, hname.2.2⟩)] at h
        split at h
        · cases h
        · next hsize =>
          split at h
          · cases h
          · next hfree =>
            refine ⟨hfault, parent, hparent, hwalk, Nat.le_of_not_lt hsize, ?_, ?_⟩
            · exact Option.not_isSome_iff_eq_none.mp hfree
            · exact (Except.ok.inj h).symm
      · cases h

/-- Nothing is made where a path leads already. -/
theorem makeDirectory_of_leadsToDirectory (h : tree.leadsToDirectory working path = true) :
    tree.makeDirectory working path mode = .error .alreadyExists := by
  obtain ⟨hfault, there, hthere, -⟩ := leadsToDirectory_iff.mp h
  rw [hnames] at hthere
  obtain ⟨parent, fewer, hparent, hlast⟩ := hthere.exists_split
  obtain ⟨hdirectory, hsize, hentry⟩ := hlast.exists_entry hname
  unfold makeDirectory add
  rw [hfault, dropWhile_reverse_namesOf hnames hname]
  dsimp only
  rw [List.reverse_reverse, walk_eq_ok_iff.mpr hparent]
  dsimp only
  rw [dif_pos hdirectory, if_neg (not_or.mpr ⟨hname.2.1, hname.2.2⟩),
    if_neg (Nat.not_lt.mpr hsize), if_pos hentry]

theorem ensureDirectory_of_leadsToDirectory (h : tree.leadsToDirectory working path = true) :
    tree.ensureDirectory working path mode = .ok tree := by
  unfold ensureDirectory
  rw [makeDirectory_of_leadsToDirectory hnames hname h]
  unfold leadsToDirectory at h
  split at h
  · next there hthere =>
    dsimp only
    rw [hthere]
    exact if_pos h
  · cases h

theorem site_of_leadsToDirectory (h : tree.leadsToDirectory working path = true) :
    ∃ location, tree.Site working path location := by
  obtain ⟨-, there, hthere, -⟩ := leadsToDirectory_iff.mp h
  rw [hnames] at hthere
  obtain ⟨parent, fewer, hparent, hlast⟩ := hthere.exists_split
  exact ⟨_, .intro hnames (walk_eq_ok_iff.mpr hparent) (hlast.exists_entry hname).1⟩

theorem gains_of_makeDirectory (h : tree.makeDirectory working path mode = .ok grown) :
    tree.Gains working mode [path] grown ∧ grown.leadsToDirectory working path = true
      ∧ ∃ location, tree.Site working path location := by
  obtain ⟨hfault, parent, hparent, hwalk, hsize, hfree, rfl⟩ :=
    exists_of_makeDirectory hnames hname h
  have hkeeps : tree.Keeps (tree.insert parent name (.directory mode) hparent) :=
    keeps_insert hparent
  have hmade : entry? (tree.insert parent name (.directory mode) hparent) (parent ++ [name])
      = some (.directory mode) := entry?_insert_self hparent hfree
  have hsite : tree.Site working path (parent ++ [name]) := .intro hnames hwalk hparent
  refine ⟨.of_new hkeeps fun location entry hnone hsome => ?_, ?_, _, hsite⟩
  · by_cases hlocation : location = parent ++ [name]
    · subst hlocation
      exact ⟨Option.some.inj (hsome.symm.trans hmade), path, List.mem_singleton_self _, hsite⟩
    · rw [entry?_insert_of_ne hparent hlocation] at hsome
      cases hnone.symm.trans hsome
  · have hdirectory := isDirectory_iff.mpr ⟨mode, hmade⟩
    refine leadsToDirectory_iff.mpr ⟨hfault, parent ++ [name], ?_, hdirectory⟩
    rw [hnames]
    refine (hkeeps.walks (walk_eq_ok_iff.mp hwalk)).append ?_
    exact .down (hkeeps.isDirectory hparent) hname hsize hmade (by simp) .done

/-- **A directory that is ensured** is there afterwards, and nothing else has changed. -/
theorem gains_of_ensureDirectory (h : tree.ensureDirectory working path mode = .ok grown) :
    tree.Gains working mode [path] grown ∧ grown.leadsToDirectory working path = true
      ∧ ∃ location, tree.Site working path location := by
  unfold ensureDirectory at h
  split at h
  · next made hmade =>
    cases h
    exact gains_of_makeDirectory hnames hname hmade
  · split at h
    · cases h
    · next there hthere =>
      split at h
      · next hdirectory =>
        cases h
        have hleads : tree.leadsToDirectory working path = true := by
          unfold leadsToDirectory
          rw [hthere]
          exact hdirectory
        exact ⟨.refl tree working mode [path], hleads,
          site_of_leadsToDirectory hnames hname hleads⟩
      · cases h
  · cases h

/-- **A directory that is not ensured** cannot be made, and is not there. -/
theorem ensureDirectory_eq_error {cause : IoError}
    (h : tree.ensureDirectory working path mode = .error cause) :
    (∀ grown, tree.makeDirectory working path mode ≠ .ok grown)
      ∧ tree.leadsToDirectory working path = false := by
  constructor
  · intro grown hmade
    unfold ensureDirectory at h
    rw [hmade] at h
    cases h
  · refine Bool.eq_false_iff.mpr fun hleads => ?_
    cases (ensureDirectory_of_leadsToDirectory hnames hname hleads).symm.trans h

end One

end KeyBuckets.Machine.FileTree
