import KeyBuckets.Proofs.Directories
import KeyBuckets.Proofs.Homes

/-!
# Preparation — the homes of a plan, one after the other

The homes of a plan are named alike but for the number at the end, so all of them are in one
directory, each at its own site. Preparing a plan makes those that are missing in the order of
their numbers, up to the first that can neither be made nor is there.

* **`Site.home_injective`**, **`Site.of_sibling`** — homes have their own sites in one directory.
* **`Furnished.gains`** — what some homes add to a tree.
* **`prepare_ordered`** — how far preparing a plan gets, what it has made by then and what not.
-/

namespace KeyBuckets

open Machine

namespace Bucket

/-! ## The names of homes -/

theorem exists_last_slash (cs : List Char) :
    '/' ∉ cs ∨ ∃ before after, cs = before ++ '/' :: after ∧ '/' ∉ after := by
  by_cases hmem : '/' ∈ cs
  · obtain ⟨after, before, hcs, hafter⟩ := List.eq_append_cons_of_mem (List.mem_reverse.mpr hmem)
    refine .inr ⟨before.reverse, after.reverse, ?_, fun h => hafter (List.mem_reverse.mp h)⟩
    rw [← List.reverse_inj, hcs]
    simp
  · exact .inl hmem

/-- What is put at the end of a path belongs to its last name. -/
theorem exists_namesOf_append (stem : String) : ∃ names base, ∀ suffix : String,
    '/' ∉ suffix.toList → namesOf (stem ++ suffix) = names ++ [base ++ suffix] := by
  rcases exists_last_slash stem.toList with hnone | ⟨before, after, hstem, hafter⟩
  · refine ⟨[], stem, fun suffix hsuffix => ?_⟩
    have hwhole : '/' ∉ stem.toList ++ suffix.toList := by simp [hnone, hsuffix]
    unfold namesOf
    rw [String.toList_append, Text.pieces_of_not_mem hwhole, ← String.toList_append]
    simp
  · refine ⟨(Text.pieces (· == '/') before).map String.ofList, String.ofList after,
      fun suffix hsuffix => ?_⟩
    have hlast : '/' ∉ after ++ suffix.toList := by simp [hafter, hsuffix]
    unfold namesOf
    rw [String.toList_append, hstem, List.append_assoc, List.cons_append,
      Text.pieces_append_cons _ _ _ (by rfl), Text.pieces_of_not_mem hlast, List.map_append]
    simp [String.ofList_append]

theorem slash_not_mem_repr (n : Nat) : '/' ∉ n.repr.toList :=
  fun hmem => absurd (Text.Numeral.isDigit_of_mem_repr hmem) (by decide)

theorem append_repr_ne {text : String} (htext : ∀ c ∈ text.toList, c.isDigit = false)
    (base : String) (n : Nat) : base ++ n.repr ≠ text := by
  rintro rfl
  obtain ⟨c, hc⟩ := List.exists_mem_of_ne_nil _ (Text.Numeral.repr_ne_nil n)
  have hmem : c ∈ (base ++ n.repr).toList := by
    rw [String.toList_append]
    exact List.mem_append_right _ hc
  cases (htext c hmem).symm.trans (Text.Numeral.isDigit_of_mem_repr hc)

/-- The homes with one stem are in one directory, under names that end in their numbers. -/
theorem exists_namesOf_home (stem : String) : ∃ names base, ∀ n,
    namesOf (home stem n) = names ++ [base ++ n.repr] ∧ FileTree.Proper (base ++ n.repr) := by
  obtain ⟨names, base, hnames⟩ := exists_namesOf_append stem
  exact ⟨names, base, fun n => ⟨hnames n.repr (slash_not_mem_repr n),
    append_repr_ne (by simp) base n, append_repr_ne (by simp) base n,
    append_repr_ne (by simp) base n⟩⟩

theorem isAbsolute_home (stem : String) (n : Nat) :
    isAbsolute (home stem n) = isAbsolute stem := by
  unfold isAbsolute home
  rw [String.toList_append, List.head?_append]
  cases hstem : stem.toList.head? with
  | some c => rfl
  | none =>
    -- a digit is in front, and no slash
    cases hhead : n.repr.toList.head? with
    | none => rfl
    | some c =>
      have hc : c ≠ '/' := by
        rintro rfl
        exact slash_not_mem_repr n (List.mem_of_head? hhead)
      simp [hc]

theorem startOf_home (working : Location) (stem : String) (n : Nat) :
    startOf working (home stem n) = startOf working stem := by
  unfold startOf
  rw [isAbsolute_home]

end Bucket

namespace Machine.FileTree

variable {tree grown : FileTree} {working location location' : Location} {stem : String}
  {i j : Nat}

theorem Site.home_iff {names : List String} {base : String}
    (hnames : namesOf (Bucket.home stem i) = names ++ [base ++ i.repr]) :
    tree.Site working (Bucket.home stem i) location ↔ ∃ parent,
      tree.walk linkLimit (startOf working stem) names = .ok parent
        ∧ tree.isDirectory parent = true ∧ location = parent ++ [base ++ i.repr] := by
  rw [← Bucket.startOf_home working stem i]
  constructor
  · rintro ⟨hnames', hparent, hdirectory⟩
    obtain ⟨rfl, hname⟩ := List.append_inj' (hnames.symm.trans hnames') rfl
    obtain rfl := List.singleton_inj.mp hname
    exact ⟨_, hparent, hdirectory, rfl⟩
  · rintro ⟨parent, hparent, hdirectory, rfl⟩
    exact .intro hnames hparent hdirectory

/-- Two homes have two sites. -/
theorem Site.home_injective (h : tree.Site working (Bucket.home stem i) location)
    (h' : tree.Site working (Bucket.home stem j) location) : i = j := by
  obtain ⟨names, base, hnames⟩ := Bucket.exists_namesOf_home stem
  obtain ⟨parent, -, -, rfl⟩ := (Site.home_iff (hnames i).1).mp h
  obtain ⟨parent', -, -, heq⟩ := (Site.home_iff (hnames j).1).mp h'
  have hname : base ++ i.repr = base ++ j.repr :=
    List.singleton_inj.mp (List.append_inj' heq rfl).2
  exact Bucket.home_injective base hname

/-- If one home has a site already, the others have theirs in the same directory. -/
theorem Site.of_sibling (hkeeps : tree.Keeps grown)
    (hsibling : tree.Site working (Bucket.home stem i) location')
    (h : grown.Site working (Bucket.home stem j) location) :
    tree.Site working (Bucket.home stem j) location := by
  obtain ⟨names, base, hnames⟩ := Bucket.exists_namesOf_home stem
  obtain ⟨parent, hparent, hdirectory, -⟩ := (Site.home_iff (hnames i).1).mp hsibling
  obtain ⟨parent', hparent', -, rfl⟩ := (Site.home_iff (hnames j).1).mp h
  have hsame := walk_eq_ok_iff.mpr (hkeeps.walks (walk_eq_ok_iff.mp hparent))
  obtain rfl : parent = parent' := Except.ok.inj (hsame.symm.trans hparent')
  exact (Site.home_iff (hnames j).1).mpr ⟨parent, hparent, hdirectory, rfl⟩

/-- Nothing has changed at the site of a home that is none of those that were made. -/
theorem Gains.entry?_eq_of_home {mode : Nat} {numbers : List Nat}
    (h : tree.Gains working mode (numbers.map (Bucket.home stem)) grown)
    (hsite : tree.Site working (Bucket.home stem i) location) (hi : i ∉ numbers) :
    grown.entry? location = tree.entry? location := by
  cases hbefore : tree.entry? location with
  | some entry => exact h.kept location entry hbefore
  | none =>
    refine Option.eq_none_iff_forall_ne_some.mpr fun entry hentry => hi ?_
    obtain ⟨-, path, hpath, hsite'⟩ := h.new location entry hbefore hentry
    obtain ⟨j, hj, rfl⟩ := List.mem_map.mp hpath
    rwa [hsite.home_injective hsite']

end Machine.FileTree

namespace Plan

variable {working : Location} {stem : String} {e : Error}

/-! ## What homes add to a tree -/

theorem gains_of_home {tree grown : FileTree} {n : Nat}
    (h : tree.ensureDirectory working (Bucket.home stem n) Keyring.homeMode = .ok grown) :
    tree.Gains working Keyring.homeMode [Bucket.home stem n] grown
      ∧ grown.leadsToDirectory working (Bucket.home stem n) = true
      ∧ ∃ location, tree.Site working (Bucket.home stem n) location := by
  obtain ⟨names, base, hnames⟩ := Bucket.exists_namesOf_home stem
  exact FileTree.gains_of_ensureDirectory (hnames n).1 (hnames n).2 h

theorem home_eq_error {tree : FileTree} {n : Nat} {cause : IoError}
    (h : tree.ensureDirectory working (Bucket.home stem n) Keyring.homeMode = .error cause) :
    (∀ grown, tree.makeDirectory working (Bucket.home stem n) Keyring.homeMode ≠ .ok grown)
      ∧ tree.leadsToDirectory working (Bucket.home stem n) = false := by
  obtain ⟨names, base, hnames⟩ := Bucket.exists_namesOf_home stem
  exact FileTree.ensureDirectory_eq_error (hnames n).1 (hnames n).2 h

/-- **Homes that are made** are there afterwards, and nothing else has changed. -/
theorem Furnished.gains {tree grown : FileTree} {numbers : List Nat}
    (h : Furnished working tree (numbers.map (Bucket.home stem)) grown) :
    tree.Gains working Keyring.homeMode (numbers.map (Bucket.home stem)) grown
      ∧ ∀ n ∈ numbers, grown.leadsToDirectory working (Bucket.home stem n) = true := by
  induction numbers generalizing tree with
  | nil =>
    cases h
    exact ⟨.refl _ _ _ _, List.forall_mem_nil _⟩
  | cons n numbers ih =>
    cases h with
    | @cons _ middle _ _ _ hhome hhomes =>
      obtain ⟨hfirst, hleads, location, hsite⟩ := gains_of_home hhome
      obtain ⟨hrest, hothers⟩ := ih hhomes
      refine ⟨hfirst.trans hrest ?_, List.forall_mem_cons.mpr ⟨?_, hothers⟩⟩
      -- the first home cannot lead elsewhere a second one that is made next to it
      · intro path hpath location' hsite'
        obtain ⟨m, -, rfl⟩ := List.mem_map.mp hpath
        exact FileTree.Site.of_sibling hfirst.kept hsite hsite'
      · exact hrest.kept.leadsToDirectory hleads

/-- Homes that are there need not be made. -/
theorem furnished_of_leadsToDirectory {tree : FileTree} {numbers : List Nat}
    (h : ∀ n ∈ numbers, tree.leadsToDirectory working (Bucket.home stem n) = true) :
    Furnished working tree (numbers.map (Bucket.home stem)) tree := by
  obtain ⟨names, base, hnames⟩ := Bucket.exists_namesOf_home stem
  induction numbers with
  | nil => exact .nil
  | cons n numbers ih =>
    obtain ⟨hn, hnumbers⟩ := List.forall_mem_cons.mp h
    exact .cons (FileTree.ensureDirectory_of_leadsToDirectory (hnames n).1 (hnames n).2 hn)
      (ih hnumbers)

/-! ## Where it ends -/

/-- If a home cannot be made, there is a first one, and those before it are made. -/
theorem Unfurnished.exists_stop {tree : FileTree} {homes : List String}
    (h : Unfurnished working tree homes e) :
    ∃ before home after grown cause, homes = before ++ home :: after
      ∧ Furnished working tree before grown
      ∧ grown.ensureDirectory working home Keyring.homeMode = .error cause := by
  induction h with
  | @here tree home homes cause hhome => exact ⟨[], home, homes, tree, cause, rfl, .nil, hhome⟩
  | @later tree middle home homes e hhome _ ih =>
    obtain ⟨before, stop, after, grown, cause, rfl, hbefore, hstop⟩ := ih
    exact ⟨home :: before, stop, after, grown, cause, rfl, .cons hhome hbefore, hstop⟩

theorem ensureHomes_of_stop {machine : Machine} {grown : FileTree} {rings more : List Keyring}
    {ring : Keyring} {cause : IoError}
    (hrings : Furnished machine.working machine.tree (rings.map (·.home)) grown)
    (hring : grown.ensureDirectory machine.working ring.home Keyring.homeMode = .error cause) :
    ensureHomes (rings ++ ring :: more) machine
      = (.error (.homeNotMade ring.home cause), { machine with tree := grown }) := by
  induction rings generalizing machine with
  | nil =>
    cases hrings
    exact bind_of_eq (ensureHome_of_error hring) _
  | cons first rings ih =>
    cases hrings with
    | @cons _ middle _ _ _ hhome hhomes =>
      have hrest := @ih { machine with tree := middle } hhomes hring
      exact (bind_of_eq (ensureHome_of_ok hhome) _).trans hrest

variable {plan : Plan} {machine : Machine} {grown : FileTree}

theorem prepare_of_stop {before after : List String} {home : String} {cause : IoError}
    (hhomes : plan.homes = before ++ home :: after)
    (hbefore : Furnished machine.working machine.tree before grown)
    (hstop : grown.ensureDirectory machine.working home Keyring.homeMode = .error cause) :
    plan.prepare machine = (.error (.homeNotMade home cause), { machine with tree := grown }) := by
  have hbuckets : plan.buckets
      = before.map plan.keyring ++ plan.keyring home :: after.map plan.keyring := by
    unfold buckets
    rw [hhomes, List.map_append, List.map_cons]
  have hrings : (before.map plan.keyring).map (·.home) = before := by
    rw [List.map_map]
    exact List.map_id _
  rw [← hrings] at hbefore
  have hensured : ensureHomes plan.buckets machine
      = (.error (.homeNotMade home cause), { machine with tree := grown }) := by
    rw [hbuckets]
    exact ensureHomes_of_stop hbefore hstop
  exact bind_of_eq hensured _

/-- The homes before another one are those with the smaller numbers. -/
theorem homes_eq_append {before after : List String} {home : String}
    (h : plan.homes = before ++ home :: after) :
    before.length < plan.count.value ∧ home = plan.home before.length
      ∧ before = (List.range before.length).map plan.home := by
  have hlength := congrArg List.length h
  rw [length_homes, List.length_append, List.length_cons] at hlength
  have hlt : before.length < plan.count.value := by omega
  refine ⟨hlt, ?_, ?_⟩
  · have hhome := getElem?_homes plan ⟨before.length, hlt⟩
    rw [h, List.getElem?_append_right (Nat.le_refl _), Nat.sub_self, List.getElem?_cons_zero] at hhome
    exact Option.some.inj hhome
  · have htake := congrArg (List.take before.length) h
    unfold homes at htake
    rw [List.take_left, ← List.map_take, List.take_range,
      Nat.min_eq_left (Nat.le_of_lt hlt)] at htake
    exact htake.symm

/-- What the first homes leave, whether they are all or another one stops them. -/
theorem gains_of_furnished_range {k : Nat}
    (h : Furnished machine.working machine.tree ((List.range k).map plan.home) grown) :
    machine.tree.Gains machine.working 0o700 ((List.range k).map plan.home) grown
      ∧ (∀ i < k, grown.leadsToDirectory machine.working (plan.home i) = true)
      ∧ ∀ i, k ≤ i → ∀ location, machine.tree.Site machine.working (plan.home i) location →
          grown.entry? location = machine.tree.entry? location := by
  obtain ⟨hgains, hleads⟩ := Furnished.gains h
  refine ⟨hgains, fun i hi => hleads i (List.mem_range.mpr hi), fun i hi location hsite => ?_⟩
  have hlater : i ∉ List.range k := fun hmem => absurd (List.mem_range.mp hmem) (Nat.not_lt.mpr hi)
  exact hgains.entry?_eq_of_home hsite hlater

/-- **How far preparing a plan gets.** It makes the homes that are missing, in order, and then it
can be prepared again without any change; or it gets to the first home that can neither be made nor
is there. Up to then all homes are there, and from then on none has been made. Nothing else changes:
not what was in the tree, and not the rest of the machine, so that no program has been started. -/
theorem prepare_ordered (plan : Plan) (machine : Machine) :
    ∃ k ≤ plan.count.value, ∃ tree : FileTree,
      machine.tree.Gains machine.working 0o700 ((List.range k).map plan.home) tree
        ∧ (∀ i < k, tree.leadsToDirectory machine.working (plan.home i) = true)
        ∧ (∀ i, k ≤ i → ∀ location, machine.tree.Site machine.working (plan.home i) location →
            tree.entry? location = machine.tree.entry? location)
        ∧ (k = plan.count.value ∧ plan.prepare machine = (.ok plan.buckets, { machine with tree })
              ∧ plan.prepare { machine with tree } = (.ok plan.buckets, { machine with tree })
            ∨ k < plan.count.value
              ∧ (∃ cause, plan.prepare machine
                  = (.error (.homeNotMade (plan.home k) cause), { machine with tree }))
              ∧ (∀ grown, tree.makeDirectory machine.working (plan.home k) 0o700 ≠ .ok grown)
              ∧ tree.leadsToDirectory machine.working (plan.home k) = false) := by
  rcases furnished_or_unfurnished machine.working machine.tree plan.homes with
    ⟨tree, hhomes⟩ | ⟨e, hhomes⟩
  · obtain ⟨hgains, hleads, hothers⟩ := gains_of_furnished_range hhomes
    have hagain : Furnished machine.working tree plan.homes tree :=
      furnished_of_leadsToDirectory fun i hi => hleads i (List.mem_range.mp hi)
    exact ⟨plan.count.value, Nat.le_refl _, tree, hgains, hleads, hothers,
      .inl ⟨rfl, prepare_of_furnished hhomes, prepare_of_furnished hagain⟩⟩
  · obtain ⟨before, home, after, tree, cause, hsplit, hbefore, hstop⟩ := hhomes.exists_stop
    obtain ⟨hlt, hhome, hrange⟩ := homes_eq_append hsplit
    have hprepared := prepare_of_stop hsplit hbefore hstop
    rw [hrange] at hbefore
    rw [hhome] at hstop hprepared
    obtain ⟨hgains, hleads, hothers⟩ := gains_of_furnished_range hbefore
    obtain ⟨hunmade, habsent⟩ := home_eq_error hstop
    exact ⟨before.length, Nat.le_of_lt hlt, tree, hgains, hleads, hothers,
      .inr ⟨hlt, ⟨cause, hprepared⟩, hunmade, habsent⟩⟩

/-- A file in the place of the third home stops it after two. -/
example :
    let plan : Plan := { inputHome := "/k", stem := "/b/", count := ⟨4, by decide⟩ }
    let tree : FileTree :=
      { entries := [(["b"], .directory 0o755), (["b", "2"], .file false)], inDirectory := by decide }
    let prepared := plan.prepare { tree }
    prepared.1.toOption = none ∧ prepared.2.tree.entries
      = tree.entries ++ [(["b", "0"], .directory 0o700), (["b", "1"], .directory 0o700)] := by
  decide +kernel

end Plan

end KeyBuckets
