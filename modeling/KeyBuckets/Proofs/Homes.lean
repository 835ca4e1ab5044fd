import KeyBuckets.Plan
import KeyBuckets.Proofs.Invocations

/-!
# Homes — the directories that are made before a distribution starts

The homes of the buckets are made one after the other, in the order of their numbers. Each of them
is made in the tree that has those before it, and the first one that cannot be made ends it.

* **`Furnished`**, **`Unfurnished`** — all homes are made, or one of them cannot be.
* **`furnished_or_unfurnished`**, **`Furnished.not_unfurnished`** — it is one or the other.
* **`prepare_of_furnished`**, **`prepare_of_unfurnished`** — what preparing a plan does to a
  machine: only its tree changes.
-/

namespace KeyBuckets

namespace Plan

open Machine

/-- Homes are made, one after the other. -/
inductive Furnished (working : Location) : FileTree → List String → FileTree → Prop where
  | nil {tree : FileTree} : Furnished working tree [] tree
  | cons {tree tree₁ tree' : FileTree} {home : String} {homes : List String}
      (hhome : tree.ensureDirectory working home Keyring.homeMode = .ok tree₁)
      (hhomes : Furnished working tree₁ homes tree') :
      Furnished working tree (home :: homes) tree'

/-- One of some homes cannot be made once those before it are. -/
inductive Unfurnished (working : Location) : FileTree → List String → Error → Prop where
  | here {tree : FileTree} {home : String} {homes : List String} {cause : IoError}
      (hhome : tree.ensureDirectory working home Keyring.homeMode = .error cause) :
      Unfurnished working tree (home :: homes) (.homeNotMade home cause)
  | later {tree tree₁ : FileTree} {home : String} {homes : List String} {e : Error}
      (hhome : tree.ensureDirectory working home Keyring.homeMode = .ok tree₁)
      (hhomes : Unfurnished working tree₁ homes e) : Unfurnished working tree (home :: homes) e

variable {working : Location} {tree tree' : FileTree} {homes : List String} {e : Error}

theorem furnished_or_unfurnished (working : Location) (tree : FileTree) (homes : List String) :
    (∃ tree', Furnished working tree homes tree') ∨ ∃ e, Unfurnished working tree homes e := by
  induction homes generalizing tree with
  | nil => exact .inl ⟨tree, .nil⟩
  | cons home homes ih =>
    cases hhome : tree.ensureDirectory working home Keyring.homeMode with
    | error cause => exact .inr ⟨_, .here hhome⟩
    | ok tree₁ =>
      rcases ih tree₁ with ⟨tree', hhomes⟩ | ⟨e, hhomes⟩
      · exact .inl ⟨tree', .cons hhome hhomes⟩
      · exact .inr ⟨e, .later hhome hhomes⟩

/-- Homes can be made in one way only. Induction on the first of the two runs. -/
theorem Furnished.unique {tree'' : FileTree} (h : Furnished working tree homes tree')
    (h' : Furnished working tree homes tree'') : tree' = tree'' := by
  induction h with
  | nil =>
    cases h'
    rfl
  | cons hhome _ ih =>
    cases h' with
    | cons hhome' hhomes' =>
      obtain rfl := Except.ok.inj (hhome.symm.trans hhome')
      exact ih hhomes'

/-- Homes that are all made are not kept from being made. -/
theorem Furnished.not_unfurnished (h : Furnished working tree homes tree') :
    ¬ Unfurnished working tree homes e := by
  intro hfails
  induction h with
  | nil => cases hfails
  | cons hhome _ ih =>
    cases hfails with
    | here hhome' => cases hhome.symm.trans hhome'
    | later hhome' hhomes' =>
      obtain rfl := Except.ok.inj (hhome.symm.trans hhome')
      exact ih hhomes'

/-! ## Preparing a plan -/

variable {machine : Machine} {rings : List Keyring}

/-- Making a home changes the tree of the machine, and nothing else of it. -/
theorem ensureHome_of_ok {ring : Keyring}
    (h : machine.tree.ensureDirectory machine.working ring.home Keyring.homeMode = .ok tree) :
    ring.ensureHome machine = (.ok (), { machine with tree }) := by
  unfold Keyring.ensureHome
  rw [h]

/-- Where a home cannot be made, the machine stays as it is. -/
theorem ensureHome_of_error {ring : Keyring} {cause : IoError}
    (h : machine.tree.ensureDirectory machine.working ring.home Keyring.homeMode
      = .error cause) :
    ring.ensureHome machine = (.error (.homeNotMade ring.home cause), machine) := by
  unfold Keyring.ensureHome
  rw [h]

/-- The homes of keyrings are made one after the other. Induction on the keyrings, with the tree
that the homes before have left. -/
theorem ensureHomes_of_furnished
    (h : Furnished machine.working machine.tree (rings.map (·.home)) tree) :
    ensureHomes rings machine = (.ok (), { machine with tree }) := by
  induction rings generalizing machine with
  | nil =>
    cases h
    rfl
  | cons ring rings ih =>
    cases h with
    | @cons _ tree₁ _ _ _ hhome hhomes =>
      -- the other homes are made on a machine with the grown tree
      have hrest := @ih { machine with tree := tree₁ } hhomes
      exact (bind_of_eq (ensureHome_of_ok hhome) _).trans hrest

/-- The first home that cannot be made ends it; those before it stay. -/
theorem ensureHomes_of_unfurnished
    (h : Unfurnished machine.working machine.tree (rings.map (·.home)) e) :
    ∃ tree, ensureHomes rings machine = (.error e, { machine with tree }) := by
  induction rings generalizing machine with
  | nil => cases h
  | cons ring rings ih =>
    cases h with
    | here hhome => exact ⟨machine.tree, bind_of_eq (ensureHome_of_error hhome) _⟩
    | @later _ tree₁ _ _ _ hhome hhomes =>
      obtain ⟨tree, hrest⟩ := @ih { machine with tree := tree₁ } hhomes
      exact ⟨tree, (bind_of_eq (ensureHome_of_ok hhome) _).trans hrest⟩

variable {plan : Plan}

theorem length_homes (plan : Plan) : plan.homes.length = plan.count.value := by
  unfold homes
  rw [List.length_map, List.length_range]

/-- Home `i` stands at place `i`. -/
theorem getElem?_homes (plan : Plan) (i : Fin plan.count.value) :
    plan.homes[i.val]? = some (plan.home i.val) := by
  unfold homes
  rw [List.getElem?_map, List.getElem?_range i.isLt]
  rfl

/-- The keyrings of a plan have the homes of the plan. -/
theorem map_home_buckets (plan : Plan) : plan.buckets.map (·.home) = plan.homes := by
  unfold buckets
  rw [List.map_map]
  exact List.map_id _

/-- A plan whose homes are all made is prepared. -/
theorem prepare_of_furnished (h : Furnished machine.working machine.tree plan.homes tree) :
    plan.prepare machine = (.ok plan.buckets, { machine with tree }) := by
  rw [← map_home_buckets] at h
  exact bind_of_eq (ensureHomes_of_furnished h) _

/-- A plan with a home that cannot be made ends with the error of that home. -/
theorem prepare_of_unfurnished (h : Unfurnished machine.working machine.tree plan.homes e) :
    ∃ tree, plan.prepare machine = (.error e, { machine with tree }) := by
  rw [← map_home_buckets] at h
  obtain ⟨tree, hhomes⟩ := ensureHomes_of_unfurnished h
  exact ⟨tree, bind_of_eq hhomes _⟩

end Plan

end KeyBuckets
