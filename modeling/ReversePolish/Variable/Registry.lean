import ReversePolish.Variable.Cells
/-!
# Variables and their registry

A variable is a name together with a cell. The registry holds at most one variable of each name,
in the order of the names. That a variable leaves the registry does not concern its cell: whoever
still refers to it keeps it.

The name that an entry is looked up by stands beside the variable, which has a name of its own. That
the two agree is no matter of course, but it is so in every registry that was made by adding
variables under their names (`Registry.WellFormed`).
-/

namespace ReversePolish

/-- A named cell. -/
structure Variable where
  name : String
  cell : CellId
  deriving DecidableEq, Repr

/-- Whether two variables share their cell (`Variable.aliases`). -/
def Variable.sharesCell (v w : Variable) : Bool := v.cell == w.cell

/-- The variables that are known by name (`Variables`): each of them with the name that it is looked
up by, ordered by these names. -/
structure Registry where
  byName : List (String × Variable) := []
  deriving DecidableEq, Repr

namespace Registry

/-- Inserts an entry before the first one with a larger name. -/
def insertSorted (name : String) (v : Variable) :
    List (String × Variable) → List (String × Variable)
  | [] => [(name, v)]
  | entry :: rest =>
    if name < entry.1 then (name, v) :: entry :: rest else entry :: insertSorted name v rest

/-- The variables in the order of the names that they are looked up by (`Variables.iter`). -/
def entries (r : Registry) : List Variable := r.byName.map Prod.snd

def lookup? (r : Registry) (name : String) : Option Variable := r.byName.lookup name

def contains (r : Registry) (name : String) : Bool := (r.lookup? name).isSome

/-- Adds a variable under a name that is not known yet. -/
def insert (r : Registry) (name : String) (v : Variable) : Registry :=
  ⟨insertSorted name v r.byName⟩

/-- Takes out the entry of a name (`Variables.purge`). -/
def erase (r : Registry) (name : String) : Registry :=
  ⟨r.byName.filter fun entry => !(entry.1 == name)⟩

/-- Keeps the entries of the variables with a property, as `Variables.prune` does. -/
def filter (r : Registry) (p : Variable → Bool) : Registry :=
  ⟨r.byName.filter fun entry => p entry.2⟩

def size (r : Registry) : Nat := r.byName.length

/-! ## Entries -/

variable {r : Registry} {byName : List (String × Variable)} {name other : String} {v w : Variable}
  {p q : Variable → Bool}

theorem mem_entries : v ∈ r.entries ↔ ∃ name, (name, v) ∈ r.byName := by
  simp [entries]

theorem insertSorted_perm (name : String) (v : Variable) (byName : List (String × Variable)) :
    (insertSorted name v byName).Perm ((name, v) :: byName) := by
  induction byName with
  | nil => exact .refl _
  | cons entry rest ih =>
    rw [insertSorted]
    split
    · exact .refl _
    · exact (ih.cons entry).trans (.swap (name, v) entry rest)

theorem mem_byName_insert {entry : String × Variable} :
    entry ∈ (r.insert name v).byName ↔ entry = (name, v) ∨ entry ∈ r.byName := by
  rw [insert, (insertSorted_perm name v r.byName).mem_iff, List.mem_cons]

theorem entries_insert_perm (r : Registry) (name : String) (v : Variable) :
    (r.insert name v).entries.Perm (v :: r.entries) :=
  (insertSorted_perm name v r.byName).map Prod.snd

theorem mem_insert : w ∈ (r.insert name v).entries ↔ w = v ∨ w ∈ r.entries := by
  rw [(r.entries_insert_perm name v).mem_iff, List.mem_cons]

@[simp] theorem entries_filter (r : Registry) (p : Variable → Bool) :
    (r.filter p).entries = r.entries.filter p :=
  List.filter_map.symm

theorem filter_congr (h : ∀ v ∈ r.entries, p v = q v) : r.filter p = r.filter q :=
  congrArg Registry.mk <| List.filter_congr fun _ hentry => h _ (List.mem_map_of_mem hentry)

theorem filter_filter (r : Registry) (p q : Variable → Bool) :
    (r.filter p).filter q = r.filter fun v => q v && p v :=
  congrArg Registry.mk List.filter_filter

/-! ## Looking up -/

theorem mem_byName_of_lookup? (h : r.lookup? name = some v) : (name, v) ∈ r.byName := by
  obtain ⟨before, after, hsplit, -⟩ := List.lookup_eq_some_iff.1 h
  simp [hsplit]

theorem mem_of_lookup? (h : r.lookup? name = some v) : v ∈ r.entries :=
  mem_entries.2 ⟨name, mem_byName_of_lookup? h⟩

/-- A name that is not known is not the name of an entry. -/
theorem ne_of_lookup? (h : r.lookup? name = none) (hv : (other, v) ∈ r.byName) : other ≠ name := by
  have hne := List.lookup_eq_none_iff.1 h _ hv
  exact (bne_iff_ne.1 hne).symm

theorem contains_iff : r.contains name = true ↔ ∃ v, (name, v) ∈ r.byName := by
  unfold contains
  cases h : r.lookup? name with
  | some v => simpa using ⟨v, mem_byName_of_lookup? h⟩
  | none => simpa using fun v hv => ne_of_lookup? h hv rfl

/-- What is kept is found under its name, as it was before. -/
theorem lookup?_filter (h : r.lookup? name = some v) (hv : p v = true) :
    (r.filter p).lookup? name = some v := by
  obtain ⟨before, after, hsplit, hbefore⟩ := List.lookup_eq_some_iff.1 h
  have hkept : (r.filter p).byName
      = before.filter (fun entry => p entry.2)
        ++ (name, v) :: after.filter (fun entry => p entry.2) := by
    simp [filter, hsplit, hv]
  refine List.lookup_eq_some_iff.2 ⟨_, _, hkept, fun entry hentry => ?_⟩
  exact hbefore entry (List.mem_filter.1 hentry).1

theorem lookup_insertSorted (hnew : ∀ entry ∈ byName, entry.1 ≠ name) (v : Variable) :
    (insertSorted name v byName).lookup name = some v := by
  induction byName with
  | nil => simp [insertSorted]
  | cons entry rest ih =>
    obtain ⟨hentry, hrest⟩ := List.forall_mem_cons.1 hnew
    rw [insertSorted]
    split
    · simp
    · have hother : (name == entry.1) = false := by simpa using hentry.symm
      rw [List.lookup_cons, hother]
      exact ih hrest

/-- A variable is found under its name once it is added. -/
theorem lookup?_insert (h : r.lookup? name = none) (v : Variable) :
    (r.insert name v).lookup? name = some v :=
  lookup_insertSorted (fun _ hentry => ne_of_lookup? h hentry) v

theorem lookup_insertSorted_of_ne (h : name ≠ other) (v : Variable)
    (byName : List (String × Variable)) :
    (insertSorted name v byName).lookup other = byName.lookup other := by
  have hother : (other == name) = false := by simpa using h.symm
  induction byName with
  | nil => simp [insertSorted, List.lookup_cons, hother]
  | cons entry rest ih =>
    rw [insertSorted]
    split
    · rw [List.lookup_cons, hother]
    · rw [List.lookup_cons, List.lookup_cons, ih]

/-- Adding a variable does not hide the others. -/
theorem lookup?_insert_of_ne (r : Registry) (v : Variable) (h : name ≠ other) :
    (r.insert name v).lookup? other = r.lookup? other :=
  lookup_insertSorted_of_ne h v r.byName

/-! ## Registries that were made by adding variables under their names -/

/-- Every entry is known by the name of its variable, and the names stand in order, so there is one
entry for each name. -/
structure WellFormed (r : Registry) : Prop where
  sorted : r.byName.Pairwise fun entry later => entry.1 < later.1
  keyed : ∀ name v, (name, v) ∈ r.byName → v.name = name

theorem pairwise_insertSorted (hnew : ∀ entry ∈ byName, entry.1 ≠ name)
    (hsorted : byName.Pairwise fun entry later => entry.1 < later.1) (v : Variable) :
    (insertSorted name v byName).Pairwise fun entry later => entry.1 < later.1 := by
  induction byName with
  | nil => simp [insertSorted]
  | cons entry rest ih =>
    obtain ⟨hentry, hrest⟩ := List.forall_mem_cons.1 hnew
    obtain ⟨hlater, hsorted'⟩ := List.pairwise_cons.1 hsorted
    rw [insertSorted]
    split
    · next hlt =>
      refine List.pairwise_cons.2 ⟨List.forall_mem_cons.2 ⟨hlt, fun later hmem => ?_⟩, hsorted⟩
      exact String.lt_trans hlt (hlater later hmem)
    · next hle =>
      -- the names differ, so the new one comes behind that of the entry
      have hlt : entry.1 < name := Std.lt_of_le_of_ne (String.not_lt.1 hle) hentry
      refine List.pairwise_cons.2 ⟨fun later hmem => ?_, ih hrest hsorted'⟩
      rcases List.mem_cons.1 ((insertSorted_perm name v rest).mem_iff.1 hmem) with rfl | hold
      · exact hlt
      · exact hlater later hold

namespace WellFormed

theorem empty : ({} : Registry).WellFormed := ⟨.nil, by simp⟩

theorem of_sublist {r' : Registry} (h : r.WellFormed) (hsub : r'.byName.Sublist r.byName) :
    r'.WellFormed :=
  ⟨h.sorted.sublist hsub, fun name v hv => h.keyed name v (hsub.subset hv)⟩

/-- Adding a variable under its own name. -/
theorem insert (h : r.WellFormed) (hnew : r.lookup? v.name = none) :
    (r.insert v.name v).WellFormed := by
  refine ⟨pairwise_insertSorted (fun _ hentry => ne_of_lookup? hnew hentry) h.sorted v, ?_⟩
  intro name w hw
  rcases mem_byName_insert.1 hw with heq | hold
  · cases heq
    rfl
  · exact h.keyed name w hold

theorem nodup_names (h : r.WellFormed) : (r.byName.map Prod.fst).Nodup := by
  refine List.pairwise_map.2 (h.sorted.imp fun {entry later} hlt heq => ?_)
  rw [heq] at hlt
  exact String.lt_irrefl _ hlt

/-- Every entry is the one that is found under its name. -/
theorem lookup?_eq_some_iff (h : r.WellFormed) :
    r.lookup? name = some v ↔ (name, v) ∈ r.byName := by
  refine ⟨mem_byName_of_lookup?, fun hv => ?_⟩
  obtain ⟨before, after, hsplit⟩ := List.append_of_mem hv
  refine List.lookup_eq_some_iff.2 ⟨before, after, hsplit, fun entry hentry => ?_⟩
  have hsorted := h.sorted
  rw [hsplit] at hsorted
  have hlt : entry.1 < name :=
    (List.pairwise_append.1 hsorted).2.2 entry hentry _ List.mem_cons_self
  refine bne_iff_ne.2 ?_
  rintro rfl
  exact String.lt_irrefl _ hlt

end WellFormed

end Registry

end ReversePolish
