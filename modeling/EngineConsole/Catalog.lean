/-!
# Catalogs

A catalog maps names to values and lists its entries in ascending order of the names, compared by
code point. The order is part of the type, so two catalogs with the same value under every name are
the same catalog.
-/

set_option autoImplicit false

namespace EngineConsole

structure Catalog (α : Type) where
  entries : List (String × α)
  ascending : entries.Pairwise fun a b => a.1 < b.1
  deriving DecidableEq

namespace Catalog

variable {α β : Type}

/-- Put a value under a name, in place of the one that was there. -/
def place (key : String) (value : α) : List (String × α) → List (String × α)
  | [] => [(key, value)]
  | (k, v) :: rest =>
    if key < k then (key, value) :: (k, v) :: rest
    else if key = k then (key, value) :: rest
    else (k, v) :: place key value rest

def find? (key : String) : List (String × α) → Option α
  | [] => none
  | (k, v) :: rest => if key = k then some v else find? key rest

theorem mem_place {key : String} {value : α} {e : String × α} {l : List (String × α)}
    (h : e ∈ place key value l) : e = (key, value) ∨ e ∈ l := by
  induction l with
  | nil => simpa [place] using h
  | cons hd tl ih =>
    obtain ⟨k, v⟩ := hd
    rw [place] at h
    split at h
    · simpa using h
    · split at h
      · rcases List.mem_cons.1 h with h | h
        · exact .inl h
        · exact .inr (List.mem_cons_of_mem _ h)
      · rcases List.mem_cons.1 h with h | h
        · exact .inr (h ▸ List.mem_cons_self)
        · exact (ih h).imp_right (List.mem_cons_of_mem _)

theorem ascending_place (key : String) (value : α) {l : List (String × α)}
    (h : l.Pairwise fun a b => a.1 < b.1) :
    (place key value l).Pairwise fun a b => a.1 < b.1 := by
  induction l with
  | nil => simp [place]
  | cons hd tl ih =>
    obtain ⟨k, v⟩ := hd
    rw [List.pairwise_cons] at h
    rw [place]
    split
    · next lt =>
      refine List.pairwise_cons.2 ⟨fun e he => ?_, List.pairwise_cons.2 h⟩
      rcases List.mem_cons.1 he with rfl | he
      · exact lt
      · exact String.lt_trans lt (h.1 e he)
    · next notLt =>
      split
      · next eq => exact List.pairwise_cons.2 ⟨fun e he => eq ▸ h.1 e he, h.2⟩
      · next ne =>
        refine List.pairwise_cons.2 ⟨fun e he => ?_, ih h.2⟩
        rcases mem_place he with rfl | he
        · exact String.not_le.1 fun le => ne (String.le_antisymm le (String.not_lt.1 notLt))
        · exact h.1 e he

theorem find?_place (key name : String) (value : α) (l : List (String × α)) :
    find? name (place key value l) = if name = key then some value else find? name l := by
  induction l with
  | nil => simp [place, find?]
  | cons hd tl ih =>
    obtain ⟨k, v⟩ := hd
    rw [place]
    split
    · next lt =>
      simp only [find?]
    · split
      · next eq =>
        subst eq
        simp only [find?]
        split <;> simp_all
      · next ne =>
        simp only [find?, ih]
        split
        · next h =>
          subst h
          simp [Ne.symm ne]
        · rfl

theorem find?_of_forall_ne {key : String} {l : List (String × α)} (absent : ∀ e ∈ l, key ≠ e.1) :
    find? key l = none := by
  induction l with
  | nil => rfl
  | cons hd tl ih =>
    rw [find?, if_neg (absent hd List.mem_cons_self)]
    exact ih fun e he => absent e (List.mem_cons_of_mem _ he)

def empty : Catalog α :=
  ⟨[], .nil⟩

instance : Inhabited (Catalog α) := ⟨empty⟩

def insert (c : Catalog α) (key : String) (value : α) : Catalog α :=
  ⟨place key value c.entries, ascending_place key value c.ascending⟩

def get? (c : Catalog α) (key : String) : Option α :=
  find? key c.entries

def contains (c : Catalog α) (key : String) : Bool :=
  (c.get? key).isSome

def size (c : Catalog α) : Nat :=
  c.entries.length

def isEmpty (c : Catalog α) : Bool :=
  c.entries.isEmpty

def keys (c : Catalog α) : List String :=
  c.entries.map (·.1)

/-- The catalog of a list of entries, a later entry replacing an earlier one of the same name. -/
def ofList (l : List (String × α)) : Catalog α :=
  l.foldl (fun c e => c.insert e.1 e.2) empty

def map (f : String → α → β) (c : Catalog α) : Catalog β :=
  ⟨c.entries.map fun e => (e.1, f e.1 e.2), by
    rw [List.pairwise_map]
    exact c.ascending⟩

/-- The value under one name changed; without that name, the same catalog. -/
def update (c : Catalog α) (key : String) (f : α → α) : Catalog α :=
  c.map fun k v => if k = key then f v else v

theorem place_of_forall_lt {key : String} (value : α) {l : List (String × α)}
    (last : ∀ e ∈ l, e.1 < key) : place key value l = l ++ [(key, value)] := by
  induction l with
  | nil => rfl
  | cons hd tl ih =>
    obtain ⟨k, v⟩ := hd
    have lt : k < key := last (k, v) List.mem_cons_self
    have notLt : ¬key < k := fun gt => String.lt_irrefl k (String.lt_trans lt gt)
    have ne : key ≠ k := fun eq => String.lt_irrefl k (eq ▸ lt)
    rw [place, if_neg notLt, if_neg ne, ih fun e he => last e (List.mem_cons_of_mem _ he)]
    rfl

theorem entries_foldl_insert {l : List (String × α)} (c : Catalog α)
    (h : (c.entries ++ l).Pairwise fun a b => a.1 < b.1) :
    (l.foldl (fun c e => c.insert e.1 e.2) c).entries = c.entries ++ l := by
  induction l generalizing c with
  | nil => simp
  | cons hd tl ih =>
    have last : ∀ e ∈ c.entries, e.1 < hd.1 := fun e he =>
      (List.pairwise_append.1 h).2.2 e he hd List.mem_cons_self
    have placed : (c.insert hd.1 hd.2).entries = c.entries ++ [hd] := place_of_forall_lt hd.2 last
    rw [List.foldl_cons, ih, placed, List.append_assoc]
    · rfl
    · rwa [placed, List.append_assoc]

/-- A catalog is the catalog of its entries. -/
@[simp] theorem ofList_entries (c : Catalog α) : ofList c.entries = c := by
  have entries : (ofList c.entries).entries = c.entries :=
    entries_foldl_insert empty c.ascending
  cases c
  unfold ofList at entries ⊢
  generalize List.foldl _ _ _ = d at entries
  cases d
  cases entries
  rfl

@[simp] theorem get?_empty (key : String) : (empty : Catalog α).get? key = none := rfl

@[simp] theorem get?_insert (c : Catalog α) (key name : String) (value : α) :
    (c.insert key value).get? name = if name = key then some value else c.get? name :=
  find?_place key name value c.entries

theorem find?_map (f : String → α → β) (key : String) (l : List (String × α)) :
    find? key (l.map fun e => (e.1, f e.1 e.2)) = (find? key l).map (f key) := by
  induction l with
  | nil => rfl
  | cons hd tl ih =>
    obtain ⟨k, v⟩ := hd
    simp only [List.map_cons, find?]
    split
    · next h => subst h; rfl
    · exact ih

@[simp] theorem get?_map (f : String → α → β) (c : Catalog α) (key : String) :
    (c.map f).get? key = (c.get? key).map (f key) :=
  find?_map f key c.entries

theorem get?_update (c : Catalog α) (key name : String) (f : α → α) :
    (c.update key f).get? name = if name = key then (c.get? name).map f else c.get? name := by
  unfold update
  rw [get?_map]
  split
  · next h => subst h; simp
  · next h =>
    cases c.get? name with
    | none => rfl
    | some v => simp

@[simp] theorem keys_map (f : String → α → β) (c : Catalog α) : (c.map f).keys = c.keys := by
  simp [keys, map, Function.comp_def]

end Catalog

end EngineConsole
