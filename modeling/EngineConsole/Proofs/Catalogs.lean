import EngineConsole.Catalog
import Mathlib.Data.Finset.Card
import Mathlib.Data.List.Induction
import Mathlib.Data.List.Nodup

/-!
# Catalogs by name

A catalog is what it has under each name. One that was made from a list of entries has the last one
of each name, so the order of the list matters only where a name is repeated.
-/

set_option autoImplicit false

namespace EngineConsole

namespace Catalog

variable {α β : Type} {c d : Catalog α} {key : String}

theorem get?_eq_some_iff {value : α} : c.get? key = some value ↔ (key, value) ∈ c.entries := by
  have found {l : List (String × α)} (ascending : l.Pairwise fun a b => a.1 < b.1) :
      find? key l = some value ↔ (key, value) ∈ l := by
    induction l with
    | nil => simp [find?]
    | cons e rest ih =>
        obtain ⟨k, v⟩ := e
        obtain ⟨first, ascending⟩ := List.pairwise_cons.mp ascending
        rw [find?, List.mem_cons]
        split
        next same =>
          subst same
          have absent : (key, value) ∉ rest := fun member => String.lt_irrefl key (first _ member)
          simp [absent, eq_comm]
        next other => simp [ih ascending, other]
  exact found c.ascending

theorem mem_keys : key ∈ c.keys ↔ c.contains key = true := by
  rw [contains, Option.isSome_iff_exists]
  simp only [keys, List.mem_map, Prod.exists, exists_and_right, exists_eq_right,
    get?_eq_some_iff]

theorem nodup_keys (c : Catalog α) : c.keys.Nodup := by
  refine List.pairwise_map.mpr (c.ascending.imp fun {a b} before => ?_)
  intro same
  exact String.lt_irrefl b.1 (same ▸ before)

theorem nodup_entries (c : Catalog α) : c.entries.Nodup :=
  c.nodup_keys.of_map _

/-- Catalogs with the same value under every name are the same. -/
theorem ext_get? (same : ∀ key, c.get? key = d.get? key) : c = d := by
  have members (e : String × α) : e ∈ c.entries ↔ e ∈ d.entries := by
    rw [← get?_eq_some_iff, ← get?_eq_some_iff, same]
  have perm : c.entries.Perm d.entries :=
    (List.perm_ext_iff_of_nodup c.nodup_entries d.nodup_entries).mpr members
  have entries : c.entries = d.entries := perm.eq_of_pairwise
    (fun a b _ _ before after => absurd (String.lt_trans before after) (String.lt_irrefl a.1))
    c.ascending d.ascending
  cases c
  cases d
  cases entries
  rfl

theorem get?_ofList (l : List (String × α)) (key : String) :
    (ofList l).get? key = l.reverse.lookup key := by
  induction l using List.reverseRecOn with
  | nil => rfl
  | append_singleton l e ih =>
      have last : ofList (l ++ [e]) = (ofList l).insert e.1 e.2 := by
        unfold ofList
        rw [List.foldl_append]
        rfl
      rw [last, get?_insert, List.reverse_append, List.reverse_singleton, List.singleton_append,
        List.lookup_cons]
      by_cases same : key = e.1
      · simp [same]
      · rw [if_neg same, ih, beq_false_of_ne same]

theorem eq_ofList_iff {l : List (String × α)} :
    c = ofList l ↔ ∀ key, c.get? key = l.reverse.lookup key := by
  refine ⟨?_, fun values => ext_get? fun key => ?_⟩
  · rintro rfl
    exact get?_ofList l
  · rw [values, get?_ofList]

theorem lookup_eq_some_iff_mem {key : String} {value : α} {l : List (String × α)}
    (distinct : (l.map Prod.fst).Nodup) : l.lookup key = some value ↔ (key, value) ∈ l := by
  induction l with
  | nil => simp
  | cons e more ih =>
      obtain ⟨k, v⟩ := e
      obtain ⟨first, later⟩ := List.nodup_cons.mp distinct
      rw [List.lookup_cons, List.mem_cons]
      by_cases same : key = k
      · subst same
        have absent : (key, value) ∉ more := fun member =>
          first (List.mem_map.mpr ⟨_, member, rfl⟩)
        simp [absent, eq_comm]
      · rw [beq_false_of_ne same]
        simp [same, ih later]

/-- The order of entries does not matter if no two of them have the same name. -/
theorem ofList_perm {l l' : List (String × α)} (perm : l.Perm l')
    (distinct : (l.map Prod.fst).Nodup) : ofList l = ofList l' := by
  have distinct' := (perm.map Prod.fst).nodup_iff.mp distinct
  refine ext_get? fun key => Option.ext fun value => ?_
  rw [get?_ofList, get?_ofList,
    lookup_eq_some_iff_mem (by rwa [List.map_reverse, List.nodup_reverse]),
    lookup_eq_some_iff_mem (by rwa [List.map_reverse, List.nodup_reverse]), List.mem_reverse,
    List.mem_reverse, perm.mem_iff]

/-- A catalog has as many entries as there are names that were given a value. -/
theorem size_ofList (l : List (String × α)) :
    (ofList l).size = (l.map Prod.fst).toFinset.card := by
  have names : (ofList l).keys.toFinset = (l.map Prod.fst).toFinset := by
    ext key
    rw [List.mem_toFinset, List.mem_toFinset, mem_keys, contains, get?_ofList,
      List.lookup_isSome_iff, List.mem_map]
    simp [eq_comm (a := key)]
  rw [← names, List.toFinset_card_of_nodup (nodup_keys _), keys, List.length_map]
  rfl

/-- Two catalogs whose values are related under every name are the two sides of one of pairs. -/
theorem exists_pairs {R : α → α → Prop} (related : ∀ key, Option.Rel R (c.get? key) (d.get? key)) :
    ∃ pairs : Catalog (α × α), pairs.map (fun _ p => p.1) = c ∧ pairs.map (fun _ p => p.2) = d ∧
      ∀ e ∈ pairs.entries, R e.2.1 e.2.2 := by
  refine ⟨c.map fun key v => (v, (d.get? key).getD v), ?_, ?_, ?_⟩
  · refine ext_get? fun key => ?_
    rw [get?_map, get?_map, Option.map_map]
    cases c.get? key <;> rfl
  · refine ext_get? fun key => ?_
    have both := related key
    rw [get?_map, get?_map, Option.map_map]
    generalize c.get? key = v? at both ⊢
    generalize d.get? key = w? at both ⊢
    cases both <;> rfl
  · intro e member
    obtain ⟨⟨key, v⟩, there, rfl⟩ := List.mem_map.mp member
    have both := related key
    rw [get?_eq_some_iff.mpr there] at both
    dsimp only
    generalize d.get? key = w? at both ⊢
    cases both with
    | some pair => exact pair

end Catalog

end EngineConsole
