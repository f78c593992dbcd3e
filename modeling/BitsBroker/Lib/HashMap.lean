import Mathlib.Data.List.AList

/-! Finite maps as association lists with distinct keys, and the lookup equations
that every proof about an updated map goes through. -/

abbrev HashMap (K V : Type) : Type := AList (fun _ : K => V)

namespace HashMap

variable {K V : Type} [DecidableEq K]

theorem lookup_insert_eq (map : HashMap K V) (key query : K) (value : V) :
    (AList.insert key value map).lookup query =
      if query = key then some value else map.lookup query := by
  split
  next same =>
    subst same
    exact AList.lookup_insert map
  next different => exact AList.lookup_insert_ne different

theorem lookup_erase_eq (map : HashMap K V) (key query : K) :
    (AList.erase key map).lookup query =
      if query = key then none else map.lookup query := by
  split
  next same =>
    subst same
    exact AList.lookup_erase query map
  next different => exact AList.lookup_erase_ne different

def size (map : HashMap K V) : Nat := map.keys.length

theorem size_insert_of_absent {map : HashMap K V} {key : K} (absent : map.lookup key = none)
    (value : V) : size (AList.insert key value map) = size map + 1 := by
  have fresh : key ∉ map.keys := fun inside => AList.lookup_eq_none.mp absent inside
  simp [size, AList.keys_insert, List.erase_of_not_mem fresh]

theorem size_erase_of_present {map : HashMap K V} {key : K} {value : V}
    (present : map.lookup key = some value) : size (AList.erase key map) + 1 = size map := by
  have inside : key ∈ map.keys := AList.lookup_isSome.mp (by simp [present])
  have positive : 0 < map.keys.length := List.length_pos_of_mem inside
  simp only [size, AList.keys_erase, List.length_erase_of_mem inside]
  omega

/-- Every value is changed or dropped. -/
def retain (map : HashMap K V) (change : K → V → Option V) : HashMap K V where
  entries := map.entries.filterMap fun entry => (change entry.1 entry.2).map (Sigma.mk entry.1)
  nodupKeys := by
    have pairs := List.pairwise_map.mp map.nodupKeys
    apply List.pairwise_map.mpr
    apply List.Pairwise.filterMap _ _ pairs
    intro first second different one isOne two isTwo
    obtain ⟨_, _, rfl⟩ := Option.map_eq_some_iff.mp isOne
    obtain ⟨_, _, rfl⟩ := Option.map_eq_some_iff.mp isTwo
    exact different

theorem lookup_retain (map : HashMap K V) (change : K → V → Option V) (key : K) :
    (retain map change).lookup key = (map.lookup key).bind (change key) := by
  apply Option.ext
  intro value
  simp only [Option.bind_eq_some_iff]
  constructor
  · intro found
    have inside := AList.mem_lookup_iff.mp found
    obtain ⟨entry, member, changed⟩ := List.mem_filterMap.mp inside
    obtain ⟨_, kept, same⟩ := Option.map_eq_some_iff.mp changed
    cases same
    exact ⟨entry.2, AList.mem_lookup_iff.mpr member, kept⟩
  · rintro ⟨old, found, kept⟩
    apply AList.mem_lookup_iff.mpr
    apply List.mem_filterMap.mpr
    exact ⟨⟨key, old⟩, AList.mem_lookup_iff.mp found, by simp [kept]⟩

end HashMap
