import BitsBroker.Lib.HashMap

/-!
A key-value store with revisions. Every write gives its key the next revision of the store,
and a deleted key keeps an entry without a value. A conditional write goes through when the
key still has the revision that was seen; the value that was seen with it is then still
there, however many writes there were in between.
-/

namespace Revision

variable {K V : Type} [DecidableEq K]

structure Store (K V : Type) where
  entries : HashMap K (Option V × Nat)
  last : Nat

def Store.empty : Store K V where
  entries := ∅
  last := 0

namespace Store

def read (store : Store K V) (key : K) : Option (Option V × Nat) := store.entries.lookup key

def revision (store : Store K V) (key : K) : Option Nat := (store.read key).map (·.2)

def value (store : Store K V) (key : K) : Option V := (store.read key).bind (·.1)

def write (store : Store K V) (key : K) (value : Option V) : Store K V where
  entries := AList.insert key (value, store.last + 1) store.entries
  last := store.last + 1

/-- A write of another key of the same store. -/
def skip (store : Store K V) : Store K V := { store with last := store.last + 1 }

/-- The entry of a deleted key is dropped in the end. -/
def expire (store : Store K V) (key : K) : Store K V :=
  match store.read key with
  | some (none, _) => { store with entries := AList.erase key store.entries }
  | _ => store

/-- The write of a transaction that saw the key at the revision `seen`. -/
def commit (store : Store K V) (key : K) (value : V) (seen : Option Nat) : Option (Store K V) :=
  if store.revision key = seen then some (store.write key (some value)) else none

def update (store : Store K V) (key : K) (value : V) (seen : Nat) : Option (Store K V) :=
  store.commit key value (some seen)

def create (store : Store K V) (key : K) (value : V) : Option (Store K V) :=
  match store.value key with
  | some _ => none
  | none => some (store.write key (some value))

/-- Revisions are given out in order. -/
def Ordered (store : Store K V) : Prop :=
  ∀ key entry, store.read key = some entry → entry.2 ≤ store.last

/-- The revision was given out, and no key but `key` has it. -/
def Given (store : Store K V) (revision : Nat) (key : K) : Prop :=
  revision ≤ store.last ∧ ∀ other entry, store.read other = some entry → entry.2 = revision →
    other = key

def Single (store : Store K V) : Prop :=
  ∀ key entry, store.read key = some entry → store.Given entry.2 key

/-- If the revision of an entry that was read is still there, so is its value. -/
def Stable (store : Store K V) (key : K) (entry : Option V × Nat) : Prop :=
  entry.2 ≤ store.last ∧ ∀ current, store.read key = some current → current.2 = entry.2 →
    current = entry

/-- The store holds `contents` under the keys that `keyOf` gives, each value in the form that
`encode` gives it. -/
def Represents {A W : Type} (store : Store K V) (keyOf : A → Option K) (encode : W → V)
    (contents : A → Option W) : Prop :=
  ∀ name key, keyOf name = some key → store.value key = (contents name).map encode

variable {store next : Store K V} {key other : K} {entry : Option V × Nat}

@[simp] theorem read_empty (key : K) : (empty : Store K V).read key = none := rfl

theorem read_write (store : Store K V) (key : K) (value : Option V) (other : K) :
    (store.write key value).read other =
      if other = key then some (value, store.last + 1) else store.read other :=
  HashMap.lookup_insert_eq store.entries key other (value, store.last + 1)

@[simp] theorem read_skip (store : Store K V) (key : K) : store.skip.read key = store.read key :=
  rfl

theorem value_write (store : Store K V) (key : K) (value : Option V) (other : K) :
    (store.write key value).value other = if other = key then value else store.value other := by
  unfold Store.value
  rw [read_write]
  split <;> rfl

theorem read_expire (store : Store K V) (key other : K) :
    (store.expire key).read other = store.read other ∨
      (store.expire key).read other = none ∧ store.value other = none := by
  unfold expire
  split
  next revision found =>
    simp only [read, HashMap.lookup_erase_eq]
    split
    next same =>
      subst same
      refine Or.inr ⟨rfl, ?_⟩
      simp [Store.value, found]
    next => exact Or.inl rfl
  next => exact Or.inl rfl

theorem last_expire (store : Store K V) (key : K) : (store.expire key).last = store.last := by
  unfold expire
  split <;> rfl

theorem Ordered.empty : (empty : Store K V).Ordered := by
  intro key entry found
  simp at found

theorem Ordered.write (ordered : store.Ordered) (key : K) (value : Option V) :
    (store.write key value).Ordered := by
  intro other entry found
  rw [read_write] at found
  split at found
  · simp only [Option.some.injEq] at found
    subst found
    exact le_rfl
  · exact Nat.le_succ_of_le (ordered other entry found)

theorem Ordered.skip (ordered : store.Ordered) : store.skip.Ordered := by
  intro other entry found
  exact Nat.le_succ_of_le (ordered other entry found)

theorem Ordered.expire (ordered : store.Ordered) (key : K) : (store.expire key).Ordered := by
  intro other entry found
  rw [last_expire]
  rcases read_expire store key other with same | ⟨gone, _⟩
  · exact ordered other entry (same ▸ found)
  · simp [gone] at found

theorem Stable.of_read (ordered : store.Ordered) (found : store.read key = some entry) :
    store.Stable key entry := by
  refine ⟨ordered key entry found, ?_⟩
  intro current there _
  rw [found] at there
  exact (Option.some.inj there).symm

theorem Stable.write (stable : store.Stable key entry) (changed : K) (value : Option V) :
    (store.write changed value).Stable key entry := by
  refine ⟨Nat.le_succ_of_le stable.1, ?_⟩
  intro current there same
  rw [read_write] at there
  split at there
  · simp only [Option.some.injEq] at there
    subst there
    have bound := stable.1
    simp only at same
    omega
  · exact stable.2 current there same

theorem Stable.skip (stable : store.Stable key entry) : store.skip.Stable key entry :=
  ⟨Nat.le_succ_of_le stable.1, stable.2⟩

theorem Stable.expire (stable : store.Stable key entry) (changed : K) :
    (store.expire changed).Stable key entry := by
  refine ⟨by rw [last_expire]; exact stable.1, ?_⟩
  intro current there same
  rcases read_expire store changed key with kept | ⟨gone, _⟩
  · exact stable.2 current (kept ▸ there) same
  · simp [gone] at there

theorem Given.write {revision : Nat} (given : store.Given revision key) (changed : K)
    (value : Option V) : (store.write changed value).Given revision key := by
  have bound := given.1
  refine ⟨Nat.le_succ_of_le bound, ?_⟩
  intro other entry found same
  rw [read_write] at found
  split at found
  · simp only [Option.some.injEq] at found
    subst found
    simp only at same
    omega
  · exact given.2 other entry found same

theorem Given.expire {revision : Nat} (given : store.Given revision key) (changed : K) :
    (store.expire changed).Given revision key := by
  refine ⟨by rw [last_expire]; exact given.1, ?_⟩
  intro other entry found same
  rcases read_expire store changed other with kept | ⟨gone, _⟩
  · exact given.2 other entry (kept ▸ found) same
  · simp [gone] at found

theorem Single.empty : (empty : Store K V).Single := by
  intro key entry found
  simp at found

theorem Single.write (single : store.Single) (key : K) (value : Option V) :
    (store.write key value).Single := by
  intro other entry found
  rw [read_write] at found
  split at found
  next same =>
    simp only [Option.some.injEq] at found
    subst found same
    refine ⟨le_rfl, ?_⟩
    intro another current there equal
    rw [read_write] at there
    split at there
    next here => exact here
    · have bound := (single another current there).1
      simp only at equal
      omega
  · exact (single other entry found).write key value

theorem Single.expire (single : store.Single) (key : K) : (store.expire key).Single := by
  intro other entry found
  rcases read_expire store key other with kept | ⟨gone, _⟩
  · exact (single other entry (kept ▸ found)).expire key
  · simp [gone] at found

/-- A conditional write that goes through finds the entry that was seen. -/
theorem commit_read {value : V} (stable : store.Stable key entry)
    (committed : store.commit key value (some entry.2) = some next) :
    store.read key = some entry ∧ next = store.write key (some value) := by
  unfold commit at committed
  split at committed
  next seen =>
    simp only [Option.some.injEq] at committed
    simp only [revision, Option.map_eq_some_iff] at seen
    obtain ⟨current, there, same⟩ := seen
    rw [there, stable.2 current there same]
    exact ⟨rfl, committed.symm⟩
  · simp at committed

theorem commit_absent {value : V} (committed : store.commit key value none = some next) :
    store.read key = none ∧ next = store.write key (some value) := by
  unfold commit at committed
  split at committed
  next seen =>
    simp only [Option.some.injEq] at committed
    exact ⟨Option.map_eq_none_iff.mp seen, committed.symm⟩
  · simp at committed

/-- The key is as the snapshot of a transaction that commits has it. -/
theorem commit_snapshot {snapshot : Store K V} {value : V}
    (stable : ∀ entry, snapshot.read key = some entry → store.Stable key entry)
    (committed : store.commit key value (snapshot.revision key) = some next) :
    store.read key = snapshot.read key ∧ next = store.write key (some value) := by
  cases found : snapshot.read key with
  | none =>
      rw [revision, found] at committed
      exact commit_absent committed
  | some entry =>
      rw [revision, found] at committed
      exact commit_read (stable entry found) committed

theorem create_value {value : V} (created : store.create key value = some next) :
    store.value key = none ∧ next = store.write key (some value) := by
  unfold create at created
  split at created
  · simp at created
  next absent =>
    simp only [Option.some.injEq] at created
    exact ⟨absent, created.symm⟩

theorem value_expire (store : Store K V) (key other : K) :
    (store.expire key).value other = store.value other := by
  unfold Store.value
  rcases read_expire store key other with same | ⟨gone, absent⟩
  · rw [same]
  · rw [gone]
    exact absent.symm

theorem update_current {value old : V} {revision : Nat}
    (found : store.read key = some (some old, revision)) :
    store.update key value revision = some (store.write key (some value)) := by
  simp [update, commit, Store.revision, found]

theorem commit_current (value : V) :
    store.commit key value (store.revision key) = some (store.write key (some value)) := by
  simp [commit]

section Represents

variable {A W : Type} {keyOf : A → Option K} {encode : W → V}
  {contents : A → Option W} {name : A}

theorem Represents.write [DecidableEq A] (holds : store.Represents keyOf encode contents)
    (apart : ∀ left right same, keyOf left = some same → keyOf right = some same → left = right)
    (named : keyOf name = some key) (value : Option W) :
    (store.write key (value.map encode)).Represents keyOf encode
      (Function.update contents name value) := by
  intro other there keyed
  rw [value_write, Function.update_apply]
  by_cases same : other = name
  · subst same
    obtain rfl : there = key := Option.some.inj (keyed.symm.trans named)
    rw [if_pos rfl, if_pos rfl]
  · have different : there ≠ key := by
      rintro rfl
      exact same (apart other name there keyed named)
    rw [if_neg different, if_neg same]
    exact holds other there keyed

theorem Represents.aside (holds : store.Represents keyOf encode contents)
    (outside : ∀ name, keyOf name ≠ some key) (value : Option V) :
    (store.write key value).Represents keyOf encode contents := by
  intro other there keyed
  have different : there ≠ key := by
    rintro rfl
    exact outside other keyed
  rw [value_write, if_neg different]
  exact holds other there keyed

theorem Represents.expire (holds : store.Represents keyOf encode contents) (changed : K) :
    (store.expire changed).Represents keyOf encode contents := by
  intro other there keyed
  rw [value_expire]
  exact holds other there keyed

end Represents

end Store

end Revision
