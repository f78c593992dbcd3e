import BitsBroker.Db.Memory

/-!
Admission slots of the in-memory store, seen entry by entry. `slotOf` is the entry of one
job under one scope and user; reserving adds or finds that entry, releasing removes it,
and a listing holds exactly the entries of its scope and user, one for each job.
-/

namespace BitsBroker.MemoryStore

def slotOf (store : MemoryStore) (scope user jobId : String) : Option UserLimitEntry :=
  (store.userSlots.lookup (scope, user)).bind fun entries => entries.lookup jobId

def SlotsWf (store : MemoryStore) : Prop :=
  ∀ scope user jobId entry, store.slotOf scope user jobId = some entry → entry.jobId = jobId

theorem slotOf_getD (store : MemoryStore) (scope user jobId : String) :
    ((store.userSlots.lookup (scope, user)).getD ∅).lookup jobId =
      store.slotOf scope user jobId := by
  unfold slotOf
  cases store.userSlots.lookup (scope, user) with
  | none => exact AList.lookup_empty jobId
  | some entries => rfl

theorem reserveUserSlot_existing {store : MemoryStore} {scope user jobId : String}
    {entry : UserLimitEntry} (held : store.slotOf scope user jobId = some entry)
    (owner : String) (now : Nat) :
    store.reserveUserSlot scope user jobId owner now = (entry.seq, store) := by
  rw [← slotOf_getD] at held
  simp [reserveUserSlot, held]

theorem reserveUserSlot_fresh {store : MemoryStore} {scope user jobId : String}
    (absent : store.slotOf scope user jobId = none) (owner : String) (now : Nat) :
    (store.reserveUserSlot scope user jobId owner now).1 = store.userSeq + 1 ∧
    (store.reserveUserSlot scope user jobId owner now).2.userSeq = store.userSeq + 1 ∧
    ∀ sc us job, (store.reserveUserSlot scope user jobId owner now).2.slotOf sc us job =
      if sc = scope ∧ us = user ∧ job = jobId
      then some ⟨scope, user, jobId, owner, store.userSeq + 1, now⟩
      else store.slotOf sc us job := by
  have missing := absent
  rw [← slotOf_getD] at missing
  simp only [reserveUserSlot, missing, true_and]
  intro sc us job
  unfold slotOf
  simp only [HashMap.lookup_insert_eq, Prod.mk.injEq]
  by_cases here : sc = scope ∧ us = user
  · obtain ⟨rfl, rfl⟩ := here
    simp only [and_self, if_true, true_and, Option.bind_some, HashMap.lookup_insert_eq]
    by_cases same : job = jobId
    · simp [same]
    · simp only [same, if_false]
      exact slotOf_getD store sc us job
  · have elsewhere : ¬ (sc = scope ∧ us = user ∧ job = jobId) := by
      rintro ⟨rfl, rfl, _⟩
      exact here ⟨rfl, rfl⟩
    simp [here, elsewhere]

theorem slotOf_reserveUserSlot (store : MemoryStore) (scope user jobId owner : String)
    (now : Nat) {sc us job : String} (other : ¬ (sc = scope ∧ us = user ∧ job = jobId)) :
    (store.reserveUserSlot scope user jobId owner now).2.slotOf sc us job =
      store.slotOf sc us job := by
  cases held : store.slotOf scope user jobId with
  | some entry => rw [reserveUserSlot_existing held]
  | none => rw [(reserveUserSlot_fresh held owner now).2.2, if_neg other]

theorem slotOf_reserveUserSlot_self (store : MemoryStore) (scope user jobId owner : String)
    (now : Nat) : ∃ entry,
    (store.reserveUserSlot scope user jobId owner now).2.slotOf scope user jobId = some entry ∧
      entry.seq = (store.reserveUserSlot scope user jobId owner now).1 := by
  cases held : store.slotOf scope user jobId with
  | some entry =>
      rw [reserveUserSlot_existing held]
      exact ⟨entry, held, rfl⟩
  | none =>
      obtain ⟨seq, _, slots⟩ := reserveUserSlot_fresh held owner now
      rw [slots, seq, if_pos ⟨rfl, rfl, rfl⟩]
      exact ⟨_, rfl, rfl⟩

theorem userSeq_le_reserveUserSlot (store : MemoryStore) (scope user jobId owner : String)
    (now : Nat) :
    store.userSeq ≤ (store.reserveUserSlot scope user jobId owner now).2.userSeq := by
  cases held : store.slotOf scope user jobId with
  | some entry => rw [reserveUserSlot_existing held]
  | none =>
      rw [(reserveUserSlot_fresh held owner now).2.1]
      omega

theorem slotOf_of_reserveUserSlot {store : MemoryStore} {scope user jobId owner : String}
    {now : Nat} {sc us job : String} {entry : UserLimitEntry}
    (found : (store.reserveUserSlot scope user jobId owner now).2.slotOf sc us job = some entry) :
    store.slotOf sc us job = some entry ∨ entry.jobId = job ∧
      entry.seq = (store.reserveUserSlot scope user jobId owner now).2.userSeq := by
  cases held : store.slotOf scope user jobId with
  | some present =>
      rw [reserveUserSlot_existing held] at found
      exact Or.inl found
  | none =>
      obtain ⟨_, seq, slots⟩ := reserveUserSlot_fresh held owner now
      rw [slots] at found
      split at found
      next here =>
        simp only [Option.some.injEq] at found
        subst found
        exact Or.inr ⟨here.2.2.symm, seq.symm⟩
      next => exact Or.inl found

theorem SlotsWf.reserveUserSlot {store : MemoryStore} (wf : store.SlotsWf)
    (scope user jobId owner : String) (now : Nat) :
    (store.reserveUserSlot scope user jobId owner now).2.SlotsWf := by
  intro sc us job entry found
  rcases slotOf_of_reserveUserSlot found with before | ⟨named, _⟩
  · exact wf sc us job entry before
  · exact named

theorem slotOf_releaseUserSlot (store : MemoryStore) (scope user jobId sc us job : String) :
    (store.releaseUserSlot scope user jobId).slotOf sc us job =
      if sc = scope ∧ us = user ∧ job = jobId then none else store.slotOf sc us job := by
  unfold releaseUserSlot
  cases found : store.userSlots.lookup (scope, user) with
  | none =>
      simp only
      split
      next same =>
        obtain ⟨rfl, rfl, rfl⟩ := same
        simp [slotOf, found]
      next => rfl
  | some entries =>
      simp only
      have erased : ((AList.erase jobId entries).lookup job) =
          if job = jobId then none else entries.lookup job := HashMap.lookup_erase_eq _ _ _
      split
      next empty =>
        have nothing : (AList.erase jobId entries).lookup job = none := by
          rw [List.isEmpty_iff] at empty
          rw [AList.lookup_eq_none, AList.mem_keys, AList.keys, empty]
          simp [List.keys]
        unfold slotOf
        simp only [HashMap.lookup_erase_eq, Prod.mk.injEq]
        by_cases here : sc = scope ∧ us = user
        · obtain ⟨rfl, rfl⟩ := here
          rw [nothing] at erased
          by_cases same : job = jobId
          · simp [same]
          · simp only [same, if_false] at erased
            simp [same, found, ← erased]
        · have elsewhere : ¬ (sc = scope ∧ us = user ∧ job = jobId) := by
            rintro ⟨rfl, rfl, _⟩
            exact here ⟨rfl, rfl⟩
          simp [here, elsewhere]
      next =>
        unfold slotOf
        simp only [HashMap.lookup_insert_eq, Prod.mk.injEq]
        by_cases here : sc = scope ∧ us = user
        · obtain ⟨rfl, rfl⟩ := here
          simp [found, erased]
        · have elsewhere : ¬ (sc = scope ∧ us = user ∧ job = jobId) := by
            rintro ⟨rfl, rfl, _⟩
            exact here ⟨rfl, rfl⟩
          simp [here, elsewhere]

theorem userSeq_releaseUserSlot (store : MemoryStore) (scope user jobId : String) :
    (store.releaseUserSlot scope user jobId).userSeq = store.userSeq := by
  unfold releaseUserSlot
  split
  · rfl
  · dsimp only
    split <;> rfl

theorem SlotsWf.releaseUserSlot {store : MemoryStore} (wf : store.SlotsWf)
    (scope user jobId : String) : (store.releaseUserSlot scope user jobId).SlotsWf := by
  intro sc us job entry found
  rw [slotOf_releaseUserSlot] at found
  split at found
  · simp at found
  · exact wf sc us job entry found

theorem mem_listUserSlots (store : MemoryStore) (scope user : String) (entry : UserLimitEntry) :
    entry ∈ store.listUserSlots scope user ↔
      ∃ jobId, store.slotOf scope user jobId = some entry := by
  unfold listUserSlots slotOf
  cases store.userSlots.lookup (scope, user) with
  | none => simp
  | some entries =>
      simp only [List.mem_map, Option.bind_some]
      constructor
      · rintro ⟨⟨jobId, found⟩, member, rfl⟩
        exact ⟨jobId, AList.mem_lookup_iff.mpr member⟩
      · rintro ⟨jobId, held⟩
        exact ⟨⟨jobId, entry⟩, AList.mem_lookup_iff.mp held, rfl⟩

theorem nodup_listUserSlots {store : MemoryStore} (wf : store.SlotsWf) (scope user : String) :
    ((store.listUserSlots scope user).map (·.jobId)).Nodup := by
  have slots := wf scope user
  unfold slotOf at slots
  unfold listUserSlots
  cases found : store.userSlots.lookup (scope, user) with
  | none => simp
  | some entries =>
      have named : ∀ item ∈ entries.entries, item.2.jobId = item.1 := by
        rintro ⟨jobId, entry⟩ member
        refine slots jobId entry ?_
        rw [found]
        exact AList.mem_lookup_iff.mpr member
      have keys : (entries.entries.map (·.2)).map (·.jobId) = entries.keys := by
        rw [AList.keys, List.keys, List.map_map]
        exact List.map_congr_left named
      simp only [keys]
      exact entries.keys_nodup

end BitsBroker.MemoryStore
