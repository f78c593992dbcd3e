import BitsBroker.Db.Memory

/-!
Lease lookups. `Duration::div_f64` rounds in floating point, so the division by ten
is a parameter `divF64`; nothing below depends on how it rounds.
-/

namespace BitsBroker

inductive LeaseLookup where
  | active (lease : BrokerLeaseRecord)
  | missingOrExpired
  | unknown
deriving Repr, DecidableEq

def leaseGraceDuration (divF64 : Nat → Nat) (lease : BrokerLeaseRecord) : Nat :=
  min (divF64 (lease.leaseUntil - lease.updatedAt)) 1000000000

def leaseIsActiveWithGrace (divF64 : Nat → Nat) (lease : BrokerLeaseRecord) (now : Nat) : Bool :=
  decide (now < lease.leaseUntil + leaseGraceDuration divF64 lease)

def lookupOwnerLease (divF64 : Nat → Nat) (store : MemoryStore) (ownerBrokerId : String)
    (now : Nat) : LeaseLookup :=
  match store.getBrokerLease ownerBrokerId with
  | some lease =>
      if leaseIsActiveWithGrace divF64 lease now then .active lease else .missingOrExpired
  | none => .missingOrExpired

namespace MemoryStore

theorem recordOf_of_key {store : MemoryStore} {jobId key : String}
    (ok : memoryJobKey jobId = .ok key) : store.recordOf jobId = store.jobs.lookup key := by
  simp [recordOf, ok]

theorem recordOf_insert {store : MemoryStore} {keyed key : String}
    (ok : memoryJobKey keyed = .ok key) (record : PersistentJobRecord) (jobId : String) :
    ({ store with jobs := AList.insert key record store.jobs } : MemoryStore).recordOf jobId =
      if jobId = keyed then some record else store.recordOf jobId := by
  unfold recordOf
  cases other : memoryJobKey jobId with
  | error e =>
      have different : jobId ≠ keyed := by
        intro same
        subst same
        simp [ok] at other
      simp [different]
  | ok otherKey =>
      simp only [HashMap.lookup_insert_eq]
      by_cases same : jobId = keyed
      · subst same
        rw [ok] at other
        simp only [Except.ok.injEq] at other
        simp [other]
      · have different : otherKey ≠ key := by
          intro equal
          subst equal
          exact same (memoryJobKey_injective other ok)
        simp [same, different]

theorem recordOf_upsertJob {store next : MemoryStore} {record : PersistentJobRecord}
    (ok : store.upsertJob record = .ok next) (jobId : String) :
    next.recordOf jobId = if jobId = record.jobId then some record else store.recordOf jobId := by
  unfold upsertJob at ok
  split at ok
  · simp at ok
  next key found =>
    simp only [Except.ok.injEq] at ok
    subst ok
    exact recordOf_insert found record jobId

theorem recordOf_deleteJob {store next : MemoryStore} {deleted : String}
    (ok : store.deleteJob deleted = .ok next) (jobId : String) :
    next.recordOf jobId = if jobId = deleted then none else store.recordOf jobId := by
  unfold deleteJob at ok
  split at ok
  · simp at ok
  next key found =>
    simp only [Except.ok.injEq] at ok
    subst ok
    unfold recordOf
    cases other : memoryJobKey jobId with
    | error e => simp
    | ok otherKey =>
        simp only [HashMap.lookup_erase_eq]
        by_cases same : jobId = deleted
        · subst same
          rw [found] at other
          simp only [Except.ok.injEq] at other
          simp [other]
        · have different : otherKey ≠ key := by
            intro equal
            subst equal
            exact same (memoryJobKey_injective other found)
          simp [same, different]

/-- What a claim can answer and what it can change: nothing, or the owner of the
claimed record from the expected broker to the claimant. -/
inductive ClaimEffect (store : MemoryStore) (jobId expected claimant : String) :
    ClaimResult → MemoryStore → Prop
  | notFound : store.recordOf jobId = none → ClaimEffect store jobId expected claimant .notFound store
  | alreadyMine {record} : store.recordOf jobId = some record → record.brokerId = claimant →
      ClaimEffect store jobId expected claimant (.claimed record) store
  | active {record} : store.recordOf jobId = some record → record.brokerId ≠ claimant →
      record.brokerId ≠ expected →
      ClaimEffect store jobId expected claimant (.active record.brokerId) store
  | transferred {record key} : store.recordOf jobId = some record → record.brokerId ≠ claimant →
      record.brokerId = expected → memoryJobKey jobId = .ok key →
      ClaimEffect store jobId expected claimant (.claimed { record with brokerId := claimant })
        { store with jobs := AList.insert key { record with brokerId := claimant } store.jobs }

theorem claimIfOwner_effect {store next : MemoryStore} {jobId expected claimant : String}
    {result : ClaimResult}
    (ok : store.claimIfOwner jobId expected claimant = .ok (result, next)) :
    ClaimEffect store jobId expected claimant result next := by
  unfold claimIfOwner at ok
  split at ok
  · simp at ok
  next key keyed =>
    split at ok
    next absent =>
      simp only [Except.ok.injEq, Prod.mk.injEq] at ok
      obtain ⟨rfl, rfl⟩ := ok
      exact .notFound (by rw [recordOf_of_key keyed]; exact absent)
    next record found =>
      have stored : store.recordOf jobId = some record := by
        rw [recordOf_of_key keyed]
        exact found
      split at ok
      next mine =>
        simp only [Except.ok.injEq, Prod.mk.injEq] at ok
        obtain ⟨rfl, rfl⟩ := ok
        exact .alreadyMine stored mine
      next notMine =>
        split at ok
        next other =>
          simp only [Except.ok.injEq, Prod.mk.injEq] at ok
          obtain ⟨rfl, rfl⟩ := ok
          exact .active stored notMine other
        next expectedOwner =>
          simp only [Except.ok.injEq, Prod.mk.injEq] at ok
          obtain ⟨rfl, rfl⟩ := ok
          exact .transferred stored notMine (by simpa using expectedOwner) keyed

theorem ClaimEffect.recordOf {store next : MemoryStore} {jobId expected claimant : String}
    {result : ClaimResult} (effect : ClaimEffect store jobId expected claimant result next)
    (query : String) :
    next.recordOf query = store.recordOf query ∨
      query = jobId ∧ ∃ record, store.recordOf jobId = some record ∧
        record.brokerId ≠ claimant ∧ record.brokerId = expected ∧
        next.recordOf jobId = some { record with brokerId := claimant } := by
  cases effect with
  | notFound _ | alreadyMine _ _ | active _ _ _ => exact Or.inl rfl
  | transferred stored notMine expectedOwner keyed =>
      by_cases same : query = jobId
      · refine Or.inr ⟨same, _, stored, notMine, expectedOwner, ?_⟩
        rw [recordOf_insert keyed]
        simp
      · refine Or.inl ?_
        rw [recordOf_insert keyed]
        simp [same]

theorem claimIfOwner_ok_of_record {store : MemoryStore} {jobId : String}
    {record : PersistentJobRecord} (stored : store.recordOf jobId = some record)
    (expected claimant : String) :
    ∃ result next, store.claimIfOwner jobId expected claimant = .ok (result, next) := by
  unfold recordOf at stored
  split at stored
  · simp at stored
  next key keyed =>
    unfold claimIfOwner
    simp only [keyed, stored]
    split
    · exact ⟨_, _, rfl⟩
    · split <;> exact ⟨_, _, rfl⟩

end MemoryStore

end BitsBroker
