import BitsBroker.Db.Nats
import BitsBroker.Db.UserSlots
import BitsBroker.Runtime.Recovery

/-!
The sweep that takes back the admission slots of dead brokers, in both stores. The sweep asks
whether the lease of the owner has run out. The recovery of jobs grants a lease some time more
before its owner counts as dead, so the two agree if and only if no slot belongs to a broker
within that time.
-/

namespace BitsBroker

/-- What the recovery of jobs says about an owner whose lease was looked up. -/
def leaseLookup (divF64 : Nat → Nat) (found : Option BrokerLeaseRecord) (now : Nat) : LeaseLookup :=
  match found with
  | some lease =>
      if leaseIsActiveWithGrace divF64 lease now then .active lease else .missingOrExpired
  | none => .missingOrExpired

theorem lookupOwnerLease_eq (divF64 : Nat → Nat) (store : MemoryStore) (owner : String)
    (now : Nat) : lookupOwnerLease divF64 store owner now =
      leaseLookup divF64 (store.getBrokerLease owner) now := rfl

/-- The lease has run out and still counts as active. -/
def BrokerLeaseRecord.InGrace (divF64 : Nat → Nat) (lease : BrokerLeaseRecord) (now : Nat) :
    Prop :=
  lease.leaseUntil ≤ now ∧ now < lease.leaseUntil + leaseGraceDuration divF64 lease

section Liveness

variable {divF64 : Nat → Nat} {now : Nat} {lease : Option BrokerLeaseRecord} {live : Bool}

theorem missing_of_not_live
    (alive : live = true ↔ ∃ record, lease = some record ∧ now < record.leaseUntil) :
    (live = !decide (leaseLookup divF64 lease now = .missingOrExpired)) ↔
      ∀ record, lease = some record → ¬record.InGrace divF64 now := by
  cases lease with
  | none =>
      have dead : live = false := by simpa using alive
      simp [leaseLookup, dead]
  | some record =>
      simp only [Option.some.injEq, exists_eq_left', forall_eq', BrokerLeaseRecord.InGrace] at alive ⊢
      simp only [leaseLookup, leaseIsActiveWithGrace, decide_eq_true_eq]
      by_cases active : now < record.leaseUntil + leaseGraceDuration divF64 record
      · rw [if_pos active, Bool.eq_iff_iff, alive]
        simp [active]
      · have expired : ¬now < record.leaseUntil := by omega
        rw [if_neg active, Bool.eq_iff_iff, alive]
        simp [active, expired]

theorem isSome_filter_some {A : Type} (keep : A → Bool) (a : A) :
    ((some a).filter keep).isSome = keep a := by
  cases kept : keep a with
  | true => simp [kept]
  | false => simp [kept]

theorem countP_not_add_countP {A : Type} (keep : A → Bool) (l : List A) :
    (l.countP fun a => !keep a) + l.countP keep = l.length := by
  have parts := List.length_eq_countP_add_countP keep (l := l)
  simp only [Bool.not_eq_true, Bool.decide_eq_false] at parts
  omega

theorem filter_eq_iff {A : Type} (left right : A → Bool) (l : List A) :
    l.filter left = l.filter right ↔ ∀ a ∈ l, left a = right a := by
  constructor
  · intro same a member
    rw [Bool.eq_iff_iff]
    have kept : a ∈ l.filter left ↔ a ∈ l.filter right := by rw [same]
    simpa [member] using kept
  · intro same
    exact List.filter_congr same

end Liveness

namespace MemoryStore

/-- The owners whose lease has not run out. -/
def live (store : MemoryStore) (now : Nat) (owner : String) : Bool :=
  store.brokers.entries.any fun broker =>
    decide (now < broker.2.leaseUntil) && decide (broker.2.brokerId = owner)

def heldSlots (store : MemoryStore) : List UserLimitEntry :=
  store.userSlots.entries.flatMap fun bucket => bucket.2.entries.map (·.2)

def liveEntries (live : String → Bool) (entries : HashMap String UserLimitEntry) :
    HashMap String UserLimitEntry :=
  HashMap.retain entries fun _ entry => if live entry.ownerBrokerId then some entry else none

/-- A bucket without entries is dropped. -/
def retainLive (live : String → Bool) (entries : HashMap String UserLimitEntry) :
    Option (HashMap String UserLimitEntry) :=
  if (liveEntries live entries).entries = [] then none else some (liveEntries live entries)

/-- The second section of the sweep, under the lock of the slots. -/
def retainUserSlots (store : MemoryStore) (live : String → Bool) : Nat × MemoryStore :=
  (store.heldSlots.countP fun entry => !live entry.ownerBrokerId,
    { store with userSlots := HashMap.retain store.userSlots fun _ entries =>
        retainLive live entries })

/-- A sweep at one instant, with nothing between its two sections. -/
def reclaimUserSlots (store : MemoryStore) (now : Nat) : Nat × MemoryStore :=
  store.retainUserSlots (store.live now)

theorem liveEntries_lookup (live : String → Bool) (entries : HashMap String UserLimitEntry)
    (jobId : String) : (liveEntries live entries).lookup jobId =
      (entries.lookup jobId).filter fun entry => live entry.ownerBrokerId := by
  rw [liveEntries, HashMap.lookup_retain]
  cases entries.lookup jobId with
  | none => rfl
  | some entry => rfl

theorem retainLive_lookup (live : String → Bool) (entries : HashMap String UserLimitEntry)
    (jobId : String) :
    (retainLive live entries).bind (·.lookup jobId) =
      (entries.lookup jobId).filter fun entry => live entry.ownerBrokerId := by
  rw [← liveEntries_lookup, retainLive]
  by_cases empty : (liveEntries live entries).entries = []
  · rw [if_pos empty, Option.bind_none]
    symm
    rw [AList.lookup_eq_none, AList.mem_keys, AList.keys, empty]
    simp [List.keys]
  · rw [if_neg empty, Option.bind_some]

theorem slotOf_retainUserSlots (store : MemoryStore) (live : String → Bool)
    (scope user jobId : String) : (store.retainUserSlots live).2.slotOf scope user jobId =
      (store.slotOf scope user jobId).filter fun entry => live entry.ownerBrokerId := by
  simp only [slotOf, retainUserSlots, HashMap.lookup_retain]
  cases store.userSlots.lookup (scope, user) with
  | none => rfl
  | some entries => exact retainLive_lookup live entries jobId

theorem slotOf_reclaimUserSlots (store : MemoryStore) (now : Nat) (scope user jobId : String) :
    (store.reclaimUserSlots now).2.slotOf scope user jobId =
      (store.slotOf scope user jobId).filter fun entry => store.live now entry.ownerBrokerId :=
  slotOf_retainUserSlots store (store.live now) scope user jobId

theorem liveEntries_slots (live : String → Bool) (entries : HashMap String UserLimitEntry) :
    (liveEntries live entries).entries.map (·.2) =
      (entries.entries.map (·.2)).filter fun entry => live entry.ownerBrokerId := by
  rw [liveEntries, HashMap.retain, List.map_filterMap, List.filter_map, ← List.filterMap_eq_filter,
    List.map_filterMap]
  apply List.filterMap_congr
  intro entry _
  by_cases kept : live entry.2.ownerBrokerId = true
  · simp [kept]
  · simp [kept, Option.guard]

/-- The slots that a bucket has left, none if it is dropped. -/
theorem retainLive_slots (live : String → Bool) (entries : HashMap String UserLimitEntry) :
    ((retainLive live entries).elim [] fun rest => rest.entries.map (·.2)) =
      (entries.entries.map (·.2)).filter fun entry => live entry.ownerBrokerId := by
  rw [← liveEntries_slots, retainLive]
  by_cases empty : (liveEntries live entries).entries = []
  · rw [if_pos empty, empty]
    rfl
  · rw [if_neg empty]
    rfl

theorem heldSlots_reclaimUserSlots (store : MemoryStore) (now : Nat) :
    (store.reclaimUserSlots now).2.heldSlots =
      store.heldSlots.filter fun entry => store.live now entry.ownerBrokerId := by
  simp only [heldSlots, reclaimUserSlots, retainUserSlots, HashMap.retain]
  induction store.userSlots.entries with
  | nil => rfl
  | cons bucket rest ih =>
      rw [List.flatMap_cons, List.filter_append, ← retainLive_slots (store.live now) bucket.2, ← ih]
      cases left : retainLive (store.live now) bucket.2 with
      | none => simp [left]
      | some kept => simp [left]

theorem reclaimUserSlots_no_empty {store : MemoryStore} {now : Nat} {key : String × String}
    {entries : HashMap String UserLimitEntry}
    (found : (store.reclaimUserSlots now).2.userSlots.lookup key = some entries) :
    entries.entries ≠ [] := by
  simp only [reclaimUserSlots, retainUserSlots, HashMap.lookup_retain, Option.bind_eq_some_iff]
    at found
  obtain ⟨before, _, kept⟩ := found
  unfold retainLive at kept
  split at kept
  · cases kept
  next nonempty =>
    cases kept
    exact nonempty

theorem mem_heldSlots {store : MemoryStore} {entry : UserLimitEntry} :
    entry ∈ store.heldSlots ↔ ∃ scope user jobId, store.slotOf scope user jobId = some entry := by
  simp only [heldSlots, List.mem_flatMap, List.mem_map, slotOf, Option.bind_eq_some_iff]
  constructor
  · rintro ⟨⟨⟨scope, user⟩, entries⟩, bucket, ⟨jobId, held⟩, inside, rfl⟩
    exact ⟨scope, user, jobId, entries, AList.mem_lookup_iff.mpr bucket,
      AList.mem_lookup_iff.mpr inside⟩
  · rintro ⟨scope, user, jobId, entries, bucket, inside⟩
    exact ⟨⟨(scope, user), entries⟩, AList.mem_lookup_iff.mp bucket, ⟨jobId, entry⟩,
      AList.mem_lookup_iff.mp inside, rfl⟩

/-- The leases are stored under the identifiers of their brokers. -/
def LeasesNamed (store : MemoryStore) : Prop :=
  ∀ id lease, store.getBrokerLease id = some lease → lease.brokerId = id

theorem leasesNamed_new : MemoryStore.new.LeasesNamed := by
  intro id lease found
  cases found

theorem LeasesNamed.upsertBrokerLease {store : MemoryStore} (named : store.LeasesNamed)
    (brokerId url : String) (ttl now : Nat) :
    (store.upsertBrokerLease brokerId url ttl now).LeasesNamed := by
  intro id lease found
  rw [getBrokerLease, MemoryStore.upsertBrokerLease, HashMap.lookup_insert_eq] at found
  split at found
  next same =>
    cases found
    exact same.symm
  next => exact named id lease found

theorem LeasesNamed.deleteBrokerLease {store : MemoryStore} (named : store.LeasesNamed)
    (brokerId : String) : (store.deleteBrokerLease brokerId).LeasesNamed := by
  intro id lease found
  rw [getBrokerLease, MemoryStore.deleteBrokerLease, HashMap.lookup_erase_eq] at found
  split at found
  · cases found
  · exact named id lease found

theorem LeasesNamed.live_iff {store : MemoryStore} (named : store.LeasesNamed) (now : Nat)
    (owner : String) : store.live now owner = true ↔
      ∃ lease, store.getBrokerLease owner = some lease ∧ now < lease.leaseUntil := by
  simp only [live, List.any_eq_true, Bool.and_eq_true, decide_eq_true_eq]
  constructor
  · rintro ⟨⟨id, lease⟩, member, unexpired, rfl⟩
    have found : store.getBrokerLease id = some lease := AList.mem_lookup_iff.mpr member
    rw [← named id lease found] at found
    exact ⟨lease, found, unexpired⟩
  · rintro ⟨lease, found, unexpired⟩
    exact ⟨⟨owner, lease⟩, AList.mem_lookup_iff.mp found, unexpired, named owner lease found⟩

/-- The sweep removes the slots of the owners that the recovery of jobs takes for dead, returns
their number and leaves no empty bucket. -/
structure ReclaimAgrees (store : MemoryStore) (divF64 : Nat → Nat) (now : Nat) : Prop where
  slots : ∀ scope user jobId, (store.reclaimUserSlots now).2.slotOf scope user jobId =
    (store.slotOf scope user jobId).filter fun entry =>
      !decide (lookupOwnerLease divF64 store entry.ownerBrokerId now = .missingOrExpired)
  removed : (store.reclaimUserSlots now).1 + (store.reclaimUserSlots now).2.heldSlots.length =
    store.heldSlots.length
  buckets : ∀ key entries, (store.reclaimUserSlots now).2.userSlots.lookup key = some entries →
    entries.entries ≠ []

theorem reclaimUserSlots_removed (store : MemoryStore) (now : Nat) :
    (store.reclaimUserSlots now).1 + (store.reclaimUserSlots now).2.heldSlots.length =
      store.heldSlots.length := by
  rw [heldSlots_reclaimUserSlots, ← List.countP_eq_length_filter]
  exact countP_not_add_countP _ _

theorem LeasesNamed.agrees_iff {store : MemoryStore} (named : store.LeasesNamed)
    (divF64 : Nat → Nat) (now : Nat) :
    store.ReclaimAgrees divF64 now ↔ ∀ entry ∈ store.heldSlots, ∀ lease,
      store.getBrokerLease entry.ownerBrokerId = some lease → ¬lease.InGrace divF64 now := by
  constructor
  · intro agrees entry held
    obtain ⟨scope, user, jobId, found⟩ := mem_heldSlots.mp held
    have after := agrees.slots scope user jobId
    rw [slotOf_reclaimUserSlots, found] at after
    apply (missing_of_not_live (named.live_iff now entry.ownerBrokerId)).mp
    have same := congrArg Option.isSome after
    rwa [isSome_filter_some, isSome_filter_some, lookupOwnerLease_eq] at same
  · intro outside
    refine ⟨?_, reclaimUserSlots_removed store now, fun _ _ => reclaimUserSlots_no_empty⟩
    intro scope user jobId
    rw [slotOf_reclaimUserSlots]
    cases found : store.slotOf scope user jobId with
    | none => rfl
    | some entry =>
        have held : entry ∈ store.heldSlots := mem_heldSlots.mpr ⟨scope, user, jobId, found⟩
        have same := (missing_of_not_live (named.live_iff now entry.ownerBrokerId)).mpr
          (outside entry held)
        rw [Option.filter_some, Option.filter_some, same, lookupOwnerLease_eq]

end MemoryStore

/-- A store whose leases are stored under the identifiers of their brokers. -/
structure LeasedStore where
  store : MemoryStore
  named : store.LeasesNamed

namespace LeasedStore

def new : LeasedStore := ⟨.new, MemoryStore.leasesNamed_new⟩

def upsertBrokerLease (leased : LeasedStore) (brokerId url : String) (ttl now : Nat) :
    LeasedStore :=
  ⟨leased.store.upsertBrokerLease brokerId url ttl now,
    leased.named.upsertBrokerLease brokerId url ttl now⟩

def deleteBrokerLease (leased : LeasedStore) (brokerId : String) : LeasedStore :=
  ⟨leased.store.deleteBrokerLease brokerId, leased.named.deleteBrokerLease brokerId⟩

end LeasedStore

namespace NatsStore

def Leases.live (leases : Leases) (now : Nat) (owner : String) : Bool :=
  (scanCurrentEntries leases.entries allKeys).any fun current =>
    match current.operation with
    | .put record => decide (now < record.leaseUntil) && decide (record.brokerId = owner)
    | .delete | .purge => false

theorem Leases.getBrokerLease_iff (leases : Leases) (owner : String) (lease : BrokerLeaseRecord) :
    leases.getBrokerLease owner = some lease ↔ lease.brokerId = owner ∧
      ∃ current ∈ leases.entries, current.operation = .put lease := by
  rw [Leases.getBrokerLease, Bucket.entry]
  constructor
  · intro found
    split at found
    next key revision record first =>
      cases found
      have member := List.mem_of_find?_eq_some first
      have named := leases.keyed _ member lease rfl
      have same := List.find?_some first
      simp only [decide_eq_true_eq] at same
      refine ⟨brokerLeaseKey_inj (named.symm.trans same), _, member, rfl⟩
    next => cases found
  · rintro ⟨rfl, current, member, holds⟩
    have named : current.key = brokerLeaseKey lease.brokerId := leases.keyed _ member lease holds
    cases first : leases.entries.find? fun other => other.key = brokerLeaseKey lease.brokerId with
    | none =>
        have absent := List.find?_eq_none.mp first current member
        simp [named] at absent
    | some other =>
        have same := List.find?_some first
        simp only [decide_eq_true_eq] at same
        have one := List.inj_on_of_nodup_map leases.distinct (List.mem_of_find?_eq_some first)
          member (same.trans named.symm)
        subst one
        obtain ⟨key, revision, operation⟩ := other
        simp only at holds
        subst holds
        rfl

theorem Leases.live_iff (leases : Leases) (now : Nat) (owner : String) :
    leases.live now owner = true ↔
      ∃ lease, leases.getBrokerLease owner = some lease ∧ now < lease.leaseUntil := by
  simp only [Leases.live, scanCurrentEntries_allKeys, List.any_eq_true]
  constructor
  · rintro ⟨current, member, passes⟩
    split at passes
    next record holds =>
      simp only [Bool.and_eq_true, decide_eq_true_eq] at passes
      exact ⟨record, (leases.getBrokerLease_iff owner record).mpr
        ⟨passes.2, current, member, holds⟩, passes.1⟩
    next => cases passes
    next => cases passes
  · rintro ⟨lease, found, unexpired⟩
    obtain ⟨named, current, member, holds⟩ := (leases.getBrokerLease_iff owner lease).mp found
    exact ⟨current, member, by simp [holds, unexpired, named]⟩

namespace UserLimits

/-- The sweep takes back this entry. -/
def dead (live : String → Bool) (current : KvEntry UserLimitEntry) : Bool :=
  startsWith current.key "ul." &&
    match current.operation with
    | .put value => !live value.ownerBrokerId
    | .delete | .purge => false

def reclaimEntry (live : String → Bool) (swept : Nat × UserLimits)
    (current : KvEntry UserLimitEntry) : Nat × UserLimits :=
  if dead live current then (swept.1 + 1, swept.2.purgeExpiring current.key) else swept

def reclaimUserSlotsNats (bucket : UserLimits) (leases : Leases) (now : Nat) : Nat × UserLimits :=
  (scanCurrentEntries bucket.entries allKeys).foldl (reclaimEntry (leases.live now)) (0, bucket)

def slots (bucket : UserLimits) : List UserLimitEntry := bucket.entries.filterMap slot

/-- The slots of a bucket without the keys that a sweep takes back. -/
def slotsBut (bucket : UserLimits) (live : String → Bool) (swept : List (KvEntry UserLimitEntry)) :
    List UserLimitEntry :=
  bucket.entries.filterMap fun current =>
    if swept.any fun gone => dead live gone && decide (gone.key = current.key) then none
    else slot current

theorem slotsBut_purgeExpiring (bucket : UserLimits) (live : String → Bool)
    (swept : List (KvEntry UserLimitEntry)) {gone : KvEntry UserLimitEntry}
    (removes : dead live gone = true) :
    slotsBut (bucket.purgeExpiring gone.key) live swept = slotsBut bucket live (gone :: swept) := by
  simp only [slotsBut, Bucket.purgeExpiring, Bucket.write, List.filterMap_append,
    List.filterMap_filter]
  have purged : slot ⟨gone.key, bucket.lastRevision + 1, .purge⟩ = none := rfl
  rw [List.filterMap_cons_none (by simp [purged]), List.filterMap_nil, List.append_nil]
  apply List.filterMap_congr
  intro current _
  by_cases same : current.key = gone.key
  · simp [same, removes]
  · have other : ¬gone.key = current.key := fun equal => same equal.symm
    simp [same, other]

theorem slotsBut_spared (bucket : UserLimits) (live : String → Bool)
    (swept : List (KvEntry UserLimitEntry)) {kept : KvEntry UserLimitEntry}
    (spared : dead live kept = false) :
    slotsBut bucket live (kept :: swept) = slotsBut bucket live swept := by
  simp [slotsBut, spared]

theorem foldl_reclaimEntry (live : String → Bool) (swept : List (KvEntry UserLimitEntry)) :
    ∀ (count : Nat) (bucket : UserLimits),
      (swept.foldl (reclaimEntry live) (count, bucket)).1 = count + swept.countP (dead live) ∧
      slots (swept.foldl (reclaimEntry live) (count, bucket)).2 = slotsBut bucket live swept := by
  induction swept with
  | nil =>
      intro count bucket
      exact ⟨rfl, by simp [slots, slotsBut]⟩
  | cons current rest ih =>
      intro count bucket
      rw [List.foldl_cons]
      cases removes : dead live current with
      | true =>
          have step : reclaimEntry live (count, bucket) current =
              (count + 1, bucket.purgeExpiring current.key) := by simp [reclaimEntry, removes]
          obtain ⟨removed, left⟩ := ih (count + 1) (bucket.purgeExpiring current.key)
          rw [step, left, slotsBut_purgeExpiring bucket live rest removes, removed,
            List.countP_cons_of_pos removes]
          exact ⟨by omega, rfl⟩
      | false =>
          have step : reclaimEntry live (count, bucket) current = (count, bucket) := by
            simp [reclaimEntry, removes]
          obtain ⟨removed, left⟩ := ih count bucket
          rw [step, left, slotsBut_spared bucket live rest removes, removed,
            List.countP_cons_of_neg (by simp [removes])]
          exact ⟨rfl, rfl⟩

theorem dead_put (bucket : UserLimits) (live : String → Bool) {current : KvEntry UserLimitEntry}
    (member : current ∈ bucket.entries) {value : UserLimitEntry}
    (holds : current.operation = .put value) : dead live current = !live value.ownerBrokerId := by
  have start : startsWith current.key "ul." = true := by
    rw [bucket.keyed current member value holds, slotKeyOf, startsWith, toList_userSlotKey,
      toList_userSlotPrefix]
    rfl
  rw [dead, start, holds, Bool.true_and]

theorem slotsBut_entries (bucket : UserLimits) (live : String → Bool) :
    slotsBut bucket live bucket.entries =
      (slots bucket).filter fun held => live held.ownerBrokerId := by
  rw [slotsBut, slots, List.filter_filterMap]
  apply List.filterMap_congr
  intro current member
  have only : (bucket.entries.any fun gone => dead live gone && decide (gone.key = current.key)) =
      dead live current := by
    rw [Bool.eq_iff_iff]
    simp only [List.any_eq_true, Bool.and_eq_true, decide_eq_true_eq]
    constructor
    · rintro ⟨gone, inside, removes, same⟩
      rwa [← List.inj_on_of_nodup_map bucket.distinct inside member same]
    · intro removes
      exact ⟨current, member, removes, rfl⟩
  rw [only]
  cases holds : current.operation with
  | delete => simp [slot, holds]
  | purge => simp [slot, holds]
  | put value =>
      rw [dead_put bucket live member holds]
      cases kept : live value.ownerBrokerId with
      | true => simp [slot, holds, kept, Option.filter]
      | false => simp [slot, holds, kept, Option.filter]

theorem slots_reclaimUserSlotsNats (bucket : UserLimits) (leases : Leases) (now : Nat) :
    slots (reclaimUserSlotsNats bucket leases now).2 =
      (slots bucket).filter fun held => leases.live now held.ownerBrokerId := by
  rw [reclaimUserSlotsNats, scanCurrentEntries_allKeys, (foldl_reclaimEntry _ _ _ _).2,
    slotsBut_entries]

theorem countP_dead (live : String → Bool) {bucket : UserLimits} :
    ∀ {entries : List (KvEntry UserLimitEntry)}, (∀ current ∈ entries, current ∈ bucket.entries) →
    entries.countP (dead live) =
      (entries.filterMap slot).countP fun held => !live held.ownerBrokerId := by
  intro entries
  induction entries with
  | nil =>
      intro _
      rfl
  | cons current rest ih =>
      intro inside
      have shorter := ih fun other member => inside other (List.mem_cons_of_mem _ member)
      cases holds : current.operation with
      | delete => simp [dead, slot, holds, shorter]
      | purge => simp [dead, slot, holds, shorter]
      | put value =>
          have removes := dead_put bucket live (inside current List.mem_cons_self) holds
          simp [List.countP_cons, slot, holds, shorter, removes]

theorem reclaimUserSlotsNats_removed (bucket : UserLimits) (leases : Leases) (now : Nat) :
    (reclaimUserSlotsNats bucket leases now).1 +
      (slots (reclaimUserSlotsNats bucket leases now).2).length = (slots bucket).length := by
  have removed : (reclaimUserSlotsNats bucket leases now).1 =
      (slots bucket).countP fun held => !leases.live now held.ownerBrokerId := by
    rw [reclaimUserSlotsNats, scanCurrentEntries_allKeys, (foldl_reclaimEntry _ _ _ _).1,
      Nat.zero_add, slots]
    exact countP_dead _ fun _ member => member
  rw [slots_reclaimUserSlotsNats, removed, ← List.countP_eq_length_filter]
  exact countP_not_add_countP _ _

/-- The same agreement for the slots in the NATS store, which has no buckets for its users. -/
structure ReclaimAgrees (bucket : UserLimits) (leases : Leases) (divF64 : Nat → Nat) (now : Nat) :
    Prop where
  slots : slots (reclaimUserSlotsNats bucket leases now).2 = (slots bucket).filter fun held =>
    !decide (leaseLookup divF64 (leases.getBrokerLease held.ownerBrokerId) now = .missingOrExpired)
  removed : (reclaimUserSlotsNats bucket leases now).1 +
    (UserLimits.slots (reclaimUserSlotsNats bucket leases now).2).length =
      (UserLimits.slots bucket).length

theorem agrees_iff (bucket : UserLimits) (leases : Leases) (divF64 : Nat → Nat) (now : Nat) :
    ReclaimAgrees bucket leases divF64 now ↔ ∀ held ∈ slots bucket, ∀ lease,
      leases.getBrokerLease held.ownerBrokerId = some lease → ¬lease.InGrace divF64 now := by
  constructor
  · intro agrees held member
    have same := agrees.slots
    rw [slots_reclaimUserSlotsNats, filter_eq_iff] at same
    exact (missing_of_not_live (leases.live_iff now held.ownerBrokerId)).mp (same held member)
  · intro outside
    refine ⟨?_, reclaimUserSlotsNats_removed bucket leases now⟩
    rw [slots_reclaimUserSlotsNats, filter_eq_iff]
    intro held member
    exact (missing_of_not_live (leases.live_iff now held.ownerBrokerId)).mpr (outside held member)

end UserLimits

end NatsStore

/-- In both stores the sweep and the recovery of jobs agree if and only if no slot belongs to a
broker whose lease has run out and still counts as active. -/
theorem reclaim_agrees_iff (divF64 : Nat → Nat) (now : Nat) :
    (∀ leased : LeasedStore, leased.store.ReclaimAgrees divF64 now ↔
      ∀ entry ∈ leased.store.heldSlots, ∀ lease,
        leased.store.getBrokerLease entry.ownerBrokerId = some lease →
          ¬lease.InGrace divF64 now) ∧
    ∀ (bucket : NatsStore.UserLimits) (leases : NatsStore.Leases),
      NatsStore.UserLimits.ReclaimAgrees bucket leases divF64 now ↔
        ∀ held ∈ NatsStore.UserLimits.slots bucket, ∀ lease,
          leases.getBrokerLease held.ownerBrokerId = some lease → ¬lease.InGrace divF64 now := by
  constructor
  · intro leased
    exact leased.named.agrees_iff divF64 now
  · intro bucket leases
    exact NatsStore.UserLimits.agrees_iff bucket leases divF64 now

/-- A broker has a lease of half a second and holds one slot. -/
def sweptEarly : MemoryStore :=
  ((MemoryStore.new.upsertBrokerLease "broker-a" "http://a:8080" 500000000 0).reserveUserSlot
    "pool" "alice" "job" "broker-a" 0).2

/-- Twenty milliseconds after the lease has run out the slot is taken back, although no other
broker may take the job over. -/
theorem sweptEarly_disagrees : ¬sweptEarly.ReclaimAgrees (· / 10) 520000000 := by
  intro agrees
  have slot := agrees.slots "pool" "alice" "job"
  revert slot
  decide

end BitsBroker
