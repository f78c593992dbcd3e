import BitsBroker.Dispatcher.Isolation
import BitsBroker.Dispatcher.LocalCounts

/-!
Where isolation ends. An admission leaves a local count behind when there is no store, and an
entry in the store otherwise, also when its call is dropped before it is decided. Let as many
admissions as their ceiling follow under the same scope and key: the last one is rejected, and
without the one before them it is not.
-/

namespace BitsBroker

open Transition Counting

variable {T : Type} [DecidableEq T]

theorem MemoryStore.listUserSlots_reserve {store : MemoryStore} {scope user jobId : String}
    (absent : store.slotOf scope user jobId = none) (owner : String) (now : Nat) :
    (store.reserveUserSlot scope user jobId owner now).2.listUserSlots scope user =
      ⟨scope, user, jobId, owner, store.userSeq + 1, now⟩ :: store.listUserSlots scope user := by
  rw [← slotOf_getD] at absent
  have outside := AList.lookup_eq_none.mp absent
  simp only [reserveUserSlot, absent, listUserSlots, HashMap.lookup_insert_eq, if_true,
    AList.entries_insert_of_notMem outside, List.map_cons]
  cases store.userSlots.lookup (scope, user) with
  | none => rfl
  | some entries => rfl

/-- An admission up to its reservation. -/
def reservesSlot (name : T) (call : Admit) : List (HistoryAction T) :=
  .submit name call.limiter call.user call.jobId call.max :: .event name .step ::
    if strict call.max then [] else [.event name .step]

/-- The history after the admission has made its reservation. -/
def History.entered (limiters : Nat → UserLimiter) (s : History T) (name : T) (call : Admit) :
    History T where
  limits := { s.limits with
    store := (call.reservation limiters s.limits).2
    counts := Function.update s.limits.counts call.limiter
      (incrLocal (s.limits.counts call.limiter) call.user)
    calls := s.limits.calls ++ [{ call with
      seq := some (call.reservation limiters s.limits).1
      pc := if strict call.max then .list else .count }] }
  names := s.names ++ [name]
  owed := s.owed
  decided := s.decided

section Entered

variable {limiters : Nat → UserLimiter} {s : History T} {name : T} {call : Admit}
  {allowed : History T → HistoryAction T → Prop}

theorem idxOf?_snoc {names : List T} (fresh : name ∉ names) :
    (names ++ [name]).idxOf? name = some names.length := by
  rw [List.idxOf?, List.findIdx?_append, List.findIdx?_singleton]
  have outside : names.findIdx? (· == name) = none := List.idxOf?_eq_none_iff.mpr fresh
  rw [outside]
  simp

theorem event_step {shared : Bool} {event : AdmitEvent} {effect : Effect} {i : Nat}
    (index : s.names.idxOf? name = some i) (present : s.limits.calls[i]? = some call)
    (happens : effectOf shared limiters s.limits call event = some effect) :
    historyStep shared limiters s (.event name event) =
      some (s.acted limiters name i call effect) :=
  historyStep_iff.mpr (.acted index present happens rfl)

theorem entered_path (lengths : s.names.length = s.limits.calls.length) (fresh : name ∉ s.names)
    (begun : call.pc = .begun) (unreserved : call.seq = none) (positive : 0 < call.max)
    (room : strict call.max = true ∨ countOf (s.limits.counts call.limiter) call.user < call.max)
    (submits : allowed s (.submit name call.limiter call.user call.jobId call.max))
    (events : ∀ h event, allowed h (.event name event)) :
    Path (historyStep true limiters) allowed s (reservesSlot name call)
      (s.entered limiters name call) := by
  obtain ⟨limiter, key, jobId, max, seq, pc⟩ := call
  obtain rfl : pc = .begun := begun
  obtain rfl : seq = none := unreserved
  have submitted : historyStep true limiters s (.submit name limiter key jobId max) =
      some (s.submitted name ⟨limiter, key, jobId, max, none, .begun⟩) :=
    historyStep_iff.mpr (.submitted fresh rfl)
  have index : (s.submitted name ⟨limiter, key, jobId, max, none, .begun⟩).names.idxOf? name =
      some s.names.length := idxOf?_snoc fresh
  have present : (s.submitted name ⟨limiter, key, jobId, max, none, .begun⟩).limits.calls[
      s.names.length]? = some ⟨limiter, key, jobId, max, none, .begun⟩ := by
    simp [History.submitted, lengths]
  refine Path.cons submits submitted ?_
  cases small : strict max with
  | true =>
      have happens : effectOf true limiters
          (s.submitted name ⟨limiter, key, jobId, max, none, .begun⟩).limits
          ⟨limiter, key, jobId, max, none, .begun⟩ .step =
          some ⟨.list, .take, none, true, false⟩ := by
        simp [effectOf, effectShared, small, Nat.ne_of_gt positive]
      have stepped := event_step index present happens
      have eq : (s.submitted name ⟨limiter, key, jobId, max, none, .begun⟩).acted limiters name
          s.names.length ⟨limiter, key, jobId, max, none, .begun⟩
          ⟨.list, .take, none, true, false⟩ =
          s.entered limiters name ⟨limiter, key, jobId, max, none, .begun⟩ := by
        simp [History.acted, History.entered, History.submitted, LimiterState.perform, small,
          Admit.later, CountChange.apply, decisionOf, lengths, Admit.reservation]
      simp only [if_true]
      exact Path.cons (events _ _) (eq ▸ stepped) .nil
  | false =>
      have below : ¬ max ≤ countOf (s.limits.counts limiter) key := by simpa [small] using room
      have happens : effectOf true limiters
          (s.submitted name ⟨limiter, key, jobId, max, none, .begun⟩).limits
          ⟨limiter, key, jobId, max, none, .begun⟩ .step =
          some ⟨.reserving, .take, none, false, false⟩ := by
        simp [effectOf, effectShared, small, Nat.ne_of_gt positive, History.submitted, below]
      have stepped := event_step index present happens
      generalize started : (s.submitted name
        ⟨limiter, key, jobId, max, none, .begun⟩).acted limiters name s.names.length
        ⟨limiter, key, jobId, max, none, .begun⟩
        ⟨.reserving, .take, none, false, false⟩ = middle at stepped
      have indexAgain : middle.names.idxOf? name = some s.names.length := started ▸ index
      have there : middle.limits.calls[s.names.length]? =
          some ⟨limiter, key, jobId, max, none, .reserving⟩ :=
        started ▸ List.getElem?_set_self (List.getElem?_eq_some_iff.mp present).1
      have happensAgain : effectOf true limiters middle.limits
          ⟨limiter, key, jobId, max, none, .reserving⟩ .step =
          some ⟨.count, .keep, none, true, false⟩ := rfl
      have reserved := event_step indexAgain there happensAgain
      have eq : middle.acted limiters name s.names.length
          ⟨limiter, key, jobId, max, none, .reserving⟩ ⟨.count, .keep, none, true, false⟩ =
          s.entered limiters name ⟨limiter, key, jobId, max, none, .begun⟩ := by
        rw [← started]
        simp [History.acted, History.entered, History.submitted, LimiterState.perform, small,
          Admit.later, CountChange.apply, decisionOf, lengths, Admit.reservation]
      simp only [Bool.false_eq_true, if_false]
      exact Path.cons (events _ _) stepped (Path.cons (events _ _) (eq ▸ reserved) .nil)

end Entered

/-- The events with which an admission is decided after its reservation. -/
def decides (name : T) (max : Nat) : List (HistoryAction T) :=
  .event name .step :: if strict max then [.event name .step] else []

def jobOf (k : Nat) : String := String.ofList (List.replicate k 'j')

theorem jobOf_inj {k m : Nat} (same : jobOf k = jobOf m) : k = m := by
  have chars := congrArg (fun text : String => text.toList.length) same
  simpa [jobOf] using chars

theorem jobOf_ne (k : Nat) : jobOf k ≠ "own" := by
  intro same
  have chars := congrArg String.toList same
  simp only [jobOf, String.toList_ofList] at chars
  have member : 'o' ∈ List.replicate k 'j' := by
    rw [chars]
    decide
  have other := List.eq_of_mem_replicate member
  revert other
  decide

/-- The admission number `k` of a row of admissions under one key. -/
def inRow (limiter : Nat) (key : String) (max k : Nat) : Admit :=
  ⟨limiter, key, jobOf k, max, none, .begun⟩

/-- The store has `n` entries for the row, of which the admissions from `k` on are still to come. -/
structure Lined (limiters : Nat → UserLimiter) (limiter : Nat) (key : String) (name : Nat → T)
    (s : History T) (n k : Nat) : Prop where
  lengths : s.names.length = s.limits.calls.length
  unnamed (i : Nat) : k ≤ i → name i ∉ s.names
  entries : (s.limits.store.listUserSlots (limiters limiter).scope key).length = n
  numbered (entry : UserLimitEntry) :
    entry ∈ s.limits.store.listUserSlots (limiters limiter).scope key →
      entry.seq ≤ s.limits.store.userSeq
  absent (i : Nat) : k ≤ i →
    s.limits.store.slotOf (limiters limiter).scope key (jobOf i) = none
  counted : countOf (s.limits.counts limiter) key = k
  uncached : (s.limits.cachedCount limiter).lookup key = none
  undecided : s.decided = []

section Lined

variable {limiters : Nat → UserLimiter} {limiter : Nat} {key : String} {name : Nat → T}
  {s : History T} {n k max : Nat} {allowed : History T → HistoryAction T → Prop}

omit [DecidableEq T] in
theorem Lined.listed (lined : Lined limiters limiter key name s n k) (max : Nat) :
    (s.entered limiters (name k) (inRow limiter key max k)).limits.store.listUserSlots
        (limiters limiter).scope key =
      ⟨(limiters limiter).scope, key, jobOf k, (limiters limiter).brokerId,
        s.limits.store.userSeq + 1, s.limits.now⟩ ::
      s.limits.store.listUserSlots (limiters limiter).scope key :=
  MemoryStore.listUserSlots_reserve (lined.absent k (Nat.le_refl k)) _ _

omit [DecidableEq T] in
theorem Lined.entered (lined : Lined limiters limiter key name s n k)
    (injective : Function.Injective name) (max : Nat) :
    Lined limiters limiter key name (s.entered limiters (name k) (inRow limiter key max k))
      (n + 1) (k + 1) := by
  have absent := lined.absent k (Nat.le_refl k)
  have fresh := MemoryStore.reserveUserSlot_fresh absent (limiters limiter).brokerId s.limits.now
  constructor
  · simp [History.entered, lined.lengths]
  · intro i later
    have different : name i ≠ name k := fun same => by
      have equal := injective same
      omega
    simp [History.entered, lined.unnamed i (by omega), different]
  · rw [lined.listed, List.length_cons, lined.entries]
  · intro entry member
    have newest : (s.entered limiters (name k) (inRow limiter key max k)).limits.store.userSeq =
        s.limits.store.userSeq + 1 := fresh.2.1
    rw [lined.listed] at member
    rw [newest]
    rcases List.mem_cons.mp member with rfl | old
    · exact Nat.le_refl _
    · exact Nat.le_succ_of_le (lined.numbered entry old)
  · intro i later
    have other : ¬ ((limiters limiter).scope = (limiters limiter).scope ∧ key = key ∧
        jobOf i = jobOf k) := by
      rintro ⟨_, _, same⟩
      have equal := jobOf_inj same
      omega
    exact (MemoryStore.slotOf_reserveUserSlot _ _ _ _ _ _ other).trans
      (lined.absent i (by omega))
  · simp only [History.entered, inRow, Function.update_self]
    rw [countOf_incrLocal, if_pos rfl, lined.counted]
  · exact lined.uncached
  · exact lined.undecided

theorem Lined.row (lined : Lined limiters limiter key name s n 0)
    (injective : Function.Injective name) (positive : 0 < max)
    (submits : ∀ h i, allowed h (.submit (name i) limiter key (jobOf i) max))
    (events : ∀ h name event, allowed h (.event name event)) :
    ∀ m ≤ max, ∃ next, Path (historyStep true limiters) allowed s
      ((List.range m).flatMap fun i => reservesSlot (name i) (inRow limiter key max i)) next ∧
      Lined limiters limiter key name next (n + m) m := by
  intro m
  induction m with
  | zero => exact fun _ => ⟨s, .nil, lined⟩
  | succ m ih =>
      intro small
      obtain ⟨next, path, row⟩ := ih (by omega)
      have entered := row.entered injective max
      have room : countOf (next.limits.counts limiter) key < max := by
        rw [row.counted]
        omega
      have last : Path (historyStep true limiters) allowed next
          (reservesSlot (name m) (inRow limiter key max m))
          (next.entered limiters (name m) (inRow limiter key max m)) :=
        entered_path row.lengths (row.unnamed m (Nat.le_refl m)) rfl rfl positive (Or.inr room)
          (submits _ m) (events · _)
      refine ⟨_, ?_, entered⟩
      rw [List.range_succ, List.flatMap_append]
      simpa using path.append last

theorem slotRank_newest {entries : List UserLimitEntry} (newest : UserLimitEntry)
    (older : ∀ entry ∈ entries, entry.seq < newest.seq) :
    slotRank (newest :: entries) newest.seq newest.jobId = entries.length := by
  have member : toLex (newest.seq, newest.jobId) ∈
      (newest :: entries).map fun entry => toLex (entry.seq, entry.jobId) := by simp
  rw [slotRank, rankIn_eq_countP member, Option.getD_some, List.map_cons, List.countP_cons,
    if_neg (by simp), Nat.add_zero, List.countP_map]
  refine List.countP_eq_length.mpr ?_
  intro entry within
  have less := older entry within
  simp [Prod.Lex.lt_iff, less]

section Decisions

variable {start : History T} {own : T} {i seq : Nat} {jobId : String}

theorem rank_decides (index : start.names.idxOf? own = some i)
    (present : start.limits.calls[i]? = some ⟨limiter, key, jobId, max, some seq, .list⟩)
    (rank : slotRank (start.limits.store.listUserSlots (limiters limiter).scope key) seq jobId = n)
    (undecided : start.decided = []) (events : ∀ h name event, allowed h (.event name event)) :
    ∃ last, Path (historyStep true limiters) allowed start
        [.event own .step, .event own .step] last ∧
      last.decided = [(own, decide (n < max))] := by
  have happens : effectOf true limiters start.limits
      ⟨limiter, key, jobId, max, some seq, .list⟩ .step =
      some (.goTo (.rank (start.limits.store.listUserSlots (limiters limiter).scope key))) := rfl
  have stepped := event_step index present happens
  generalize start.limits.store.listUserSlots (limiters limiter).scope key = entries at rank stepped
  generalize started : start.acted limiters own i ⟨limiter, key, jobId, max, some seq, .list⟩
    (.goTo (.rank entries)) = middle at stepped
  have indexAgain : middle.names.idxOf? own = some i := started ▸ index
  have there : middle.limits.calls[i]? =
      some ⟨limiter, key, jobId, max, some seq, .rank entries⟩ :=
    started ▸ List.getElem?_set_self (List.getElem?_eq_some_iff.mp present).1
  have still : middle.decided = [] := by
    rw [← started]
    simp [History.acted, undecided, decisionOf, Effect.goTo]
  have ranked : effectOf true limiters middle.limits
      ⟨limiter, key, jobId, max, some seq, .rank entries⟩ .step =
      some (if n < max then .goTo .admitted else .leave .rejected) := by
    simp only [effectOf, effectShared, if_true, Option.map_some, rank]
  refine ⟨_, Path.cons (events _ _ _) stepped
    (Path.cons (events _ _ _) (event_step indexAgain there ranked) .nil), ?_⟩
  simp only [History.acted, still, List.nil_append]
  by_cases less : n < max
  · rw [if_pos less]
    simp [Effect.goTo, decisionOf, less]
  · rw [if_neg less]
    simp [Effect.leave, decisionOf, less]

theorem count_decides (index : start.names.idxOf? own = some i)
    (present : start.limits.calls[i]? = some ⟨limiter, key, jobId, max, some seq, .count⟩)
    (uncached : (start.limits.cachedCount limiter).lookup key = none)
    (entries : (start.limits.store.listUserSlots (limiters limiter).scope key).length = n + 1)
    (undecided : start.decided = []) (events : ∀ h name event, allowed h (.event name event)) :
    ∃ last, Path (historyStep true limiters) allowed start [.event own .step] last ∧
      last.decided = [(own, decide (n < max))] := by
  have unfresh : freshCount start.limits ⟨limiter, key, jobId, max, some seq, .count⟩ = none := by
    simp [freshCount, uncached]
  have happens : effectOf true limiters start.limits
      ⟨limiter, key, jobId, max, some seq, .count⟩ .step =
      some { Effect.compare max (n + 1) with synced := some (n + 1) } := by
    simp only [effectOf, effectShared, if_true, unfresh, entries]
  refine ⟨_, Path.cons (events _ _ _) (event_step index present happens) .nil, ?_⟩
  simp only [History.acted, undecided, List.nil_append]
  unfold Effect.compare
  by_cases less : n < max
  · rw [if_neg (by omega)]
    simp [Effect.goTo, decisionOf, less]
  · rw [if_pos (by omega)]
    simp [Effect.leave, decisionOf, less]

end Decisions

/-- The admission is decided by the number of entries before its own. -/
theorem Lined.decided (lined : Lined limiters limiter key name s n k)
    (injective : Function.Injective name) (events : ∀ h name event, allowed h (.event name event)) :
    ∃ last, Path (historyStep true limiters) allowed
        (s.entered limiters (name k) (inRow limiter key max k)) (decides (name k) max) last ∧
      last.decided = [(name k, decide (n < max))] := by
  have later := lined.entered injective max
  have seq := (MemoryStore.reserveUserSlot_fresh (lined.absent k (Nat.le_refl k))
    (limiters limiter).brokerId s.limits.now).1
  have index : (s.entered limiters (name k) (inRow limiter key max k)).names.idxOf? (name k) =
      some s.names.length := idxOf?_snoc (lined.unnamed k (Nat.le_refl k))
  have present : ∀ pc, (if strict max then .list else .count) = pc →
      (s.entered limiters (name k) (inRow limiter key max k)).limits.calls[s.names.length]? =
        some ⟨limiter, key, jobOf k, max, some (s.limits.store.userSeq + 1), pc⟩ := by
    rintro pc rfl
    simp [History.entered, lined.lengths, inRow, Admit.reservation, seq]
    rfl
  unfold decides
  cases small : strict max with
  | true =>
      have rank := slotRank_newest ⟨(limiters limiter).scope, key, jobOf k,
        (limiters limiter).brokerId, s.limits.store.userSeq + 1, s.limits.now⟩
        fun entry member => Nat.lt_succ_of_le (lined.numbered entry member)
      rw [lined.entries, ← lined.listed max] at rank
      exact rank_decides index (present .list (by rw [small, if_pos rfl])) rank later.undecided
        events
  | false =>
      exact count_decides index (present .count (by rw [small, if_neg Bool.false_ne_true]))
        later.uncached later.entries later.undecided events

omit [DecidableEq T] in
theorem Lined.initial (now : Nat) : Lined limiters limiter key name (History.new T now) 0 0 where
  lengths := rfl
  unnamed _ _ := List.not_mem_nil
  entries := rfl
  numbered _ member := (List.not_mem_nil member).elim
  absent _ _ := rfl
  counted := rfl
  uncached := rfl
  undecided := rfl

/-- An admission that is dropped after its reservation leaves its entry behind, and no count. -/
theorem Lined.behind {own : T} {first taken : Nat} (now : Nat)
    (sameScope : (limiters first).scope = (limiters limiter).scope) (apart : ∀ i, name i ≠ own)
    (positive : 0 < taken)
    (submits : ∀ h, allowed h (.submit own first key "own" taken))
    (events : ∀ h name event, allowed h (.event name event)) :
    ∃ s, Path (historyStep true limiters) allowed (History.new T now)
        (reservesSlot own ⟨first, key, "own", taken, none, .begun⟩ ++ [.event own .drop]) s ∧
      Lined limiters limiter key name s 1 0 := by
  have entered : Path (historyStep true limiters) allowed (History.new T now)
      (reservesSlot own ⟨first, key, "own", taken, none, .begun⟩)
      ((History.new T now).entered limiters own ⟨first, key, "own", taken, none, .begun⟩) :=
    entered_path rfl (by simp [History.new]) rfl rfl positive (Or.inr positive) (submits _)
      (events · _)
  have listed := MemoryStore.listUserSlots_reserve
    (show (MemoryStore.new).slotOf (limiters first).scope key "own" = none from rfl)
    (limiters first).brokerId now
  have newest := MemoryStore.reserveUserSlot_fresh
    (show (MemoryStore.new).slotOf (limiters first).scope key "own" = none from rfl)
    (limiters first).brokerId now
  let call : Admit := ⟨first, key, "own", taken,
    some (((inRow first key taken 0).reservation limiters (LimiterState.new now)).1),
    if strict taken then .list else .count⟩
  have index : ((History.new T now).entered limiters own
      ⟨first, key, "own", taken, none, .begun⟩).names.idxOf? own = some 0 := by
    simp [History.entered, History.new]
  have present : ((History.new T now).entered limiters own
      ⟨first, key, "own", taken, none, .begun⟩).limits.calls[0]? = some call := rfl
  have happens : effectOf true limiters ((History.new T now).entered limiters own
      ⟨first, key, "own", taken, none, .begun⟩).limits call .drop = some (.leave .dropped) := by
    cases small : strict taken <;> simp [effectOf, effectShared, call, small]
  refine ⟨_, entered.snoc (events _ _ _) (event_step index present happens), ?_⟩
  constructor
  · rfl
  · intro i _
    simp [History.acted, History.entered, History.new, apart]
  · rw [← sameScope]
    exact congrArg List.length listed
  · intro entry member
    rw [← sameScope] at member
    obtain rfl := List.mem_singleton.mp (listed ▸ member)
    exact newest.2.1.ge
  · intro i _
    rw [← sameScope]
    refine (MemoryStore.slotOf_reserveUserSlot _ _ _ _ _ _ ?_).trans rfl
    exact fun same => jobOf_ne i same.2.2
  · by_cases here : limiter = first
    · subst here
      have none : countOf (∅ : HashMap String Nat) key = 0 := rfl
      simp [History.acted, History.entered, History.new, LimiterState.new, LimiterState.perform,
        Effect.leave, CountChange.apply, call, countOf_releaseLocal, countOf_incrLocal, none]
    · simp [History.acted, History.entered, History.new, LimiterState.new, LimiterState.perform,
        Effect.leave, CountChange.apply, call, here, countOf]
  · rfl
  · cases small : strict taken <;> simp [History.acted, History.entered, History.new, call, small,
      decisionOf, Effect.leave]

end Lined

/-- As many admissions as their ceiling, one after the other, of which the last is decided. -/
def fills (limiter : Nat) (key : String) (max : Nat) (name : Nat → T) : List (HistoryAction T) :=
  ((List.range (max - 1)).flatMap fun i => reservesSlot (name i) (inRow limiter key max i)) ++
    (reservesSlot (name (max - 1)) (inRow limiter key max (max - 1)) ++
      decides (name (max - 1)) max)

/-- An admission of the same scope and key before them. -/
def precedes (first : Nat) (key : String) (taken : Nat) (own : T) : List (HistoryAction T) :=
  reservesSlot own ⟨first, key, "own", taken, none, .begun⟩ ++ [.event own .drop]

section Shared

variable {limiters : Nat → UserLimiter} {limiter first : Nat} {key : String} {name : Nat → T}
  {own : T} {max taken : Nat} {allowed : History T → HistoryAction T → Prop}

theorem Lined.fills {s : History T} {n : Nat} (lined : Lined limiters limiter key name s n 0)
    (injective : Function.Injective name) (positive : 0 < max)
    (submits : ∀ h i, allowed h (.submit (name i) limiter key (jobOf i) max))
    (events : ∀ h name event, allowed h (.event name event)) :
    ∃ last, Path (historyStep true limiters) allowed s (fills limiter key max name) last ∧
      last.decided = [(name (max - 1), decide (n + (max - 1) < max))] := by
  obtain ⟨next, path, row⟩ := lined.row injective positive submits events (max - 1) (by omega)
  have room : countOf (next.limits.counts limiter) key < max := by
    rw [row.counted]
    omega
  have entered : Path (historyStep true limiters) allowed next
      (reservesSlot (name (max - 1)) (inRow limiter key max (max - 1)))
      (next.entered limiters (name (max - 1)) (inRow limiter key max (max - 1))) :=
    entered_path row.lengths (row.unnamed _ (Nat.le_refl _)) rfl rfl positive (Or.inr room)
      (submits _ _) (events · _)
  obtain ⟨last, finishes, decided⟩ := row.decided injective events
  exact ⟨last, path.append (entered.append finishes), decided⟩

/-- With a store the last of the admissions is rejected behind one other, and admitted without. -/
theorem shared_admission_shows (now : Nat)
    (sameScope : (limiters first).scope = (limiters limiter).scope)
    (injective : Function.Injective name) (apart : ∀ i, name i ≠ own) (takes : 0 < taken)
    (positive : 0 < max) (submitsOwn : ∀ h, allowed h (.submit own first key "own" taken))
    (submits : ∀ h i, allowed h (.submit (name i) limiter key (jobOf i) max))
    (events : ∀ h name event, allowed h (.event name event)) :
    ∃ left right, Path (historyStep true limiters) allowed (History.new T now)
        (precedes first key taken own ++ fills limiter key max name) left ∧
      Path (historyStep true limiters) allowed (History.new T now)
        (fills limiter key max name) right ∧
      left.decided = [(name (max - 1), false)] ∧ right.decided = [(name (max - 1), true)] := by
  obtain ⟨s, before, behind⟩ := Lined.behind now sameScope apart takes submitsOwn events
  obtain ⟨left, filled, rejected⟩ := behind.fills injective positive submits events
  obtain ⟨right, alone, admitted⟩ :=
    (Lined.initial now).fills injective positive submits events
  refine ⟨left, right, before.append filled, alone, ?_, ?_⟩
  · rw [rejected, decide_eq_false (by omega)]
  · rw [admitted, decide_eq_true (by omega)]

end Shared

/-- An admission without a store. -/
def admitsHere (limiter : Nat) (key : String) (max : Nat) (name : T) : List (HistoryAction T) :=
  [.submit name limiter key "" max, .event name .step]

section Here

variable (limiters : Nat → UserLimiter) {limiter : Nat} {key : String} {name : Nat → T}
  {own : T} {s : History T} {n k max taken : Nat}
  {allowed : History T → HistoryAction T → Prop}

theorem admitsHere_path (lengths : s.names.length = s.limits.calls.length) (fresh : own ∉ s.names)
    (positive : 0 < max) (submits : ∀ h, allowed h (.submit own limiter key "" max))
    (events : ∀ h name event, allowed h (.event name event)) :
    ∃ next, Path (historyStep false limiters) allowed s (admitsHere limiter key max own) next ∧
      next.names = s.names ++ [own] ∧ next.names.length = next.limits.calls.length ∧
      next.decided = s.decided ++
        [(own, decide (countOf (s.limits.counts limiter) key < max))] ∧
      (countOf (s.limits.counts limiter) key < max →
        countOf (next.limits.counts limiter) key = countOf (s.limits.counts limiter) key + 1) := by
  have submitted : historyStep false limiters s (.submit own limiter key "" max) =
      some (s.submitted own ⟨limiter, key, "", max, none, .begun⟩) :=
    historyStep_iff.mpr (.submitted fresh rfl)
  have index : (s.submitted own ⟨limiter, key, "", max, none, .begun⟩).names.idxOf? own =
      some s.names.length := idxOf?_snoc fresh
  have present : (s.submitted own ⟨limiter, key, "", max, none, .begun⟩).limits.calls[
      s.names.length]? = some ⟨limiter, key, "", max, none, .begun⟩ := by
    simp [History.submitted, lengths]
  have happens : effectOf false limiters
      (s.submitted own ⟨limiter, key, "", max, none, .begun⟩).limits
      ⟨limiter, key, "", max, none, .begun⟩ .step =
      some (if countOf (s.limits.counts limiter) key < max then
        ⟨.admitted, .take, none, false, false⟩ else .goTo .rejected) := by
    by_cases room : countOf (s.limits.counts limiter) key < max
    · simp [effectOf, effectHere, History.submitted, room, Nat.not_le.mpr room,
        Nat.ne_of_gt positive]
    · simp [effectOf, effectHere, History.submitted, room, Nat.not_lt.mp room,
        Nat.ne_of_gt positive]
  refine ⟨_, Path.cons (submits _) submitted
    (Path.cons (events _ _ _) (event_step index present happens) .nil), rfl, ?_, ?_, ?_⟩
  · simp [History.acted, History.submitted, LimiterState.perform, lengths]
  · by_cases room : countOf (s.limits.counts limiter) key < max
    · simp [History.acted, History.submitted, decisionOf, room]
    · simp [History.acted, History.submitted, decisionOf, room, Effect.goTo]
  · intro room
    simp [History.acted, History.submitted, LimiterState.perform, CountChange.apply, room,
      countOf_incrLocal]

/-- `n` places are taken, the admissions from `k` on are still to come, and none was rejected. -/
structure PlacesTaken (limiter : Nat) (key : String) (name : Nat → T) (s : History T) (n k : Nat) :
    Prop where
  lengths : s.names.length = s.limits.calls.length
  unnamed (i : Nat) : k ≤ i → name i ∉ s.names
  counted : countOf (s.limits.counts limiter) key = n
  granted : ∀ entry ∈ s.decided, entry.2 = true

theorem PlacesTaken.next (before : PlacesTaken limiter key name s n k)
    (injective : Function.Injective name) (room : n < max)
    (submits : ∀ h i jobId, allowed h (.submit (name i) limiter key jobId max))
    (events : ∀ h name event, allowed h (.event name event)) :
    ∃ next, Path (historyStep false limiters) allowed s (admitsHere limiter key max (name k)) next ∧
      PlacesTaken limiter key name next (n + 1) (k + 1) := by
  obtain ⟨next, path, names, lengths, decided, counted⟩ := admitsHere_path limiters
    before.lengths (before.unnamed k (Nat.le_refl k)) (Nat.zero_lt_of_lt room)
    (fun h => submits h k "") events
  rw [before.counted] at decided counted
  refine ⟨next, path, lengths, ?_, counted room, ?_⟩
  · intro i later
    have different : name i ≠ name k := fun same => by
      have equal := injective same
      omega
    simp [names, before.unnamed i (by omega), different]
  · intro entry member
    rw [decided] at member
    rcases List.mem_append.mp member with old | last
    · exact before.granted entry old
    · rw [List.mem_singleton.mp last]
      exact decide_eq_true room

theorem PlacesTaken.row (before : PlacesTaken limiter key name s n 0)
    (injective : Function.Injective name)
    (submits : ∀ h i jobId, allowed h (.submit (name i) limiter key jobId max))
    (events : ∀ h name event, allowed h (.event name event)) :
    ∀ m, n + m ≤ max → ∃ next, Path (historyStep false limiters) allowed s
        ((List.range m).flatMap fun i => admitsHere limiter key max (name i)) next ∧
      PlacesTaken limiter key name next (n + m) m := by
  intro m
  induction m with
  | zero => exact fun _ => ⟨s, .nil, before⟩
  | succ m ih =>
      intro small
      obtain ⟨middle, path, row⟩ := ih (by omega)
      obtain ⟨next, last, after⟩ := row.next limiters injective (by omega) submits events
      refine ⟨next, ?_, after⟩
      rw [List.range_succ, List.flatMap_append]
      simpa using path.append last

omit [DecidableEq T] in
theorem PlacesTaken.initial (now : Nat) : PlacesTaken limiter key name (History.new T now) 0 0 where
  lengths := rfl
  unnamed _ _ := List.not_mem_nil
  counted := rfl
  granted _ member := (List.not_mem_nil member).elim

/-- Without a store the last of the admissions is rejected behind one other, and admitted without
it. -/
theorem admission_shows_here (now : Nat) (injective : Function.Injective name)
    (apart : ∀ i, name i ≠ own) (takes : 0 < taken) (positive : 0 < max)
    (submitsOwn : ∀ h jobId, allowed h (.submit own limiter key jobId taken))
    (submits : ∀ h i jobId, allowed h (.submit (name i) limiter key jobId max))
    (events : ∀ h name event, allowed h (.event name event)) :
    ∃ left right, Path (historyStep false limiters) allowed (History.new T now)
        (admitsHere limiter key taken own ++
          (List.range max).flatMap fun i => admitsHere limiter key max (name i)) left ∧
      Path (historyStep false limiters) allowed (History.new T now)
        ((List.range max).flatMap fun i => admitsHere limiter key max (name i)) right ∧
      (name (max - 1), false) ∈ left.decided ∧ ∀ entry ∈ right.decided, entry.2 = true := by
  obtain ⟨right, alone, all⟩ :=
    (PlacesTaken.initial now).row limiters injective submits events max (by omega)
  obtain ⟨s, first, names, lengths, decided, counted⟩ := admitsHere_path limiters
    (show (History.new T now).names.length = _ from rfl) List.not_mem_nil takes
    (fun h => submitsOwn h "") events
  have none : countOf ((History.new T now).limits.counts limiter) key = 0 := rfl
  rw [none] at decided counted
  have behind : PlacesTaken limiter key name s 1 0 := by
    refine ⟨lengths, ?_, counted takes, ?_⟩
    · intro i _
      rw [names]
      simpa [History.new] using apart i
    · intro entry member
      rw [decided] at member
      rw [List.mem_singleton.mp member]
      exact decide_eq_true takes
  obtain ⟨full, filled, row⟩ :=
    behind.row limiters injective submits events (max - 1) (by omega)
  obtain ⟨left, last, _, _, decides, _⟩ := admitsHere_path limiters row.lengths
    (row.unnamed _ (Nat.le_refl _)) positive (fun h => submits h (max - 1) "") events
  have count : List.range max = List.range (max - 1) ++ [max - 1] := by
    conv_lhs => rw [← Nat.sub_add_cancel positive]
    exact List.range_succ
  refine ⟨left, right, first.append ?_, alone, ?_, all.granted⟩
  · rw [count, List.flatMap_append]
    simpa using filled.append last
  · rw [decides, row.counted, decide_eq_false (by omega)]
    exact List.mem_append_right _ (List.mem_singleton_self _)

end Here

/-- An admission changes what is decided on others under its key: where they count the same slots,
some history of theirs has a rejection behind it that it does not have alone. -/
theorem admission_shows (shared : Bool) (limiters : Nat → UserLimiter) (now first limiter : Nat)
    (own : T) (name : Nat → T) (allowed : History T → HistoryAction T → Prop) {key : String}
    {taken max : Nat}
    (sameScope : (limiters first).scope = (limiters limiter).scope)
    (sameCounts : shared = false → first = limiter) (injective : Function.Injective name)
    (apart : ∀ i, name i ≠ own) (takes : 0 < taken) (positive : 0 < max)
    (submitsOwn : ∀ h jobId, allowed h (.submit own first key jobId taken))
    (submits : ∀ h i jobId, allowed h (.submit (name i) limiter key jobId max))
    (events : ∀ h name event, allowed h (.event name event)) :
    ∃ before after left right,
      Path (historyStep shared limiters) allowed (History.new T now) (before ++ after) left ∧
      Path (historyStep shared limiters) allowed (History.new T now) after right ∧
      (∀ seen : T → Bool, seen own = false → before.filter (·.shown seen) = []) ∧
      (∃ i, (name i, false) ∈ left.decided) ∧ ∀ entry ∈ right.decided, entry.2 = true := by
  cases shared with
  | true =>
      obtain ⟨left, right, path, alone, rejected, admitted⟩ := shared_admission_shows now sameScope
        injective apart takes positive (submitsOwn · _) (submits · · _) events
      refine ⟨_, _, left, right, path, alone, ?_, ⟨max - 1, by simp [rejected]⟩, by simp [admitted]⟩
      intro seen unseen
      cases small : strict taken <;>
        simp [precedes, reservesSlot, small, HistoryAction.shown, unseen]
  | false =>
      obtain rfl := sameCounts rfl
      obtain ⟨left, right, path, alone, rejected, admitted⟩ := admission_shows_here limiters now
        injective apart takes positive submitsOwn submits events
      refine ⟨_, _, left, right, path, alone, ?_, ⟨max - 1, rejected⟩, admitted⟩
      intro seen unseen
      simp [admitsHere, HistoryAction.shown, unseen]

end BitsBroker
