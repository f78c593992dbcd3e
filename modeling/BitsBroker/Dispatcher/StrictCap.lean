import BitsBroker.Dispatcher.StrictLimit

/-!
The cap of the strict mode, from the listings its admissions rank themselves in. A listing
holds the live guards numbered before the call that took it, so an admission bounds the
guards below it by its ceiling. When all ceilings agree and no guard is dropped, a listing
also holds the calls with the smallest numbers, and every decision agrees with the rank
among all calls that reserved.
-/

namespace BitsBroker

open Transition Table Counting

def Admit.under (limiters : Nat → UserLimiter) (scope user : String) (call : Admit) : Bool :=
  decide ((limiters call.limiter).scope = scope) && decide (call.user = user)

def Admit.reservedBelow (limiters : Nat → UserLimiter) (scope user : String) (n : Nat)
    (call : Admit) : Bool :=
  call.under limiters scope user && call.seq.any (· < n)

def Admit.holdsBelow (limiters : Nat → UserLimiter) (scope user : String) (n : Nat)
    (call : Admit) : Bool :=
  call.pc.guarded && call.reservedBelow limiters scope user n

def Admit.reservedFor (limiters : Nat → UserLimiter) (scope user : String) (call : Admit) : Bool :=
  call.under limiters scope user && call.seq.isSome

def Admit.admittedFor (limiters : Nat → UserLimiter) (scope user : String) (call : Admit) : Bool :=
  call.under limiters scope user && decide (call.pc = .admitted)

/-- What a call numbered `n` has in its hands after listing: its own entry, an entry of every
live guard with a smaller number, and nothing that was not reserved. -/
structure Listing (limiters : Nat → UserLimiter) (calls : List Admit) (scope user jobId : String)
    (n : Nat) (entries : List UserLimitEntry) : Prop where
  distinct : (entries.map (·.jobId)).Nodup
  own : ∃ entry ∈ entries, entry.seq = n ∧ entry.jobId = jobId
  sourced (entry : UserLimitEntry) : entry ∈ entries → ∃ (i : Nat) (call : Admit),
    calls[i]? = some call ∧ call.under limiters scope user = true ∧ call.jobId = entry.jobId ∧
      call.seq = some entry.seq
  covers (i : Nat) (call : Admit) : calls[i]? = some call →
    call.holdsBelow limiters scope user n = true → ∃ entry ∈ entries, call.seq = some entry.seq

section Listing

variable {limiters : Nat → UserLimiter} {s next : LimiterState} {scope user jobId : String}
  {n : Nat} {entries : List UserLimitEntry} {i : Nat} {call later : Admit}

theorem StrictWf.separates (wf : StrictWf limiters s) :
    Separates (fun call : Admit => call.seq.isSome) Admit.seq s.calls := by
  intro i j left right leftIn rightIn reserved _ same
  obtain ⟨n, seq⟩ := Option.isSome_iff_exists.mp reserved
  exact wf.apart i j left right n leftIn rightIn seq (same ▸ seq)

theorem reservedBelow_seq (below : call.reservedBelow limiters scope user n = true) :
    ∃ m, call.seq = some m ∧ m < n := by
  simp only [Admit.reservedBelow, Bool.and_eq_true, Option.any_eq_true] at below
  obtain ⟨_, m, seq, less⟩ := below
  exact ⟨m, seq, by simpa using less⟩

theorem reservedBelow_isSome (below : call.reservedBelow limiters scope user n = true) :
    call.seq.isSome = true := by
  obtain ⟨m, seq, _⟩ := reservedBelow_seq below
  simp [seq]

/-- Entries of different jobs have different numbers, so the rank is the number of smaller
numbers. -/
theorem Listing.slotRank_eq (listing : Listing limiters s.calls scope user jobId n entries)
    (wf : StrictWf limiters s) (present : s.calls[i]? = some call) (seq : call.seq = some n)
    (named : call.jobId = jobId) :
    slotRank entries n jobId = entries.countP fun entry => entry.seq < n := by
  obtain ⟨own, ownIn, ownSeq, ownJob⟩ := listing.own
  have member : toLex (n, jobId) ∈
      entries.map (fun entry : UserLimitEntry => toLex (entry.seq, entry.jobId)) :=
    List.mem_map.mpr ⟨own, ownIn, by rw [ownSeq, ownJob]⟩
  rw [slotRank, rankIn_eq_countP member, Option.getD_some, List.countP_map]
  apply List.countP_congr
  intro entry inside
  have tie : entry.seq = n → entry.jobId = jobId := by
    rintro same
    obtain ⟨j, other, found, _, otherJob, otherSeq⟩ := listing.sourced entry inside
    have here := wf.apart j i other call n found present (same ▸ otherSeq) seq
    subst here
    obtain rfl : other = call := by simpa [found] using present
    rw [← otherJob, named]
  simp only [Function.comp_apply, decide_eq_true_eq, Prod.Lex.toLex_lt_toLex]
  constructor
  · rintro (less | ⟨same, less⟩)
    · exact less
    · exact absurd less (by simp [tie same])
  · exact Or.inl

theorem StrictWf.separates_holdsBelow (wf : StrictWf limiters s) (scope user : String) (n : Nat) :
    Separates (Admit.holdsBelow limiters scope user n) Admit.seq s.calls := by
  refine wf.separates.weaken ?_
  intro call holds
  rw [Admit.holdsBelow, Bool.and_eq_true] at holds
  exact reservedBelow_isSome holds.2

theorem Listing.holds_le (listing : Listing limiters s.calls scope user jobId n entries)
    (wf : StrictWf limiters s) :
    s.calls.countP (Admit.holdsBelow limiters scope user n) ≤
      entries.countP fun entry => entry.seq < n := by
  refine countP_le_countP (g := fun entry : UserLimitEntry => some entry.seq)
    (wf.separates_holdsBelow scope user n) ?_
  intro call inside holds
  obtain ⟨i, present⟩ := List.mem_iff_getElem?.mp inside
  obtain ⟨entry, listed, seq⟩ := listing.covers i call present holds
  rw [Admit.holdsBelow, Bool.and_eq_true] at holds
  obtain ⟨m, reserved, less⟩ := reservedBelow_seq holds.2
  have numbered : m = entry.seq := by simpa [reserved] using seq
  exact ⟨entry, listed, by simpa [← numbered] using less, seq.symm⟩

theorem StrictWf.entry_of_guarded (wf : StrictWf limiters s) (present : s.calls[i]? = some call)
    (guarded : call.pc.guarded = true) : ∃ entry,
      (call.slot limiters).entryIn s.store = some entry ∧ call.seq = some entry.seq := by
  have entered : call.pc ≠ .reserving := by
    intro reserving
    obtain ⟨_, _, shape⟩ := wf.shaped i call present
    simp [reserving] at shape
  obtain ⟨entry, held⟩ := wf.guards.entered i call present guarded entered
  obtain ⟨j, other, found, sameSlot, seq⟩ := wf.sourced _ entry held
  have here := wf.distinct j i other call found present sameSlot
  subst here
  obtain rfl : other = call := by simpa [found] using present
  exact ⟨entry, held, seq⟩

/-- The listing a call takes once it has reserved. -/
theorem StrictWf.listing (wf : StrictWf limiters s) (present : s.calls[i]? = some call)
    (pc : call.pc = .list) (seq : call.seq = some n) :
    Listing limiters s.calls (limiters call.limiter).scope call.user call.jobId n
      (s.store.listUserSlots (limiters call.limiter).scope call.user) := by
  have member : ∀ {other : Admit} {entry : UserLimitEntry},
      other.under limiters (limiters call.limiter).scope call.user = true →
      (other.slot limiters).entryIn s.store = some entry →
      entry ∈ s.store.listUserSlots (limiters call.limiter).scope call.user := by
    intro other entry under held
    simp only [Admit.under, Bool.and_eq_true, decide_eq_true_eq] at under
    refine (MemoryStore.mem_listUserSlots _ _ _ _).mpr ⟨other.jobId, ?_⟩
    rw [← under.1, ← under.2]
    exact held
  constructor
  · exact MemoryStore.nodup_listUserSlots wf.named _ _
  · obtain ⟨entry, held, reserved⟩ := wf.entry_of_guarded present (by rw [pc]; rfl)
    refine ⟨entry, member (by simp [Admit.under]) held, ?_, ?_⟩
    · simpa [seq] using reserved.symm
    · exact wf.named _ _ _ entry held
  · intro entry listed
    obtain ⟨jobId, held⟩ := (MemoryStore.mem_listUserSlots _ _ _ _).mp listed
    obtain ⟨j, other, found, sameSlot, reserved⟩ := wf.sourced
      ⟨(limiters call.limiter).scope, call.user, jobId⟩ entry held
    simp only [Admit.slot, SlotRelease.mk.injEq] at sameSlot
    refine ⟨j, other, found, ?_, ?_, reserved⟩
    · simp [Admit.under, sameSlot.1, sameSlot.2.1]
    · rw [sameSlot.2.2, wf.named _ _ _ entry held]
  · intro j other found holds
    simp only [Admit.holdsBelow, Admit.reservedBelow, Bool.and_eq_true] at holds
    obtain ⟨entry, held, reserved⟩ := wf.entry_of_guarded found holds.1
    exact ⟨entry, member holds.2.1 held, reserved⟩

theorem StrictStep.moved_cases (step : StrictStep limiters s next)
    (present : next.calls[i]? = some later) :
    s.calls[i]? = some later ∨ later.pc = .begun ∧ later.seq = none ∨
      ∃ call event, s.calls[i]? = some call ∧
        StrictMove limiters s call event later next.store next.releases := by
  cases step with
  | idle calls _ _ | released _ calls _ _ =>
      rw [calls] at present
      exact Or.inl present
  | begun calls shaped begun _ _ _ =>
      rw [calls] at present
      rcases getElem?_of_snoc present with old | ⟨_, rfl⟩
      · exact Or.inl old
      · exact Or.inr (Or.inl ⟨begun, shaped.unreserved begun⟩)
  | called known move calls =>
      rw [calls] at present
      rcases getElem?_of_set present with ⟨rfl, rfl⟩ | ⟨_, old⟩
      · exact Or.inr (Or.inr ⟨_, _, known, move⟩)
      · exact Or.inl old

theorem StrictStep.holdsBelow_before (step : StrictStep limiters s next)
    (bound : n ≤ s.store.userSeq) (present : next.calls[i]? = some later)
    (holds : later.holdsBelow limiters scope user n = true) :
    ∃ call, s.calls[i]? = some call ∧ call.holdsBelow limiters scope user n = true ∧
      later.seq = call.seq := by
  rcases step.moved_cases present with old | ⟨_, unreserved⟩ | ⟨call, event, known, move⟩
  · exact ⟨later, old, holds, rfl⟩
  · simp [Admit.holdsBelow, Admit.reservedBelow, unreserved] at holds
  · refine ⟨call, known, ?_⟩
    generalize next.store = store, next.releases = releases at move
    cases move with
    | reserved _ _ _ _ _ =>
        simp only [Admit.holdsBelow, Bool.and_eq_true] at holds
        obtain ⟨m, seq, less⟩ := reservedBelow_seq holds.2
        simp only [Option.some.injEq] at seq
        omega
    | listed pc =>
        refine ⟨?_, rfl⟩
        rw [Admit.holdsBelow, Bool.and_eq_true] at holds ⊢
        exact ⟨by rw [pc]; rfl, holds.2⟩
    | ranked pc _ _ =>
        refine ⟨?_, rfl⟩
        rw [Admit.holdsBelow, Bool.and_eq_true] at holds ⊢
        exact ⟨by rw [pc]; rfl, holds.2⟩
    | outranked _ _ _ | cancelled _ | guardDropped _ =>
        simp [Admit.holdsBelow, AdmitPc.guarded] at holds

theorem Listing.step (listing : Listing limiters s.calls scope user jobId n entries)
    (wf : StrictWf limiters s) (step : StrictStep limiters s next)
    (bound : n ≤ s.store.userSeq) : Listing limiters next.calls scope user jobId n entries := by
  constructor
  · exact listing.distinct
  · exact listing.own
  · intro entry listed
    obtain ⟨i, call, present, under, sameJob, seq⟩ := listing.sourced entry listed
    obtain ⟨later, kept, sameSlot, _, keptSeq⟩ := step.keeps wf present
    simp only [Admit.slot, SlotRelease.mk.injEq] at sameSlot
    refine ⟨i, later, kept, ?_, ?_, keptSeq _ seq⟩
    · simpa [Admit.under, sameSlot.1, sameSlot.2.1] using under
    · rw [sameSlot.2.2, sameJob]
  · intro i later present holds
    obtain ⟨call, known, before, sameSeq⟩ := step.holdsBelow_before bound present holds
    obtain ⟨entry, listed, seq⟩ := listing.covers i call known before
    exact ⟨entry, listed, sameSeq.trans seq⟩

theorem StrictStep.holds_le (step : StrictStep limiters s next) (wf : StrictWf limiters next)
    (scope user : String) (bound : n ≤ s.store.userSeq) :
    next.calls.countP (Admit.holdsBelow limiters scope user n) ≤
      s.calls.countP (Admit.holdsBelow limiters scope user n) := by
  refine countP_le_countP (g := Admit.seq) (wf.separates_holdsBelow scope user n) ?_
  intro later inside holds
  obtain ⟨i, present⟩ := List.mem_iff_getElem?.mp inside
  obtain ⟨call, known, before, sameSeq⟩ := step.holdsBelow_before bound present holds
  exact ⟨call, List.mem_of_getElem? known, before, sameSeq.symm⟩

end Listing

structure StrictRanked (limiters : Nat → UserLimiter) (s : LimiterState) : Prop where
  listed (i : Nat) (call : Admit) (n : Nat) (entries : List UserLimitEntry) :
    s.calls[i]? = some call → call.pc = .rank entries → call.seq = some n →
    Listing limiters s.calls (limiters call.limiter).scope call.user call.jobId n entries
  capped (i : Nat) (call : Admit) (n : Nat) : s.calls[i]? = some call → call.pc = .admitted →
    call.seq = some n →
    s.calls.countP (Admit.holdsBelow limiters (limiters call.limiter).scope call.user n) < call.max

section Ranked

variable {limiters : Nat → UserLimiter} {s next : LimiterState} {action : LimiterAction}

theorem StrictRanked.listed_step (ranked : StrictRanked limiters s) (wf : StrictWf limiters s)
    (step : StrictStep limiters s next) (i : Nat) (later : Admit) (n : Nat)
    (entries : List UserLimitEntry) (present : next.calls[i]? = some later)
    (pc : later.pc = .rank entries) (seq : later.seq = some n) :
    Listing limiters next.calls (limiters later.limiter).scope later.user later.jobId n entries := by
  rcases step.moved_cases present with old | ⟨begun, _⟩ | ⟨call, event, known, move⟩
  · exact (ranked.listed i later n entries old pc seq).step wf step (wf.bounded i later n old seq)
  · simp [begun] at pc
  · generalize next.store = store, next.releases = releases at move
    cases move with
    | listed listPc =>
        simp only [AdmitPc.rank.injEq] at pc
        subst pc
        exact (wf.listing known listPc seq).step wf step (wf.bounded i call n known seq)
    | _ => simp at pc

theorem StrictRanked.capped_step (ranked : StrictRanked limiters s) (wf : StrictWf limiters s)
    (wfNext : StrictWf limiters next) (step : StrictStep limiters s next) (i : Nat)
    (later : Admit) (n : Nat) (present : next.calls[i]? = some later)
    (pc : later.pc = .admitted) (seq : later.seq = some n) :
    next.calls.countP (Admit.holdsBelow limiters (limiters later.limiter).scope later.user n) <
      later.max := by
  rcases step.moved_cases present with old | ⟨begun, _⟩ | ⟨call, event, known, move⟩
  · have before := ranked.capped i later n old pc seq
    have fewer := step.holds_le wfNext (limiters later.limiter).scope later.user
      (wf.bounded i later n old seq)
    omega
  · simp [begun] at pc
  · generalize next.store = store, next.releases = releases at move
    cases move with
    | @ranked entries m rankPc reserved below =>
        obtain rfl : m = n := by simpa [reserved] using seq
        have listing := ranked.listed i call m entries known rankPc reserved
        have rank := listing.slotRank_eq wf known reserved rfl
        have covered := listing.holds_le wf
        have fewer := step.holds_le wfNext (limiters call.limiter).scope call.user
          (wf.bounded i call m known reserved)
        simp only
        omega
    | _ => simp at pc

theorem StrictRanked.step (ranked : StrictRanked limiters s) (wf : StrictWf limiters s)
    (fresh : StrictFresh limiters s action) (taken : limiterStep limiters s action = some next) :
    StrictRanked limiters next := by
  have step := strictStep_of_step wf fresh taken
  constructor
  · exact ranked.listed_step wf step
  · exact ranked.capped_step wf (wf.step fresh taken) step

theorem StrictRanked.admitted_le (ranked : StrictRanked limiters s) (wf : StrictWf limiters s)
    {scope user : String} {last : Admit} {n : Nat} (inside : last ∈ s.calls)
    (admitted : last.admittedFor limiters scope user = true) (seq : last.seq = some n)
    (largest : ∀ other ∈ s.calls, other.admittedFor limiters scope user = true →
      ∀ m, other.seq = some m → m ≤ n) :
    s.calls.countP (Admit.admittedFor limiters scope user) ≤ last.max := by
  have reserved : ∀ call ∈ s.calls, call.pc = .admitted → ∃ m, call.seq = some m := by
    intro call member pc
    obtain ⟨i, present⟩ := List.mem_iff_getElem?.mp member
    obtain ⟨_, _, shape⟩ := wf.shaped i call present
    rw [pc] at shape
    exact shape
  have apart : Separates (Admit.admittedFor limiters scope user) Admit.seq s.calls := by
    intro i j left right leftIn rightIn leftHolds rightHolds same
    simp only [Admit.admittedFor, Bool.and_eq_true, decide_eq_true_eq] at leftHolds
    obtain ⟨m, leftSeq⟩ := reserved left (List.mem_of_getElem? leftIn) leftHolds.2
    exact wf.apart i j left right m leftIn rightIn leftSeq (same ▸ leftSeq)
  have others : ∀ call ∈ s.calls, call.admittedFor limiters scope user = true →
      call.seq ≠ some n → call.holdsBelow limiters scope user n = true := by
    intro call member holds different
    have upper := largest call member holds
    simp only [Admit.admittedFor, Bool.and_eq_true, decide_eq_true_eq] at holds
    obtain ⟨m, callSeq⟩ := reserved call member holds.2
    have less : m < n := by
      have above := upper m callSeq
      have notEqual : m ≠ n := by
        rintro rfl
        exact different callSeq
      omega
    simp [Admit.holdsBelow, Admit.reservedBelow, holds.1, holds.2, AdmitPc.guarded, callSeq, less]
  have bounded := countP_le_succ apart others
  obtain ⟨i, present⟩ := List.mem_iff_getElem?.mp inside
  simp only [Admit.admittedFor, Admit.under, Bool.and_eq_true, decide_eq_true_eq] at admitted
  obtain ⟨⟨sameScope, sameUser⟩, pc⟩ := admitted
  have below := ranked.capped i last n present pc seq
  rw [sameScope, sameUser] at below
  omega

end Ranked

end BitsBroker
