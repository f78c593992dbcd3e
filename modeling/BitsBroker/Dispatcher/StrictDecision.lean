import BitsBroker.Dispatcher.StrictCap

/-!
Decisions of the strict mode when all ceilings agree and no guard is dropped. A call that
reserved then holds its guard or was rejected, and it was rejected only if enough calls
had reserved before it. Hence a listing misses no call of small rank, and the rank in it
lies below the ceiling exactly when the rank among all reservations does.
-/

namespace BitsBroker

open Transition Table Counting

def StrictFixed (limiters : Nat → UserLimiter) (ceiling : Nat) (s : LimiterState)
    (action : LimiterAction) : Prop :=
  StrictFresh limiters s action ∧ match action with
    | .request _ _ _ max => max = ceiling
    | .event i .drop => ∀ call, s.calls[i]? = some call → call.pc.guarded = false
    | _ => True

def Admit.seqOf (call : Admit) : Nat := call.seq.getD 0

def LimiterState.reservedBefore (s : LimiterState) (limiters : Nat → UserLimiter) (call : Admit)
    (n : Nat) : Nat :=
  s.calls.countP (Admit.reservedBelow limiters (limiters call.limiter).scope call.user n)

structure StrictDecided (limiters : Nat → UserLimiter) (ceiling : Nat) (s : LimiterState) :
    Prop where
  fixed (i : Nat) (call : Admit) : s.calls[i]? = some call → call.max = ceiling
  decided (i : Nat) (call : Admit) (n : Nat) : s.calls[i]? = some call → call.seq = some n →
    call.pc.guarded = true ∨ call.pc = .rejected
  listed (i : Nat) (call : Admit) (n : Nat) (entries : List UserLimitEntry) :
    s.calls[i]? = some call → call.pc = .rank entries → call.seq = some n →
    min ceiling (s.reservedBefore limiters call n) ≤ entries.countP (fun entry => entry.seq < n) ∧
      entries.countP (fun entry => entry.seq < n) ≤ s.reservedBefore limiters call n
  admitted (i : Nat) (call : Admit) (n : Nat) : s.calls[i]? = some call → call.pc = .admitted →
    call.seq = some n → s.reservedBefore limiters call n < ceiling
  rejected (i : Nat) (call : Admit) (n : Nat) : s.calls[i]? = some call → call.pc = .rejected →
    call.seq = some n → ceiling ≤ s.reservedBefore limiters call n

section Counts

variable {limiters : Nat → UserLimiter} {s next : LimiterState} {scope user jobId : String}
  {n ceiling : Nat} {entries : List UserLimitEntry} {i : Nat} {call later : Admit}

theorem StrictWf.separates_seqOf (wf : StrictWf limiters s) :
    Separates (fun call : Admit => call.seq.isSome) Admit.seqOf s.calls := by
  intro i j left right leftIn rightIn leftSome rightSome same
  obtain ⟨l, leftSeq⟩ := Option.isSome_iff_exists.mp leftSome
  obtain ⟨r, rightSeq⟩ := Option.isSome_iff_exists.mp rightSome
  obtain rfl : l = r := by simpa [Admit.seqOf, leftSeq, rightSeq] using same
  exact wf.apart i j left right l leftIn rightIn leftSeq rightSeq

theorem StrictStep.reservedBelow_eq (step : StrictStep limiters s next)
    (wf : StrictWf limiters s) (scope user : String) (bound : n ≤ s.store.userSeq) :
    next.calls.countP (Admit.reservedBelow limiters scope user n) =
      s.calls.countP (Admit.reservedBelow limiters scope user n) := by
  cases step with
  | idle calls _ _ | released _ calls _ _ => rw [calls]
  | begun calls shaped begun _ _ _ =>
      rw [calls, List.countP_append, List.countP_singleton]
      simp [Admit.reservedBelow, shaped.unreserved begun]
  | @called i event call later known move calls =>
      rw [calls]
      refine countP_set_eq known ?_
      have shaped := wf.shaped i call known
      generalize next.store = store, next.releases = releases at move
      cases move with
      | reserved begun _ _ _ _ =>
          have late : ¬ s.store.userSeq + 1 < n := by omega
          simp [Admit.reservedBelow, shaped.unreserved begun, late]
      | _ => rfl

theorem reservedBelow_trans {m : Nat} (less : m ≤ n) (other : Admit) :
    (other.reservedBelow limiters scope user n && decide (other.seqOf < m)) =
      other.reservedBelow limiters scope user m := by
  unfold Admit.reservedBelow Admit.seqOf
  cases other.seq with
  | none => simp
  | some k =>
      rw [Bool.eq_iff_iff]
      simp only [Option.any_some, Option.getD_some, Bool.and_eq_true, decide_eq_true_eq]
      constructor
      · rintro ⟨⟨under, _⟩, below⟩
        exact ⟨under, below⟩
      · rintro ⟨under, below⟩
        exact ⟨⟨under, by omega⟩, below⟩

/-- The listed entries with a smaller number are no more than the calls they come from. -/
theorem Listing.le_countP {q : Admit → Bool}
    (listing : Listing limiters s.calls scope user jobId n entries) (wf : StrictWf limiters s)
    (met : ∀ entry ∈ entries, entry.seq < n → ∀ (i : Nat) (call : Admit),
      s.calls[i]? = some call → call.under limiters scope user = true →
      call.jobId = entry.jobId → call.seq = some entry.seq → q call = true) :
    entries.countP (fun entry => entry.seq < n) ≤ s.calls.countP q := by
  have apart : Separates (fun entry : UserLimitEntry => decide (entry.seq < n))
      (fun entry => some entry.seq) entries := by
    intro i j left right leftIn rightIn _ _ same
    simp only [Option.some.injEq] at same
    obtain ⟨a, leftCall, leftFound, _, leftJob, leftSeq⟩ :=
      listing.sourced left (List.mem_of_getElem? leftIn)
    obtain ⟨b, rightCall, rightFound, _, rightJob, rightSeq⟩ :=
      listing.sourced right (List.mem_of_getElem? rightIn)
    have here := wf.apart a b leftCall rightCall _ leftFound rightFound leftSeq (same ▸ rightSeq)
    subst here
    obtain rfl : leftCall = rightCall := by simpa [leftFound] using rightFound
    have sameJob : (entries.map (·.jobId))[i]? = (entries.map (·.jobId))[j]? := by
      rw [List.getElem?_map, List.getElem?_map, leftIn, rightIn]
      simp [← leftJob, ← rightJob]
    have bound : i < (entries.map (·.jobId)).length := by
      simpa using (List.getElem?_eq_some_iff.mp leftIn).1
    exact (List.getElem?_inj bound listing.distinct).mp sameJob
  refine countP_le_countP (g := Admit.seq) apart ?_
  intro entry listed below
  obtain ⟨i, call, present, under, named, seq⟩ := listing.sourced entry listed
  exact ⟨call, List.mem_of_getElem? present,
    met entry listed (by simpa using below) i call present under named seq, seq⟩

theorem Listing.le_reserved (listing : Listing limiters s.calls scope user jobId n entries)
    (wf : StrictWf limiters s) : entries.countP (fun entry => entry.seq < n) ≤
      s.calls.countP (Admit.reservedBelow limiters scope user n) := by
  apply listing.le_countP wf
  intro entry _ below i call _ under _ seq
  simp [Admit.reservedBelow, under, seq, below]

/-- No call of small rank was rejected, so all of them are listed. -/
theorem Listing.min_le (listing : Listing limiters s.calls scope user jobId n entries)
    (wf : StrictWf limiters s) (decisions : StrictDecided limiters ceiling s) :
    min ceiling (s.calls.countP (Admit.reservedBelow limiters scope user n)) ≤
      entries.countP fun entry => entry.seq < n := by
  have apart : Separates (Admit.reservedBelow limiters scope user n) Admit.seqOf s.calls :=
    wf.separates_seqOf.weaken fun _ => reservedBelow_isSome
  rw [← countP_rank_lt apart ceiling]
  refine countP_le_countP (g := fun entry : UserLimitEntry => entry.seq)
    (apart.weaken fun _ holds => (Bool.and_eq_true _ _ ▸ holds).1) ?_
  intro call inside holds
  rw [Bool.and_eq_true, decide_eq_true_eq] at holds
  obtain ⟨below, small⟩ := holds
  obtain ⟨m, seq, less⟩ := reservedBelow_seq below
  obtain ⟨i, present⟩ := List.mem_iff_getElem?.mp inside
  have numbered : call.seqOf = m := by simp [Admit.seqOf, seq]
  have guarded : call.pc.guarded = true := by
    rcases decisions.decided i call m present seq with guarded | rejected
    · exact guarded
    · have enough := decisions.rejected i call m present rejected seq
      simp only [numbered, reservedBelow_trans less.le] at small
      have under := below
      simp only [Admit.reservedBelow, Admit.under, Bool.and_eq_true, decide_eq_true_eq] at under
      rw [LimiterState.reservedBefore, under.1.1, under.1.2] at enough
      exact absurd small (Nat.not_lt.mpr enough)
  have holds : call.holdsBelow limiters scope user n = true := by
    rw [Admit.holdsBelow, guarded, below]
    rfl
  obtain ⟨entry, listed, listedSeq⟩ := listing.covers i call present holds
  obtain rfl : m = entry.seq := by simpa [seq] using listedSeq
  exact ⟨entry, listed, by simpa using less, numbered.symm⟩

end Counts

section Decided

variable {limiters : Nat → UserLimiter} {ceiling : Nat} {s next : LimiterState}
  {action : LimiterAction}

theorem StrictDecided.fixed_step (decisions : StrictDecided limiters ceiling s)
    (permitted : StrictFixed limiters ceiling s action)
    (move : LimiterMove limiters s next action) (i : Nat) (later : Admit)
    (present : next.calls[i]? = some later) : later.max = ceiling := by
  cases move with
  | advanced eq | released _ eq =>
      subst eq
      exact decisions.fixed i later present
  | begun eq =>
      subst eq
      rcases getElem?_of_snoc present with old | ⟨_, rfl⟩
      · exact decisions.fixed i later old
      · exact permitted.2
  | called known move calls _ _ =>
      rw [calls] at present
      rcases getElem?_of_set present with ⟨rfl, rfl⟩ | ⟨_, old⟩
      · have before := decisions.fixed i _ known
        cases move <;> exact before
      · exact decisions.fixed i later old

theorem StrictDecided.decided_step (decisions : StrictDecided limiters ceiling s)
    (wf : StrictWf limiters s) (permitted : StrictFixed limiters ceiling s action)
    (move : LimiterMove limiters s next action) (i : Nat) (later : Admit) (n : Nat)
    (present : next.calls[i]? = some later) (seq : later.seq = some n) :
    later.pc.guarded = true ∨ later.pc = .rejected := by
  cases move with
  | advanced eq | released _ eq =>
      subst eq
      exact decisions.decided i later n present seq
  | begun eq =>
      subst eq
      rcases getElem?_of_snoc present with old | ⟨_, rfl⟩
      · exact decisions.decided i later n old seq
      · simp at seq
  | @called k event call _ store releases known move calls _ _ =>
      rw [calls] at present
      rcases getElem?_of_set present with ⟨rfl, rfl⟩ | ⟨_, old⟩
      · have quiet : event ≠ .storeError := by
          rintro rfl
          exact permitted.1
        cases strictMove_of_callMove wf known quiet move with
        | reserved _ _ _ _ _ | listed _ | ranked _ _ _ => exact Or.inl rfl
        | outranked _ _ _ => exact Or.inr rfl
        | cancelled begun =>
            have unreserved := (wf.shaped i call known).unreserved begun
            simp [unreserved] at seq
        | guardDropped guarded =>
            have dropped := permitted.2 call known
            simp [guarded] at dropped
      · exact decisions.decided i later n old seq

variable {i : Nat} {later : Admit} {n : Nat}

theorem StrictStep.reservedBefore_eq (step : StrictStep limiters s next)
    (wf : StrictWf limiters s) (present : s.calls[i]? = some later) (seq : later.seq = some n) :
    next.reservedBefore limiters later n = s.reservedBefore limiters later n :=
  step.reservedBelow_eq wf _ _ (wf.bounded i later n present seq)

theorem StrictDecided.listed_step (decisions : StrictDecided limiters ceiling s)
    (wf : StrictWf limiters s) (step : StrictStep limiters s next) (i : Nat) (later : Admit)
    (n : Nat) (entries : List UserLimitEntry) (present : next.calls[i]? = some later)
    (pc : later.pc = .rank entries) (seq : later.seq = some n) :
    min ceiling (next.reservedBefore limiters later n) ≤
        entries.countP (fun entry => entry.seq < n) ∧
      entries.countP (fun entry => entry.seq < n) ≤ next.reservedBefore limiters later n := by
  rcases step.moved_cases present with old | ⟨begun, _⟩ | ⟨call, event, known, move⟩
  · rw [step.reservedBefore_eq wf old seq]
    exact decisions.listed i later n entries old pc seq
  · simp [begun] at pc
  · generalize next.store = store, next.releases = releases at move
    cases move with
    | listed listPc =>
        simp only [AdmitPc.rank.injEq] at pc
        subst pc
        have same := step.reservedBefore_eq wf known seq
        have listing := wf.listing known listPc seq
        simp only [LimiterState.reservedBefore] at same ⊢
        rw [same]
        exact ⟨listing.min_le wf decisions, listing.le_reserved wf⟩
    | _ => simp at pc

theorem StrictDecided.admitted_step (decisions : StrictDecided limiters ceiling s)
    (ranked : StrictRanked limiters s) (wf : StrictWf limiters s)
    (step : StrictStep limiters s next) (i : Nat) (later : Admit) (n : Nat)
    (present : next.calls[i]? = some later) (pc : later.pc = .admitted)
    (seq : later.seq = some n) : next.reservedBefore limiters later n < ceiling := by
  rcases step.moved_cases present with old | ⟨begun, _⟩ | ⟨call, event, known, move⟩
  · rw [step.reservedBefore_eq wf old seq]
    exact decisions.admitted i later n old pc seq
  · simp [begun] at pc
  · generalize next.store = store, next.releases = releases at move
    cases move with
    | @ranked entries m rankPc reserved below =>
        obtain rfl : m = n := by simpa [reserved] using seq
        have same := step.reservedBefore_eq wf known seq
        have rank := (ranked.listed i call m entries known rankPc reserved).slotRank_eq wf known
          reserved rfl
        have most := (decisions.listed i call m entries known rankPc reserved).1
        have ceilings := decisions.fixed i call known
        simp only [LimiterState.reservedBefore] at same most ⊢
        omega
    | _ => simp at pc

theorem StrictDecided.rejected_step (decisions : StrictDecided limiters ceiling s)
    (ranked : StrictRanked limiters s) (wf : StrictWf limiters s)
    (step : StrictStep limiters s next) (i : Nat) (later : Admit) (n : Nat)
    (present : next.calls[i]? = some later) (pc : later.pc = .rejected)
    (seq : later.seq = some n) : ceiling ≤ next.reservedBefore limiters later n := by
  rcases step.moved_cases present with old | ⟨begun, _⟩ | ⟨call, event, known, move⟩
  · rw [step.reservedBefore_eq wf old seq]
    exact decisions.rejected i later n old pc seq
  · simp [begun] at pc
  · generalize next.store = store, next.releases = releases at move
    cases move with
    | @outranked entries m rankPc reserved above =>
        obtain rfl : m = n := by simpa [reserved] using seq
        have same := step.reservedBefore_eq wf known seq
        have rank := (ranked.listed i call m entries known rankPc reserved).slotRank_eq wf known
          reserved rfl
        have least := (decisions.listed i call m entries known rankPc reserved).2
        have ceilings := decisions.fixed i call known
        simp only [LimiterState.reservedBefore] at same least ⊢
        omega
    | _ => simp at pc

theorem StrictDecided.step (decisions : StrictDecided limiters ceiling s)
    (ranked : StrictRanked limiters s) (wf : StrictWf limiters s)
    (permitted : StrictFixed limiters ceiling s action)
    (taken : limiterStep limiters s action = some next) : StrictDecided limiters ceiling next := by
  have step := strictStep_of_step wf permitted.1 taken
  constructor
  · exact decisions.fixed_step permitted (limiterStep_move taken)
  · exact decisions.decided_step wf permitted (limiterStep_move taken)
  · exact decisions.listed_step wf step
  · exact decisions.admitted_step ranked wf step
  · exact decisions.rejected_step ranked wf step

end Decided

section Runs

variable {limiters : Nat → UserLimiter} {now ceiling : Nat} {actions : List LimiterAction}
  {s : LimiterState}

theorem StrictWf.initial (limiters : Nat → UserLimiter) (now : Nat) :
    StrictWf limiters (LimiterState.new now) := by
  have unslotted : ∀ scope user jobId,
      (LimiterState.new now).store.slotOf scope user jobId = none := by
    intro scope user jobId
    rfl
  constructor
  · exact GuardWf.initial limiters now
  · intro scope user jobId entry held
    simp [unslotted] at held
  · intro i j left right present
    simp [LimiterState.new] at present
  · intro slot pending
    simp [LimiterState.new] at pending
  · intro i call n present
    simp [LimiterState.new] at present
  · intro i j left right n present
    simp [LimiterState.new] at present
  · intro i call present
    simp [LimiterState.new] at present
  · intro slot entry held
    simp [SlotRelease.entryIn, unslotted] at held

theorem StrictRanked.of_path
    (path : Path (limiterStep limiters) (StrictFresh limiters) (LimiterState.new now) actions s) :
    StrictWf limiters s ∧ StrictRanked limiters s := by
  induction path with
  | nil =>
      refine ⟨StrictWf.initial limiters now, ?_, ?_⟩
      · intro i call n entries present
        simp [LimiterState.new] at present
      · intro i call n present
        simp [LimiterState.new] at present
  | snoc _ fresh taken ih =>
      obtain ⟨wf, ranked⟩ := ih
      exact ⟨wf.step fresh taken, ranked.step wf fresh taken⟩

theorem StrictDecided.of_path (path : Path (limiterStep limiters) (StrictFixed limiters ceiling)
    (LimiterState.new now) actions s) :
    (StrictWf limiters s ∧ StrictRanked limiters s) ∧ StrictDecided limiters ceiling s := by
  induction path with
  | nil =>
      refine ⟨StrictRanked.of_path .nil, ?_, ?_, ?_, ?_, ?_⟩
      · intro i call present
        simp [LimiterState.new] at present
      · intro i call n present
        simp [LimiterState.new] at present
      · intro i call n entries present
        simp [LimiterState.new] at present
      · intro i call n present
        simp [LimiterState.new] at present
      · intro i call n present
        simp [LimiterState.new] at present
  | snoc _ permitted taken ih =>
      obtain ⟨⟨wf, ranked⟩, decisions⟩ := ih
      exact ⟨⟨wf.step permitted.1 taken, ranked.step wf permitted.1 taken⟩,
        decisions.step ranked wf permitted taken⟩

theorem StrictWf.seq_of_admitted (wf : StrictWf limiters s) {scope user : String} {call : Admit}
    (inside : call ∈ s.calls) (admitted : call.admittedFor limiters scope user = true) :
    ∃ n, call.seq = some n := by
  obtain ⟨i, present⟩ := List.mem_iff_getElem?.mp inside
  obtain ⟨_, _, shape⟩ := wf.shaped i call present
  simp only [Admit.admittedFor, Bool.and_eq_true, decide_eq_true_eq] at admitted
  rw [admitted.2] at shape
  exact shape

/-- Among the live admitted calls there is one with the largest number. -/
theorem StrictWf.last_admitted (wf : StrictWf limiters s) {scope user : String} {call : Admit}
    (inside : call ∈ s.calls) (admitted : call.admittedFor limiters scope user = true) :
    ∃ last ∈ s.calls, last.admittedFor limiters scope user = true ∧ ∃ n, last.seq = some n ∧
      ∀ other ∈ s.calls, other.admittedFor limiters scope user = true →
        ∃ m, other.seq = some m ∧ m ≤ n := by
  have nonempty : (s.calls.filter (Admit.admittedFor limiters scope user)).toFinset.Nonempty :=
    ⟨call, by simp [inside, admitted]⟩
  obtain ⟨last, found, largest⟩ := Finset.exists_max_image _ Admit.seqOf nonempty
  simp only [List.mem_toFinset, List.mem_filter] at found largest
  obtain ⟨n, seq⟩ := wf.seq_of_admitted found.1 found.2
  refine ⟨last, found.1, found.2, n, seq, ?_⟩
  intro other member holds
  obtain ⟨m, otherSeq⟩ := wf.seq_of_admitted member holds
  have below := largest other ⟨member, holds⟩
  simp only [Admit.seqOf, seq, otherSeq, Option.getD_some] at below
  exact ⟨m, otherSeq, below⟩

/-- When every call that reserved has decided, as many are admitted as the ceiling allows. -/
theorem StrictDecided.admitted_eq (decisions : StrictDecided limiters ceiling s)
    (wf : StrictWf limiters s) {scope user : String}
    (settled : ∀ call ∈ s.calls, call.reservedFor limiters scope user = true →
      call.pc = .admitted ∨ call.pc = .rejected) :
    s.calls.countP (Admit.admittedFor limiters scope user) =
      min ceiling (s.calls.countP (Admit.reservedFor limiters scope user)) := by
  have apart : Separates (Admit.reservedFor limiters scope user) Admit.seqOf s.calls :=
    wf.separates_seqOf.weaken fun _ holds => (Bool.and_eq_true _ _ ▸ holds).2
  rw [← countP_rank_lt apart ceiling]
  apply List.countP_congr
  intro call inside
  obtain ⟨i, present⟩ := List.mem_iff_getElem?.mp inside
  have rank : ∀ n, call.seq = some n → call.under limiters scope user = true →
      s.calls.countP (fun other => other.reservedFor limiters scope user &&
        decide (other.seqOf < call.seqOf)) = s.reservedBefore limiters call n := by
    intro n seq under
    simp only [Admit.under, Bool.and_eq_true, decide_eq_true_eq] at under
    rw [LimiterState.reservedBefore, under.1, under.2]
    apply List.countP_congr
    intro other _
    unfold Admit.reservedFor Admit.reservedBelow Admit.seqOf
    cases other.seq <;> simp [seq]
  rw [Bool.and_eq_true, decide_eq_true_eq]
  constructor
  · intro admitted
    obtain ⟨n, seq⟩ := wf.seq_of_admitted inside admitted
    simp only [Admit.admittedFor, Bool.and_eq_true, decide_eq_true_eq] at admitted
    rw [rank n seq admitted.1]
    refine ⟨?_, decisions.admitted i call n present admitted.2 seq⟩
    simp [Admit.reservedFor, admitted.1, seq]
  · rintro ⟨reserved, small⟩
    have outcome := settled call inside reserved
    simp only [Admit.reservedFor, Bool.and_eq_true] at reserved
    obtain ⟨n, seq⟩ := Option.isSome_iff_exists.mp reserved.2
    rw [rank n seq reserved.1] at small
    rcases outcome with admitted | rejected
    · simp [Admit.admittedFor, reserved.1, admitted]
    · have enough := decisions.rejected i call n present rejected seq
      omega

end Runs

/-- The strict mode over one store, for any number of replicas and any order of their steps. -/
theorem strict_cap_across_replicas (limiters : Nat → UserLimiter) (now : Nat)
    (scope user : String) :
    (∀ actions s,
      Path (limiterStep limiters) (StrictFresh limiters) (LimiterState.new now) actions s →
      ∀ call ∈ s.calls, call.admittedFor limiters scope user = true →
        ∃ last ∈ s.calls, last.admittedFor limiters scope user = true ∧ ∃ n, last.seq = some n ∧
          (∀ other ∈ s.calls, other.admittedFor limiters scope user = true →
            ∃ m, other.seq = some m ∧ m ≤ n) ∧
          s.calls.countP (Admit.admittedFor limiters scope user) ≤ last.max) ∧
    (∀ ceiling actions s,
      Path (limiterStep limiters) (StrictFixed limiters ceiling) (LimiterState.new now) actions s →
      (∀ call ∈ s.calls, call.reservedFor limiters scope user = true →
        call.pc = .admitted ∨ call.pc = .rejected) →
      (∀ call ∈ s.calls, call.under limiters scope user = true → ∀ n, call.seq = some n →
        (call.pc = .admitted ↔
          s.calls.countP (Admit.reservedBelow limiters scope user n) < ceiling)) ∧
      s.calls.countP (Admit.admittedFor limiters scope user) =
        min ceiling (s.calls.countP (Admit.reservedFor limiters scope user))) := by
  constructor
  · intro actions s path call inside admitted
    obtain ⟨wf, ranked⟩ := StrictRanked.of_path path
    obtain ⟨last, member, holds, n, seq, largest⟩ := wf.last_admitted inside admitted
    refine ⟨last, member, holds, n, seq, largest, ranked.admitted_le wf member holds seq ?_⟩
    intro other otherIn otherHolds m otherSeq
    obtain ⟨k, numbered, below⟩ := largest other otherIn otherHolds
    obtain rfl : k = m := by simpa [numbered] using otherSeq
    exact below
  · intro ceiling actions s path settled
    obtain ⟨⟨wf, _⟩, decisions⟩ := StrictDecided.of_path path
    refine ⟨?_, decisions.admitted_eq wf settled⟩
    intro call inside under n seq
    obtain ⟨i, present⟩ := List.mem_iff_getElem?.mp inside
    have outcome := settled call inside (by simp [Admit.reservedFor, under, seq])
    simp only [Admit.under, Bool.and_eq_true, decide_eq_true_eq] at under
    have few := decisions.admitted i call n present
    have many := decisions.rejected i call n present
    rw [LimiterState.reservedBefore, under.1, under.2] at few many
    constructor
    · intro admitted
      exact few admitted seq
    · intro small
      rcases outcome with admitted | rejected
      · exact admitted
      · exact absurd small (Nat.not_lt.mpr (many rejected seq))

def strictFixed (limiters : Nat → UserLimiter) (ceiling : Nat) (s : LimiterState) :
    LimiterAction → Bool
  | .request limiter user jobId max => decide (1 ≤ max) && decide (max ≤ strictMaxThreshold) &&
      decide (max = ceiling) && s.calls.all fun call =>
        decide (call.slot limiters ≠ ⟨(limiters limiter).scope, user, jobId⟩)
  | .event _ .storeError => false
  | .event i .drop => s.calls[i]?.all fun call => !call.pc.guarded
  | _ => true

theorem strictFixed_sound (limiters : Nat → UserLimiter) (ceiling : Nat) (s : LimiterState)
    (action : LimiterAction) (checked : strictFixed limiters ceiling s action = true) :
    StrictFixed limiters ceiling s action := by
  unfold strictFixed at checked
  split at checked
  · simp only [Bool.and_eq_true, decide_eq_true_eq, List.all_eq_true] at checked
    obtain ⟨⟨⟨positive, small⟩, same⟩, unused⟩ := checked
    exact ⟨⟨positive, small, unused⟩, same⟩
  · simp at checked
  · refine ⟨trivial, ?_⟩
    intro call present
    simpa [present] using checked
  next admits fails drops =>
    cases action with
    | request limiter user jobId max => exact absurd rfl (admits limiter user jobId max)
    | event i event =>
        cases event with
        | step => exact ⟨trivial, trivial⟩
        | storeError => exact absurd rfl (fails i)
        | drop => exact absurd rfl (drops i)
    | _ => exact ⟨trivial, trivial⟩

namespace Scenario

/-- Three replicas reserve in turn, list in the opposite order and decide in a third. -/
def contend : List LimiterAction :=
  [.request 0 "user" "job-0" 2, .request 1 "user" "job-1" 2, .request 2 "user" "job-2" 2,
    .event 2 .step, .event 0 .step, .event 1 .step,
    .event 1 .step, .event 0 .step, .event 2 .step,
    .event 0 .step, .event 1 .step, .event 2 .step, .release 0]

def contended (s : LimiterState) : Bool :=
  (s.calls.all fun call => decide (call.pc = .admitted) || decide (call.pc = .rejected)) &&
    s.calls.any (Admit.admittedFor replicas "pool" "user") &&
    decide (s.calls.countP (Admit.reservedFor replicas "pool" "user") = 3)

end Scenario

open Scenario in
theorem strict_cap_across_replicas_contended :
    ∃ s, Path (limiterStep replicas) (StrictFixed replicas 2) (LimiterState.new 0) contend s ∧
      (∃ last ∈ s.calls, last.admittedFor replicas "pool" "user" = true ∧
        s.calls.countP (Admit.admittedFor replicas "pool" "user") ≤ last.max) ∧
      s.calls.countP (Admit.admittedFor replicas "pool" "user") = 2 := by
  have ran : (run (fun s action => if strictFixed replicas 2 s action then
      limiterStep replicas s action else none) (LimiterState.new 0) contend).any contended =
      true := by decide +kernel
  obtain ⟨s, finished, checked⟩ := (Option.any_eq_true _ _).mp ran
  have path := Path.of_run_if (strictFixed_sound replicas 2) _ _ finished
  simp only [contended, Bool.and_eq_true, List.all_eq_true, List.any_eq_true, Bool.or_eq_true,
    decide_eq_true_eq] at checked
  obtain ⟨⟨settled, call, inside, admitted⟩, reserved⟩ := checked
  obtain ⟨capped, exact_⟩ := strict_cap_across_replicas replicas 0 "pool" "user"
  obtain ⟨last, member, holds, _, _, _, bounded⟩ := capped contend s
    (path.mono fun _ _ permitted => permitted.1) call inside admitted
  obtain ⟨_, count⟩ := exact_ 2 contend s path fun call inside _ => settled call inside
  rw [reserved] at count
  exact ⟨s, path, ⟨last, member, holds, bounded⟩, count⟩

end BitsBroker
