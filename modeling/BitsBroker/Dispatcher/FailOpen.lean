import BitsBroker.Dispatcher.LocalCounts

/-!
The cap of one user on one broker when store calls can fail. Without a store, and above the
strict threshold, every admission passes the local gate first, and no answer of the store
can make the cap weaker. In the strict mode the store is the authority and a call that
fails admits: the guards beyond the ceiling are then at most those that failed open, as
long as the calls that succeed give numbers that grow and list what was reserved.
-/

namespace BitsBroker

open Transition Table Counting

/-- The admission has reserved, if it consults the store, and has not begun to release. -/
def AdmissionPc.reserves : AdmissionPc → Bool
  | .incrementing | .building => true
  | pc => pc.live

def Admission.grantedFor (key : String) (a : Admission) : Bool :=
  decide (a.key = key) && a.pc.granted

def Admission.failedOpenFor (key : String) (a : Admission) : Bool :=
  a.grantedFor key && a.failedOpen

def Admission.rankedFor (key : String) (a : Admission) : Bool :=
  a.grantedFor key && !a.failedOpen

/-- The admission has a reservation of `key` numbered below `n`. -/
def Admission.reservesBelow (key : String) (n : Nat) (a : Admission) : Bool :=
  decide (a.key = key) && a.pc.reserves && a.seq.any fun m => decide (m < n)

namespace CountState

/-- The guards of `key` that `admit` has returned and that are still held. -/
def grantedGuards (s : CountState) (key : String) : Nat :=
  s.admissions.countP (Admission.grantedFor key)

/-- Those of them whose reserve or list call failed. -/
def failedOpenGuards (s : CountState) (key : String) : Nat :=
  s.admissions.countP (Admission.failedOpenFor key)

end CountState

/-- A new number is above the numbers of the user's reservations. -/
def FreshNumber (s : CountState) (i seq : Nat) : Prop :=
  ∀ a ∈ s.admissions[i]?, ∀ b ∈ s.admissions, b.key = a.key → ∀ n ∈ b.seq, n < seq

/-- A list has the entry of every reservation of the user that is not being released. -/
def ListsReserved (s : CountState) (i : Nat) (entries : List UserLimitEntry) : Prop :=
  ∀ a ∈ s.admissions[i]?, ∀ b ∈ s.admissions, b.key = a.key → b.pc.reserves = true →
    ∀ n ∈ b.seq, ∃ entry ∈ entries, entry.seq = n ∧ entry.jobId = b.jobId

/-- A store that keeps its contract in the calls that succeed. -/
def HonestStore (s : CountState) : CountAction → Prop
  | .event i (.reserved (some seq)) => FreshNumber s i seq
  | .event i (.listed (some entries)) => ListsReserved s i entries
  | _ => True

instance (s : CountState) (i seq : Nat) : Decidable (FreshNumber s i seq) :=
  inferInstanceAs (Decidable (∀ a ∈ s.admissions[i]?, ∀ b ∈ s.admissions, b.key = a.key →
    ∀ n ∈ b.seq, n < seq))

instance (s : CountState) (i : Nat) (entries : List UserLimitEntry) :
    Decidable (ListsReserved s i entries) :=
  inferInstanceAs (Decidable (∀ a ∈ s.admissions[i]?, ∀ b ∈ s.admissions, b.key = a.key →
    b.pc.reserves = true → ∀ n ∈ b.seq, ∃ entry ∈ entries, entry.seq = n ∧ entry.jobId = b.jobId))

def honestStore (s : CountState) : CountAction → Bool
  | .event i (.reserved (some seq)) => decide (FreshNumber s i seq)
  | .event i (.listed (some entries)) => decide (ListsReserved s i entries)
  | _ => true

theorem honestStore_sound (s : CountState) (action : CountAction)
    (checked : honestStore s action = true) : HonestStore s action := by
  unfold honestStore at checked
  split at checked
  next i seq =>
    have fresh : FreshNumber s i seq := of_decide_eq_true checked
    exact fresh
  next i entries =>
    have lists : ListsReserved s i entries := of_decide_eq_true checked
    exact lists
  next unreserved unlisted =>
    unfold HonestStore
    split
    · exact absurd rfl (unreserved _ _)
    · exact absurd rfl (unlisted _ _)
    · trivial

structure RankWf (shared : Bool) (s : CountState) : Prop where
  apart (i j : Nat) (a b : Admission) (n : Nat) : s.admissions[i]? = some a →
    s.admissions[j]? = some b → a.key = b.key → a.seq = some n → b.seq = some n → i = j
  begun (i : Nat) (a : Admission) : s.admissions[i]? = some a → a.pc = .begun → a.seq = none
  reconciles (i : Nat) (a : Admission) : s.admissions[i]? = some a → a.pc.reconciles = true →
    strict a.max = false
  unreserved (i : Nat) (a : Admission) : s.admissions[i]? = some a → shared = true →
    strict a.max = true → a.pc = .incrementing ∨ a.pc = .building → a.seq = none →
    a.failedOpen = true
  ranked (i : Nat) (a : Admission) : s.admissions[i]? = some a → shared = true →
    strict a.max = true → a.pc.granted = true → a.failedOpen = false →
    ∃ n, a.seq = some n ∧ s.admissions.countP (Admission.reservesBelow a.key n) < a.max

section Step

variable {shared : Bool} {s next : CountState} {i : Nat} {a later : Admission}
  {event : AdmissionEvent} {action : CountAction} {counts : HashMap String Nat} {key : String}
  {n : Nat}

theorem AdmissionPc.reserves_of_live {pc : AdmissionPc} (live : pc.live = true) :
    pc.reserves = true := by
  cases pc <;> first | rfl | simp [AdmissionPc.live] at live

theorem AdmissionPc.reconciles_of_granted {pc : AdmissionPc} (granted : pc.granted = true) :
    pc.reconciles = false := by
  cases pc <;> first | rfl | simp [AdmissionPc.granted] at granted

/-- A reservation is taken by an answer of the store only. -/
theorem AdmissionMove.seq_cases (move : AdmissionMove shared s a event later counts) :
    later.seq = a.seq ∨
      a.pc = .reserving ∧ ∃ answer, event = .reserved answer ∧ later.seq = answer := by
  cases move with
  | quiet step _ =>
      cases step with
      | reserved answer pc => exact Or.inr ⟨pc, answer, rfl, rfl⟩
      | _ => exact Or.inl rfl
  | _ => exact Or.inl rfl

theorem AdmissionStep.reserves_before (step : AdmissionStep shared a event later)
    (reserves : later.pc.reserves = true) :
    a.pc.reserves = true ∨ ∃ answer, event = .reserved answer ∧ later.seq = answer := by
  cases step with
  | denied _ | consulted _ _ _ | cancelled _ | dropped _ =>
      simp [AdmissionPc.reserves, AdmissionPc.live] at reserves
  | reserved answer _ => exact Or.inr ⟨answer, rfl, rfl⟩
  | built pc | ranked pc _ _ => exact Or.inl (by rw [pc]; rfl)
  | failed live => exact Or.inl (AdmissionPc.reserves_of_live live)
  | reconciled reconciles _ =>
      exact Or.inl (AdmissionPc.reserves_of_live (AdmissionPc.live_of_reconciles reconciles))
  | accepted granted _ =>
      exact Or.inl (AdmissionPc.reserves_of_live (AdmissionPc.live_of_granted granted))

theorem Admission.reservesBelow_iff : a.reservesBelow key n = true ↔
    a.key = key ∧ a.pc.reserves = true ∧ ∃ m, a.seq = some m ∧ m < n := by
  simp only [Admission.reservesBelow, Bool.and_eq_true, decide_eq_true_eq, Option.any_eq_true]
  constructor
  · rintro ⟨⟨same, reserves⟩, m, seq, less⟩
    exact ⟨same, reserves, m, seq, less⟩
  · rintro ⟨same, reserves, m, seq, less⟩
    exact ⟨⟨same, reserves⟩, m, seq, less⟩

theorem RankWf.below_move (wf : RankWf shared s) (present : s.admissions[i]? = some a)
    (move : AdmissionMove shared s a event later counts)
    (below : later.reservesBelow key n = true) :
    a.reservesBelow key n = true ∨ a.key = key ∧ ∃ m, event = .reserved (some m) ∧ m < n := by
  obtain ⟨same, reserves, m, seq, less⟩ := Admission.reservesBelow_iff.mp below
  have sameKey : a.key = key := move.same.1 ▸ same
  rcases move.seq_cases with kept | ⟨_, answer, happened, got⟩
  · have before : a.pc.reserves = true → a.reservesBelow key n = true := fun holds =>
      Admission.reservesBelow_iff.mpr ⟨sameKey, holds, m, kept ▸ seq, less⟩
    cases move with
    | quiet step _ =>
        rcases step.reserves_before reserves with held | ⟨answer, rfl, got⟩
        · exact Or.inl (before held)
        · exact Or.inr ⟨sameKey, m, by rw [← got, seq], less⟩
    | gated pc _ _ =>
        simp [wf.begun i a present pc] at seq
    | counted pc => exact Or.inl (before (by rw [pc]; rfl))
    | decremented _ | removed _ => simp [AdmissionPc.reserves, AdmissionPc.live] at reserves
  · exact Or.inr ⟨sameKey, m, by rw [happened, ← got, seq], less⟩

/-- Reservations below a number that was given are only released. -/
theorem RankWf.below_step (wf : RankWf shared s) (move : CountMove shared s next action)
    (honest : HonestStore s action) {b : Admission} (inside : b ∈ s.admissions)
    (reserved : b.seq = some n) :
    next.admissions.countP (Admission.reservesBelow b.key n) ≤
      s.admissions.countP (Admission.reservesBelow b.key n) := by
  cases move with
  | idle eq =>
      subst eq
      exact le_rfl
  | begun eq =>
      subst eq
      rw [List.countP_append, List.countP_singleton]
      simp [Admission.reservesBelow]
  | @moved i event a later present move admissions =>
      rw [admissions]
      refine countP_set_le present ?_
      intro below
      rcases wf.below_move present move below with held | ⟨sameKey, m, rfl, less⟩
      · exact held
      · have fresh := honest a present b inside sameKey.symm n reserved
        omega

/-- An honest list ranks an admission behind every reservation numbered before it. -/
theorem RankWf.below_le_rank (wf : RankWf shared s) (present : s.admissions[i]? = some a)
    (pc : a.pc = .listing) (reserved : a.seq = some n) {entries : List UserLimitEntry}
    (honest : ListsReserved s i entries) :
    s.admissions.countP (Admission.reservesBelow a.key n) ≤ slotRank entries n a.jobId := by
  obtain ⟨own, ownIn, ownSeq, ownJob⟩ :=
    honest a present a (List.mem_of_getElem? present) rfl (by rw [pc]; rfl) n reserved
  have member : toLex (n, a.jobId) ∈
      entries.map (fun entry : UserLimitEntry => toLex (entry.seq, entry.jobId)) :=
    List.mem_map.mpr ⟨own, ownIn, by rw [ownSeq, ownJob]⟩
  have apart : Separates (Admission.reservesBelow a.key n) Admission.seq s.admissions := by
    intro j k left right leftIn rightIn leftBelow rightBelow same
    obtain ⟨leftKey, _, m, leftSeq, _⟩ := Admission.reservesBelow_iff.mp leftBelow
    obtain ⟨rightKey, _, _⟩ := Admission.reservesBelow_iff.mp rightBelow
    exact wf.apart j k left right m leftIn rightIn (leftKey.trans rightKey.symm) leftSeq
      (same ▸ leftSeq)
  rw [slotRank, rankIn_eq_countP member, Option.getD_some, List.countP_map]
  refine countP_le_countP (g := fun entry : UserLimitEntry => some entry.seq) apart ?_
  intro b inside below
  obtain ⟨same, reserves, m, seq, less⟩ := Admission.reservesBelow_iff.mp below
  obtain ⟨entry, entryIn, entrySeq, _⟩ := honest a present b inside same reserves m seq
  refine ⟨entry, entryIn, ?_, by rw [entrySeq, seq]⟩
  simp only [Function.comp_apply, decide_eq_true_eq, Prod.Lex.toLex_lt_toLex]
  exact Or.inl (by omega)

theorem RankWf.apart_step (wf : RankWf shared s) (move : CountMove shared s next action)
    (honest : HonestStore s action) (j k : Nat) (left right : Admission) (n : Nat)
    (leftIn : next.admissions[j]? = some left) (rightIn : next.admissions[k]? = some right)
    (same : left.key = right.key) (leftSeq : left.seq = some n) (rightSeq : right.seq = some n) :
    j = k := by
  cases move with
  | idle eq =>
      subst eq
      exact wf.apart j k left right n leftIn rightIn same leftSeq rightSeq
  | begun eq =>
      subst eq
      rcases getElem?_of_snoc leftIn with leftOld | ⟨_, rfl⟩
      · rcases getElem?_of_snoc rightIn with rightOld | ⟨_, rfl⟩
        · exact wf.apart j k left right n leftOld rightOld same leftSeq rightSeq
        · simp at rightSeq
      · simp at leftSeq
  | @moved i event a later present move admissions =>
      rw [admissions] at leftIn rightIn
      have other : ∀ (l : Nat) (b : Admission), l ≠ i → s.admissions[l]? = some b →
          b.key = later.key → b.seq = some n → later.seq = some n → False := by
        intro l b away known sameKey seq laterSeq
        rcases move.seq_cases with kept | ⟨_, answer, rfl, got⟩
        · exact away (wf.apart l i b a n known present (sameKey.trans move.same.1) seq
            (kept ▸ laterSeq))
        · rw [laterSeq] at got
          subst got
          have fresh := honest a present b (List.mem_of_getElem? known)
            (sameKey.trans move.same.1) n seq
          omega
      rcases getElem?_of_set leftIn with ⟨rfl, rfl⟩ | ⟨leftAway, leftOld⟩
      · rcases getElem?_of_set rightIn with ⟨rfl, _⟩ | ⟨rightAway, rightOld⟩
        · rfl
        · exact (other k right rightAway rightOld same.symm rightSeq leftSeq).elim
      · rcases getElem?_of_set rightIn with ⟨rfl, rfl⟩ | ⟨_, rightOld⟩
        · exact (other j left leftAway leftOld same leftSeq rightSeq).elim
        · exact wf.apart j k left right n leftOld rightOld same leftSeq rightSeq

theorem AdmissionStep.not_begun (step : AdmissionStep shared a event later) :
    later.pc ≠ .begun := by
  intro begun
  cases step with
  | built _ =>
      have live := builtPc_live shared a
      rw [show builtPc shared a = .begun from begun] at live
      simp [AdmissionPc.live] at live
  | reconciled _ onward =>
      subst begun
      simp [AdmissionPc.reconciles] at onward
  | accepted _ onward =>
      subst begun
      simp [AdmissionPc.granted] at onward
  | _ => simp at begun

/-- An admission after a step: as it was, new, or moved by the step. -/
theorem CountMove.admission_cases (move : CountMove shared s next action) {j : Nat} {b : Admission}
    (present : next.admissions[j]? = some b) :
    s.admissions[j]? = some b ∨ b.pc = .begun ∧ b.seq = none ∨
      ∃ event a counts, action = .event j event ∧ s.admissions[j]? = some a ∧
        AdmissionMove shared s a event b counts := by
  cases move with
  | idle eq =>
      subst eq
      exact Or.inl present
  | begun eq =>
      subst eq
      rcases getElem?_of_snoc present with old | ⟨_, rfl⟩
      · exact Or.inl old
      · exact Or.inr (Or.inl ⟨rfl, rfl⟩)
  | @moved i event a later known move admissions =>
      rw [admissions] at present
      rcases getElem?_of_set present with ⟨rfl, rfl⟩ | ⟨_, old⟩
      · exact Or.inr (Or.inr ⟨event, a, _, rfl, known, move⟩)
      · exact Or.inl old

theorem RankWf.begun_step (wf : RankWf shared s) (move : CountMove shared s next action)
    (j : Nat) (b : Admission) (present : next.admissions[j]? = some b) (begun : b.pc = .begun) :
    b.seq = none := by
  rcases move.admission_cases present with old | ⟨_, empty⟩ | ⟨event, a, _, _, known, move⟩
  · exact wf.begun j b old begun
  · exact empty
  · cases move with
    | quiet step _ => exact absurd begun step.not_begun
    | _ => simp at begun

theorem builtPc_reconciles (reconciles : (builtPc shared a).reconciles = true) :
    strict a.max = false := by
  unfold builtPc at reconciles
  split at reconciles
  · simp [AdmissionPc.reconciles] at reconciles
  · split at reconciles
    · split at reconciles <;> simp [AdmissionPc.reconciles] at reconciles
    next lenient => simpa using lenient

theorem RankWf.reconciles_step (wf : RankWf shared s) (move : CountMove shared s next action)
    (j : Nat) (b : Admission) (present : next.admissions[j]? = some b)
    (reconciles : b.pc.reconciles = true) : strict b.max = false := by
  rcases move.admission_cases present with old | ⟨begun, _⟩ | ⟨event, a, _, _, known, move⟩
  · exact wf.reconciles j b old reconciles
  · simp [begun, AdmissionPc.reconciles] at reconciles
  · cases move with
    | quiet step _ =>
        cases step with
        | built _ => exact builtPc_reconciles reconciles
        | reconciled before _ => exact wf.reconciles j a known before
        | accepted _ onward =>
            simp [AdmissionPc.reconciles_of_granted onward] at reconciles
        | _ => simp [AdmissionPc.reconciles] at reconciles
    | _ => simp [AdmissionPc.reconciles] at reconciles

theorem RankWf.unreserved_step (wf : RankWf shared s) (move : CountMove shared s next action)
    (j : Nat) (b : Admission) (present : next.admissions[j]? = some b) (isShared : shared = true)
    (isStrict : strict b.max = true) (pc : b.pc = .incrementing ∨ b.pc = .building)
    (empty : b.seq = none) : b.failedOpen = true := by
  rcases move.admission_cases present with old | ⟨begun, _⟩ | ⟨event, a, _, _, known, move⟩
  · exact wf.unreserved j b old isShared isStrict pc empty
  · simp [begun] at pc
  · cases move with
    | quiet step _ =>
        have lively : b.pc.live = true → b.failedOpen = true := by
          intro live
          rcases pc with pc | pc
          · rw [pc] at live
            simp [AdmissionPc.live] at live
          · rw [pc] at live
            simp [AdmissionPc.live] at live
        cases step with
        | reserved answer _ =>
            simp only at empty
            simp [empty]
        | built _ => exact lively (builtPc_live shared a)
        | reconciled _ onward =>
            rcases onward with reconciling | rfl
            · exact lively (AdmissionPc.live_of_reconciles reconciling)
            · exact lively rfl
        | accepted _ onward => exact lively (AdmissionPc.live_of_granted onward)
        | _ => simp at pc
    | gated _ gate _ => simp [isShared, isStrict] at gate
    | counted before => exact wf.unreserved j a known isShared isStrict (Or.inl before) empty
    | _ => simp at pc

theorem RankWf.ranked_step (wf : RankWf shared s) (move : CountMove shared s next action)
    (honest : HonestStore s action) (j : Nat) (b : Admission)
    (present : next.admissions[j]? = some b) (isShared : shared = true)
    (isStrict : strict b.max = true) (granted : b.pc.granted = true)
    (closed : b.failedOpen = false) :
    ∃ n, b.seq = some n ∧ next.admissions.countP (Admission.reservesBelow b.key n) < b.max := by
  rcases move.admission_cases present with old | ⟨begun, _⟩ | ⟨event, a, _, rfl, known, moved⟩
  · obtain ⟨n, seq, below⟩ := wf.ranked j b old isShared isStrict granted closed
    have fewer := wf.below_step move honest (List.mem_of_getElem? old) seq
    exact ⟨n, seq, by omega⟩
  · simp [begun, AdmissionPc.granted] at granted
  · cases moved with
    | quiet step _ =>
        cases step with
        | built pc =>
            have unreserved : a.seq = none := by
              simp only [builtPc, isShared, Bool.true_eq_false, if_false, isStrict, if_true]
                at granted
              split at granted
              · simp [AdmissionPc.granted] at granted
              next empty => exact empty
            have opened := wf.unreserved j a known isShared isStrict (Or.inr pc) unreserved
            simp [opened] at closed
        | @ranked entries n pc seq below =>
            have rank := wf.below_le_rank known pc seq honest
            have fewer := wf.below_step move honest (List.mem_of_getElem? known) seq
            refine ⟨n, seq, ?_⟩
            simp only
            omega
        | failed _ => simp at closed
        | reconciled before _ =>
            have lenient := wf.reconciles j a known before
            simp [isStrict] at lenient
        | accepted before _ =>
            obtain ⟨n, seq, below⟩ := wf.ranked j a known isShared isStrict before closed
            have fewer := wf.below_step move honest (List.mem_of_getElem? known) seq
            refine ⟨n, seq, ?_⟩
            simp only
            omega
        | _ => simp [AdmissionPc.granted] at granted
    | _ => simp [AdmissionPc.granted] at granted

theorem RankWf.step (wf : RankWf shared s) (move : CountMove shared s next action)
    (honest : HonestStore s action) : RankWf shared next := by
  constructor
  · exact wf.apart_step move honest
  · exact wf.begun_step move
  · exact wf.reconciles_step move
  · exact wf.unreserved_step move
  · exact wf.ranked_step move honest

end Step

theorem RankWf.initial (shared : Bool) (now : Nat) : RankWf shared (CountState.new now) := by
  constructor
  · intro i j a b n present
    simp [CountState.new] at present
  · intro i a present
    simp [CountState.new] at present
  · intro i a present
    simp [CountState.new] at present
  · intro i a present
    simp [CountState.new] at present
  · intro i a present
    simp [CountState.new] at present

section Cap

variable {shared : Bool} {s : CountState} {user : String} {max now : Nat}

theorem Admission.rankedFor_iff {a : Admission} : a.rankedFor user = true ↔
    a.key = user ∧ a.pc.granted = true ∧ a.failedOpen = false := by
  simp only [Admission.rankedFor, Admission.grantedFor, Bool.and_eq_true, decide_eq_true_eq,
    Bool.not_eq_true', and_assoc]

theorem RankWf.rankedFor_le (wf : RankWf shared s) (isShared : shared = true)
    (isStrict : strict max = true)
    (oneCeiling : ∀ a ∈ s.admissions, a.key = user → a.max = max) :
    s.admissions.countP (Admission.rankedFor user) ≤ max := by
  have ranked : ∀ a ∈ s.admissions, a.rankedFor user = true → ∃ n, a.seq = some n ∧
      s.admissions.countP (Admission.reservesBelow user n) < max := by
    intro a inside holds
    obtain ⟨same, granted, closed⟩ := Admission.rankedFor_iff.mp holds
    obtain ⟨i, present⟩ := List.mem_iff_getElem?.mp inside
    have ceiling := oneCeiling a inside same
    have found := wf.ranked i a present isShared (ceiling ▸ isStrict) granted closed
    rwa [same, ceiling] at found
  refine countP_le_of_rank_lt (f := fun a : Admission => a.seq.getD 0) ?_ ?_
  · intro i j left right leftIn rightIn leftHolds rightHolds same
    obtain ⟨m, leftSeq, _⟩ := ranked left (List.mem_of_getElem? leftIn) leftHolds
    obtain ⟨n, rightSeq, _⟩ := ranked right (List.mem_of_getElem? rightIn) rightHolds
    simp only [leftSeq, rightSeq, Option.getD_some] at same
    subst same
    refine wf.apart i j left right m leftIn rightIn ?_ leftSeq rightSeq
    exact (Admission.rankedFor_iff.mp leftHolds).1.trans (Admission.rankedFor_iff.mp rightHolds).1.symm
  · intro a inside holds
    obtain ⟨n, seq, below⟩ := ranked a inside holds
    refine Nat.lt_of_le_of_lt ?_ below
    apply List.countP_mono_left
    intro b member both
    rw [Bool.and_eq_true] at both
    obtain ⟨m, otherSeq, _⟩ := ranked b member both.1
    obtain ⟨same, granted, _⟩ := Admission.rankedFor_iff.mp both.1
    refine Admission.reservesBelow_iff.mpr ⟨same, ?_, m, otherSeq, ?_⟩
    · exact AdmissionPc.reserves_of_live (AdmissionPc.live_of_granted granted)
    · simpa [otherSeq, seq] using both.2

theorem CountState.granted_eq_add (s : CountState) (user : String) :
    s.grantedGuards user =
      s.admissions.countP (Admission.rankedFor user) + s.failedOpenGuards user := by
  have parts := List.countP_eq_countP_filter_add s.admissions (Admission.grantedFor user)
    fun a => !a.failedOpen
  rw [List.countP_filter, List.countP_filter] at parts
  simp only [Bool.not_not] at parts
  exact parts

theorem CountState.granted_le_live (s : CountState) (user : String) :
    s.grantedGuards user ≤ s.liveGuards user := by
  apply List.countP_mono_left
  intro a _ granted
  simp only [Admission.grantedFor, Bool.and_eq_true] at granted
  simp [Admission.guards, granted.1, AdmissionPc.live_of_granted granted.2]

/-- One ceiling for the user: where the local gate decides the live guards are within it
whatever the store does, and where the store decides the guards that `admit` returned are
within it but for those whose store call failed. -/
theorem guards_within_ceiling {shared : Bool} {now max : Nat} {user : String} {s : CountState}
    (reachable : Reachable (countStep shared) Always (CountState.new now) s)
    (oneCeiling : ∀ a ∈ s.admissions, a.key = user → a.max = max) :
    (shared = false ∨ strictMaxThreshold < max → s.liveGuards user ≤ max) ∧
    (Reachable (countStep shared) HonestStore (CountState.new now) s →
      s.grantedGuards user ≤ max + s.failedOpenGuards user) := by
  have gated : shared = false ∨ strictMaxThreshold < max → s.liveGuards user ≤ max := by
    intro gate
    refine (CountWf.reachable reachable).liveGuards_le ?_
    intro a inside same
    have ceiling := oneCeiling a inside same
    refine ⟨?_, ceiling.le⟩
    rcases gate with alone | above
    · exact Or.inl alone
    · exact Or.inr (by simpa [strict, ceiling] using above)
  refine ⟨gated, ?_⟩
  rintro ⟨actions, path⟩
  by_cases consults : shared = true ∧ strict max = true
  · have wf : RankWf shared s := by
      refine path.invariant (RankWf.initial shared now) ?_
      intro state action next wf honest taken
      exact wf.step (countStep_move taken) honest
    have ranked := wf.rankedFor_le consults.1 consults.2 oneCeiling
    rw [s.granted_eq_add]
    omega
  · have gate : shared = false ∨ strictMaxThreshold < max := by
      cases shared with
      | false => exact Or.inl rfl
      | true => exact Or.inr (by simpa [strict] using consults)
    have live := gated gate
    have granted := s.granted_le_live user
    omega

end Cap

namespace Scenario

/-- Two jobs of one user under the ceiling 1 whose reserve calls fail. -/
def reserveFailsTwice : List CountAction :=
  [.admission "ann" "a" 1, .admission "ann" "b" 1, .event 0 .step, .event 0 (.reserved none),
    .event 0 .step, .event 0 .step, .event 1 .step, .event 1 (.reserved none), .event 1 .step,
    .event 1 .step]

/-- A job that fails open at its list, one that is ranked, one that is outranked by both and
one that is still listing. -/
def listFailsOnce : List CountAction :=
  [.admission "ann" "a" 2, .admission "ann" "b" 2, .admission "ann" "c" 2, .admission "ann" "d" 2,
    .event 0 .step, .event 0 (.reserved (some 1)), .event 0 .step, .event 0 .step,
    .event 1 .step, .event 1 (.reserved (some 2)), .event 1 .step, .event 1 .step,
    .event 2 .step, .event 2 (.reserved (some 3)), .event 2 .step, .event 2 .step,
    .event 0 (.listed none),
    .event 1 (.listed (some [⟨"pool", "ann", "c", "bol-dev-0", 3, 0⟩,
      ⟨"pool", "ann", "b", "bol-dev-0", 2, 0⟩, ⟨"pool", "ann", "a", "bol-dev-0", 1, 0⟩])),
    .event 2 (.listed (some [⟨"pool", "ann", "c", "bol-dev-0", 3, 0⟩,
      ⟨"pool", "ann", "b", "bol-dev-0", 2, 0⟩, ⟨"pool", "ann", "a", "bol-dev-0", 1, 0⟩])),
    .event 3 .step, .event 3 (.reserved (some 4)), .event 3 .step, .event 3 .step]

end Scenario

open Scenario in
theorem guards_within_ceiling_listFailsOnce :
    ∃ s, Path (countStep true) HonestStore (CountState.new 0) listFailsOnce s ∧
      s.grantedGuards "ann" = 2 ∧ s.liveGuards "ann" = 3 ∧ s.failedOpenGuards "ann" = 1 ∧
      s.grantedGuards "ann" ≤ 2 + s.failedOpenGuards "ann" := by
  have ran : (run (fun s action => if honestStore s action then countStep true s action else none)
      (CountState.new 0) listFailsOnce).any (fun s =>
        decide (s.grantedGuards "ann" = 2 ∧ s.liveGuards "ann" = 3 ∧
          s.failedOpenGuards "ann" = 1 ∧ ∀ a ∈ s.admissions, a.max = 2)) = true := by
    decide +kernel
  obtain ⟨s, finished, checked⟩ := (Option.any_eq_true _ _).mp ran
  obtain ⟨granted, live, failed, ceiling⟩ := of_decide_eq_true checked
  have path := Path.of_run_if honestStore_sound _ _ finished
  have reachable : Reachable (countStep true) Always (CountState.new 0) s :=
    ⟨_, path.mono fun _ _ _ => trivial⟩
  have capped := guards_within_ceiling reachable fun a inside (_ : a.key = "ann") =>
    ceiling a inside
  exact ⟨s, path, granted, live, failed, capped.2 ⟨_, path⟩⟩

open Scenario in
theorem guards_beyond_ceiling_reserveFails :
    ¬ ∀ (max : Nat) (user : String) (s : CountState), 1 ≤ max →
      Reachable (countStep true) Always (CountState.new 0) s →
      (∀ a ∈ s.admissions, a.key = user → a.max = max) → s.liveGuards user ≤ max := by
  intro capped
  have ran : (run (countStep true) (CountState.new 0) reserveFailsTwice).any (fun s =>
      decide (s.liveGuards "ann" = 2 ∧ ∀ a ∈ s.admissions, a.max = 1)) = true := by
    decide +kernel
  obtain ⟨s, finished, checked⟩ := (Option.any_eq_true _ _).mp ran
  obtain ⟨two, ceiling⟩ := of_decide_eq_true checked
  have bound := capped 1 "ann" s le_rfl ⟨_, Path.of_run _ _ finished⟩ fun a inside _ =>
    ceiling a inside
  omega

end BitsBroker
