import BitsBroker.Dispatcher.ItemOwnership

/-!
Who took an item out of the pending map. An item is taken out at most once: it can be taken only
while it is in the map, and nobody else holds it then. `remover` names the one who took it, and the
holder of an item is in accord with it, whatever the identifiers of the jobs are.
-/

namespace BitsBroker

open Transition Table

variable {T : Type}

structure ItemOk (remover : Option Remover) (item : Item T) : Prop where
  starts : item.starts ≤ 1
  unstarted : item.work = .unbuilt ∨ item.work = .live → item.starts = 0
  freed : item.work.ended = true → item.slot = false
  observed : item.observed = true → item.starts = 0 ∧ item.work.ended = true
  sent (sender : Remover) (value : Except ActionError T) : item.reply = .sent sender value →
    remover = some sender
  spawned : item.spawned = true → remover = some .executor

section Local

variable {remover : Option Remover} {c : Nat} {item changed : Item T} {phase : WorkPhase}
  {s : DispatcherState T}

theorem Reply.sent_of_send {reply : Reply T} {received : Bool} {sender by_ : Remover}
    {value result : Except ActionError T}
    (is : reply.send received sender value = .sent by_ result) :
    reply = .sent by_ result ∨ by_ = sender := by
  unfold Reply.send at is
  split at is
  · split at is
    · simp only [Reply.sent.injEq] at is
      exact Or.inr is.1.symm
    · simp at is
  · exact Or.inl is

theorem Reply.sent_of_drop {reply : Reply T} {by_ : Remover} {result : Except ActionError T}
    (is : reply.drop = .sent by_ result) : reply = .sent by_ result := by
  unfold Reply.drop at is
  split at is
  · simp at is
  · exact is

theorem Reply.send_of_ne {reply : Reply T} (used : reply ≠ .waiting) (received : Bool)
    (sender : Remover) (value : Except ActionError T) :
    reply.send received sender value = reply := by
  unfold Reply.send
  split
  · exact absurd rfl used
  · rfl

theorem ItemOk.discard (ok : ItemOk remover item) : ItemOk remover item.discard where
  starts := ok.starts
  unstarted := by simp [Item.discard]
  freed := fun _ => rfl
  observed := fun observed => ⟨(ok.observed observed).1, rfl⟩
  sent := fun sender value is => ok.sent sender value (Reply.sent_of_drop is)
  spawned := ok.spawned

/-- Only the executor that took an item changes it while holding it. -/
theorem ItemOk.held {kept : Option WorkPhase} (ok : ItemOk (some .executor) item)
    (work : item.work = phase) (step : HeldStep phase item changed kept) :
    ItemOk (some .executor) changed := by
  cases step with
  | unpermitted | claimed | spawned =>
      exact ⟨ok.starts, ok.unstarted, ok.freed, ok.observed, ok.sent, fun _ => rfl⟩
  | discarded => exact ok.discard
  | started =>
      have none := ok.unstarted (Or.inr work)
      refine ⟨by simp [none], by simp, by simp [WorkPhase.ended], ?_, ok.sent, ok.spawned⟩
      intro observed
      have ended := (ok.observed observed).2
      simp [work, WorkPhase.ended] at ended
  | observed =>
      have none := ok.unstarted (Or.inr work)
      exact ⟨ok.starts, by simp [Item.endWork], fun _ => rfl, fun _ => ⟨none, rfl⟩, ok.sent,
        ok.spawned⟩
  | finished | left =>
      exact ⟨ok.starts, by simp [Item.endWork], fun _ => rfl,
        fun observed => ⟨(ok.observed observed).1, rfl⟩, ok.sent, ok.spawned⟩
  | sent _ =>
      refine ⟨ok.starts, ok.unstarted, ok.freed, ok.observed, ?_, ok.spawned⟩
      intro sender value is
      rcases Reply.sent_of_send is with old | rfl
      · exact ok.sent sender value old
      · rfl

theorem ItemOk.loose (ok : ItemOk remover item) (step : LooseStep s c item changed)
    (stranded : s.Stranded c → remover = some .closer) : ItemOk remover changed := by
  cases step with
  | settled => exact ⟨ok.starts, ok.unstarted, ok.freed, ok.observed, ok.sent, ok.spawned⟩
  | forwarded spawned =>
      refine ⟨ok.starts, ok.unstarted, ok.freed, ok.observed, ?_, by simp⟩
      intro sender value is
      rcases Reply.sent_of_send is with old | rfl
      · exact ok.sent sender value old
      · exact ok.spawned spawned
  | closed waiting =>
      refine ⟨ok.starts, ok.unstarted, ok.freed, ok.observed, ?_, ok.spawned⟩
      intro sender value is
      rcases Reply.sent_of_send is with old | rfl
      · exact ok.sent sender value old
      · exact stranded waiting

/-- The first remover of an item. -/
theorem ItemOk.taken (ok : ItemOk none item) (sender : Remover) : ItemOk (some sender) item := by
  refine ⟨ok.starts, ok.unstarted, ok.freed, ok.observed, ?_, ?_⟩
  · intro by_ value is
    have never := ok.sent by_ value is
    simp at never
  · intro spawned
    have never := ok.spawned spawned
    simp at never

theorem HeldStep.reply_used {kept : Option WorkPhase} (step : HeldStep phase item changed kept)
    (used : item.reply ≠ .waiting) : changed.reply = item.reply := by
  cases step with
  | sent _ => exact Reply.send_of_ne used _ _ _
  | discarded =>
      unfold Item.discard Reply.drop
      split
      next is => exact absurd is used
      next => rfl
  | _ => rfl

end Local

structure TakenWf (s : DispatcherState T) : Prop where
  owned : Owned s
  mapped (jobId : String) (c : Nat) (phase : WorkPhase) :
    s.holding (.map jobId) = some (c, phase) → s.remover c = none
  early (i : Nat) (caller : Caller T) : s.callers[i]? = some caller → caller.pc.early = true →
    s.remover i = none
  items (c : Nat) (item : Item T) : s.items[c]? = some item → ItemOk (s.remover c) item
  executors (p : Place) (c : Nat) (phase : WorkPhase) :
    (∃ i, p = .worker i) ∨ (∃ i, p = .handler i) → s.holding p = some (c, phase) →
    s.remover c = some .executor
  stranded (c : Nat) : s.Stranded c → s.remover c = some .closer
  unmade (c : Nat) : s.items.length ≤ c → s.remover c = none

section Step

variable {cfg : DispatcherConfig T} {s next : DispatcherState T} {action : DispatcherAction T}
  {i c : Nat} {caller : Caller T} {item : Item T} {phase : WorkPhase} {jobId : String}

theorem TakenWf.item_of_map (wf : TakenWf s) (found : s.holding (.map jobId) = some (c, phase))
    (known : s.items[c]? = some item) : ItemOk none item := by
  exact wf.mapped jobId c phase found ▸ wf.items c item known

theorem TakenWf.items_step (wf : TakenWf s) (move : Move cfg s next action) (c : Nat)
    (item : Item T) (known : next.items[c]? = some item) : ItemOk (next.remover c) item := by
  have removed : ∀ {jobId : String} {d : Nat} {phase : WorkPhase} {sender : Remover},
      s.holding (.map jobId) = some (d, phase) →
      next.remover = Function.update s.remover d (some sender) →
      ∀ {e : Nat} {found : Item T}, s.items[e]? = some found → ItemOk (next.remover e) found := by
    intro jobId d phase sender held remover e found present
    rw [remover]
    by_cases same : e = d
    · subst same
      rw [Function.update_self]
      exact (wf.item_of_map held present).taken sender
    · rw [Function.update_of_ne same]
      exact wf.items e found present
  cases move with
  | idle quiet items _ _ | moved _ _ _ _ _ items quiet _ | inserted _ _ _ _ _ items quiet _ =>
      rw [items] at known
      rw [quiet.remover]
      exact wf.items c item known
  | dispatched _ _ items quiet _ =>
      rw [items] at known
      rw [quiet.remover]
      rcases getElem?_of_snoc known with old | ⟨last, rfl⟩
      · exact wf.items c item old
      · rw [wf.unmade c (by omega)]
        constructor <;> simp [Item.new, WorkPhase.ended]
  | admitted present old pc _ _ _ items remover _ _ =>
      rw [items] at known
      rw [remover]
      rcases getElem?_of_set known with ⟨rfl, rfl⟩ | ⟨_, away⟩
      · have ok := wf.items c _ old
        have unbuilt := wf.owned.unbuilt c _ _ present old (by rw [pc]; rfl)
        refine ⟨ok.starts, ok.unstarted, ?_, ok.observed, ok.sent, ok.spawned⟩
        simp [unbuilt, WorkPhase.ended]
      · exact wf.items c item away
  | acquired present old _ _ items quiet _ =>
      rw [items] at known
      rw [quiet.remover]
      rcases getElem?_of_set known with ⟨rfl, rfl⟩ | ⟨_, away⟩
      · have ok := wf.items c _ old
        exact ⟨ok.starts, ok.unstarted, ok.freed, ok.observed, ok.sent, ok.spawned⟩
      · exact wf.items c item away
  | built present old pc _ items quiet _ =>
      rw [items] at known
      rw [quiet.remover]
      rcases getElem?_of_set known with ⟨rfl, rfl⟩ | ⟨_, away⟩
      · have ok := wf.items c _ old
        have unbuilt := wf.owned.unbuilt c _ _ present old (by rw [pc]; rfl)
        have none := ok.unstarted (Or.inl unbuilt)
        refine ⟨ok.starts, fun _ => none, by simp [WorkPhase.ended], ?_, ok.sent, ok.spawned⟩
        intro observed
        have ended := (ok.observed observed).2
        simp [unbuilt, WorkPhase.ended] at ended
      · exact wf.items c item away
  | refused _ old _ _ _ items _ remover _ _ | displaced _ _ old _ items _ remover _ _
  | abandoned _ _ old _ items _ remover _ _ =>
      rw [items] at known
      rw [remover]
      rcases getElem?_of_set known with ⟨rfl, rfl⟩ | ⟨_, away⟩
      · exact (wf.items c _ old).discard
      · exact wf.items c item away
  | recalled _ _ _ held _ items _ remover _ _ | taken _ _ held _ items _ remover _ _ =>
      rw [items] at known
      exact removed held remover known
  | held place before old step _ items _ remover _ _ _ =>
      rw [items] at known
      rw [remover]
      rcases getElem?_of_set known with ⟨rfl, rfl⟩ | ⟨_, away⟩
      · have ok := wf.items c _ old
        have executes := wf.executors _ c _ place before
        rw [executes] at ok ⊢
        exact ok.held (wf.owned.work_eq before old) step
      · exact wf.items c item away
  | loose old step _ items quiet _ =>
      rw [items] at known
      rw [quiet.remover]
      rcases getElem?_of_set known with ⟨rfl, rfl⟩ | ⟨_, away⟩
      · exact (wf.items c _ old).loose step (wf.stranded c)
      · exact wf.items c item away
  | drained before old _ items _ remover _ _ _ =>
      rw [items] at known
      rcases getElem?_of_set known with ⟨rfl, rfl⟩ | ⟨_, away⟩
      · have ok := removed before remover old
        exact ⟨ok.starts, by simp [Item.endWork], fun _ => rfl,
          fun observed => ⟨(ok.observed observed).1, rfl⟩, ok.sent, ok.spawned⟩
      · exact removed before remover away

/-- Removing an item from the map leaves every other item with its remover. -/
theorem TakenWf.remover_kept (wf : TakenWf s) (move : Move cfg s next action) {sender : Remover}
    (removed : s.remover c = some sender) : next.remover c = some sender := by
  have updated : ∀ {jobId : String} {d : Nat} {phase : WorkPhase} {by_ : Remover},
      s.holding (.map jobId) = some (d, phase) →
      next.remover = Function.update s.remover d (some by_) → next.remover c = some sender := by
    intro jobId d phase by_ held remover
    have unremoved := wf.mapped jobId d phase held
    have different : c ≠ d := by
      rintro rfl
      simp [unremoved] at removed
    rw [remover, Function.update_of_ne different, removed]
  cases move with
  | idle quiet _ _ _ | dispatched _ _ _ quiet _ | moved _ _ _ _ _ _ quiet _
  | acquired _ _ _ _ _ quiet _ | built _ _ _ _ _ quiet _ | inserted _ _ _ _ _ _ quiet _
  | loose _ _ _ _ quiet _ => rw [quiet.remover, removed]
  | admitted _ _ _ _ _ _ _ remover _ _ | refused _ _ _ _ _ _ _ remover _ _
  | displaced _ _ _ _ _ _ remover _ _ | abandoned _ _ _ _ _ _ remover _ _
  | held _ _ _ _ _ _ _ remover _ _ _ => rw [remover, removed]
  | recalled _ _ _ held _ _ _ remover _ _ | taken _ _ held _ _ _ remover _ _
  | drained held _ _ _ _ remover _ _ _ => exact updated held remover

theorem TakenWf.executors_step (wf : TakenWf s) (move : Move cfg s next action) (p : Place)
    (c : Nat) (phase : WorkPhase) (place : (∃ i, p = .worker i) ∨ (∃ i, p = .handler i))
    (found : next.holding p = some (c, phase)) : next.remover c = some .executor := by
  have notCall : ∀ i, p ≠ .call i := by
    rintro i rfl
    simp at place
  have notMap : ∀ jobId, p ≠ .map jobId := by
    rintro jobId rfl
    simp at place
  have old : s.holding p = some (c, phase) → next.remover c = some .executor :=
    fun before => wf.remover_kept move (wf.executors p c phase place before)
  cases move with
  | idle _ _ _ holds | dispatched _ _ _ _ holds | moved _ _ _ _ _ _ _ holds
  | admitted _ _ _ _ _ _ _ _ _ holds | acquired _ _ _ _ _ _ holds | loose _ _ _ _ _ holds =>
      exact old ((holds p).symm.trans found)
  | refused _ _ _ _ _ _ _ _ _ holds | displaced _ _ _ _ _ _ _ _ holds
  | abandoned _ _ _ _ _ _ _ _ holds | built _ _ _ _ _ _ holds =>
      rw [holds, if_neg (notCall _)] at found
      exact old found
  | inserted _ _ _ _ _ _ _ holds | recalled _ _ _ _ _ _ _ _ _ holds =>
      rw [holds, if_neg (notCall _), if_neg (notMap _)] at found
      exact old found
  | drained _ _ _ _ _ _ _ _ holds =>
      rw [holds, if_neg (notMap _)] at found
      exact old found
  | taken _ _ _ _ _ _ remover _ holds =>
      rw [holds] at found
      split at found
      · simp only [Option.some.injEq, Prod.mk.injEq] at found
        obtain ⟨rfl, _⟩ := found
        rw [remover, Function.update_self]
      · rw [if_neg (notMap _)] at found
        exact old found
  | @held q d _ _ _ _ _ executes before _ _ _ _ _ remover _ _ holds =>
      rw [holds] at found
      split at found
      · simp only [Option.map_eq_some_iff, Prod.mk.injEq] at found
        obtain ⟨_, _, rfl, _⟩ := found
        rw [remover]
        exact wf.executors q d _ executes before
      · exact old found

theorem TakenWf.stranded_step (wf : TakenWf s) (move : Move cfg s next action) (c : Nat)
    (found : next.Stranded c) : next.remover c = some .closer := by
  have old : s.Stranded c → next.remover c = some .closer :=
    fun before => wf.remover_kept move (wf.stranded c before)
  cases move with
  | idle quiet _ _ _ | dispatched _ _ _ quiet _ | moved _ _ _ _ _ _ quiet _
  | acquired _ _ _ _ _ quiet _ | built _ _ _ _ _ quiet _ | inserted _ _ _ _ _ _ quiet _
  | loose _ _ _ _ quiet _ => exact old (quiet.stranded c found)
  | admitted _ _ _ _ _ _ _ _ calm _ | refused _ _ _ _ _ _ _ _ calm _
  | displaced _ _ _ _ _ _ _ calm _ | abandoned _ _ _ _ _ _ _ calm _
  | recalled _ _ _ _ _ _ _ _ calm _ | taken _ _ _ _ _ _ _ calm _ =>
      exact old (calm.stranded c found)
  | held _ _ _ _ _ _ _ _ _ stranded _ => exact old (stranded c found)
  | drained _ _ _ _ _ remover _ stranded _ =>
      rcases stranded c found with before | rfl
      · exact old before
      · rw [remover, Function.update_self]

theorem TakenWf.unmade_step (wf : TakenWf s) (move : Move cfg s next action) (c : Nat)
    (beyond : next.items.length ≤ c) : next.remover c = none := by
  have updated : ∀ {jobId : String} {d : Nat} {phase : WorkPhase} {by_ : Remover},
      s.holding (.map jobId) = some (d, phase) →
      next.remover = Function.update s.remover d (some by_) →
      next.items.length = s.items.length → next.remover c = none := by
    intro jobId d phase by_ held remover length
    obtain ⟨item, known, _⟩ := wf.owned.held _ d phase held
    have bound := (List.getElem?_eq_some_iff.mp known).1
    rw [remover, Function.update_of_ne (by omega)]
    exact wf.unmade c (by omega)
  cases move with
  | idle quiet items _ _ | moved _ _ _ _ _ items quiet _ | inserted _ _ _ _ _ items quiet _ =>
      rw [items] at beyond
      rw [quiet.remover]
      exact wf.unmade c beyond
  | dispatched _ _ items quiet _ =>
      rw [items, List.length_append, List.length_singleton] at beyond
      rw [quiet.remover]
      exact wf.unmade c (by omega)
  | acquired _ _ _ _ items quiet _ | built _ _ _ _ items quiet _ | loose _ _ _ items quiet _ =>
      rw [items, List.length_set] at beyond
      rw [quiet.remover]
      exact wf.unmade c beyond
  | admitted _ _ _ _ _ _ items remover _ _ | refused _ _ _ _ _ items _ remover _ _
  | displaced _ _ _ _ items _ remover _ _ | abandoned _ _ _ _ items _ remover _ _
  | held _ _ _ _ _ items _ remover _ _ _ =>
      rw [items, List.length_set] at beyond
      rw [remover]
      exact wf.unmade c beyond
  | recalled _ _ _ held _ items _ remover _ _ | taken _ _ held _ items _ remover _ _ =>
      exact updated held remover (by rw [items])
  | drained held _ _ items _ remover _ _ _ => exact updated held remover (by simp [items])

/-- An item that nobody takes out in this step. -/
theorem Move.unremoved_kept (move : Move cfg s next action)
    (unremoved : s.remover c = none)
    (kept : ∀ jobId phase, s.holding (.map jobId) = some (c, phase) →
      ∃ later, next.holding (.map jobId) = some (c, later)) : next.remover c = none := by
  have updated : ∀ {jobId : String} {d : Nat} {by_ : Remover},
      s.holding (.map jobId) = some (d, .live) → next.holding (.map jobId) = none →
      next.remover = Function.update s.remover d (some by_) → next.remover c = none := by
    intro jobId d by_ held gone remover
    have different : c ≠ d := by
      rintro rfl
      obtain ⟨_, still⟩ := kept jobId .live held
      simp [gone] at still
    rw [remover, Function.update_of_ne different, unremoved]
  cases move with
  | idle quiet _ _ _ | dispatched _ _ _ quiet _ | moved _ _ _ _ _ _ quiet _
  | acquired _ _ _ _ _ quiet _ | built _ _ _ _ _ quiet _ | inserted _ _ _ _ _ _ quiet _
  | loose _ _ _ _ quiet _ => rw [quiet.remover, unremoved]
  | admitted _ _ _ _ _ _ _ remover _ _ | refused _ _ _ _ _ _ _ remover _ _
  | displaced _ _ _ _ _ _ remover _ _ | abandoned _ _ _ _ _ _ remover _ _
  | held _ _ _ _ _ _ _ remover _ _ _ => rw [remover, unremoved]
  | recalled _ _ _ held _ _ _ remover _ holds =>
      exact updated held (by rw [holds, if_neg (by simp), if_pos rfl]) remover
  | taken place _ held _ _ _ remover _ holds =>
      refine updated held ?_ remover
      rw [holds, if_neg (by rcases place with ⟨_, rfl⟩ | ⟨_, rfl⟩ <;> simp), if_pos rfl]
  | drained held _ _ _ _ remover _ _ holds =>
      exact updated held (by rw [holds, if_pos rfl]) remover

theorem TakenWf.mapped_step (wf : TakenWf s) (move : Move cfg s next action) (jobId : String)
    (c : Nat) (phase : WorkPhase) (found : next.holding (.map jobId) = some (c, phase)) :
    next.remover c = none := by
  have old : s.holding (.map jobId) = some (c, phase) → next.remover c = none := by
    intro before
    refine move.unremoved_kept (wf.mapped jobId c phase before) ?_
    intro other later held
    obtain rfl : other = jobId := by
      simpa using wf.owned.unique _ _ c later phase held before
    exact ⟨phase, found⟩
  cases move with
  | idle _ _ _ holds | dispatched _ _ _ _ holds | moved _ _ _ _ _ _ _ holds
  | admitted _ _ _ _ _ _ _ _ _ holds | acquired _ _ _ _ _ _ holds | loose _ _ _ _ _ holds =>
      exact old ((holds _).symm.trans found)
  | refused _ _ _ _ _ _ _ _ _ holds | displaced _ _ _ _ _ _ _ _ holds
  | abandoned _ _ _ _ _ _ _ _ holds | built _ _ _ _ _ _ holds =>
      rw [holds, if_neg (by simp)] at found
      exact old found
  | inserted present pc _ _ _ _ quiet holds =>
      rw [holds, if_neg (by simp)] at found
      split at found
      · obtain ⟨rfl, _⟩ := Prod.mk.inj (Option.some.inj found)
        rw [quiet.remover]
        exact wf.early _ _ present (by rw [pc]; rfl)
      · exact old found
  | recalled _ _ _ _ _ _ _ _ _ holds =>
      rw [holds, if_neg (by simp)] at found
      split at found
      · simp at found
      · exact old found
  | taken place _ _ _ _ _ _ _ holds =>
      rw [holds, if_neg (by rcases place with ⟨_, rfl⟩ | ⟨_, rfl⟩ <;> simp)] at found
      split at found
      · simp at found
      · exact old found
  | held place _ _ _ _ _ _ _ _ _ holds =>
      rw [holds, if_neg (by rcases place with ⟨_, rfl⟩ | ⟨_, rfl⟩ <;> simp)] at found
      exact old found
  | drained _ _ _ _ _ _ _ _ holds =>
      rw [holds] at found
      split at found
      · simp at found
      · exact old found

theorem PcMove.permitted {pc later : DispatchPc T} (step : PcMove item pc later)
    (early : later.early = true) : pc = .begun ∧ later = .acquire := by
  cases step with
  | unlimited _ => exact ⟨rfl, rfl⟩
  | waiting _ waits => cases later <;> simp_all [DispatchPc.early, DispatchPc.waits]
  | answered _ _ | unanswered _ _ | dropped _ => simp [DispatchPc.early] at early

/-- A call that is early after a step was so before it, or is new. -/
theorem Move.early_before (move : Move cfg s next action) (present : next.callers[i]? = some caller)
    (early : caller.pc.early = true) :
    (∃ before, s.callers[i]? = some before ∧ before.pc.early = true) ∨ i = s.callers.length := by
  have updated : ∀ {k : Nat} {other later : Caller T}, s.callers[k]? = some other →
      next.callers = s.callers.set k later → (later.pc.early = true → other.pc.early = true) →
      ∃ before, s.callers[i]? = some before ∧ before.pc.early = true := by
    intro k other later found callers goes
    rw [callers] at present
    rcases getElem?_of_set present with ⟨rfl, rfl⟩ | ⟨_, away⟩
    · exact ⟨other, found, goes early⟩
    · exact ⟨caller, away, early⟩
  cases move with
  | idle _ _ callers _ | taken _ _ _ callers _ _ _ _ _ | held _ _ _ _ callers _ _ _ _ _ _
  | loose _ _ callers _ _ _ | drained _ _ callers _ _ _ _ _ _ =>
      exact Or.inl ⟨caller, callers ▸ present, early⟩
  | dispatched _ callers _ _ _ =>
      rw [callers] at present
      rcases getElem?_of_snoc present with old | ⟨last, _⟩
      · exact Or.inl ⟨caller, old, early⟩
      · exact Or.inr last
  | moved found _ step _ callers _ _ _ =>
      exact Or.inl (updated found callers fun later => by rw [(step.permitted later).1]; rfl)
  | admitted found _ pc _ _ callers _ _ _ _ =>
      exact Or.inl (updated found callers fun _ => by rw [pc]; rfl)
  | refused found _ before _ callers _ _ _ _ _ =>
      exact Or.inl (updated found callers fun _ => before)
  | acquired found _ pc callers _ _ _ | built found _ pc callers _ _ _ =>
      exact Or.inl (updated found callers fun _ => by rw [pc]; rfl)
  | inserted found pc _ _ callers _ _ _ =>
      exact Or.inl (updated found callers fun _ => by rw [pc]; rfl)
  | displaced found _ _ callers _ _ _ _ _ | recalled found _ _ _ callers _ _ _ _ _
  | abandoned found _ _ callers _ _ _ _ _ =>
      exact Or.inl (updated found callers (by simp [DispatchPc.early]))

theorem TakenWf.early_step (wf : TakenWf s) (move : Move cfg s next action) (i : Nat)
    (caller : Caller T) (present : next.callers[i]? = some caller)
    (early : caller.pc.early = true) : next.remover i = none := by
  rcases move.early_before present early with ⟨before, there, was⟩ | rfl
  · refine move.unremoved_kept (wf.early i before there was) ?_
    intro jobId phase held
    obtain ⟨item, known⟩ := wf.owned.item_of there
    exact absurd rfl (wf.owned.early there known was (by simp) held)
  · refine move.unremoved_kept (wf.unmade _ (by rw [wf.owned.aligned])) ?_
    intro jobId phase held
    obtain ⟨item, known, _⟩ := wf.owned.held _ _ phase held
    have bound := (List.getElem?_eq_some_iff.mp known).1
    rw [wf.owned.aligned] at bound
    omega

theorem TakenWf.step (wf : TakenWf s) (taken : dispatcherStep cfg s action = some next) :
    TakenWf next := by
  have move := dispatcherStep_move taken
  constructor
  · exact wf.owned.step move
  · exact wf.mapped_step move
  · exact wf.early_step move
  · exact wf.items_step move
  · exact wf.executors_step move
  · exact wf.stranded_step move
  · exact wf.unmade_step move

end Step

theorem TakenWf.initial (cfg : DispatcherConfig T) (now : Nat) :
    TakenWf (DispatcherState.new cfg now) := by
  have owned := Owned.initial cfg now
  have unheld : ∀ {p c phase}, (DispatcherState.new cfg now).holding p ≠ some (c, phase) := by
    intro p c phase held
    obtain ⟨item, known, _⟩ := owned.held _ c phase held
    simp [DispatcherState.new] at known
  constructor
  · exact owned
  · exact fun _ _ _ held => absurd held unheld
  · simp [DispatcherState.new]
  · simp [DispatcherState.new]
  · exact fun _ _ _ _ held => absurd held unheld
  · rintro c ⟨pc, member, _⟩
    simp [DispatcherState.new] at member
  · exact fun _ _ => rfl

end BitsBroker
