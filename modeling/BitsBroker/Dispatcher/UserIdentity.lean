import BitsBroker.Dispatcher.Interference

/-!
Users and their admissions. The limiter knows a user by one string, the realm and the
username with a separator between them, and two users are told apart only if these strings
differ. Then no admission of one user can influence a decision on a job of the other, in
any history of any number of replicas, with or without a store. Users with one key do
influence each other, unless one of them is never given a slot.
-/

namespace BitsBroker

open Transition

abbrev Identity : Type := String × String

def Identity.key (identity : Identity) : String := identity.1 ++ "\x1f" ++ identity.2

def Json.identity (user : Json) : Option Identity :=
  ((user.pointer ["auth", "realm"]).bind Json.asStr).bind fun realm =>
    ((user.pointer ["auth", "username"]).bind Json.asStr).map fun username => (realm, username)

theorem resolve_identity {cfg : UserLimitConfig} {user : Json} {key : String} {max : Nat}
    (resolved : cfg.resolve user = some (key, max)) :
    ∃ identity, user.identity = some identity ∧ key = identity.key := by
  unfold UserLimitConfig.resolve at resolved
  split at resolved
  next realm username isRealm isUsername =>
    obtain ⟨ceiling, _, eq⟩ := Option.map_eq_some_iff.mp resolved
    refine ⟨(realm, username), ?_, (Prod.mk.inj eq).1.symm⟩
    rw [Json.identity, isRealm, Option.bind_some, isUsername, Option.map_some]
  · simp at resolved

/-- An admission is named after its user. -/
abbrev UserName : Type := Identity × Nat

/-- Each submission is of a job of the user it is named after, with the key and the ceiling
that the limit resolves for that user. -/
def ResolvedFor (cfg : UserLimitConfig) (_ : History UserName) : HistoryAction UserName → Prop
  | .submit name _ key _ max => ∃ user : Json, user.identity = some name.1 ∧
      cfg.resolve user = some (key, max)
  | _ => True

def History.decisionsFor (s : History UserName) (identity : Identity) : List (UserName × Bool) :=
  s.decided.filter fun entry => entry.1.1 = identity

/-- Whatever happens to the jobs of `first`, the decisions on the jobs of `second` are the
same. -/
def Unaffected (shared : Bool) (limiters : Nat → UserLimiter) (cfg : UserLimitConfig)
    (first second : Identity) : Prop :=
  ∀ (now : Nat) (lefts rights : List (HistoryAction UserName)) (s t : History UserName),
    Path (historyStep shared limiters) (ResolvedFor cfg) (History.new UserName now) lefts s →
    Path (historyStep shared limiters) (ResolvedFor cfg) (History.new UserName now) rights t →
    lefts.filter (·.shown fun name => name.1 ≠ first) =
      rights.filter (·.shown fun name => name.1 ≠ first) →
    s.decisionsFor second = t.decisionsFor second

/-- Some job of the user is given a ceiling above zero. -/
def UserLimitConfig.Caps (cfg : UserLimitConfig) (identity : Identity) : Prop :=
  ∃ (user : Json) (key : String) (max : Nat), user.identity = some identity ∧
    cfg.resolve user = some (key, max) ∧ 0 < max

section Independence

variable {shared : Bool} {limiters : Nat → UserLimiter} {cfg : UserLimitConfig}
  {first second : Identity}

theorem ResolvedFor.key_eq {name : UserName} {key : String} {max : Nat} {user : Json}
    (named : user.identity = some name.1) (resolved : cfg.resolve user = some (key, max)) :
    key = name.1.key := by
  obtain ⟨identity, same, eq⟩ := resolve_identity resolved
  rw [named, Option.some.injEq] at same
  rw [eq, ← same]

theorem ResolvedFor.divides {seen : UserName → Bool} {channel : String → String → Prop}
    (divided : ∀ (name : UserName) (scope : String) (user : Json) (max : Nat),
      user.identity = some name.1 → cfg.resolve user = some (name.1.key, max) →
      max = 0 ∨ (seen name = true ↔ channel scope name.1.key))
    (s : History UserName) (action : HistoryAction UserName) (resolved : ResolvedFor cfg s action) :
    Divides limiters seen channel s action := by
  cases action with
  | advance | event | release => trivial
  | submit name limiter key jobId max =>
      obtain ⟨user, named, resolved⟩ := resolved
      obtain rfl := ResolvedFor.key_eq named resolved
      exact divided name _ user max named resolved

theorem unaffected_of_divides (seen : UserName → Bool) (channel : String → String → Prop)
    (divided : ∀ (name : UserName) (scope : String) (user : Json) (max : Nat),
      user.identity = some name.1 → cfg.resolve user = some (name.1.key, max) →
      max = 0 ∨ (seen name = true ↔ channel scope name.1.key))
    (outside : ∀ name, seen name = true → name.1 ≠ first)
    (inside : ∀ name : UserName, name.1 = second → seen name = true) :
    Unaffected shared limiters cfg first second := by
  intro now lefts rights s t left right same
  refine decided_unaffected (fun name => name.1 ≠ first) (fun name => name.1 = second)
    (ResolvedFor.divides divided) ?_ ?_ left right same
  · intro name isSeen
    exact decide_eq_true (outside name isSeen)
  · intro name isSecond
    exact inside name (of_decide_eq_true isSecond)

theorem zero_of_uncapped {identity : Identity} (uncapped : ¬ cfg.Caps identity) {user : Json}
    {key : String} {max : Nat} (named : user.identity = some identity)
    (resolved : cfg.resolve user = some (key, max)) : max = 0 := by
  by_contra positive
  exact uncapped ⟨user, key, max, named, resolved, by omega⟩

theorem unaffected_of_apart (shared : Bool) (limiters : Nat → UserLimiter)
    (different : first ≠ second)
    (apart : first.key ≠ second.key ∨ ¬ cfg.Caps first ∨ ¬ cfg.Caps second) :
    Unaffected shared limiters cfg first second := by
  rcases apart with keys | uncapped | uncapped
  · refine unaffected_of_divides (fun name => name.1.key = second.key)
      (fun _ user => user = second.key) ?_ ?_ ?_
    · intro name scope user max named resolved
      exact Or.inr (by simp)
    · intro name isSeen isFirst
      simp only [decide_eq_true_eq] at isSeen
      exact keys (isFirst ▸ isSeen)
    · intro name isSecond
      simp [isSecond]
  · refine unaffected_of_divides (fun name => name.1 ≠ first) (fun _ _ => True) ?_ ?_ ?_
    · intro name scope user max named resolved
      by_cases isFirst : name.1 = first
      · exact Or.inl (zero_of_uncapped uncapped (isFirst ▸ named) resolved)
      · exact Or.inr (by simp [isFirst])
    · intro name isSeen
      simpa using isSeen
    · rintro name rfl
      simpa using Ne.symm different
  · refine unaffected_of_divides (fun name => name.1 = second) (fun _ _ => False) ?_ ?_ ?_
    · intro name scope user max named resolved
      by_cases isSecond : name.1 = second
      · exact Or.inl (zero_of_uncapped uncapped (isSecond ▸ named) resolved)
      · exact Or.inr (by simp [isSecond])
    · intro name isSeen isFirst
      simp only [decide_eq_true_eq] at isSeen
      exact different (isFirst.symm.trans isSeen)
    · intro name isSecond
      simpa using isSecond

/-- Users do not affect each other's admission exactly if they have different keys, or one of them is
never given a slot. -/
theorem users_admitted_independently (shared : Bool) (limiters : Nat → UserLimiter)
    (cfg : UserLimitConfig) (first second : Identity) (different : first ≠ second) :
    Unaffected shared limiters cfg first second ↔
      first.key ≠ second.key ∨ ¬ cfg.Caps first ∨ ¬ cfg.Caps second := by
  constructor
  · intro unaffected
    by_contra together
    push Not at together
    obtain ⟨sameKey, ⟨user, _, taken, named, resolved, takes⟩,
      ⟨other, _, max, otherNamed, otherResolved, positive⟩⟩ := together
    obtain ⟨identity, same, rfl⟩ := resolve_identity resolved
    obtain rfl : first = identity := Option.some.inj (named.symm.trans same)
    obtain ⟨identity, same, rfl⟩ := resolve_identity otherResolved
    obtain rfl : second = identity := Option.some.inj (otherNamed.symm.trans same)
    have named_inj : Function.Injective fun i : Nat => (second, i) := by
      intro i j same
      exact (Prod.mk.inj same).2
    have apart : ∀ i : Nat, (second, i) ≠ (first, 0) := by
      intro i same
      exact different (Prod.mk.inj same).1.symm
    obtain ⟨before, after, left, right, path, alone, unseen, ⟨i, rejected⟩, admitted⟩ :=
      admission_shows shared limiters 0 0 0 (first, 0) (fun i => (second, i)) (ResolvedFor cfg) rfl
        (fun _ => rfl) named_inj apart takes positive
        (fun _ _ => ⟨user, named, resolved⟩)
        (fun _ _ _ => ⟨other, otherNamed, sameKey ▸ otherResolved⟩) (fun _ _ _ => trivial)
    have same := unaffected 0 _ _ left right path alone
      (by rw [List.filter_append, unseen _ (by simp), List.nil_append])
    have listed : ((second, i), false) ∈ left.decisionsFor second := by
      simp [History.decisionsFor, rejected]
    rw [same] at listed
    have contrary := admitted _ (List.mem_filter.mp listed).1
    cases contrary
  · exact unaffected_of_apart shared limiters different

/-- A user as the authentication service describes it, without roles. -/
def Identity.described (identity : Identity) : Json :=
  .object [("auth", .object [("realm", .string identity.1), ("username", .string identity.2)])]

def resolvedAs (cfg : UserLimitConfig) (_ : History UserName) : HistoryAction UserName → Bool
  | .submit name _ key _ max => decide (name.1.described.identity = some name.1) &&
      decide (cfg.resolve name.1.described = some (key, max))
  | _ => true

theorem resolvedAs_sound (s : History UserName) (action : HistoryAction UserName)
    (checked : resolvedAs cfg s action = true) : ResolvedFor cfg s action := by
  cases action with
  | advance | event | release => trivial
  | submit name limiter key jobId max =>
      simp only [resolvedAs, Bool.and_eq_true, decide_eq_true_eq] at checked
      exact ⟨name.1.described, checked⟩

end Independence

namespace Scenario

def oneEach : UserLimitConfig := ⟨some 1, ∅⟩

def replicaOf (i : Nat) : UserLimiter := ⟨"pool", toString i⟩

def comes (identity : Identity) : List (HistoryAction UserName) :=
  [.submit (identity, 0) 0 identity.key "job" 1, .event (identity, 0) .step]

def inUsername : Identity := ("a", "b\x1fc")

def inRealm : Identity := ("a\x1fb", "c")

def alice : Identity := ("realm", "alice")

def bob : Identity := ("realm", "bob")

/-- The history of the two users' jobs, and that of the second alone. -/
def bothAndOne (first second : Identity) : Option (History UserName) × Option (History UserName) :=
  let step := fun s action => if resolvedAs oneEach s action then
    historyStep false replicaOf s action else none
  (run step (History.new UserName 0) (comes first ++ comes second),
    run step (History.new UserName 0) (comes second))

end Scenario

open Scenario in
theorem users_admitted_independently_alice_bob :
    Unaffected false replicaOf oneEach alice bob ∧
      ∃ s t, Path (historyStep false replicaOf) (ResolvedFor oneEach) (History.new UserName 0)
          (comes alice ++ comes bob) s ∧
        Path (historyStep false replicaOf) (ResolvedFor oneEach) (History.new UserName 0)
          (comes bob) t ∧
        s.decisionsFor bob = [((bob, 0), true)] ∧ t.decisionsFor bob = [((bob, 0), true)] := by
  have independent := (users_admitted_independently false replicaOf oneEach alice bob
    (by decide)).mpr (Or.inl (by decide))
  refine ⟨independent, ?_⟩
  have ran : (bothAndOne alice bob).1.isSome = true ∧ (bothAndOne alice bob).2.any (fun t =>
      decide (t.decisionsFor bob = [((bob, 0), true)])) = true := by decide +kernel
  obtain ⟨s, left⟩ := Option.isSome_iff_exists.mp ran.1
  obtain ⟨t, right, checked⟩ := (Option.any_eq_true _ _).mp ran.2
  have path := Path.of_run_if resolvedAs_sound _ _ left
  have path' := Path.of_run_if resolvedAs_sound _ _ right
  have decided := of_decide_eq_true checked
  refine ⟨s, t, path, path', ?_, decided⟩
  rw [independent 0 _ _ s t path path' (by decide)]
  exact decided

open Scenario in
theorem separator_in_name_takes_slot :
    ¬ ∀ (shared : Bool) (limiters : Nat → UserLimiter) (cfg : UserLimitConfig)
        (first second : Identity), first ≠ second →
        Unaffected shared limiters cfg first second := by
  intro claimed
  have ran : (bothAndOne inUsername inRealm).1.any (fun s =>
        decide (s.decisionsFor inRealm = [((inRealm, 0), false)])) = true ∧
      (bothAndOne inUsername inRealm).2.any (fun t =>
        decide (t.decisionsFor inRealm = [((inRealm, 0), true)])) = true := by decide +kernel
  obtain ⟨s, left, rejected⟩ := (Option.any_eq_true _ _).mp ran.1
  obtain ⟨t, right, admitted⟩ := (Option.any_eq_true _ _).mp ran.2
  have same := claimed false replicaOf oneEach inUsername inRealm (by decide) 0 _ _ s t
    (Path.of_run_if resolvedAs_sound _ _ left) (Path.of_run_if resolvedAs_sound _ _ right)
    (by decide)
  rw [of_decide_eq_true rejected, of_decide_eq_true admitted] at same
  simp at same

end BitsBroker
