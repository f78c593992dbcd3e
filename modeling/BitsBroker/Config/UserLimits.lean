import BitsBroker.Config.Dispatcher
import BitsBroker.Dispatcher.UserIdentity

/-!
The limits of users: which `user_limit` blocks the parser accepts, and which ceiling an
accepted block gives a user. The parser and the resolution are both related to the block as
it is written: it is accepted if and only if it follows the grammar below, the ceiling is
the largest of the candidates that apply, and every accepted block gives some user one.
-/

namespace BitsBroker

mutual

/-- No object has two fields of one name. -/
def Json.distinct : Json → Bool
  | .object fields => decide (fields.map (·.1)).Nodup && fieldsDistinct fields
  | .array items => itemsDistinct items
  | _ => true

def fieldsDistinct : List (String × Json) → Bool
  | [] => true
  | (_, value) :: rest => value.distinct && fieldsDistinct rest

def itemsDistinct : List Json → Bool
  | [] => true
  | value :: rest => value.distinct && itemsDistinct rest

end

def Json.IsCeiling (value : Json) : Prop := ∃ n : UInt64, value = .number (.posInt n)

/-- A realm block. -/
def Json.IsRealm (value : Json) : Prop :=
  ∃ fields, value = .object fields ∧ (∀ field ∈ fields, field.1 ∈ ["max", "roles"]) ∧
    (∀ max, Json.get fields "max" = some max → max.IsCeiling) ∧
    (∀ roles, Json.get fields "roles" = some roles → ∃ ceilings, roles = .object ceilings ∧
      ∀ role ∈ ceilings, role.2.IsCeiling) ∧
    ((Json.get fields "max").isSome = true ∨
      ∃ role rest, Json.get fields "roles" = some (.object (role :: rest)))

/-- A `user_limit` block. -/
def Json.IsUserLimit (value : Json) : Prop :=
  ∃ fields, value = .object fields ∧ (∀ field ∈ fields, field.1 ∈ ["max", "realms"]) ∧
    (∀ max, Json.get fields "max" = some max → max.IsCeiling) ∧
    (∀ realms, Json.get fields "realms" = some realms → ∃ blocks, realms = .object blocks ∧
      ∀ block ∈ blocks, block.2.IsRealm) ∧
    ((Json.get fields "max").isSome = true ∨
      ∃ block rest, Json.get fields "realms" = some (.object (block :: rest)))

section Entries

variable {E V : Type}

/-- Each value is parsed and put into the map under its name. -/
def parseInto (parse : String → Json → Except E V) :
    List (String × Json) → HashMap String V → Except E (HashMap String V)
  | [], entries => .ok entries
  | (name, value) :: rest, entries => do
      let parsed ← parse name value
      parseInto parse rest (AList.insert name parsed entries)

variable {parse : String → Json → Except E V}

theorem mem_of_get {fields : List (String × Json)} {name : String} {value : Json}
    (found : Json.get fields name = some value) : (name, value) ∈ fields := by
  obtain ⟨⟨key, other⟩, first, rfl⟩ := Option.map_eq_some_iff.mp found
  have same := List.find?_some first
  have inside := List.mem_of_find?_eq_some first
  simp only [beq_iff_eq] at same
  exact same ▸ inside

theorem value_unique {fields : List (String × Json)} (names : (fields.map (·.1)).Nodup)
    {name : String} {left right : Json} (leftIn : (name, left) ∈ fields)
    (rightIn : (name, right) ∈ fields) : left = right := by
  have same := List.inj_on_of_nodup_map names leftIn rightIn rfl
  exact (Prod.mk.inj same).2

theorem parseInto_cons_ok {name : String} {value : Json} {rest : List (String × Json)}
    {entries result : HashMap String V} :
    parseInto parse ((name, value) :: rest) entries = .ok result ↔
      ∃ parsed, parse name value = .ok parsed ∧
        parseInto parse rest (AList.insert name parsed entries) = .ok result := by
  rw [parseInto]
  cases parse name value with
  | error e => simp [bind, Except.bind]
  | ok parsed => simp [bind, Except.bind]

theorem parseInto_ok_iff (fields : List (String × Json)) :
    ∀ entries : HashMap String V, (∃ result, parseInto parse fields entries = .ok result) ↔
      ∀ field ∈ fields, ∃ parsed, parse field.1 field.2 = .ok parsed := by
  induction fields with
  | nil =>
      intro entries
      simp [parseInto]
  | cons field rest ih =>
      intro entries
      obtain ⟨name, value⟩ := field
      simp only [parseInto_cons_ok, List.forall_mem_cons]
      constructor
      · rintro ⟨result, parsed, ok, further⟩
        exact ⟨⟨parsed, ok⟩, (ih _).mp ⟨result, further⟩⟩
      · rintro ⟨⟨parsed, ok⟩, others⟩
        obtain ⟨result, further⟩ := (ih (AList.insert name parsed entries)).mpr others
        exact ⟨result, parsed, ok, further⟩

/-- An entry of the result was parsed from a field or was there before. -/
theorem parseInto_lookup {fields : List (String × Json)} :
    ∀ {entries result : HashMap String V}, parseInto parse fields entries = .ok result →
      ∀ {name : String} {parsed : V}, result.lookup name = some parsed →
        (∃ value, (name, value) ∈ fields ∧ parse name value = .ok parsed) ∨
          entries.lookup name = some parsed := by
  induction fields with
  | nil =>
      intro entries result ok name parsed found
      obtain rfl := Except.ok.inj ok
      exact Or.inr found
  | cons field rest ih =>
      intro entries result ok name parsed found
      obtain ⟨key, value⟩ := field
      obtain ⟨first, isFirst, further⟩ := parseInto_cons_ok.mp ok
      rcases ih further found with ⟨later, inside, isLater⟩ | before
      · exact Or.inl ⟨later, List.mem_cons_of_mem _ inside, isLater⟩
      · rw [HashMap.lookup_insert_eq] at before
        split at before
        next same =>
          obtain rfl := Option.some.inj before
          subst same
          exact Or.inl ⟨value, List.mem_cons_self, isFirst⟩
        next => exact Or.inr before

theorem parseInto_kept {fields : List (String × Json)} :
    ∀ {entries result : HashMap String V}, parseInto parse fields entries = .ok result →
      ∀ {name : String}, (entries.lookup name).isSome = true ∨ name ∈ fields.map (·.1) →
        (result.lookup name).isSome = true := by
  induction fields with
  | nil =>
      intro entries result ok name there
      obtain rfl := Except.ok.inj ok
      simpa using there
  | cons field rest ih =>
      intro entries result ok name there
      obtain ⟨key, value⟩ := field
      obtain ⟨first, _, further⟩ := parseInto_cons_ok.mp ok
      refine ih further ?_
      rw [HashMap.lookup_insert_eq]
      by_cases same : name = key
      · exact Or.inl (by simp [same])
      · rcases there with before | inside
        · exact Or.inl (by simpa [same] using before)
        · exact Or.inr (by simpa [same] using inside)

theorem parseInto_empty {fields : List (String × Json)} {result : HashMap String V}
    (ok : parseInto parse fields ∅ = .ok result) :
    result.entries.isEmpty = true ↔ fields = [] := by
  constructor
  · intro empty
    cases fields with
    | nil => rfl
    | cons field rest =>
        have kept : (result.lookup field.1).isSome = true :=
          parseInto_kept ok (Or.inr (by simp))
        rw [AList.lookup_isSome, AList.mem_keys, AList.keys, List.isEmpty_iff.mp empty] at kept
        simp [List.keys] at kept
  · rintro rfl
    obtain rfl := Except.ok.inj ok
    rfl

/-- With distinct names, the entries are the fields. -/
theorem parseInto_lookup_eq {fields : List (String × Json)} {result : HashMap String V}
    (names : (fields.map (·.1)).Nodup) (ok : parseInto parse fields ∅ = .ok result)
    (name : String) :
    match Json.get fields name with
    | none => result.lookup name = none
    | some value => ∃ parsed, parse name value = .ok parsed ∧ result.lookup name = some parsed := by
  cases found : Json.get fields name with
  | none =>
      cases entry : result.lookup name with
      | none => rfl
      | some parsed =>
          rcases parseInto_lookup ok entry with ⟨value, inside, _⟩ | before
          · simp only [Json.get, Option.map_eq_none_iff, List.find?_eq_none] at found
            have missing := found _ inside
            simp at missing
          · simp at before
  | some value =>
      have inside := mem_of_get found
      have kept : (result.lookup name).isSome = true :=
        parseInto_kept ok (Or.inr (List.mem_map_of_mem inside))
      obtain ⟨parsed, entry⟩ := Option.isSome_iff_exists.mp kept
      rcases parseInto_lookup ok entry with ⟨other, also, isParsed⟩ | before
      · obtain rfl := value_unique names inside also
        exact ⟨parsed, isParsed, entry⟩
      · simp at before

end Entries

theorem bind_ok_iff {E A B : Type} {first : Except E A} {then_ : A → Except E B} {result : B} :
    (first >>= then_) = .ok result ↔ ∃ value, first = .ok value ∧ then_ value = .ok result := by
  cases first with
  | error e => simp [bind, Except.bind]
  | ok value => simp [bind, Except.bind]

theorem okOr_ok_iff {E A : Type} {value : Option A} {error : E} {result : A} :
    okOr value error = .ok result ↔ value = some result := by
  cases value <;> simp [okOr]

theorem mapM_ok_iff {E A B : Type} {f : A → Except E B} {value : Option A} {result : Option B} :
    value.mapM f = .ok result ↔ value = none ∧ result = none ∨
      ∃ inner parsed, value = some inner ∧ f inner = .ok parsed ∧ result = some parsed := by
  cases value with
  | none => simp [pure, Except.pure, eq_comm]
  | some inner =>
      cases parsed : f inner with
      | error e => simp [parsed, Functor.map, Except.map]
      | ok parsed => simp [parsed, Functor.map, Except.map, eq_comm]

section Accepting

theorem isCeiling_iff {value : Json} : value.IsCeiling ↔ ∃ n, value.asU64 = some n := by
  unfold Json.IsCeiling Json.asU64
  constructor
  · rintro ⟨n, rfl⟩
    exact ⟨n.toNat, rfl⟩
  · rintro ⟨n, isNumber⟩
    split at isNumber
    next word => exact ⟨word, rfl⟩
    · simp at isNumber

theorem parseCeiling_ok_iff {value : Json} {path : String} {n : Nat} :
    parseCeiling value path = .ok n ↔ value.asU64 = some n := by
  unfold parseCeiling
  simp only [bind_ok_iff, okOr_ok_iff]
  constructor
  · rintro ⟨m, isNumber, fits⟩
    simp only [usizeTryFrom, asU64_lt isNumber, if_true, Option.some.injEq] at fits
    rwa [← fits]
  · intro isNumber
    exact ⟨n, isNumber, if_pos (asU64_lt isNumber)⟩

theorem rejectUnknown_ok_iff {known : List String} {path expected : String}
    (fields : List (String × Json)) :
    rejectUnknown known path expected fields = .ok () ↔ ∀ field ∈ fields, field.1 ∈ known := by
  induction fields with
  | nil => simp [rejectUnknown]
  | cons field rest ih =>
      obtain ⟨key, value⟩ := field
      rw [rejectUnknown, List.forall_mem_cons]
      split
      next inside => simp [ih, inside]
      next outside => simp [outside]

theorem parseRoles_eq (realmPath : String) (fields : List (String × Json)) :
    ∀ roles, parseRoles realmPath fields roles =
      parseInto (fun role value => parseCeiling value (realmPath ++ ".roles." ++ role)) fields
        roles := by
  induction fields with
  | nil =>
      intro roles
      rfl
  | cons field rest ih =>
      intro roles
      obtain ⟨role, value⟩ := field
      rw [parseRoles, parseInto]
      congr 1
      funext ceiling
      exact ih _

theorem parseRealms_eq (fields : List (String × Json)) :
    ∀ realms, parseRealms fields realms = parseInto parseRealm fields realms := by
  induction fields with
  | nil =>
      intro realms
      rfl
  | cons field rest ih =>
      intro realms
      obtain ⟨realm, value⟩ := field
      rw [parseRealms, parseInto]
      congr 1
      funext limit
      exact ih _

theorem asObject_iff {value : Json} {fields : List (String × Json)} :
    value.asObject = some fields ↔ value = .object fields := by
  cases value <;> simp [Json.asObject]

/-- The map that an optional field is parsed into: empty without the field. -/
def ParsedMap {V : Type} (parse : String → Json → Except ConfigError V) (value : Option Json)
    (result : HashMap String V) : Prop :=
  value = none ∧ result = ∅ ∨
    ∃ fields, value = some (.object fields) ∧ parseInto parse fields ∅ = .ok result

/-- What an accepted realm block says. -/
structure ParsedRealm (realm : String) (fields : List (String × Json)) (limit : RealmLimit) :
    Prop where
  known : ∀ field ∈ fields, field.1 ∈ ["max", "roles"]
  max : (Json.get fields "max").mapM (fun max => parseCeiling max
    ("dispatcher.user_limit.realms." ++ realm ++ ".max")) = .ok limit.default
  roles : ParsedMap (fun role value => parseCeiling value
    ("dispatcher.user_limit.realms." ++ realm ++ ".roles." ++ role)) (Json.get fields "roles")
    limit.roles
  defined : limit.default ≠ none ∨ limit.roles.entries.isEmpty = false

theorem defined_ok_iff {C : Type} {default : Option Nat} {empty : Bool} {error : ConfigError}
    {built limit : C} :
    (if default.isNone && empty then Except.error error else .ok built) = .ok limit ↔
      (default ≠ none ∨ empty = false) ∧ built = limit := by
  cases default with
  | none => cases empty <;> simp
  | some ceiling => simp

theorem parseRealm_ok_iff {realm : String} {value : Json} {limit : RealmLimit} :
    parseRealm realm value = .ok limit ↔
      ∃ fields, value = .object fields ∧ ParsedRealm realm fields limit := by
  unfold parseRealm
  simp only [bind_ok_iff, okOr_ok_iff, asObject_iff]
  constructor
  · rintro ⟨fields, rfl, _, known, default, isDefault, built⟩
    refine ⟨fields, rfl, ?_⟩
    have within := (rejectUnknown_ok_iff fields).mp known
    cases found : Json.get fields "roles" with
    | none =>
        simp only [found] at built
        obtain ⟨defined, rfl⟩ := defined_ok_iff.mp built
        exact ⟨within, isDefault, Or.inl ⟨found, rfl⟩, defined⟩
    | some inner =>
        simp only [found, bind_ok_iff, okOr_ok_iff, asObject_iff, parseRoles_eq] at built
        obtain ⟨ceilings, rfl, roles, isRoles, built⟩ := built
        obtain ⟨defined, rfl⟩ := defined_ok_iff.mp built
        exact ⟨within, isDefault, Or.inr ⟨ceilings, found, isRoles⟩, defined⟩
  · rintro ⟨fields, rfl, known, isDefault, isRoles, defined⟩
    refine ⟨fields, rfl, (), (rejectUnknown_ok_iff fields).mpr known, limit.default, isDefault, ?_⟩
    rcases isRoles with ⟨missing, empty⟩ | ⟨ceilings, found, isRoles⟩
    · simp only [missing]
      rw [← empty]
      exact defined_ok_iff.mpr ⟨defined, rfl⟩
    · simp only [found, bind_ok_iff, okOr_ok_iff, asObject_iff, parseRoles_eq]
      exact ⟨ceilings, rfl, limit.roles, isRoles, defined_ok_iff.mpr ⟨defined, rfl⟩⟩

/-- What an accepted `user_limit` block says. -/
structure ParsedLimit (fields : List (String × Json)) (cfg : UserLimitConfig) : Prop where
  known : ∀ field ∈ fields, field.1 ∈ ["max", "realms"]
  max : (Json.get fields "max").mapM (fun max => parseCeiling max "dispatcher.user_limit.max") =
    .ok cfg.default
  realms : ParsedMap parseRealm (Json.get fields "realms") cfg.realms
  defined : cfg.default ≠ none ∨ cfg.realms.entries.isEmpty = false

theorem parseUserLimit_ok_iff {value : Json} {cfg : UserLimitConfig} :
    parseUserLimit value = .ok cfg ↔
      ∃ fields, value = .object fields ∧ ParsedLimit fields cfg := by
  unfold parseUserLimit
  simp only [bind_ok_iff, okOr_ok_iff, asObject_iff]
  constructor
  · rintro ⟨fields, rfl, default, isDefault, _, known, built⟩
    refine ⟨fields, rfl, ?_⟩
    have within := (rejectUnknown_ok_iff fields).mp known
    cases found : Json.get fields "realms" with
    | none =>
        simp only [found] at built
        obtain ⟨defined, rfl⟩ := defined_ok_iff.mp built
        exact ⟨within, isDefault, Or.inl ⟨found, rfl⟩, defined⟩
    | some inner =>
        simp only [found, bind_ok_iff, okOr_ok_iff, asObject_iff, parseRealms_eq] at built
        obtain ⟨blocks, rfl, realms, isRealms, built⟩ := built
        obtain ⟨defined, rfl⟩ := defined_ok_iff.mp built
        exact ⟨within, isDefault, Or.inr ⟨blocks, found, isRealms⟩, defined⟩
  · rintro ⟨fields, rfl, known, isDefault, isRealms, defined⟩
    refine ⟨fields, rfl, cfg.default, isDefault, (), (rejectUnknown_ok_iff fields).mpr known, ?_⟩
    rcases isRealms with ⟨missing, empty⟩ | ⟨blocks, found, isRealms⟩
    · simp only [missing]
      rw [← empty]
      exact defined_ok_iff.mpr ⟨defined, rfl⟩
    · simp only [found, bind_ok_iff, okOr_ok_iff, asObject_iff, parseRealms_eq]
      exact ⟨blocks, rfl, cfg.realms, isRealms, defined_ok_iff.mpr ⟨defined, rfl⟩⟩

theorem mapM_ceiling_iff {value : Option Json} (path : String) :
    (∃ default, value.mapM (fun max => parseCeiling max path) = .ok default) ↔
      ∀ max, value = some max → max.IsCeiling := by
  constructor
  · rintro ⟨default, parsed⟩ max rfl
    rcases mapM_ok_iff.mp parsed with ⟨missing, _⟩ | ⟨inner, ceiling, same, isCeiling, _⟩
    · simp at missing
    · obtain rfl := Option.some.inj same
      exact isCeiling_iff.mpr ⟨ceiling, parseCeiling_ok_iff.mp isCeiling⟩
  · intro isCeiling
    cases value with
    | none => exact ⟨none, rfl⟩
    | some max =>
        obtain ⟨n, isNumber⟩ := isCeiling_iff.mp (isCeiling max rfl)
        exact ⟨some n, mapM_ok_iff.mpr
          (Or.inr ⟨max, n, rfl, parseCeiling_ok_iff.mpr isNumber, rfl⟩)⟩

theorem mapM_default_iff {value : Option Json} {path : String} {default : Option Nat}
    (parsed : value.mapM (fun max => parseCeiling max path) = .ok default) :
    default ≠ none ↔ value.isSome = true := by
  rcases mapM_ok_iff.mp parsed with ⟨rfl, rfl⟩ | ⟨inner, ceiling, rfl, _, rfl⟩
  · simp
  · simp

theorem parsedMap_iff {V : Type} (parse : String → Json → Except ConfigError V)
    {value : Option Json} :
    (∃ result, ParsedMap parse value result) ↔ ∀ inner, value = some inner →
      ∃ fields, inner = .object fields ∧ ∀ field ∈ fields, ∃ parsed,
        parse field.1 field.2 = .ok parsed := by
  constructor
  · rintro ⟨result, ⟨rfl, _⟩ | ⟨fields, rfl, parsed⟩⟩ inner isValue
    · simp at isValue
    · obtain rfl := Option.some.inj isValue
      exact ⟨fields, rfl, (parseInto_ok_iff fields ∅).mp ⟨result, parsed⟩⟩
  · intro each
    cases value with
    | none => exact ⟨∅, Or.inl ⟨rfl, rfl⟩⟩
    | some inner =>
        obtain ⟨fields, rfl, parses⟩ := each inner rfl
        obtain ⟨result, parsed⟩ := (parseInto_ok_iff fields ∅).mpr parses
        exact ⟨result, Or.inr ⟨fields, rfl, parsed⟩⟩

theorem parsedMap_nonempty_iff {V : Type} {parse : String → Json → Except ConfigError V}
    {value : Option Json} {result : HashMap String V} (parsed : ParsedMap parse value result) :
    result.entries.isEmpty = false ↔ ∃ field rest, value = some (.object (field :: rest)) := by
  rcases parsed with ⟨rfl, rfl⟩ | ⟨fields, rfl, isParsed⟩
  · simp
  · rw [← Bool.not_eq_true, parseInto_empty isParsed]
    cases fields with
    | nil => simp
    | cons field rest => simp

theorem parseRealm_isRealm {realm : String} {value : Json} :
    (∃ limit, parseRealm realm value = .ok limit) ↔ value.IsRealm := by
  simp only [parseRealm_ok_iff]
  constructor
  · rintro ⟨limit, fields, rfl, known, isDefault, isRoles, defined⟩
    refine ⟨fields, rfl, known, (mapM_ceiling_iff _).mp ⟨_, isDefault⟩, ?_, ?_⟩
    · intro roles found
      obtain ⟨ceilings, rfl, each⟩ := (parsedMap_iff _).mp ⟨_, isRoles⟩ roles found
      refine ⟨ceilings, rfl, fun role inside => ?_⟩
      obtain ⟨ceiling, parsed⟩ := each role inside
      exact isCeiling_iff.mpr ⟨ceiling, parseCeiling_ok_iff.mp parsed⟩
    · rwa [mapM_default_iff isDefault, parsedMap_nonempty_iff isRoles] at defined
  · rintro ⟨fields, rfl, known, isMax, areRoles, defined⟩
    obtain ⟨default, isDefault⟩ := (mapM_ceiling_iff
      ("dispatcher.user_limit.realms." ++ realm ++ ".max")).mpr isMax
    obtain ⟨roles, isRoles⟩ := (parsedMap_iff (fun role value => parseCeiling value
      ("dispatcher.user_limit.realms." ++ realm ++ ".roles." ++ role))).mpr
        (fun inner found => by
          obtain ⟨ceilings, rfl, each⟩ := areRoles inner found
          refine ⟨ceilings, rfl, fun role inside => ?_⟩
          obtain ⟨ceiling, isNumber⟩ := isCeiling_iff.mp (each role inside)
          exact ⟨ceiling, parseCeiling_ok_iff.mpr isNumber⟩)
    refine ⟨⟨default, roles⟩, fields, rfl, known, isDefault, isRoles, ?_⟩
    rwa [mapM_default_iff isDefault, parsedMap_nonempty_iff isRoles]

theorem parseUserLimit_isUserLimit {value : Json} :
    (∃ cfg, parseUserLimit value = .ok cfg) ↔ value.IsUserLimit := by
  simp only [parseUserLimit_ok_iff]
  constructor
  · rintro ⟨cfg, fields, rfl, known, isDefault, isRealms, defined⟩
    refine ⟨fields, rfl, known, (mapM_ceiling_iff _).mp ⟨_, isDefault⟩, ?_, ?_⟩
    · intro realms found
      obtain ⟨blocks, rfl, each⟩ := (parsedMap_iff _).mp ⟨_, isRealms⟩ realms found
      exact ⟨blocks, rfl, fun block inside => parseRealm_isRealm.mp (each block inside)⟩
    · rwa [mapM_default_iff isDefault, parsedMap_nonempty_iff isRealms] at defined
  · rintro ⟨fields, rfl, known, isMax, areRealms, defined⟩
    obtain ⟨default, isDefault⟩ := (mapM_ceiling_iff "dispatcher.user_limit.max").mpr isMax
    obtain ⟨realms, isRealms⟩ := (parsedMap_iff parseRealm).mpr (fun inner found => by
      obtain ⟨blocks, rfl, each⟩ := areRealms inner found
      exact ⟨blocks, rfl, fun block inside => parseRealm_isRealm.mpr (each block inside)⟩)
    refine ⟨⟨default, realms⟩, fields, rfl, known, isDefault, isRealms, ?_⟩
    rwa [mapM_default_iff isDefault, parsedMap_nonempty_iff isRealms]

end Accepting

section Resolving

/-- The roles of a user: the strings among the members of the array. -/
def Json.roles (user : Json) : List String :=
  (((user.pointer ["auth", "roles"]).bind Json.asArray).getD []).filterMap Json.asStr

/-- A ceiling that the block sets for the users of a realm with these roles. -/
inductive Json.Grants (block : Json) (realm : String) (roles : List String) (ceiling : Nat) : Prop
  | everyone (set : (block.pointer ["max"]).bind Json.asU64 = some ceiling)
  | realm (set : (block.pointer ["realms", realm, "max"]).bind Json.asU64 = some ceiling)
  | role (role : String) (held : role ∈ roles)
      (set : (block.pointer ["realms", realm, "roles", role]).bind Json.asU64 = some ceiling)

def RealmLimit.candidates (block : RealmLimit) (roles : List String) : List Nat :=
  block.default.toList ++ roles.filterMap fun role => block.roles.lookup role

def UserLimitConfig.candidates (cfg : UserLimitConfig) (realm : String) (roles : List String) :
    List Nat :=
  cfg.default.toList ++ ((cfg.realms.lookup realm).map (·.candidates roles)).getD []

theorem raiseCeiling_eq (effective : Option Nat) (candidate : Nat) (rest : List Nat) :
    ((raiseCeiling effective candidate).toList ++ rest).max? =
      (effective.toList ++ candidate :: rest).max? := by
  cases effective <;> rfl

theorem foldl_raiseCeiling (ceilings : String → Option Nat) (roles : List String) :
    ∀ effective : Option Nat, roles.foldl (fun effective role => match ceilings role with
        | some roleMax => raiseCeiling effective roleMax
        | none => effective) effective =
      (effective.toList ++ roles.filterMap ceilings).max? := by
  induction roles with
  | nil =>
      intro effective
      cases effective <;> rfl
  | cons role rest ih =>
      intro effective
      rw [List.foldl_cons, ih]
      cases found : ceilings role with
      | none => simp only [List.filterMap_cons, found]
      | some roleMax => simp only [List.filterMap_cons, found, raiseCeiling_eq]

theorem resolve_eq (cfg : UserLimitConfig) (user : Json) :
    cfg.resolve user = user.identity.bind fun identity =>
      (cfg.candidates identity.1 user.roles).max?.map fun ceiling => (identity.key, ceiling) := by
  unfold UserLimitConfig.resolve Json.identity
  cases (user.pointer ["auth", "realm"]).bind Json.asStr with
  | none => rfl
  | some realm =>
      cases (user.pointer ["auth", "username"]).bind Json.asStr with
      | none => rfl
      | some username =>
          simp only [Option.bind_some, Option.map_some, Identity.key]
          congr 1
          unfold UserLimitConfig.candidates Json.roles
          cases cfg.realms.lookup realm with
          | none => cases cfg.default <;> rfl
          | some block =>
              simp only [Option.map_some, Option.getD_some, RealmLimit.candidates]
              cases (user.pointer ["auth", "roles"]).bind Json.asArray with
              | none => cases cfg.default <;> cases block.default <;> rfl
              | some members =>
                  cases block.default with
                  | none => exact foldl_raiseCeiling (block.roles.lookup ·) _ _
                  | some realmDefault =>
                      have folded := foldl_raiseCeiling (block.roles.lookup ·)
                        (members.filterMap Json.asStr) (raiseCeiling cfg.default realmDefault)
                      rw [raiseCeiling_eq] at folded
                      exact folded

theorem pointer_object (fields : List (String × Json)) (name : String) (rest : List String) :
    (Json.object fields).pointer (name :: rest) =
      (Json.get fields name).bind fun value => value.pointer rest := by
  rw [Json.pointer, Json.get, Option.bind_map]
  rfl

theorem pointer_append (first rest : List String) :
    ∀ value : Json, value.pointer (first ++ rest) =
      (value.pointer first).bind fun inner => inner.pointer rest := by
  induction first with
  | nil =>
      intro value
      simp only [List.nil_append, Json.pointer, Option.bind_some]
  | cons name later ih =>
      intro value
      cases value with
      | object fields =>
          simp only [List.cons_append, pointer_object, ih, Option.bind_assoc]
      | null | bool | number | string | array => rfl

theorem fieldsDistinct_mem {fields : List (String × Json)} (distinct : fieldsDistinct fields = true)
    {field : String × Json} (inside : field ∈ fields) : field.2.distinct = true := by
  induction fields with
  | nil => simp at inside
  | cons first rest ih =>
      obtain ⟨name, value⟩ := first
      simp only [fieldsDistinct, Bool.and_eq_true] at distinct
      rcases List.mem_cons.mp inside with rfl | later
      · exact distinct.1
      · exact ih distinct.2 later

theorem distinct_names {fields : List (String × Json)}
    (distinct : (Json.object fields).distinct = true) : (fields.map (·.1)).Nodup := by
  simp only [Json.distinct, Bool.and_eq_true, decide_eq_true_eq] at distinct
  exact distinct.1

theorem distinct_get {fields : List (String × Json)} {name : String} {value : Json}
    (distinct : (Json.object fields).distinct = true)
    (found : Json.get fields name = some value) : value.distinct = true := by
  simp only [Json.distinct, Bool.and_eq_true, decide_eq_true_eq] at distinct
  exact fieldsDistinct_mem distinct.2 (mem_of_get found)

theorem distinct_pointer (names : List String) :
    ∀ {value inner : Json}, value.distinct = true → value.pointer names = some inner →
      inner.distinct = true := by
  induction names with
  | nil =>
      intro value inner distinct found
      obtain rfl := Option.some.inj found
      exact distinct
  | cons name rest ih =>
      intro value inner distinct found
      cases value with
      | object fields =>
          rw [pointer_object] at found
          obtain ⟨first, isFirst, later⟩ := Option.bind_eq_some_iff.mp found
          exact ih (distinct_get distinct isFirst) later
      | null | bool | number | string | array => simp [Json.pointer] at found

theorem mapM_ceiling_eq {value : Option Json} {path : String} {default : Option Nat}
    (parsed : value.mapM (fun max => parseCeiling max path) = .ok default) :
    default = value.bind Json.asU64 := by
  rcases mapM_ok_iff.mp parsed with ⟨rfl, rfl⟩ | ⟨inner, ceiling, rfl, isCeiling, rfl⟩
  · rfl
  · exact (parseCeiling_ok_iff.mp isCeiling).symm

theorem ParsedMap.lookup_eq {V : Type} {parse : String → Json → Except ConfigError V}
    {value : Option Json} {result : HashMap String V} (parsed : ParsedMap parse value result)
    (distinct : ∀ inner, value = some inner → inner.distinct = true) (name : String) :
    match value.bind fun inner => inner.pointer [name] with
    | none => result.lookup name = none
    | some inner => ∃ parsed, parse name inner = .ok parsed ∧ result.lookup name = some parsed := by
  rcases parsed with ⟨rfl, rfl⟩ | ⟨fields, rfl, isParsed⟩
  · rfl
  · have entry := parseInto_lookup_eq (distinct_names (distinct _ rfl)) isParsed name
    rw [Option.bind_some, pointer_object]
    cases found : Json.get fields name with
    | none =>
        rw [found] at entry
        exact entry
    | some inner =>
        rw [found] at entry
        exact entry

theorem ParsedRealm.candidates_iff {realm : String} {fields : List (String × Json)}
    {limit : RealmLimit} (parsed : ParsedRealm realm fields limit)
    (distinct : (Json.object fields).distinct = true) {roles : List String} {ceiling : Nat} :
    ceiling ∈ limit.candidates roles ↔
      ((Json.object fields).pointer ["max"]).bind Json.asU64 = some ceiling ∨
        ∃ role ∈ roles,
          ((Json.object fields).pointer ["roles", role]).bind Json.asU64 = some ceiling := by
  have set : ∀ role, limit.roles.lookup role =
      ((Json.object fields).pointer ["roles", role]).bind Json.asU64 := by
    intro role
    have entry := parsed.roles.lookup_eq (fun inner found => distinct_get distinct found) role
    rw [pointer_object]
    split at entry
    next missing => rw [missing, entry, Option.bind_none]
    next value found =>
      obtain ⟨n, isCeiling, entry⟩ := entry
      rw [found, entry, Option.bind_some, parseCeiling_ok_iff.mp isCeiling]
  rw [RealmLimit.candidates, List.mem_append, List.mem_filterMap, Option.mem_toList,
    mapM_ceiling_eq parsed.max, pointer_object]
  simp only [set, Json.pointer, Option.bind_fun_some]

theorem candidates_iff {block : Json} {cfg : UserLimitConfig} (distinct : block.distinct = true)
    (accepted : parseUserLimit block = .ok cfg) {realm : String} {roles : List String}
    {ceiling : Nat} : ceiling ∈ cfg.candidates realm roles ↔ block.Grants realm roles ceiling := by
  obtain ⟨fields, rfl, parsed⟩ := parseUserLimit_ok_iff.mp accepted
  have entry := parsed.realms.lookup_eq (fun inner found => distinct_get distinct found) realm
  have everyone : ceiling ∈ cfg.default.toList ↔
      ((Json.object fields).pointer ["max"]).bind Json.asU64 = some ceiling := by
    rw [Option.mem_toList, mapM_ceiling_eq parsed.max, pointer_object]
    simp only [Json.pointer, Option.bind_fun_some]
  have inside : ∀ rest, (Json.object fields).pointer ("realms" :: realm :: rest) =
      ((Json.get fields "realms").bind fun inner => inner.pointer [realm]).bind
        fun inner => inner.pointer rest := by
    intro rest
    rw [← pointer_object]
    exact pointer_append ["realms", realm] rest _
  have inRealm : ceiling ∈ ((cfg.realms.lookup realm).map (·.candidates roles)).getD [] ↔
      ((Json.object fields).pointer ["realms", realm, "max"]).bind Json.asU64 = some ceiling ∨
        ∃ role ∈ roles, ((Json.object fields).pointer ["realms", realm, "roles", role]).bind
          Json.asU64 = some ceiling := by
    simp only [inside]
    split at entry
    next missing => simp [missing, entry]
    next value found =>
      obtain ⟨limit, isRealm, entry⟩ := entry
      obtain ⟨inner, rfl, isParsed⟩ := parseRealm_ok_iff.mp isRealm
      obtain ⟨realms, isRealms, isInner⟩ := Option.bind_eq_some_iff.mp found
      rw [entry, found]
      refine isParsed.candidates_iff ?_
      exact distinct_pointer _ (distinct_get distinct isRealms) isInner
  rw [UserLimitConfig.candidates, List.mem_append, everyone, inRealm]
  constructor
  · rintro (set | set | ⟨role, held, set⟩)
    · exact .everyone set
    · exact .realm set
    · exact .role role held set
  · rintro (set | set | ⟨role, held, set⟩)
    · exact Or.inl set
    · exact Or.inr (Or.inl set)
    · exact Or.inr (Or.inr ⟨role, held, set⟩)

theorem resolve_some_iff {block : Json} {cfg : UserLimitConfig} (distinct : block.distinct = true)
    (accepted : parseUserLimit block = .ok cfg) {user : Json} {key : String} {ceiling : Nat} :
    cfg.resolve user = some (key, ceiling) ↔
      ∃ identity, user.identity = some identity ∧ key = identity.key ∧
        IsGreatest {granted | block.Grants identity.1 user.roles granted} ceiling := by
  rw [resolve_eq, Option.bind_eq_some_iff]
  simp only [Option.map_eq_some_iff, List.max?_eq_some_iff, candidates_iff distinct accepted,
    IsGreatest, mem_upperBounds, Set.mem_ofPred_eq, Prod.mk.injEq]
  constructor
  · rintro ⟨identity, named, _, greatest, rfl, rfl⟩
    exact ⟨identity, named, rfl, greatest⟩
  · rintro ⟨identity, named, rfl, greatest⟩
    exact ⟨identity, named, ceiling, greatest, rfl, rfl⟩

theorem resolve_none_iff {block : Json} {cfg : UserLimitConfig} (distinct : block.distinct = true)
    (accepted : parseUserLimit block = .ok cfg) {user : Json} :
    cfg.resolve user = none ↔ ∀ identity, user.identity = some identity →
      ∀ ceiling, ¬block.Grants identity.1 user.roles ceiling := by
  rw [resolve_eq, Option.bind_eq_none_iff]
  simp only [Option.map_eq_none_iff, List.max?_eq_none_iff, List.eq_nil_iff_forall_not_mem,
    candidates_iff distinct accepted]

/-- What the block sets for a realm decides on the ceilings of its users. -/
theorem resolve_congr {block other : Json} {cfg cfg' : UserLimitConfig}
    (distinct : block.distinct = true) (accepted : parseUserLimit block = .ok cfg)
    (distinct' : other.distinct = true) (accepted' : parseUserLimit other = .ok cfg')
    {user user' : Json} (same : user.identity = user'.identity)
    (granted : ∀ identity, user.identity = some identity → ∀ ceiling,
      block.Grants identity.1 user.roles ceiling ↔ other.Grants identity.1 user'.roles ceiling) :
    cfg.resolve user = cfg'.resolve user' := by
  ext ⟨key, ceiling⟩
  rw [resolve_some_iff distinct accepted, resolve_some_iff distinct' accepted', ← same]
  constructor
  · rintro ⟨identity, named, isKey, greatest⟩
    simp only [granted identity named] at greatest
    exact ⟨identity, named, isKey, greatest⟩
  · rintro ⟨identity, named, isKey, greatest⟩
    simp only [← granted identity named] at greatest
    exact ⟨identity, named, isKey, greatest⟩

theorem Json.Grants.mono {block : Json} {realm : String} {roles more : List String} {ceiling : Nat}
    (within : roles ⊆ more) (granted : block.Grants realm roles ceiling) :
    block.Grants realm more ceiling := by
  rcases granted with set | set | ⟨role, held, set⟩
  · exact .everyone set
  · exact .realm set
  · exact .role role (within held) set

theorem Json.Grants.of_same {block other : Json} {realm : String} {roles : List String} {ceiling : Nat}
    (top : block.pointer ["max"] = other.pointer ["max"])
    (inside : block.pointer ["realms", realm] = other.pointer ["realms", realm])
    (granted : block.Grants realm roles ceiling) : other.Grants realm roles ceiling := by
  have below : ∀ rest, block.pointer (["realms", realm] ++ rest) =
      other.pointer (["realms", realm] ++ rest) := by
    intro rest
    rw [pointer_append, pointer_append, inside]
  rcases granted with set | set | ⟨role, held, set⟩
  · exact .everyone (top ▸ set)
  · exact .realm (below ["max"] ▸ set)
  · exact .role role held (below ["roles", role] ▸ set)

/-- The ceiling of a user is the largest that the block grants, and none without a realm, a
username or a grant. It depends on the set of the user's roles, grows with it, and ignores
the blocks of other realms. -/
theorem resolve_most_generous {block : Json} {cfg : UserLimitConfig}
    (distinct : block.distinct = true) (accepted : parseUserLimit block = .ok cfg) :
    (∀ user : Json, cfg.resolve user = none ↔
      (user.pointer ["auth", "realm"]).bind Json.asStr = none ∨
      (user.pointer ["auth", "username"]).bind Json.asStr = none ∨
      ∃ realm, (user.pointer ["auth", "realm"]).bind Json.asStr = some realm ∧
        ∀ ceiling, ¬block.Grants realm user.roles ceiling) ∧
    (∀ (user : Json) (key : String) (ceiling : Nat), cfg.resolve user = some (key, ceiling) ↔
      ∃ realm username, (user.pointer ["auth", "realm"]).bind Json.asStr = some realm ∧
        (user.pointer ["auth", "username"]).bind Json.asStr = some username ∧
        key = realm ++ "\x1f" ++ username ∧
        IsGreatest {granted | block.Grants realm user.roles granted} ceiling) ∧
    (∀ user user' : Json, user.identity = user'.identity →
      (∀ role, role ∈ user.roles ↔ role ∈ user'.roles) →
      cfg.resolve user = cfg.resolve user') ∧
    (∀ user user' : Json, user.identity = user'.identity → user.roles ⊆ user'.roles →
      ∀ key ceiling, cfg.resolve user = some (key, ceiling) →
        ∃ raised, cfg.resolve user' = some (key, raised) ∧ ceiling ≤ raised) ∧
    (∀ (other : Json) (cfg' : UserLimitConfig), other.distinct = true →
      parseUserLimit other = .ok cfg' → ∀ (user : Json) (realm : String),
      (user.pointer ["auth", "realm"]).bind Json.asStr = some realm →
      block.pointer ["max"] = other.pointer ["max"] →
      block.pointer ["realms", realm] = other.pointer ["realms", realm] →
      cfg.resolve user = cfg'.resolve user) := by
  refine ⟨?_, ?_, ?_, ?_, ?_⟩
  · intro user
    rw [resolve_none_iff distinct accepted, Json.identity]
    cases (user.pointer ["auth", "realm"]).bind Json.asStr with
    | none => simp
    | some realm =>
        cases (user.pointer ["auth", "username"]).bind Json.asStr with
        | none => simp
        | some username => simp
  · intro user key ceiling
    rw [resolve_some_iff distinct accepted]
    simp only [Json.identity, Option.bind_eq_some_iff, Option.map_eq_some_iff, Identity.key]
    constructor
    · rintro ⟨_, ⟨realm, isRealm, username, isUsername, rfl⟩, isKey, greatest⟩
      exact ⟨realm, username, isRealm, isUsername, isKey, greatest⟩
    · rintro ⟨realm, username, isRealm, isUsername, isKey, greatest⟩
      exact ⟨(realm, username), ⟨realm, isRealm, username, isUsername, rfl⟩, isKey, greatest⟩
  · intro user user' same sameRoles
    refine resolve_congr distinct accepted distinct accepted same fun identity _ ceiling => ?_
    constructor
    · exact Json.Grants.mono fun role held => (sameRoles role).mp held
    · exact Json.Grants.mono fun role held => (sameRoles role).mpr held
  · intro user user' same within key ceiling resolved
    obtain ⟨identity, named, rfl, greatest⟩ := (resolve_some_iff distinct accepted).mp resolved
    have granted := Json.Grants.mono within greatest.1
    cases raised : cfg.resolve user' with
    | none =>
        exact absurd granted ((resolve_none_iff distinct accepted).mp raised identity
          (same ▸ named) ceiling)
    | some answer =>
        obtain ⟨key, larger⟩ := answer
        obtain ⟨identity', named', rfl, greatest'⟩ :=
          (resolve_some_iff distinct accepted).mp raised
        obtain rfl := Option.some.inj (named.symm.trans (same.trans named'))
        exact ⟨larger, rfl, greatest'.2 granted⟩
  · intro other cfg' distinct' accepted' user realm isRealm top inside
    refine resolve_congr distinct accepted distinct' accepted' rfl ?_
    intro identity named ceiling
    have sameRealm : identity.1 = realm := by
      rw [Json.identity, isRealm, Option.bind_some, Option.map_eq_some_iff] at named
      obtain ⟨username, _, rfl⟩ := named
      rfl
    rw [sameRealm]
    constructor
    · exact Json.Grants.of_same top inside
    · exact Json.Grants.of_same top.symm inside.symm

end Resolving

namespace Scenario

def ceiling (n : UInt64) : Json := .number (.posInt n)

def tiered : Json := .object [("max", ceiling 2), ("realms", .object [("ops", .object
  [("max", ceiling 1), ("roles", .object [("admin", ceiling 9), ("guest", ceiling 0)])])])]

def opsUser (roles : List Json) : Json := .object [("auth", .object
  [("realm", .string "ops"), ("username", .string "ann"), ("roles", .array roles)])]

end Scenario

theorem resolve_most_generous_tiered : Scenario.tiered.distinct = true ∧
    ∃ cfg, parseUserLimit Scenario.tiered = .ok cfg ∧
      cfg.resolve (Scenario.opsUser [.string "guest", .null, .string "admin"]) =
        cfg.resolve (Scenario.opsUser [.string "admin", .string "guest", .string "admin"]) := by
  have distinct : Scenario.tiered.distinct = true := by decide +kernel
  have parsed : (parseUserLimit Scenario.tiered).toOption.isSome = true := by decide +kernel
  obtain ⟨cfg, accepted⟩ := Option.isSome_iff_exists.mp parsed
  have accepted : parseUserLimit Scenario.tiered = .ok cfg := by
    cases result : parseUserLimit Scenario.tiered with
    | error error => simp [result, Except.toOption] at accepted
    | ok found => simpa [result, Except.toOption] using accepted
  refine ⟨distinct, cfg, accepted, ?_⟩
  refine (resolve_most_generous distinct accepted).2.2.1 _ _ (by decide +kernel) fun role => ?_
  have left : (Scenario.opsUser [.string "guest", .null, .string "admin"]).roles =
    ["guest", "admin"] := by decide +kernel
  have right : (Scenario.opsUser [.string "admin", .string "guest", .string "admin"]).roles =
    ["admin", "guest", "admin"] := by decide +kernel
  rw [left, right]
  simp [or_comm]

section Vacuity

theorem lookup_of_nonempty {V : Type} {entries : HashMap String V}
    (nonempty : entries.entries.isEmpty = false) :
    ∃ name value, entries.lookup name = some value := by
  cases keys : entries.entries with
  | nil => simp [keys] at nonempty
  | cons entry rest =>
      have inside : entry.1 ∈ entries := by
        rw [AList.mem_keys, AList.keys, keys]
        simp [List.keys]
      exact ⟨entry.1, Option.isSome_iff_exists.mp (AList.lookup_isSome.mpr inside)⟩

theorem ParsedLimit.realm_defined {fields : List (String × Json)} {cfg : UserLimitConfig}
    (parsed : ParsedLimit fields cfg) {realm : String} {limit : RealmLimit}
    (entry : cfg.realms.lookup realm = some limit) :
    limit.default ≠ none ∨ limit.roles.entries.isEmpty = false := by
  rcases parsed.realms with ⟨_, empty⟩ | ⟨blocks, _, isRealms⟩
  · simp [empty] at entry
  · rcases parseInto_lookup isRealms entry with ⟨value, _, isRealm⟩ | before
    · obtain ⟨_, _, isParsed⟩ := parseRealm_ok_iff.mp isRealm
      exact isParsed.defined
    · simp at before

theorem candidates_nonempty {block : Json} {cfg : UserLimitConfig}
    (accepted : parseUserLimit block = .ok cfg) :
    ∃ realm role, cfg.candidates realm [role] ≠ [] := by
  obtain ⟨fields, _, parsed⟩ := parseUserLimit_ok_iff.mp accepted
  unfold UserLimitConfig.candidates
  rcases parsed.defined with everyone | nonempty
  · obtain ⟨ceiling, set⟩ := Option.ne_none_iff_exists'.mp everyone
    exact ⟨"", "", by simp [set]⟩
  · obtain ⟨realm, limit, entry⟩ := lookup_of_nonempty nonempty
    rcases parsed.realm_defined entry with isMax | roles
    · obtain ⟨ceiling, set⟩ := Option.ne_none_iff_exists'.mp isMax
      exact ⟨realm, "", by simp [entry, RealmLimit.candidates, set]⟩
    · obtain ⟨role, ceiling, set⟩ := lookup_of_nonempty roles
      exact ⟨realm, role, by simp [entry, RealmLimit.candidates, set]⟩

def holderOf (realm role : String) : Json := .object [("auth", .object [("realm", .string realm),
  ("username", .string "user"), ("roles", .array [.string role])])]

/-- The parser accepts exactly the blocks of the grammar, and each of them caps some user. -/
theorem parseUserLimit_exact (block : Json) :
    ((∃ cfg, parseUserLimit block = .ok cfg) ↔ block.IsUserLimit) ∧
    ∀ cfg, parseUserLimit block = .ok cfg →
      ∃ (user : Json) (key : String) (ceiling : Nat), cfg.resolve user = some (key, ceiling) := by
  refine ⟨parseUserLimit_isUserLimit, fun cfg accepted => ?_⟩
  obtain ⟨realm, role, nonempty⟩ := candidates_nonempty accepted
  have resolved : cfg.resolve (holderOf realm role) =
      (cfg.candidates realm [role]).max?.map
        fun ceiling => (Identity.key (realm, "user"), ceiling) := by
    rw [resolve_eq]
    rfl
  obtain ⟨ceiling, largest⟩ := Option.ne_none_iff_exists'.mp (mt List.max?_eq_none_iff.mp nonempty)
  exact ⟨holderOf realm role, _, ceiling, by rw [resolved, largest]; rfl⟩

end Vacuity

end BitsBroker
