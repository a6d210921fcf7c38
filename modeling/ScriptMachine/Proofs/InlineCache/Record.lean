import ScriptMachine.Proofs.InlineCache

/-! # Inline caches as bounded lists

A `CacheRecord` says what a cache is meant to remember: a list of pairs of different keys, in the order
in which the keys came, which is given up for good when a fifth key comes. There is one cache for each
record (`InlineCache.storing`), and updates and filters take the cache of a record to the cache of the
record after them (`storing_update`, `storing_retain`). So a cache answers for its record after any
steps (`InlineCache.follows_record`), also when it has shrunk and filled up again. -/

namespace ScriptMachine

variable {κ ε : Type}

/-- The pairs of a cache in the order in which their keys came; nothing once they are given up. -/
abbrev CacheRecord (κ ε : Type) := Option (List (κ × ε))

/-- What happens to a cache. -/
inductive CacheStep (κ ε : Type) where
  /-- An entry is recorded. -/
  | update (key : κ) (entry : ε)
  /-- The entries that a test rejects are dropped. -/
  | retain (keep : κ → ε → Bool)

/-- The keys that a step brings. -/
def CacheStep.keys : CacheStep κ ε → List κ
  | .update key _ => [key]
  | .retain _ => []

/-! ### Records -/

namespace CacheRecord

/-- The keys of a record. -/
def keys (r : CacheRecord κ ε) : List κ := (r.getD []).map Prod.fst

/-- The state of the cache of a record. -/
def state : CacheRecord κ ε → CacheState
  | none => .megamorphic
  | some [] => .uninitialized
  | some [_] => .monomorphic
  | some pairs => .polymorphic pairs.length

variable [DecidableEq κ]

/-- The entry of a key. -/
def entryOf? (r : CacheRecord κ ε) (key : κ) : Option ε := (r.getD []).lookup key

/-- Puts an entry in the place of the old one of its key, if the key is listed. -/
def overwrite? (key : κ) (entry : ε) : List (κ × ε) → Option (List (κ × ε))
  | [] => none
  | p :: pairs =>
    if p.1 = key then some ((key, entry) :: pairs)
    else (overwrite? key entry pairs).map (p :: ·)

/-- Takes a step: an entry of a new key comes last, or is one too many. -/
def take : CacheStep κ ε → CacheRecord κ ε → CacheRecord κ ε
  | _, none => none
  | .update key entry, some pairs =>
    match overwrite? key entry pairs with
    | some pairs => some pairs
    | none => if pairs.length = polymorphicCacheSize then none else some (pairs ++ [(key, entry)])
  | .retain keep, some pairs => some (pairs.filter fun p => keep p.1 p.2)

/-- **The record after some steps.** -/
def after (steps : List (CacheStep κ ε)) : CacheRecord κ ε :=
  steps.foldl (fun r step => take step r) (some [])

/-- What holds of every record: its keys are different, and not too many. -/
structure Tidy (r : CacheRecord κ ε) : Prop where
  nodup : r.keys.Nodup
  length_le : r.keys.length ≤ polymorphicCacheSize

variable {r : CacheRecord κ ε} {pairs pairs' : List (κ × ε)} {key : κ} {entry : ε}

theorem overwrite?_eq_none : overwrite? key entry pairs = none ↔ key ∉ pairs.map Prod.fst := by
  induction pairs with
  | nil => simp [overwrite?]
  | cons p pairs ih =>
    by_cases hp : p.1 = key
    · simp [overwrite?, hp]
    · simp only [overwrite?, if_neg hp, Option.map_eq_none_iff, ih, List.map_cons, List.mem_cons,
        not_or]
      exact ⟨fun h => ⟨fun heq => hp heq.symm, h⟩, fun h => h.2⟩

/-- Overwriting keeps the keys and their order. -/
theorem keys_overwrite? (h : overwrite? key entry pairs = some pairs') :
    pairs'.map Prod.fst = pairs.map Prod.fst := by
  induction pairs generalizing pairs' with
  | nil => cases h
  | cons p pairs ih =>
    unfold overwrite? at h
    split at h
    case isTrue hp =>
      obtain rfl := Option.some.inj h
      simp [hp]
    case isFalse =>
      obtain ⟨rest, hrest, rfl⟩ := Option.map_eq_some_iff.mp h
      simp [ih hrest]

/-- Among different keys no other pair is changed. -/
theorem overwrite?_eq_map (hn : (pairs.map Prod.fst).Nodup)
    (h : overwrite? key entry pairs = some pairs') :
    pairs' = pairs.map fun p => if p.1 = key then (p.1, entry) else p := by
  induction pairs generalizing pairs' with
  | nil => cases h
  | cons p pairs ih =>
    obtain ⟨hfirst, hrest⟩ := List.nodup_cons.mp hn
    unfold overwrite? at h
    split at h
    case isTrue hp =>
      obtain rfl := Option.some.inj h
      have hsame : ∀ q ∈ pairs, (if q.1 = key then (q.1, entry) else q) = q := by
        intro q hq
        have hne : q.1 ≠ key := fun heq =>
          hfirst (List.mem_map.mpr ⟨q, hq, heq.trans hp.symm⟩)
        rw [if_neg hne]
      rw [List.map_cons, if_pos hp, hp, List.map_congr_left hsame, List.map_id']
    case isFalse hp =>
      obtain ⟨rest, hrest', rfl⟩ := Option.map_eq_some_iff.mp h
      rw [List.map_cons, if_neg hp, ih hrest hrest']

/-- **A step brings its key last**, if at all, and keeps the order of the others. -/
theorem keys_take_sublist (step : CacheStep κ ε) (r : CacheRecord κ ε) :
    (take step r).keys.Sublist (r.keys ++ step.keys) := by
  cases r with
  | none => exact List.nil_sublist _
  | some pairs =>
    cases step with
    | update key entry =>
      unfold take
      dsimp only
      split
      case h_1 pairs' h =>
        have hkeys : keys (some pairs') = keys (some pairs) := keys_overwrite? h
        rw [hkeys]
        exact List.sublist_append_left _ _
      case h_2 =>
        split
        · exact List.nil_sublist _
        · simp [keys, CacheStep.keys]
    | retain keep =>
      refine List.Sublist.trans ?_ (List.sublist_append_left _ _)
      exact (List.filter_sublist).map Prod.fst

theorem Tidy.take (hr : r.Tidy) (step : CacheStep κ ε) : (take step r).Tidy := by
  cases r with
  | none => exact ⟨List.nodup_nil, Nat.zero_le _⟩
  | some pairs =>
    obtain ⟨hnodup, hlength⟩ := hr
    simp only [keys, Option.getD_some, List.length_map] at hnodup hlength
    cases step with
    | retain keep =>
      have hsub := (List.filter_sublist (p := fun p : κ × ε => keep p.1 p.2) (l := pairs)).map Prod.fst
      refine ⟨hsub.nodup hnodup, ?_⟩
      have hle := hsub.length_le
      simp only [List.length_map] at hle
      simp only [CacheRecord.take, keys, Option.getD_some, List.length_map]
      omega
    | update key entry =>
      unfold CacheRecord.take
      dsimp only
      split
      case h_1 pairs' h =>
        have hkeys := keys_overwrite? h
        refine ⟨by simpa [keys, hkeys] using hnodup, ?_⟩
        simp only [keys, Option.getD_some, hkeys, List.length_map]
        exact hlength
      case h_2 h =>
        split
        · exact ⟨List.nodup_nil, Nat.zero_le _⟩
        case isFalse hroom =>
          have hnew := overwrite?_eq_none.mp h
          refine ⟨?_, ?_⟩
          · simp only [keys, Option.getD_some, List.map_append, List.map_cons, List.map_nil]
            exact hnodup.append (List.nodup_singleton _) (List.disjoint_singleton.mpr hnew)
          · simp only [keys, Option.getD_some, List.length_map, List.length_append,
              List.length_singleton]
            omega

theorem after_append (steps : List (CacheStep κ ε)) (step : CacheStep κ ε) :
    after (steps ++ [step]) = take step (after steps) := by
  simp [after]

end CacheRecord

/-! ### Caches -/

namespace InlineCache

variable [DecidableEq κ] {pairs : List (κ × ε)} {r : CacheRecord κ ε}

/-- **The cache of a record.** -/
def storing : CacheRecord κ ε → InlineCache κ ε
  | none => .megamorphic
  | some [] => .uninitialized
  | some [(key, entry)] => .monomorphic key entry
  | some pairs => .polymorphic pairs

/-- Takes a step. -/
def take : CacheStep κ ε → InlineCache κ ε → InlineCache κ ε
  | .update key entry, cache => cache.update key entry
  | .retain keep, cache => cache.retain keep

/-- **The cache after some steps**, starting with an empty one. -/
def after (steps : List (CacheStep κ ε)) : InlineCache κ ε :=
  steps.foldl (fun cache step => take step cache) .uninitialized

omit [DecidableEq κ] in
theorem storing_of_two (h : 2 ≤ pairs.length) : storing (some pairs) = .polymorphic pairs := by
  match pairs, h with
  | _ :: _ :: _, _ => rfl

omit [DecidableEq κ] in
theorem entries_storing (r : CacheRecord κ ε) : (storing r).entries = r.getD [] := by
  match r with
  | none | some [] | some [_] | some (_ :: _ :: _) => rfl

omit [DecidableEq κ] in
theorem state_storing (r : CacheRecord κ ε) : (storing r).state = r.state := by
  match r with
  | none | some [] | some [_] | some (_ :: _ :: _) => rfl

/-- The first pair of a key has its entry. -/
theorem lookup_eq (pairs : List (κ × ε)) (key : κ) :
    (pairs.find? fun p => p.1 = key).map (·.2) = pairs.lookup key := by
  induction pairs with
  | nil => rfl
  | cons p pairs ih =>
    obtain ⟨first, entry⟩ := p
    by_cases hp : first = key
    · simp only [List.find?_cons, List.lookup_cons, hp, decide_true, beq_self_eq_true, Option.map_some]
    · have hkey : (key == first) = false := beq_eq_false_iff_ne.mpr fun heq => hp heq.symm
      simp only [List.find?_cons, List.lookup_cons, hp, decide_false, hkey, ih]

theorem lookup?_storing (r : CacheRecord κ ε) (key : κ) : (storing r).lookup? key = r.entryOf? key := by
  rcases r with _ | _ | ⟨p, _ | ⟨q, pairs⟩⟩
  · rfl
  · rfl
  · rw [CacheRecord.entryOf?, Option.getD_some, ← lookup_eq, List.find?_singleton]
    by_cases hp : p.1 = key <;> simp [storing, lookup?, hp]
  · exact lookup_eq (p :: q :: pairs) key

/-- **An update** of the cache of a record. -/
theorem storing_update (hr : r.Tidy) (key : κ) (entry : ε) :
    (storing r).update key entry = storing (CacheRecord.take (.update key entry) r) := by
  match r, hr with
  | none, _ | some [], _ => rfl
  | some [p], _ =>
    by_cases hp : p.1 = key
    · simp [storing, update, CacheRecord.take, CacheRecord.overwrite?, hp]
    · simp [storing, update, CacheRecord.take, CacheRecord.overwrite?, hp, polymorphicCacheSize]
  | some (p :: q :: pairs), hr =>
    obtain ⟨hnodup, hlength⟩ := hr
    simp only [CacheRecord.keys, Option.getD_some, List.length_map] at hnodup hlength
    have htwo : 2 ≤ (p :: q :: pairs).length := by simp
    rw [storing_of_two htwo]
    generalize p :: q :: pairs = pairs at hnodup hlength htwo ⊢
    unfold update CacheRecord.take
    dsimp only
    cases h : CacheRecord.overwrite? key entry pairs with
    | some pairs' =>
      have hlisted : (pairs.any fun p => p.1 = key) = true := by
        by_contra hnone
        have hnew : key ∉ pairs.map Prod.fst := by
          simpa [List.mem_map] using hnone
        rw [CacheRecord.overwrite?_eq_none.mpr hnew] at h
        cases h
      have hsize := congrArg List.length (CacheRecord.keys_overwrite? h)
      simp only [List.length_map] at hsize
      rw [if_pos hlisted, storing_of_two (by omega), CacheRecord.overwrite?_eq_map hnodup h]
    | none =>
      have hnew := CacheRecord.overwrite?_eq_none.mp h
      have hmissing : ¬(pairs.any fun p => p.1 = key) = true := by
        simpa [List.mem_map] using hnew
      rw [if_neg hmissing]
      dsimp only
      by_cases hfull : pairs.length = polymorphicCacheSize
      · rw [if_pos hfull, if_neg (by omega)]
        rfl
      · rw [if_neg hfull, if_pos (by omega), storing_of_two (by simp; omega)]

omit [DecidableEq κ] in
/-- A filtered list is stored as a list of its length is. -/
theorem retain_polymorphic (keep : κ → ε → Bool) (pairs : List (κ × ε)) :
    (polymorphic pairs).retain keep = storing (some (pairs.filter fun p => keep p.1 p.2)) := by
  unfold retain
  dsimp only
  generalize pairs.filter (fun p => keep p.1 p.2) = kept
  match kept with
  | [] | [_] | _ :: _ :: _ => rfl

/-- **A filter** on the cache of a record. -/
theorem storing_retain (r : CacheRecord κ ε) (keep : κ → ε → Bool) :
    (storing r).retain keep = storing (CacheRecord.take (.retain keep) r) := by
  match r with
  | none | some [] => rfl
  | some [p] =>
    cases hp : keep p.1 p.2 with
    | true => simp [storing, retain, CacheRecord.take, hp]
    | false => simp [storing, retain, CacheRecord.take, hp]
  | some (p :: q :: pairs) => exact retain_polymorphic keep (p :: q :: pairs)

/-- **A run** of a cache and of its record. -/
theorem after_eq (steps : List (CacheStep κ ε)) :
    after steps = storing (CacheRecord.after steps) ∧ (CacheRecord.after steps).Tidy := by
  induction steps using List.reverseRecOn with
  | nil => exact ⟨rfl, List.nodup_nil, Nat.zero_le _⟩
  | append_singleton steps step ih =>
    obtain ⟨hcache, htidy⟩ := ih
    rw [CacheRecord.after_append]
    refine ⟨?_, htidy.take step⟩
    have hstep : after (steps ++ [step]) = take step (after steps) := by simp [after]
    rw [hstep, hcache]
    cases step with
    | update key entry => exact storing_update htidy key entry
    | retain keep => exact storing_retain _ keep

/-- **An inline cache is a bounded list of pairs** that gives up at the fifth key: after any updates and
filters it finds the entries that its record has, its state tells how many those are, and they stand in
the order in which their different keys came. -/
theorem follows_record (steps : List (CacheStep κ ε)) :
    (∀ key, (after steps).lookup? key = (CacheRecord.after steps).entryOf? key) ∧
      (after steps).state = (CacheRecord.after steps).state ∧
      (after steps).entries = (CacheRecord.after steps).getD [] ∧
      (CacheRecord.after steps).keys.Nodup ∧
      (CacheRecord.after steps).keys.length ≤ polymorphicCacheSize ∧
      ∀ step, (CacheRecord.after (steps ++ [step])).keys.Sublist
        ((CacheRecord.after steps).keys ++ step.keys) := by
  obtain ⟨hcache, htidy⟩ := after_eq steps
  rw [hcache]
  refine ⟨lookup?_storing _, state_storing _, entries_storing _, htidy.nodup, htidy.length_le, ?_⟩
  intro step
  rw [CacheRecord.after_append]
  exact CacheRecord.keys_take_sublist step _

end InlineCache

end ScriptMachine
