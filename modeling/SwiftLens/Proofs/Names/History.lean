import Mathlib.Data.Finset.Card
import Mathlib.Data.List.Basic
import SwiftLens.Proofs.Labelling.Names

/-!
# Resolving again and again

One cache serves many requests, and what looking up an identifier gives may be another thing each time: a
name, nothing, a failure. `answerAll` makes requests in turn, each with look-ups of its own, and writes down
what was looked up for each and what came of it.

`resolving_in_turn` says what such a run knows. The cache has an identifier just in case a request for it
has returned a name, so its size is the number of these identifiers. And the next request, whatever it is,
is looked up if the number is an identifier that no request has returned a name for, and not otherwise; a
name that was returned is returned again.

The invariant is `Recalls`: the cache finds exactly what has been returned. One request keeps it
(`Recalls.answer`), so a run does.
-/

namespace SwiftLens.NameCache

variable {σ : Type}

/-! ### Requests -/

/-- A request for the name of an identifier, with look-ups as they are when it is made. -/
structure Call (σ : Type) where
  uid : Int
  lookup : Int → Action σ (Option Text)

/-- A request that has been made. -/
structure Outcome where
  uid : Int
  /-- What was looked up for it. -/
  lookedUp : List Int
  /-- What it returned, or how it failed. -/
  result : Except Fault (Option Text)

/-- A look-up that is written down. -/
def writingDown (lookup : Int → Action σ (Option Text)) (uid : Int) :
    Action (List Int × σ) (Option Text) := fun s =>
  ((lookup uid s.2).1, (s.1 ++ [uid], (lookup uid s.2).2))

/-- Make a request, and write down what is looked up for it. -/
def answer (call : Call σ) (s : NameCache × σ) : Outcome × (NameCache × σ) :=
  match resolve (writingDown call.lookup) call.uid (s.1, ([], s.2)) with
  | (result, (cache, (lookedUp, t))) => (⟨call.uid, lookedUp, result⟩, (cache, t))

/-- Make requests in turn, whatever comes of each. -/
def answerAll : List (Call σ) → NameCache × σ → List Outcome × (NameCache × σ)
  | [], s => ([], s)
  | call :: rest, s =>
    ((answer call s).1 :: (answerAll rest (answer call s).2).1, (answerAll rest (answer call s).2).2)

/-- A last request is made from what the others left. -/
theorem answerAll_concat (calls : List (Call σ)) (call : Call σ) (s : NameCache × σ) :
    answerAll (calls ++ [call]) s =
      ((answerAll calls s).1 ++ [(answer call (answerAll calls s).2).1],
        (answer call (answerAll calls s).2).2) := by
  induction calls generalizing s with
  | nil => rfl
  | cons first rest ih => rw [List.cons_append, answerAll, ih, answerAll, List.cons_append]

/-- What becomes of a request: a number that is too small has no name, a name that has been found is
returned, and anything else is looked up. -/
theorem answer_eq (call : Call σ) (s : NameCache × σ) :
    answer call s =
      if call.uid < leastUid then (⟨call.uid, [], .ok none⟩, s)
      else match find? call.uid s.1 with
        | some name => (⟨call.uid, [], .ok (some name)⟩, s)
        | none => (⟨call.uid, [call.uid], (call.lookup call.uid s.2).1⟩,
            (learnt call.uid (call.lookup call.uid s.2).1 s.1, (call.lookup call.uid s.2).2)) := by
  unfold answer
  rw [resolve_eq]
  split_ifs
  · rfl
  · cases find? call.uid s.1 <;> rfl

/-- Writing down what is looked up changes nothing. -/
theorem resolve_eq_answer (call : Call σ) (s : NameCache × σ) :
    resolve call.lookup call.uid s = ((answer call s).1.result, (answer call s).2) := by
  rw [answer_eq, resolve_eq]
  split_ifs
  · rfl
  · cases find? call.uid s.1 <;> rfl

/-! ### What has been returned -/

/-- A request for the identifier has returned the name. -/
def Returned (past : List Outcome) (uid : Int) (name : Text) : Prop :=
  ∃ outcome ∈ past, outcome.uid = uid ∧ outcome.result = .ok (some name)

/-- The identifiers for which requests have returned names, one for each such request. -/
def returnedUids (past : List Outcome) : List Int :=
  (past.filter fun outcome => outcome.result matches .ok (some _)).map Outcome.uid

/-- The identifiers for which names were returned. -/
theorem mem_returnedUids {past : List Outcome} {uid : Int} :
    uid ∈ returnedUids past ↔ ∃ name, Returned past uid name := by
  unfold returnedUids Returned
  constructor
  · intro h
    obtain ⟨outcome, hmem, rfl⟩ := List.mem_map.mp h
    obtain ⟨hpast, hresult⟩ := List.mem_filter.mp hmem
    rcases hname : outcome.result with e | _ | name
    · simp [hname] at hresult
    · simp [hname] at hresult
    · exact ⟨name, outcome, hpast, rfl, hname⟩
  · rintro ⟨name, outcome, hpast, rfl, hname⟩
    exact List.mem_map_of_mem (List.mem_filter.mpr ⟨hpast, by simp [hname]⟩)

/-- A name was returned by one of the earlier requests or by the last. -/
theorem returned_concat {past : List Outcome} {outcome : Outcome} {uid : Int} {name : Text} :
    Returned (past ++ [outcome]) uid name ↔
      Returned past uid name ∨ outcome.uid = uid ∧ outcome.result = .ok (some name) := by
  simp [Returned, or_and_right, exists_or]

/-! ### The cache recalls what has been returned -/

/-- The cache finds exactly the names that have been returned, each identifier standing in it once. -/
structure Recalls (past : List Outcome) (cache : NameCache) : Prop where
  find? : ∀ uid name, cache.find? uid = some name ↔ Returned past uid name
  least : ∀ uid ∈ cache.map Prod.fst, leastUid ≤ uid
  nodup : (cache.map Prod.fst).Nodup

/-- An empty cache recalls that nothing was returned. -/
theorem recalls_nil : Recalls [] [] where
  find? uid name := by simp [NameCache.find?, Returned]
  least := by simp
  nodup := List.nodup_nil

/-- A request after which nothing new is known leaves the cache as it was. -/
theorem Recalls.concat_of_known {past : List Outcome} {cache : NameCache} (h : Recalls past cache)
    {outcome : Outcome} (hknown : ∀ name, outcome.result = .ok (some name) →
      Returned past outcome.uid name) : Recalls (past ++ [outcome]) cache where
  find? uid name := by
    rw [h.find?, returned_concat]
    constructor
    · exact .inl
    · rintro (hreturned | ⟨rfl, hname⟩)
      · exact hreturned
      · exact hknown name hname
  least := h.least
  nodup := h.nodup

/-- A request that was looked up and has returned a name adds it to the cache. -/
theorem Recalls.concat_of_new {past : List Outcome} {cache : NameCache} (h : Recalls past cache)
    {uid : Int} (huid : leastUid ≤ uid) (hnew : cache.find? uid = none) (lookedUp : List Int)
    (name : Text) : Recalls (past ++ [⟨uid, lookedUp, .ok (some name)⟩]) (cache ++ [(uid, name)]) where
  find? u n := by
    rw [find?_concat, Option.or_eq_some_iff, returned_concat, h.find?, Option.ite_none_right_eq_some]
    constructor
    · rintro (hreturned | ⟨-, rfl, hname⟩)
      · exact .inl hreturned
      · exact .inr ⟨rfl, congrArg _ hname⟩
    · rintro (hreturned | ⟨rfl, hname⟩)
      · exact .inl hreturned
      · exact .inr ⟨hnew, rfl, Except.ok.inj hname⟩
  least := by
    intro u hu
    rw [List.map_append, List.mem_append] at hu
    rcases hu with hu | hu
    · exact h.least u hu
    · obtain rfl : u = uid := by simpa using hu
      exact huid
  nodup := by
    rw [List.map_append]
    exact List.Nodup.append h.nodup (List.nodup_singleton uid)
      (List.disjoint_singleton.mpr (find?_eq_none_iff.mp hnew))

/-- A request keeps what the cache recalls. -/
theorem Recalls.answer {past : List Outcome} {s : NameCache × σ} (h : Recalls past s.1)
    (call : Call σ) : Recalls (past ++ [(answer call s).1]) (answer call s).2.1 := by
  rw [answer_eq]
  split_ifs with hsmall
  · exact h.concat_of_known nofun
  · cases hfind : NameCache.find? call.uid s.1 with
    | some name =>
      apply h.concat_of_known
      rintro _ ⟨⟩
      exact (h.find? call.uid name).mp hfind
    | none =>
      dsimp only
      rcases hrun : (call.lookup call.uid s.2).1 with e | _ | name
      · exact h.concat_of_known nofun
      · exact h.concat_of_known nofun
      · exact h.concat_of_new (by omega) hfind [call.uid] name

/-- After any requests the cache recalls exactly what they returned. -/
theorem recalls_answerAll (calls : List (Call σ)) (s : σ) :
    Recalls (answerAll calls ([], s)).1 (answerAll calls ([], s)).2.1 := by
  induction calls using List.reverseRecOn with
  | nil => exact recalls_nil
  | append_singleton calls call ih =>
    rw [answerAll_concat]
    exact ih.answer call

/-- An identifier is in the cache if a name was returned for it. -/
theorem Recalls.has_iff {past : List Outcome} {cache : NameCache} (h : Recalls past cache) (uid : Int) :
    cache.has uid = true ↔ ∃ name, Returned past uid name := by
  rw [has, Option.isSome_iff_exists]
  exact exists_congr (h.find? uid)

/-- An identifier is not found if no name was returned for it. -/
theorem Recalls.find?_eq_none_iff {past : List Outcome} {cache : NameCache} (h : Recalls past cache)
    {uid : Int} : cache.find? uid = none ↔ ∀ name, ¬Returned past uid name := by
  rw [Option.eq_none_iff_forall_ne_some]
  exact forall_congr' fun name => not_congr (h.find? uid name)

/-- The cache is as large as there are identifiers for which names were returned. -/
theorem Recalls.size_eq {past : List Outcome} {cache : NameCache} (h : Recalls past cache) :
    cache.size = (returnedUids past).toFinset.card := by
  have hsame : (returnedUids past).toFinset = (cache.map Prod.fst).toFinset := by
    ext uid
    rw [List.mem_toFinset, List.mem_toFinset, mem_returnedUids, ← h.has_iff, has, Option.isSome_iff_ne_none,
      Ne, NameCache.find?_eq_none_iff, not_not]
  rw [hsame, List.toFinset_card_of_nodup h.nodup, List.length_map, size]

/-! ### The next request -/

/-- What becomes of a request after those of the past. -/
structure Heeds (past : List Outcome) (s : NameCache × σ) (call : Call σ) : Prop where
  /-- An identifier is looked up, once, if no request has returned a name for it; what comes of the
  look-up is what the request returns, or fails with. -/
  looksUp : leastUid ≤ call.uid → (∀ name, ¬Returned past call.uid name) →
    (answer call s).1.lookedUp = [call.uid] ∧
      (answer call s).1.result = (call.lookup call.uid s.2).1
  /-- Nothing else is looked up. -/
  spares : call.uid < leastUid ∨ (∃ name, Returned past call.uid name) →
    (answer call s).1.lookedUp = [] ∧ (answer call s).2 = s
  /-- A name that has been returned is returned again. -/
  repeats : ∀ name, Returned past call.uid name → (answer call s).1.result = .ok (some name)
  /-- A number that is no identifier has no name. -/
  refuses : call.uid < leastUid → (answer call s).1.result = .ok none
  /-- A request that returns no name, or fails, leaves the cache as it was. -/
  keeps : (∀ name, (answer call s).1.result ≠ .ok (some name)) → (answer call s).2.1 = s.1

/-- A request heeds the past that the cache recalls. -/
theorem Recalls.heeds {past : List Outcome} {s : NameCache × σ} (h : Recalls past s.1)
    (call : Call σ) : Heeds past s call := by
  have hleast : ∀ {uid name}, Returned past uid name → ¬uid < leastUid := by
    intro uid name hreturned
    have hmem : uid ∈ s.1.map Prod.fst := by
      by_contra hnot
      rw [← NameCache.find?_eq_none_iff, h.find?_eq_none_iff] at hnot
      exact hnot name hreturned
    exact Int.not_lt.mpr (h.least uid hmem)
  refine ⟨?_, ?_, ?_, ?_, ?_⟩
  · intro huid hnone
    rw [answer_eq, if_neg (Int.not_lt.mpr huid), h.find?_eq_none_iff.mpr hnone]
    exact ⟨rfl, rfl⟩
  · rintro (hsmall | ⟨name, hreturned⟩)
    · rw [answer_eq, if_pos hsmall]
      exact ⟨rfl, rfl⟩
    · rw [answer_eq, if_neg (hleast hreturned), (h.find? call.uid name).mpr hreturned]
      exact ⟨rfl, rfl⟩
  · intro name hreturned
    rw [answer_eq, if_neg (hleast hreturned), (h.find? call.uid name).mpr hreturned]
  · intro hsmall
    rw [answer_eq, if_pos hsmall]
  · intro hnone
    rw [answer_eq] at hnone ⊢
    split_ifs at hnone ⊢
    · rfl
    · cases hfind : NameCache.find? call.uid s.1 with
      | some name => rfl
      | none =>
        rw [hfind] at hnone
        dsimp only at hnone ⊢
        rcases hrun : (call.lookup call.uid s.2).1 with e | _ | name
        · rfl
        · rfl
        · exact absurd hrun (hnone name)

/-- After any requests to a cache that was empty at first, it has exactly the identifiers for which a
request has returned a name, all of them at least the least identifier, and its size is their number. Any
next request goes on the run and is answered as `Heeds` says; `resolve` answers the same. -/
theorem resolving_in_turn (calls : List (Call σ)) (s : σ) :
    let run := answerAll calls ([], s)
    (∀ uid, run.2.1.has uid = true ↔ ∃ name, Returned run.1 uid name) ∧
    (∀ uid, run.2.1.has uid = true → leastUid ≤ uid) ∧
    run.2.1.size = (returnedUids run.1).toFinset.card ∧
    ∀ call : Call σ, Heeds run.1 run.2 call ∧
      resolve call.lookup call.uid run.2 = ((answer call run.2).1.result, (answer call run.2).2) ∧
      answerAll (calls ++ [call]) ([], s) = (run.1 ++ [(answer call run.2).1], (answer call run.2).2) := by
  intro run
  have hrecalls : Recalls run.1 run.2.1 := recalls_answerAll calls s
  refine ⟨hrecalls.has_iff, ?_, hrecalls.size_eq, fun call => ⟨hrecalls.heeds call, ?_, ?_⟩⟩
  · intro uid hhas
    apply hrecalls.least
    rw [has, Option.isSome_iff_ne_none, Ne, find?_eq_none_iff, not_not] at hhas
    exact hhas
  · exact resolve_eq_answer call run.2
  · exact answerAll_concat calls call ([], s)

end SwiftLens.NameCache
