import Mathlib.Data.List.Basic
import SwiftLens.NameCache

/-!
# What is known of names

Resolving an identifier answers from the names found so far or looks the identifier up, and keeps a name
that it was given. `resolve_eq` says so in one equation, and everything else that is said of resolving
comes from it. When look-ups give the names of `f`, if they give an answer at all, the names found so far
go on being those of `f` (`agrees_resolve`). An identifier whose name has been found or is given whenever
it is looked up can be resolved, again and again (`Resolves`).
-/

namespace SwiftLens.NameCache

variable {σ δ : Type}

/-! ### Names found so far -/

/-- A name that is added is found after those that were there. -/
theorem find?_concat (cache : NameCache) (uid u : Int) (name : Text) :
    find? u (cache ++ [(uid, name)]) = (find? u cache).or (if uid = u then some name else none) := by
  induction cache with
  | nil => simp [find?]
  | cons entry rest ih =>
    obtain ⟨v, n⟩ := entry
    rw [List.cons_append, find?, find?]
    split_ifs <;> simp_all

/-- A name that is found is among the names. -/
theorem mem_of_find? {uid : Int} {name : Text} {cache : NameCache}
    (h : cache.find? uid = some name) : name ∈ cache.map Prod.snd := by
  induction cache with
  | nil => cases h
  | cons entry rest ih =>
    obtain ⟨u, n⟩ := entry
    rw [find?] at h
    split_ifs at h
    · simp [Option.some.inj h]
    · exact List.mem_cons_of_mem _ (ih h)

/-- No name is found for what is not among the identifiers. -/
theorem find?_eq_none_iff {uid : Int} {cache : NameCache} :
    find? uid cache = none ↔ uid ∉ cache.map Prod.fst := by
  induction cache with
  | nil => simp [find?]
  | cons entry rest ih =>
    obtain ⟨u, name⟩ := entry
    rw [find?]
    split_ifs with h
    · simp [h]
    · simp [ih, Ne.symm h]

/-- The names of a cache are those of `f`. -/
def Agrees (f : Int → Option Text) (cache : NameCache) : Prop :=
  ∀ uid name, cache.find? uid = some name → f uid = some name

/-- An empty cache agrees with all names. -/
theorem agrees_nil (f : Int → Option Text) : Agrees f [] := by
  intro uid name h
  cases h

/-- A cache agrees with names when one of them is added. -/
theorem Agrees.concat {f : Int → Option Text} {cache : NameCache} (h : Agrees f cache) {uid : Int}
    {name : Text} (hname : f uid = some name) : Agrees f (cache ++ [(uid, name)]) := by
  intro u n hfind
  rw [find?_concat, Option.or_eq_some_iff] at hfind
  rcases hfind with hfind | ⟨-, hfind⟩
  · exact h u n hfind
  · obtain ⟨rfl, hn⟩ := Option.ite_none_right_eq_some.mp hfind
    rw [hname, hn]

/-! ### Resolving -/

/-- The names found so far and what has come of looking up one more. -/
def learnt (uid : Int) (answer : Except Fault (Option Text)) (cache : NameCache) : NameCache :=
  match answer with
  | .ok (some name) => cache ++ [(uid, name)]
  | _ => cache

/-- What resolving does: nothing for a number that is too small, or whose name has been found; any other
is looked up. -/
theorem resolve_eq (lookup : Int → Action σ (Option Text)) (uid : Int) (s : NameCache × σ) :
    resolve lookup uid s =
      if uid < leastUid then (.ok none, s)
      else match find? uid s.1 with
        | some name => (.ok (some name), s)
        | none => ((lookup uid s.2).1, (learnt uid (lookup uid s.2).1 s.1, (lookup uid s.2).2)) := by
  unfold resolve
  split_ifs
  · rfl
  · cases hfind : find? uid s.1 with
    | some name => simp [Action.bind_apply, hfind]
    | none =>
      rcases hrun : lookup uid s.2 with ⟨e | name?, t⟩
      · simp [Action.bind_apply, hfind, Action.second, hrun, learnt]
      · cases name? <;> simp [Action.bind_apply, hfind, Action.second, hrun, learnt]

/-- A name that cannot be resolved could not be looked up. -/
theorem lookup_of_resolve_error {lookup : Int → Action σ (Option Text)} {uid : Int}
    {s t : NameCache × σ} {e : Fault}
    (h : resolve lookup uid s = (.error e, t)) : lookup uid s.2 = (.error e, t.2) := by
  rw [resolve_eq] at h
  split_ifs at h
  · cases h
  · cases hfind : find? uid s.1 with
    | some name =>
      rw [hfind] at h
      cases h
    | none =>
      rw [hfind] at h
      obtain ⟨hresult, hstate⟩ := Prod.mk.inj h
      rw [← hstate, ← hresult]

/-- Resolving does not touch a part of the state that the look-up does not touch. -/
theorem resolve_second (lookup : Int → Action σ (Option Text)) (uid : Int) (cache : NameCache) (x : δ)
    (s : σ) :
    resolve (fun uid => (lookup uid).second) uid (cache, (x, s)) =
      ((resolve lookup uid (cache, s)).1,
        ((resolve lookup uid (cache, s)).2.1, (x, (resolve lookup uid (cache, s)).2.2))) := by
  rw [resolve_eq, resolve_eq]
  split_ifs
  · rfl
  · cases find? uid cache <;> simp [Action.second]

/-- Look-ups give the names of `f` when they give an answer. -/
def Gives (f : Int → Option Text) (lookup : Int → Action σ (Option Text)) : Prop :=
  ∀ uid s name?, (lookup uid s).1 = .ok name? → name? = f uid

/-- Resolving by such look-ups keeps the agreement of the names. -/
theorem agrees_resolve {f : Int → Option Text} {lookup : Int → Action σ (Option Text)}
    (hlookup : Gives f lookup) (uid : Int) {s : NameCache × σ} (h : Agrees f s.1) :
    Agrees f (resolve lookup uid s).2.1 := by
  rw [resolve_eq]
  split_ifs
  · exact h
  · cases find? uid s.1 with
    | some name => exact h
    | none =>
      rcases hrun : (lookup uid s.2).1 with e | _ | name
      · exact h
      · exact h
      · exact h.concat (hlookup uid s.2 _ hrun).symm

/-! ### Identifiers that have names -/

/-- The name that resolving an identifier gives: it has been found, or it will be whenever it is looked
up. -/
def Resolves (lookup : Int → Action σ (Option Text)) (names : NameCache) (uid : Int) (name : Text) : Prop :=
  leastUid ≤ uid ∧
    (names.find? uid = some name ∨ names.find? uid = none ∧ ∀ s, (lookup uid s).1 = .ok (some name))

section Resolves

variable {lookup : Int → Action σ (Option Text)} {names : NameCache} {uid : Int} {name : Text}

/-- Keeping the name of an identifier changes the name of none. -/
theorem Resolves.concat (h : Resolves lookup names uid name) {uid' : Int} {name' : Text} {s : σ}
    (hname : (lookup uid' s).1 = .ok (some name')) :
    Resolves lookup (names ++ [(uid', name')]) uid name := by
  obtain ⟨hleast, hfound | ⟨hfind, hlookup⟩⟩ := h
  · refine ⟨hleast, .inl ?_⟩
    rw [find?_concat, hfound]
    rfl
  · by_cases huid : uid' = uid
    · subst huid
      have hsame : name' = name := by simpa [hname] using hlookup s
      refine ⟨hleast, .inl ?_⟩
      rw [find?_concat, hfind, hsame]
      simp
    · refine ⟨hleast, .inr ⟨?_, hlookup⟩⟩
      rw [find?_concat, hfind]
      simp [huid]

/-- Resolving gives the name, and leaves all identifiers the names they had. -/
theorem Resolves.resolve (h : Resolves lookup names uid name) (s : σ) :
    ∃ names' t, resolve lookup uid (names, s) = (.ok (some name), (names', t)) ∧
      ∀ uid' name', Resolves lookup names uid' name' → Resolves lookup names' uid' name' := by
  rw [resolve_eq, if_neg (Int.not_lt.mpr h.1)]
  obtain ⟨hleast, hfound | ⟨hfind, hlookup⟩⟩ := h
  · refine ⟨names, s, ?_, fun _ _ h => h⟩
    rw [hfound]
  · refine ⟨names ++ [(uid, name)], (lookup uid s).2, ?_, fun uid' name' h => h.concat (hlookup s)⟩
    rw [hfind, hlookup s]
    rfl

end Resolves

end SwiftLens.NameCache
