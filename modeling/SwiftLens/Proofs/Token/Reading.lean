import Mathlib
import SwiftLens.Proofs.Labelling.Renaming
import SwiftLens.Proofs.Token.Table

/-!
# Reading tokens from any bytes

Nothing is known of the bytes from which tokens are read, and the number of records that they declare may
be anything. `word?` and `record?` read numbers and records at their places and refuse to go past the end.
`records_spec` is that the records of a byte string are those that `record?` finds, or that the byte string
is truncated; so whatever is read is there.

The kinds are then named one after the other. With names that do not change, what has happened after some
records is told by their identifiers alone (`Met`): each that is not in the cache was looked up when it came
up first. `readAll_of_bytes` puts the two together.
-/

namespace SwiftLens.Token

/-! ### Words and records at their places -/

/-- The number in the bytes from a position on, low byte first, if all of them are there. -/
def word? (bytes : Utf8.Bytes) (position width : Nat) : Option Nat :=
  if position + width ≤ bytes.length then some (littleEndian ((bytes.drop position).take width)) else none

/-- The record of the given number, if all its bytes are there. -/
def record? (bytes : Utf8.Bytes) (index : Nat) : Option Record := do
  let position := 16 + 16 * index
  let uid ← word? bytes position 8
  let offset ← word? bytes (position + 8) 4
  let twice ← word? bytes (position + 12) 4
  pure ⟨uid, offset, twice / 2⟩

/-- Bytes that end before their header does, or before the records that the header declares. -/
def IsTruncated (bytes : Utf8.Bytes) : Prop :=
  bytes.length < 16 ∨ ∃ word, word? bytes 8 8 = some word ∧ bytes.length < 16 + 16 * (word >>> 4)

/-- A number is read from its bytes where all of them are there. -/
theorem word?_of_le {bytes : Utf8.Bytes} {position width : Nat} (h : position + width ≤ bytes.length) :
    word? bytes position width = some (littleEndian ((bytes.drop position).take width)) :=
  if_pos h

/-- A record that is there is what its sixteen bytes make. -/
theorem record?_of_le {bytes : Utf8.Bytes} {index : Nat} (h : 16 + 16 * (index + 1) ≤ bytes.length) :
    record? bytes index = some (.ofBytes ((bytes.drop (16 + 16 * index)).take recordSize)) := by
  simp only [record?, word?_of_le (show 16 + 16 * index + 8 ≤ bytes.length by omega),
    word?_of_le (show 16 + 16 * index + 8 + 4 ≤ bytes.length by omega),
    word?_of_le (show 16 + 16 * index + 12 + 4 ≤ bytes.length by omega)]
  simp [Record.ofBytes, recordSize, List.drop_take, List.take_take]

/-- As many records are taken as are asked for. -/
theorem length_takeRecords (n : Nat) (bytes : Utf8.Bytes) : (takeRecords n bytes).length = n := by
  induction n generalizing bytes with
  | zero => rfl
  | succ n ih => rw [takeRecords, List.length_cons, ih]

/-- Records that are taken off the front one by one are those at their places. -/
theorem takeRecords_eq (n : Nat) (bytes : Utf8.Bytes) :
    takeRecords n bytes =
      (List.range n).map fun index => .ofBytes ((bytes.drop (16 * index)).take recordSize) := by
  induction n generalizing bytes with
  | zero => rfl
  | succ n ih =>
    rw [takeRecords, ih, List.range_succ_eq_map, List.map_cons, List.map_map]
    simp [recordSize, Nat.mul_add, Nat.add_comm]

/-- The records of bytes that are not truncated: as many as the header declares, each at its place. -/
structure AreRecords (bytes : Utf8.Bytes) (records : List Record) : Prop where
  count : (word? bytes 8 8).map (· >>> 4) = some records.length
  places : (List.range records.length).map (record? bytes) = records.map some

/-- Either the bytes are truncated and have no records, or all their records are there. -/
theorem records_spec (bytes : Utf8.Bytes) :
    IsTruncated bytes ∧
        (records bytes = .error (.noHeader bytes.length) ∨
          records bytes = .error (.tooShort (declaredCount bytes) bytes.length)) ∨
      ¬IsTruncated bytes ∧ ∃ rs, records bytes = .ok rs ∧ AreRecords bytes rs := by
  unfold records IsTruncated
  by_cases hheader : bytes.length < 16
  · exact .inl ⟨.inl hheader, .inl (if_pos hheader)⟩
  have hword : word? bytes 8 8 = some (littleEndian ((bytes.drop 8).take 8)) := word?_of_le (by omega)
  have hcount : littleEndian ((bytes.drop 8).take 8) >>> 4 = declaredCount bytes :=
    Nat.shiftRight_eq_div_pow _ 4
  rw [if_neg (show ¬bytes.length < recordSize from hheader)]
  by_cases hroom : bytes.length < 16 + 16 * declaredCount bytes
  · refine .inl ⟨.inr ⟨_, hword, hcount ▸ hroom⟩, .inr (if_pos ?_)⟩
    unfold recordSize
    omega
  · have hfits : ¬bytes.length < recordSize + declaredCount bytes * recordSize := by
      unfold recordSize
      omega
    refine .inr ⟨?_, _, if_neg hfits, ?_, ?_⟩
    · rintro (hshort | ⟨word, hsome, hshort⟩)
      · exact hheader hshort
      · rw [hword] at hsome
        rw [← Option.some.inj hsome, hcount] at hshort
        exact hroom hshort
    · rw [hword, Option.map_some, hcount, length_takeRecords]
    · rw [length_takeRecords, takeRecords_eq, List.map_map]
      refine List.map_congr_left fun index hindex => ?_
      have hlt : index < declaredCount bytes := List.mem_range.mp hindex
      rw [record?_of_le (by omega)]
      simp [recordSize]

/-! ### Naming kinds with names that do not change -/

open NameCache
open Labelling (fixedLookup resolved)

variable {σ : Type} {f : Int → Option Text} {note : Int → σ → σ} {cache : NameCache} {s : σ}

/-- The name of an identifier: that in the cache, or else the one that `f` gives. -/
def nameIn? (f : Int → Option Text) (cache : NameCache) (uid : Int) : Option Text :=
  if uid < leastUid then none else (cache.find? uid).or (f uid)

/-- The look-ups that identifiers call for, in their order: each that is not in the cache, once. -/
def newUids (cache : NameCache) (uids : List Int) : List Int :=
  (uids.filter fun uid => decide (leastUid ≤ uid) && !cache.has uid).eraseDups

/-- With fixed names, resolving gives the name that the cache or these names give. -/
theorem resolve_fixedLookup (uid : Int) (now : NameCache × σ) :
    resolve (fixedLookup f note) uid now = (.ok (nameIn? f now.1 uid), resolved f note uid now) := by
  rw [resolve_eq]
  unfold nameIn? resolved
  by_cases hsmall : uid < leastUid
  · simp [hsmall]
  · cases hfind : find? uid now.1 with
    | some name => simp [hsmall, NameCache.has, hfind]
    | none => cases hname : f uid <;> simp [hsmall, NameCache.has, hfind, fixedLookup, learnt, hname]

/-- One more identifier is looked up if it is one, is not in the cache and has not come before. -/
theorem newUids_concat (cache : NameCache) (uids : List Int) (uid : Int) :
    newUids cache (uids ++ [uid]) =
      if leastUid ≤ uid ∧ cache.has uid = false ∧ uid ∉ uids then newUids cache uids ++ [uid]
      else newUids cache uids := by
  unfold newUids
  rw [List.filter_append]
  by_cases hnew : leastUid ≤ uid ∧ cache.has uid = false
  · have hlast : [uid].filter (fun uid => decide (leastUid ≤ uid) && !cache.has uid) = [uid] := by
      simp [hnew]
    rw [hlast, List.eraseDups_append]
    by_cases huids : uid ∈ uids
    · simp [List.removeAll, huids, hnew]
    · simp [List.removeAll, huids, hnew, List.eraseDups_cons]
  · have hlast : [uid].filter (fun uid => decide (leastUid ≤ uid) && !cache.has uid) = [] := by
      simpa using hnew
    rw [hlast, List.append_nil, if_neg fun h => hnew ⟨h.1, h.2.1⟩]

/-- The cache and the source of names after identifiers that all have names: no name has changed, those of
the identifiers are known, and what was not known was looked up. -/
structure Met (f : Int → Option Text) (note : Int → σ → σ) (cache : NameCache) (s : σ) (uids : List Int)
    (now : NameCache × σ) : Prop where
  names : ∀ uid, nameIn? f now.1 uid = nameIn? f cache uid
  has_iff : ∀ uid, leastUid ≤ uid → (now.1.has uid = true ↔ cache.has uid = true ∨ uid ∈ uids)
  source : now.2 = (newUids cache uids).foldl (fun s uid => note uid s) s

/-- Before the first identifier nothing has been looked up. -/
theorem met_nil (f : Int → Option Text) (note : Int → σ → σ) (cache : NameCache) (s : σ) :
    Met f note cache s [] (cache, s) where
  names _ := rfl
  has_iff _ _ := by simp
  source := rfl

/-- Resolving an identifier changes the name of none. -/
theorem nameIn?_resolved (uid u : Int) (now : NameCache × σ) :
    nameIn? f (resolved f note uid now).1 u = nameIn? f now.1 u := by
  unfold resolved
  split_ifs with hknown
  · rfl
  · cases hname : f uid with
    | none => rfl
    | some name =>
      unfold nameIn?
      by_cases hu : uid = u
      · subst hu
        have hfind : find? uid now.1 = none := by
          simpa [NameCache.has] using fun h => hknown (.inr h)
        simp [find?_concat, hfind, hname]
      · simp [find?_concat, hu]

/-- What has been asked of the source of names once one more identifier has been met. -/
theorem Met.source_resolved {uids : List Int} {now : NameCache × σ} (h : Met f note cache s uids now)
    (uid : Int) :
    (resolved f note uid now).2 = (newUids cache (uids ++ [uid])).foldl (fun s uid => note uid s) s := by
  rw [newUids_concat]
  unfold resolved
  by_cases hsmall : uid < leastUid
  · rw [if_pos (.inl hsmall), if_neg fun hnew => absurd hnew.1 (Int.not_le.mpr hsmall), h.source]
  · have hhas := h.has_iff uid (Int.not_lt.mp hsmall)
    by_cases hknown : now.1.has uid = true
    · rw [if_pos (.inr hknown), h.source, if_neg]
      rintro ⟨-, hcache, hmet⟩
      rcases hhas.mp hknown with hin | hin
      · rw [hcache] at hin
        cases hin
      · exact hmet hin
    · have hnew : cache.has uid = false ∧ uid ∉ uids := by
        simpa [hhas] using hknown
      rw [if_neg (by simp [hsmall, hknown]), if_pos ⟨Int.not_lt.mp hsmall, hnew⟩, List.foldl_append,
        ← h.source]
      rfl

/-- An identifier that has a name is met. -/
theorem Met.concat {uids : List Int} {now : NameCache × σ} (h : Met f note cache s uids now) {uid : Int}
    {name : Text} (hname : nameIn? f cache uid = some name) :
    Met f note cache s (uids ++ [uid]) (resolved f note uid now) where
  names u := (nameIn?_resolved uid u now).trans (h.names u)
  has_iff u hu := by
    have hbefore := h.has_iff u hu
    rw [← h.names] at hname
    unfold nameIn? at hname
    split_ifs at hname with hsmall
    unfold resolved
    by_cases hknown : now.1.has uid = true
    · rw [if_pos (.inr hknown), hbefore]
      have huid := (h.has_iff uid (Int.not_lt.mp hsmall)).mp hknown
      by_cases heq : u = uid
      · subst heq
        simpa using huid
      · simp [heq]
    · have hfind : find? uid now.1 = none := by simpa [NameCache.has] using hknown
      rw [hfind, Option.none_or] at hname
      rw [if_neg (by simp [hsmall, hknown]), hname]
      by_cases heq : u = uid
      · subst heq
        simp [NameCache.has, find?_concat, hfind]
      · have hkeep : (now.1 ++ [(uid, name)]).has u = now.1.has u := by
          simp [NameCache.has, find?_concat, Ne.symm heq]
        rw [hkeep, hbefore]
        simp [heq]
  source := h.source_resolved uid

/-- The token that a record becomes. -/
def IsTokenOf (f : Int → Option Text) (cache : NameCache) (r : Record) (t : Token) : Prop :=
  nameIn? f cache r.uid = some t.kind ∧ t.offset = r.offset ∧ t.length = r.length

/-- With fixed names, the kind of a record is the name of its identifier, and without one the record is
refused. -/
theorem kindOf_fixedLookup (f : Int → Option Text) (note : Int → σ → σ) (index : Nat) (r : Record)
    (now : NameCache × σ) :
    kindOf (fixedLookup f note) index r now =
      (match nameIn? f now.1 r.uid with
        | some kind => .ok kind
        | none => .error (.token (.unnamedKind r.uid index)), resolved f note r.uid now) := by
  rw [kindOf, Action.bind_of_ok (resolve_fixedLookup _ now)]
  cases nameIn? f now.1 r.uid <;> rfl

/-- Records whose kinds have names become tokens. -/
theorem nameAll_of_named {rs : List Record} (hnamed : ∀ r ∈ rs, nameIn? f cache r.uid ≠ none)
    {uids : List Int} {now : NameCache × σ} (h : Met f note cache s uids now) (index : Nat) :
    ∃ tokens next, nameAll (fixedLookup f note) index rs now = (.ok tokens, next) ∧
      List.Forall₂ (IsTokenOf f cache) rs tokens ∧
      Met f note cache s (uids ++ rs.map fun r => (r.uid : Int)) next := by
  induction rs generalizing uids now index with
  | nil => exact ⟨[], now, rfl, .nil, by simpa using h⟩
  | cons r rest ih =>
    obtain ⟨kind, hkind⟩ := Option.ne_none_iff_exists'.mp (hnamed r List.mem_cons_self)
    have hfirst := kindOf_fixedLookup f note index r now
    rw [h.names, hkind] at hfirst
    obtain ⟨tokens, next, hrun, htokens, hmet⟩ :=
      ih (fun r' hr' => hnamed r' (List.mem_cons_of_mem r hr')) (h.concat hkind) (index + 1)
    refine ⟨⟨kind, r.offset, r.length⟩ :: tokens, next, ?_, .cons ⟨hkind, rfl, rfl⟩ htokens, ?_⟩
    · rw [nameAll, Action.bind_of_ok hfirst, Action.bind_of_ok hrun]
      rfl
    · rwa [List.append_assoc, List.singleton_append, ← List.map_cons (f := fun r : Record => (r.uid : Int))]
        at hmet

/-- The first record whose kind has no name ends the reading. -/
theorem nameAll_of_unnamed {before after : List Record} {r : Record}
    (hnamed : ∀ b ∈ before, nameIn? f cache b.uid ≠ none) (hunnamed : nameIn? f cache r.uid = none)
    {uids : List Int} {now : NameCache × σ} (h : Met f note cache s uids now) (index : Nat) :
    ∃ next, nameAll (fixedLookup f note) index (before ++ r :: after) now =
        (.error (.token (.unnamedKind r.uid (index + before.length))), next) ∧
      next.2 = (newUids cache (uids ++ (before ++ [r]).map fun r => (r.uid : Int))).foldl
        (fun s uid => note uid s) s := by
  induction before generalizing uids now index with
  | nil =>
    have hfirst := kindOf_fixedLookup f note index r now
    rw [h.names, hunnamed] at hfirst
    refine ⟨_, ?_, h.source_resolved r.uid⟩
    rw [List.nil_append, nameAll, Action.bind_of_error hfirst]
    rfl
  | cons b rest ih =>
    obtain ⟨kind, hkind⟩ := Option.ne_none_iff_exists'.mp (hnamed b List.mem_cons_self)
    have hfirst := kindOf_fixedLookup f note index b now
    rw [h.names, hkind] at hfirst
    obtain ⟨next, hrun, hsource⟩ :=
      ih (fun b' hb' => hnamed b' (List.mem_cons_of_mem b hb')) (h.concat hkind) (index + 1)
    refine ⟨next, ?_, ?_⟩
    · rw [List.cons_append, nameAll, Action.bind_of_ok hfirst, Action.bind_of_error hrun,
        List.length_cons, Nat.add_assoc, Nat.add_comm 1]
    · simpa using hsource

/-! ### Reading any bytes -/

/-- Bytes with records are read by naming these. -/
theorem readAll_of_records {bytes : Utf8.Bytes} {rs : List Record} (h : records bytes = .ok rs)
    (lookup : Int → Action σ (Option Text)) (now : NameCache × σ) :
    readAll lookup bytes now = nameAll lookup 0 rs now := by
  rw [readAll, recordsOf, h]
  rfl

/-- Bytes without records are refused, and nothing is looked up. -/
theorem readAll_of_defect {bytes : Utf8.Bytes} {d : Defect} (h : records bytes = .error d)
    (lookup : Int → Action σ (Option Text)) (now : NameCache × σ) :
    readAll lookup bytes now = (.error (.token d), now) := by
  rw [readAll, recordsOf, h]
  rfl

/-- Either all kinds have names or there is a first record whose kind has none. -/
theorem all_named_or_first (f : Int → Option Text) (cache : NameCache) (rs : List Record) :
    (∀ r ∈ rs, nameIn? f cache r.uid ≠ none) ∨
      ∃ before r after, rs = before ++ r :: after ∧ (∀ b ∈ before, nameIn? f cache b.uid ≠ none) ∧
        nameIn? f cache r.uid = none := by
  cases hfind : rs.find? fun r => decide (nameIn? f cache r.uid = none) with
  | none => exact .inl (by simpa using hfind)
  | some r =>
    obtain ⟨hr, before, after, hrs, hbefore⟩ := List.find?_eq_some_iff_append.mp hfind
    exact .inr ⟨before, r, after, hrs, by simpa using hbefore, by simpa using hr⟩

/-- Whatever the bytes and the names found before, when the names do not change: reading fails for the
payload exactly when the bytes are truncated, and then nothing has been looked up. Otherwise all records
that the bytes declare are there. If the kind of one of them has no name, reading fails with the first such
record, its number and its identifier; else there is a token for each. The look-ups made are those of the
identifiers that are not in the cache, up to the record that was reached, each when it comes up first. -/
theorem readAll_of_bytes (f : Int → Option Text) (note : Int → σ → σ) (bytes : Utf8.Bytes)
    (cache : NameCache) (s : σ) :
    let run := readAll (fixedLookup f note) bytes (cache, s)
    let afterLookups := fun rs : List Record =>
      (newUids cache (rs.map fun r => (r.uid : Int))).foldl (fun s uid => note uid s) s
    ((∃ e, run.1 = .error e ∧ e.code? = some .malformedPayload) ↔ IsTruncated bytes) ∧
      (IsTruncated bytes → run.2 = (cache, s)) ∧
      (¬IsTruncated bytes → ∃ rs, AreRecords bytes rs ∧
        (∀ before r after, rs = before ++ r :: after →
          (∀ b ∈ before, nameIn? f cache b.uid ≠ none) → nameIn? f cache r.uid = none →
            run.2.2 = afterLookups (before ++ [r]) ∧
            ∃ e, run.1 = .error e ∧ e.code? = some .unresolvableIdentifier ∧
              e.details? = some [(("uid" : Text), .string (Text.ofNat r.uid)),
                (("tokenIndex" : Text), Json.ofNat before.length)]) ∧
        ((∀ r ∈ rs, nameIn? f cache r.uid ≠ none) →
          run.2.2 = afterLookups rs ∧
          ∃ tokens, run.1 = .ok tokens ∧ tokens.length = rs.length ∧
            List.Forall₂ (IsTokenOf f cache) rs tokens)) := by
  intro run afterLookups
  have hmet := met_nil f note cache s
  rcases records_spec bytes with ⟨htruncated, hdefect⟩ | ⟨hwhole, rs, hrecords, hare⟩
  · obtain ⟨d, hcode, hrun⟩ :
        ∃ d, (Fault.token d).code? = some .malformedPayload ∧ run = (.error (.token d), (cache, s)) := by
      rcases hdefect with h | h
      · exact ⟨_, rfl, readAll_of_defect h _ _⟩
      · exact ⟨_, rfl, readAll_of_defect h _ _⟩
    refine ⟨⟨fun _ => htruncated, fun _ => ⟨_, by rw [hrun], hcode⟩⟩, fun _ => by rw [hrun], ?_⟩
    exact fun hwhole => absurd htruncated hwhole
  have hrun : run = nameAll (fixedLookup f note) 0 rs (cache, s) := readAll_of_records hrecords _ _
  have hfails : ∀ before r after, rs = before ++ r :: after →
      (∀ b ∈ before, nameIn? f cache b.uid ≠ none) → nameIn? f cache r.uid = none →
        run.1 = .error (.token (.unnamedKind r.uid before.length)) ∧
          run.2.2 = afterLookups (before ++ [r]) := by
    rintro before r after rfl hbefore hr
    obtain ⟨next, hname, hsource⟩ := nameAll_of_unnamed hbefore hr hmet 0
    rw [hrun, hname, Nat.zero_add]
    exact ⟨rfl, hsource⟩
  have hsucceeds : (∀ r ∈ rs, nameIn? f cache r.uid ≠ none) →
      run.2.2 = afterLookups rs ∧
        ∃ tokens, run.1 = .ok tokens ∧ List.Forall₂ (IsTokenOf f cache) rs tokens := by
    intro hnamed
    obtain ⟨tokens, next, hname, htokens, hnext⟩ := nameAll_of_named hnamed hmet 0
    rw [hrun, hname]
    exact ⟨hnext.source, tokens, rfl, htokens⟩
  refine ⟨⟨?_, fun h => absurd h hwhole⟩, fun h => absurd h hwhole, fun _ => ⟨rs, hare, ?_, ?_⟩⟩
  · -- neither of the two ways in which naming can end is a malformed payload
    rintro ⟨e, he, hcode⟩
    rcases all_named_or_first f cache rs with hnamed | ⟨before, r, after, hrs, hbefore, hr⟩
    · obtain ⟨-, tokens, hok, -⟩ := hsucceeds hnamed
      rw [hok] at he
      cases he
    · rw [(hfails before r after hrs hbefore hr).1] at he
      cases he
      cases hcode
  · intro before r after hrs hbefore hr
    obtain ⟨herror, hsource⟩ := hfails before r after hrs hbefore hr
    exact ⟨hsource, _, herror, rfl, rfl⟩
  · intro hnamed
    obtain ⟨hsource, tokens, hok, htokens⟩ := hsucceeds hnamed
    exact ⟨hsource, tokens, hok, htokens.length_eq.symm, htokens⟩

/-- Four rows and half of a fifth: two of one kind, one whose name has been found before, and one of a kind
without a name. -/
def gappedTable : Table where
  reserved := List.replicate 8 0
  reserved_length := rfl
  rows := [⟨⟨4300000020, 1, 3⟩, by decide, by decide, by decide, Fin.last 1⟩,
    ⟨⟨4300000021, 5, 1⟩, by decide, by decide, by decide, Fin.last 1⟩,
    ⟨⟨4300000020, 7, 2⟩, by decide, by decide, by decide, Fin.last 1⟩,
    ⟨⟨4300000022, 10, 5⟩, by decide, by decide, by decide, Fin.last 1⟩]
  rows_lt := by decide
  spare := Fin.last 15
  trailing := List.replicate 8 0

/-- Of the four rows the one without a name is reported, after look-ups of what was not known, each once. -/
theorem readAll_of_bytes_gapped :
    let names := fun uid : Int => if uid = 4300000020 then some ("keyword" : Text) else none
    let run := readAll (fixedLookup names Labelling.writtenDown) gappedTable.bytes
      ([(4300000021, "comment")], [])
    ¬IsTruncated gappedTable.bytes ∧ run.2.2 = [4300000020, 4300000022] ∧
      ∃ e, run.1 = .error e ∧ e.code? = some .unresolvableIdentifier ∧
        e.details? =
          some [(("uid" : Text), .string "4300000022"), (("tokenIndex" : Text), Json.ofNat 3)] := by
  intro names run
  have hwhole : ¬IsTruncated gappedTable.bytes := by
    rcases records_spec gappedTable.bytes with ⟨-, h | h⟩ | ⟨hwhole, -⟩
    · rw [gappedTable.records_bytes] at h
      cases h
    · rw [gappedTable.records_bytes] at h
      cases h
    · exact hwhole
  obtain ⟨-, -, hread⟩ :=
    readAll_of_bytes names Labelling.writtenDown gappedTable.bytes [(4300000021, "comment")] []
  obtain ⟨rs, hare, hfails, -⟩ := hread hwhole
  have hlength : rs.length = 4 := by
    have hcount := hare.count
    rw [show (word? gappedTable.bytes 8 8).map (· >>> 4) = some 4 by decide] at hcount
    exact (Option.some.inj hcount).symm
  obtain rfl : rs = [⟨4300000020, 1, 3⟩, ⟨4300000021, 5, 1⟩, ⟨4300000020, 7, 2⟩] ++ [⟨4300000022, 10, 5⟩] := by
    apply List.map_injective_iff.mpr (Option.some_injective _)
    rw [← hare.places, hlength]
    decide
  obtain ⟨hsource, hfault⟩ := hfails _ _ [] rfl (by decide) (by decide)
  exact ⟨hwhole, hsource, hfault⟩

end SwiftLens.Token
