import SwiftLens.Proofs.Inspection.DocumentedOffsets
import SwiftLens.Proofs.Inspection.Session

/-!
# Identifiers are tokens

A table of tokens is read in two ways, for all its tokens and for the offsets of its identifiers, and the
second is the first with less kept of it (`Token.identifierOffsets_eq`). So what is documented in a file is
among the tokens of the file. `identifiers_read_alike` says this for the tokens that are reported at the
same moment, and also for those that are reported of the same table before or after in a session. For the
names that a table called for stay found (`nameAll_again`), and names are never lost (`names_grow`).
-/

namespace SwiftLens

variable {σ α β : Type}

/-- An action after another has returned: so had the other. -/
theorem Action.exists_of_bind_ok {a : Action σ α} {f : α → Action σ β} {s u : σ} {y : β}
    (h : (a >>= f) s = (.ok y, u)) : ∃ x t, a s = (.ok x, t) ∧ f x t = (.ok y, u) := by
  rcases hrun : a s with ⟨e | x, t⟩
  · rw [bind_of_error hrun] at h
    cases h
  · rw [bind_of_ok hrun] at h
    exact ⟨x, t, rfl, h⟩

/-! ### Names stay found -/

namespace NameCache

/-- A name that is found stays found when more names are learnt. -/
theorem find?_of_prefix {names later : NameCache} (h : names <+: later) {uid : Int} {name : Text}
    (hname : names.find? uid = some name) : later.find? uid = some name := by
  obtain ⟨more, rfl⟩ := h
  induction names with
  | nil => cases hname
  | cons entry rest ih =>
    rw [find?] at hname
    rw [List.cons_append, find?]
    split_ifs at hname ⊢
    · exact hname
    · exact ih hname

/-- Learning an answer only adds to the cache. -/
theorem prefix_learnt (uid : Int) (answer : Except Fault (Option Text)) (cache : NameCache) :
    cache <+: learnt uid answer cache := by
  unfold learnt
  split
  · exact List.prefix_append _ _
  · exact List.prefix_rfl

/-- Resolving only adds to the cache. -/
theorem prefix_resolve (lookup : Int → Action σ (Option Text)) (uid : Int) (s : NameCache × σ) :
    s.1 <+: (resolve lookup uid s).2.1 := by
  rw [resolve_eq]
  split_ifs
  · exact List.prefix_rfl
  · cases find? uid s.1 with
    | some name => exact List.prefix_rfl
    | none => exact prefix_learnt uid _ s.1

/-- An identifier that was resolved has its name in the cache. -/
theorem find?_of_resolve {lookup : Int → Action σ (Option Text)} {uid : Int} {s t : NameCache × σ}
    {name : Text} (h : resolve lookup uid s = (.ok (some name), t)) :
    leastUid ≤ uid ∧ t.1.find? uid = some name := by
  rw [resolve_eq] at h
  by_cases hsmall : uid < leastUid
  · rw [if_pos hsmall] at h
    cases h
  rw [if_neg hsmall] at h
  refine ⟨Int.not_lt.mp hsmall, ?_⟩
  cases hfind : find? uid s.1 with
  | some known =>
    rw [hfind] at h
    obtain ⟨hname, rfl⟩ := Prod.mk.inj h
    rw [hfind, Except.ok.inj hname]
  | none =>
    rw [hfind] at h
    obtain ⟨hname, rfl⟩ := Prod.mk.inj h
    rw [hname]
    simp [learnt, find?_concat, hfind]

/-- An identifier whose name is in the cache is resolved without a look-up. -/
theorem resolve_of_find? {lookup : Int → Action σ (Option Text)} {uid : Int} {s : NameCache × σ}
    {name : Text} (huid : leastUid ≤ uid) (h : s.1.find? uid = some name) :
    resolve lookup uid s = (.ok (some name), s) := by
  rw [resolve_eq, if_neg (Int.not_lt.mpr huid), h]

end NameCache

/-! ### A table read again -/

namespace Token

open NameCache (resolve)

variable (lookup : Int → Action σ (Option Text))

/-- Finding the kind of a token only adds to the cache. -/
theorem prefix_kindOf (index : Nat) (r : Record) (s : NameCache × σ) :
    s.1 <+: (kindOf lookup index r s).2.1 := by
  have hgrows := NameCache.prefix_resolve lookup r.uid s
  rw [kindOf]
  rcases hresolve : resolve lookup r.uid s with ⟨e | name?, t⟩
  · rw [hresolve] at hgrows
    rw [Action.bind_of_error hresolve]
    exact hgrows
  · rw [hresolve] at hgrows
    rw [Action.bind_of_ok hresolve]
    cases name? <;> exact hgrows

variable {lookup}

/-- Naming the tokens of a table only adds to the cache. -/
theorem prefix_nameAll {index : Nat} {records : List Record} {s t : NameCache × σ} {tokens : List Token}
    (h : nameAll lookup index records s = (.ok tokens, t)) : s.1 <+: t.1 := by
  induction records generalizing index s tokens with
  | nil =>
    cases h
    exact List.prefix_rfl
  | cons r rest ih =>
    obtain ⟨kind, u, hkind, hrest⟩ := Action.exists_of_bind_ok h
    obtain ⟨tokens', u', hrest, hlast⟩ := Action.exists_of_bind_ok hrest
    cases hlast
    have hfirst := prefix_kindOf lookup index r s
    rw [hkind] at hfirst
    exact hfirst.trans (ih hrest)

/-- A table whose tokens have been read is read again without a look-up, and gives the same tokens. -/
theorem nameAll_again {index : Nat} {records : List Record} {s t : NameCache × σ} {tokens : List Token}
    (h : nameAll lookup index records s = (.ok tokens, t)) {later : NameCache × σ}
    (hlater : t.1 <+: later.1) : nameAll lookup index records later = (.ok tokens, later) := by
  induction records generalizing index s tokens with
  | nil =>
    cases h
    rfl
  | cons r rest ih =>
    obtain ⟨kind, u, hkind, hrest⟩ := Action.exists_of_bind_ok h
    obtain ⟨tokens', u', hrest, hlast⟩ := Action.exists_of_bind_ok hrest
    cases hlast
    have hfound : leastUid ≤ (r.uid : Int) ∧ u.1.find? r.uid = some kind := by
      obtain ⟨name?, u', hresolve, hname⟩ := Action.exists_of_bind_ok hkind
      cases name? with
      | none => cases hname
      | some name =>
        cases hname
        exact NameCache.find?_of_resolve hresolve
    have hnow : later.1.find? r.uid = some kind :=
      NameCache.find?_of_prefix ((prefix_nameAll hrest).trans hlater) hfound.2
    have hagain : kindOf lookup index r later = (.ok kind, later) := by
      rw [kindOf, Action.bind_of_ok (NameCache.resolve_of_find? hfound.1 hnow)]
      rfl
    rw [nameAll, Action.bind_of_ok hagain, Action.bind_of_ok (ih hrest)]
    rfl

/-- A table that was read is read again, with any more names, without a look-up. -/
theorem readAll_again {bytes : Utf8.Bytes} {s t : NameCache × σ} {tokens : List Token}
    (h : readAll lookup bytes s = (.ok tokens, t)) (later : NameCache × σ) (hlater : t.1 <+: later.1) :
    readAll lookup bytes later = (.ok tokens, later) := by
  obtain ⟨records, u, hrecords, hname⟩ := Action.exists_of_bind_ok h
  obtain ⟨hbytes, rfl⟩ := Prod.mk.inj hrecords
  rw [readAll, hbytes]
  exact nameAll_again hname hlater

end Token

/-! ### Inspections of one table -/

namespace Inspection

open SwiftLens.Action (Diagonal matches_diagonal_iff)

variable {backend : Backend σ} {reader : SourceReader σ}

/-- No inspection of a session loses a name. -/
theorem names_grow (backend : Backend σ) (reader : SourceReader σ) (inquiries : List Inquiry)
    (s : NameCache × σ) : s.1 <+: (session backend reader inquiries s).2.1 := by
  let R := Diagonal fun t : NameCache × σ => s.1 <+: t.1
  have hpeers : Peers R backend backend reader reader :=
    { uidOf := fun name => matches_diagonal_iff.mpr fun t ht => ht
      resolve := fun uid => matches_diagonal_iff.mpr fun t ht =>
        ht.trans (NameCache.prefix_resolve backend.nameOf uid t)
      respond := fun request => matches_diagonal_iff.mpr fun t ht => ht
      whole := fun file => matches_diagonal_iff.mpr fun t ht => ht
      range := fun file offset length => matches_diagonal_iff.mpr fun t ht => ht }
  exact (matches_session hpeers inquiries (t := s) ⟨rfl, List.prefix_rfl⟩).2.2

/-- The reply to opening a source holds the table. -/
def Supplies (backend : Backend σ) (source : SourceInput) (s : σ) (table : Utf8.Bytes) : Prop :=
  ∃ response, (openSource backend source s).1 = .ok response ∧
    response.get? Key.syntaxMap = some (.data table)

/-- The tokens of a source are those of the table in the reply to opening it. -/
theorem tokensOf_of_supplies {source : SourceInput} {s : NameCache × σ} {table : Utf8.Bytes}
    (h : Supplies backend source s.2 table) :
    tokensOf backend source s =
      Token.readAll backend.nameOf table (s.1, (openSource backend source s.2).2) := by
  obtain ⟨response, hopen, htable⟩ := h
  have hresponse : (openSource backend source).second s =
      (.ok response, (s.1, (openSource backend source s.2).2)) := Prod.ext hopen rfl
  have hbytes : tokenBytes response = .ok table := by rw [tokenBytes, htable]
  rw [tokensOf, Action.bind_of_ok hresponse, hbytes]
  rfl

/-- Where documented offsets are found, the tokens of the file are found with the same look-ups, and the
offsets are those that the text documents among its identifiers. -/
theorem exists_of_documentedOffsets {file : Text} {s t : NameCache × σ} {offsets : List Int}
    (h : documentedOffsets backend reader file s = (.ok offsets, t)) :
    ∃ table tokens u text, Supplies backend (.file file) s.2 table ∧
      tokensOf backend (.file file) s = (.ok tokens, u) ∧ u.1 = t.1 ∧
        offsets = Documented.offsets text (Token.identifiersIn tokens) := by
  obtain ⟨response, s₁, hopen, hafterOpen⟩ := Action.exists_of_bind_ok h
  obtain ⟨table, s₂, htable, hafterTable⟩ := Action.exists_of_bind_ok hafterOpen
  obtain ⟨identifiers, s₃, hidentifiers, hafterIdentifiers⟩ := Action.exists_of_bind_ok hafterTable
  obtain ⟨text, s₄, htext, hafterText⟩ := Action.exists_of_bind_ok hafterIdentifiers
  obtain ⟨hbytes, rfl⟩ := Prod.mk.inj htable
  obtain ⟨hoffsets, rfl⟩ := Prod.mk.inj hafterText
  have hsupplies : Supplies backend (.file file) s.2 table := by
    refine ⟨response, congrArg Prod.fst hopen, ?_⟩
    unfold tokenBytes at hbytes
    split at hbytes
    · next bytes hget => rw [hget, Except.ok.inj hbytes]
    · cases hbytes
  have hstate : s₁ = (s.1, (openSource backend (.file file) s.2).2) := (congrArg Prod.snd hopen).symm
  have htokens := tokensOf_of_supplies hsupplies
  rw [Token.identifierOffsets_eq, hstate, ← htokens] at hidentifiers
  rcases hrun : tokensOf backend (.file file) s with ⟨e | tokens, u⟩
  · rw [hrun] at hidentifiers
    cases hidentifiers
  · rw [hrun] at hidentifiers
    obtain ⟨hresult, rfl⟩ := Prod.mk.inj hidentifiers
    have hnames : u.1 = s₄.1 := congrArg (fun r => r.2.1) htext
    refine ⟨table, tokens, u, text, hsupplies, rfl, hnames, ?_⟩
    rw [← Except.ok.inj hoffsets, ← Except.ok.inj hresult]

/-- Whatever the source of names answers and whether it fails or not, reading the offsets of the
identifiers of a table makes the look-ups that reading its tokens makes, leaves the same names and the same
source of names, and fails with the same fault; and otherwise it gives the offsets of the tokens that are
identifiers, in their order.

So the documented offsets of a file are offsets of identifiers among its tokens: among those that are
reported of the file at that moment, and among all that are reported of the same table at any other time
of the session, afterwards or before. -/
theorem identifiers_read_alike :
    (∀ (lookup : Int → Action σ (Option Text)) (bytes : Utf8.Bytes) (names : NameCache)
        (record : List Exchange) (s : σ),
      let asked := fun uid => (lookup uid).noted (.nameOf uid)
      let tokens := Token.readAll asked bytes (names, (record, s))
      let offsets := Token.identifierOffsets asked bytes (names, (record, s))
      offsets.2 = tokens.2 ∧ offsets.1 = tokens.1.map Token.identifiersIn) ∧
    ∀ (backend : Backend σ) (reader : SourceReader σ) (file : Text) (s t : NameCache × σ)
        (offsets : List Int), documentedOffsets backend reader file s = (.ok offsets, t) →
      ∃ table tokens, Supplies backend (.file file) s.2 table ∧
        (∀ n ∈ offsets, ∃ token ∈ tokens, token.kind = Kind.identifier ∧ token.offset = n) ∧
        (tokensOf backend (.file file) s).1 = .ok tokens ∧
        (∀ inquiries source,
          let later := (session backend reader inquiries t).2
          Supplies backend source later.2 table → (tokensOf backend source later).1 = .ok tokens) ∧
        ∀ inquiries source earlier others,
          (session backend reader inquiries (tokensOf backend source earlier).2).2 = s →
            Supplies backend source earlier.2 table → (tokensOf backend source earlier).1 = .ok others →
              others = tokens := by
  refine ⟨fun lookup bytes names record s => ?_, fun backend reader file s t offsets h => ?_⟩
  · intro asked tokens offsets
    have heq : offsets = (tokens.1.map Token.identifiersIn, tokens.2) :=
      Token.identifierOffsets_eq asked bytes (names, (record, s))
    rw [heq]
    exact ⟨rfl, rfl⟩
  obtain ⟨table, tokens, u, text, hsupplies, htokens, hnames, rfl⟩ := exists_of_documentedOffsets h
  have hread := tokensOf_of_supplies hsupplies
  refine ⟨table, tokens, hsupplies, ?_, by rw [htokens], ?_, ?_⟩
  · intro n hn
    rw [Documented.offsets_eq (Documented.scans_commentEnds 0 text)] at hn
    obtain ⟨_, -, hleast⟩ := List.mem_filterMap.mp hn
    exact Token.mem_identifiersIn (Documented.leastFrom_eq_some_iff.mp hleast).1
  · intro inquiries source later hlater
    have hgrows : u.1 <+: later.1 := hnames ▸ names_grow backend reader inquiries t
    have hagain := Token.readAll_again (hread.symm.trans htokens)
      (later.1, (openSource backend source later.2).2) hgrows
    rw [tokensOf_of_supplies hlater, hagain]
  · intro inquiries source earlier others hsession hearlier hothers
    rcases hrun : tokensOf backend source earlier with ⟨r, v⟩
    rw [hrun] at hothers hsession
    obtain rfl : r = .ok others := hothers
    have hgrows : v.1 <+: s.1 := hsession ▸ names_grow backend reader inquiries v
    rw [tokensOf_of_supplies hearlier] at hrun
    have hagain := Token.readAll_again hrun (s.1, (openSource backend (.file file) s.2).2) hgrows
    rw [← hread, htokens] at hagain
    cases hagain
    rfl

/-- A text in which bytes and characters are not the same number: its identifier stands at byte 7, and the
comment before it documents it. -/
theorem identifiers_read_alike_accented :
    let bytes := Utf8.encode "/// é\nx = 1\n"
    let service := tokenService (oneToken 7) Kind.identifier
    let reader : SourceReader Unit := (Sources.ofSystem fun _ => .ok bytes).reader
    (∃ t, documentedOffsets service reader "a.swift" ([], ()) = (.ok [7], t)) ∧
      ∃ tokens, (tokensOf service (.file "a.swift") ([], ())).1 = .ok tokens ∧
        ∃ token ∈ tokens, token.kind = Kind.identifier ∧ token.offset = 7 := by
  intro bytes service reader
  let kind : Int → Text := fun _ => Kind.identifier
  have hkinds : ∀ r ∈ [(⟨4300000011, 7, 1⟩ : Token.Record)],
      NameCache.Resolves service.nameOf [] r.uid (kind r.uid) := resolves_tokenService _ _ 7
  have hrecords : Token.records (oneToken 7) = .ok [⟨4300000011, 7, 1⟩] := by decide
  have hoffsets : Documented.offsets (Utf8.decode bytes) (Token.identifiersOf kind [⟨4300000011, 7, 1⟩]) =
      [7] := by decide +kernel
  have hresult : (documentedOffsets service reader "a.swift" ([], ())).1 = .ok [7] := by
    rw [documentedOffsets_eq (s := ([], ())) rfl rfl hrecords hkinds rfl, hoffsets]
  have hrun : documentedOffsets service reader "a.swift" ([], ()) =
      (.ok [7], (documentedOffsets service reader "a.swift" ([], ())).2) := Prod.ext hresult rfl
  obtain ⟨-, tokens, -, hamong, htokens, -⟩ :=
    identifiers_read_alike.2 service reader "a.swift" ([], ()) _ [7] hrun
  exact ⟨⟨_, hrun⟩, tokens, htokens, hamong 7 List.mem_cons_self⟩

end Inspection

end SwiftLens
