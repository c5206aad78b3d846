import SwiftLens.Proofs.Inspection.Requests
import SwiftLens.Proofs.Link.Attached
import SwiftLens.Proofs.Link.Lines

/-!
# Requests on the wire

What a session sends to the helper's process, it sends as lines, and some of the lines are requests.
`requests_on_the_wire` says of each of these, for every process and whatever it answers, that the session
built the request under an identifier that the process gave, and what a reader of wire forms makes of it:
the very request, if the identifier fits in 64 bits, and a refusal otherwise. So all requests are valid as
long as the process gives identifiers of 64 bits. Nothing in between looks at the size of an identifier:
`large_uid_refused` is a process that gives a larger one and gets it back in a request that has no reader.

The identifier is the only part of a request that can be at fault. Offsets are counted by doubles, keys are
distinct and there are no doubles in a request.
-/

namespace SwiftLens

variable {α σ τ : Type}

/-! ### Lines of requests -/

namespace Request

/-- The command of a line. -/
def commandOf? (line : Text) : Option (Json Double) :=
  (Json.parse? line).bind (Json.member? "command")

/-- The request of a line, which stands in its arguments. -/
def treeOf? (line : Text) : Option (Json Double) :=
  ((Json.parse? line).bind (Json.member? "arguments")).bind (Json.member? "request")

/-- The command of a line is that of its question. -/
theorem commandOf?_line (seq : Nat) (ask : Ask) :
    commandOf? (ask.line seq) = some (.string ask.command) := by
  rw [commandOf?, Ask.parse?_line]
  rfl

/-- The request of a line is the wire form of what is asked. -/
theorem treeOf?_line (seq : Nat) (request : Value) :
    treeOf? ((Ask.respond request).line seq) = some (Wire.encode request).asWritten := by
  rw [treeOf?, Ask.parse?_line]
  rfl

/-- The question of a line with the command of requests is a request. -/
theorem exists_respond_of_commandOf? {seq : Nat} {ask : Ask}
    (h : commandOf? (ask.line seq) = some (.string "request.send")) : ∃ request, ask = .respond request := by
  rw [commandOf?_line] at h
  have hcommand : ask.command = "request.send" := Json.string.inj (Option.some.inj h)
  cases ask with
  | respond request => exact ⟨request, rfl⟩
  | connect | uidOf | nameOf | disconnect => exact absurd hcommand (by simp only [Ask.command]; decide)

/-! ### Requests that are read back -/

/-- Strings have neither keys nor numbers. -/
theorem strings_plain (args : List Text) :
    Value.ItemsHaveDistinctKeys (args.map .string) ∧ Value.ItemsFitIn64Bits (args.map .string) ∧
      Value.ItemsHavePlainDoubles (args.map .string) := by
  induction args with
  | nil => exact ⟨trivial, trivial, trivial⟩
  | cons arg rest ih => exact ⟨⟨trivial, ih.1⟩, ⟨trivial, ih.2.1⟩, ⟨trivial, ih.2.2⟩⟩

variable {uid : Int} {name : Text} {request : Entries Value}

/-- A request that is built has no key twice. -/
theorem IsBuilt.hasDistinctKeys (h : IsBuilt uid name request) :
    (Value.dictionary request).HasDistinctKeys := by
  cases h with
  | opening source =>
    cases source with
    | file path =>
      have hkeys : [Key.request, Key.name, Key.sourceFile].Nodup := by decide
      exact ⟨hkeys, trivial, trivial, trivial, trivial⟩
    | text source =>
      have hkeys : [Key.request, Key.name, Key.sourceText].Nodup := by decide
      exact ⟨hkeys, trivial, trivial, trivial, trivial⟩
  | cursor args file hlow hhigh =>
    have hkeys : [Key.request, Key.compilerArgs, Key.sourceFile, Key.offset].Nodup := by decide
    exact ⟨hkeys, trivial, (strings_plain args).1, trivial, trivial, trivial⟩

/-- A request that is built fits into 64 bits if its identifier does. -/
theorem IsBuilt.fitsIn64Bits (h : IsBuilt uid name request) (hlow : 0 ≤ uid) (hhigh : uid < 2 ^ 64) :
    (Value.dictionary request).FitsIn64Bits := by
  have huid : 0 ≤ uid ∧ uid ≤ 2 ^ 64 - 1 := ⟨hlow, by omega⟩
  cases h with
  | opening source => cases source <;> exact ⟨huid, trivial, trivial, trivial⟩
  | @cursor args file offset hlow hhigh =>
    have hoffset : -2 ^ 63 ≤ offset ∧ offset ≤ 2 ^ 63 - 1 := ⟨by omega, by omega⟩
    exact ⟨huid, (strings_plain args).2.1, trivial, hoffset, trivial⟩

/-- There are no doubles in a request that is built. -/
theorem IsBuilt.hasPlainDoubles (h : IsBuilt uid name request) :
    (Value.dictionary request).HasPlainDoubles := by
  cases h with
  | opening source => cases source <;> exact ⟨trivial, trivial, trivial, trivial⟩
  | cursor args file => exact ⟨trivial, (strings_plain args).2.2, trivial, trivial, trivial⟩

/-- A request begins with its identifier. -/
theorem IsBuilt.exists_cons (h : IsBuilt uid name request) :
    ∃ rest, request = (Key.request, .uint64 uid) :: rest := by
  cases h with
  | opening source => cases source <;> exact ⟨_, rfl⟩
  | cursor args file => exact ⟨_, rfl⟩

end Request

/-- The refusal of a request whose identifier takes more than 64 bits. -/
def Wire.largeUid (uid : Int) : Located Wire.Defect :=
  ⟨[.field "dictionary", .item 0, .item 1, .field "uint64"], .outOfRange (Text.ofInt uid) "uint64"⟩

/-- A dictionary that begins with an integer of more than 64 bits is refused for it. -/
theorem Wire.decode_encode_of_large {uid : Int} (h : 2 ^ 64 ≤ uid) (key : Text) (rest : Entries Value) :
    decode (encode (.dictionary ((key, .uint64 uid) :: rest))) = .error (Wire.largeUid uid) := by
  have hinteger : decodeInteger "uint64" unsigned? unsignedRange (.string (Text.ofInt uid))
      = .error ⟨[], .outOfRange (Text.ofInt uid) "uint64"⟩ := by
    have hlarge : uid < unsignedRange.1 ∨ unsignedRange.2 < uid := by
      refine .inr ?_
      show (0xFFFFFFFFFFFFFFFF : Int) < uid
      omega
    simp only [decodeInteger, unsigned?_ofInt (show 0 ≤ uid by omega), if_pos hlarge]
    rfl
  have hvalue : decode (encode (.uint64 uid))
      = .error ⟨[.field "uint64"], .outOfRange (Text.ofInt uid) "uint64"⟩ := by
    rw [encode, decode_tagged_uint64, hinteger]
    rfl
  have hnew : Entries.has ([] : Entries Value) key = false := rfl
  rw [encode, decode_tagged_dictionary, encodeEntries, decodeDictionary, decodePairs, hnew, hvalue]
  rfl

/-- What a reader makes of a request that was built. -/
theorem Request.IsBuilt.decode_asWritten {uid : Int} {name : Text} {request : Entries Value}
    (h : IsBuilt uid name request) (hlow : 0 ≤ uid) :
    Wire.decode (Wire.encode (.dictionary request)).asWritten
      = if uid < 2 ^ 64 then .ok (.dictionary request) else .error (Wire.largeUid uid) := by
  split
  · next hhigh =>
    exact Wire.decode_asWritten_encode h.hasDistinctKeys (h.fitsIn64Bits hlow hhigh) h.hasPlainDoubles
  · next hlarge =>
    obtain ⟨rest, hrest⟩ := h.exists_cons
    rw [Wire.asWritten_encode _ h.hasPlainDoubles, hrest]
    exact Wire.decode_encode_of_large (by omega) Key.request rest

/-! ### The record and what is written -/

/-- A reader of source text that reads where the process runs. -/
def SourceReader.attached (reader : SourceReader τ) : SourceReader (Attached τ) where
  whole file s :=
    match reader.whole file s.2.outside with
    | (r, t) => (r, (s.1, { s.2 with outside := t }))
  range file offset length s :=
    match reader.range file offset length s.2.outside with
    | (r, t) => (r, (s.1, { s.2 with outside := t }))

/-- A piece that was written is the line of a question, and if the question is a request, the record shows
it. -/
def IsAccounted (record : List Exchange) (chunk : Utf8.Bytes) : Prop :=
  ∃ seq ask, chunk = Utf8.encode (Ask.line seq ask ++ "\n") ∧
    ∀ value, ask = .respond value →
      ∃ request answer, value = .dictionary request ∧ .respond request answer ∈ record

/-- What is accounted for in a record is accounted for in one that goes on. -/
theorem IsAccounted.mono {record more : List Exchange} {chunk : Utf8.Bytes}
    (h : IsAccounted record chunk) (hsub : record ⊆ more) : IsAccounted more chunk := by
  obtain ⟨seq, ask, hchunk, hask⟩ := h
  refine ⟨seq, ask, hchunk, fun value hvalue => ?_⟩
  obtain ⟨request, answer, hrequest, hmem⟩ := hask value hvalue
  exact ⟨request, answer, hrequest, hsub hmem⟩

/-- Since `before`, every piece that was written is accounted for in the record, and every identifier
that was given is a natural number. -/
structure Tallies (before : List Utf8.Bytes)
    (s : List Exchange × Attached (List Utf8.Bytes × τ)) : Prop where
  written : ∃ made, s.2.2.outside.1 = before ++ made ∧ ∀ chunk ∈ made, IsAccounted s.1 chunk
  uids : ∀ name uid, .uidOf name (.ok uid) ∈ s.1 → 0 ≤ uid

namespace Tallies

variable {before : List Utf8.Bytes}

/-- A question that is written down keeps the tally, if what it writes is accounted for by its exchange. -/
theorem noted {a : Action (Attached (List Utf8.Bytes × τ)) α} {note : Except Fault α → Exchange}
    (hwritten : ∀ s, ∃ made, (a s).2.2.outside.1 = s.2.outside.1 ++ made ∧
      ∀ chunk ∈ made, IsAccounted [note (a s).1] chunk)
    (huid : ∀ s name uid, note (a s).1 = .uidOf name (.ok uid) → 0 ≤ uid) :
    (a.noted note).Preserves (Tallies before) := by
  rintro ⟨record, s⟩ ⟨⟨made, hmade, haccounted⟩, huids⟩
  obtain ⟨more, hmore, haccounted'⟩ := hwritten s
  refine ⟨⟨made ++ more, ?_, ?_⟩, ?_⟩
  · show (a s).2.2.outside.1 = _
    rw [hmore, show s.2.outside.1 = _ from hmade, List.append_assoc]
  · intro chunk hchunk
    rcases List.mem_append.mp hchunk with hchunk | hchunk
    · exact (haccounted chunk hchunk).mono (List.subset_append_left record _)
    · exact (haccounted' chunk hchunk).mono (List.subset_append_right record _)
  · intro name uid hmem
    rcases List.mem_append.mp hmem with hmem | hmem
    · exact huids name uid hmem
    · exact huid s name uid (List.mem_singleton.mp hmem).symm

/-- What only looks at a result leaves the state as it found it. -/
theorem state_bind {β : Type} {a : Action σ α} {f : α → Action σ β} (hf : ∀ x t, (f x t).2 = t) (s : σ) :
    ((a >>= f) s).2 = (a s).2 := by
  rcases hrun : a s with ⟨e | x, t⟩
  · rw [Action.bind_of_error hrun]
  · rw [Action.bind_of_ok hrun, hf]

/-- The questions of a backend leave the outside as its attachment does. -/
theorem outside_backend (a : Attachment τ) (s : Attached τ) :
    (∀ name, (a.backend.uidOf name s).2 = (a.ask (.uidOf name) s).2) ∧
      (∀ uid, (a.backend.nameOf uid s).2 = (a.ask (.nameOf uid) s).2) ∧
      ∀ request, (a.backend.respond request s).2 = (a.ask (.respond (.dictionary request)) s).2 := by
  refine ⟨fun name => ?_, fun uid => ?_, fun request => ?_⟩
  all_goals
    apply state_bind
    intro answer t
    cases answer <;> rfl

/-- The identifier that a backend at the end of a link gives is a natural number. -/
theorem uid_nonneg (a : Attachment τ) (name : Text) (s : Attached τ) {uid : Int}
    (h : (a.backend.uidOf name s).1 = .ok uid) : 0 ≤ uid := by
  rcases hrun : a.ask (.uidOf name) s with ⟨e | answer, t⟩
  · simp [Attachment.backend, Action.bind_of_error hrun] at h
  · cases answer with
    | uid n =>
      have huid : (n : Int) = uid := by simpa [Attachment.backend, Action.bind_of_ok hrun] using h
      omega
    | done | name | response => simp [Attachment.backend, Action.bind_of_ok hrun] at h

/-- The lines of a question are accounted for by its exchange. -/
theorem accounted_of_ask (a : Attachment τ) {ask : Ask} {x : Exchange}
    (hask : ∀ value, ask = .respond value → ∃ request answer, value = .dictionary request ∧
      x = .respond request answer) (s : Attached (List Utf8.Bytes × τ)) :
    ∃ made, (a.tapped.ask ask s).2.2.outside.1 = s.2.outside.1 ++ made ∧
      ∀ chunk ∈ made, IsAccounted [x] chunk := by
  obtain ⟨made, hmade, hlines⟩ := a.written_ask ask s
  refine ⟨made, hmade, fun chunk hchunk => ?_⟩
  obtain ⟨seq, hseq⟩ := hlines chunk hchunk
  refine ⟨seq, ask, hseq, fun value hvalue => ?_⟩
  obtain ⟨request, answer, hrequest, rfl⟩ := hask value hvalue
  exact ⟨request, answer, hrequest, List.mem_singleton_self _⟩

/-- A reading of source text writes nothing to the process. -/
theorem reading {a : Action (Attached (List Utf8.Bytes × τ)) α} {note : Except Fault α → Exchange}
    (hread : ∀ s, (a s).2.2.outside.1 = s.2.outside.1) (hnote : ∀ r name answer, note r ≠ .uidOf name answer) :
    (a.noted note).Preserves (Tallies before) :=
  noted (fun s => ⟨[], by rw [hread, List.append_nil], by simp⟩)
    fun s name uid huid => absurd huid (hnote _ _ _)

/-- Every question and every reading keeps the tally. -/
theorem preserved (a : Attachment τ) (reader : SourceReader τ) (before : List Utf8.Bytes) :
    Preserved (Tallies before) a.tapped.backend.recorded
      (reader.second.attached : SourceReader (Attached (List Utf8.Bytes × τ))).recorded where
  uidOf name := by
    refine noted (fun s => ?_) fun s name' uid huid => ?_
    · rw [(outside_backend a.tapped s).1]
      exact accounted_of_ask a (by simp) s
    · obtain ⟨-, hanswer⟩ := Exchange.uidOf.inj huid
      exact uid_nonneg a.tapped name s hanswer
  nameOf uid := by
    refine noted (fun s => ?_) fun s name' uid huid => by cases huid
    rw [(outside_backend a.tapped s).2.1]
    exact accounted_of_ask a (by simp) s
  respond request := by
    refine noted (fun s => ?_) fun s name' uid huid => by cases huid
    rw [(outside_backend a.tapped s).2.2]
    exact accounted_of_ask a (fun value hvalue => ⟨request, _, (Ask.respond.inj hvalue).symm, rfl⟩) s
  whole file := reading (fun s => rfl) (by simp)
  range file offset length := reading (fun s => rfl) (by simp)

end Tallies

/-! ### Sessions -/

namespace Inspection

open Request (IsBuilt commandOf? treeOf?)

/-- For every process, whatever it does and answers, for every journal and every source text: what a
session writes to the process is lines. Each line with the command of requests carries a request that the
session has made, under an identifier that the process has given in it. Read as a wire form, it is
accepted and gives that very request if the identifier is less than `2 ^ 64`, and it is refused for the
identifier otherwise. -/
theorem requests_on_the_wire (a : Attachment τ) (reader : SourceReader τ) (inquiries : List Inquiry)
    (names : NameCache) (s : Attached (List Utf8.Bytes × τ)) :
    let out := (session a.tapped.backend.recorded reader.second.attached.recorded inquiries
      (names, ([], s))).2
    ∃ made, out.2.2.2.outside.1 = s.2.outside.1 ++ made ∧
      ∀ chunk ∈ made, ∃ line, chunk = Utf8.encode (line ++ "\n") ∧
        (commandOf? line = some (.string "request.send") →
          ∃ request answer name uid raw, .respond request answer ∈ out.2.1 ∧
            .uidOf name (.ok uid) ∈ out.2.1 ∧ IsBuilt uid name request ∧ treeOf? line = some raw ∧
            Wire.decode raw =
              if uid < 2 ^ 64 then .ok (.dictionary request) else .error (Wire.largeUid uid)) := by
  intro out
  have hstart : Tallies s.2.outside.1 (([], s) : List Exchange × Attached (List Utf8.Bytes × τ)) :=
    ⟨⟨[], (List.append_nil _).symm, by simp⟩, by simp⟩
  have htally : Tallies s.2.outside.1 out.2 :=
    session_preserves (Tallies.preserved a reader s.2.outside.1) inquiries (s := (names, ([], s))) hstart
  have hgrounded : AllGrounded out.2.1 :=
    allGrounded_session a.tapped.backend _ inquiries allGrounded_nil
  obtain ⟨made, hmade, haccounted⟩ := htally.written
  refine ⟨made, hmade, fun chunk hchunk => ?_⟩
  obtain ⟨seq, ask, hline, hask⟩ := haccounted chunk hchunk
  refine ⟨ask.line seq, hline, fun hcommand => ?_⟩
  obtain ⟨value, rfl⟩ := Request.exists_respond_of_commandOf? hcommand
  obtain ⟨request, answer, rfl, hmem⟩ := hask value rfl
  obtain ⟨name, uid, huid, hbuilt⟩ := hgrounded request answer hmem
  exact ⟨request, answer, name, uid, _, hmem, huid, hbuilt, Request.treeOf?_line seq _,
    hbuilt.decode_asWritten (htally.uids name uid huid)⟩

/-- A process that does what it has been told to do, each time it is looked at. -/
def scriptedProcess : Launcher (List (List ProcessEvent)) where
  spawn := pure ()
  write _ script := script
  finish script := script
  poll script := (script.headD [], script.tail)

/-- An attachment to such a process, without a journal. -/
def scripted : Attachment (List (List ProcessEvent)) where
  process := scriptedProcess
  journal := none
  store := ⟨fun _ => pure (), fun _ _ => pure ()⟩
  timeout := Double.ofNat 1000
  beginning := 0

/-- A reply that gives the first question an identifier of 65 bits. -/
def largeUidReply : Text :=
  "\x7b\"seq\":1,\"success\":true,\"body\":\x7b\"uid\":\"18446744073709551616\"\x7d\x7d\n"

/-- A process that gives an identifier of 65 bits gets it back, in a request that has no reader. -/
theorem large_uid_refused :
    let script : List (List ProcessEvent) := [[], [.output (Utf8.encode largeUidReply)]]
    let line := (Ask.respond (.dictionary (Request.opening (2 ^ 64) (.text "")))).line 2
    Utf8.encode (line ++ "\n") ∈ (session scripted.tapped.backend (Sources.ofTexts [])
        [.tokens (.text "")] ([], scripted.tapped.begin ([], script))).2.2.2.outside.1 ∧
      commandOf? line = some (.string "request.send") ∧
      ∃ raw, treeOf? line = some raw ∧ Wire.decode raw = .error (Wire.largeUid (2 ^ 64)) := by
  intro script line
  refine ⟨by decide +kernel, Request.commandOf?_line 2 _, _, Request.treeOf?_line 2 _, ?_⟩
  exact (IsBuilt.opening (.text "")).decode_asWritten (by decide)

end Inspection

end SwiftLens
