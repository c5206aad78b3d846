import SwiftLens.Journal
import SwiftLens.Proofs.Calendar.Stamps
import SwiftLens.Proofs.Json.Layout

/-!
# The files of journals

A session is named after the point in time at which it begins, and its journal is in a file of that name.
`sessions_named_apart` is that sessions which begin at different points in time have different files, that
every one of these is directly in the directory for journals, and that in the years of four digits the
names of sessions are in the order in which the sessions began.

What a session is named with cannot lead anywhere else in the file system: without a slash it is one name,
and it is neither of the two names that stand for directories (`Path.IsName`). A path made of such names is
read back as its place (`Path.place_ofPlace`), resolving a path makes one (`Path.isName_place`), and
resolving such a name adds it to the place (`Path.resolve_resolve_name`).
-/

namespace SwiftLens

/-! ### Names in a path -/

namespace Text

/-- No piece of a split text has a unit at which it was split. -/
theorem eq_false_of_mem_splitOn {p : CodeUnit → Bool} {t piece : Text} (h : piece ∈ splitOn p t) :
    ∀ c ∈ piece, p c = false := by
  induction t generalizing piece with
  | nil =>
    obtain rfl := List.mem_singleton.mp h
    exact List.forall_mem_nil _
  | cons c t ih =>
    unfold splitOn at h
    split_ifs at h with hc
    · rcases List.mem_cons.mp h with rfl | h
      · exact List.forall_mem_nil _
      · exact ih h
    · have hc : p c = false := eq_false_of_ne_true hc
      split at h
      · obtain rfl := List.mem_singleton.mp h
        exact List.forall_mem_singleton.mpr hc
      · next first pieces hpieces =>
        rw [hpieces] at ih
        rcases List.mem_cons.mp h with rfl | h
        · exact List.forall_mem_cons.mpr ⟨hc, ih List.mem_cons_self⟩
        · exact ih (List.mem_cons_of_mem _ h)

end Text

namespace Path

/-- A name that stands for something in a directory. -/
structure IsName (name : Text) : Prop where
  ne_empty : name ≠ ""
  ne_dot : name ≠ "."
  ne_dots : name ≠ ".."
  slash_notMem : CodeUnit.slash ∉ name

/-- No name in a path has a slash. -/
theorem slash_notMem_of_mem_names {path name : Text} (h : name ∈ names path) : CodeUnit.slash ∉ name :=
  fun hslash => absurd (Text.eq_false_of_mem_splitOn h _ hslash) (by decide)

/-- A name without a slash is the only one of its path. -/
theorem names_of_slash_notMem {name : Text} (h : CodeUnit.slash ∉ name) : names name = [name] :=
  Text.splitOn_of_forall fun c hc => by
    rw [beq_eq_false_iff_ne]
    rintro rfl
    exact h hc

/-- A name leads one directory down. -/
theorem follow_name {name : Text} (h : IsName name) (place : List Text) :
    follow place name = name :: place := by
  rw [follow, if_neg (not_or.mpr ⟨h.ne_empty, h.ne_dot⟩), if_neg h.ne_dots]

/-- Names lead down one after the other. -/
theorem foldl_follow {names : List Text} (h : ∀ name ∈ names, IsName name) (place : List Text) :
    names.foldl follow place = names.reverse ++ place := by
  induction names generalizing place with
  | nil => rfl
  | cons name rest ih =>
    obtain ⟨hname, hrest⟩ := List.forall_mem_cons.mp h
    rw [List.foldl_cons, follow_name hname, ih hrest, List.reverse_cons, List.append_assoc]
    rfl

/-- Whatever a path goes through, it leads to a place of names. -/
theorem isName_foldl_follow {names place : List Text} (hnames : ∀ name ∈ names, CodeUnit.slash ∉ name)
    (hplace : ∀ name ∈ place, IsName name) : ∀ name ∈ names.foldl follow place, IsName name := by
  induction names generalizing place with
  | nil => exact hplace
  | cons name rest ih =>
    obtain ⟨hname, hrest⟩ := List.forall_mem_cons.mp hnames
    refine ih hrest ?_
    unfold follow
    split_ifs with hstay hup
    · exact hplace
    · exact fun other hother => hplace other (List.mem_of_mem_tail hother)
    · exact List.forall_mem_cons.mpr ⟨⟨fun h => hstay (.inl h), fun h => hstay (.inr h), hup, hname⟩, hplace⟩

/-- A place is made of names. -/
theorem isName_place (path : Text) : ∀ name ∈ place path, IsName name :=
  isName_foldl_follow (fun _ => slash_notMem_of_mem_names) (List.forall_mem_nil _)

/-- The place of the path of a place. -/
theorem place_ofPlace {there : List Text} (h : ∀ name ∈ there, IsName name) :
    place (ofPlace there) = there := by
  have hroot : names (ofPlace there) = [] :: names (Text.join "/" there.reverse) := rfl
  rw [place, hroot, List.foldl_cons]
  cases hplace : there.reverse with
  | nil =>
    rw [List.reverse_eq_nil_iff.mp hplace]
    rfl
  | cons first rest =>
    have hnames : names (Text.join "/" there.reverse) = there.reverse := by
      refine Text.splitOn_join (by decide) (by simp [hplace]) fun name hname c hc => ?_
      rw [beq_eq_false_iff_ne]
      rintro rfl
      exact (h name (List.mem_reverse.mp hname)).slash_notMem hc
    rw [← hplace, hnames, foldl_follow fun name hname => h name (List.mem_reverse.mp hname),
      List.reverse_reverse]
    exact List.append_nil there

/-- A name is resolved below the place of the directory. -/
theorem resolve_name {name : Text} (h : IsName name) (directory : Text) :
    resolve directory name = ofPlace (name :: place directory) := by
  have hrelative : isAbsolute name = false := by
    rw [isAbsolute, beq_eq_false_iff_ne]
    exact fun hhead => h.slash_notMem (List.mem_of_mem_head? hhead)
  rw [resolve, hrelative, if_neg Bool.false_ne_true, names_of_slash_notMem h.slash_notMem]
  exact congrArg ofPlace (follow_name h _)

/-- A name in a place other than the root follows the path of that place, after a slash. -/
theorem ofPlace_cons {there : List Text} (h : there ≠ []) (name : Text) :
    ofPlace (name :: there) = ofPlace there ++ ("/" ++ name) := by
  rw [ofPlace, List.reverse_cons, Text.join_append _ (by simpa using h) (List.cons_ne_nil _ _), ofPlace,
    List.append_assoc]
  rfl

/-- A name in a directory whose own name is given. -/
theorem resolve_resolve_name {name inner : Text} (h : IsName name) (hinner : IsName inner)
    (directory : Text) :
    let there := resolve directory inner
    resolve there name = there ++ ("/" ++ name) ∧ parent (resolve there name) = there := by
  intro there
  have hplace : place there = inner :: place directory := by
    show place (resolve directory inner) = _
    rw [resolve_name hinner, place_ofPlace (List.forall_mem_cons.mpr ⟨hinner, isName_place directory⟩)]
  have hthere : there = ofPlace (inner :: place directory) := resolve_name hinner directory
  rw [resolve_name h, hplace]
  refine ⟨by rw [ofPlace_cons (List.cons_ne_nil _ _), hthere], ?_⟩
  rw [parent, place_ofPlace, List.tail_cons, hthere]
  exact List.forall_mem_cons.mpr ⟨h, List.forall_mem_cons.mpr ⟨hinner, isName_place directory⟩⟩

end Path

namespace Journal

/-! ### The file of a session -/

/-- What a session is named with can stand in the name of a file. -/
theorem isName_sessionFile {session : Text}
    (h : ∀ c ∈ session, c.isDigit = true ∨ c ∈ Calendar.signs) : Path.IsName (session ++ ".jsonl") := by
  have hlength : (session ++ Text.ofString ".jsonl").length = session.length + 6 := List.length_append
  have hshort : ∀ t : Text, t.length < 6 → session ++ ".jsonl" ≠ t := fun t ht heq => by
    rw [← heq] at ht
    omega
  refine ⟨hshort _ (by decide), hshort _ (by decide), hshort _ (by decide), ?_⟩
  rw [List.mem_append, not_or]
  refine ⟨fun hslash => ?_, by decide⟩
  have := h _ hslash
  revert this
  decide

/-- A session has its file directly in the directory for journals, under its name. -/
theorem file_ofSession {session : Text} (h : ∀ c ∈ session, c.isDigit = true ∨ c ∈ Calendar.signs)
    (stateDir : Text) :
    (ofSession stateDir session).file = Path.resolve stateDir "audit" ++ ("/" ++ (session ++ ".jsonl")) ∧
      Path.parent (ofSession stateDir session).file = Path.resolve stateDir "audit" :=
  Path.resolve_resolve_name (isName_sessionFile h) ⟨by decide, by decide, by decide, by decide⟩ stateDir

/-- Every point in time that the calendar covers names a session. Sessions that begin at different points in
time have different names and different files. A name is the stamp of its point in time with minus signs for
colons and full stops. It is made of digits, signs and two letters only, so that its file is directly in the
directory for journals. In the years 0 to 9999, a session that begins earlier has a name that sorts before
that of a later one. -/
theorem sessions_named_apart (stateDir : Text) {a b : Int} (ha : |a| ≤ 8640000000000000)
    (hb : |b| ≤ 8640000000000000) :
    ∃ x y, Calendar.sessionId a = .ok x ∧ Calendar.sessionId b = .ok y ∧
      (x = y → a = b) ∧ ((ofSession stateDir x).file = (ofSession stateDir y).file → a = b) ∧
      x = (Calendar.stamp a).map Calendar.fileUnit ∧
      (∀ c ∈ x, c.isDigit = true ∨ c ∈ ("+-TZ" : Text)) ∧
      (ofSession stateDir x).file = Path.resolve stateDir "audit" ++ ("/" ++ (x ++ ".jsonl")) ∧
      Path.parent (ofSession stateDir x).file = Path.resolve stateDir "audit" ∧
      (0 ≤ (Calendar.dateOf a).year ∧ (Calendar.dateOf a).year ≤ 9999 →
        0 ≤ (Calendar.dateOf b).year ∧ (Calendar.dateOf b).year ≤ 9999 → a < b → x < y) := by
  have hcovers : ∀ {ms : Int}, |ms| ≤ 8640000000000000 → Calendar.covers ms = true := fun h => by
    rw [Int.abs_eq_natAbs] at h
    exact decide_eq_true (by unfold Calendar.maxDistance; omega)
  have hunits : ∀ ms, ∀ c ∈ Calendar.write "-" "-" ms, c.isDigit = true ∨ c ∈ Calendar.signs := fun ms =>
    have hminus : ∀ c ∈ Text.ofString "-", c.isDigit = true ∨ c ∈ Calendar.signs := fun c hc =>
      .inr ((by decide : Text.ofString "-" ⊆ Calendar.signs) hc)
    Calendar.forall_mem_write (fun c hc => .inl hc) (fun c hc => .inr hc) hminus hminus ms
  have hapart : Calendar.write "-" "-" a = Calendar.write "-" "-" b → a = b :=
    Calendar.write_injOn "-" "-" (hcovers ha) (hcovers hb)
  obtain ⟨hfile, hparent⟩ := file_ofSession (hunits a) stateDir
  refine ⟨_, _, Calendar.sessionId_of_covers (hcovers ha), Calendar.sessionId_of_covers (hcovers hb),
    hapart, fun hsame => hapart ?_, (Calendar.map_stamp a).symm, hunits a, hfile, hparent,
    Calendar.write_lt "-" "-"⟩
  rw [hfile, (file_ofSession (hunits b) stateDir).1] at hsame
  exact List.append_cancel_right (List.append_cancel_left (List.append_cancel_left hsame))

/-- The last millisecond of a leap day and the first one after it. -/
theorem sessions_named_apart_leap_day :
    |(951868799999 : Int)| ≤ 8640000000000000 ∧ |(951868800000 : Int)| ≤ 8640000000000000 ∧
      Calendar.sessionId 951868799999 = .ok "2000-02-29T23-59-59-999Z" ∧
      Calendar.sessionId 951868800000 = .ok "2000-03-01T00-00-00-000Z" ∧
      ("2000-02-29T23-59-59-999Z" : Text) < "2000-03-01T00-00-00-000Z" ∧
      Path.parent (ofSession "/state" "2000-02-29T23-59-59-999Z").file = "/state/audit" := by
  have ha : |(951868799999 : Int)| ≤ 8640000000000000 := by decide
  have hb : |(951868800000 : Int)| ≤ 8640000000000000 := by decide
  have hx : Calendar.sessionId 951868799999 = .ok "2000-02-29T23-59-59-999Z" := rfl
  have hy : Calendar.sessionId 951868800000 = .ok "2000-03-01T00-00-00-000Z" := rfl
  obtain ⟨x, y, hx', hy', -, -, -, -, -, hparent, hlt⟩ := sessions_named_apart "/state" ha hb
  obtain rfl := Except.ok.inj (hx.symm.trans hx')
  obtain rfl := Except.ok.inj (hy.symm.trans hy')
  exact ⟨ha, hb, hx, hy, hlt (by decide) (by decide) (by decide), hparent⟩

end Journal

end SwiftLens
