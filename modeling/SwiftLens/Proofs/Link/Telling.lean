import SwiftLens.Proofs.Link.Stations

/-!
# What the asker of a question is told

A question that is settled has a verdict: the body of the reply to it, or a fault. When it is concluded its
asker is told what came of it. `Told` says what that is: a fault is passed on as it is; a body is read in the
manner of the question (`Says`), and where it cannot be read its defect is the fault; and the question that
ends the session fails by the fault of closing the helper, if there is one, whatever its verdict.

Every settled question is still to be concluded, or it was concluded by one event of the run, and its asker
was told so, once (`telling_of_settled`).
-/

namespace SwiftLens

variable {τ : Type}

/-! ### Reading -/

/-- A line is a reply just in case it is an object with a number and an outcome; its message is left out
if it is no text. -/
theorem Reply.read_eq_ok_iff {text : Text} {r : Reply} :
    Reply.read text = .ok r ↔ ∃ members : Entries (Json Double), Json.parse? text = some (.object members) ∧
      members.get? "seq" = some (.number r.seq) ∧ members.get? "success" = some (.bool r.success) ∧
      (∀ m, r.message = some m ↔ members.get? "message" = some (.string m)) ∧
      r.body = members.get? "body" := by
  have hmembers : ∀ members : Entries (Json Double), Reply.ofMembers members = .ok r ↔
      members.get? "seq" = some (.number r.seq) ∧ members.get? "success" = some (.bool r.success) ∧
        (∀ m, r.message = some m ↔ members.get? "message" = some (.string m)) ∧
        r.body = members.get? "body" := by
    intro members
    unfold Reply.ofMembers
    split
    · next seq success hseq hsuccess =>
      obtain ⟨rseq, rsuccess, rmessage, rbody⟩ := r
      rw [hseq, hsuccess, Except.ok.injEq, Reply.mk.injEq, Option.some.injEq, Json.number.injEq,
        Option.some.injEq, Json.bool.injEq, eq_comm (a := rbody)]
      refine and_congr_right fun _ => and_congr_right fun _ => and_congr_left fun _ => ?_
      split
      · next t ht =>
        rw [ht]
        constructor
        · rintro rfl m
          simp
        · intro h
          exact ((h t).mpr rfl).symm
      · next hnone =>
        constructor
        · rintro rfl m
          exact ⟨nofun, fun hm => absurd hm (hnone m)⟩
        · intro h
          cases rmessage with
          | none => rfl
          | some m => exact absurd ((h m).mp rfl) (hnone m)
    · next hnone =>
      constructor
      · intro h
        cases h
      · rintro ⟨hseq, hsuccess, -⟩
        exact absurd hsuccess (hnone _ _ hseq)
  unfold Reply.read
  split
  · next hparse => simp [hparse]
  · next members hparse => simp [hparse, hmembers]
  · next value hnot hparse =>
    constructor
    · intro h
      cases h
    · rintro ⟨members, hmembers, -⟩
      rw [hparse, Option.some.injEq] at hmembers
      exact absurd hmembers (hnot members)

/-- What the body of a success reply says to a question. -/
inductive Says : Ask → Option (Json Double) → Answer → Prop where
  /-- To begin the session nothing has to be said. -/
  | connect (body : Option (Json Double)) : Says .connect body .done
  /-- An identifier in decimal, in the field for it. -/
  | uidOf {name : Text} {members : Entries (Json Double)} {digits : Text} {uid : Nat}
      (hfield : members.get? "uid" = some (.string digits)) (hdigits : digits.toNat? = some uid) :
      Says (.uidOf name) (some (.object members)) (.uid uid)
  /-- A name, in the field for it. -/
  | named {uid : Int} {members : Entries (Json Double)} {name : Text}
      (hfield : members.get? "name" = some (.string name)) :
      Says (.nameOf uid) (some (.object members)) (.name (some name))
  /-- Nothing, in the field for a name. -/
  | nameless {uid : Int} {members : Entries (Json Double)} (hfield : members.get? "name" = some .null) :
      Says (.nameOf uid) (some (.object members)) (.name none)
  /-- The wire form of a response, in the field for it. -/
  | respond {request : Value} {members : Entries (Json Double)} {raw : Json Double} {tree : Value}
      (hfield : members.get? "response" = some raw) (hdecode : Wire.decode raw = .ok tree) :
      Says (.respond request) (some (.object members)) (.response tree)
  /-- To end the session nothing has to be said. -/
  | disconnect (body : Option (Json Double)) : Says .disconnect body .done

/-- A field of a body is a member of an object. -/
theorem Ask.field_eq_ok_iff {ask : Ask} {name : Text} {body : Option (Json Double)} {value : Json Double} :
    ask.field name body = .ok value ↔
      ∃ members : Entries (Json Double), body = some (.object members) ∧ members.get? name = some value := by
  unfold field
  rcases body with _ | _ | _ | _ | _ | _ | members
  case some.object =>
    simp only [Option.bind_some, Json.member?, Option.some.injEq, Json.object.injEq, exists_eq_left']
    cases hget : Entries.get? name members <;> simp
  all_goals simp [Json.member?]

/-- A question takes from a body what the body says to it. -/
theorem says_iff {ask : Ask} {body : Option (Json Double)} {a : Answer} :
    Says ask body a ↔ ask.interpret body = .ok a := by
  constructor
  · intro h
    cases h with
    | connect | disconnect => rfl
    | uidOf hfield hdigits =>
      rw [Ask.interpret, Ask.field_eq_ok_iff.mpr ⟨_, rfl, hfield⟩]
      simp only [hdigits]
    | named hfield => rw [Ask.interpret, Ask.field_eq_ok_iff.mpr ⟨_, rfl, hfield⟩]
    | nameless hfield => rw [Ask.interpret, Ask.field_eq_ok_iff.mpr ⟨_, rfl, hfield⟩]
    | respond hfield hdecode =>
      rw [Ask.interpret, Ask.field_eq_ok_iff.mpr ⟨_, rfl, hfield⟩]
      simp only [hdecode]
  · intro h
    cases ask with
    | connect =>
      obtain rfl : Answer.done = a := Except.ok.inj h
      exact .connect body
    | disconnect =>
      obtain rfl : Answer.done = a := Except.ok.inj h
      exact .disconnect body
    | uidOf name =>
      rw [Ask.interpret] at h
      split at h
      · cases h
      · next digits hvalue =>
        obtain ⟨members, rfl, hget⟩ := Ask.field_eq_ok_iff.mp hvalue
        split at h
        · next uid hdigits =>
          obtain rfl : Answer.uid uid = a := Except.ok.inj h
          exact .uidOf hget hdigits
        · cases h
      · cases h
    | nameOf uid =>
      rw [Ask.interpret] at h
      split at h
      · cases h
      · next name hvalue =>
        obtain ⟨members, rfl, hget⟩ := Ask.field_eq_ok_iff.mp hvalue
        obtain rfl : Answer.name (some name) = a := Except.ok.inj h
        exact .named hget
      · next hvalue =>
        obtain ⟨members, rfl, hget⟩ := Ask.field_eq_ok_iff.mp hvalue
        obtain rfl : Answer.name none = a := Except.ok.inj h
        exact .nameless hget
      · cases h
    | respond request =>
      rw [Ask.interpret] at h
      split at h
      · cases h
      · next raw hvalue =>
        obtain ⟨members, rfl, hget⟩ := Ask.field_eq_ok_iff.mp hvalue
        split at h
        · next tree hdecode =>
          obtain rfl : Answer.response tree = a := Except.ok.inj h
          exact .respond hget hdecode
        · cases h

/-! ### Telling -/

/-- What the asker of a question is told for a verdict, when the outside is in the given state. -/
inductive Told (outlet : Outlet τ) (t : τ) (ask : Ask) : Verdict → Except Fault Answer → Prop where
  /-- The question ends the session, and the helper cannot be closed. -/
  | unclosed {v : Verdict} {e : Fault} (hask : ask = .disconnect) (hclose : (outlet.close t).1 = .error e) :
      Told outlet t ask v (.error e)
  /-- A fault. -/
  | fault {e : Fault} (hclose : ask = .disconnect → (outlet.close t).1 = .ok ()) :
      Told outlet t ask (.error e) (.error e)
  /-- What the body says. -/
  | read {body : Option (Json Double)} {a : Answer} (hclose : ask = .disconnect → (outlet.close t).1 = .ok ())
      (hread : Says ask body a) : Told outlet t ask (.ok body) (.ok a)
  /-- That the body says nothing to the question. -/
  | unread {body : Option (Json Double)} {defect : BodyDefect} (hread : ∀ a, ¬ Says ask body a) :
      Told outlet t ask (.ok body) (.error (.body defect))

/-- What the asker is told when a question is concluded. -/
theorem Dialogue.told_of_conclude (outlet : Outlet τ) (r : Settled) (s : Link × τ) :
    Told outlet s.2 r.1.ask r.2 (Link.conclude outlet r s).1.outcome := by
  obtain ⟨q, v⟩ := r
  by_cases hask : q.ask = .disconnect
  · rcases hclose : outlet.close s.2 with ⟨e | ⟨⟩, t⟩
    · rw [conclude_of_disconnect hask hclose]
      exact .unclosed hask (congrArg Prod.fst hclose)
    · have hclosed : q.ask = .disconnect → (outlet.close s.2).1 = .ok () := fun _ => congrArg Prod.fst hclose
      rw [conclude_of_disconnect hask hclose]
      cases v with
      | error e => exact .fault hclosed
      | ok body => exact .read hclosed (hask ▸ .disconnect body)
  · rw [conclude_of_ne hask]
    have hclosed : q.ask = .disconnect → (outlet.close s.2).1 = .ok () := fun h => absurd h hask
    cases v with
    | error e => exact .fault hclosed
    | ok body =>
      rw [Link.answer]
      cases hread : q.ask.interpret body with
      | ok a => exact .read hclosed (says_iff.mpr hread)
      | error defect =>
        refine .unread fun a ha => ?_
        rw [says_iff, hread] at ha
        cases ha

namespace Dialogue

/-- What is said to the asker with the given ticket. -/
def conclusionsOf (ticket : Nat) (xs : List Conclusion) : List Conclusion := xs.filter fun x => x.ticket == ticket

/-- The asker of a question that is not concluded is told nothing. -/
theorem conclusionsOf_eq_nil {ticket : Nat} {xs : List Conclusion} (h : ticket ∉ xs.map Conclusion.ticket) :
    conclusionsOf ticket xs = [] := by
  rw [conclusionsOf, List.filter_eq_nil_iff]
  intro x hx heq
  exact h (List.mem_map.mpr ⟨x, hx, by simpa using heq⟩)

/-- What the asker of a settled question is told in a run of the given events. -/
inductive Telling (outlet : Outlet τ) (start : Dialogue τ) (es : List (Event τ)) (r : Settled) :
    List Conclusion → Prop where
  /-- Nothing yet. -/
  | later (h : r ∈ (run outlet es start).2.unconcluded) : Telling outlet start es r []
  /-- What came of the question, when it was concluded. -/
  | told {us vs : List (Event τ)} {o : Except Fault Answer} (hes : es = us ++ .conclude r.1.seq :: vs)
      (hr : r ∈ (run outlet us start).2.unconcluded)
      (htold : Told outlet (run outlet us start).2.outside r.1.ask r.2 o) :
      Telling outlet start es r [⟨r.1.ticket, o⟩]

/-- What was settled stays settled, and it stays to be concluded unless it is concluded. -/
theorem unconcluded_step {outlet : Outlet τ} {concluded : List Conclusion} {d : Dialogue τ}
    (hinv : Invariant concluded d) (e : Event τ) {r : Settled} (hr : r ∈ (step outlet d e).2.settled) :
    r ∈ (step outlet d e).2.unconcluded ∨ (r ∈ d.settled ∧ r ∉ d.unconcluded) ∨
      (r ∈ d.unconcluded ∧ e = .conclude r.1.seq) := by
  have hcases : r ∈ d.settled → r ∈ d.unconcluded ∨ (r ∈ d.settled ∧ r ∉ d.unconcluded) := fun h =>
    (em (r ∈ d.unconcluded)).imp_right fun hnot => ⟨h, hnot⟩
  rcases e.settles_or with he | ⟨ask, rfl⟩ | ⟨seq, rfl⟩
  · obtain ⟨rs, -, hstep⟩ := step_settles outlet hinv.tidy he
    rw [hstep] at hr ⊢
    show r ∈ (d.facing outlet e).unconcluded ++ rs ∨ _
    have hr' : r ∈ (d.facing outlet e).settled ++ rs := hr
    rw [settled_facing] at hr'
    rw [unconcluded_facing]
    rcases List.mem_append.mp hr' with hold | hnew
    · exact (hcases hold).imp (List.mem_append_left _) .inl
    · exact .inl (List.mem_append_right _ hnew)
  · rcases ask_cases outlet d ask with ⟨o, t, hstep⟩ | ⟨t, hstep⟩
    · rw [hstep] at hr ⊢
      exact (hcases hr).imp_right .inl
    · rw [hstep] at hr ⊢
      exact (hcases hr).imp_right .inl
  · rcases conclude_cases outlet d seq with ⟨-, hstep⟩ | ⟨s, hs, rfl, hstep⟩
    · rw [hstep] at hr ⊢
      exact (hcases hr).imp_right .inl
    · rw [hstep] at hr ⊢
      rcases hcases hr with hopen | hclosed
      · by_cases hseq : r.1.seq = s.1.seq
        · exact .inr (.inr ⟨hopen, by rw [hseq]⟩)
        · exact .inl (List.mem_filter.mpr ⟨hopen, by simpa using hseq⟩)
      · exact .inr (.inl hclosed)

/-- A settled question is still to be concluded, or its asker was told at one point of the run. -/
theorem unconcluded_or_told (outlet : Outlet τ) (timeout : Double) (t : τ) (es : List (Event τ)) {r : Settled}
    (hr : r ∈ (run outlet es (fresh timeout t)).2.settled) :
    r ∈ (run outlet es (fresh timeout t)).2.unconcluded ∨
      ∃ us vs o, es = us ++ .conclude r.1.seq :: vs ∧
        r ∈ (run outlet us (fresh timeout t)).2.unconcluded ∧
        Told outlet (run outlet us (fresh timeout t)).2.outside r.1.ask r.2 o ∧
        ⟨r.1.ticket, o⟩ ∈ (run outlet es (fresh timeout t)).1 := by
  induction es using List.reverseRecOn with
  | nil => exact absurd hr List.not_mem_nil
  | append_singleton es e ih =>
    have hinv := invariant_of_run outlet timeout t es
    rw [run_concat] at hr ⊢
    rcases unconcluded_step hinv e hr with hopen | ⟨hold, hclosed⟩ | ⟨hopen, rfl⟩
    · exact .inl hopen
    · rcases ih hold with hopen | ⟨us, vs, o, rfl, hus, htold, hmem⟩
      · exact absurd hopen hclosed
      · exact .inr ⟨us, vs ++ [e], o, by simp, hus, htold, List.mem_append_left _ hmem⟩
    · refine .inr ⟨es, [], _, rfl, hopen, told_of_conclude outlet r ((run outlet es (fresh timeout t)).2.link, _), ?_⟩
      obtain ⟨hnone, -⟩ | ⟨s, hs, hseq, hstep⟩ :=
        conclude_cases outlet (run outlet es (fresh timeout t)).2 r.1.seq
      · exact absurd rfl (hnone r hopen)
      · -- the question that is concluded is the one with this number
        obtain rfl : s = r := hinv.eq_of_unconcluded hs hopen hseq
        rw [hstep, ← (conclude_spec outlet s _).1]
        exact List.mem_append_right _ (List.mem_singleton_self _)

/-- The asker of a settled question is told what came of it, once, when it is concluded. -/
theorem telling_of_settled (outlet : Outlet τ) (timeout : Double) (t : τ) (es : List (Event τ)) {r : Settled}
    (hr : r ∈ (run outlet es (fresh timeout t)).2.settled) :
    Telling outlet (fresh timeout t) es r
      (conclusionsOf r.1.ticket (run outlet es (fresh timeout t)).1) := by
  have hinv := invariant_of_run outlet timeout t es
  rcases unconcluded_or_told outlet timeout t es hr with hopen | ⟨us, vs, o, hes, hus, htold, hmem⟩
  · have hnot : r.1.ticket ∉ (run outlet es (fresh timeout t)).1.map Conclusion.ticket := by
      intro hmem
      have hnodup := (List.nodup_append.mp (List.nodup_append.mp hinv.nodup_tickets).1).1
      exact (List.nodup_append.mp hnodup).2.2 _ hmem _ (List.mem_map_of_mem hopen) rfl
    rw [conclusionsOf_eq_nil hnot]
    exact .later hopen
  · rw [conclusionsOf, filter_key_eq_singleton hinv.nodup_concluded hmem]
    exact .told hes hus htold

end Dialogue

end SwiftLens
