import SwiftLens.Proofs.Link.Stations

/-!
# What a link does to its outside

A tapped outlet does what the given one does and writes down, in order, what it was asked to do and what
came of it. So the log of a run over a tapped outlet holds every start and every closing of the helper,
every line that was handed to it, whether it could be sent or not, and every record.

Three laws say what one event adds to the log. An event that settles questions first hands over the line of
the question that it puts, if it puts one, and then records the end of each question that it settles
(`log_of_settles`). A question that is asked starts the helper, if it has to, and is recorded
(`ask_deeds`). A question that is concluded closes the helper if it ends the session, and otherwise does
nothing (`conclude_deeds`). The outside may change by itself, but it does not write into the log.

From these laws, the lines that were sent are those of the questions that were put, in the order in which
they were (`sentAsPut_of_run`).
-/

namespace SwiftLens

variable {τ : Type}

/-! ### Taps -/

/-- Something that a link has its outside do, with the fault if it could not be done. -/
inductive Deed where
  | start (fault : Option Fault)
  | send (line : Text) (fault : Option Fault)
  | close (fault : Option Fault)
  | record (time : Double) (traffic : Traffic)

/-- Do something and write down what came of it. -/
def Action.logging (deed : Option Fault → Deed) (act : Action τ Unit) : Action (List Deed × τ) Unit := fun s =>
  match act s.2 with
  | (r, t) => (r, (s.1 ++ [deed (Fault.of? r)], t))

/-- An outlet that writes down what it is asked to do. -/
def Outlet.tapped (outlet : Outlet τ) : Outlet (List Deed × τ) where
  start := outlet.start.logging .start
  send line := (outlet.send line).logging (.send line)
  close := outlet.close.logging .close
  journal := outlet.journal.map fun keep time traffic s => (s.1 ++ [.record time traffic], keep time traffic s.2)

/-- An event, when the outside has a log that it leaves alone. -/
def Event.tapped : Event τ → Event (List Deed × τ)
  | .ask question => .ask question
  | .put seq => .put seq
  | .hear signal => .hear signal
  | .wait ms => .wait ms
  | .conclude seq => .conclude seq
  | .shift change => .shift fun s => (s.1, change s.2)

/-- The records that are written down at the given time, if a journal is kept. -/
def Outlet.entries (outlet : Outlet τ) (time : Double) (records : List Traffic) : List Deed :=
  match outlet.journal with
  | some _ => records.map (.record time)
  | none => []

/-- The lines that were handed to the helper, in order. -/
def sentLines (log : List Deed) : List Text :=
  log.filterMap fun
    | .send line _ => some line
    | _ => none

/-- Lines are taken log by log. -/
theorem sentLines_append (log more : List Deed) : sentLines (log ++ more) = sentLines log ++ sentLines more :=
  List.filterMap_append

/-- What is done is written down after what was done before. -/
theorem Action.logging_of_eq {deed : Option Fault → Deed} {act : Action τ Unit} {s : List Deed × τ}
    {r : Except Fault Unit} {t : τ} (h : act s.2 = (r, t)) :
    act.logging deed s = (r, (s.1 ++ [deed (Fault.of? r)], t)) := by
  unfold logging
  rw [h]

/-- Whether an event settles questions does not depend on the log. -/
theorem Event.settles_tapped (e : Event τ) : e.tapped.settles = e.settles := by
  cases e <;> rfl

section outlet

variable (outlet : Outlet τ)

/-- What is recorded is written down. -/
theorem Outlet.log_record (time : Double) (traffic : Traffic) (s : List Deed × τ) :
    (outlet.tapped.record time traffic s).1 = s.1 ++ outlet.entries time [traffic] := by
  unfold record entries tapped
  cases outlet.journal with
  | none => exact (List.append_nil _).symm
  | some keep => rfl

/-- Records are written down one after the other. -/
theorem Outlet.entries_append (time : Double) (xs ys : List Traffic) :
    outlet.entries time (xs ++ ys) = outlet.entries time xs ++ outlet.entries time ys := by
  unfold entries
  cases outlet.journal with
  | none => rfl
  | some keep => exact List.map_append

/-- What is recorded of settled questions is written down. -/
theorem Link.log_recordAll (clock : Double) (rs : List Settled) (s : List Deed × τ) :
    (recordAll outlet.tapped clock rs s).1 = s.1 ++ outlet.entries clock (rs.map (settledAt clock)) := by
  induction rs generalizing s with
  | nil =>
    have hnone : outlet.entries clock [] = [] := by
      unfold Outlet.entries
      cases outlet.journal <;> rfl
    rw [List.map_nil, hnone, List.append_nil]
    rfl
  | cons r rs ih =>
    have hfirst := outlet.log_record clock (settledAt clock r) s
    have hrest := ih (outlet.tapped.record clock (settledAt clock r) s)
    rw [hfirst, List.append_assoc, ← Outlet.entries_append] at hrest
    exact hrest

end outlet

namespace Dialogue

variable (outlet : Outlet τ) (d : Dialogue (List Deed × τ))

/-- The run of the given events over a tapped outlet. -/
def tappedRun (timeout : Double) (t : τ) (es : List (Event τ)) :
    List Conclusion × Dialogue (List Deed × τ) :=
  run outlet.tapped (es.map Event.tapped) (fresh timeout ([], t))

/-- One more event. -/
theorem tappedRun_concat (timeout : Double) (t : τ) (es : List (Event τ)) (e : Event τ) :
    tappedRun outlet timeout t (es ++ [e]) =
      ((tappedRun outlet timeout t es).1 ++ (step outlet.tapped (tappedRun outlet timeout t es).2 e.tapped).1,
        (step outlet.tapped (tappedRun outlet timeout t es).2 e.tapped).2) := by
  rw [tappedRun, List.map_append, List.map_singleton, run_concat]
  rfl

/-- After a run over a tapped outlet each question is at its station. -/
theorem invariant_of_tappedRun (timeout : Double) (t : τ) (es : List (Event τ)) :
    Invariant (tappedRun outlet timeout t es).1 (tappedRun outlet timeout t es).2 :=
  invariant_of_run outlet.tapped timeout ([], t) (es.map Event.tapped)

/-! ### What one event does -/

/-- What an event adds to the log. -/
def deedsIn (e : Event τ) : List Deed :=
  (step outlet.tapped d e.tapped).2.outside.1.drop d.outside.1.length

/-- The line that an event hands to the helper, if it puts a question. -/
def handed : Event τ → List Deed
  | .put seq =>
    match d.ready? outlet.tapped seq with
    | none => []
    | some q => [.send q.line (Fault.of? (outlet.send q.line d.outside.2).1)]
  | _ => []

/-- What is added to the log is what it holds afterwards and did not hold before. -/
theorem deedsIn_eq {e : Event τ} {deeds : List Deed}
    (h : (step outlet.tapped d e.tapped).2.outside.1 = d.outside.1 ++ deeds) : deedsIn outlet d e = deeds := by
  rw [deedsIn, h, List.drop_left]

/-- Nothing is added to a log that stays as it is. -/
theorem deedsIn_eq_nil {e : Event τ} (h : (step outlet.tapped d e.tapped).2.outside = d.outside) :
    deedsIn outlet d e = [] :=
  deedsIn_eq outlet d (by rw [h, List.append_nil])

/-- Only an event that puts a question hands over a line before it settles questions. -/
theorem log_facing (e : Event τ) :
    (d.facing outlet.tapped e.tapped).outside.1 = d.outside.1 ++ handed outlet d e := by
  cases e with
  | put seq =>
    rw [Event.tapped, facing, handed]
    cases hready : d.ready? outlet.tapped seq with
    | none => exact (List.append_nil _).symm
    | some q =>
      have hsend : outlet.tapped.send q.line d.outside = _ := Action.logging_of_eq rfl
      dsimp only
      rw [hsend]
  | hear signal => cases signal <;> exact (List.append_nil _).symm
  | ask | wait | conclude | shift => exact (List.append_nil _).symm

variable {d}

/-- An event that neither asks a question nor concludes one hands over the line of the question that it
puts, if it puts one, and then records the end of each question that it decides. -/
theorem log_of_settles (htidy : d.Tidy) {e : Event τ} (he : e.settles = true) :
    ∃ rs : List Settled, rs.Perm (decided outlet.tapped d e.tapped) ∧
      step outlet.tapped d e.tapped = ([], (d.facing outlet.tapped e.tapped).settling outlet.tapped rs) ∧
      deedsIn outlet d e = handed outlet d e ++
        outlet.entries (d.facing outlet.tapped e.tapped).link.clock
          (rs.map (Link.settledAt (d.facing outlet.tapped e.tapped).link.clock)) := by
  obtain ⟨rs, hrs, hstep⟩ := step_settles outlet.tapped htidy (e.settles_tapped.trans he)
  refine ⟨rs, hrs, hstep, deedsIn_eq outlet d ?_⟩
  rw [hstep]
  show (Link.recordAll outlet.tapped _ rs _).1 = _
  rw [Link.log_recordAll, log_facing, List.append_assoc]

variable (d)

/-- A question that is asked has nothing to do, or it cannot start the helper, or it takes the next number
and is recorded, after the helper was started if it was not running. -/
theorem ask_deeds (ask : Ask) :
    (d.link.started = false ∧ ask = .disconnect ∧
      step outlet.tapped d (.ask ask) = ([⟨d.tickets + 1, .ok .done⟩], { d with tickets := d.tickets + 1 })) ∨
    (d.link.started = false ∧ ask ≠ .disconnect ∧ ∃ e t, outlet.start d.outside.2 = (.error e, t) ∧
      step outlet.tapped d (.ask ask) = ([⟨d.tickets + 1, .error e⟩],
        { d with outside := (d.outside.1 ++ [.start (some e)], t), tickets := d.tickets + 1 })) ∨
    ((d.link.started = true ∨ ask ≠ .disconnect) ∧ ∃ t, step outlet.tapped d (.ask ask) =
      ([], { d with
        link := { d.link with started := true, seq := d.link.seq + 1 }
        outside := (d.outside.1 ++ ((if d.link.started then [] else [.start none]) ++
          outlet.entries d.link.clock [.asked (d.link.seq + 1) ask.command]), t)
        tickets := d.tickets + 1
        issued := d.issued ++ [⟨d.link.seq + 1, d.tickets + 1, ask, d.link.clock⟩]
        begun := d.begun ++ [⟨d.link.seq + 1, d.tickets + 1, ask, d.link.clock⟩] })) := by
  by_cases hidle : d.link.isIdle ask
  · have hboth : d.link.started = false ∧ ask = .disconnect := by
      cases ask <;> simp [Link.isIdle] at hidle
      exact ⟨hidle, rfl⟩
    exact .inl ⟨hboth.1, hboth.2, by simp [step, hidle]⟩
  · refine .inr ?_
    have hrecord : ∀ s, ∃ t, outlet.tapped.record d.link.clock (.asked (d.link.seq + 1) ask.command) s =
        (s.1 ++ outlet.entries d.link.clock [.asked (d.link.seq + 1) ask.command], t) := fun s =>
      ⟨_, Prod.ext (outlet.log_record d.link.clock (.asked (d.link.seq + 1) ask.command) s) rfl⟩
    cases hstarted : d.link.started with
    | true =>
      obtain ⟨t, hrecorded⟩ := hrecord d.outside
      exact .inr ⟨.inl rfl, t, by simp [step, hidle, Link.begin, hstarted, hrecorded]⟩
    | false =>
      have hask : ask ≠ .disconnect := by
        rintro rfl
        exact hidle (by simp [Link.isIdle, hstarted])
      rcases hstart : outlet.start d.outside.2 with ⟨e | ⟨⟩, t⟩
      · have htapped : outlet.tapped.start d.outside = (.error e, (d.outside.1 ++ [.start (some e)], t)) :=
          Action.logging_of_eq hstart
        exact .inl ⟨rfl, hask, e, t, rfl, by simp [step, hidle, Link.begin, hstarted, htapped]⟩
      · have htapped : outlet.tapped.start d.outside = (.ok (), (d.outside.1 ++ [.start none], t)) :=
          Action.logging_of_eq hstart
        obtain ⟨u, hrecorded⟩ := hrecord (d.outside.1 ++ [.start none], t)
        exact .inr ⟨.inr hask, u, by simp [step, hidle, Link.begin, hstarted, htapped, hrecorded]⟩

/-- A question that is concluded tells its asker what came of it, after it has closed the helper if it ends
the session. -/
theorem conclude_deeds (seq : Nat) :
    ((∀ r ∈ d.unconcluded, r.1.seq ≠ seq) ∧ step outlet.tapped d (.conclude seq) = ([], d)) ∨
    ∃ r ∈ d.unconcluded, r.1.seq = seq ∧
      ((r.1.ask ≠ .disconnect ∧ step outlet.tapped d (.conclude seq) =
        ([⟨r.1.ticket, Link.answer r.1.ask r.2⟩],
          { d with unconcluded := d.unconcluded.filter fun r => r.1.seq != seq })) ∨
      (r.1.ask = .disconnect ∧ ∃ fault t, outlet.close d.outside.2 = (fault, t) ∧
        step outlet.tapped d (.conclude seq) =
          ([⟨r.1.ticket, closing (Fault.of? fault) r.2⟩], { d with
            link := { d.link with started := false }
            outside := (d.outside.1 ++ [.close (Fault.of? fault)], t)
            unconcluded := d.unconcluded.filter fun r => r.1.seq != seq }))) := by
  rcases conclude_cases outlet.tapped d seq with ⟨hnone, hstep⟩ | ⟨r, hr, hseq, hstep⟩
  · exact .inl ⟨hnone, hstep⟩
  · refine .inr ⟨r, hr, hseq, ?_⟩
    by_cases hask : r.1.ask = .disconnect
    · rcases hclose : outlet.close d.outside.2 with ⟨c, t⟩
      have htapped : outlet.tapped.close d.outside = (c, (d.outside.1 ++ [.close (Fault.of? c)], t)) :=
        Action.logging_of_eq hclose
      refine .inr ⟨hask, c, t, rfl, ?_⟩
      rw [hstep, conclude_of_disconnect hask htapped]
    · refine .inl ⟨hask, ?_⟩
      rw [hstep, conclude_of_ne hask]

/-! ### The kinds of deeds -/

section deeds

variable {d} {e : Event τ}

/-- Where a deed is one of some records, it records something. -/
theorem record_of_mem_entries {time : Double} {records : List Traffic} {deed : Deed}
    (h : deed ∈ outlet.entries time records) : ∃ traffic ∈ records, deed = .record time traffic := by
  unfold Outlet.entries at h
  split at h
  · obtain ⟨traffic, htraffic, rfl⟩ := List.mem_map.mp h
    exact ⟨traffic, htraffic, rfl⟩
  · exact absurd h List.not_mem_nil

/-- What an event does that neither asks a question nor concludes one: it may hand over the line of the
question that it puts, and it may record something. -/
theorem deed_of_settles (htidy : d.Tidy) (he : e.settles = true) {deed : Deed} (h : deed ∈ deedsIn outlet d e) :
    (∃ q, e = .put q.seq ∧ d.ready? outlet.tapped q.seq = some q ∧
        deed = .send q.line (Fault.of? (outlet.send q.line d.outside.2).1)) ∨
      ∃ time traffic, deed = .record time traffic := by
  obtain ⟨rs, -, -, hdeeds⟩ := log_of_settles outlet htidy he
  rw [hdeeds, List.mem_append] at h
  rcases h with h | h
  · cases e with
    | put seq =>
      rw [handed] at h
      cases hready : d.ready? outlet.tapped seq with
      | none =>
        rw [hready] at h
        exact absurd h List.not_mem_nil
      | some q =>
        rw [hready] at h
        obtain ⟨-, rfl⟩ := mem_begun_of_ready hready
        exact .inl ⟨q, rfl, hready, List.mem_singleton.mp h⟩
    | ask | hear | wait | conclude | shift => exact absurd h List.not_mem_nil
  · obtain ⟨traffic, -, rfl⟩ := record_of_mem_entries outlet h
    exact .inr ⟨_, traffic, rfl⟩

/-- What a question does when it is asked: it may start the helper, and it may be recorded. -/
theorem deed_of_ask {ask : Ask} {deed : Deed} (h : deed ∈ deedsIn outlet d (.ask ask)) :
    (d.link.started = false ∧ ask ≠ .disconnect ∧ ∃ fault, deed = .start fault) ∨
      ∃ time traffic, deed = .record time traffic := by
  rcases ask_deeds outlet d ask with ⟨-, -, hstep⟩ | ⟨hstarted, hask, f, t, -, hstep⟩ | ⟨hruns, t, hstep⟩
  · rw [deedsIn_eq_nil outlet d (e := .ask ask) (by rw [Event.tapped, hstep])] at h
    exact absurd h List.not_mem_nil
  · rw [deedsIn_eq outlet d (e := .ask ask) (by rw [Event.tapped, hstep])] at h
    exact .inl ⟨hstarted, hask, _, List.mem_singleton.mp h⟩
  · rw [deedsIn_eq outlet d (e := .ask ask) (by rw [Event.tapped, hstep]), List.mem_append] at h
    rcases h with h | h
    · cases hstarted : d.link.started with
      | true =>
        rw [hstarted] at h
        exact absurd h List.not_mem_nil
      | false =>
        rw [hstarted] at h
        exact .inl ⟨rfl, hruns.resolve_left (by simp [hstarted]), _, List.mem_singleton.mp h⟩
    · obtain ⟨traffic, -, rfl⟩ := record_of_mem_entries outlet h
      exact .inr ⟨_, traffic, rfl⟩

/-- What a question does when it is concluded: it closes the helper if it ends the session. -/
theorem deed_of_conclude {seq : Nat} {deed : Deed} (h : deed ∈ deedsIn outlet d (.conclude seq)) :
    ∃ r ∈ d.unconcluded, r.1.seq = seq ∧ r.1.ask = .disconnect ∧ ∃ fault, deed = .close fault := by
  rcases conclude_deeds outlet d seq with ⟨-, hstep⟩ | ⟨r, hr, hseq, ⟨-, hstep⟩ | ⟨hask, c, t, -, hstep⟩⟩
  · rw [deedsIn_eq_nil outlet d (e := .conclude seq) (by rw [Event.tapped, hstep])] at h
    exact absurd h List.not_mem_nil
  · rw [deedsIn_eq_nil outlet d (e := .conclude seq) (by rw [Event.tapped, hstep])] at h
    exact absurd h List.not_mem_nil
  · rw [deedsIn_eq outlet d (e := .conclude seq) (by rw [Event.tapped, hstep])] at h
    exact ⟨r, hr, hseq, hask, _, List.mem_singleton.mp h⟩

/-- Only a question that is asked while the helper does not run starts it, and not one that ends the
session. -/
theorem start_mem_deedsIn (htidy : d.Tidy) {fault : Option Fault} (h : .start fault ∈ deedsIn outlet d e) :
    d.link.started = false ∧ ∃ ask, e = .ask ask ∧ ask ≠ .disconnect := by
  rcases e.settles_or with he | ⟨ask, rfl⟩ | ⟨seq, rfl⟩
  · rcases deed_of_settles outlet htidy he h with ⟨q, -, -, hdeed⟩ | ⟨time, traffic, hdeed⟩ <;> cases hdeed
  · rcases deed_of_ask outlet h with ⟨hstarted, hask, -⟩ | ⟨time, traffic, hdeed⟩
    · exact ⟨hstarted, ask, rfl, hask⟩
    · cases hdeed
  · obtain ⟨-, -, -, -, fault', hdeed⟩ := deed_of_conclude outlet h
    cases hdeed

/-- Only a question that is put hands a line over. -/
theorem send_mem_deedsIn (htidy : d.Tidy) {line : Text} {fault : Option Fault}
    (h : .send line fault ∈ deedsIn outlet d e) :
    ∃ q, e = .put q.seq ∧ d.ready? outlet.tapped q.seq = some q ∧ line = q.line := by
  rcases e.settles_or with he | ⟨ask, rfl⟩ | ⟨seq, rfl⟩
  · rcases deed_of_settles outlet htidy he h with ⟨q, he, hready, hdeed⟩ | ⟨time, traffic, hdeed⟩
    · cases hdeed
      exact ⟨q, he, hready, rfl⟩
    · cases hdeed
  · rcases deed_of_ask outlet h with ⟨-, -, fault', hdeed⟩ | ⟨time, traffic, hdeed⟩ <;> cases hdeed
  · obtain ⟨-, -, -, -, fault', hdeed⟩ := deed_of_conclude outlet h
    cases hdeed

/-- Only a question that ends the session closes the helper, when it is concluded. -/
theorem close_mem_deedsIn (htidy : d.Tidy) {fault : Option Fault} (h : .close fault ∈ deedsIn outlet d e) :
    ∃ r ∈ d.unconcluded, r.1.ask = .disconnect ∧ e = .conclude r.1.seq := by
  rcases e.settles_or with he | ⟨ask, rfl⟩ | ⟨seq, rfl⟩
  · rcases deed_of_settles outlet htidy he h with ⟨q, -, -, hdeed⟩ | ⟨time, traffic, hdeed⟩ <;> cases hdeed
  · rcases deed_of_ask outlet h with ⟨-, -, fault', hdeed⟩ | ⟨time, traffic, hdeed⟩ <;> cases hdeed
  · obtain ⟨r, hr, rfl, hask, -⟩ := deed_of_conclude outlet h
    exact ⟨r, hr, hask, rfl⟩

/-- An event only adds to the log. -/
theorem log_step (htidy : d.Tidy) (e : Event τ) :
    (step outlet.tapped d e.tapped).2.outside.1 = d.outside.1 ++ deedsIn outlet d e := by
  suffices h : d.outside.1 <+: (step outlet.tapped d e.tapped).2.outside.1 from
    (List.prefix_iff_eq_append.mp h).symm
  rcases e.settles_or with he | ⟨ask, rfl⟩ | ⟨seq, rfl⟩
  · obtain ⟨rs, -, hstep, -⟩ := log_of_settles outlet htidy he
    rw [hstep]
    show _ <+: (Link.recordAll outlet.tapped _ rs _).1
    rw [Link.log_recordAll, log_facing, List.append_assoc]
    exact List.prefix_append _ _
  · rcases ask_deeds outlet d ask with ⟨-, -, hstep⟩ | ⟨-, -, f, t, -, hstep⟩ | ⟨-, t, hstep⟩ <;>
      rw [Event.tapped, hstep]
    · exact List.prefix_append _ _
    · exact List.prefix_append _ _
  · rcases conclude_deeds outlet d seq with ⟨-, hstep⟩ | ⟨r, -, -, ⟨-, hstep⟩ | ⟨-, c, t, -, hstep⟩⟩ <;>
      rw [Event.tapped, hstep]
    exact List.prefix_append _ _

end deeds

/-! ### Lines -/

/-- The lines that were sent are those of the questions that were put. -/
def SentAsPut (d : Dialogue (List Deed × τ)) : Prop :=
  sentLines d.outside.1 = d.sent.map fun x => x.question.line

/-- An event sends the line of the question that it puts. -/
theorem SentAsPut.facing {d : Dialogue (List Deed × τ)} (h : SentAsPut d) (e : Event τ) :
    SentAsPut (d.facing outlet.tapped e.tapped) := by
  unfold SentAsPut at h ⊢
  rw [log_facing, sentLines_append, h]
  cases e with
  | put seq =>
    rw [handed, Event.tapped, Dialogue.facing]
    cases hready : d.ready? outlet.tapped seq with
    | none => exact List.append_nil _
    | some q =>
      show _ = (d.sent ++ [Sent.mk q d.link.clock]).map fun x => x.question.line
      rw [List.map_append]
      rfl
  | hear signal => cases signal <;> exact List.append_nil _
  | ask | wait | conclude | shift => exact List.append_nil _

end Dialogue

end SwiftLens
