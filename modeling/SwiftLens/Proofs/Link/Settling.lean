import SwiftLens.Proofs.Inspection.Recording
import SwiftLens.Proofs.Link.Dialogue

/-!
# How an event settles questions

An event finds questions in the table, decides some of them, and leaves the others. `verdict?` says, for one
question taken by itself, whether an event decides it and how: nothing in it speaks of the other questions.
The main statement, `step_settles`, is what an event does that neither asks a question nor concludes one:
it settles exactly the questions that it decides, which takes each of them off the table, stops its timer
and records its end, and it does nothing else. `ask_cases` and `conclude_cases` say what the two other
kinds of events do.

So there are only these three ways in which a dialogue goes on, and whatever holds of all reachable
dialogues is proved from them.
-/

namespace SwiftLens

variable {τ : Type}

/-! ### Settling -/

namespace Link

/-- The link without the questions that have the given numbers: they neither wait nor have timers. -/
def without (l : Link) (gone : List Nat) : Link :=
  { l with
    timers := l.timers.filter fun t => t.seq ∉ gone
    pending := l.pending.filter fun q => q.seq ∉ gone }

/-- Record, at the given time, that questions were settled. -/
def recordAll (outlet : Outlet τ) (clock : Double) (rs : List Settled) (t : τ) : τ :=
  rs.foldl (fun t r => outlet.record clock (settledAt clock r) t) t

/-- What is without no questions is unchanged. -/
@[simp] theorem without_nil (l : Link) : l.without [] = l := by simp [without]

/-- Questions may be taken away in two parts. -/
theorem without_without (l : Link) (gone more : List Nat) :
    (l.without gone).without more = l.without (gone ++ more) := by
  simp [without, List.filter_filter, Bool.and_comm]

/-- Questions are released together or one by one. -/
theorem release_eq_without (l : Link) (seq : Nat) : l.release seq = l.without [seq] := by
  simp only [release, without, List.mem_singleton, decide_not]
  rfl

/-- Releasing questions one by one takes all of them away. -/
theorem foldl_release (rs : List Settled) (l : Link) :
    rs.foldl (fun l r => l.release r.1.seq) l = l.without (numbersOf rs) := by
  induction rs generalizing l with
  | nil => exact (without_nil l).symm
  | cons r rs ih => rw [List.foldl_cons, ih, release_eq_without, without_without]; rfl

/-- Settling takes the questions away and records their ends. -/
theorem settle_eq (outlet : Outlet τ) (rs : List Settled) (s : Link × τ) :
    settle outlet rs s = (s.1.without (numbersOf rs), recordAll outlet s.1.clock rs s.2) := by
  rw [settle, foldl_release]
  rfl

/-- Records are made list by list. -/
theorem recordAll_append (outlet : Outlet τ) (clock : Double) (rs rs' : List Settled) (t : τ) :
    recordAll outlet clock (rs ++ rs') t = recordAll outlet clock rs' (recordAll outlet clock rs t) :=
  List.foldl_append

/-- A question and its timer may be taken away in two parts. -/
theorem without_of_stopped {l : Link} {seq : Nat} {gone : List Nat} (hgone : ∀ n ∈ gone, n = seq)
    (hpending : ∀ q ∈ l.pending, q.seq = seq → seq ∈ gone) :
    ({ l with timers := l.timers.filter fun t => t.seq != seq } : Link).without gone =
      l.without [seq] := by
  have htimers : (l.timers.filter fun t => t.seq != seq).filter (fun t => t.seq ∉ gone) =
      l.timers.filter fun t => t.seq ∉ [seq] := by
    rw [List.filter_filter]
    refine List.filter_congr fun t _ => ?_
    by_cases hseq : t.seq = seq
    · simp [hseq]
    · have hnot : t.seq ∉ gone := fun h => hseq (hgone _ h)
      simp [hseq, hnot]
  have hquestions : l.pending.filter (fun q => q.seq ∉ gone) = l.pending.filter fun q => q.seq ∉ [seq] := by
    refine List.filter_congr fun q hq => ?_
    by_cases hseq : q.seq = seq
    · simp [hseq, hpending q hq hseq]
    · have hnot : q.seq ∉ gone := fun h => hseq (hgone _ h)
      simp [hseq, hnot]
  simp only [without, htimers, hquestions]

/-- A timer that goes off settles its question. -/
theorem ring_eq (outlet : Outlet τ) (seq : Nat) (s : Link × τ) :
    let rs := (s.1.pending.filter fun q => q.seq == seq).map fun q => (q, s.1.late q)
    ring outlet seq s = (rs, (s.1.without [seq], recordAll outlet s.1.clock rs s.2)) := by
  intro rs
  have hgone : ∀ n ∈ numbersOf rs, n = seq := by
    intro n hn
    obtain ⟨r, hr, rfl⟩ := List.mem_map.mp hn
    obtain ⟨q, hq, rfl⟩ := List.mem_map.mp hr
    simpa using (List.mem_filter.mp hq).2
  have hpending : ∀ q ∈ s.1.pending, q.seq = seq → seq ∈ numbersOf rs := by
    rintro q hq rfl
    have hr : (q, s.1.late q) ∈ rs := List.mem_map_of_mem (List.mem_filter.mpr ⟨hq, by simp⟩)
    exact mem_numbersOf hr
  have hring : ring outlet seq s = (rs,
      (({ s.1 with timers := s.1.timers.filter fun t => t.seq != seq } : Link).without (numbersOf rs),
        recordAll outlet s.1.clock rs s.2)) := by
    rw [ring, settleWhere, settle_eq]
    rfl
  rw [hring, without_of_stopped hgone hpending]

/-- Timers that go off one after the other settle their questions, once each. -/
theorem ringAll_spec (outlet : Outlet τ) (ts : List Timer) (s : Link × τ) :
    ∃ rs, rs.Perm ((s.1.pending.filter fun q => q.seq ∈ ts.map Timer.seq).map fun q => (q, s.1.late q)) ∧
      ringAll outlet ts s =
        (rs, (s.1.without (ts.map Timer.seq), recordAll outlet s.1.clock rs s.2)) := by
  induction ts generalizing s with
  | nil => exact ⟨[], by simp, by simp [ringAll, recordAll]⟩
  | cons t ts ih =>
    let first := (s.1.pending.filter fun q => q.seq == t.seq).map fun q => (q, s.1.late q)
    obtain ⟨rs, hrs, hring⟩ := ih (s.1.without [t.seq], recordAll outlet s.1.clock first s.2)
    refine ⟨first ++ rs, ?_, ?_⟩
    · -- the questions of the first timer, and among the others those of the other timers
      have hsplit := List.filter_append_perm (fun q : Numbered => q.seq == t.seq)
        (s.1.pending.filter fun q => q.seq ∈ (t :: ts).map Timer.seq)
      have hfirst : (s.1.pending.filter fun q => q.seq ∈ (t :: ts).map Timer.seq).filter
          (fun q => q.seq == t.seq) = s.1.pending.filter fun q => q.seq == t.seq := by
        rw [List.filter_filter]
        refine List.filter_congr fun q _ => ?_
        by_cases hseq : q.seq = t.seq <;> simp [hseq]
      have hothers : (s.1.pending.filter fun q => q.seq ∈ (t :: ts).map Timer.seq).filter
          (fun q => !(q.seq == t.seq)) =
            (s.1.without [t.seq]).pending.filter fun q => q.seq ∈ ts.map Timer.seq := by
        simp only [without, List.filter_filter]
        refine List.filter_congr fun q _ => ?_
        by_cases hseq : q.seq = t.seq <;> simp [hseq]
      rw [hfirst, hothers] at hsplit
      have hmapped := hsplit.map fun q => (q, s.1.late q)
      rw [List.map_append] at hmapped
      exact (hrs.append_left _).trans hmapped
    · rw [ringAll, ring_eq]
      dsimp only
      rw [hring, without_without, recordAll_append]
      rfl

end Link

/-! ### What an event says of one question -/

namespace Dialogue

/-- The verdict of an event on a waiting question, if the event decides it. -/
def verdict? (outlet : Outlet τ) (d : Dialogue τ) (e : Event τ) (q : Numbered) : Option Verdict :=
  match e with
  | .put seq =>
    match d.ready? outlet seq with
    | none => none
    | some p =>
      if q.seq = p.seq then
        match (outlet.send p.line d.outside).1 with
        | .ok () => none
        | .error e => some (.error (.unwritable e.message))
      else none
  | .hear (.line text) =>
    match Reply.read text with
    | .error defect => some (.error (.reply defect))
    | .ok r => if r.answers q.seq then some (Link.verdict r q) else none
  | .hear (.exit code) => some (.error (.exited code))
  | .hear (.failure message) => some (.error (.failed message))
  | .wait ms =>
    if d.link.timers.any fun t => t.seq == q.seq && t.isDue (d.link.clock.add ms) then some (d.link.late q)
    else none
  | _ => none

/-- The dialogue that an event finds when it comes to settle questions: a question that is put waits, and
its line has been handed over. -/
def facing (outlet : Outlet τ) (d : Dialogue τ) : Event τ → Dialogue τ
  | .put seq =>
    match d.ready? outlet seq with
    | none => d
    | some q => { d.sending q with link := d.link.register q, outside := (outlet.send q.line d.outside).2 }
  | .hear (.exit _) => { d with link := { d.link with started := false } }
  | .hear (.failure _) => { d with link := { d.link with started := false } }
  | .wait ms => { d with link := d.link.later ms }
  | .shift change => { d with outside := change d.outside }
  | _ => d

/-- The questions that an event decides, each with its verdict. -/
def decided (outlet : Outlet τ) (d : Dialogue τ) (e : Event τ) : List Settled :=
  (d.facing outlet e).link.pending.filterMap fun q => (verdict? outlet d e q).map fun v => (q, v)

/-- The dialogue after the given questions are settled. -/
def settling (outlet : Outlet τ) (d : Dialogue τ) (rs : List Settled) : Dialogue τ :=
  d.after (rs, (d.link.without (numbersOf rs), Link.recordAll outlet d.link.clock rs d.outside))

end Dialogue

/-- Whether an event neither asks a question nor concludes one. -/
def Event.settles : Event τ → Bool
  | .ask _ => false
  | .conclude _ => false
  | _ => true

/-- An event settles questions, or it asks one, or it concludes one. -/
theorem Event.settles_or (e : Event τ) :
    e.settles = true ∨ (∃ ask, e = .ask ask) ∨ ∃ seq, e = .conclude seq := by
  cases e with
  | ask ask => exact .inr (.inl ⟨ask, rfl⟩)
  | conclude seq => exact .inr (.inr ⟨seq, rfl⟩)
  | put | hear | wait | shift => exact .inl rfl

namespace Dialogue

section

variable {outlet : Outlet τ} {d : Dialogue τ} {e : Event τ}

/-- A question is decided with a verdict if it waits and has the verdict. -/
theorem mem_decided {r : Settled} :
    r ∈ decided outlet d e ↔ r.1 ∈ (d.facing outlet e).link.pending ∧ verdict? outlet d e r.1 = some r.2 := by
  obtain ⟨q, v⟩ := r
  simp only [decided, List.mem_filterMap, Option.map_eq_some_iff, Prod.mk.injEq]
  constructor
  · rintro ⟨p, hp, w, hw, rfl, rfl⟩
    exact ⟨hp, hw⟩
  · rintro ⟨hq, hv⟩
    exact ⟨q, hq, v, hv, rfl, rfl⟩

/-- Questions that are picked by `p` and settled by `f` are those with a verdict. -/
theorem map_filter_eq_decided {p : Numbered → Bool} {f : Numbered → Verdict}
    (h : ∀ q, verdict? outlet d e q = if p q then some (f q) else none) :
    ((d.facing outlet e).link.pending.filter p).map (fun q => (q, f q)) = decided outlet d e := by
  rw [decided, ← List.filterMap_eq_map, List.filterMap_filter]
  refine List.filterMap_congr fun q _ => ?_
  rw [h q]
  cases p q <;> rfl

/-- An event without verdicts decides nothing. -/
theorem decided_eq_nil (h : ∀ q, verdict? outlet d e q = none) : decided outlet d e = [] := by
  simp [decided, h]

/-- When the link settles the questions that `p` picks by `f`, these are the ones that the event
decides. -/
theorem settleWhere_eq {p : Numbered → Bool} {f : Numbered → Verdict}
    (h : ∀ q, verdict? outlet d e q = if p q then some (f q) else none) :
    (d.facing outlet e).after
        (Link.settleWhere outlet p f ((d.facing outlet e).link, (d.facing outlet e).outside)) =
      (d.facing outlet e).settling outlet (decided outlet d e) := by
  rw [← map_filter_eq_decided h, Link.settleWhere, Link.settle_eq]
  rfl

/-- An event finds settled what was settled. -/
theorem settled_facing (outlet : Outlet τ) (d : Dialogue τ) (e : Event τ) :
    (d.facing outlet e).settled = d.settled := by
  unfold facing
  split
  · split <;> rfl
  all_goals rfl

/-- An event finds the questions that were given a number. -/
theorem issued_facing (outlet : Outlet τ) (d : Dialogue τ) (e : Event τ) :
    (d.facing outlet e).issued = d.issued := by
  unfold facing
  split
  · split <;> rfl
  all_goals rfl

/-- An event finds the questions that are still to be concluded. -/
theorem unconcluded_facing (outlet : Outlet τ) (d : Dialogue τ) (e : Event τ) :
    (d.facing outlet e).unconcluded = d.unconcluded := by
  unfold facing
  split
  · split <;> rfl
  all_goals rfl

/-- When no questions are settled, nothing happens. -/
@[simp] theorem settling_nil (outlet : Outlet τ) (d : Dialogue τ) : d.settling outlet [] = d := by
  simp [settling, after, numbersOf, Link.recordAll]

/-- The entries of the table have one timer each. -/
def Tidy (d : Dialogue τ) : Prop := d.link.timers.map Timer.seq = d.link.pending.map Numbered.seq

end

/-- What becomes of a dialogue when an event settles the questions that it decides, once each. -/
def SettlesDecided (outlet : Outlet τ) (d : Dialogue τ) (e : Event τ) : Prop :=
  ∃ rs, rs.Perm (decided outlet d e) ∧ step outlet d e = ([], (d.facing outlet e).settling outlet rs)

/-- An event without verdicts settles nothing. -/
theorem SettlesDecided.of_no_verdict {outlet : Outlet τ} {d : Dialogue τ} {e : Event τ}
    (hv : ∀ q, verdict? outlet d e q = none) (hstep : step outlet d e = ([], d.facing outlet e)) :
    SettlesDecided outlet d e :=
  ⟨[], by rw [decided_eq_nil hv], by rw [hstep, settling_nil]⟩

section

variable (outlet : Outlet τ) (d : Dialogue τ)

/-- A question that is put is settled at once if its line cannot be sent, and waits otherwise. -/
theorem settles_put (seq : Nat) : SettlesDecided outlet d (.put seq) := by
  cases hready : d.ready? outlet seq with
  | none =>
    exact .of_no_verdict (fun q => by simp [verdict?, hready]) (by simp [step, facing, hready])
  | some q =>
    rcases hsend : outlet.send q.line d.outside with ⟨e | ⟨⟩, t⟩
    · have hv : ∀ p, verdict? outlet d (.put seq) p =
          if p.seq == q.seq then some (.error (.unwritable e.message)) else none := by
        intro p
        by_cases hseq : p.seq = q.seq
        · simp [verdict?, hready, hsend, hseq]
        · simp [verdict?, hready, hseq]
      refine ⟨_, .rfl, ?_⟩
      rw [← settleWhere_eq hv]
      simp only [step, facing, hready, Link.dispatch, hsend]
      rfl
    · refine .of_no_verdict (fun p => by simp [verdict?, hready, hsend]) ?_
      simp [step, facing, hready, Link.dispatch, hsend, after]

/-- A signal upon which all waiting questions fail. -/
theorem settles_of_failAll {signal : Signal} {e : Fault}
    (hv : ∀ q, verdict? outlet d (.hear signal) q = some (.error e))
    (hreceive : d.after (Link.receive outlet signal (d.link, d.outside)) =
      (d.facing outlet (.hear signal)).after (Link.failAll outlet e
        ((d.facing outlet (.hear signal)).link, (d.facing outlet (.hear signal)).outside))) :
    SettlesDecided outlet d (.hear signal) := by
  refine ⟨_, .rfl, ?_⟩
  rw [step, hreceive, Link.failAll, settleWhere_eq (by simpa using hv)]

/-- A signal settles the questions that it decides. -/
theorem settles_hear (signal : Signal) : SettlesDecided outlet d (.hear signal) := by
  cases signal with
  | line text =>
    cases hread : Reply.read text with
    | error defect =>
      apply settles_of_failAll (e := .reply defect)
      · intro q
        simp [verdict?, hread]
      · simp [Link.receive, hread, facing]
    | ok r =>
      have hv : ∀ q, verdict? outlet d (.hear (.line text)) q =
          if r.answers q.seq then some (Link.verdict r q) else none := by
        intro q
        simp [verdict?, hread]
      refine ⟨_, .rfl, ?_⟩
      rw [← settleWhere_eq hv]
      simp only [step, Link.receive, hread, facing]
  | diagnostics text => exact .of_no_verdict (fun q => rfl) (by simp [step, Link.receive, facing, after])
  | exit code => exact settles_of_failAll outlet d (e := .exited code) (fun q => rfl) rfl
  | failure message => exact settles_of_failAll outlet d (e := .failed message) (fun q => rfl) rfl

variable {d}

/-- When time passes, the questions are settled whose timers have gone off. -/
theorem settles_wait (htidy : d.Tidy) (ms : Double) : SettlesDecided outlet d (.wait ms) := by
  obtain ⟨rs, hrs, hring⟩ := Link.ringAll_spec outlet (d.link.later ms).due (d.link.later ms, d.outside)
  have hdue : ∀ n, n ∈ (d.link.later ms).due.map Timer.seq ↔
      (d.link.timers.any fun t => t.seq == n && t.isDue (d.link.clock.add ms)) = true := by
    intro n
    rw [Link.due, ((List.mergeSort_perm _ _).map Timer.seq).mem_iff, List.any_eq_true]
    simp only [List.mem_map, List.mem_filter, Bool.and_eq_true, beq_iff_eq]
    exact ⟨fun ⟨t, ⟨ht, hd⟩, hseq⟩ => ⟨t, ht, hseq, hd⟩, fun ⟨t, ht, hseq, hd⟩ => ⟨t, ⟨ht, hd⟩, hseq⟩⟩
  have hv : ∀ q, verdict? outlet d (.wait ms) q =
      if q.seq ∈ (d.link.later ms).due.map Timer.seq then some (d.link.late q) else none := by
    intro q
    simp only [verdict?, hdue]
  have hdecided : rs.Perm (decided outlet d (.wait ms)) := by
    rw [← map_filter_eq_decided (p := fun q => q.seq ∈ (d.link.later ms).due.map Timer.seq)
      (f := d.link.late) (by simpa using hv)]
    exact hrs
  refine ⟨rs, hdecided, ?_⟩
  -- the timers that have gone off are those of the questions that were settled
  have hgone : ∀ n, n ∈ (d.link.later ms).due.map Timer.seq ↔ n ∈ numbersOf rs := by
    intro n
    constructor
    · intro hn
      have htimer : n ∈ d.link.timers.map Timer.seq := by
        obtain ⟨t, ht, hseq⟩ := List.any_eq_true.mp ((hdue n).mp hn)
        simp only [Bool.and_eq_true, beq_iff_eq] at hseq
        exact List.mem_map.mpr ⟨t, ht, hseq.1⟩
      rw [htidy] at htimer
      obtain ⟨q, hq, rfl⟩ := List.mem_map.mp htimer
      have hmem : (q, d.link.late q) ∈ decided outlet d (.wait ms) :=
        mem_decided.mpr ⟨hq, by rw [hv q, if_pos hn]⟩
      exact mem_numbersOf (hdecided.mem_iff.mpr hmem)
    · intro hn
      obtain ⟨r, hr, rfl⟩ := List.mem_map.mp hn
      have hr := (mem_decided.mp (hdecided.mem_iff.mp hr)).2
      rw [hv] at hr
      by_contra hnot
      rw [if_neg hnot] at hr
      cases hr
  have hwithout : (d.link.later ms).without ((d.link.later ms).due.map Timer.seq) =
      (d.link.later ms).without (numbersOf rs) := by
    simp only [Link.without, hgone]
  simp only [step, Link.wait, hring, hwithout]
  rfl

/-- An event that neither asks a question nor concludes one settles the questions that it decides. -/
theorem step_settles (htidy : d.Tidy) {e : Event τ} (he : e.settles = true) : SettlesDecided outlet d e := by
  cases e with
  | ask | conclude => cases he
  | put seq => exact settles_put outlet d seq
  | hear signal => exact settles_hear outlet d signal
  | wait ms => exact settles_wait outlet htidy ms
  | shift change => exact .of_no_verdict (fun q => rfl) rfl

end

/-! ### What the other events do -/

/-- A new question is concluded at once and leaves the link as it was, or it takes the next number. -/
theorem ask_cases (outlet : Outlet τ) (d : Dialogue τ) (ask : Ask) :
    let q : Numbered := ⟨d.link.seq + 1, d.tickets + 1, ask, d.link.clock⟩
    (∃ o t, step outlet d (.ask ask) =
      ([⟨d.tickets + 1, o⟩], { d with outside := t, tickets := d.tickets + 1 })) ∨
    (∃ t, step outlet d (.ask ask) =
      ([], { d with
        link := { d.link with started := true, seq := d.link.seq + 1 }
        outside := t, tickets := d.tickets + 1
        issued := d.issued ++ [q], begun := d.begun ++ [q] })) := by
  intro q
  by_cases hidle : d.link.isIdle ask
  · exact .inl ⟨.ok .done, d.outside, by simp [step, hidle]⟩
  · rcases begin_cases outlet (d.tickets + 1) ask (d.link, d.outside) with ⟨e, t, hbegin⟩ | ⟨t, hbegin⟩
    · exact .inl ⟨.error e, t, by simp [step, hidle, hbegin]⟩
    · exact .inr ⟨t, by simp [step, hidle, hbegin, q]⟩

/-- What the asker of the question that ends the session is told: the fault of closing the helper if there
is one, and otherwise what the question itself came to. -/
def closing (fault : Option Fault) (v : Verdict) : Except Fault Answer :=
  match fault, v with
  | some e, _ => .error e
  | none, .error e => .error e
  | none, .ok _ => .ok .done

/-- The question that ends the session closes the helper when it is concluded. -/
theorem conclude_of_disconnect {outlet : Outlet τ} {r : Settled} (hask : r.1.ask = .disconnect)
    {s : Link × τ} {c : Except Fault Unit} {t : τ} (hclose : outlet.close s.2 = (c, t)) :
    Link.conclude outlet r s =
      (⟨r.1.ticket, closing (Fault.of? c) r.2⟩, ({ s.1 with started := false }, t)) := by
  obtain ⟨⟨seq, ticket, ask, begunAt⟩, v⟩ := r
  obtain rfl : ask = .disconnect := hask
  cases c with
  | error e => simp [Link.conclude, hclose, closing]
  | ok u => cases v <;> simp [Link.conclude, hclose, closing, Link.answer, Ask.interpret, Except.mapError]

/-- Any other question is concluded without doing anything to the helper. -/
theorem conclude_of_ne {outlet : Outlet τ} {r : Settled} (hask : r.1.ask ≠ .disconnect) (s : Link × τ) :
    Link.conclude outlet r s = (⟨r.1.ticket, Link.answer r.1.ask r.2⟩, s) := by
  unfold Link.conclude
  split
  · next h => exact absurd h hask
  · rfl

/-- Concluding a question changes nothing of the link but, perhaps, whether the helper runs. -/
theorem conclude_spec (outlet : Outlet τ) (r : Settled) (s : Link × τ) :
    (Link.conclude outlet r s).1.ticket = r.1.ticket ∧
      ∃ started, (Link.conclude outlet r s).2.1 = { s.1 with started := started } := by
  by_cases hask : r.1.ask = .disconnect
  · rcases hclose : outlet.close s.2 with ⟨c, t⟩
    rw [conclude_of_disconnect hask hclose]
    exact ⟨rfl, false, rfl⟩
  · rw [conclude_of_ne hask]
    exact ⟨rfl, s.1.started, rfl⟩

/-- An event that concludes a question finds none with that number, or it tells its asker what came of it
and takes it from those that are to be concluded. -/
theorem conclude_cases (outlet : Outlet τ) (d : Dialogue τ) (seq : Nat) :
    ((∀ r ∈ d.unconcluded, r.1.seq ≠ seq) ∧ step outlet d (.conclude seq) = ([], d)) ∨
    ∃ r ∈ d.unconcluded, r.1.seq = seq ∧
      step outlet d (.conclude seq) =
        ([(Link.conclude outlet r (d.link, d.outside)).1],
          { d with
            link := (Link.conclude outlet r (d.link, d.outside)).2.1
            outside := (Link.conclude outlet r (d.link, d.outside)).2.2
            unconcluded := d.unconcluded.filter fun r => r.1.seq != seq }) := by
  cases hfind : d.unconcluded.find? (fun r => r.1.seq == seq) with
  | none => exact .inl ⟨by simpa using hfind, by simp [step, hfind]⟩
  | some r =>
    refine .inr ⟨r, List.mem_of_find?_eq_some hfind, by simpa using List.find?_some hfind, ?_⟩
    simp [step, hfind]

end Dialogue

end SwiftLens
