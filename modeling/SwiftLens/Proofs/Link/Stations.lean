import SwiftLens.Proofs.Link.Settling

/-!
# The stations of a question

A question that takes a number is begun; then it is put, and waits; then it is settled; then it is
concluded. `Invariant` says that every question is at one station at a time, in every dialogue that can be
reached: the numbers given out are `1, 2, …`, each once; a numbered question is begun or was put, and not
both; the table holds the questions that were put and are not settled, each with a timer of its own; and
every ticket is that of one question, which is concluded, to be concluded, waiting or begun.

It is preserved by every event (`Invariant.step`), since putting a question, settling questions, asking
one and concluding one each preserve it (`Invariant.sending`, `Invariant.settling`, `Invariant.ask`,
`Invariant.conclude`), and the events do nothing else.
-/

namespace SwiftLens

variable {τ : Type}

/-! ### Lists with keys -/

section keys

variable {α : Type} {key : α → Nat}

/-- Where keys are different, the entries with the key of one of them are that one. -/
theorem filter_key_eq_singleton {x : α} {xs : List α} (hnodup : (xs.map key).Nodup) (hx : x ∈ xs) :
    xs.filter (fun y => key y == key x) = [x] := by
  induction xs with
  | nil => exact absurd hx List.not_mem_nil
  | cons y ys ih =>
    rw [List.map_cons, List.nodup_cons] at hnodup
    rcases List.mem_cons.mp hx with rfl | hx
    · have hys : ys.filter (fun y => key y == key x) = [] := by
        rw [List.filter_eq_nil_iff]
        intro y hy heq
        exact hnodup.1 (List.mem_map.mpr ⟨y, hy, by simpa using heq⟩)
      rw [List.filter_cons_of_pos (by simp), hys]
    · have hne : key y ≠ key x := fun h => hnodup.1 (h ▸ List.mem_map_of_mem hx)
      rw [List.filter_cons_of_neg (by simpa using hne), ih hnodup.2 hx]

/-- Where keys are different, an entry and those with other keys are all. -/
theorem perm_cons_filter_key {x : α} {xs : List α} (hnodup : (xs.map key).Nodup) (hx : x ∈ xs) :
    xs.Perm (x :: xs.filter fun y => key y != key x) := by
  have hsplit := List.filter_append_perm (fun y => key y == key x) xs
  rw [filter_key_eq_singleton hnodup hx] at hsplit
  exact hsplit.symm

/-- Where keys are different, some of the entries are those that have their keys. -/
theorem perm_filter_key {xs ys : List α} (hnodup : (ys.map key).Nodup) (hsub : xs.Subperm ys) :
    xs.Perm (ys.filter fun y => key y ∈ xs.map key) := by
  have hys : ys.Nodup := hnodup.of_map
  have hxs : xs.Nodup := by
    obtain ⟨zs, hperm, hzs⟩ := hsub
    exact hperm.nodup_iff.mp (hys.sublist hzs)
  refine (List.perm_ext_iff_of_nodup hxs (hys.filter _)).mpr fun x => ?_
  rw [List.mem_filter, decide_eq_true_iff, List.mem_map]
  constructor
  · intro hx
    exact ⟨hsub.subset hx, x, hx, rfl⟩
  · rintro ⟨hx, y, hy, hkey⟩
    rwa [← List.inj_on_of_nodup_map hnodup (hsub.subset hy) hx hkey]

end keys

/-! ### The invariant -/

/-- The timer of a question that was put, when timers run for the given time. -/
def Sent.timer (delay : Double) (x : Sent) : Timer := ⟨x.question.seq, x.time.add delay⟩

namespace Dialogue

/-- The questions that were put and are not settled, in the order in which they were put. -/
def waiting (d : Dialogue τ) : List Sent := d.sent.filter fun x => x.question.seq ∉ numbersOf d.settled

/-- Every question is at its station, and the questions that were concluded are `concluded`. -/
structure Invariant (concluded : List Conclusion) (d : Dialogue τ) : Prop where
  /-- The numbers that were given out are those up to the last one, in order. -/
  numbers : d.issued.map Numbered.seq = List.range' 1 d.link.seq
  /-- Numbers were given to questions that were asked. -/
  tickets : ∀ q ∈ d.issued, q.ticket ≤ d.tickets
  /-- A question that was given a number is begun or was put. -/
  placed : (d.begun ++ d.sent.map Sent.question).Perm d.issued
  /-- The table holds the questions that wait. -/
  table : d.link.pending = d.waiting.map Sent.question
  /-- The timers that run are theirs. -/
  timers : d.link.timers = d.waiting.map (Sent.timer d.link.delay)
  /-- The questions that are settled were put. -/
  put : ∀ r ∈ d.settled, r.1 ∈ d.sent.map Sent.question
  /-- No question is settled twice. -/
  once : (numbersOf d.settled).Nodup
  /-- The questions to be concluded are settled. -/
  unconcluded : d.unconcluded.Sublist d.settled
  /-- Every ticket is that of one question. -/
  accounted : (concluded.map Conclusion.ticket ++ (d.unconcluded.map fun r => r.1.ticket) ++
    d.link.pending.map Numbered.ticket ++ d.begun.map Numbered.ticket).Perm (List.range' 1 d.tickets)

/-- Before anything has happened no question is at any station. -/
theorem invariant_fresh (timeout : Double) (t : τ) : Invariant [] (fresh timeout t) where
  numbers := rfl
  tickets := by simp [fresh]
  placed := .rfl
  table := rfl
  timers := rfl
  put := by simp [fresh]
  once := .nil
  unconcluded := .refl _
  accounted := .rfl

namespace Invariant

variable {concluded : List Conclusion} {d : Dialogue τ}

/-! ### What the invariant says -/

section

variable (h : Invariant concluded d)
include h

/-- No two questions have the same number. -/
theorem nodup_issued : (d.issued.map Numbered.seq).Nodup := h.numbers ▸ List.nodup_range'

/-- A number was given to one question only. -/
theorem eq_of_seq {q q' : Numbered} (hq : q ∈ d.issued) (hq' : q' ∈ d.issued) (hseq : q.seq = q'.seq) :
    q = q' :=
  List.inj_on_of_nodup_map h.nodup_issued hq hq' hseq

/-- A question that is begun was given a number. -/
theorem begun_issued {q : Numbered} (hq : q ∈ d.begun) : q ∈ d.issued :=
  h.placed.subset (List.mem_append_left _ hq)

/-- A question that was put was given a number. -/
theorem sent_issued {x : Sent} (hx : x ∈ d.sent) : x.question ∈ d.issued :=
  h.placed.subset (List.mem_append_right _ (List.mem_map_of_mem hx))

/-- The questions that are begun and those that were put all have different numbers. -/
theorem nodup_placed : (d.begun.map Numbered.seq ++ d.sent.map fun x => x.question.seq).Nodup := by
  have hnodup := (h.placed.map Numbered.seq).nodup_iff.mpr h.nodup_issued
  rwa [List.map_append, List.map_map] at hnodup

/-- The questions that were put have different numbers. -/
theorem nodup_sent : (d.sent.map fun x => x.question.seq).Nodup := (List.nodup_append.mp h.nodup_placed).2.1

/-- A number was put once only. -/
theorem eq_of_sent {x y : Sent} (hx : x ∈ d.sent) (hy : y ∈ d.sent)
    (hseq : x.question.seq = y.question.seq) : x = y :=
  List.inj_on_of_nodup_map h.nodup_sent hx hy hseq

/-- A question that is begun was not put. -/
theorem begun_not_sent {q : Numbered} (hq : q ∈ d.begun) {x : Sent} (hx : x ∈ d.sent) :
    q.seq ≠ x.question.seq :=
  (List.nodup_append.mp h.nodup_placed).2.2 _ (List.mem_map_of_mem hq) _ (List.mem_map_of_mem hx)

/-- The number of a settled question is that of one that was put. -/
theorem settled_sent {r : Settled} (hr : r ∈ d.settled) : ∃ x ∈ d.sent, x.question = r.1 :=
  List.mem_map.mp (h.put r hr)

/-- A question that is begun is not settled. -/
theorem begun_not_settled {q : Numbered} (hq : q ∈ d.begun) : q.seq ∉ numbersOf d.settled := by
  intro hmem
  obtain ⟨r, hr, hseq⟩ := List.mem_map.mp hmem
  obtain ⟨x, hx, hquestion⟩ := h.settled_sent hr
  exact h.begun_not_sent hq hx (by rw [hquestion, hseq])

/-- The entries of the table have different numbers. -/
theorem nodup_pending : (d.link.pending.map Numbered.seq).Nodup := by
  rw [h.table, List.map_map]
  exact h.nodup_sent.sublist (List.filter_sublist.map _)

/-- The entries of the table have one timer each. -/
theorem tidy : d.Tidy := by
  rw [Tidy, h.timers, h.table, List.map_map, List.map_map]
  rfl

/-- The questions to be concluded have different numbers. -/
theorem nodup_unconcluded : (d.unconcluded.map fun r => r.1.seq).Nodup :=
  List.Nodup.sublist (h.unconcluded.map _) h.once

/-- Among the questions to be concluded a number is that of one only. -/
theorem eq_of_unconcluded {r s : Settled} (hr : r ∈ d.unconcluded) (hs : s ∈ d.unconcluded)
    (hseq : r.1.seq = s.1.seq) : r = s :=
  List.inj_on_of_nodup_map h.nodup_unconcluded hr hs hseq

/-- Every ticket is that of one question only. -/
theorem nodup_tickets : (concluded.map Conclusion.ticket ++ (d.unconcluded.map fun r => r.1.ticket) ++
    d.link.pending.map Numbered.ticket ++ d.begun.map Numbered.ticket).Nodup :=
  h.accounted.nodup_iff.mpr List.nodup_range'

/-- No question is concluded twice. -/
theorem nodup_concluded : (concluded.map Conclusion.ticket).Nodup :=
  h.nodup_tickets.sublist ((List.sublist_append_left _ _).trans
    ((List.sublist_append_left _ _).trans (List.sublist_append_left _ _)))

end

/-! ### Putting a question -/

/-- A question that is put goes from those that are begun to those that wait. -/
theorem sending (h : Invariant concluded d) {q : Numbered} (hq : q ∈ d.begun) (t : τ) :
    Invariant concluded { d.sending q with link := d.link.register q, outside := t } := by
  have hbegun : d.begun.Perm (q :: d.begun.filter fun p => p.seq != q.seq) :=
    perm_cons_filter_key (List.nodup_append.mp h.nodup_placed).1 hq
  have hwaiting : (d.sending q).waiting = d.waiting ++ [⟨q, d.link.clock⟩] := by
    have hnew : [Sent.mk q d.link.clock].filter (fun x => x.question.seq ∉ numbersOf d.settled) =
        [⟨q, d.link.clock⟩] :=
      List.filter_cons_of_pos (decide_eq_true (h.begun_not_settled hq))
    rw [waiting, Dialogue.sending, List.filter_append, hnew]
    rfl
  constructor
  · exact h.numbers
  · exact h.tickets
  · show ((d.begun.filter fun p => p.seq != q.seq) ++
      (d.sent ++ [Sent.mk q d.link.clock]).map Sent.question).Perm d.issued
    refine List.Perm.trans ?_ h.placed
    rw [List.map_append, ← List.append_assoc]
    refine (List.perm_append_singleton q _).trans ?_
    exact (hbegun.append_right (d.sent.map Sent.question)).symm
  · show d.link.pending ++ [q] = (d.sending q).waiting.map Sent.question
    rw [hwaiting, List.map_append, h.table]
    rfl
  · show d.link.timers ++ [⟨q.seq, d.link.clock.add d.link.delay⟩] =
      (d.sending q).waiting.map (Sent.timer d.link.delay)
    rw [hwaiting, List.map_append, h.timers]
    rfl
  · intro r hr
    show r.1 ∈ (d.sent ++ [Sent.mk q d.link.clock]).map Sent.question
    rw [List.map_append]
    exact List.mem_append_left _ (h.put r hr)
  · exact h.once
  · exact h.unconcluded
  · show (concluded.map Conclusion.ticket ++ (d.unconcluded.map fun r => r.1.ticket) ++
      (d.link.pending ++ [q]).map Numbered.ticket ++
        (d.begun.filter fun p => p.seq != q.seq).map Numbered.ticket).Perm (List.range' 1 d.tickets)
    refine List.Perm.trans ?_ h.accounted
    rw [List.map_append, ← List.append_assoc, List.append_assoc]
    exact ((hbegun.map Numbered.ticket).symm).append_left _

/-! ### Settling questions -/

/-- When questions are settled the others go on waiting. -/
theorem waiting_settling (outlet : Outlet τ) (d : Dialogue τ) (rs : List Settled) :
    (d.settling outlet rs).waiting = d.waiting.filter fun x => x.question.seq ∉ numbersOf rs := by
  rw [waiting, waiting, List.filter_filter]
  refine List.filter_congr fun x _ => ?_
  simp [Dialogue.settling, after, Bool.and_comm]

/-- Questions that are settled go from those that wait to those that are to be concluded. -/
theorem settling (h : Invariant concluded d) (outlet : Outlet τ) {rs : List Settled}
    (hrs : (rs.map Prod.fst).Subperm d.link.pending) : Invariant concluded (d.settling outlet rs) := by
  have hnumbers : (rs.map Prod.fst).map Numbered.seq = numbersOf rs := List.map_map
  have hgone : (rs.map Prod.fst).Perm (d.link.pending.filter fun q => q.seq ∈ numbersOf rs) := by
    rw [← hnumbers]
    exact perm_filter_key h.nodup_pending hrs
  have hsplit : ((rs.map Prod.fst) ++ d.link.pending.filter fun q => q.seq ∉ numbersOf rs).Perm
      d.link.pending := by
    refine (hgone.append_right _).trans ?_
    simpa using List.filter_append_perm (fun q : Numbered => decide (q.seq ∈ numbersOf rs)) d.link.pending
  have hwaits : ∀ r ∈ rs, r.1 ∈ d.waiting.map Sent.question := by
    intro r hr
    rw [← h.table]
    exact hrs.subset (List.mem_map_of_mem hr)
  constructor
  · exact h.numbers
  · exact h.tickets
  · exact h.placed
  · rw [waiting_settling]
    show d.link.pending.filter (fun q => q.seq ∉ numbersOf rs) = _
    rw [h.table, List.filter_map]
    rfl
  · rw [waiting_settling]
    show d.link.timers.filter (fun t => t.seq ∉ numbersOf rs) = _
    rw [h.timers, List.filter_map]
    rfl
  · intro r hr
    rcases List.mem_append.mp hr with hr | hr
    · exact h.put r hr
    · exact (List.filter_sublist.map Sent.question).subset (hwaits r hr)
  · show (numbersOf (d.settled ++ rs)).Nodup
    rw [numbersOf_append, List.nodup_append]
    refine ⟨h.once, ?_, ?_⟩
    · rw [← hnumbers, (hgone.map Numbered.seq).nodup_iff]
      exact h.nodup_pending.sublist (List.filter_sublist.map _)
    · rintro n hn m hm rfl
      obtain ⟨r, hr, rfl⟩ := List.mem_map.mp hm
      obtain ⟨x, hx, hquestion⟩ := List.mem_map.mp (hwaits r hr)
      refine of_decide_eq_true (List.mem_filter.mp hx).2 ?_
      rw [hquestion]
      exact hn
  · exact h.unconcluded.append (.refl rs)
  · show (concluded.map Conclusion.ticket ++ ((d.unconcluded ++ rs).map fun r => r.1.ticket) ++
      (d.link.pending.filter fun q => q.seq ∉ numbersOf rs).map Numbered.ticket ++
        d.begun.map Numbered.ticket).Perm (List.range' 1 d.tickets)
    refine List.Perm.trans ?_ h.accounted
    refine List.Perm.append_right _ ?_
    have htickets := hsplit.map Numbered.ticket
    rw [List.map_append, List.map_map] at htickets
    rw [List.map_append, ← List.append_assoc, List.append_assoc]
    exact htickets.append_left _

/-! ### Asking and concluding -/

/-- A question takes the next ticket; if it is concluded at once nothing else changes. -/
theorem conclude_at_once (h : Invariant concluded d) (o : Except Fault Answer) (t : τ) :
    Invariant (concluded ++ [⟨d.tickets + 1, o⟩]) { d with outside := t, tickets := d.tickets + 1 } where
  numbers := h.numbers
  tickets := fun q hq => Nat.le_succ_of_le (h.tickets q hq)
  placed := h.placed
  table := h.table
  timers := h.timers
  put := h.put
  once := h.once
  unconcluded := h.unconcluded
  accounted := by
    have hlast := h.accounted.append_right [d.tickets + 1]
    rw [Nat.add_comm d.tickets 1, ← List.range'_1_concat, Nat.add_comm 1] at hlast
    refine List.Perm.trans ?_ hlast
    simp only [List.map_append, List.append_assoc]
    refine List.Perm.append_left _ ?_
    simpa using (List.perm_append_singleton (d.tickets + 1)
      ((d.unconcluded.map fun r => r.1.ticket) ++ (d.link.pending.map Numbered.ticket ++
        d.begun.map Numbered.ticket))).symm

/-- A question that takes the next number is begun. -/
theorem number (h : Invariant concluded d) (ask : Ask) (clock : Double) (t : τ) :
    Invariant concluded { d with
      link := { d.link with started := true, seq := d.link.seq + 1 }
      outside := t, tickets := d.tickets + 1
      issued := d.issued ++ [⟨d.link.seq + 1, d.tickets + 1, ask, clock⟩]
      begun := d.begun ++ [⟨d.link.seq + 1, d.tickets + 1, ask, clock⟩] } where
  numbers := by
    show (d.issued ++ [_]).map Numbered.seq = List.range' 1 (d.link.seq + 1)
    rw [List.map_append, h.numbers, List.range'_concat]
    simp [Nat.add_comm]
  tickets := by
    intro q hq
    rcases List.mem_append.mp hq with hq | hq
    · exact Nat.le_succ_of_le (h.tickets q hq)
    · rw [List.mem_singleton.mp hq]
  placed := by
    refine List.Perm.trans ?_ (h.placed.append_right _)
    simp only [List.append_assoc]
    exact List.Perm.append_left _ List.perm_append_comm
  table := h.table
  timers := h.timers
  put := h.put
  once := h.once
  unconcluded := h.unconcluded
  accounted := by
    have hlast := h.accounted.append_right [d.tickets + 1]
    rw [Nat.add_comm d.tickets 1, ← List.range'_1_concat, Nat.add_comm 1] at hlast
    refine List.Perm.trans ?_ hlast
    simp

/-- A question takes the next ticket, and also the next number unless it is concluded at once. -/
theorem ask (h : Invariant concluded d) (outlet : Outlet τ) (ask : Ask) :
    Invariant (concluded ++ (step outlet d (.ask ask)).1) (step outlet d (.ask ask)).2 := by
  rcases ask_cases outlet d ask with ⟨o, t, hstep⟩ | ⟨t, hstep⟩
  · rw [hstep]
    exact h.conclude_at_once o t
  · rw [hstep, List.append_nil]
    exact h.number ask d.link.clock t

/-- A question that is concluded is no longer to be concluded. -/
theorem conclude (h : Invariant concluded d) (outlet : Outlet τ) (seq : Nat) :
    Invariant (concluded ++ (step outlet d (.conclude seq)).1) (step outlet d (.conclude seq)).2 := by
  rcases conclude_cases outlet d seq with ⟨-, hstep⟩ | ⟨r, hr, rfl, hstep⟩
  · rw [hstep, List.append_nil]
    exact h
  · obtain ⟨hticket, started, hlink⟩ := conclude_spec outlet r (d.link, d.outside)
    have hrest := perm_cons_filter_key h.nodup_unconcluded hr
    rw [hstep, hlink]
    refine ⟨h.numbers, h.tickets, h.placed, h.table, h.timers, h.put, h.once,
      List.filter_sublist.trans h.unconcluded, ?_⟩
    refine List.Perm.trans ?_ h.accounted
    refine List.Perm.append_right _ (List.Perm.append_right _ ?_)
    rw [List.map_append, List.append_assoc]
    refine List.Perm.append_left _ ?_
    rw [List.map_singleton, hticket]
    exact (hrest.map fun r => r.1.ticket).symm

/-! ### Events and runs -/

/-- What an event finds when it comes to settle questions satisfies the invariant. -/
theorem facing (h : Invariant concluded d) (outlet : Outlet τ) (e : Event τ) :
    Invariant concluded (d.facing outlet e) := by
  cases e with
  | put seq =>
    cases hready : d.ready? outlet seq with
    | none =>
      rw [Dialogue.facing, hready]
      exact h
    | some q =>
      rw [Dialogue.facing, hready]
      exact h.sending (mem_begun_of_ready hready).1 _
  | hear signal =>
    cases signal with
    | line | diagnostics => exact h
    | exit | failure =>
      exact ⟨h.numbers, h.tickets, h.placed, h.table, h.timers, h.put, h.once, h.unconcluded, h.accounted⟩
  | wait | shift =>
    exact ⟨h.numbers, h.tickets, h.placed, h.table, h.timers, h.put, h.once, h.unconcluded, h.accounted⟩
  | ask | conclude => exact h

/-- The questions that an event decides are questions that it finds in the table. -/
theorem decided_subperm {outlet : Outlet τ} {e : Event τ} {rs : List Settled}
    (hrs : rs.Perm (decided outlet d e)) :
    (rs.map Prod.fst).Subperm (d.facing outlet e).link.pending := by
  refine ((hrs.map Prod.fst).subperm).trans (List.Sublist.subperm ?_)
  unfold decided
  generalize (d.facing outlet e).link.pending = qs
  induction qs with
  | nil => exact .slnil
  | cons q qs ih =>
    cases hv : verdict? outlet d e q with
    | none => simpa [List.filterMap_cons, hv] using ih.cons q
    | some v => simpa [List.filterMap_cons, hv] using ih

/-- Every event preserves the invariant. -/
theorem step (h : Invariant concluded d) (outlet : Outlet τ) (e : Event τ) :
    Invariant (concluded ++ (step outlet d e).1) (step outlet d e).2 := by
  rcases e.settles_or with he | ⟨ask, rfl⟩ | ⟨seq, rfl⟩
  · obtain ⟨rs, hrs, hstep⟩ := step_settles outlet h.tidy he
    rw [hstep, List.append_nil]
    exact (h.facing outlet e).settling outlet (decided_subperm hrs)
  · exact h.ask outlet ask
  · exact h.conclude outlet seq

/-- Every run preserves the invariant. -/
theorem run (h : Invariant concluded d) (outlet : Outlet τ) (es : List (Event τ)) :
    Invariant (concluded ++ (run outlet es d).1) (run outlet es d).2 := by
  induction es generalizing concluded d with
  | nil => simpa using h
  | cons e es ih =>
    rw [run_cons, ← List.append_assoc]
    exact ih (h.step outlet e)

end Invariant

/-- After every run each question is at its station. -/
theorem invariant_of_run (outlet : Outlet τ) (timeout : Double) (t : τ) (es : List (Event τ)) :
    Invariant (run outlet es (fresh timeout t)).1 (run outlet es (fresh timeout t)).2 :=
  (invariant_fresh timeout t).run outlet es

/-! ### Order -/

/-- The questions that were put and then those that are begun are all that were given a number, in order. -/
def InOrder (d : Dialogue τ) : Prop := d.sent.map Sent.question ++ d.begun = d.issued

/-- Where no journal is kept, the oldest question is put first. -/
theorem InOrder.facing {outlet : Outlet τ} (hjournal : outlet.journal = none) {concluded : List Conclusion}
    {d : Dialogue τ} (hinv : Invariant concluded d) (h : InOrder d) (e : Event τ) :
    InOrder (d.facing outlet e) := by
  cases e with
  | put seq =>
    rw [Dialogue.facing]
    cases hready : d.ready? outlet seq with
    | none => exact h
    | some q =>
      obtain ⟨rest, hbegun⟩ := List.head?_eq_some_iff.mp (head?_of_ready hjournal hready)
      have hnodup : (d.begun.map Numbered.seq).Nodup := (List.nodup_append.mp hinv.nodup_placed).1
      have hrest : d.begun.filter (fun p => p.seq != q.seq) = rest := by
        rw [hbegun, List.map_cons, List.nodup_cons] at hnodup
        rw [hbegun, List.filter_cons_of_neg (by simp), List.filter_eq_self]
        intro p hp
        have hne : p.seq ≠ q.seq := fun heq => hnodup.1 (heq ▸ List.mem_map_of_mem hp)
        simpa using hne
      unfold InOrder at h ⊢
      show (d.sent ++ [Sent.mk q d.link.clock]).map Sent.question ++
        (d.begun.filter fun p => p.seq != q.seq) = d.issued
      rw [hrest, ← h, hbegun]
      simp
  | hear signal => cases signal <;> exact h
  | ask | wait | conclude | shift => exact h

/-- How long questions may wait does not change. -/
theorem limits_step (outlet : Outlet τ) {concluded : List Conclusion} {d : Dialogue τ}
    (h : Invariant concluded d) (e : Event τ) :
    (step outlet d e).2.link.timeout = d.link.timeout ∧ (step outlet d e).2.link.delay = d.link.delay := by
  rcases e.settles_or with he | ⟨ask, rfl⟩ | ⟨seq, rfl⟩
  · obtain ⟨rs, -, hstep⟩ := step_settles outlet h.tidy he
    rw [hstep]
    show (d.facing outlet e).link.timeout = _ ∧ (d.facing outlet e).link.delay = _
    unfold facing
    split
    · split <;> exact ⟨rfl, rfl⟩
    all_goals exact ⟨rfl, rfl⟩
  · rcases ask_cases outlet d ask with ⟨o, t, hstep⟩ | ⟨t, hstep⟩ <;> rw [hstep] <;> exact ⟨rfl, rfl⟩
  · rcases conclude_cases outlet d seq with ⟨-, hstep⟩ | ⟨r, -, -, hstep⟩
    · rw [hstep]
      exact ⟨rfl, rfl⟩
    · obtain ⟨-, started, hlink⟩ := conclude_spec outlet r (d.link, d.outside)
      rw [hstep, hlink]
      exact ⟨rfl, rfl⟩

/-- How long questions may wait is as it was at the beginning. -/
theorem limits_of_run (outlet : Outlet τ) (timeout : Double) (t : τ) (es : List (Event τ)) :
    (run outlet es (fresh timeout t)).2.link.timeout = timeout ∧
      (run outlet es (fresh timeout t)).2.link.delay = Timer.delay timeout := by
  induction es using List.reverseRecOn with
  | nil => exact ⟨rfl, rfl⟩
  | append_singleton es e ih =>
    rw [run_concat]
    have hstep := limits_step outlet (invariant_of_run outlet timeout t es) e
    exact ⟨hstep.1.trans ih.1, hstep.2.trans ih.2⟩

end Dialogue

end SwiftLens
