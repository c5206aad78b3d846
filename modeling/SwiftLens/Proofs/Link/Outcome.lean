import SwiftLens.Proofs.Link.Telling
import SwiftLens.Proofs.Number.Whole

/-!
# The first deciding event settles a question

Take any run of a link, that is, any interleaving of questions, signals, passing time and changes of the
outside, and any question that was given a number in it. `Fate` lists what can have become of the
question: it was not put yet; it was put and no event has decided it since; or it was put and, of the
events from there on, the first one that decides it has settled it. `fate_of_issued` says that what the
asker of the question is told is exactly what its fate says, so later events cannot change it.

Whether an event decides a question, and how, is said by `Decides` for every kind of event. It depends on
the event and on the question's own number and time only. So the questions that wait do not disturb each
other: replies may come in any order, twice, late, or with numbers that were never given out
(`replies_in_any_order`, `step_of_foreign_reply`).
-/

namespace SwiftLens

variable {τ : Type}

/-! ### Time limits -/

/-- A time limit of a whole number of milliseconds that a timer can run is kept as it is. -/
theorem Timer.delay_ofNat {n : Nat} (hpos : 1 ≤ n) (hmax : n ≤ Timer.maxDelay) :
    Timer.delay (Double.ofNat n) = Double.ofNat n := by
  have hn : n ≤ 2 ^ 53 := hmax.trans (by decide)
  have hle : ∀ {a b : Nat}, a ≤ 2 ^ 53 → b ≤ 2 ^ 53 → a ≤ b → (Double.ofNat a).le (Double.ofNat b) = true := by
    intro a b ha hb hab
    rw [Double.le_eq_decide (Double.isNaN_ofNat ha) (Double.isNaN_ofNat hb), Double.rank_ofNat ha,
      Double.rank_ofNat hb, decide_eq_true_iff, Int.ofNat_le]
    exact Nat.mul_le_mul_right _ hab
  have htruncate : (Double.ofNat n).truncate = n := by
    rw [Double.truncate, Double.units_of_toInt? (Double.toInt?_ofNat hn).2, Nat.one_shiftLeft, Nat.cast_pow]
    exact Int.mul_tdiv_cancel _ (pow_ne_zero _ two_ne_zero)
  rw [delay, hle (by decide) hn hpos, hle hn (by decide) hmax, Bool.and_true, if_pos rfl, htruncate]
  rfl

/-! ### Deciding -/

/-- The code of the fault by which an event decides a question, if it does not answer it. -/
def Event.code : Event τ → Text
  | .hear (.line text) =>
    match Reply.read text with
    | .ok _ => "bridge_request_failed"
    | .error _ => "bridge_protocol_error"
  | .wait _ => "bridge_timeout"
  | _ => "bridge_unavailable"

namespace Dialogue

/-- An event decides a question that was put: `v` is what came of it. -/
inductive Decides (outlet : Outlet τ) (timeout : Double) (d : Dialogue τ) (x : Sent) :
    Event τ → Verdict → Prop where
  /-- The event puts the question, and its line cannot be sent. -/
  | unwritable {f : Fault} {t : τ} (hready : d.ready? outlet x.question.seq = some x.question)
      (hsend : outlet.send x.question.line d.outside = (.error f, t)) :
      Decides outlet timeout d x (.put x.question.seq) (.error (.unwritable f.message))
  /-- A reply with its number that reports success. -/
  | answered {text : Text} {r : Reply} (hread : Reply.read text = .ok r)
      (hseq : r.seq.toInt? = some (x.question.seq : Int)) (hsuccess : r.success = true) :
      Decides outlet timeout d x (.hear (.line text)) (.ok r.body)
  /-- A reply with its number that reports a failure. -/
  | refused {text : Text} {r : Reply} (hread : Reply.read text = .ok r)
      (hseq : r.seq.toInt? = some (x.question.seq : Int)) (hsuccess : r.success = false) :
      Decides outlet timeout d x (.hear (.line text))
        (.error (.refused x.question.seq x.question.ask.command r.message))
  /-- A line that is no reply. -/
  | garbled {text : Text} {defect : Reply.Defect} (hread : Reply.read text = .error defect) :
      Decides outlet timeout d x (.hear (.line text)) (.error (.reply defect))
  /-- The helper exits. -/
  | exited (code : Option Double) : Decides outlet timeout d x (.hear (.exit code)) (.error (.exited code))
  /-- The helper fails. -/
  | failed (message : Text) : Decides outlet timeout d x (.hear (.failure message)) (.error (.failed message))
  /-- The clock reaches the end of its time. -/
  | expired {ms : Double} (hdue : (x.time.add (Timer.delay timeout)).le (d.link.clock.add ms) = true) :
      Decides outlet timeout d x (.wait ms)
        (.error (.timedOut x.question.seq x.question.ask.command timeout))

/-- The fault by which an event decides a question has the event's code. -/
theorem Decides.code_eq {outlet : Outlet τ} {timeout : Double} {d : Dialogue τ} {x : Sent} {e : Event τ}
    {f : Fault} (h : Decides outlet timeout d x e (.error f)) : f.code?.map Code.text = some e.code := by
  cases h with
  | refused hread _ _ | garbled hread => simp [Fault.code?, Event.code, hread, Code.text]
  | unwritable _ _ | exited _ | failed _ | expired _ => rfl

/-- How long questions may wait. -/
def HasLimit (timeout : Double) (d : Dialogue τ) : Prop :=
  d.link.timeout = timeout ∧ d.link.delay = Timer.delay timeout

section

variable {outlet : Outlet τ} {timeout : Double} {concluded : List Conclusion} {d : Dialogue τ}
  {e : Event τ} {x : Sent}

/-- Putting a question decides that question only, if its line cannot be sent. -/
theorem verdict?_put_eq_some_iff (hinv : Invariant concluded d) {seq : Nat}
    (hx : x ∈ (d.facing outlet (.put seq)).waiting) {v : Verdict} :
    verdict? outlet d (.put seq) x.question = some v ↔ Decides outlet timeout d x (.put seq) v := by
  cases hready : d.ready? outlet seq with
  | none =>
    simp only [verdict?, hready]
    constructor
    · intro hv
      cases hv
    · intro h
      cases h with
      | unwritable hown _ =>
        rw [hready] at hown
        cases hown
  | some p =>
    obtain ⟨hp, rfl⟩ := mem_begun_of_ready hready
    -- the question that is put is the one with its number
    have hsame : x.question.seq = p.seq → x.question = p := by
      intro hseq
      have hx' := (hinv.facing outlet (.put p.seq)).sent_issued (List.mem_of_mem_filter hx)
      rw [facing, hready] at hx'
      exact hinv.eq_of_seq hx' (hinv.begun_issued hp) hseq
    simp only [verdict?, hready]
    constructor
    · intro hv
      split at hv
      · next hseq =>
        obtain rfl := hsame hseq
        rcases hsend : outlet.send x.question.line d.outside with ⟨f | ⟨⟩, t⟩
        · rw [hsend] at hv
          obtain rfl := Option.some.inj hv
          exact .unwritable hready hsend
        · rw [hsend] at hv
          cases hv
      · cases hv
    · intro h
      generalize hput : Event.put p.seq = e at h
      cases h with
      | unwritable hown hsend =>
        obtain rfl := hsame (Event.put.inj hput).symm
        rw [if_pos rfl, hsend]
      | _ => cases hput

/-- A line decides every question if it is no reply, and the question with its number if it is one. -/
theorem verdict?_line_eq_some_iff {text : Text} {v : Verdict} :
    verdict? outlet d (.hear (.line text)) x.question = some v ↔
      Decides outlet timeout d x (.hear (.line text)) v := by
  simp only [verdict?]
  cases hread : Reply.read text with
  | error defect =>
    constructor
    · intro hv
      obtain rfl := Option.some.inj hv
      exact .garbled hread
    · intro h
      cases h with
      | answered hread' _ _ | refused hread' _ _ =>
        rw [hread] at hread'
        cases hread'
      | garbled hread' =>
        rw [hread] at hread'
        cases hread'
        rfl
  | ok r =>
    have hseq : r.answers x.question.seq = true ↔ r.seq.toInt? = some (x.question.seq : Int) := beq_iff_eq
    simp only [hseq]
    constructor
    · intro hv
      split at hv
      · next hown =>
        obtain rfl := Option.some.inj hv
        cases hsuccess : r.success with
        | true =>
          rw [Link.verdict, hsuccess, if_pos rfl]
          exact .answered hread hown hsuccess
        | false =>
          rw [Link.verdict, hsuccess, if_neg Bool.false_ne_true]
          exact .refused hread hown hsuccess
      · cases hv
    · intro h
      cases h with
      | answered hread' hown hsuccess =>
        rw [hread] at hread'
        cases hread'
        rw [if_pos hown, Link.verdict, hsuccess, if_pos rfl]
      | refused hread' hown hsuccess =>
        rw [hread] at hread'
        cases hread'
        rw [if_pos hown, Link.verdict, hsuccess, if_neg Bool.false_ne_true]
      | garbled hread' =>
        rw [hread] at hread'
        cases hread'

/-- The passing of time decides the questions that wait and whose time is over. -/
theorem verdict?_wait_eq_some_iff (hinv : Invariant concluded d) (hlimit : d.HasLimit timeout)
    (hx : x ∈ d.waiting) {ms : Double} {v : Verdict} :
    verdict? outlet d (.wait ms) x.question = some v ↔ Decides outlet timeout d x (.wait ms) v := by
  -- the timer of the question is the only one with its number
  have hdue : (d.link.timers.any fun t => t.seq == x.question.seq && t.isDue (d.link.clock.add ms)) = true ↔
      (x.time.add (Timer.delay timeout)).le (d.link.clock.add ms) = true := by
    rw [hinv.timers, hlimit.2, List.any_map, List.any_eq_true]
    simp only [Function.comp_apply, Sent.timer, Timer.isDue, Bool.and_eq_true, beq_iff_eq]
    constructor
    · rintro ⟨y, hy, hseq, hdue⟩
      rwa [← hinv.eq_of_sent (List.mem_of_mem_filter hy) (List.mem_of_mem_filter hx) hseq]
    · intro hdue
      exact ⟨x, hx, rfl, hdue⟩
  simp only [verdict?, hdue, Link.late, hlimit.1]
  constructor
  · intro hv
    split at hv
    · next hown =>
      obtain rfl := Option.some.inj hv
      exact .expired hown
    · cases hv
  · intro h
    cases h with
    | expired hown => rw [if_pos hown]

/-- What an event says of a question that it finds is how it decides the question. -/
theorem verdict?_eq_some_iff (hinv : Invariant concluded d) (hlimit : d.HasLimit timeout)
    (hx : x ∈ (d.facing outlet e).waiting) {v : Verdict} :
    verdict? outlet d e x.question = some v ↔ Decides outlet timeout d x e v := by
  cases e with
  | ask | conclude | shift =>
    constructor
    · intro hv
      cases hv
    · intro h
      cases h
  | put seq => exact verdict?_put_eq_some_iff hinv hx
  | wait ms => exact verdict?_wait_eq_some_iff hinv hlimit hx
  | hear signal =>
    cases signal with
    | line text => exact verdict?_line_eq_some_iff
    | diagnostics text =>
      constructor
      · intro hv
        cases hv
      · intro h
        cases h
    | exit code =>
      constructor
      · intro hv
        obtain rfl := Option.some.inj hv
        exact .exited code
      · intro h
        cases h
        rfl
    | failure message =>
      constructor
      · intro hv
        obtain rfl := Option.some.inj hv
        exact .failed message
      · intro h
        cases h
        rfl

/-! ### One event -/

/-- An event that decides a question neither asks one nor concludes one. -/
theorem Decides.settles {v : Verdict} (h : Decides outlet timeout d x e v) : e.settles = true := by
  cases h <;> rfl

/-- The questions that wait wait when an event comes to settle questions. -/
theorem waiting_subset_facing (outlet : Outlet τ) (d : Dialogue τ) (e : Event τ) :
    d.waiting ⊆ (d.facing outlet e).waiting := by
  cases e with
  | put seq =>
    rw [facing]
    cases hready : d.ready? outlet seq with
    | none => exact List.Subset.refl _
    | some q =>
      intro x hx
      obtain ⟨hsent, hopen⟩ := List.mem_filter.mp hx
      exact List.mem_filter.mpr ⟨List.mem_append_left _ hsent, hopen⟩
  | hear signal => cases signal <;> exact List.Subset.refl _
  | ask | wait | conclude | shift => exact List.Subset.refl _

/-- A question that is put waits when the event comes to settle questions. -/
theorem mem_facing_put (hinv : Invariant concluded d) {q : Numbered}
    (hready : d.ready? outlet q.seq = some q) :
    ⟨q, d.link.clock⟩ ∈ (d.facing outlet (.put q.seq)).waiting := by
  rw [facing, hready]
  refine List.mem_filter.mpr ⟨List.mem_append_right _ (List.mem_singleton_self _), decide_eq_true ?_⟩
  exact hinv.begun_not_settled (mem_begun_of_ready hready).1

/-- A question that waits is in the table. -/
theorem Invariant.mem_pending (h : Invariant concluded d) (hx : x ∈ d.waiting) : x.question ∈ d.link.pending := by
  rw [h.table]
  exact List.mem_map_of_mem hx

/-- A question that an event does not decide goes on waiting. -/
theorem mem_waiting_step (hinv : Invariant concluded d) (hlimit : d.HasLimit timeout)
    (hx : x ∈ (d.facing outlet e).waiting) (hund : ∀ v, ¬ Decides outlet timeout d x e v) :
    x ∈ (step outlet d e).2.waiting := by
  rcases e.settles_or with he | ⟨ask, rfl⟩ | ⟨seq, rfl⟩
  · obtain ⟨rs, hrs, hstep⟩ := step_settles outlet hinv.tidy he
    have hfacing := hinv.facing outlet e
    obtain ⟨hsent, hopen⟩ := List.mem_filter.mp hx
    rw [hstep]
    refine List.mem_filter.mpr ⟨hsent, decide_eq_true ?_⟩
    show x.question.seq ∉ numbersOf ((d.facing outlet e).settled ++ rs)
    rw [numbersOf_append, List.mem_append]
    refine not_or.mpr ⟨of_decide_eq_true hopen, fun hmem => ?_⟩
    obtain ⟨r, hr, hseq⟩ := List.mem_map.mp hmem
    obtain ⟨hpending, hv⟩ := mem_decided.mp (hrs.mem_iff.mp hr)
    have hsame : r.1 = x.question :=
      List.inj_on_of_nodup_map hfacing.nodup_pending hpending (hfacing.mem_pending hx) hseq
    rw [hsame] at hv
    exact hund _ ((verdict?_eq_some_iff hinv hlimit hx).mp hv)
  · rcases ask_cases outlet d ask with ⟨o, t, hstep⟩ | ⟨t, hstep⟩
    · rw [hstep]
      exact hx
    · rw [hstep]
      exact hx
  · rcases conclude_cases outlet d seq with ⟨-, hstep⟩ | ⟨r, -, -, hstep⟩
    · rw [hstep]
      exact hx
    · rw [hstep]
      exact hx

/-- A question that an event decides is settled by that event with its verdict. -/
theorem mem_settled_of_decides (hinv : Invariant concluded d) (hlimit : d.HasLimit timeout)
    (hx : x ∈ (d.facing outlet e).waiting) {v : Verdict} (hv : Decides outlet timeout d x e v) :
    (x.question, v) ∈ (step outlet d e).2.settled := by
  obtain ⟨rs, hrs, hstep⟩ := step_settles outlet hinv.tidy hv.settles
  have hmem : (x.question, v) ∈ rs := hrs.mem_iff.mpr (mem_decided.mpr
    ⟨(hinv.facing outlet e).mem_pending hx, (verdict?_eq_some_iff hinv hlimit hx).mpr hv⟩)
  rw [hstep]
  exact List.mem_append_right _ hmem

/-- What was settled stays settled. -/
theorem settled_subset_step (hinv : Invariant concluded d) (outlet : Outlet τ) (e : Event τ) :
    d.settled ⊆ (step outlet d e).2.settled := by
  rcases e.settles_or with he | ⟨ask, rfl⟩ | ⟨seq, rfl⟩
  · obtain ⟨rs, -, hstep⟩ := step_settles outlet hinv.tidy he
    rw [hstep, ← settled_facing outlet d e]
    exact List.subset_append_left _ rs
  · rcases ask_cases outlet d ask with ⟨o, t, hstep⟩ | ⟨t, hstep⟩ <;> rw [hstep] <;> exact List.Subset.refl _
  · rcases conclude_cases outlet d seq with ⟨-, hstep⟩ | ⟨r, -, -, hstep⟩ <;> rw [hstep] <;>
      exact List.Subset.refl _

end

/-! ### Runs -/

/-- No event of a run decides the question. -/
def Undecided (outlet : Outlet τ) (timeout : Double) (x : Sent) : List (Event τ) → Dialogue τ → Prop
  | [], _ => True
  | e :: es, d => (∀ v, ¬ Decides outlet timeout d x e v) ∧ Undecided outlet timeout x es (step outlet d e).2

section

variable {outlet : Outlet τ} {timeout : Double} {concluded : List Conclusion} {d : Dialogue τ} {x : Sent}

/-- How long questions may wait does not change. -/
theorem HasLimit.step (h : d.HasLimit timeout) (hinv : Invariant concluded d) (e : Event τ) :
    (step outlet d e).2.HasLimit timeout :=
  ⟨(limits_step outlet hinv e).1.trans h.1, (limits_step outlet hinv e).2.trans h.2⟩

/-- A question that no event decides goes on waiting to the end of the run. -/
theorem mem_waiting_run {es : List (Event τ)} (hinv : Invariant concluded d) (hlimit : d.HasLimit timeout)
    (hx : x ∈ d.waiting) (hund : Undecided outlet timeout x es d) : x ∈ (run outlet es d).2.waiting := by
  induction es generalizing concluded d with
  | nil => exact hx
  | cons e es ih =>
    rw [run_cons]
    have hstep := mem_waiting_step hinv hlimit (waiting_subset_facing outlet d e hx) hund.1
    exact ih (hinv.step outlet e) (hlimit.step hinv e) hstep hund.2

/-- A question that waits for the first event of a run and that the events before `e` do not decide waits
for `e`. -/
theorem mem_facing_run {us vs ws : List (Event τ)} {first e : Event τ} (hinv : Invariant concluded d)
    (hlimit : d.HasLimit timeout) (hsplit : first :: ws = us ++ e :: vs)
    (hx : x ∈ (d.facing outlet first).waiting) (hund : Undecided outlet timeout x us d) :
    x ∈ ((run outlet us d).2.facing outlet e).waiting := by
  cases us with
  | nil =>
    obtain ⟨rfl, -⟩ := List.cons.inj hsplit
    exact hx
  | cons u us =>
    obtain ⟨rfl, -⟩ := List.cons.inj hsplit
    refine waiting_subset_facing outlet _ e ?_
    rw [run_cons]
    exact mem_waiting_run (hinv.step outlet first) (hlimit.step hinv first)
      (mem_waiting_step hinv hlimit hx hund.1) hund.2

/-- What was settled stays settled to the end of the run. -/
theorem settled_subset_run (hinv : Invariant concluded d) (es : List (Event τ)) :
    d.settled ⊆ (run outlet es d).2.settled := by
  induction es generalizing concluded d with
  | nil => exact List.Subset.refl _
  | cons e es ih =>
    rw [run_cons]
    exact List.Subset.trans (settled_subset_step hinv outlet e) (ih (hinv.step outlet e))

/-- In a run, no event decides a question or there is a first one that does. -/
theorem undecided_or_first (outlet : Outlet τ) (timeout : Double) (x : Sent) (es : List (Event τ))
    (d : Dialogue τ) :
    Undecided outlet timeout x es d ∨ ∃ us e vs v, es = us ++ e :: vs ∧ Undecided outlet timeout x us d ∧
      Decides outlet timeout (run outlet us d).2 x e v := by
  induction es generalizing d with
  | nil => exact .inl trivial
  | cons e es ih =>
    by_cases hv : ∃ v, Decides outlet timeout d x e v
    · obtain ⟨v, hv⟩ := hv
      exact .inr ⟨[], e, es, v, rfl, trivial, hv⟩
    · rw [not_exists] at hv
      rcases ih (step outlet d e).2 with hund | ⟨us, e', vs, v, rfl, hund, hdec⟩
      · exact .inl ⟨hv, hund⟩
      · exact .inr ⟨e :: us, e', vs, v, rfl, ⟨hv, hund⟩, hdec⟩

/-- A question that an event of a run decides is settled with that verdict at the end of the run. -/
theorem mem_settled_run {us vs : List (Event τ)} {e : Event τ} {v : Verdict} (hinv : Invariant concluded d)
    (hlimit : (run outlet us d).2.HasLimit timeout) (hx : x ∈ ((run outlet us d).2.facing outlet e).waiting)
    (hdec : Decides outlet timeout (run outlet us d).2 x e v) :
    (x.question, v) ∈ (run outlet (us ++ e :: vs) d).2.settled := by
  have hus := hinv.run outlet us
  rw [run_append, run_cons]
  exact settled_subset_run (hus.step outlet e) vs (mem_settled_of_decides hus hlimit hx hdec)

end

/-- A question that was given a number is still to be put, or it was put at one point of the run. -/
theorem unput_or_put (outlet : Outlet τ) (timeout : Double) (t : τ) (es : List (Event τ)) {q : Numbered}
    (hq : q ∈ (run outlet es (fresh timeout t)).2.issued) :
    q ∈ (run outlet es (fresh timeout t)).2.begun ∨
      ∃ before after, es = before ++ .put q.seq :: after ∧
        (run outlet before (fresh timeout t)).2.ready? outlet q.seq = some q := by
  induction es using List.reverseRecOn with
  | nil => exact absurd hq List.not_mem_nil
  | append_singleton es e ih =>
    have hinv := invariant_of_run outlet timeout t es
    rw [run_concat] at hq ⊢
    generalize hd : (run outlet es (fresh timeout t)).2 = d at hq hinv ih ⊢
    -- a question that was put before this event still was
    have hearlier : (∃ before after, es = before ++ .put q.seq :: after ∧
        (run outlet before (fresh timeout t)).2.ready? outlet q.seq = some q) →
        ∃ before after, es ++ [e] = before ++ .put q.seq :: after ∧
          (run outlet before (fresh timeout t)).2.ready? outlet q.seq = some q := by
      rintro ⟨before, after, rfl, hready⟩
      exact ⟨before, after ++ [e], by simp, hready⟩
    have hcases : q ∈ d.issued → q ∈ d.begun ∨ _ := fun h => (ih h).imp_right hearlier
    rcases e.settles_or with he | ⟨ask, rfl⟩ | ⟨seq, rfl⟩
    · obtain ⟨rs, -, hstep⟩ := step_settles outlet hinv.tidy he
      rw [hstep] at hq ⊢
      cases e with
      | ask | conclude => cases he
      | put seq =>
        cases hready : d.ready? outlet seq with
        | none =>
          rw [facing, hready] at hq ⊢
          exact hcases hq
        | some p =>
          rw [facing, hready] at hq ⊢
          obtain ⟨hp, rfl⟩ := mem_begun_of_ready hready
          rcases hcases hq with hbegun | hput
          · by_cases hseq : q.seq = p.seq
            · obtain rfl := hinv.eq_of_seq hq (hinv.begun_issued hp) hseq
              exact .inr ⟨es, [], rfl, hd ▸ hready⟩
            · exact .inl (List.mem_filter.mpr ⟨hbegun, by simpa using hseq⟩)
          · exact .inr hput
      | hear signal => cases signal <;> exact hcases hq
      | wait | shift => exact hcases hq
    · rcases ask_cases outlet d ask with ⟨o, u, hstep⟩ | ⟨u, hstep⟩
      · rw [hstep] at hq ⊢
        exact hcases hq
      · rw [hstep] at hq ⊢
        rcases List.mem_append.mp hq with hq | hq
        · exact (hcases hq).imp_left (List.mem_append_left _)
        · exact .inl (List.mem_append_right _ hq)
    · rcases conclude_cases outlet d seq with ⟨-, hstep⟩ | ⟨r, -, -, hstep⟩
      · rw [hstep] at hq ⊢
        exact hcases hq
      · rw [hstep] at hq ⊢
        exact hcases hq

/-- What can have become of a question that was given a number in a run, and what its asker is told. -/
inductive Fate (outlet : Outlet τ) (timeout : Double) (start : Dialogue τ) (es : List (Event τ))
    (q : Numbered) : List Conclusion → Prop where
  /-- It has not been put. -/
  | unput (hq : q ∈ (run outlet es start).2.begun) : Fate outlet timeout start es q []
  /-- It was put, and no event from there on has decided it. -/
  | undecided {before after : List (Event τ)} (hes : es = before ++ .put q.seq :: after)
      (hq : (run outlet before start).2.ready? outlet q.seq = some q)
      (hund : Undecided outlet timeout ⟨q, (run outlet before start).2.link.clock⟩ (.put q.seq :: after)
        (run outlet before start).2)
      (hwaiting : q ∈ (run outlet es start).2.link.pending) :
      Fate outlet timeout start es q []
  /-- It was put, and `e` is the first event from there on that decides it. -/
  | decided {before after us vs : List (Event τ)} {e : Event τ} {v : Verdict} {told : List Conclusion}
      (hes : es = before ++ .put q.seq :: after)
      (hq : (run outlet before start).2.ready? outlet q.seq = some q)
      (hsplit : .put q.seq :: after = us ++ e :: vs)
      (hund : Undecided outlet timeout ⟨q, (run outlet before start).2.link.clock⟩ us
        (run outlet before start).2)
      (hdec : Decides outlet timeout (run outlet us (run outlet before start).2).2
        ⟨q, (run outlet before start).2.link.clock⟩ e v)
      (hsettled : (q, v) ∈ (run outlet es start).2.settled) (htold : Telling outlet start es (q, v) told) :
      Fate outlet timeout start es q told

/-- The asker of a question that is begun or waits is told nothing. -/
theorem Invariant.conclusionsOf_eq_nil {concluded : List Conclusion} {d : Dialogue τ}
    (h : Invariant concluded d) {q : Numbered} (hq : q ∈ d.link.pending ++ d.begun) :
    conclusionsOf q.ticket concluded = [] := by
  refine SwiftLens.Dialogue.conclusionsOf_eq_nil fun hmem => ?_
  have hnodup := h.nodup_tickets
  rw [List.append_assoc, List.append_assoc] at hnodup
  refine (List.nodup_append.mp hnodup).2.2 _ hmem q.ticket ?_ rfl
  refine List.mem_append_right _ ?_
  rw [← List.map_append]
  exact List.mem_map_of_mem hq

/-- The asker of a question is told exactly what its fate says. -/
theorem fate_of_issued (outlet : Outlet τ) (timeout : Double) (t : τ) (es : List (Event τ)) {q : Numbered}
    (hq : q ∈ (run outlet es (fresh timeout t)).2.issued) :
    Fate outlet timeout (fresh timeout t) es q
      (conclusionsOf q.ticket (run outlet es (fresh timeout t)).1) := by
  have hinv := invariant_of_run outlet timeout t es
  rcases unput_or_put outlet timeout t es hq with hbegun | ⟨before, after, hes, hready⟩
  · rw [hinv.conclusionsOf_eq_nil (List.mem_append_right _ hbegun)]
    exact .unput hbegun
  · have hbefore := invariant_of_run outlet timeout t before
    have hlimit : (run outlet before (fresh timeout t)).2.HasLimit timeout := limits_of_run outlet timeout t before
    have hx := mem_facing_put hbefore hready
    generalize hd : (run outlet before (fresh timeout t)).2 = d at hbefore hlimit hx hready
    rcases undecided_or_first outlet timeout ⟨q, d.link.clock⟩ (.put q.seq :: after) d with
      hund | ⟨us, e, vs, v, hsplit, hund, hdec⟩
    · have hwaiting : q ∈ (run outlet es (fresh timeout t)).2.link.pending := by
        refine hinv.mem_pending (x := ⟨q, d.link.clock⟩) ?_
        rw [hes, run_append, hd, run_cons]
        exact mem_waiting_run (hbefore.step outlet _) (hlimit.step hbefore _)
          (mem_waiting_step hbefore hlimit hx hund.1) hund.2
      rw [hinv.conclusionsOf_eq_nil (List.mem_append_left _ hwaiting)]
      subst hd
      exact .undecided hes hready hund hwaiting
    · have hsettled : (q, v) ∈ (run outlet es (fresh timeout t)).2.settled := by
        have hlimits : (run outlet us d).2.HasLimit timeout := by
          have hwhole := limits_of_run outlet timeout t (before ++ us)
          rwa [run_append, hd] at hwhole
        rw [hes, run_append, hd, hsplit]
        exact mem_settled_run hbefore hlimits (mem_facing_run hbefore hlimit hsplit hx hund) hdec
      subst hd
      exact .decided hes hready hsplit hund hdec hsettled (telling_of_settled outlet timeout t es hsettled)

/-! ### Replies -/

/-- Whether a line is a reply with the given number. -/
def carries (seq : Nat) (text : Text) : Bool :=
  match Reply.read text with
  | .ok r => r.seq.toInt? == some (seq : Int)
  | .error _ => false

/-- A reply with a number that no waiting question has changes nothing. -/
theorem step_of_foreign_reply (outlet : Outlet τ) (d : Dialogue τ) {text : Text} {r : Reply}
    (hread : Reply.read text = .ok r)
    (h : ∀ q ∈ d.link.pending, r.seq.toInt? ≠ some (q.seq : Int)) :
    step outlet d (.hear (.line text)) = ([], d) := by
  have hnone : d.link.pending.filter (fun q => r.answers q.seq) = [] := by
    rw [List.filter_eq_nil_iff]
    intro q hq
    simpa [Reply.answers] using h q hq
  simp only [step, Link.receive, hread, Link.settleWhere, hnone]
  simp [after, Link.settle]

/-- Replies with other numbers do not decide a question. -/
theorem undecided_of_other_replies (outlet : Outlet τ) (timeout : Double) (x : Sent) (lines : List Text)
    (d : Dialogue τ)
    (h : ∀ text ∈ lines, ∃ r, Reply.read text = .ok r ∧ r.seq.toInt? ≠ some (x.question.seq : Int)) :
    Undecided outlet timeout x (lines.map fun text => .hear (.line text)) d := by
  induction lines generalizing d with
  | nil => trivial
  | cons text lines ih =>
    obtain ⟨r, hread, hseq⟩ := h text List.mem_cons_self
    refine ⟨?_, ih _ fun text htext => h text (List.mem_cons_of_mem _ htext)⟩
    intro v hv
    cases hv with
    | answered hread' hseq' _ | refused hread' hseq' _ =>
      rw [hread] at hread'
      cases hread'
      exact hseq hseq'
    | garbled hread' =>
      rw [hread] at hread'
      cases hread'

/-- Among replies in any order, repeated or not and mixed with replies to other questions, a waiting
question is settled by the first one that has its number. -/
theorem replies_in_any_order (outlet : Outlet τ) (timeout : Double) (t : τ) (es : List (Event τ))
    (lines : List Text) (hlines : ∀ text ∈ lines, ∃ r, Reply.read text = .ok r) {q : Numbered}
    (hq : q ∈ (run outlet es (fresh timeout t)).2.link.pending) {text : Text} {r : Reply}
    (hfirst : lines.find? (carries q.seq) = some text) (hread : Reply.read text = .ok r)
    (hsuccess : r.success = true) :
    (q, .ok r.body) ∈
      (run outlet (es ++ lines.map fun text => .hear (.line text)) (fresh timeout t)).2.settled := by
  have hinv := invariant_of_run outlet timeout t es
  have hlimit : (run outlet es (fresh timeout t)).2.HasLimit timeout := limits_of_run outlet timeout t es
  rw [hinv.table] at hq
  obtain ⟨x, hx, rfl⟩ := List.mem_map.mp hq
  obtain ⟨hcarries, us, vs, rfl, hus⟩ := List.find?_eq_some_iff_append.mp hfirst
  have hseq : r.seq.toInt? = some (x.question.seq : Int) := by simpa [carries, hread] using hcarries
  have hothers : ∀ text ∈ us, ∃ r, Reply.read text = .ok r ∧ r.seq.toInt? ≠ some (x.question.seq : Int) := by
    intro text' htext
    obtain ⟨r', hread'⟩ := hlines text' (List.mem_append_left _ htext)
    refine ⟨r', hread', ?_⟩
    simpa [carries, hread'] using hus text' htext
  have hlast : ((run outlet (us.map fun text => .hear (.line text))
      (run outlet es (fresh timeout t)).2).2).HasLimit timeout := by
    have hwhole := limits_of_run outlet timeout t (es ++ us.map fun text => .hear (.line text))
    rwa [run_append] at hwhole
  rw [List.map_append, List.map_cons, run_append]
  refine mem_settled_run hinv hlast (waiting_subset_facing outlet _ _ ?_) (.answered hread hseq hsuccess)
  exact mem_waiting_run hinv hlimit hx (undecided_of_other_replies outlet timeout x us _ hothers)

/-! ### The whole statement -/

/-- In every run of a link, every question is settled at most once and its asker is told at most once what
came of it. What came of a numbered question is decided by the first event, from the one that puts it on,
that decides it: its line cannot be sent, a reply with its number comes, a line comes that is no reply, the
helper exits or fails, or its time has run out. The fault by which an event settles a question has the
event's code, and so has that of a body that says nothing to the question. A line is a reply just in case
it is an object with a number and an outcome, and a time limit is kept as it is if a timer can run for it.
A reply with a number that no waiting question has changes nothing at all, and success replies to the
waiting questions may come in any order, more than once and among other replies: each question gets the
body of the first reply that has its number. -/
theorem settled_by_first_deciding_event (outlet : Outlet τ) (timeout : Double) (t : τ)
    (es : List (Event τ)) :
    let start := fresh timeout t
    let r := run outlet es start
    (numbersOf r.2.settled).Nodup ∧ (r.1.map Conclusion.ticket).Nodup ∧
    (∀ q ∈ r.2.issued, Fate outlet timeout start es q (conclusionsOf q.ticket r.1)) ∧
    (∀ d x e f, Decides outlet timeout d x e (.error f) → f.code?.map Code.text = some e.code) ∧
    (∀ defect, (Fault.body defect).code?.map Code.text = some "bridge_protocol_error") ∧
    (∀ text reply, Reply.read text = .ok reply ↔
      ∃ members : Entries (Json Double), Json.parse? text = some (.object members) ∧
        members.get? "seq" = some (.number reply.seq) ∧
        members.get? "success" = some (.bool reply.success) ∧
        (∀ m, reply.message = some m ↔ members.get? "message" = some (.string m)) ∧
        reply.body = members.get? "body") ∧
    (∀ n, 1 ≤ n → n < 2 ^ 31 → Timer.delay (Double.ofNat n) = Double.ofNat n) ∧
    (∀ text reply, Reply.read text = .ok reply →
      (∀ q ∈ r.2.link.pending, reply.seq.toInt? ≠ some (q.seq : Int)) →
      step outlet r.2 (.hear (.line text)) = ([], r.2)) ∧
    (∀ lines : List Text, (∀ text ∈ lines, ∃ reply, Reply.read text = .ok reply) →
      ∀ q ∈ r.2.link.pending, ∀ text reply, lines.find? (carries q.seq) = some text →
      Reply.read text = .ok reply → reply.success = true →
      (q, .ok reply.body) ∈ (run outlet (es ++ lines.map fun text => .hear (.line text)) start).2.settled) := by
  intro start r
  have hinv := invariant_of_run outlet timeout t es
  refine ⟨hinv.once, hinv.nodup_concluded, ?_, ?_, fun defect => rfl, ?_, ?_, ?_, ?_⟩
  · intro q hq
    exact fate_of_issued outlet timeout t es hq
  · intro d x e f h
    exact h.code_eq
  · intro text reply
    exact Reply.read_eq_ok_iff
  · intro n hpos hmax
    exact Timer.delay_ofNat hpos (Nat.le_of_lt_succ hmax)
  · intro text reply hread h
    exact step_of_foreign_reply outlet r.2 hread h
  · intro lines hlines q hq text reply hfirst hread hsuccess
    exact replies_in_any_order outlet timeout t es lines hlines hq hfirst hread hsuccess

/-- The line of a reply that reports success and has no body. -/
def successLine (seq : Nat) : Text := "\x7b\"seq\":" ++ Text.ofNat seq ++ ",\"success\":true\x7d"

/-- The line of a reply that reports success and has an identifier. -/
def uidLine (seq : Nat) (digits : Text) : Text :=
  "\x7b\"seq\":" ++ Text.ofNat seq ++ ",\"success\":true,\"body\":\x7b\"uid\":\"" ++ digits ++ "\"\x7d\x7d"

/-- The line of a reply that reports a failure. -/
def failureLine (seq : Nat) (message : Text) : Text :=
  "\x7b\"seq\":" ++ Text.ofNat seq ++ ",\"success\":false,\"message\":\"" ++ message ++ "\"\x7d"

/-- Eight questions, each settled in another way, and then concluded. -/
def everyWay : List (Event Bool) :=
  [.ask (.uidOf "class"), .put 1, .ask (.nameOf 7), .put 2, .ask (.uidOf "struct"), .put 3,
    .hear (.line (uidLine 1 "71")), .hear (.line (failureLine 2 "no")), .hear (.line (successLine 3)),
    .ask .connect, .put 4, .hear (.line "oops"), .ask .connect, .put 5, .hear (.exit none),
    .ask .connect, .put 6, .hear (.failure "gone"), .ask .connect, .shift fun _ => false, .put 7,
    .ask .disconnect, .shift fun _ => true, .put 8, .hear (.line (successLine 8)),
    .conclude 1, .conclude 2, .conclude 3, .conclude 4, .conclude 5, .conclude 6, .conclude 7, .conclude 8]

/-- A question whose time runs out. -/
def outOfTime : List (Event Bool) := [.ask .connect, .put 1, .wait (Double.ofNat 1000), .conclude 1]

/-- The code of the fault that an asker is told, if there is one. -/
def toldCode (x : Conclusion) : Option Text :=
  match x.outcome with
  | .ok _ => none
  | .error e => e.code?.map Code.text

/-- What askers are told: what the body of a success reply says, if it says something, and otherwise a
fault with its code. And while two questions wait, the reply to the second comes first and twice, then a reply
to none, then that to the first. -/
theorem settled_by_first_deciding_event_in_every_way :
    (run Outlet.switch everyWay (fresh (Double.ofNat 1000) true)).1 = [⟨1, .ok (.uid 71)⟩,
      ⟨2, .error (.refused 2 "uid.get_string" (some "no"))⟩,
      ⟨3, .error (.body (.missing "uid.get_from_string" "uid"))⟩, ⟨4, .error (.reply (.notJson "oops"))⟩,
      ⟨5, .error (.exited none)⟩, ⟨6, .error (.failed "gone")⟩, ⟨7, .error (.unwritable "off")⟩,
      ⟨8, .ok .done⟩] ∧
    (run Outlet.switch everyWay (fresh (Double.ofNat 1000) true)).1.map toldCode =
      ([none, some "bridge_request_failed", some "bridge_protocol_error", some "bridge_protocol_error",
        some "bridge_unavailable", some "bridge_unavailable", some "bridge_unavailable", none] :
          List (Option Text)) ∧
    (run Outlet.switch outOfTime (fresh (Double.ofNat 1000) true)).1.map toldCode =
      ([some "bridge_timeout"] : List (Option Text)) ∧
    ((⟨1, 1, .connect, Double.zero false⟩, .ok none) : Settled) ∈
      (run Outlet.switch ([.ask .connect, .put 1, .ask .connect, .put 2] ++
        [successLine 2, successLine 2, successLine 7, successLine 1].map fun text =>
          .hear (.line text)) (fresh (Double.ofNat 1000) true)).2.settled := by
  have hread : ∀ n ∈ [1, 2, 3, 7, 8], Reply.read (successLine n) = .ok ⟨Double.ofNat n, true, none, none⟩ := by
    simp only [List.forall_mem_cons]
    refine ⟨by cbv, by cbv, by cbv, by cbv, by cbv, ?_⟩
    simp
  have huid : Reply.read (uidLine 1 "71") =
      .ok ⟨Double.ofNat 1, true, none, some (.object [("uid", .string "71")])⟩ := by cbv
  have hfailure : Reply.read (failureLine 2 "no") = .ok ⟨Double.ofNat 2, false, some "no", none⟩ := by cbv
  have hoops : Reply.read "oops" = .error (.notJson "oops") := by cbv
  have hevery : (run Outlet.switch everyWay (fresh (Double.ofNat 1000) true)).1 = [⟨1, .ok (.uid 71)⟩,
      ⟨2, .error (.refused 2 "uid.get_string" (some "no"))⟩,
      ⟨3, .error (.body (.missing "uid.get_from_string" "uid"))⟩, ⟨4, .error (.reply (.notJson "oops"))⟩,
      ⟨5, .error (.exited none)⟩, ⟨6, .error (.failed "gone")⟩, ⟨7, .error (.unwritable "off")⟩,
      ⟨8, .ok .done⟩] := by
    simp only [everyWay, run, step, Link.receive, huid, hfailure, hread 3 (by decide), hread 8 (by decide), hoops]
    rfl
  have hlines : ∀ text ∈ [successLine 2, successLine 2, successLine 7, successLine 1],
      ∃ r, Reply.read text = .ok r := by
    have h2 := hread 2 (by decide)
    simp only [List.forall_mem_cons]
    exact ⟨⟨_, h2⟩, ⟨_, h2⟩, ⟨_, hread 7 (by decide)⟩, ⟨_, hread 1 (by decide)⟩, by simp⟩
  obtain ⟨-, -, -, -, -, -, -, -, hreplies⟩ := settled_by_first_deciding_event Outlet.switch
    (Double.ofNat 1000) true [.ask .connect, .put 1, .ask .connect, .put 2]
  refine ⟨hevery, by rw [hevery]; rfl, by decide +kernel, ?_⟩
  exact hreplies [successLine 2, successLine 2, successLine 7, successLine 1] hlines
    ⟨1, 1, .connect, Double.zero false⟩ List.mem_cons_self (successLine 1)
    ⟨Double.ofNat 1, true, none, none⟩ (by decide +kernel) (hread 1 (by decide)) rfl

/-- The question that ends the session is answered, yet its asker is told that the helper could not be
closed. And where the time limit is more than a timer can run, the time of a question is over at once. -/
theorem told_of_closing :
    let r := run Outlet.switch [.ask .connect, .put 1, .ask .disconnect, .put 2, .hear (.line (successLine 2)),
      .shift fun _ => false, .conclude 2] (fresh (Double.ofNat 1000) true)
    r.2.settled = [(⟨2, 2, .disconnect, Double.zero false⟩, .ok none)] ∧ r.1 = [⟨2, .error (.outside "off")⟩] ∧
      numbersOf (run Outlet.switch [.ask .connect, .put 1, .wait (Double.ofNat 1)]
        (fresh (Double.ofNat 3000000000) true)).2.settled = [1] := by
  have hread : Reply.read (successLine 2) = .ok ⟨Double.ofNat 2, true, none, none⟩ := by cbv
  refine ⟨?_, ?_, by decide +kernel⟩
  · simp only [run, step, Link.receive, hread]
    rfl
  · simp only [run, step, Link.receive, hread]
    rfl

end Dialogue

end SwiftLens
