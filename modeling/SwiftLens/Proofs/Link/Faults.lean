import SwiftLens.Proofs.Link.Trail

/-!
# Where the fault of a call comes from

Whatever decides a question that was given a number does so by a fault with one of the four codes of a
link, and so does a body that does not answer the question (`IsCoded`). Two faults reach an asker as the
outside gives them: that of starting the helper, which is the outcome of the call that was to start it,
and that of closing it, which is the outcome of the question that ends the session. Sending is not among
them, since a line that cannot be sent is reported under a code of its own.

`Origin` says this of one question. `faults_of_run` carries it through every run, together with the
converse: no failed start and no failed closing is kept from the askers. So the faults of a run are all coded
just in case those of its starts and closings are, and `uncoded_faults` is a run in which they are not.
-/

namespace SwiftLens

variable {τ : Type}

/-! ### Codes -/

/-- The codes of the faults of a link. -/
def Code.ofLink : List Code := [.helperUnavailable, .helperProtocol, .helperTimeout, .requestFailed]

/-- A fault has one of the codes of a link. -/
def Fault.IsCoded (f : Fault) : Prop := ∃ code ∈ Code.ofLink, f.code? = some code

namespace Dialogue

/-- The fault by which an event decides a question is coded. -/
theorem Decides.isCoded {outlet : Outlet τ} {timeout : Double} {d : Dialogue τ} {x : Sent} {e : Event τ}
    {f : Fault} (h : Decides outlet timeout d x e (.error f)) : f.IsCoded := by
  cases h with
  | unwritable _ _ | exited _ | failed _ => exact ⟨.helperUnavailable, by simp [Code.ofLink], rfl⟩
  | refused _ _ _ => exact ⟨.requestFailed, by simp [Code.ofLink], rfl⟩
  | garbled _ => exact ⟨.helperProtocol, by simp [Code.ofLink], rfl⟩
  | expired _ => exact ⟨.helperTimeout, by simp [Code.ofLink], rfl⟩

/-- The fault by which a question was settled is coded. -/
theorem isCoded_of_settled (outlet : Outlet τ) (timeout : Double) (t : τ) (es : List (Event τ)) {r : Settled}
    (hr : r ∈ (run outlet es (fresh timeout t)).2.settled) {f : Fault} (hf : r.2 = .error f) : f.IsCoded := by
  obtain ⟨us, e, vs, x, -, -, -, hdec⟩ := exists_deciding outlet timeout t es hr
  rw [hf] at hdec
  exact hdec.isCoded

/-- What a question makes of a verdict has the fault of the verdict or that of the body. -/
theorem isCoded_of_answer {ask : Ask} {v : Verdict} {f : Fault} (hv : ∀ e, v = .error e → e.IsCoded)
    (h : Link.answer ask v = .error f) : f.IsCoded := by
  cases v with
  | error e =>
    obtain rfl : e = f := Except.error.inj h
    exact hv e rfl
  | ok body =>
    rw [Link.answer] at h
    cases hbody : ask.interpret body with
    | ok x =>
      rw [hbody] at h
      cases h
    | error defect =>
      rw [hbody] at h
      obtain rfl : Fault.body defect = f := Except.error.inj h
      exact ⟨.helperProtocol, by simp [Code.ofLink], rfl⟩

/-! ### The origin of a fault -/

/-- Where the fault that the asker of a question is told comes from. -/
inductive Origin (d : Dialogue (List Deed × τ)) (x : Conclusion) (f : Fault) : Prop where
  /-- The link made it, under one of its codes. -/
  | link (hcoded : f.IsCoded)
  /-- The helper could not be started, and the question was given no number. -/
  | start (hnumber : ∀ q ∈ d.issued, q.ticket ≠ x.ticket) (hstart : .start (some f) ∈ d.outside.1)
  /-- The helper could not be closed, and the question ends the session. -/
  | close {r : Settled} (hr : r ∈ d.settled) (hticket : r.1.ticket = x.ticket) (hask : r.1.ask = .disconnect)
      (hclose : .close (some f) ∈ d.outside.1)

/-- Something that was done to the helper failed by the given fault, other than handing a line over. -/
def FailedBy (d : Dialogue (List Deed × τ)) (f : Fault) : Prop :=
  .start (some f) ∈ d.outside.1 ∨ .close (some f) ∈ d.outside.1

/-- The faults that askers are told have an origin, and the faults of starts and closings are told. -/
structure Traced (concluded : List Conclusion) (d : Dialogue (List Deed × τ)) : Prop where
  origin : ∀ x ∈ concluded, ∀ f, x.outcome = .error f → Origin d x f
  reported : ∀ f, FailedBy d f → ∃ x ∈ concluded, x.outcome = .error f

/-- An origin stays one while the log grows, questions are settled, and numbers are given to others. -/
theorem Origin.mono {d d' : Dialogue (List Deed × τ)} {x : Conclusion} {f : Fault} (h : Origin d x f)
    {deeds : List Deed} (hlog : d'.outside.1 = d.outside.1 ++ deeds) (hsettled : d.settled ⊆ d'.settled)
    {new : List Numbered} (hissued : d'.issued = d.issued ++ new) (hnew : ∀ q ∈ new, q.ticket ≠ x.ticket) :
    Origin d' x f := by
  cases h with
  | link hcoded => exact .link hcoded
  | start hnumber hstart =>
    refine .start ?_ ?_
    · intro q hq
      rw [hissued] at hq
      rcases List.mem_append.mp hq with hq | hq
      · exact hnumber q hq
      · exact hnew q hq
    · rw [hlog]
      exact List.mem_append_left _ hstart
  | close hr hticket hask hclose =>
    refine .close (hsettled hr) hticket hask ?_
    rw [hlog]
    exact List.mem_append_left _ hclose

/-- Faults stay traced while the log grows, questions are settled, and numbers are given to others, if the
faults that are told anew are traced and the faults of new deeds are among them. -/
theorem Traced.extend {concluded more : List Conclusion} {d d' : Dialogue (List Deed × τ)}
    (h : Traced concluded d) {deeds : List Deed} (hlog : d'.outside.1 = d.outside.1 ++ deeds)
    (hsettled : d.settled ⊆ d'.settled) {new : List Numbered} (hissued : d'.issued = d.issued ++ new)
    (hnew : ∀ q ∈ new, ∀ x ∈ concluded, q.ticket ≠ x.ticket)
    (horigin : ∀ x ∈ more, ∀ f, x.outcome = .error f → Origin d' x f)
    (hreported : ∀ f, .start (some f) ∈ deeds ∨ .close (some f) ∈ deeds → ∃ x ∈ more, x.outcome = .error f) :
    Traced (concluded ++ more) d' := by
  constructor
  · intro x hx f hf
    rcases List.mem_append.mp hx with hx | hx
    · exact (h.origin x hx f hf).mono hlog hsettled hissued fun q hq => hnew q hq x hx
    · exact horigin x hx f hf
  · intro f hf
    unfold FailedBy at hf
    rw [hlog, List.mem_append, List.mem_append] at hf
    have hcases : FailedBy d f ∨ .start (some f) ∈ deeds ∨ .close (some f) ∈ deeds := by
      rcases hf with (hold | hnew) | (hold | hnew)
      · exact .inl (.inl hold)
      · exact .inr (.inl hnew)
      · exact .inl (.inr hold)
      · exact .inr (.inr hnew)
    rcases hcases with hold | hnew
    · obtain ⟨x, hx, hout⟩ := h.reported f hold
      exact ⟨x, List.mem_append_left more hx, hout⟩
    · obtain ⟨x, hx, hout⟩ := hreported f hnew
      exact ⟨x, List.mem_append_right concluded hx, hout⟩

/-! ### One event -/

section

variable {outlet : Outlet τ} {concluded : List Conclusion} {d : Dialogue (List Deed × τ)}

/-- An event that settles questions keeps every fault traced. -/
theorem Traced.step_of_settles (h : Traced concluded d) (hinv : Invariant concluded d) {e : Event τ}
    (he : e.settles = true) :
    Traced (concluded ++ (step outlet.tapped d e.tapped).1) (step outlet.tapped d e.tapped).2 := by
  obtain ⟨rs, -, hstep, -⟩ := log_of_settles outlet hinv.tidy he
  have hissued : (step outlet.tapped d e.tapped).2.issued = d.issued ++ [] := by
    rw [hstep, List.append_nil]
    exact issued_facing _ _ _
  refine h.extend (log_step outlet hinv.tidy e) (settled_subset_step hinv _ _) hissued (by simp) ?_ ?_
  · rw [hstep]
    simp
  · rintro f (hstart | hclose)
    · obtain ⟨-, ask, rfl, -⟩ := start_mem_deedsIn outlet hinv.tidy hstart
      cases he
    · obtain ⟨r, -, -, rfl⟩ := close_mem_deedsIn outlet hinv.tidy hclose
      cases he

/-- A new question keeps every fault traced. -/
theorem Traced.step_of_ask (h : Traced concluded d) (hinv : Invariant concluded d) (ask : Ask) :
    Traced (concluded ++ (step outlet.tapped d (.ask ask)).1) (step outlet.tapped d (.ask ask)).2 := by
  rcases ask_deeds outlet d ask with ⟨-, -, hstep⟩ | ⟨-, -, f, t, -, hstep⟩ | ⟨-, t, hstep⟩
  · rw [hstep]
    refine h.extend (List.append_nil _).symm (List.Subset.refl _) (List.append_nil _).symm (by simp) ?_ (by simp)
    intro x hx f hf
    obtain rfl := List.mem_singleton.mp hx
    cases hf
  · rw [hstep]
    refine h.extend rfl (List.Subset.refl _) (List.append_nil _).symm (by simp) ?_ ?_
    · intro x hx e he
      obtain rfl := List.mem_singleton.mp hx
      obtain rfl : f = e := Except.error.inj he
      refine .start ?_ (List.mem_append_right _ (List.mem_singleton_self _))
      intro q hq
      exact Nat.ne_of_lt (Nat.lt_succ_of_le (hinv.tickets q hq))
    · intro e he
      have hsame : e = f := by simpa using he
      exact ⟨_, List.mem_singleton_self _, by rw [hsame]⟩
  · rw [hstep]
    refine h.extend rfl (List.Subset.refl _) rfl ?_ (by simp) ?_
    · -- the new ticket is that of no question that was concluded
      intro q hq x hx
      obtain rfl := List.mem_singleton.mp hq
      have hmem := hinv.accounted.mem_iff.mp (List.mem_append_left _ (List.mem_append_left _
        (List.mem_append_left _ (List.mem_map_of_mem (f := Conclusion.ticket) hx))))
      rw [List.mem_range'_1] at hmem
      show d.tickets + 1 ≠ x.ticket
      omega
    · intro f hf
      have hnone : ∀ deed ∈ (if d.link.started then [] else [Deed.start none]) ++
          outlet.entries d.link.clock [.asked (d.link.seq + 1) ask.command],
          deed ≠ .start (some f) ∧ deed ≠ .close (some f) := by
        intro deed hdeed
        rcases List.mem_append.mp hdeed with hdeed | hdeed
        · split at hdeed
          · exact absurd hdeed List.not_mem_nil
          · rw [List.mem_singleton.mp hdeed]
            exact ⟨nofun, nofun⟩
        · obtain ⟨traffic, -, rfl⟩ := record_of_mem_entries outlet hdeed
          exact ⟨nofun, nofun⟩
      rcases hf with hf | hf
      · exact absurd rfl (hnone _ hf).1
      · exact absurd rfl (hnone _ hf).2

/-- Concluding a question keeps every fault traced. -/
theorem Traced.step_of_conclude (h : Traced concluded d) (hinv : Invariant concluded d)
    (hcoded : ∀ r ∈ d.settled, ∀ e, r.2 = .error e → e.IsCoded) (seq : Nat) :
    Traced (concluded ++ (step outlet.tapped d (.conclude seq)).1) (step outlet.tapped d (.conclude seq)).2 := by
  rcases conclude_deeds outlet d seq with ⟨-, hstep⟩ | ⟨r, hr, rfl, ⟨hask, hstep⟩ | ⟨hask, c, t, -, hstep⟩⟩
  · rw [hstep, List.append_nil]
    exact h
  · rw [hstep]
    refine h.extend (List.append_nil _).symm (List.Subset.refl _) (List.append_nil _).symm (by simp) ?_ (by simp)
    intro x hx f hf
    obtain rfl := List.mem_singleton.mp hx
    exact .link (isCoded_of_answer (hcoded r (hinv.unconcluded.subset hr)) hf)
  · rw [hstep]
    refine h.extend rfl (List.Subset.refl _) (List.append_nil _).symm (by simp) ?_ ?_
    · intro x hx f hf
      obtain rfl := List.mem_singleton.mp hx
      cases c with
      | error e =>
        obtain rfl : e = f := Except.error.inj hf
        exact .close (hinv.unconcluded.subset hr) rfl hask
          (List.mem_append_right _ (List.mem_singleton_self _))
      | ok u =>
        refine .link (hcoded r (hinv.unconcluded.subset hr) f ?_)
        cases hv : r.2 with
        | error e =>
          rw [hv] at hf
          obtain rfl : e = f := Except.error.inj hf
          rfl
        | ok body =>
          rw [hv] at hf
          cases hf
    · intro f hf
      have hclose : Fault.of? c = some f := by simpa [eq_comm] using hf
      exact ⟨_, List.mem_singleton_self _, by rw [hclose]; rfl⟩

end

/-! ### Runs -/

/-- After every run each fault that askers were told is traced. -/
theorem traced_of_run (outlet : Outlet τ) (timeout : Double) (t : τ) (es : List (Event τ)) :
    Traced (tappedRun outlet timeout t es).1 (tappedRun outlet timeout t es).2 := by
  induction es using List.reverseRecOn with
  | nil => exact ⟨by simp [tappedRun], by simp [FailedBy, tappedRun, fresh]⟩
  | append_singleton es e ih =>
    have hinv := invariant_of_tappedRun outlet timeout t es
    rw [tappedRun_concat]
    rcases e.settles_or with he | ⟨ask, rfl⟩ | ⟨seq, rfl⟩
    · exact ih.step_of_settles hinv he
    · exact ih.step_of_ask hinv ask
    · exact ih.step_of_conclude hinv (fun r hr e => isCoded_of_settled outlet.tapped timeout _ _ hr) seq

/-- In every run of a link, whatever its outside and its helper do, the fault that an asker is told has one
of the four codes of a link, except that a call for which the helper cannot be started gets the fault of
that, and a question that ends the session gets that of closing the helper. Every such fault of the
outside does reach an asker. So all the faults of a run are coded just in case those of its starts and
its closings are. -/
theorem faults_of_run (outlet : Outlet τ) (timeout : Double) (t : τ) (es : List (Event τ)) :
    let r := tappedRun outlet timeout t es
    (∀ x ∈ r.1, ∀ f, x.outcome = .error f → Origin r.2 x f) ∧
    (∀ f, FailedBy r.2 f → ∃ x ∈ r.1, x.outcome = .error f) ∧
    ((∀ x ∈ r.1, ∀ f, x.outcome = .error f → f.IsCoded) ↔ ∀ f, FailedBy r.2 f → f.IsCoded) := by
  intro r
  obtain ⟨horigin, hreported⟩ := traced_of_run outlet timeout t es
  refine ⟨horigin, hreported, ?_, ?_⟩
  · intro hcoded f hf
    obtain ⟨x, hx, hout⟩ := hreported f hf
    exact hcoded x hx f hout
  · intro hcoded x hx f hf
    cases horigin x hx f hf with
    | link h => exact h
    | start _ hstart => exact hcoded f (.inl hstart)
    | close _ _ _ hclose => exact hcoded f (.inr hclose)

/-- A helper that cannot be started fails the call to connect, and one that cannot be closed fails the
question that ends the session after its success reply, in either case by a fault without a code. -/
theorem uncoded_faults :
    let off : Fault := .outside "off"
    off.code? = none ∧
      (run Outlet.switch [.ask .connect] (fresh (Double.ofNat 1000) false)).1 = [⟨1, .error off⟩] ∧
      (run Outlet.switch [.ask .connect, .put 1, .ask .disconnect, .put 2, .shift fun _ => false,
        .hear (.line (successLine 2)), .conclude 2] (fresh (Double.ofNat 1000) true)).1 = [⟨2, .error off⟩] := by
  have hread : Reply.read (successLine 2) = .ok ⟨Double.ofNat 2, true, none, none⟩ := by cbv
  refine ⟨rfl, rfl, ?_⟩
  simp only [run, step, Link.receive, hread]
  rfl

end Dialogue

end SwiftLens
