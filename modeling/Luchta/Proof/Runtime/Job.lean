import Luchta.Impl.WorkerRuntime

/-!
# What a job of a worker writes

* `OrderlyJob`: what a step of a job must not do for its request to be answered once, and last.
* `JobInv.step`: what a job has written, step by step.
-/

namespace Luchta.Proof.Runtime

open Luchta.Framework Luchta.Impl

/-! ## Conditions -/

/-- How a stream task has failed, if it has. -/
def failure : StreamTask → Option RuntimeError
  | .ended (.error error) => some error
  | _ => none

/-- The callbacks return, name the job in their response and do not use their context after it; what
fails for a child is no shutdown of a pipe, and fails while no other output of the child is read. -/
def OrderlyJob (job : RuntimeJob) : JobStep → Prop
  | .emit _ => job.phase ≠ .ended
  | .runInProcess outcome => outcome.isSome = true
  | .spawnChild error => ∀ e ∈ error, e.isPipeShutdown = false
  | .exit (.error e) => e.isPipeShutdown = false ∧ job.stdout ≠ .running ∧ job.stderr ≠ .running
  | .joinStdout => ∀ e ∈ failure job.stdout, e.isPipeShutdown = false ∧ job.stderr ≠ .running
  | .joinStderr => ∀ e ∈ failure job.stderr, e.isPipeShutdown = false
  | .doneResponse response => response.any (fun r => r.isTerminal && r.id = job.id) = true
  | _ => True

instance decidableOrderlyJob (job : RuntimeJob) : ∀ l, Decidable (OrderlyJob job l)
  | .emit _ => inferInstanceAs (Decidable (job.phase ≠ .ended))
  | .runInProcess outcome => inferInstanceAs (Decidable (outcome.isSome = true))
  | .spawnChild error => inferInstanceAs (Decidable (∀ e ∈ error, e.isPipeShutdown = false))
  | .exit (.error e) => inferInstanceAs
      (Decidable (e.isPipeShutdown = false ∧ job.stdout ≠ .running ∧ job.stderr ≠ .running))
  | .joinStdout => inferInstanceAs
      (Decidable (∀ e ∈ failure job.stdout, e.isPipeShutdown = false ∧ job.stderr ≠ .running))
  | .joinStderr => inferInstanceAs
      (Decidable (∀ e ∈ failure job.stderr, e.isPipeShutdown = false))
  | .doneResponse response => inferInstanceAs
      (Decidable (response.any (fun r => r.isTerminal && r.id = job.id) = true))
  | .exit (.ok _) | .buildJob _ | .logFailure | .line _ _ | .streamEnd _ _ | .resolveTask _
  | .writeResponse => inferInstanceAs (Decidable True)

/-! ## Lines of a job -/

variable {output : List WorkerResponse} {id : String} {job : RuntimeJob}

def Unanswered (output : List WorkerResponse) (id : String) : Prop :=
  ∀ r ∈ output, r.id = id → r.isTerminal = false

/-- The last line of the job is its only terminal one. -/
def Answered (output : List WorkerResponse) (id : String) : Prop :=
  ∃ lines terminal, output.filter (fun r => r.id = id) = lines ++ [terminal] ∧
    terminal.isTerminal = true ∧ ∀ r ∈ lines, r.isTerminal = false

theorem Answered.once (h : Answered output id) :
    (output.filter fun r => r.isTerminal && r.id = id).length = 1 := by
  obtain ⟨lines, terminal, hlines, hterminal, hrest⟩ := h
  have hnone : lines.filter (·.isTerminal) = [] :=
    List.filter_eq_nil_iff.2 fun r hr => by simp [hrest r hr]
  rw [← List.filter_filter, hlines, List.filter_append, hnone]
  simp [hterminal]

/-- What comes after a terminal line is not of its job. -/
theorem Answered.last (h : Answered output id) {before after : List WorkerResponse}
    {terminal : WorkerResponse} (houtput : output = before ++ terminal :: after)
    (hterminal : terminal.isTerminal = true) (hid : terminal.id = id) : ∀ r ∈ after, r.id ≠ id := by
  obtain ⟨lines, last, hlines, -, hrest⟩ := h
  intro r hr hrid
  have hmem : r ∈ after.filter (fun r => r.id = id) := List.mem_filter.2 ⟨hr, by simpa using hrid⟩
  have hsplit : before.filter (fun r => r.id = id) ++ terminal :: after.filter (fun r => r.id = id) =
      lines ++ [last] := by
    rw [← hlines, houtput, List.filter_append, List.filter_cons_of_pos (by simpa using hid)]
  have hdrop := congrArg List.dropLast hsplit
  rw [List.dropLast_concat, List.dropLast_append_cons, List.dropLast_cons_of_ne_nil
    (List.ne_nil_of_mem hmem)] at hdrop
  have hin : terminal ∈ lines := by
    rw [← hdrop]
    exact List.mem_append_right _ List.mem_cons_self
  rw [hrest terminal hin] at hterminal
  contradiction

theorem Unanswered.append (h : Unanswered output id) {line : Option WorkerResponse}
    (hline : ∀ r ∈ line, r.isTerminal = false) : Unanswered (output ++ line.toList) id := by
  intro r hr hid
  rcases List.mem_append.1 hr with hr | hr
  · exact h r hr hid
  · exact hline r (Option.mem_toList.1 hr)

/-- A terminal line answers. -/
theorem Unanswered.answer (h : Unanswered output id) {r : WorkerResponse} (hterminal : r.isTerminal = true)
    (hid : r.id = id) : Answered (output ++ [r]) id := by
  refine ⟨output.filter fun r => r.id = id, r, ?_, hterminal, fun r' hr' => ?_⟩
  · rw [List.filter_append, List.filter_cons_of_pos (by simpa using hid), List.filter_nil]
  · obtain ⟨hmem, hid'⟩ := List.mem_filter.1 hr'
    exact h r' hmem (of_decide_eq_true hid')

/-- The lines of other jobs do not matter. -/
theorem filter_append_other {line : Option WorkerResponse} (hline : ∀ r ∈ line, r.id ≠ id) :
    (output ++ line.toList).filter (fun r => r.id = id) = output.filter fun r => r.id = id := by
  have hnil : line.toList.filter (fun r => r.id = id) = [] :=
    List.filter_eq_nil_iff.2 fun r hr => by simpa using hline r (Option.mem_toList.1 hr)
  rw [List.filter_append, hnil, List.append_nil]

/-! ## One job -/

/-- The stream may be read in the phase. -/
def streaming : JobPhase → LogStream → Bool
  | .wait, _ | .joinStdout _, _ | .joinStderr _, .Stderr => true
  | _, _ => false

structure JobInv (output : List WorkerResponse) (job : RuntimeJob) : Prop where
  unanswered : job.phase ≠ .ended → Unanswered output job.id
  answered : job.phase = .ended → Answered output job.id
  running : ∀ stream, job.stream stream = .running → streaming job.phase stream = true
  context : ∀ context ∈ job.context, context.id = job.id
  response : ∀ r, job.phase = .writeResponse r → r.isTerminal = true ∧ r.id = job.id

theorem JobInv.congr (h : JobInv output job) {output' : List WorkerResponse}
    (hlines : output'.filter (fun r => r.id = job.id) = output.filter fun r => r.id = job.id) :
    JobInv output' job where
  unanswered hphase r hr hid := by
    have hmem : r ∈ output'.filter fun r => r.id = job.id := List.mem_filter.2 ⟨hr, by simpa using hid⟩
    rw [hlines] at hmem
    exact h.unanswered hphase r (List.mem_filter.1 hmem).1 hid
  answered hphase := by
    unfold Answered
    rw [hlines]
    exact h.answered hphase
  running := h.running
  context := h.context
  response := h.response

theorem JobInv.quiet (h : JobInv output job) {stream : LogStream}
    (hphase : streaming job.phase stream = false) : job.stream stream ≠ .running := by
  intro hrunning
  rw [h.running stream hrunning] at hphase
  contradiction

/-- A job that is not answered goes on, and writes a line that does not answer either. -/
theorem JobInv.goto (h : JobInv output job) (hbefore : job.phase ≠ .ended) {phase : JobPhase}
    (hafter : phase ≠ .ended)
    (hrunning : ∀ stream, job.stream stream = .running → streaming phase stream = true)
    (hresponse : ∀ r, phase = .writeResponse r → r.isTerminal = true ∧ r.id = job.id)
    {line : Option WorkerResponse} (hline : ∀ r ∈ line, r.isTerminal = false) :
    JobInv (output ++ line.toList) { job with phase := phase } where
  unanswered _ := (h.unanswered hbefore).append hline
  answered hended := absurd hended hafter
  running := hrunning
  context := h.context
  response := hresponse

theorem emit_not_terminal (context : JobContext) (emission : Emission) :
    ∀ r ∈ context.emit emission, r.id = context.id ∧ r.isTerminal = false := by
  intro r hr
  cases emission with
  | stdout line => exact Option.some.inj hr ▸ ⟨rfl, rfl⟩
  | stderr line => exact Option.some.inj hr ▸ ⟨rfl, rfl⟩
  | report filename mimeType content =>
    obtain rfl := Option.some.inj hr
    split <;> exact ⟨rfl, rfl⟩
  | progress completed pending =>
    obtain ⟨-, heq⟩ := Option.ite_none_right_eq_some.1 hr
    obtain rfl := Option.some.inj heq
    exact ⟨rfl, rfl⟩

/-- A failure that is no shutdown of a pipe is answered. -/
theorem failed_eq {error : RuntimeError} (h : error.isPipeShutdown = false) :
    job.failed error = { job with phase := .doneResponse 1 } := by
  rw [RuntimeJob.failed, h]
  rfl

/-- What a step of a job writes is of the job, and keeps what is said of its lines. -/
theorem JobInv.step (h : JobInv output job) {l : JobStep} (horderly : OrderlyJob job l)
    {job' : RuntimeJob} {line : Option WorkerResponse} (hstep : job.step l = some (job', line)) :
    job'.id = job.id ∧ (∀ r ∈ line, r.id = job.id) ∧ JobInv (output ++ line.toList) job' := by
  -- a step that writes nothing, from one phase to another
  have hmove : ∀ {before after : JobPhase}, job.phase = before → before ≠ .ended →
      after ≠ .ended → (∀ stream, job.stream stream = .running → streaming after stream = true) →
      (∀ r, after = .writeResponse r → r.isTerminal = true ∧ r.id = job.id) →
      JobInv (output ++ (none : Option WorkerResponse).toList) { job with phase := after } :=
    fun hbefore hopen hafter hrunning hresponse =>
      h.goto (hbefore ▸ hopen) hafter hrunning hresponse (by simp)
  have hquiet : ∀ {before after : JobPhase}, job.phase = before →
      (∀ stream, streaming before stream = false) → ∀ stream, job.stream stream = .running →
      streaming after stream = true := fun hbefore hnot stream hrunning =>
    absurd hrunning (h.quiet (hbefore ▸ hnot stream))
  cases l with
  | emit emission =>
    obtain ⟨context, hcontext, heq⟩ := Option.map_eq_some_iff.1 hstep
    obtain ⟨rfl, rfl⟩ := Prod.mk.inj heq
    have hopen : job.phase ≠ .ended := horderly
    have hemit := emit_not_terminal context emission
    refine ⟨rfl, fun r hr => (hemit r hr).1.trans (h.context context hcontext), ?_⟩
    exact h.goto hopen hopen h.running h.response fun r hr => (hemit r hr).2
  | runInProcess outcome =>
    obtain ⟨hphase, heq⟩ := Option.ite_none_right_eq_some.1 hstep
    obtain ⟨rfl, rfl⟩ := Prod.mk.inj (Option.some.inj heq)
    cases outcome with
    | none => contradiction
    | some outcome =>
      cases outcome with
      | NotHandled =>
        exact ⟨rfl, by simp, hmove hphase (by simp) (by simp) (hquiet hphase fun _ => rfl) (by simp)⟩
      | Done exitCode outputs =>
        refine ⟨rfl, by simp, hmove hphase (by simp) (by simp) (hquiet hphase fun _ => rfl) ?_⟩
        intro r hr
        exact JobPhase.writeResponse.inj hr ▸ ⟨rfl, rfl⟩
  | buildJob outcome =>
    obtain ⟨hphase, heq⟩ := Option.ite_none_right_eq_some.1 hstep
    obtain ⟨rfl, rfl⟩ := Prod.mk.inj (Option.some.inj heq)
    cases outcome with
    | none =>
      rw [RuntimeJob.built, failed_eq rfl]
      exact ⟨rfl, by simp, hmove hphase (by simp) (by simp) (hquiet hphase fun _ => rfl) (by simp)⟩
    | some outcome =>
      cases outcome with
      | ok spec =>
        exact ⟨rfl, by simp, hmove hphase (by simp) (by simp) (hquiet hphase fun _ => rfl) (by simp)⟩
      | error message =>
        exact ⟨rfl, by simp, hmove hphase (by simp) (by simp) (hquiet hphase fun _ => rfl) (by simp)⟩
  | logFailure =>
    unfold RuntimeJob.step at hstep
    dsimp only at hstep
    split at hstep
    · rename_i message hphase
      obtain ⟨rfl, rfl⟩ := Prod.mk.inj (Option.some.inj hstep)
      refine ⟨rfl, fun r hr => Option.some.inj hr ▸ rfl, ?_⟩
      exact h.goto (by simp [hphase]) (by simp) (hquiet hphase fun _ => rfl) (by simp)
        fun r hr => Option.some.inj hr ▸ rfl
    · contradiction
  | spawnChild error =>
    obtain ⟨hphase, heq⟩ := Option.ite_none_right_eq_some.1 hstep
    obtain ⟨rfl, rfl⟩ := Prod.mk.inj (Option.some.inj heq)
    cases error with
    | none =>
      refine ⟨rfl, by simp, ?_⟩
      have hopen : job.phase ≠ .ended := by simp [hphase]
      exact ⟨fun _ => (h.unanswered hopen).append (by simp), by simp, fun _ _ => rfl, h.context, by simp⟩
    | some error =>
      rw [Option.elim_some, failed_eq (horderly error rfl)]
      exact ⟨rfl, by simp, hmove hphase (by simp) (by simp) (hquiet hphase fun _ => rfl) (by simp)⟩
  | line stream text =>
    obtain ⟨hrunning, heq⟩ := Option.ite_none_right_eq_some.1 hstep
    obtain ⟨rfl, rfl⟩ := Prod.mk.inj (Option.some.inj heq)
    have hopen : job.phase ≠ .ended := by
      intro hended
      have := h.running stream hrunning
      rw [hended] at this
      contradiction
    refine ⟨rfl, fun r hr => Option.some.inj hr ▸ rfl, ?_⟩
    exact h.goto hopen hopen h.running h.response fun r hr => Option.some.inj hr ▸ rfl
  | streamEnd stream result =>
    obtain ⟨hrunning, heq⟩ := Option.ite_none_right_eq_some.1 hstep
    obtain ⟨rfl, rfl⟩ := Prod.mk.inj (Option.some.inj heq)
    have hsame : JobInv output (job.setStream (.ended result) stream) := by
      cases stream with
      | Stdout =>
        refine ⟨h.unanswered, h.answered, fun stream hs => ?_, h.context, h.response⟩
        cases stream with
        | Stdout => contradiction
        | Stderr => exact h.running .Stderr hs
      | Stderr =>
        refine ⟨h.unanswered, h.answered, fun stream hs => ?_, h.context, h.response⟩
        cases stream with
        | Stdout => exact h.running .Stdout hs
        | Stderr => contradiction
    refine ⟨by cases stream <;> rfl, by simp, ?_⟩
    rwa [Option.toList_none, List.append_nil]
  | exit status =>
    obtain ⟨hphase, heq⟩ := Option.ite_none_right_eq_some.1 hstep
    cases status with
    | ok code =>
      obtain ⟨rfl, rfl⟩ := Prod.mk.inj (Option.some.inj heq)
      exact ⟨rfl, by simp, hmove hphase (by simp) (by simp) (fun _ _ => rfl) (by simp)⟩
    | error e =>
      obtain ⟨rfl, rfl⟩ := Prod.mk.inj (Option.some.inj heq)
      rw [failed_eq horderly.1]
      refine ⟨rfl, by simp, hmove hphase (by simp) (by simp) (fun stream hs => ?_) (by simp)⟩
      cases stream with
      | Stdout => exact absurd hs horderly.2.1
      | Stderr => exact absurd hs horderly.2.2
  | joinStdout =>
    unfold RuntimeJob.step at hstep
    dsimp only at hstep
    split at hstep
    · rename_i code hphase hstdout
      obtain ⟨rfl, rfl⟩ := Prod.mk.inj (Option.some.inj hstep)
      refine ⟨rfl, by simp, hmove hphase (by simp) (by simp) (fun stream hs => ?_) (by simp)⟩
      cases stream with
      | Stdout =>
        rw [RuntimeJob.stream, hstdout] at hs
        contradiction
      | Stderr => rfl
    · rename_i code error hphase hstdout
      obtain ⟨rfl, rfl⟩ := Prod.mk.inj (Option.some.inj hstep)
      obtain ⟨hpipe, hstderr⟩ := horderly error (by rw [hstdout]; rfl)
      rw [failed_eq hpipe]
      refine ⟨rfl, by simp, hmove hphase (by simp) (by simp) (fun stream hs => ?_) (by simp)⟩
      cases stream with
      | Stdout =>
        rw [RuntimeJob.stream, hstdout] at hs
        contradiction
      | Stderr => exact absurd hs hstderr
    · contradiction
  | joinStderr =>
    unfold RuntimeJob.step at hstep
    dsimp only at hstep
    -- the other stream was joined before
    have hdone : ∀ code, job.phase = .joinStderr code → ∀ {result after}, job.stderr = .ended result →
        ∀ stream, job.stream stream = .running → streaming after stream = true := by
      intro code hphase result after hstderr stream hs
      cases stream with
      | Stdout => exact absurd hs (h.quiet (by rw [hphase]; rfl))
      | Stderr =>
        rw [RuntimeJob.stream, hstderr] at hs
        contradiction
    split at hstep
    · rename_i code hphase hstderr
      obtain ⟨rfl, rfl⟩ := Prod.mk.inj (Option.some.inj hstep)
      exact ⟨rfl, by simp, hmove hphase (by simp) (by simp) (hdone code hphase hstderr) (by simp)⟩
    · rename_i code error hphase hstderr
      obtain ⟨rfl, rfl⟩ := Prod.mk.inj (Option.some.inj hstep)
      rw [failed_eq (horderly error (by rw [hstderr]; rfl))]
      exact ⟨rfl, by simp, hmove hphase (by simp) (by simp) (hdone code hphase hstderr) (by simp)⟩
    · contradiction
  | doneResponse response =>
    unfold RuntimeJob.step at hstep
    dsimp only at hstep
    split at hstep
    · rename_i exitCode hphase
      obtain ⟨rfl, rfl⟩ := Prod.mk.inj (Option.some.inj hstep)
      cases response with
      | none => contradiction
      | some response =>
        have hresponse : response.isTerminal = true ∧ response.id = job.id := by
          simpa using Bool.and_eq_true_iff.1 horderly
        refine ⟨rfl, by simp, hmove hphase (by simp) (by simp) (hquiet hphase fun _ => rfl) ?_⟩
        intro r hr
        exact JobPhase.writeResponse.inj hr ▸ hresponse
    · contradiction
  | resolveTask result =>
    obtain ⟨hphase, heq⟩ := Option.ite_none_right_eq_some.1 hstep
    obtain ⟨rfl, rfl⟩ := Prod.mk.inj (Option.some.inj heq)
    refine ⟨rfl, by simp, hmove hphase (by simp) (by simp) (hquiet hphase fun _ => rfl) ?_⟩
    intro r hr
    exact JobPhase.writeResponse.inj hr ▸ ⟨rfl, rfl⟩
  | writeResponse =>
    unfold RuntimeJob.step at hstep
    dsimp only at hstep
    split at hstep
    · rename_i response hphase
      obtain ⟨rfl, rfl⟩ := Prod.mk.inj (Option.some.inj hstep)
      obtain ⟨hterminal, hid⟩ := h.response response hphase
      refine ⟨rfl, fun r hr => Option.some.inj hr ▸ hid, by simp, fun _ => ?_, ?_, h.context, by simp⟩
      · exact (h.unanswered (by simp [hphase])).answer hterminal hid
      · exact hquiet hphase fun _ => rfl
    · contradiction

/-- Nothing is left to do for a job that has ended. -/
theorem JobInv.settled (h : JobInv output job) (hended : job.phase = .ended) {l : JobStep}
    (horderly : OrderlyJob job l) : job.step l = none := by
  have hidle : ∀ stream, job.stream stream ≠ .running := fun stream => h.quiet (by rw [hended]; rfl)
  cases l with
  | emit emission => exact absurd hended horderly
  | line stream text => exact if_neg (hidle stream)
  | streamEnd stream result => exact if_neg (hidle stream)
  | _ => simp [RuntimeJob.step, hended]

theorem spawn_id (message : WorkerMessage) : (RuntimeJob.spawn message).id = message.id := by
  cases message <;> rfl

/-- Nothing was written for a request that has just been read. -/
theorem JobInv.spawn {message : WorkerMessage} (h : ∀ r ∈ output, r.id ≠ message.id) :
    JobInv output (.spawn message) := by
  have hlines : Unanswered output (RuntimeJob.spawn message).id := by
    rw [spawn_id]
    exact fun r hr hid => absurd hid (h r hr)
  cases message with
  | Run request =>
    refine ⟨fun _ => hlines, by simp [RuntimeJob.spawn], fun stream hs => ?_, fun context hcontext => ?_,
      by simp [RuntimeJob.spawn]⟩
    · cases stream <;> contradiction
    · exact Option.some.inj hcontext ▸ rfl
  | ResolveTask resolve =>
    refine ⟨fun _ => hlines, by simp [RuntimeJob.spawn], fun stream hs => ?_, by simp [RuntimeJob.spawn],
      by simp [RuntimeJob.spawn]⟩
    cases stream <;> contradiction

end Luchta.Proof.Runtime
