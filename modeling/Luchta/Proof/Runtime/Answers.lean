import Luchta.Proof.Runtime.Job

/-!
# What a worker answers

* `Orderly`: the runs in which every request is answered.
* `runtime_answers`: there every request that was read is answered once, and last.
* `runtime_fails`: two other runs, in which one is not.
-/

namespace Luchta.Proof.Runtime

open Luchta.Framework Luchta.Impl

/-- Exactly one terminal line for each request that was read, and only terminal lines after one. -/
structure AnswersAll (s : WorkerRuntime) : Prop where
  once : s.main = .returned → ∀ job ∈ s.jobs,
    (s.output.filter fun r => r.isTerminal && r.id = job.id).length = 1
  silent : ∀ before terminal after, s.output = before ++ terminal :: after →
    terminal.isTerminal = true → ∀ r ∈ after, r.id = terminal.id → r.isTerminal = true

/-- Every request has an id of its own, and reading them fails at most by a shutdown of the pipe. -/
def Orderly (s : WorkerRuntime) : RuntimeStep → Prop
  | .read message => ∀ job ∈ s.jobs, job.id ≠ message.id
  | .readError kind => isPipeShutdownError kind = true
  | .job index step => ∀ job ∈ s.jobs[index]?, OrderlyJob job step
  | _ => True

instance decidableOrderly (s : WorkerRuntime) : ∀ l, Decidable (Orderly s l)
  | .read message => inferInstanceAs (Decidable (∀ job ∈ s.jobs, job.id ≠ message.id))
  | .readError kind => inferInstanceAs (Decidable (isPipeShutdownError kind = true))
  | .job index step => inferInstanceAs (Decidable (∀ job ∈ s.jobs[index]?, OrderlyJob job step))
  | .endOfInput | .drained => inferInstanceAs (Decidable True)

/-! ## The invariant -/

structure RuntimeInv (s : WorkerRuntime) : Prop where
  distinct : (s.jobs.map RuntimeJob.id).Nodup
  known : ∀ r ∈ s.output, ∃ job ∈ s.jobs, job.id = r.id
  job : ∀ job ∈ s.jobs, JobInv s.output job
  returned : s.main = .returned → ∀ job ∈ s.jobs, job.phase = .ended

namespace RuntimeInv

variable {s t : WorkerRuntime}

theorem initial : RuntimeInv .initial where
  distinct := List.nodup_nil
  known r hr := absurd hr List.not_mem_nil
  job job hjob := absurd hjob List.not_mem_nil
  returned hmain := by contradiction

theorem read (h : RuntimeInv s) (hmain : s.main = .reading) {message : WorkerMessage}
    (hid : ∀ job ∈ s.jobs, job.id ≠ message.id) :
    RuntimeInv { s with jobs := s.jobs ++ [.spawn message] } where
  distinct := by
    rw [List.map_append, List.nodup_append]
    refine ⟨h.distinct, List.nodup_singleton _, fun id hmem id' hmem' => ?_⟩
    obtain ⟨job, hjob, rfl⟩ := List.mem_map.1 hmem
    rw [List.mem_singleton.1 hmem', spawn_id]
    exact hid job hjob
  known r hr := by
    obtain ⟨job, hjob, heq⟩ := h.known r hr
    exact ⟨job, List.mem_append_left _ hjob, heq⟩
  job job hjob := by
    rcases List.mem_append.1 hjob with hjob | hjob
    · exact h.job job hjob
    · rw [List.mem_singleton.1 hjob]
      refine JobInv.spawn fun r hr heq => ?_
      obtain ⟨job', hjob', heq'⟩ := h.known r hr
      exact hid job' hjob' (heq'.trans heq)
  returned hreturned := by
    rw [hmain] at hreturned
    contradiction

/-- The other jobs have ids of their own. -/
theorem other (h : RuntimeInv s) {index : Nat} {job : RuntimeJob} (hjob : s.jobs[index]? = some job)
    {job' other : RuntimeJob} (hother : other ∈ s.jobs.set index job') :
    other = job' ∨ other ∈ s.jobs ∧ other.id ≠ job.id := by
  obtain ⟨j, hj⟩ := List.mem_iff_getElem?.1 hother
  rw [List.getElem?_set] at hj
  split at hj
  · split at hj
    · exact Or.inl (Option.some.inj hj).symm
    · contradiction
  · rename_i hne
    refine Or.inr ⟨List.mem_of_getElem? hj, fun hid => hne ?_⟩
    have hlt : index < (s.jobs.map RuntimeJob.id).length := by
      rw [List.length_map]
      exact (List.getElem?_eq_some_iff.1 hjob).1
    refine (List.getElem?_inj hlt h.distinct).1 ?_
    rw [List.getElem?_map, List.getElem?_map, hjob, hj, Option.map_some, Option.map_some, hid]

theorem jobStep (h : RuntimeInv s) {index : Nat} {l : JobStep} {job job' : RuntimeJob}
    {line : Option WorkerResponse} (hjob : s.jobs[index]? = some job) (horderly : OrderlyJob job l)
    (hstep : job.step l = some (job', line)) :
    RuntimeInv { s with jobs := s.jobs.set index job', output := s.output ++ line.toList } := by
  have hmem : job ∈ s.jobs := List.mem_of_getElem? hjob
  obtain ⟨hid, hline, hinv⟩ := (h.job job hmem).step horderly hstep
  have hlt : index < s.jobs.length := (List.getElem?_eq_some_iff.1 hjob).1
  have hids : (s.jobs.set index job').map RuntimeJob.id = s.jobs.map RuntimeJob.id := by
    rw [List.map_set, hid]
    refine List.ext_getElem? fun j => ?_
    rw [List.getElem?_set, List.getElem?_map]
    split
    · rename_i heq
      rw [← heq, hjob, if_pos (by rwa [List.length_map])]
      rfl
    · rfl
  refine ⟨hids ▸ h.distinct, fun r hr => ?_, fun other hother => ?_, fun hmain => ?_⟩
  · have hknown : r.id ∈ s.jobs.map RuntimeJob.id := by
      rcases List.mem_append.1 hr with hr | hr
      · exact List.mem_map.2 (h.known r hr)
      · rw [hline r (Option.mem_toList.1 hr)]
        exact List.mem_map_of_mem hmem
    rw [← hids] at hknown
    exact List.mem_map.1 hknown
  · rcases h.other hjob hother with rfl | ⟨hold, hne⟩
    · exact hinv
    · exact (h.job other hold).congr
        (filter_append_other fun r hr => (hline r hr).trans_ne hne.symm)
  · have hended := h.returned hmain job hmem
    rw [(h.job job hmem).settled hended horderly] at hstep
    contradiction

theorem step (h : RuntimeInv s) {l : RuntimeStep} (horderly : Orderly s l)
    (hstep : s.step l = some t) : RuntimeInv t := by
  cases l with
  | read message =>
    obtain ⟨hmain, heq⟩ := Option.ite_none_right_eq_some.1 hstep
    obtain rfl := Option.some.inj heq
    exact h.read hmain horderly
  | endOfInput =>
    obtain ⟨-, heq⟩ := Option.ite_none_right_eq_some.1 hstep
    obtain rfl := Option.some.inj heq
    exact ⟨h.distinct, h.known, h.job, by simp⟩
  | readError kind =>
    obtain ⟨-, heq⟩ := Option.ite_none_right_eq_some.1 hstep
    have hpipe : isPipeShutdownError kind = true := horderly
    rw [if_pos hpipe] at heq
    obtain rfl := Option.some.inj heq
    exact ⟨h.distinct, h.known, h.job, by simp⟩
  | drained =>
    obtain ⟨⟨-, hended⟩, heq⟩ := Option.ite_none_right_eq_some.1 hstep
    obtain rfl := Option.some.inj heq
    exact ⟨h.distinct, h.known, h.job, fun _ => hended⟩
  | job index jobStep =>
    obtain ⟨job, hjob, hrest⟩ := Option.bind_eq_some_iff.1 hstep
    obtain ⟨⟨job', line⟩, hjobStep, heq⟩ := Option.bind_eq_some_iff.1 hrest
    obtain rfl := Option.some.inj heq
    exact h.jobStep hjob (horderly job hjob) hjobStep

/-- What the invariant says of the lines that were written. -/
theorem answersAll (h : RuntimeInv s) : AnswersAll s where
  once hmain job hjob := ((h.job job hjob).answered (h.returned hmain job hjob)).once
  silent before terminal after houtput hterminal r hr hid := by
    have hmem : terminal ∈ s.output := by
      rw [houtput]
      exact List.mem_append_right _ List.mem_cons_self
    obtain ⟨job, hjob, heq⟩ := h.known terminal hmem
    have hended : job.phase = .ended := by
      by_contra hopen
      rw [(h.job job hjob).unanswered hopen terminal hmem heq.symm] at hterminal
      contradiction
    have hlast := ((h.job job hjob).answered hended).last houtput hterminal heq.symm
    exact absurd (hid.trans heq.symm) (hlast r hr)

end RuntimeInv

/-- In an orderly run every request that was read is answered. -/
theorem runtime_answers {s : WorkerRuntime} (h : Reach workerRuntime Orderly s) : AnswersAll s := by
  have hinv : RuntimeInv s := by
    refine h.invariant (fun s hs => hs ▸ RuntimeInv.initial) fun s l t _ hs horderly hstep => ?_
    exact hs.step horderly hstep
  exact hinv.answersAll

/-! ## Sample runs -/

def request : WorkerMessage := .Run ⟨"1", "build", false⟩

def resolve : WorkerMessage := .ResolveTask ⟨"2", "test", "test", "a", none, [], [], .Run⟩

/-- A child that writes a line and a delegate that panics. -/
def orderlyRun : List RuntimeStep :=
  [.read request, .job 0 (.emit (.stdout "start")), .job 0 (.runInProcess (some .NotHandled)),
    .read resolve, .job 0 (.buildJob (some (.ok ()))), .job 0 (.spawnChild none), .endOfInput,
    .job 1 (.resolveTask (.error "index out of bounds")), .job 0 (.line .Stdout "built"),
    .job 0 (.streamEnd .Stdout (.ok ())), .job 1 .writeResponse, .job 0 (.exit (.ok (some 0))),
    .job 0 (.streamEnd .Stderr (.error (.Io .Other))), .job 0 .joinStdout, .job 0 .joinStderr,
    .job 0 (.doneResponse (some (.Done "1" 1 none))), .job 0 .writeResponse, .drained]

theorem runtime_answers_run : ∃ s, workerRuntime.run Orderly .initial orderlyRun = some s ∧
    s.main = .returned ∧ s.jobs.length = 2 ∧ AnswersAll s := by
  have hrun : ∃ s, workerRuntime.run Orderly .initial orderlyRun = some s ∧
      s.main = .returned ∧ s.jobs.length = 2 := ⟨_, rfl, rfl, rfl⟩
  obtain ⟨s, hs, hmain, hjobs⟩ := hrun
  exact ⟨s, hs, hmain, hjobs, runtime_answers (Reach.run (.init rfl) hs)⟩

/-- `run_in_process` panics. -/
def panickedRun : List RuntimeStep :=
  [.read request, .job 0 (.runInProcess none), .endOfInput, .drained]

/-- What the child writes to its output is not UTF-8, and it goes on to write to the other one. -/
def lateLineRun : List RuntimeStep :=
  [.read request, .job 0 (.runInProcess (some .NotHandled)), .job 0 (.buildJob (some (.ok ()))),
    .job 0 (.spawnChild none), .endOfInput, .job 0 (.streamEnd .Stdout (.error (.Io .Other))),
    .job 0 (.exit (.ok (some 0))), .job 0 .joinStdout,
    .job 0 (.doneResponse (some (.Done "1" 1 none))), .job 0 .writeResponse,
    .job 0 (.line .Stderr "late")]

/-- A request that is not answered, and a line that comes after an answer. -/
theorem runtime_fails : ∃ s t, Reachable workerRuntime s ∧ Reachable workerRuntime t ∧
    ¬AnswersAll s ∧ ¬AnswersAll t := by
  have hpanicked : ∃ s, workerRuntime.run (fun _ _ => True) .initial panickedRun = some s ∧
      s.main = .returned ∧ s.jobs.length = 1 ∧ s.output = [] := ⟨_, rfl, rfl, rfl, rfl⟩
  have hlate : ∃ t, workerRuntime.run (fun _ _ => True) .initial lateLineRun = some t ∧
      t.output = [.Done "1" 1 none, .Log "1" .Stderr "late"] := ⟨_, rfl, rfl⟩
  obtain ⟨s, hs, hmain, hjobs, hnothing⟩ := hpanicked
  obtain ⟨t, ht, houtput⟩ := hlate
  refine ⟨s, t, Reach.run (.init rfl) hs, Reach.run (.init rfl) ht, fun h => ?_, fun h => ?_⟩
  · have hone := h.once hmain (s.jobs[0]) (List.getElem_mem _)
    rw [hnothing] at hone
    contradiction
  · have hterminal := h.silent [] _ _ houtput rfl _ List.mem_cons_self rfl
    contradiction

end Luchta.Proof.Runtime
