import Cordum.Scheduler.Frame
import Cordum.Scheduler.Result

/-!
# Is a result lost when the store fails for a moment?

The fence marks a result as seen (`<dispatch>:result`) before anything of it is stored. A handling
that fails after that asks for redelivery, but the redelivered result finds its own mark and is
dropped. So the result survives only when the failed handling had already stored a final state.

* `result_recovers_iff`: exactly when it does.
* `result_recovers_fails`: a result pointer that could not be written.
-/

namespace Cordum

open Conc GoString Prog JobKeys Option

variable {cfg : StoreConfig} {a : ResultAttempt} {res : JobResult} {d : DispatchIdentity}
  {fs fs' : List Fault} {s s' : Sys} {jobID e during v : String} {c : Claim} {k : JobKeys}

/-! ## The mark -/

/-- The result's event is recorded. -/
def JobKeys.Marked (k : JobKeys) (d : DispatchIdentity) : Prop :=
  ∃ v, k.runtime.events.lookup (resultEventID d) = some v

theorem engine_events (c : EngineCmd) (s : Sys) :
    EventsKept s.keys.runtime (engine cfg c s).1.keys.runtime := by
  rcases c with (c | c) | c
  · exact events_mono
  · intro id v h; rw [engine_inl, store_key_runtime]; exact h
  · intro id v h; cases c <;> exact h

theorem run_marked {α : Type} {p : EngineM α} (hm : s.keys.Marked d) :
    (p.run (engine cfg) fs s).st.keys.Marked d := by
  have hkp : EventsKept s.keys.runtime (p.run (engine cfg) fs s).st.keys.runtime :=
    run_rel (ρ := fun s t : Sys => EventsKept s.keys.runtime t.keys.runtime) (fun _ _ _ h => h)
      (fun _ _ _ h1 h2 id v h => h2 id v (h1 id v h)) engine_events p fs s
  obtain ⟨v, hv⟩ := hm
  exact ⟨v, hkp _ _ hv⟩

theorem acceptJobEvent_marks :
    (acceptJobEvent jobID c e).wp (store cfg)
      (fun r k' => r = .ok true → ∃ v, k'.runtime.events.lookup e = some v) k := by
  unfold acceptJobEvent
  split
  · exact nofun
  rw [bind_eq, wp_bind]
  refine wp_mono ?_ (wp_true _ _)
  rintro (err | ⟨⟩) k' -
  · exact nofun
  · rw [rt, bind_eq, wp_bind, wp_exec]
    refine ⟨nofun, nofun, fun h => ?_⟩
    rcases acceptJobEventScript_cases k'.runtime cfg.ttl c e with ⟨-, h'⟩ | ⟨-, -, h'⟩ | ⟨-, -, h'⟩
    · simp [runtimeStep, h'] at h
    · simp [runtimeStep, h'] at h
    · exact ⟨e, by simp [runtimeStep, h']⟩

theorem migrate_reads : (migrateRuntimeFence during).wp (store cfg)
      (fun _ k' => k'.readState = k.readState ∧ k'.runtime.events = k.runtime.events) k := by
  have hmig : ∀ f, (store cfg (.rt (.migrateRuntimeFence k.jobMeta.state f)) k).1.readState =
      k.readState := by
    intro f
    simp only [store_rt, readState, storedState, runtimeStep,
      migrateRuntimeFenceScript, Runtime.expire_state]
    cases k.runtime.state <;> cases k.jobMeta.state <;> rfl
  have hev : ∀ f, (store cfg (.rt (.migrateRuntimeFence k.jobMeta.state f)) k).1.runtime.events =
      k.runtime.events := by
    simp [runtimeStep, migrateRuntimeFenceScript]
  unfold migrateRuntimeFence
  rw [key, bind_eq, wp_bind, wp_exec]
  refine ⟨⟨rfl, rfl⟩, ⟨rfl, rfl⟩, ?_⟩
  exact wp_exec.2 ⟨⟨rfl, rfl⟩, ⟨hmig _, hev _⟩, ⟨hmig _, hev _⟩⟩

theorem acceptJobEvent_marked (hm : k.runtime.events.lookup e = some v) :
    (acceptJobEvent jobID c e).wp (store cfg)
      (fun r k' => r ≠ .ok true ∧ k'.readState = k.readState) k := by
  unfold acceptJobEvent
  split
  · exact ⟨by simp, rfl⟩
  rw [bind_eq, wp_bind]
  refine wp_mono ?_ migrate_reads
  rintro (err | ⟨⟩) k' ⟨hst, hev⟩
  · exact ⟨by simp, hst⟩
  · rw [← hev] at hm
    have hke : (store cfg (.rt (.acceptJobEvent c e)) k').1.readState = k'.readState ∧
        (acceptJobEventScript c e cfg.ttl k'.runtime).2 ≠ 1 := by
      simp only [store_rt, readState, storedState, runtimeStep]
      rcases acceptJobEventScript_cases k'.runtime cfg.ttl c e with ⟨-, h'⟩ | ⟨-, -, h'⟩ | ⟨-, hn, -⟩
      · rw [h']; exact ⟨rfl, by simp⟩
      · rw [h']; exact ⟨by simp, by simp⟩
      · rw [hn] at hm; cases hm
    rw [rt, bind_eq, wp_bind, wp_exec]
    refine ⟨⟨by simp, hst⟩, ⟨by simp, hke.1.trans hst⟩, ?_, hke.1.trans hst⟩
    intro h
    exact hke.2 (by simpa [runtimeStep] using h)

theorem accept_run (cfg : StoreConfig) (jobID : String) (c : Claim) (e : String)
    (fs : List Fault) (s : Sys) :
    ∃ r fs' s', (tryStore (acceptJobEvent jobID c e)).run (engine cfg) fs s = ⟨.ok r, fs', s'⟩ ∧
      (r = .ok true → ∃ v, s'.keys.runtime.events.lookup e = some v) ∧
      ((∃ v, s.keys.runtime.events.lookup e = some v) → r ≠ .ok true ∧
        s'.keys.readState = s.keys.readState) := by
  refine ⟨_, _, _, run_tryStore cfg fs s, wp_run acceptJobEvent_marks fs, ?_⟩
  rintro ⟨v, hv⟩
  exact wp_run (acceptJobEvent_marked hv) fs

/-! ## Stages -/

theorem fenceResult_run (cfg : StoreConfig) (hd : res.dispatch = some d) (fs : List Fault) (s : Sys) :
    ∃ b fs' s', (fenceResult res).run (engine cfg) fs s = ⟨.ok b, fs', s'⟩ ∧ (b → s'.keys.Marked d) ∧
      (s.keys.Marked d → b = false ∧ s'.keys.readState = s.keys.readState) := by
  have hrd : ((store cfg).deliver (fs.headD .none) (.key .hgetAllMeta) s.keys).1 = s.keys := by
    cases fs.headD .none <;> rfl
  unfold fenceResult
  rw [hd]
  rw [run_tryKey, hrd]
  split
  · rename_i tenant _
    obtain ⟨r, fs', s', hrun, hmar, hmk⟩ := accept_run cfg (trimSpace res.jobId)
      ⟨d.dispatchId, d.attempt, d.assignedWorkerId, tenant⟩ (resultEventID d) fs.tail s
    rw [run_bind_of_ok hrun]
    cases r with
    | ok b => exact ⟨b, fs', s', rfl, fun hb => hmar (by rw [hb]),
        fun hm => ⟨by simpa using (hmk hm).1, (hmk hm).2⟩⟩
    | error e => exact ⟨false, fs', s', rfl, nofun, fun hm => ⟨rfl, (hmk hm).2⟩⟩
  · exact ⟨false, fs.tail, s, rfl, nofun, fun _ => ⟨rfl, rfl⟩⟩

theorem getState_run (cfg : StoreConfig) (fs : List Fault) (s : Sys) :
    (tryStore getState).run (engine cfg) fs s =
      ⟨.ok (getState.run (store cfg) fs s.keys).ans, (getState.run (store cfg) fs s.keys).rest, s⟩ := by
  have hst := (tryStore_reads cfg s getState_reads fs).1
  rw [run_tryStore] at hst ⊢
  exact congrArg (Out.mk _ _) hst

/-- What the check accepts is marked, and what is marked it does not accept. -/
theorem checkResult_run (hd : res.dispatch = some d) :
    ∃ r fs' s', (checkResult res).run (engine cfg) fs s = ⟨.ok r, fs', s'⟩ ∧
      (r = .accepted → s'.keys.Marked d) ∧
      (s.keys.Marked d → r ≠ .accepted ∧ s'.keys.readState = s.keys.readState) := by
  unfold checkResult
  rw [run_bind_of_ok (getState_run cfg fs s)]
  split
  · exact ⟨.ended, _, s, rfl, nofun, fun _ => ⟨nofun, rfl⟩⟩
  obtain ⟨b, fs', s', hrun, hmar, hmk⟩ :=
    fenceResult_run cfg hd (getState.run (store cfg) fs s.keys).rest s
  rw [run_bind_of_ok hrun]
  cases b with
  | true => exact ⟨.accepted, fs', s', rfl, fun _ => hmar rfl, fun hm => absurd (hmk hm).1 nofun⟩
  | false => exact ⟨.dropped, fs', s', rfl, nofun, fun hm => ⟨nofun, (hmk hm).2⟩⟩

theorem checkResult_marked (hd : res.dispatch = some d) (hm : s.keys.Marked d) :
    ((checkResult res).run (engine cfg) [] s).ans =
      .ok (if s.keys.readState.map terminalStates = some true then .ended else .dropped) := by
  have hov : ((getState.run (store cfg) [] s.keys).ans.map terminalStates).toOption =
      s.keys.readState.map terminalStates := by
    rw [getState_ans]
    cases s.keys.readState <;> rfl
  unfold checkResult
  rw [run_bind_of_ok (getState_run cfg [] s), hov]
  split
  · rfl
  obtain ⟨b, fs', s', hrun, -, hmk⟩ := fenceResult_run cfg hd (getState.run (store cfg) [] s.keys).rest s
  obtain ⟨rfl, -⟩ := hmk hm
  rw [run_bind_of_ok hrun]
  rfl

theorem getTopic_run : ∃ topic, getTopic.run (engine cfg) fs s = ⟨.ok topic, fs.tail, s⟩ := by
  unfold getTopic
  rw [run_tryKey]
  cases fs.headD .none <;> exact ⟨_, rfl⟩

theorem requestForResult_run :
    ∃ req fs', (requestForResult a res).run (engine cfg) fs s = ⟨.ok req, fs', s⟩ := by
  unfold requestForResult
  split
  · rw [run_tryKey]
    cases fs.headD .none <;> exact ⟨_, _, rfl⟩
  · exact ⟨_, _, rfl⟩

/-- A handling comes to its outcome without an error; the result is then marked, and one marked before
comes to none. -/
theorem decideResult_run (hd : res.dispatch = some d) :
    ∃ r fs' s', (decideResult a res).run (engine cfg) fs s = ⟨.ok r, fs', s'⟩ ∧
      (r ≠ none → s'.keys.Marked d) ∧
      (s.keys.Marked d → r = none ∧ s'.keys.readState = s.keys.readState) := by
  unfold decideResult
  split
  · exact ⟨none, fs, s, rfl, nofun, fun _ => ⟨rfl, rfl⟩⟩
  rw [if_neg (by rw [hd]; simp)]
  obtain ⟨topic, htop⟩ := getTopic_run
  obtain ⟨r, fs1, s1, hck, hmar, hmk⟩ := checkResult_run hd
  rw [run_bind_of_ok htop, run_bind_of_ok hck]
  cases r with
  | ended | dropped => exact ⟨none, fs1, s1, rfl, nofun, fun hm => ⟨rfl, (hmk hm).2⟩⟩
  | accepted =>
    obtain ⟨req, fs2, hreq⟩ := requestForResult_run
    rw [run_bind_of_ok hreq]
    exact ⟨_, fs2, s1, rfl, fun _ => hmar rfl, fun hm => absurd rfl (hmk hm).1⟩

/-- **The redelivery of a marked result changes nothing** about the state. -/
theorem handle_marked (hd : res.dispatch = some d) (hm : s.keys.Marked d) :
    ((handleJobResult a res).run (engine cfg) fs s).st.keys.readState = s.keys.readState := by
  obtain ⟨r, fs', s', hrun, -, hmk⟩ := decideResult_run hd
  obtain ⟨rfl, hst⟩ := hmk hm
  unfold handleJobResult
  rw [run_bind_of_ok hrun]
  exact hst

/-! ## Redelivery -/

/-- The handling asks for redelivery after the fence check, on its way to `o`. -/
def FailsOnTheWayTo (cfg : StoreConfig) (s : Sys) (a : ResultAttempt) (res : JobResult) (fs : List Fault)
    (o : ResultOutcome) : Prop :=
  (∃ topic fs' s', (decideResult a res).run (engine cfg) fs s = ⟨.ok (some (topic, o)), fs', s'⟩) ∧
    ∃ e, ((handleJobResult a res).run (engine cfg) fs s).ans = .error e

/-- A redelivery, on a healthy store, brings the job to `target`. -/
def Recovers (cfg : StoreConfig) (s : Sys) (res : JobResult) (target : JobState) : Prop :=
  ((checkResult res).run (engine cfg) [] s).ans ≠ .ok .dropped ∧
    ∀ a, ((handleJobResult a res).run (engine cfg) [] s).st.keys.readState = some target

/-- A handling that fails after the fence check leaves the result marked. -/
theorem marked_of_fails {o : ResultOutcome} (hd : res.dispatch = some d)
    (hf : FailsOnTheWayTo cfg s a res fs o) :
    ((handleJobResult a res).run (engine cfg) fs s).st.keys.Marked d := by
  obtain ⟨⟨topic, fs', s', hdec⟩, -⟩ := hf
  obtain ⟨r, fs1, s1, hrun, hmar, -⟩ := decideResult_run hd
  rw [hdec] at hrun
  cases hrun
  unfold handleJobResult
  rw [run_bind_of_ok hdec]
  exact run_marked (hmar nofun)

/-- **When a result survives a failed handling.** If a handling of a result that echoes its dispatch
asks for redelivery after the fence check, the redelivered result brings the job to its state if and
only if that state was stored already and is final. -/
theorem result_recovers_iff {o : ResultOutcome} (hd : res.dispatch = some d)
    (hf : FailsOnTheWayTo cfg s a res fs o) :
    Recovers cfg ((handleJobResult a res).run (engine cfg) fs s).st res o.state ↔
      ((handleJobResult a res).run (engine cfg) fs s).st.keys.readState = some o.state ∧
        terminalStates o.state = true := by
  have hm := marked_of_fails hd hf
  unfold Recovers
  rw [checkResult_marked hd hm]
  simp only [handle_marked hd hm]
  constructor
  · rintro ⟨hov, hst⟩
    replace hst := hst a
    refine ⟨hst, ?_⟩
    by_contra hne
    rw [hst, map_some, if_neg (fun h => hne (some.inj h))] at hov
    exact hov rfl
  · rintro ⟨hst, htm⟩
    rw [hst, map_some, htm]
    exact ⟨nofun, fun _ => rfl⟩

/-- A job in the worker's hands. -/
def workingSys : Sys where
  keys :=
    { runtime := { state := some .dispatched, fence := ⟨some "d1", some 1, some "worker-1", some "acme"⟩ }
      jobMeta := { state := some .dispatched, tenant := some "acme" } }

/-- A result of its dispatch. -/
def workerResult (status : JobStatus) (ptr : String) : JobResult where
  jobId := "job-1"
  status := status
  resultPtr := ptr
  dispatch := some ⟨"d1", 1, "worker-1"⟩

/-- The failure is stored and its dead letter is not: the redelivery finds the job over. -/
theorem failedResult_recovers :
    FailsOnTheWayTo exampleConfig workingSys {} (workerResult .failed "")
      (List.replicate 10 .none ++ [.lost, .lost]) ⟨.failed, false, "", ""⟩ ∧
    Recovers exampleConfig ((handleJobResult {} (workerResult .failed "")).run (engine exampleConfig)
      (List.replicate 10 .none ++ [.lost, .lost]) workingSys).st (workerResult .failed "") .failed := by
  have hf : FailsOnTheWayTo exampleConfig workingSys {} (workerResult .failed "")
      (List.replicate 10 .none ++ [.lost, .lost]) ⟨.failed, false, "", ""⟩ :=
    ⟨⟨"unknown", _, _, Out.eq_of_ans (by decide +kernel)⟩, .publish, by decide +kernel⟩
  exact ⟨hf, (result_recovers_iff (d := ⟨"d1", 1, "worker-1"⟩) rfl hf).2 (by decide +kernel)⟩

/-- **A success is lost when its pointer cannot be written once**: the redelivered result is dropped. -/
theorem result_recovers_fails :
    FailsOnTheWayTo exampleConfig workingSys {} (workerResult .succeeded "ptr")
      (List.replicate 6 .none ++ [.lost]) ⟨.succeeded, true, "ptr", ""⟩ ∧
    ((handleJobResult {} (workerResult .succeeded "ptr")).run (engine exampleConfig) []
      ((handleJobResult {} (workerResult .succeeded "ptr")).run (engine exampleConfig)
        (List.replicate 6 .none ++ [.lost]) workingSys).st).st.keys.readState = some .dispatched ∧
    ¬ Recovers exampleConfig
      ((handleJobResult {} (workerResult .succeeded "ptr")).run (engine exampleConfig)
      (List.replicate 6 .none ++ [.lost]) workingSys).st (workerResult .succeeded "ptr") .succeeded := by
  refine ⟨⟨⟨"unknown", _, _, Out.eq_of_ans (by decide +kernel)⟩,
    .store (.redis "job store set result ptr"), by decide +kernel⟩, by decide +kernel, fun h => ?_⟩
  exact absurd (h.2 {}) (by decide +kernel)

end Cordum
