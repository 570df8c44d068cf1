import Cordum.Store.Runs

/-!
# What each call sends

`SendsRt ℓ op c` says which scripts a call `op` can run on the runtime hash when the legacy dispatch
fields are `ℓ`: its own, with its own arguments, besides the migration of `ℓ` and the reads
(`prog_sends`, and `storeRun_sends` for every run). The legacy fields are written by no call
(`keyStep_dispatch`).
-/

namespace Cordum

open Conc Prog StoreOp World List Base64

/-- The scripts call `op` runs, where the legacy dispatch fields are `ℓ`. -/
def SendsRt (ℓ : Fence) (op : StoreOp) : RtCmd → Prop
  | .migrateRuntimeFence _ legacy => legacy = ℓ
  | .beginDispatch d w t => op = .beginDispatch w t d
  | .rollbackDispatch d n => op = .rollbackDispatch d n
  | .transitionRuntimeState t => ∃ now, op = .setState t now
  | .acceptJobEvent c e => op = .acceptJobEvent c e
  | .acceptSignedJobEvent c e d => ∃ m g, op = .acceptSignedJobEvent c m g ∧
      e = Base64.encode Base64.rawURL m ∧ d = Base64.encode Base64.rawStd g
  | .applyJobResult args => ∃ a, op = .applyJobResult a ∧ args = a.args
  | .ackJobEffect e d => ∃ g, op = .ackJobEffect e g ∧ d = Base64.encode Base64.rawStd g
  | .cancelAllJobAttempts => op = .cancelAllJobAttempts ∨ ∃ now, op = .cancelJob now
  | .hsetResultPtr p => op = .setResultPtr p
  | .keyExists | .hgetState => True

/-- The calls that write the runtime hash only. -/
def StoreOp.RuntimeOnly : StoreOp → Prop
  | .beginDispatch .. | .applyJobResult .. | .acceptSignedJobEvent .. | .acceptJobEvent ..
  | .rollbackDispatch .. | .cancelAllJobAttempts | .ackJobEffect .. => True
  | _ => False

/-- The reads among the commands on the other keys. -/
def KeyCmd.IsRead : KeyCmd → Prop
  | .hgetAllMeta | .hgetMetaState | .getStateKey | .getJobRequest => True
  | _ => False

/-- The scripts of `SendsRt`, and on the other keys any command, or only reads. -/
def Sends (ℓ : Fence) (op : StoreOp) : StoreCmd → Prop
  | .key c => op.RuntimeOnly → c.IsRead
  | .rt c => SendsRt ℓ op c

/-- Reads of the meta hash find the legacy dispatch fields `ℓ`. -/
def LegacyRead (ℓ : Fence) : (c : StoreCmd) → c.Reply → Prop
  | .key .hgetAllMeta, m => m.dispatch = ℓ
  | _, _ => True

variable {s t : JobState} {now code : ℤ} {e : StoreEntry} {h : List (Obs StoreCmd StoreCmd.Reply)}
  {m d : List UInt8}

section

variable {ℓ : Fence} {rely : (c : StoreCmd) → c.Reply → Prop}
  {guar : StoreCmd → Prop} {jobID during : String}

theorem guar_rt {c : RtCmd} (hc : guar (.rt c)) : (rt c during).Guar rely guar fun _ => True :=
  guar_mono (guar_exec hc) fun _ _ => trivial

theorem guar_key {c : KeyCmd} (hc : guar (.key c)) : (key c during).Guar rely guar fun _ => True :=
  guar_mono (guar_exec hc) fun _ _ => trivial

theorem guar_ofTx {α : Type} {r : Except StoreErr α} : (ofTx r).Guar rely guar fun _ => True := by
  cases r <;> exact trivial

theorem guar_answer {α : Type} {p : StoreM α} {f : α → StoreAns} (h : p.Guar rely guar fun _ => True) :
    (p >>= fun a => .ret (f a)).Guar rely guar fun _ => True :=
  guar_bind h fun _ _ => trivial

theorem migrate_guar (hrd : ∀ c, c.IsRead → guar (.key c))
    (hm : ∀ s, guar (.rt (.migrateRuntimeFence s ℓ))) :
    (migrateRuntimeFence during).Guar (LegacyRead ℓ) guar fun _ => True := by
  refine guar_bind (guar_exec (hrd .hgetAllMeta trivial)) fun legacy hl => ?_
  have hd : legacy.dispatch = ℓ := hl
  rw [hd]
  exact guar_rt (hm _)

theorem getState_guar (hrd : ∀ c, c.IsRead → guar (.key c)) (hg : guar (.rt .hgetState)) :
    getState.Guar rely guar fun _ => True := by
  refine guar_seq (guar_rt hg) fun r => ?_
  cases r with
  | some s => exact trivial
  | none =>
    refine guar_seq (guar_cmd (hrd _ trivial) trivial fun _ _ => trivial) fun r => ?_
    split
    · exact trivial
    · refine guar_seq (guar_key (hrd .getStateKey trivial)) fun r => ?_
      cases r <;> exact trivial

theorem setStateWithContext_guar (hkey : guar (.key (.setState s now))) :
    (setStateWithContext jobID s now).Guar rely guar fun _ => True := by
  unfold setStateWithContext
  split
  · exact trivial
  · exact guar_seq (guar_key hkey) fun r => guar_ofTx

theorem transition_guar (ht : guar (.rt (.transitionRuntimeState t))) (hg : guar (.rt .hgetState)) :
    (transitionRuntimeState t).Guar rely guar fun _ => True := by
  refine guar_seq (guar_rt ht) fun r => ?_
  split
  · exact trivial
  · exact guar_seq (guar_cmd hg trivial fun _ _ => trivial) fun _ => trivial

theorem setState_guar (he : guar (.rt .keyExists))
    (ht : guar (.rt (.transitionRuntimeState s))) (hg : guar (.rt .hgetState))
    (hrd : guar (.key .hgetMetaState))
    (hkey : guar (.key (.setState s now))) : (setState jobID s now).Guar rely guar fun _ => True := by
  unfold setState
  split
  · exact trivial
  refine guar_seq (guar_rt he) fun present => ?_
  split
  · exact setStateWithContext_guar hkey
  refine guar_bind (transition_guar ht hg) fun _ _ => guar_seq (guar_key hrd) fun legacy => ?_
  split
  · exact trivial
  · exact setStateWithContext_guar hkey

theorem projectRemoveIndexes_guar (hkey : ∀ c, guar (.key c)) {l : List JobState} :
    (projectRemoveIndexes s l).Guar rely guar fun _ => True := by
  induction l with
  | nil => exact trivial
  | cons x xs ih => exact guar_seq (guar_when (guar_key (hkey _))) fun _ => ih

theorem projectTerminal_guar (hkey : ∀ c, guar (.key c)) :
    (projectLegacyTerminalState s).Guar rely guar fun _ => True :=
  guar_seq (guar_key (hkey .hgetAllMeta)) fun _ => guar_seq (guar_when (guar_key (hkey _))) fun _ =>
    guar_when (guar_seq (guar_key (hkey _)) fun _ => guar_key (hkey _))

theorem projectJobResult_guar (hkey : ∀ c, guar (.key c)) {p w : String} :
    (projectJobResult jobID s p w now).Guar rely guar fun _ => True := by
  unfold projectJobResult
  split
  · exact trivial
  exact guar_seq (guar_key (hkey _)) fun _ => guar_seq (guar_key (hkey _)) fun _ =>
    guar_seq (guar_when (guar_key (hkey _))) fun _ =>
    guar_seq (projectRemoveIndexes_guar hkey) fun _ =>
    guar_seq (guar_key (hkey _)) fun _ => projectTerminal_guar hkey

theorem cancelAll_guar (hrd : ∀ c, c.IsRead → guar (.key c))
    (hm : ∀ s, guar (.rt (.migrateRuntimeFence s ℓ))) (hc : guar (.rt .cancelAllJobAttempts)) :
    (cancelAllJobAttempts jobID).Guar (LegacyRead ℓ) guar fun _ => True := by
  unfold cancelAllJobAttempts
  split
  · exact trivial
  · exact guar_seq (migrate_guar hrd hm) fun _ => guar_rt hc

theorem disposition_guar : (disposition code).Guar rely guar fun _ => True := by
  unfold disposition
  split <;> exact trivial

end

/-- **Each call sends only its own scripts.** -/
theorem prog_sends (jobID : String) (ℓ : Fence) (op : StoreOp) :
    (op.prog jobID).Guar (LegacyRead ℓ) (Sends ℓ op) fun _ => True := by
  have hrd : ∀ c : KeyCmd, c.IsRead → Sends ℓ op (.key c) := fun _ hc _ => hc
  have hwri : ¬ op.RuntimeOnly → ∀ c : KeyCmd, Sends ℓ op (.key c) := fun h _ h' => absurd h' h
  have hm : ∀ s, Sends ℓ op (.rt (.migrateRuntimeFence s ℓ)) := fun _ => rfl
  have hg : Sends ℓ op (.rt .hgetState) := trivial
  have he : Sends ℓ op (.rt .keyExists) := trivial
  cases op with
  | beginDispatch w t d =>
    refine guar_answer ?_
    unfold beginDispatch
    split
    · exact trivial
    · exact guar_seq (getState_guar hrd hg) fun _ => guar_seq (migrate_guar hrd hm) fun _ =>
        guar_seq (guar_rt rfl) fun _ => trivial
  | setState s now =>
    have hkey := hwri id
    exact guar_answer (setState_guar he ⟨now, rfl⟩ hg (hkey _) (hkey _))
  | setStateWithContext s now =>
    have hkey := hwri id
    exact guar_answer (setStateWithContext_guar (hkey _))
  | applyJobResult a =>
    refine guar_answer ?_
    unfold applyJobResult
    split
    · exact trivial
    · exact guar_seq (migrate_guar hrd hm) fun _ =>
        guar_seq (guar_rt ⟨a, rfl, rfl⟩) fun r => disposition_guar
  | acceptSignedJobEvent c m d =>
    refine guar_answer ?_
    unfold acceptSignedJobEvent
    split
    · exact trivial
    · exact guar_seq (migrate_guar hrd hm) fun _ =>
        guar_seq (guar_rt ⟨m, d, rfl, rfl, rfl⟩) fun r => disposition_guar
  | acceptJobEvent c e =>
    refine guar_answer ?_
    unfold acceptJobEvent
    split
    · exact trivial
    · exact guar_seq (migrate_guar hrd hm) fun _ => guar_seq (guar_rt rfl) fun r => trivial
  | rollbackDispatch d n =>
    refine guar_answer ?_
    unfold rollbackDispatch
    split
    · exact trivial
    · exact guar_seq (guar_rt rfl) fun r => trivial
  | cancelAllJobAttempts => exact guar_answer (cancelAll_guar hrd hm (.inl rfl))
  | ackJobEffect e d =>
    refine guar_answer ?_
    unfold ackJobEffect
    split
    · exact trivial
    · exact guar_seq (guar_rt ⟨d, rfl, rfl⟩) fun r => trivial
  | projectJobResult s p w now =>
    have hkey := hwri id
    exact guar_answer (projectJobResult_guar hkey)
  | cancelJob now =>
    have hkey := hwri id
    refine guar_answer ?_
    unfold cancelJob
    split
    · exact trivial
    refine guar_seq (guar_rt he) fun present => ?_
    split
    · exact guar_bind (cancelAll_guar hrd hm (.inr ⟨now, rfl⟩)) fun s _ =>
        guar_bind (projectJobResult_guar hkey) fun _ _ => trivial
    · exact guar_bind (guar_key (hkey (.cancelJob now))) fun r _ => guar_ofTx
  | setResultPtr p =>
    have hkey := hwri id
    exact guar_answer (guar_seq (guar_key (hkey _)) fun _ => guar_seq (guar_rt he) fun _ =>
      guar_when (guar_rt rfl))
  | resolveApproval p now =>
    have hkey := hwri id
    refine guar_answer ?_
    unfold resolveApproval
    split
    · exact trivial
    · exact guar_seq (guar_key (hkey _)) fun r => guar_ofTx
  | applyApprovalRepair p now =>
    have hkey := hwri id
    refine guar_answer ?_
    unfold applyApprovalRepair
    split_ifs
    · exact trivial
    · exact trivial
    · exact guar_seq (guar_key (hkey _)) fun r => guar_ofTx

variable {cfg : StoreConfig} {k : JobKeys}

theorem keyStep_dispatch {c : KeyCmd} : (keyStep cfg c k).1.jobMeta.dispatch = k.jobMeta.dispatch := by
  cases c with
  | setState target now =>
    rcases setStateTx_cases target now k with ⟨-, h⟩ | ⟨-, n, h⟩ <;> simp [keyStep, h]
  | cancelJob now =>
    simp only [keyStep, cancelJobTx]
    split
    · rfl
    · split <;> simp
  | resolveApproval p now =>
    rcases resolveApprovalTx_cases cfg.hasher p now k with ⟨e, h⟩ | ⟨_, _, _, _, _, -, -, -, -, h⟩
      <;> simp [keyStep, h]
  | applyApprovalRepair p now =>
    rcases applyApprovalRepairTx_cases cfg.jobID p now k with
      ⟨_, h⟩ | ⟨-, _, -, h⟩ | ⟨_, _, _, -, -, -, -, -, h⟩ <;>
      simp [keyStep, h]
  | _ => rfl

theorem keyStep_of_isRead {c : KeyCmd} (h : c.IsRead) : (keyStep cfg c k).1 = k := by
  cases c <;> first | rfl | exact h.elim

theorem store_legacyRead {ℓ : Fence} {c : StoreCmd} (hk : k.jobMeta.dispatch = ℓ) :
    (store cfg c k).1.jobMeta.dispatch = ℓ ∧ LegacyRead ℓ c (store cfg c k).2 := by
  cases c with
  | rt c => exact ⟨hk, trivial⟩
  | key c =>
    refine ⟨keyStep_dispatch.trans hk, ?_⟩
    cases c <;> first | exact hk | exact trivial

/-- **Every command of a run is one its call sends**, over the same legacy fields. -/
theorem storeRun_sends {ok : StoreOp → Prop} {acts : List (Action StoreOp)}
    (hac : World.SpawnsOnly ok acts) (he : e ∈ storeLog cfg k acts) :
    ∃ op, Called cfg k acts e.tid op ∧ ok op ∧ Sends k.jobMeta.dispatch op e.cmd := by
  have hg := run_guarded (prog cfg.jobID) (store cfg)
    (I := fun s : JobKeys => s.jobMeta.dispatch = k.jobMeta.dispatch)
    (fun op c s _ hs _ => store_legacyRead hs) (fun op _ => prog_sends cfg.jobID _ op) rfl hac
  obtain ⟨-, op, p, hp, hs⟩ := hg.log e he
  exact ⟨op, ⟨p, hp⟩, (hg.threads _ (mem_of_getElem? hp)).1, hs⟩

/-! ## The event calls

`AcceptJobEvent`, `AcceptSignedJobEvent` and `ApplyJobResult` have one shape: migrate the
fence, run one script, read its return code. -/

/-- The migration of legacy fields. -/
def RtCmd.isMigration : RtCmd → Bool
  | .migrateRuntimeFence .. => true
  | _ => false

/-- Migrate, run `c`, and make `g` of the reply. -/
def eventCall {β : Type} (c : RtCmd) (g : c.Reply → Except StoreErr β) (during : String) : StoreM β :=
  (migrateRuntimeFence during).bind fun _ => (rt c during).bind fun x => Prog.ofResult (g x)

/-- What a return code says. -/
def dispositionOf (code : ℤ) : Except StoreErr Disposition :=
  if code < 0 then .error .digestConflict
  else .ok (if code = 1 then .applied else if code = 2 then .duplicate else .rejected)

theorem dispositionOf_eq_applied (h : dispositionOf code = .ok .applied) : code = 1 := by
  unfold dispositionOf at h
  split_ifs at h with hneg hone htwo
  · exact hone
  · cases h
  · cases h

theorem disposition_eq : disposition code = Prog.ofResult (dispositionOf code) := by
  unfold disposition dispositionOf
  split <;> rfl

theorem migrate_path {c : RtCmd} (hc : c.isMigration = false) {during : String} {r : Except StoreErr Unit}
    (hp : (migrateRuntimeFence during).Path h r) :
    (∀ o ∈ h, o.cmd ≠ .rt c) ∧ (r = .ok () ∨ ∃ d, r = .error (.redis d)) := by
  have hmig : ∀ s ℓ, RtCmd.migrateRuntimeFence s ℓ ≠ c := by rintro s ℓ rfl; cases hc
  rcases path_bind.1 hp with ⟨l1, l2, m, rfl, h1, h2⟩ | ⟨e, rfl, h1⟩
  · rcases path_exec.1 h1 with ⟨_, rfl, -⟩ | ⟨-, h⟩
    · rcases path_exec.1 h2 with ⟨_, rfl, rfl⟩ | ⟨rfl, rfl⟩
      · exact ⟨by simp [hmig], .inl rfl⟩
      · exact ⟨by simp [hmig], .inr ⟨_, rfl⟩⟩
    · cases h
  · rcases path_exec.1 h1 with ⟨_, -, h⟩ | ⟨rfl, h⟩
    · cases h
    · cases h; exact ⟨by simp, .inr ⟨_, rfl⟩⟩

theorem eventCall_path {β : Type} {c : RtCmd} (hc : c.isMigration = false)
    {g : c.Reply → Except StoreErr β} {during : String}
    {r : Except StoreErr β} (hp : (eventCall c g during).Path h r) : ∃ h₁, (∀ o ∈ h₁, o.cmd ≠ .rt c) ∧
      (((h = h₁ ∨ h = h₁ ++ [⟨.rt c, none⟩]) ∧ ∃ d, r = .error (.redis d)) ∨ ∃ x,
        h = h₁ ++ [⟨.rt c, some x⟩] ∧ r = g x) := by
  rcases path_bind.1 hp with ⟨h₁, h₂, _, rfl, hm, hs⟩ | ⟨e, rfl, hm⟩
  · refine ⟨h₁, (migrate_path hc hm).1, ?_⟩
    rcases path_bind.1 hs with ⟨l1, l2, x, rfl, h1, h2⟩ | ⟨e, rfl, h1⟩
    · rcases path_exec.1 h1 with ⟨y, rfl, h⟩ | ⟨-, h⟩
      · cases h
        obtain ⟨rfl, rfl⟩ : l2 = [] ∧ r = g x := by
          cases hg : g x <;> rw [hg] at h2 <;> exact h2
        exact .inr ⟨x, by simp, rfl⟩
      · cases h
    · rcases path_exec.1 h1 with ⟨_, -, h⟩ | ⟨rfl, h⟩
      · cases h
      · cases h; exact .inl ⟨.inr rfl, _, rfl⟩
  · obtain ⟨hno, hr | ⟨d, hr⟩⟩ := migrate_path hc hm
    · cases hr
    · cases hr; exact ⟨h, hno, .inl ⟨.inl rfl, d, rfl⟩⟩

theorem applyJobResult_prog {jobID : String} {a : JobResultApply} (h : ¬ a.incomplete jobID) :
    (StoreOp.applyJobResult a).prog jobID =
      (eventCall (.applyJobResult a.args) dispositionOf "job store apply result").bind
        fun b => .ret (.disposed b) := by
  simp only [prog, applyJobResult, if_neg h, disposition_eq]
  rfl

theorem acceptJobEvent_prog {jobID : String} {c : Claim} {e : String}
    (h : ¬ (jobID = "" ∨ c.dispatchId = "" ∨ c.workerId = "" ∨ c.tenant = "" ∨ e = "")) :
    (StoreOp.acceptJobEvent c e).prog jobID =
      (eventCall (.acceptJobEvent c e) (fun res => .ok (res == 1))
        "job store accept job event").bind fun b => .ret (.accepted b) := by
  simp only [prog, acceptJobEvent, if_neg h]
  rfl

theorem acceptSignedJobEvent_prog {jobID : String} {c : Claim}
    (h : ¬ (jobID = "" ∨ c.dispatchId = "" ∨ c.attempt ≤ 0 ∨ c.workerId = "" ∨
      c.tenant = "" ∨ m = [] ∨ d = [])) :
    (StoreOp.acceptSignedJobEvent c m d).prog jobID =
      (eventCall (.acceptSignedJobEvent c (encode rawURL m) (encode rawStd d))
        dispositionOf "job store accept signed event").bind fun b => .ret (.disposed b) := by
  simp only [prog, acceptSignedJobEvent, if_neg h, disposition_eq]
  rfl

section

variable {k : JobKeys} {acts : List (Action StoreOp)} {i : ℕ} {op : StoreOp} {β : Type} {c : RtCmd}
  {g : c.Reply → Except StoreErr β} {f : β → StoreAns} {during : String} {r : Except StoreErr StoreAns}
  (hc : c.isMigration = false) (hpr : op.prog cfg.jobID = (eventCall c g during).bind fun b => .ret (f b))

include hc hpr

theorem ended_event_path (h : Ended cfg k acts i op r) : ∃ h₁, (∀ o ∈ h₁, o.cmd ≠ .rt c) ∧
      (((seen (store cfg) i (storeLog cfg k acts) = h₁ ∨
          seen (store cfg) i (storeLog cfg k acts) = h₁ ++ [⟨.rt c, none⟩]) ∧ ∃ d, r = .error (.redis d)) ∨
        ∃ x, seen (store cfg) i (storeLog cfg k acts) = h₁ ++ [⟨.rt c, some x⟩] ∧ r = (g x).map f) := by
  have hp := path_of_finished _ _ k acts h
  rw [hpr] at hp
  rcases path_bind.1 hp with ⟨l1, l2, b, hl, h1, rfl, rfl⟩ | ⟨e, rfl, h1⟩
  · rw [append_nil] at hl
    obtain ⟨h₁, hno, ⟨-, d, hd⟩ | ⟨x, hx, hr⟩⟩ := eventCall_path hc h1
    · cases hd
    · exact ⟨h₁, hno, .inr ⟨x, hl.trans hx, by rw [← hr]; rfl⟩⟩
  · obtain ⟨h₁, hno, ⟨hh, d, hd⟩ | ⟨x, hx, hr⟩⟩ := eventCall_path hc h1
    · cases hd; exact ⟨h₁, hno, .inl ⟨hh, d, rfl⟩⟩
    · exact ⟨h₁, hno, .inr ⟨x, hx, by rw [← hr]; rfl⟩⟩

/-- **An event call that answers ran its script**, and answers what it returned. -/
theorem ended_event_ok {a : StoreAns} (h : Ended cfg k acts i op (.ok a)) :
    ∃ e ∈ storeLog cfg k acts, e.tid = i ∧ RanScript e c ∧
      (g (runtimeStep cfg c e.pre.runtime).2).map f = .ok a := by
  obtain ⟨h1, -, ⟨-, d, hd⟩ | ⟨x, hx, hr⟩⟩ := ended_event_path hc hpr h
  · cases hd
  obtain ⟨e, he, hi, hobs⟩ := (mem_seen (store cfg)).1 (hx ▸ mem_append_right _ (mem_singleton.2 rfl))
  obtain ⟨tid, pre, cmd, fault⟩ := e
  cases fault with
  | none => cases hobs; exact ⟨_, he, hi, ⟨nofun, rfl⟩, hr.symm⟩
  | lost | late => cases hobs

/-- **What an event call answers is what its script returned**, unless a reply was lost. -/
theorem ended_event_answer (h : Ended cfg k acts i op r) (he : e ∈ storeLog cfg k acts) (hi : e.tid = i)
    (hran : RanScript e c) :
    r = (g (runtimeStep cfg c e.pre.runtime).2).map f ∨ ∃ d, r = .error (.redis d) := by
  obtain ⟨h1, hno, ⟨-, hd⟩ | ⟨x, hx, hr⟩⟩ := ended_event_path hc hpr h
  · exact .inr hd
  left
  have hmem : e.obs (store cfg) ∈ seen (store cfg) i (storeLog cfg k acts) :=
    (mem_seen (store cfg)).2 ⟨e, he, hi, rfl⟩
  rw [hx] at hmem
  rcases mem_append.1 hmem with hm | hm
  · exact absurd hran.2 (hno _ hm)
  obtain ⟨tid, pre, cmd, fault⟩ := e
  rw [mem_singleton] at hm
  cases fault with
  | none => cases hm; exact hr
  | lost | late => cases hm

end

end Cordum
