import Cordum.Store.Sends

/-!
# A result is applied at most once

Whatever is redelivered, reordered or retried, `ApplyJobResult` applies one message id once, only
for the dispatch that is current and in flight; a repeat is a `duplicate` or a digest conflict, and
changes nothing but the time to live.

An `event:` field, once there, keeps its value (`events_mono`); a hash with events has a state
(`EventsHaveState`), so a migration finds nothing to copy where a result repeats; and what a call
answers is what its one script replied (`ended_event_path`).
-/

namespace Cordum

open Conc World StoreOp List Option

/-! ## The hash -/

/-- A hash with an event has a state. -/
def EventsHaveState (rt : Runtime) : Prop := ∀ id, (rt.events.lookup id).isSome → rt.state.isSome

/-- Every call but the older, unsigned `AcceptJobEvent`. -/
def NotAcceptJobEvent : StoreOp → Prop
  | .acceptJobEvent _ _ => False
  | _ => True

variable {cfg : StoreConfig} {c : RtCmd} {rt : Runtime} {l₁ l₂ : List StoreEntry}

/-- Every script but that of `AcceptJobEvent` leaves a hash with events a state. -/
theorem eventsHaveState_step (hc : ∀ cl e, c ≠ .acceptJobEvent cl e)
    (h : EventsHaveState rt) : EventsHaveState (runtimeStep cfg c rt).1 := by
  intro id hid
  obtain ⟨rt', hchg, hsta, -, -, heve, -⟩ := runtimeStep_change cfg c rt
  rw [heve] at hid
  rw [hsta]
  cases hchg with
  | migrated =>
    obtain ⟨x, hx⟩ := isSome_iff_exists.1 (h id hid)
    simp [hx]
  | recorded hcmd =>
    rcases hcmd with ⟨cl, e, rfl⟩ | hfli
    · exact absurd rfl (hc cl e)
    · rcases Runtime.inFlight_iff.1 hfli with hs | hs <;> simp [hs]
  | rolledBack | moved | committed | cancelled => rfl
  | _ => exact h id hid

/-! ## Commands of a run -/

section

variable {k : JobKeys} {acts : List (Action StoreOp)} {e : StoreEntry} {g : List UInt8}

theorem eventsHaveState_post (hac : World.SpawnsOnly NotAcceptJobEvent acts)
    (he : e ∈ storeLog cfg k acts) (h : EventsHaveState e.pre.runtime) :
    EventsHaveState (e.post (store cfg)).runtime := by
  rcases post_runtime with ⟨heq, -⟩ | ⟨c, hc, heq⟩
  · rw [heq]; exact h
  rw [heq]
  refine eventsHaveState_step (fun cl id hcl => ?_) h
  obtain ⟨op, -, hop, hs⟩ := storeRun_sends hac he
  rw [hc.2, hcl] at hs
  have hop' : op = .acceptJobEvent cl id := hs
  rw [hop'] at hop
  exact hop

theorem eventsKept_post : EventsKept e.pre.runtime (e.post (store cfg)).runtime := by
  rcases post_runtime with ⟨heq, -⟩ | ⟨c, -, heq⟩
  · rw [heq]; exact fun _ _ h => h
  · rw [heq]; exact events_mono

/-- In every run, a hash that has seen a message has a state. -/
theorem eventsHaveState_pre (hk : EventsHaveState k.runtime) (hac : World.SpawnsOnly NotAcceptJobEvent
    acts) (he : e ∈ storeLog cfg k acts) : EventsHaveState e.pre.runtime := by
  obtain ⟨l₁, l₂, hl⟩ := append_of_mem he
  have hch := run_init_chain (prog cfg.jobID) (store cfg) k acts
  have hlog : (run (prog cfg.jobID) (store cfg) (init k) acts).log = l₁ ++ e :: l₂ := hl
  rw [hlog] at hch
  refine chain_inv (P := fun s : JobKeys => EventsHaveState s.runtime) (chain_split hch).1 hk ?_
  intro d hd
  exact eventsHaveState_post hac (hl ▸ mem_append_left _ hd)

theorem eventsHaveState_storeAt (hk : EventsHaveState k.runtime)
    (hac : World.SpawnsOnly NotAcceptJobEvent acts)
    {n : ℕ} : EventsHaveState (storeAt cfg k acts n).runtime := by
  obtain ⟨es, hes, hch⟩ := wAt_chain (prog cfg.jobID) (store cfg) k acts (Nat.zero_le n)
  exact chain_inv (P := fun s : JobKeys => EventsHaveState s.runtime) hch hk
    fun e he => eventsHaveState_post hac (hes e he)

end

/-! ## The result script -/

/-- The hash has seen message `a.messageID`, with digest `g`, under the fence of `a`. -/
def Recorded (rt : Runtime) (a : JobResultApply) (g : List UInt8) : Prop :=
  rt.fenced a.claim ∧
    rt.events.lookup (Base64.encode Base64.rawURL a.messageID) = some (Base64.encode Base64.rawStd g)

/-- What a result answers that repeats a message seen with digest `g`. -/
def repeatAnswer (a : JobResultApply) (g : List UInt8) : Except StoreErr Disposition :=
  if g = a.digest then .ok .duplicate else .error .digestConflict

/-- **A repeat is recognised**: the script changes nothing and returns `duplicate` or a digest
conflict. -/
theorem applyScript_recorded {a : JobResultApply} (h : Recorded rt a g) :
    (runtimeStep cfg (.applyJobResult a.args) rt).1 = rt ∧
      dispositionOf (runtimeStep cfg (.applyJobResult a.args) rt).2 = repeatAnswer a g := by
  obtain ⟨hf, hev⟩ := h
  rcases applyJobResultScript_cases rt cfg.ttl a.args with
    ⟨hn, -⟩ | ⟨-, hd, h'⟩ | ⟨-, ⟨p, hp, hne⟩, h'⟩ | ⟨-, hn, -⟩ | ⟨-, hn, -⟩
  · exact absurd (hf.symm.trans hn) (by decide)
  · have hg : g = a.digest := Base64.encode_injective _ (some.inj (hev.symm.trans hd))
    rw [repeatAnswer, if_pos hg]
    simp [runtimeStep, h', dispositionOf]
  · have hg : g ≠ a.digest := by
      rintro rfl
      exact hne (some.inj (hp.symm.trans hev))
    rw [repeatAnswer, if_neg hg]
    simp [runtimeStep, h', dispositionOf]
  · cases hev.symm.trans hn
  · cases hev.symm.trans hn

theorem migrate_recorded {a : JobResultApply} (hst : EventsHaveState rt) (h : Recorded rt a g)
    (s : Option JobState) (ℓ : Fence) :
    rt.EqUpToTTL (runtimeStep cfg (.migrateRuntimeFence s ℓ) rt).1 := by
  obtain ⟨x, hx⟩ := isSome_iff_exists.1 (hst _ (by rw [h.2]; rfl))
  have hf := Runtime.fenced_iff.1 h.1
  simp [runtimeStep, migrateRuntimeFenceScript, Runtime.EqUpToTTL, hx, hf]

/-- An application: the script answers `applied` for message `m`. -/
def Applies (cfg : StoreConfig) (m : List UInt8) (e : StoreEntry) : Prop :=
  ∃ args, RanScript e (.applyJobResult args) ∧ args.eventId = Base64.encode Base64.rawURL m ∧
    dispositionOf (runtimeStep cfg (.applyJobResult args) e.pre.runtime).2 = .ok .applied

/-- The script answers `applied` only for the current dispatch, in flight, and a new message. -/
theorem applied_script {args : ApplyArgs}
    (h : dispositionOf (runtimeStep cfg (.applyJobResult args) rt).2 = .ok .applied) :
    rt.fenced args.claim ∧ rt.inFlight ∧ rt.events.lookup args.eventId = none ∧
      (runtimeStep cfg (.applyJobResult args) rt).1.events.lookup args.eventId = some args.digest := by
  rcases applyJobResultScript_cases rt cfg.ttl args with
    ⟨-, h'⟩ | ⟨-, -, h'⟩ | ⟨-, -, h'⟩ | ⟨-, -, -, h'⟩ | ⟨hf, hn, hi, h'⟩ <;>
    simp only [runtimeStep, h'] at h ⊢
  · exact absurd h (by decide)
  · exact absurd h (by decide)
  · exact absurd h (by decide)
  · exact absurd h (by decide)
  · exact ⟨hf, hi, hn, by simp [Runtime.commitResult]⟩

/-! ## The calls -/

/-- The same keys, save for the runtime hash's time to live. -/
def SameUpToTTL (k k' : JobKeys) : Prop :=
  { k' with runtime := k.runtime } = k ∧ k.runtime.EqUpToTTL k'.runtime

section

variable {k s : JobKeys} {acts : List (Action StoreOp)} {i : ℕ} {a : JobResultApply}

theorem complete_of_sent {r : Except StoreErr StoreAns} (h : Ended cfg k acts i (.applyJobResult a) r)
    (hs : (∃ e ∈ storeLog cfg k acts, e.tid = i) ∨ ∃ x, r = .ok x) : ¬ a.incomplete cfg.jobID := by
  intro hinc
  have hp := path_of_finished _ _ k acts h
  have hpr : (StoreOp.applyJobResult a).prog cfg.jobID =
      .fail (.invalid "job result apply requires complete fence, signed identity, state, and effect") := by
    simp [prog, applyJobResult, hinc]
  rw [hpr] at hp
  rcases hs with ⟨e, he, hi⟩ | ⟨x, rfl⟩
  · have hm := (mem_seen (store cfg)).2 ⟨e, he, hi, rfl⟩
    exact absurd (hp.1 ▸ hm) not_mem_nil
  · cases hp.2

theorem applied_entry (h : Ended cfg k acts i (.applyJobResult a) (.ok (.disposed .applied))) :
    ∃ e ∈ storeLog cfg k acts, e.tid = i ∧ RanScript e (.applyJobResult a.args) ∧
      dispositionOf (runtimeStep cfg (.applyJobResult a.args) e.pre.runtime).2 = .ok .applied := by
  obtain ⟨e, he, hi, hran, hd⟩ :=
    ended_event_ok rfl (applyJobResult_prog (complete_of_sent h (.inr ⟨_, rfl⟩))) h
  refine ⟨e, he, hi, hran, ?_⟩
  cases hx : dispositionOf (runtimeStep cfg (.applyJobResult a.args) e.pre.runtime).2 with
  | error err => rw [hx] at hd; cases hd
  | ok d => rw [hx] at hd; cases hd; rfl

/-- **After an application the message stays recorded.** -/
theorem applies_once {m : List UInt8}
    (hl : storeLog cfg k acts = l₁ ++ e :: l₂) (he : Applies cfg m e) : ∀ e' ∈ l₂, ¬ Applies cfg m e' := by
  rintro e' he' ⟨args', hran', hid', happ'⟩
  obtain ⟨args, hran, hid, happ⟩ := he
  have hrec : ((e.post (store cfg)).runtime.events.lookup args.eventId) = some args.digest := by
    rw [post_runtime_of_ran hran]; exact (applied_script happ).2.2.2
  -- events are kept from `e` to `e'`, which would need the message to be new
  obtain ⟨l3, l4, rfl⟩ := append_of_mem he'
  have hch := run_init_chain (prog cfg.jobID) (store cfg) k acts
  have hlog : (run (prog cfg.jobID) (store cfg) (init k) acts).log = l₁ ++ e :: (l3 ++ e' :: l4) := hl
  rw [hlog] at hch
  have hmid := (chain_split (chain_split hch).2).1
  have hkp : EventsKept (e.post (store cfg)).runtime e'.pre.runtime :=
    chain_rel (ρ := fun s t : JobKeys => EventsKept s.runtime t.runtime) (fun _ _ _ h => h)
      (fun _ _ _ h1 h2 _ _ h => h2 _ _ (h1 _ _ h)) hmid fun d _ => eventsKept_post
  have hnew := (applied_script happ').2.2.1
  rw [hid', ← hid] at hnew
  cases (hkp _ _ hrec).symm.trans hnew

theorem repeat_unchanged (hk : EventsHaveState k.runtime) (hac : World.SpawnsOnly NotAcceptJobEvent acts)
    (he : e ∈ storeLog cfg k acts)
    (hca : Called cfg k acts e.tid (.applyJobResult a)) (hrec : Recorded e.pre.runtime a g) :
    SameUpToTTL e.pre (e.post (store cfg)) := by
  by_cases hran : e.Ran
  · obtain ⟨op, ⟨p, hp⟩, -, hs⟩ := storeRun_sends hac he
    obtain ⟨p', hp'⟩ := hca
    cases hp.symm.trans hp'
    rw [Entry.post_of_ran hran]
    cases hc : e.cmd with
    | key c =>
      rw [hc] at hs
      have heq : (store cfg (.key c) e.pre).1 = e.pre := keyStep_of_isRead (hs trivial)
      rw [heq]; exact ⟨rfl, .rfl⟩
    | rt c =>
      rw [hc] at hs
      refine ⟨rfl, ?_⟩
      change Runtime.EqUpToTTL _ (runtimeStep cfg c _).1
      cases c with
      | migrateRuntimeFence s ℓ => exact migrate_recorded (eventsHaveState_pre hk hac he) hrec s ℓ
      | applyJobResult args =>
        obtain ⟨b, hb, rfl⟩ := hs
        cases hb
        rw [(applyScript_recorded hrec).1]; exact .rfl
      | keyExists | hgetState => exact .rfl
      | cancelAllJobAttempts => rcases hs with h | ⟨_, h⟩ <;> cases h
      | transitionRuntimeState t => obtain ⟨_, h⟩ := hs; cases h
      | acceptSignedJobEvent => obtain ⟨_, _, h, -⟩ := hs; cases h
      | ackJobEffect => obtain ⟨_, h, -⟩ := hs; cases h
      | _ => cases hs
  · rw [Entry.post_of_not_ran hran]; exact ⟨rfl, .rfl⟩

/-- A repeat on its own, the store healthy: it gets the answer of a repeat. -/
theorem repeat_alone (hst : EventsHaveState s.runtime) (hcm : ¬ a.incomplete cfg.jobID)
    (hrec : Recorded s.runtime a g) :
    ((applyJobResult cfg.jobID a).run (store cfg) [] s).ans = repeatAnswer a g ∧
      SameUpToTTL s ((applyJobResult cfg.jobID a).run (store cfg) [] s).st := by
  have hm : s.runtime.EqUpToTTL
      (runtimeStep cfg (.migrateRuntimeFence s.jobMeta.state s.jobMeta.dispatch) s.runtime).1 :=
    migrate_recorded hst hrec _ _
  have hrec' : Recorded
      (runtimeStep cfg (.migrateRuntimeFence s.jobMeta.state s.jobMeta.dispatch) s.runtime).1 a g := by
    refine ⟨?_, ?_⟩
    · rw [Runtime.fenced_iff, hm.2.1]; exact Runtime.fenced_iff.1 hrec.1
    · rw [hm.2.2.2.1]; exact hrec.2
  have hap := (@applyScript_recorded cfg _ _ _ hrec').1
  have hans := (@applyScript_recorded cfg _ _ _ hrec').2
  have hrun : (applyJobResult cfg.jobID a).run (store cfg) [] s =
      ⟨repeatAnswer a g, [], { s with runtime :=
        (runtimeStep cfg (.migrateRuntimeFence s.jobMeta.state s.jobMeta.dispatch) s.runtime).1 }⟩ := by
    unfold applyJobResult
    rw [if_neg hcm]
    simp only [disposition_eq]
    show Prog.run (store cfg) (Prog.ofResult _) _ _ = _
    rw [Prog.run_ofResult]
    exact congrArg₂ (fun x y => Out.mk x [] { s with runtime := y }) hans hap
  rw [hrun]
  exact ⟨rfl, rfl, hm⟩

end

/-- **At most one application for each message.** -/
structure AtMostOnce (cfg : StoreConfig) (k : JobKeys) (acts : List (Action StoreOp)) : Prop where
  /-- After a script applied a message, no later one does. -/
  once : ∀ m l₁ e l₂, storeLog cfg k acts = l₁ ++ e :: l₂ → Applies cfg m e → ∀ e' ∈ l₂, ¬ Applies cfg m e'
  /-- Two calls that answered `applied` for one message are one call. -/
  answeredOnce : ∀ i j a b, Ended cfg k acts i (.applyJobResult a) (.ok (.disposed .applied)) →
    Ended cfg k acts j (.applyJobResult b) (.ok (.disposed .applied)) → a.messageID = b.messageID → i = j
  /-- A call that answered `applied` met its own dispatch as the fence, in flight. -/
  current : ∀ i a, Ended cfg k acts i (.applyJobResult a) (.ok (.disposed .applied)) →
    ∃ e ∈ storeLog cfg k acts, e.tid = i ∧ RanScript e (.applyJobResult a.args) ∧
      e.pre.runtime.fenced a.claim ∧ e.pre.runtime.inFlight
  /-- A call whose message was recorded answers as a repeat, unless a reply was lost. -/
  repeats : ∀ i a g r, ∀ e ∈ storeLog cfg k acts, e.tid = i → RanScript e (.applyJobResult a.args) →
    Recorded e.pre.runtime a g → Ended cfg k acts i (.applyJobResult a) r →
    r = (repeatAnswer a g).map .disposed ∨ ∃ d, r = .error (.redis d)
  /-- No command of such a call changes anything but the time to live. -/
  unchanged : ∀ a g, ∀ e ∈ storeLog cfg k acts, Called cfg k acts e.tid (.applyJobResult a) →
    Recorded e.pre.runtime a g → SameUpToTTL e.pre (e.post (store cfg))
  /-- At any moment, a repeat that runs undisturbed gets its answer. -/
  undisturbed : ∀ n a g, ¬ a.incomplete cfg.jobID → Recorded (storeAt cfg k acts n).runtime a g →
    ((applyJobResult cfg.jobID a).run (store cfg) [] (storeAt cfg k acts n)).ans = repeatAnswer a g ∧
      SameUpToTTL (storeAt cfg k acts n)
        ((applyJobResult cfg.jobID a).run (store cfg) [] (storeAt cfg k acts n)).st

/-- **A result is applied at most once**, over any interleaving of store calls with any losses,
repeats and delays: one message id is applied once, only under the current fence and in flight; a
repeat under the same fence is a `duplicate` or, with another digest, a conflict, and changes nothing
but the time to live. -/
theorem applyJobResult_at_most_once (cfg : StoreConfig) (k : JobKeys) (acts : List (Action StoreOp))
    (hk : EventsHaveState k.runtime) (hacts : World.SpawnsOnly NotAcceptJobEvent acts) :
    AtMostOnce cfg k acts where
  once _ _ _ _ hl he := applies_once hl he
  answeredOnce i j a b hi hj hab := by
    obtain ⟨e, he, hei, hran, happ⟩ := applied_entry hi
    obtain ⟨e', he', hej, hran', happ'⟩ := applied_entry hj
    have ha : Applies cfg a.messageID e := ⟨_, hran, rfl, happ⟩
    have hb : Applies cfg a.messageID e' := ⟨_, hran', by rw [hab]; rfl, happ'⟩
    by_contra hij
    -- one of the two commands comes first in the log
    obtain ⟨l₁, l₂, hl⟩ := append_of_mem he
    have hmem : e' ∈ l₁ ++ e :: l₂ := hl ▸ he'
    rcases mem_append.1 hmem with h | h
    · obtain ⟨l₃, l₄, rfl⟩ := append_of_mem h
      rw [append_assoc] at hl
      exact applies_once hl hb e (by simp) ha
    · rcases mem_cons.1 h with rfl | h
      · exact hij (hei.symm.trans hej)
      · exact applies_once hl ha e' h hb
  current i a h := by
    obtain ⟨e, he, hei, hran, happ⟩ := applied_entry h
    obtain ⟨hf, hfl, -⟩ := applied_script happ
    exact ⟨e, he, hei, hran, hf, hfl⟩
  repeats i a g r e he hei hran hrec hend := by
    have hcm := complete_of_sent hend (.inl ⟨e, he, hei⟩)
    rcases ended_event_answer rfl (applyJobResult_prog hcm) hend he hei hran with h | h
    · rw [(applyScript_recorded hrec).2] at h; exact .inl h
    · exact .inr h
  unchanged a g e he hca hrec := repeat_unchanged hk hacts he hca hrec
  undisturbed n a g hcm hrec := repeat_alone (eventsHaveState_storeAt hk hacts) hcm hrec

/-- One result, delivered twice. -/
def redeliveredRun : List (Action StoreOp) :=
  alone 0 (.beginDispatch "worker-1" "acme" "d1") 5 ++
  alone 1 (.applyJobResult ⟨⟨"d1", 1, "worker-1", "acme"⟩, [1], [2], [3], .succeeded, "res:1"⟩) 3 ++
  alone 2 (.applyJobResult ⟨⟨"d1", 1, "worker-1", "acme"⟩, [1], [2], [3], .succeeded, "res:1"⟩) 3 ++
  alone 3 (.applyJobResult ⟨⟨"d1", 1, "worker-1", "acme"⟩, [1], [9], [3], .failed, "res:2"⟩) 3

/-- Such a run applies the result once, and the calls answer as they should. -/
theorem redelivered_at_most_once :
    AtMostOnce exampleConfig dispatchedKeys redeliveredRun ∧
    Ended exampleConfig dispatchedKeys redeliveredRun 1
      (.applyJobResult ⟨⟨"d1", 1, "worker-1", "acme"⟩, [1], [2], [3], .succeeded, "res:1"⟩)
        (.ok (.disposed .applied)) ∧
    Ended exampleConfig dispatchedKeys redeliveredRun 2
      (.applyJobResult ⟨⟨"d1", 1, "worker-1", "acme"⟩, [1], [2], [3], .succeeded, "res:1"⟩)
        (.ok (.disposed .duplicate)) ∧
    Ended exampleConfig dispatchedKeys redeliveredRun 3
      (.applyJobResult ⟨⟨"d1", 1, "worker-1", "acme"⟩, [1], [9], [3], .failed, "res:2"⟩)
        (.error .digestConflict) := by
  refine ⟨applyJobResult_at_most_once _ _ _ ?_ ?_, rfl, rfl, rfl⟩
  · intro id h; cases h
  · intro op h
    simp [redeliveredRun, alone] at h
    rcases h with rfl | rfl | rfl <;> trivial

end Cordum
