import Cordum.Proof.AtMostOnce
import Cordum.Store.Effects
import Cordum.Store.Fleet

/-!
# The outbox of durable effects

A result is applied together with the effect the scheduler still has to carry out, which stays in
the job's hash beside its event until it is acknowledged. The scripts touch effects in two ways only
(`effects_cases`): an application adds that of a new event, and an acknowledgement removes one. An
event is never forgotten, so what was acknowledged cannot be applied again.

* `outbox_intact`: of every run, with what `PendingJobEffects` returns.
-/

namespace Cordum

open Conc World Finmap Base64 List StoreOp Prog

variable {a args : ApplyArgs} {rt : Runtime} {e : StoreEntry} {d p job : String} {cfg : StoreConfig}

/-! ## One script -/

/-- The script of a result found its event new and committed it. -/
def AppliedScript (cfg : StoreConfig) (e : StoreEntry) (a : ApplyArgs) : Prop :=
  RanScript e (.applyJobResult a) ∧ (runtimeStep cfg (.applyJobResult a) e.pre.runtime).2 = (1 : ℤ)

/-- The script of an acknowledgement removed an effect. -/
def AckedScript (cfg : StoreConfig) (e : StoreEntry) (id digest : String) : Prop :=
  RanScript e (.ackJobEffect id digest) ∧
    (runtimeStep cfg (.ackJobEffect id digest) e.pre.runtime).2 = (1 : ℤ)

theorem applyScript_cases :
    ((runtimeStep cfg (.applyJobResult a) rt).2 ≠
      (1 : ℤ) ∧ (runtimeStep cfg (.applyJobResult a) rt).1.effects = rt.effects) ∨
    ((runtimeStep cfg (.applyJobResult a) rt).2 = (1 : ℤ) ∧ rt.events.lookup a.eventId = none ∧
      (runtimeStep cfg (.applyJobResult a) rt).1.events = rt.events.insert a.eventId a.digest ∧
      (runtimeStep cfg (.applyJobResult a) rt).1.effects = rt.effects.insert a.eventId a.effect) := by
  rcases applyJobResultScript_cases rt cfg.ttl a with
    ⟨-, h⟩ | ⟨-, -, h⟩ | ⟨-, -, h⟩ | ⟨-, -, -, h⟩ | ⟨-, hn, -, h⟩ <;> simp only [runtimeStep, h]
  case inr.inr.inr.inr => exact .inr ⟨trivial,
    hn, by simp [Runtime.commitResult], by simp [Runtime.commitResult]⟩
  all_goals exact .inl ⟨by simp, trivial⟩

variable {id : String}

theorem ackScript_cases {digest : String} : ((runtimeStep cfg (.ackJobEffect id digest) rt).2 = (0 : ℤ) ∧
      (runtimeStep cfg (.ackJobEffect id digest) rt).1.effects = rt.effects) ∨
    ((runtimeStep cfg (.ackJobEffect id digest) rt).2 = (1 : ℤ) ∧ rt.events.lookup id = some digest ∧
      (runtimeStep cfg (.ackJobEffect id digest) rt).1.effects = rt.effects.erase id) := by
  simp only [runtimeStep, ackJobEffectScript]
  split_ifs with h1 h2
  · exact .inl ⟨rfl, rfl⟩
  · exact .inl ⟨rfl, rfl⟩
  · exact .inr ⟨rfl, not_not.1 h1, rfl⟩

/-- **What a command does to the effects**: nothing, or it applies a result or acknowledges an effect. -/
theorem effects_cases : (e.post (store cfg)).runtime.effects = e.pre.runtime.effects ∨
    (∃ a, AppliedScript cfg e a ∧
      (e.post (store cfg)).runtime.effects = e.pre.runtime.effects.insert a.eventId a.effect) ∨
    ∃ id digest, AckedScript cfg e id digest ∧ e.pre.runtime.events.lookup id = some digest ∧
      (e.post (store cfg)).runtime.effects = e.pre.runtime.effects.erase id := by
  rcases post_runtime with ⟨heq, -⟩ | ⟨c, hc, heq⟩
  · exact .inl (by rw [heq])
  rw [heq]
  obtain ⟨rt', hchg, -, -, -, -, heff⟩ := runtimeStep_change cfg c e.pre.runtime
  cases c with
  | applyJobResult a =>
    rcases applyScript_cases with ⟨-, h⟩ | ⟨hr, -, -, h⟩
    · exact .inl h
    · exact .inr (.inl ⟨a, ⟨hc, hr⟩, h⟩)
  | ackJobEffect id digest =>
    rcases ackScript_cases with ⟨-, h⟩ | ⟨hr, hev, h⟩
    · exact .inl h
    · exact .inr (.inr ⟨id, digest, ⟨hc, hr⟩, hev, h⟩)
  | _ =>
    refine .inl (heff.trans ?_)
    cases hchg <;> rfl

theorem AppliedScript.post (h : AppliedScript cfg e a) : e.pre.runtime.events.lookup a.eventId = none ∧
      (e.post (store cfg)).runtime.events.lookup a.eventId = some a.digest ∧
      (e.post (store cfg)).runtime.effects = e.pre.runtime.effects.insert a.eventId a.effect := by
  rcases applyScript_cases with ⟨h0, -⟩ | ⟨-, hnew, heve, heff⟩
  · exact absurd h.2 h0
  rw [post_runtime_of_ran h.1, heve]
  exact ⟨hnew, lookup_insert _, heff⟩

/-! ## Sequences of commands -/

section

variable {s t : JobKeys} {es : List StoreEntry} {id : String}

section

variable (h : World.Chain (store cfg) s es t)

include h

theorem chain_eventsKept : EventsKept s.runtime t.runtime :=
  chain_rel (ρ := fun s t : JobKeys => EventsKept s.runtime t.runtime) (fun _ _ _ h => h)
    (fun _ _ _ h1 h2 _ _ h => h2 _ _ (h1 _ _ h)) h fun _ _ => eventsKept_post

/-- **Where an effect comes from**: it was there, or a command applied it. -/
theorem effect_origin (ht : t.runtime.effects.lookup id = some p) : s.runtime.effects.lookup id = some p ∨
      ∃ l₁ e l₂ a, es = l₁ ++ e :: l₂ ∧ AppliedScript cfg e a ∧ a.eventId = id ∧ a.effect = p := by
  induction es generalizing s with
  | nil => cases h; exact .inl ht
  | cons e es ih =>
    obtain ⟨rfl, hrs⟩ := h
    rcases ih hrs with hpo | ⟨l₁, e', l₂, a, rfl, ha, hid, hp⟩
    · rcases effects_cases with heq | ⟨a, ha, heq⟩ | ⟨id', d, -, -, heq⟩ <;> rw [heq] at hpo
      · exact .inl hpo
      · by_cases hid : id = a.eventId
        · subst hid
          rw [lookup_insert] at hpo
          exact .inr ⟨[], e, es, a, rfl, ha, rfl, Option.some.inj hpo⟩
        · rw [lookup_insert_of_ne _ hid] at hpo
          exact .inl hpo
      · by_cases hid : id = id'
        · subst hid
          rw [lookup_erase] at hpo
          cases hpo
        · rw [lookup_erase_ne hid] at hpo
          exact .inl hpo
    · exact .inr ⟨e :: l₁, e', l₂, a, rfl, ha, hid, hp⟩

/-- **A pending effect stays** as long as it is not acknowledged. -/
theorem effect_kept (hev : s.runtime.events.lookup id = some d)
    (hs : s.runtime.effects.lookup id = some p) (hno : ∀ e ∈ es, ¬ AckedScript cfg e id d) :
    t.runtime.effects.lookup id = some p := by
  induction es generalizing s with
  | nil => cases h; exact hs
  | cons e es ih =>
    obtain ⟨rfl, hrs⟩ := h
    refine ih hrs (eventsKept_post _ _ hev) ?_ fun e' he' => hno e' (by simp [he'])
    rcases effects_cases with heq | ⟨a, ha, heq⟩ | ⟨id', d', hack, hev', heq⟩ <;> rw [heq]
    · exact hs
    · -- an application is of an event that is new
      have hne : id ≠ a.eventId := by
        rintro rfl
        cases hev.symm.trans ha.post.1
      rw [lookup_insert_of_ne _ hne]
      exact hs
    · have hne : id ≠ id' := by
        rintro rfl
        cases hev.symm.trans hev'
        exact hno e (by simp) hack
      rw [lookup_erase_ne hne]
      exact hs

/-- **An effect that is gone stays away**: its event is there, so nothing applies it again. -/
theorem effect_gone (hev : s.runtime.events.lookup id = some d)
    (hs : s.runtime.effects.lookup id = none) : t.runtime.effects.lookup id = none := by
  cases ht : t.runtime.effects.lookup id with
  | none => rfl
  | some p =>
    rcases effect_origin h ht with hpre | ⟨l₁, e, l₂, a, rfl, ha, rfl, -⟩
    · cases hs.symm.trans hpre
    · cases (chain_eventsKept (chain_split h).1 _ _ hev).symm.trans ha.post.1

end

theorem AckedScript.post (h : AckedScript cfg e id d) :
    (e.post (store cfg)).runtime.events.lookup id = some d ∧
      (e.post (store cfg)).runtime.effects.lookup id = none := by
  rcases ackScript_cases with ⟨h0, -⟩ | ⟨-, hev, heq⟩
  · cases h0.symm.trans h.2
  · refine ⟨eventsKept_post _ _ hev, ?_⟩
    rw [post_runtime_of_ran h.1, heq]
    exact lookup_erase _ _

end

/-! ## Runs -/

section

variable {k : JobKeys} {acts : List (Action StoreOp)} {l₁ l₂ : List StoreEntry}

/-- A command of an `ApplyJobResult` call that applied the result. -/
structure Applied (cfg : StoreConfig) (k : JobKeys) (acts : List (Action StoreOp)) (e : StoreEntry)
    (a : JobResultApply) : Prop where
  called : Called cfg k acts e.tid (.applyJobResult a)
  script : AppliedScript cfg e a.args

/-- A command of an `AckJobEffect` call that removed an effect. -/
structure Acked (cfg : StoreConfig) (k : JobKeys) (acts : List (Action StoreOp))
    (e : StoreEntry) (id : String) (digest : List UInt8) : Prop where
  called : Called cfg k acts e.tid (.ackJobEffect id digest)
  script : AckedScript cfg e id (Base64.encode Base64.rawStd digest)

theorem applied_of_script (he : e ∈ storeLog cfg k acts) (h : AppliedScript cfg e args) :
    ∃ a, Applied cfg k acts e a ∧ args = a.args := by
  obtain ⟨op, hcal, -, hs⟩ := storeRun_sends (fun _ _ => trivial) he
  rw [h.1.2] at hs
  obtain ⟨a, rfl, rfl⟩ := hs
  exact ⟨a, ⟨hcal, h⟩, rfl⟩

theorem acked_of_script (he : e ∈ storeLog cfg k acts) (h : AckedScript cfg e id d) :
    ∃ g, Acked cfg k acts e id g ∧ d = encode rawStd g := by
  obtain ⟨op, hcal, -, hs⟩ := storeRun_sends (fun _ _ => trivial) he
  rw [h.1.2] at hs
  obtain ⟨g, rfl, rfl⟩ := hs
  exact ⟨g, ⟨hcal, h⟩, rfl⟩

theorem complete_of_called {a : JobResultApply} (he : e ∈ storeLog cfg k acts)
    (hcal : Called cfg k acts e.tid (.applyJobResult a)) : ¬ a.incomplete cfg.jobID := by
  have hall : World.SpawnsOnly (fun _ : StoreOp => True) acts := fun _ _ => trivial
  have hg := run_guarded (prog cfg.jobID) (store cfg) (I := fun _ => True) (L := fun _ _ => True)
    (G := fun op _ => ∀ a, op = .applyJobResult a → ¬ a.incomplete cfg.jobID)
    (fun _ _ _ _ _ _ => ⟨trivial, trivial⟩) (fun op _ => ?_) (s := k) trivial hall
  · obtain ⟨-, op, p, hp, hop⟩ := hg.log e he
    obtain ⟨p', hp'⟩ := hcal
    cases hp.symm.trans hp'
    exact hop a rfl
  · by_cases hinc : ∃ a, op = .applyJobResult a ∧ a.incomplete cfg.jobID
    · obtain ⟨a, rfl, hinc⟩ := hinc
      simp [prog, applyJobResult, hinc]
    · exact guar_of_forall (fun _ a h hinc' => hinc ⟨a, h, hinc'⟩)

theorem store_chain : World.Chain (store cfg) k (storeLog cfg k acts) (storeRun cfg k acts).st :=
  run_init_chain _ _ k acts

theorem store_chain_split (hl : storeLog cfg k acts = l₁ ++ e :: l₂) :
    World.Chain (store cfg) k l₁ e.pre ∧ World.Chain (store cfg) (e.post (store cfg)) l₂
      (storeRun cfg k acts).st :=
  chain_split (hl ▸ store_chain)

/-- The effect of an applied message, as `PendingJobEffects` gives it. -/
def JobResultApply.jobEffect (a : JobResultApply) (job : String) : JobEffect :=
  ⟨job, a.args.eventId, a.digest, a.effect⟩

/-- **Effects stand beside their events**, in every run from a hash without effects. -/
theorem effect_paired (hk : k.runtime.effects = ∅)
    (h : (storeRun cfg k acts).st.runtime.effects.lookup id = some p) :
    ∃ e ∈ storeLog cfg k acts, ∃ a, Applied cfg k acts e a ∧ a.args.eventId = id ∧ a.args.effect = p ∧
      (storeRun cfg k acts).st.runtime.events.lookup id = some a.args.digest := by
  rcases effect_origin store_chain h with hpre | ⟨l₁, e, l₂, args, hl, ha, rfl, rfl⟩
  · rw [hk] at hpre
    cases hpre
  · have he : e ∈ storeLog cfg k acts := by rw [hl]; simp
    obtain ⟨a, happ, rfl⟩ := applied_of_script he ha
    exact ⟨e, he, a, happ, rfl, rfl, chain_eventsKept (store_chain_split hl).2 _ _ ha.post.2.1⟩

/-- **An applied message's effect is pending** until it is acknowledged. -/
theorem applied_pends {a : JobResultApply} (hl : storeLog cfg k acts = l₁ ++ e :: l₂)
    (happ : Applied cfg k acts e a) (hno : ∀ e' ∈ l₂, ¬ Acked cfg k acts e' a.args.eventId a.digest) :
    Pends (storeRun cfg k acts).st.runtime job (a.jobEffect job) := by
  obtain ⟨-, hev, heff⟩ := happ.script.post
  refine ⟨rfl, effect_kept (store_chain_split hl).2 hev (by rw [heff]; exact lookup_insert _) ?_,
    chain_eventsKept (store_chain_split hl).2 _ _ hev⟩
  intro e' he' hack
  obtain ⟨g, hac, hg⟩ := acked_of_script (by rw [hl]; simp [he']) hack
  -- the encoding names the digest
  have hdig : a.digest = g := encode_injective _ hg
  exact hno e' he' (hdig ▸ hac)

theorem fresh_effect (hk : k.runtime.effects = ∅) {t : JobKeys} {es : List StoreEntry}
    (h : World.Chain (store cfg) k es t) (hnew : t.runtime.events.lookup id = none) :
    t.runtime.effects.lookup id ≠ some p := by
  intro ht
  rcases effect_origin h ht with hpre | ⟨l₁, e, l₂, args, rfl, ha, rfl, -⟩
  · rw [hk] at hpre
    cases hpre
  · have hkp := chain_eventsKept (chain_split h).2 _ _ ha.post.2.1
    cases hnew.symm.trans hkp

theorem acked_entry {i : ℕ} {g : List UInt8}
    (h : Ended cfg k acts i (.ackJobEffect id g) (.ok (.acked true))) :
    ∃ e ∈ storeLog cfg k acts, e.tid = i ∧ AckedScript cfg e id (encode rawStd g) := by
  have hp := path_of_finished _ _ k acts h
  simp only [prog, ackJobEffect] at hp
  split at hp
  · cases hp.2
  rcases path_bind.1 hp with ⟨l₁, l₂, b, hsn, h1, h2⟩ | ⟨e, h', -⟩
  · obtain ⟨-, hb⟩ := h2
    cases hb
    rcases path_bind.1 h1 with ⟨l3, l4, r, rfl, h3, h4⟩ | ⟨e, h', -⟩
    · obtain ⟨rfl, hr⟩ := h4
      rcases path_exec.1 h3 with ⟨x, rfl, hx⟩ | ⟨-, h'⟩
      · cases hx
        obtain ⟨e, he, hi, hobs⟩ :=
          (mem_seen (store cfg)).1 (hsn ▸ mem_append_left _ (mem_singleton.2 rfl))
        obtain ⟨tid, pre, cmd, fault⟩ := e
        cases fault with
        | none => cases hobs; exact ⟨_, he, hi, ⟨by rintro ⟨⟩, rfl⟩, by simpa using hr⟩
        | lost | late => cases hobs
      · cases h'
    · cases h'
  · cases h'

/-! ## The property -/

/-- A hash that a run of calls on the job leads to, from one without effects. -/
def ReachedRuntime (fcfg : FleetConfig) (job : String) (rt : Runtime) : Prop :=
  ∃ k acts, k.runtime.effects = ∅ ∧ (storeRun (fcfg.job job) k acts).st.runtime = rt

/-- **The outbox of job `job` is intact** after the run. -/
structure OutboxIntact (fcfg : FleetConfig) (job : String) (k : JobKeys)
    (acts : List (Action StoreOp)) : Prop where
  /-- An effect stands only beside the event of a message that was applied, with its digest. -/
  paired : ∀ id p, (storeRun (fcfg.job job) k acts).st.runtime.effects.lookup id = some p →
    ∃ e ∈ storeLog (fcfg.job job) k acts, ∃ a, Applied (fcfg.job job) k acts e a ∧ a.args.eventId = id ∧
      a.args.effect = p ∧ (storeRun (fcfg.job job) k acts).st.runtime.events.lookup id = some a.args.digest
  /-- A call that answered `applied` applied its message. -/
  applied : ∀ i a, Ended (fcfg.job job) k acts i (.applyJobResult a) (.ok (.disposed .applied)) →
    ∃ e ∈ storeLog (fcfg.job job) k acts, e.tid = i ∧ Applied (fcfg.job job) k acts e a
  /-- An application adds one effect, with the payload of its message, and does so once. -/
  contributes : ∀ l₁ e l₂ a, storeLog (fcfg.job job) k acts = l₁ ++ e :: l₂ →
    Applied (fcfg.job job) k acts e a → e.pre.runtime.effects.lookup a.args.eventId = none ∧
      (e.post (store (fcfg.job job))).runtime.effects =
      e.pre.runtime.effects.insert a.args.eventId a.args.effect ∧
      ∀ e' ∈ l₂, ∀ b, Applied (fcfg.job job) k acts e' b → b.messageID ≠ a.messageID
  /-- Nothing else adds an effect or changes one. -/
  others : ∀ e ∈ storeLog (fcfg.job job) k acts, ∀ id p,
    (e.post (store (fcfg.job job))).runtime.effects.lookup id = some p →
    e.pre.runtime.effects.lookup id = some p ∨
      ∃ a, Applied (fcfg.job job) k acts e a ∧ a.args.eventId = id ∧ a.args.effect = p
  /-- The effect of an applied message is returned by every scan until it is acknowledged. -/
  returned : ∀ l₁ e l₂ a, storeLog (fcfg.job job) k acts = l₁ ++ e :: l₂ →
    Applied (fcfg.job job) k acts e a →
    (∀ e' ∈ l₂, ¬ Acked (fcfg.job job) k acts e' a.args.eventId a.digest) →
    ∀ scan : Scan, (∀ r ∈ scan.reads, ReachedRuntime fcfg r.job r.rt) →
    (∃ r ∈ scan.reads, r.job = job ∧ r.rt = (storeRun (fcfg.job job) k acts).st.runtime) →
    ∀ bound : ℤ, fieldsRead scan.reads < bound →
      ∃ out, pendingJobEffects bound scan.client = .ok out ∧ a.jobEffect job ∈ out
  /-- A call that answered that it acknowledged an effect did. -/
  acked : ∀ i id g, Ended (fcfg.job job) k acts i (.ackJobEffect id g) (.ok (.acked true)) →
    ∃ e ∈ storeLog (fcfg.job job) k acts, e.tid = i ∧ Acked (fcfg.job job) k acts e id g
  /-- What was acknowledged is gone, and no later scan returns it. -/
  gone : ∀ l₁ e l₂ id g, storeLog (fcfg.job job) k acts = l₁ ++ e :: l₂ →
    Acked (fcfg.job job) k acts e id g →
    (storeRun (fcfg.job job) k acts).st.runtime.effects.lookup id = none ∧
    ∀ scan : Scan, (∀ r ∈ scan.reads, ReachedRuntime fcfg r.job r.rt) →
    (∀ r ∈ scan.reads, r.job = job → r.rt = (storeRun (fcfg.job job) k acts).st.runtime) →
    ∀ bound : ℤ, fieldsRead scan.reads < bound →
      ∃ out, pendingJobEffects bound scan.client = .ok out ∧ ∀ x ∈ out, x.jobId = job → x.eventId ≠ id

end

theorem ReachedRuntime.paired {fcfg : FleetConfig} (h : ReachedRuntime fcfg job rt) : rt.Paired := by
  obtain ⟨k, acts, hk, rfl⟩ := h
  intro id p h
  obtain ⟨e, he, a, happ, -, rfl, hev⟩ := effect_paired hk h
  have hcom := complete_of_called he happ.called
  simp only [JobResultApply.incomplete, not_or] at hcom
  exact ⟨a.effect, a.digest, hcom.2.2.2.2.2.2.1, rfl, hev⟩

/-- **The outbox of durable effects keeps its integrity**, over any interleaving of calls on the job,
with any losses and delays. -/
theorem outbox_intact (fcfg : FleetConfig) (job : String) (k : JobKeys) (acts : List (Action StoreOp))
    (hk : k.runtime.effects = ∅) : OutboxIntact fcfg job k acts where
  paired id p h := effect_paired hk h
  applied i a h := by
    obtain ⟨e, he, rfl, hran, hds⟩ := applied_entry h
    exact ⟨e, he, rfl, ⟨_, h⟩, hran, dispositionOf_eq_applied hds⟩
  contributes l₁ e l₂ a hl happ := by
    obtain ⟨hnew, hev, heff⟩ := happ.script.post
    refine ⟨?_, heff, fun e' he' b hb hid => ?_⟩
    · cases hpre : e.pre.runtime.effects.lookup a.args.eventId with
      | none => rfl
      | some p => exact absurd hpre (fresh_effect hk (store_chain_split hl).1 hnew)
    · obtain ⟨l₃, l₄, rfl⟩ := append_of_mem he'
      have har : b.args.eventId = a.args.eventId := congrArg (encode rawURL) hid
      have hkp := chain_eventsKept (chain_split (store_chain_split hl).2).1 _ _ hev
      rw [← har, hb.script.post.1] at hkp
      cases hkp
  others e he id p h := by
    have hone : World.Chain (store (fcfg.job job)) e.pre [e] (e.post (store (fcfg.job job))) := ⟨rfl, rfl⟩
    rcases effect_origin hone h with hpre | ⟨l₁, e', l₂, args, hl, ha, hid, hp⟩
    · exact .inl hpre
    · obtain rfl : e' = e := mem_singleton.1 (hl ▸ mem_append_right _ mem_cons_self)
      obtain ⟨a, happ, rfl⟩ := applied_of_script he ha
      exact .inr ⟨a, happ, hid, hp⟩
  returned l₁ e l₂ a hl happ hno scan hrch hrd bound hrm := by
    obtain ⟨out, hout, hmem⟩ := pendingJobEffects_complete scan (fun r hr => (hrch r hr).paired) hrm
    obtain ⟨r, hr, hjob, hrt⟩ := hrd
    refine ⟨out, hout, (hmem _).2 ⟨r, hr, ?_⟩⟩
    rw [hjob, hrt]
    exact applied_pends hl happ hno
  acked i id g h := by
    obtain ⟨e, he, rfl, hack⟩ := acked_entry h
    exact ⟨e, he, rfl, ⟨_, h⟩, hack⟩
  gone l₁ e l₂ id g hl hack := by
    obtain ⟨hev, heff⟩ := hack.script.post
    have hnn := effect_gone (store_chain_split hl).2 hev heff
    refine ⟨hnn, fun scan hrch hrd bound hrm => ?_⟩
    obtain ⟨out, hout, hmem⟩ := pendingJobEffects_complete scan (fun r hr => (hrch r hr).paired) hrm
    refine ⟨out, hout, fun x hx hjob hid => ?_⟩
    obtain ⟨r, hr, hpen⟩ := (hmem x).1 hx
    have hef := hpen.effect
    rw [hrd r hr (hpen.ofJob.symm.trans hjob), hid, hnn] at hef
    cases hef

/-- A result, applied twice and acknowledged. -/
def acknowledgedRun : List (Action StoreOp) :=
  alone 0 (.beginDispatch "worker-1" "acme" "d1") 5 ++
  alone 1 (.applyJobResult ⟨⟨"d1", 1, "worker-1", "acme"⟩, [1], [2], [3], .succeeded, "res:1"⟩) 3 ++
  alone 2 (.applyJobResult ⟨⟨"d1", 1, "worker-1", "acme"⟩, [1], [2], [3], .succeeded, "res:1"⟩) 3 ++
  alone 3 (.ackJobEffect "AQ" [2]) 1

/-- In such a run the effect is there once, and gone after the acknowledgement. -/
theorem acknowledged_intact :
    OutboxIntact exampleFleet "job-1" dispatchedKeys acknowledgedRun ∧
      Ended (exampleFleet.job "job-1") dispatchedKeys acknowledgedRun 1
        (.applyJobResult ⟨⟨"d1", 1, "worker-1", "acme"⟩, [1], [2], [3], .succeeded, "res:1"⟩)
          (.ok (.disposed .applied)) ∧
      Ended (exampleFleet.job "job-1") dispatchedKeys acknowledgedRun 3
        (.ackJobEffect "AQ" [2]) (.ok (.acked true)) :=
  ⟨outbox_intact _ _ _ _ rfl, rfl, rfl⟩

end Cordum
