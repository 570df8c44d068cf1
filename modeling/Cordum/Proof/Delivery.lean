import Cordum.Scheduler.Runs

/-!
# Is a recorded dispatch delivered?

Every dispatch has its own id, which the job's fence remembers, but the bus computes a message's id
from the job id or from a label. A re-dispatch after a publish that was stored and reported as failed
therefore meets a duplicate, and the worker never sees the dispatch the fence waits for.

* `delivered_iff`: the runs in which this holds.
* `delivered_fails`: one in which it does not.
-/

namespace Cordum

open Conc List JobsStream Entry World Option

/-! ## What the stream holds -/

theorem JobsStream.hasID_publish (st : JobsStream) (subject : String) (req : JobRequest) (id : String) :
    (st.publish subject req).hasID id ↔ st.hasID id ∨ (id ≠ "" ∧ computeMsgID subject req = id) := by
  unfold publish
  split
  · rename_i h
    constructor
    · exact .inl
    · rintro (h' | ⟨-, rfl⟩)
      · exact h'
      · exact h
  · simp only [hasID, mem_append, mem_singleton, or_and_right, exists_or, exists_eq_left,
      and_or_left]

variable {d id : String} {e : EngineEntry} {s t : Sys} {es : List EngineEntry}

theorem JobsStream.carries_publish {st : JobsStream} (h : st.carries d) (subject : String)
    (req : JobRequest) : (st.publish subject req).carries d := by
  unfold publish
  split
  · exact h
  · obtain ⟨m, hm, i, hi⟩ := h
    exact ⟨m, mem_append_left _ hm, i, hi⟩

/-- The message id of a publish. -/
def sentID : EngineCmd → Option String
  | .inr (.publishJob subject req) => some (computeMsgID subject req)
  | _ => none

variable {cfg : StoreConfig}

theorem engine_stream (cfg : StoreConfig) (c : EngineCmd) (s : Sys) :
    (engine cfg c s).1.stream = s.stream ∧ sentID c = none ∨
    ∃ subject req, c = .inr (.publishJob subject req) ∧ (engine cfg c s).1.stream =
    s.stream.publish subject req := by
  rcases c with c | c
  · simp [sentID]
  · cases c with
    | publishJob subject req => right; exact ⟨subject, req, rfl, by rw [engine_inr, busStep]⟩
    | publishResult | deadLetter d => left; simp [busStep, sentID]

theorem post_hasID :
    (e.post (engine cfg)).stream.hasID id ↔ e.pre.stream.hasID id ∨
      (id ≠ "" ∧ e.Ran ∧ sentID e.cmd = some id) := by
  by_cases hr : e.Ran
  · rw [post_of_ran hr]
    rcases engine_stream cfg e.cmd e.pre with ⟨h, hs⟩ | ⟨subject, req, hc, h⟩
    · simp [h, hs]
    · rw [h, hasID_publish]; simp [hr, hc, sentID]
  · rw [post_of_not_ran hr]; simp [hr]

theorem post_carries (h : e.pre.stream.carries d) : (e.post (engine cfg)).stream.carries d := by
  by_cases hr : e.Ran
  · rw [post_of_ran hr]
    rcases engine_stream cfg e.cmd e.pre with ⟨h', -⟩ | ⟨subject, req, -, h'⟩
    · rw [h']; exact h
    · rw [h']; exact carries_publish h subject req
  · rw [post_of_not_ran hr]; exact h

/-- **The ids in the stream** are the first ones and those that were published. -/
theorem chain_hasID (h : World.Chain (engine cfg) s es t) :
    t.stream.hasID id ↔ s.stream.hasID id ∨ (id ≠ "" ∧ ∃ e ∈ es, e.Ran ∧ sentID e.cmd = some id) := by
  induction es generalizing s with
  | nil => cases h; simp
  | cons e es ih =>
    rw [ih h.2, post_hasID, h.1]
    constructor
    · rintro ((h' | ⟨hne, hr, hs⟩) | ⟨hne, e', he', h'⟩)
      · exact .inl h'
      · exact .inr ⟨hne, e, by simp, hr, hs⟩
      · exact .inr ⟨hne, e', by simp [he'], h'⟩
    · rintro (h' | ⟨hne, e', he', hr, hs⟩)
      · exact .inl (.inl h')
      · rcases mem_cons.1 he' with rfl | he'
        · exact .inl (.inr ⟨hne, hr, hs⟩)
        · exact .inr ⟨hne, e', he', hr, hs⟩

/-! ## Delivery -/

/-- A publish that returned success for dispatch `d`, the fence at that moment. -/
def PublishedFor (e : EngineEntry) (d : String) : Prop :=
  e.fault = .none ∧ e.pre.keys.runtime.fence.dispatchId = some d ∧
    ∃ subject req i, e.cmd = .inr (.publishJob subject req) ∧ req.dispatch = some i ∧ i.dispatchId = d

/-- Once a publish returns success for the fence's dispatch, the stream holds a message that carries
it. -/
def Delivered (cfg : StoreConfig) (s : Sys) (acts : List (Action SchedOp)) : Prop :=
  ∀ l₁ e l₂ d, schedLog cfg s acts = l₁ ++ e :: l₂ → PublishedFor e d →
    ∀ e' ∈ e :: l₂, (e'.post (engine cfg)).stream.carries d

/-- The publish's message id is one the stream began with, or that of an earlier publish that reached
it. -/
def MetDuplicate (s : Sys) (l₁ : List EngineEntry) (e : EngineEntry) : Prop :=
  ∃ id, sentID e.cmd = some id ∧
    (s.stream.hasID id ∨ (id ≠ "" ∧ ∃ e' ∈ l₁, e'.Ran ∧ sentID e'.cmd = some id))

theorem publishedFor_post (h : PublishedFor e d) : ∃ id, sentID e.cmd = some id ∧
      (e.pre.stream.hasID id → (e.post (engine cfg)).stream = e.pre.stream) ∧
      (¬ e.pre.stream.hasID id → (e.post (engine cfg)).stream.carries d) := by
  obtain ⟨hf, -, subject, req, i, hc, hi, hd⟩ := h
  have hr : e.Ran := by rw [Entry.Ran, hf]; decide
  have hpo : (e.post (engine cfg)).stream = e.pre.stream.publish subject req := by
    rw [post_of_ran hr, hc, engine_inr, busStep]
  refine ⟨computeMsgID subject req, by rw [hc, sentID], fun h => ?_, fun h => ?_⟩
  · rw [hpo, publish, if_pos h]
  · rw [hpo, publish, if_neg h]
    exact ⟨_, mem_append_right _ (mem_singleton_self _), i, hi, hd⟩

/-- **When a recorded dispatch is delivered.** In every interleaving with any losses, each publish
that returned success for the fence's dispatch is in the stream if and only if none met its own
message id there, save in a stream that carried the dispatch already. -/
theorem delivered_iff (cfg : StoreConfig) (s : Sys) (acts : List (Action SchedOp)) :
    Delivered cfg s acts ↔
      ∀ l₁ e l₂ d, schedLog cfg s acts = l₁ ++ e :: l₂ → PublishedFor e d →
        ¬ MetDuplicate s l₁ e ∨ e.pre.stream.carries d := by
  refine forall₄_congr fun l₁ e l₂ d => forall₂_congr fun hlog hpub => ?_
  have hchn : World.Chain (engine cfg) s (schedLog cfg s acts) _ := run_init_chain _ _ s acts
  rw [hlog] at hchn
  obtain ⟨hbef, haft⟩ := chain_split hchn
  obtain ⟨id, hid, hdup, hnew⟩ := publishedFor_post hpub
  have hmet : MetDuplicate s l₁ e ↔ e.pre.stream.hasID id := by
    rw [chain_hasID hbef]
    constructor
    · rintro ⟨id', hid', h⟩
      cases hid.symm.trans hid'
      exact h
    · intro h; exact ⟨id, hid, h⟩
  rw [hmet]
  constructor
  · intro h
    by_cases hhas : e.pre.stream.hasID id
    · rw [← hdup hhas]; exact .inr (h e (by simp))
    · exact .inl hhas
  · intro h
    have hpo : (e.post (engine cfg)).stream.carries d := by
      rcases h with h | h
      · exact hnew h
      · exact post_carries h
    intro e' he'
    rcases mem_cons.1 he' with rfl | he'
    · exact hpo
    · obtain ⟨l₁, l₂, rfl⟩ := append_of_mem he'
      refine post_carries (chain_inv (chain_split haft).1 (P := fun s => s.stream.carries d) hpo ?_)
      exact fun _ _ hc => post_carries hc

/-- A handling that sends the job to worker `w` as dispatch `d`. -/
def sendTo (w d : String) : SchedOp :=
  .handle { verdict := { decision := some .allow }, picks :=
    fun _ => .subject ("worker." ++ w ++ ".jobs") true,
            dispatchID := d } exampleRequest

/-- The first publish is stored and its reply lost; the redelivered request goes to another worker. -/
def redispatchRun : List (Action SchedOp) :=
  .spawn (sendTo "w1" "d1") :: (List.replicate 19 (.sched 0 .none) ++ .sched 0 .late ::
    (List.replicate 12 (.sched 0 .none) ++ .spawn (sendTo "w2" "d2") ::
      List.replicate 24 (.sched 1 .none)))

/-- The fault and dispatch of a publish, the fence it met, and the dispatches then in the stream. -/
def publishView (cfg : StoreConfig) (e : EngineEntry) :
    Option (Fault × Option DispatchIdentity × Option String × List (Option String)) :=
  match e.cmd with
  | .inr (.publishJob _ req) => some (e.fault, req.dispatch, e.pre.keys.runtime.fence.dispatchId,
      (e.post (engine cfg)).stream.map fun m => m.request.dispatch.map DispatchIdentity.dispatchId)
  | _ => none

theorem publishView_eq {i : DispatchIdentity} {ds : List (Option String)}
    (h : publishView cfg e = some (.none, some i, some i.dispatchId, ds)) :
    PublishedFor e i.dispatchId ∧
      ((e.post (engine cfg)).stream.carries i.dispatchId → some i.dispatchId ∈ ds) := by
  unfold publishView at h
  split at h
  · rename_i subject req hc
    simp only [some.injEq, Prod.mk.injEq] at h
    obtain ⟨hf, hi, hd, rfl⟩ := h
    refine ⟨⟨hf, hd, subject, req, i, hc, hi, rfl⟩, ?_⟩
    rintro ⟨m, hm, j, hj, hj'⟩
    exact mem_map.2 ⟨m, hm, by rw [hj, map_some, hj']⟩
  · cases h

/-- **A recorded dispatch that is not delivered**: the publish of `d2` returns success, and the stream
holds the message of `d1` alone. -/
theorem delivered_fails :
    (schedLog exampleConfig {} redispatchRun)[43]?.bind (publishView exampleConfig) =
        some (.none, some ⟨"d2", 2, "w2"⟩, some "d2", [some "d1"]) ∧
      ¬ Delivered exampleConfig {} redispatchRun := by
  have hvw : (schedLog exampleConfig {} redispatchRun)[43]?.bind (publishView exampleConfig) =
      some (.none, some ⟨"d2", 2, "w2"⟩, some "d2", [some "d1"]) := by decide +kernel
  refine ⟨hvw, fun h => ?_⟩
  obtain ⟨e, he, hv⟩ := bind_eq_some_iff.1 hvw
  obtain ⟨hpub, hcar⟩ := publishView_eq hv
  obtain ⟨hlt, rfl⟩ := List.getElem?_eq_some_iff.1 he
  have hsp := take_append_drop 43 (schedLog exampleConfig {} redispatchRun)
  rw [drop_eq_getElem_cons hlt] at hsp
  exact absurd (hcar (h _ _ _ _ hsp.symm hpub _ mem_cons_self)) (by decide)

end Cordum
