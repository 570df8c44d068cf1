import Cordum.Conc.Stable
import Cordum.Proof.Admission

/-!
# Does a durable message disappear without a trace?

Deliveries of one message, on any replicas and in any interleaving, to subscriptions without an
admission hook and with `OnMessageTerminated`. A message that is acknowledged was handled, and one
that is terminated has its dead letter. What is left is a message that JetStream gives up after its
last permitted delivery: there the callback writes a dead letter first, but when that fails it asks
for a redelivery that never comes.

* `no_message_disappears`: every message leaves a trace, if that dead letter is accepted.
* `message_disappears`: a dead letter that fails once.
-/

namespace Cordum

open Conc Prog World List Entry HandlerResult

/-- Deliveries, and the end of a processed marker. -/
inductive BusOp
  | visit (v : Visit)
  | expire

/-- Their programs. -/
def BusOp.prog : BusOp → CallbackM Unit
  | .visit v => callback v
  | .expire => send .expireProcessed

/-- No admission hook, and an `OnMessageTerminated`. -/
def BusOp.Plain : BusOp → Prop
  | .visit v => v.admission = none ∧ v.dlq
  | .expire => True

/-- The callbacks of one message. -/
abbrev BusWorld := World BusOp MsgCmd MsgCmd.Reply Unit Unit MsgState

/-- A run of callbacks from a new message. -/
def busRun (acts : List (Action BusOp)) : BusWorld := World.run BusOp.prog jetStream (World.init {}) acts

/-- A handler did not ask for a retry, or `OnMessageTerminated` accepted the message. -/
def MsgState.Traced (s : MsgState) : Prop := s.Handled ∨ s.deadLettered

/-! ## What is over has a trace -/

/-- The processed marker and a settlement stand for a trace. -/
structure MsgState.Sound (s : MsgState) : Prop where
  processed : s.processed → s.Handled
  settled : s.settled ≠ none → s.Traced

/-- What was handled or dead-lettered stays so. -/
def MsgState.Grows (s t : MsgState) : Prop := (s.Handled → t.Handled) ∧ (s.deadLettered → t.deadLettered)

theorem MsgState.Grows.rfl {s : MsgState} : s.Grows s := ⟨id, id⟩

variable {t u : MsgState} {c : MsgCmd} {e : Entry MsgCmd MsgState}

theorem MsgState.Grows.trans {s : MsgState} (h1 : s.Grows t) (h2 : t.Grows u) : s.Grows u :=
  ⟨h2.1 ∘ h1.1, h2.2 ∘ h1.2⟩

theorem jetStream_grows (c : MsgCmd) (s : MsgState) : s.Grows (jetStream c s).1 := by
  refine ⟨fun ⟨r, hr, hd⟩ => ⟨r, jetStream_calls c s r hr, hd⟩, fun h => ?_⟩
  cases c with
  | deliver => simp only [jetStream]; split <;> exact h
  | admitReplay d now e => simp only [jetStream, admitScript]; split <;> exact h
  | onMessageTerminated n ok => simp [jetStream, h]
  | _ => exact h

/-- The program keeps messages sound. -/
abbrev KeepsSound {α : Type} (q : CallbackM α) (post : α → MsgState → Prop) (s : MsgState) : Prop :=
  q.Keeps jetStream MsgState.Sound MsgState.Grows post s

variable {v : Visit} {s : MsgState}

theorem keeps_send (h : ∀ t, s.Grows t → t.Sound → (jetStream c t).1.Sound) :
    KeepsSound (send c) (fun _ _ => True) s :=
  keeps_bind.2 (keeps_cmd fun t hst ht => ⟨h t hst ht, trivial, trivial, trivial⟩)

theorem keeps_nak {delay : ℕ} : KeepsSound (send (.nak delay)) (fun _ _ => True) s :=
  keeps_send fun _ _ ht => ht

theorem keeps_ack (hs : s.Handled) : KeepsSound (send .ack) (fun _ _ => True) s :=
  keeps_send fun _ hst ht => ⟨ht.processed, fun _ => .inl (hst.1 hs)⟩

variable {n : ℕ}

/-- A message is terminated behind its dead letter. -/
theorem keeps_terminate (hv : v.dlq) : KeepsSound (terminate v n) (fun _ _ => True) s := by
  unfold terminate
  rw [if_pos hv]
  refine keeps_bind.2 (keeps_exec fun t _ ht => ⟨⟨ht.processed, fun h => ?_⟩, ?_⟩)
  · rcases ht.settled h with h | h
    · exact .inl h
    · exact .inr (by simp [jetStream, h])
  · split
    · rename_i htm
      exact keeps_send fun _ hst ht => ⟨ht.processed, fun _ => .inr (hst.2 (by simp [jetStream, htm]))⟩
    · exact keeps_nak

theorem keeps_acknowledge (hs : s.Handled) : KeepsSound (acknowledge v) (fun _ _ => True) s := by
  have hmr : ∀ t : MsgState, s.Grows t → t.Sound → (jetStream .setProcessed t).1.Sound :=
    fun t hst ht => ⟨fun _ => hst.1 hs, ht.settled⟩
  unfold acknowledge
  split
  · exact keeps_ack hs
  split
  · refine keeps_bind.2 (keeps_bind.2 (keeps_cmd fun t hst ht => ⟨hmr t hst ht, ?_⟩))
    exact ⟨keeps_ack (hst.1 hs), keeps_ack (hst.1 hs), keeps_ack (hst.1 hs)⟩
  · refine keeps_bind.2 (keeps_cmd fun t hst ht => ⟨hmr t hst ht, ?_⟩)
    exact ⟨keeps_nak, keeps_nak, keeps_ack (hst.1 hs)⟩

theorem onDelivery_plain (hv : v.admission = none) : onDelivery v n = onAdmitted v n := by
  unfold onDelivery preAdmitRawPacket
  rw [hv]
  rfl

/-- The bytes do not decode, or the handler ran; what it returned decides the action. -/
theorem keeps_process :
    KeepsSound (processAfterRawAdmission v n) (fun action t => action = .ack → t.Handled) s := by
  unfold processAfterRawAdmission
  split
  · intro hack
    split at hack <;> cases hack
  refine keeps_bind.2 (keeps_exec fun t _ ht => ⟨⟨fun h => ?_, fun h => ?_⟩, ?_⟩)
  · exact (jetStream_grows _ t).1 (ht.processed h)
  · rcases ht.settled h with h | h
    · exact .inl ((jetStream_grows _ t).1 h)
    · exact .inr h
  · intro hack
    refine ⟨v.handler, by simp [jetStream], ?_⟩
    cases hr : v.handler with
    | done | failed => rfl
    | retry delay =>
      rw [hr] at hack
      simp only [action] at hack
      split at hack <;> cases hack

theorem keeps_onAdmitted (hv : v.dlq) : KeepsSound (onAdmitted v n) (fun _ _ => True) s := by
  -- behind the guard
  have hhd : ∀ t, KeepsSound (processAfterRawAdmission v n >>= settleProcessed v n)
      (fun _ _ => True) t := by
    intro t
    refine keeps_bind.2 (keeps_weaken keeps_process fun action u hack => ?_)
    cases action with
    | ack => exact keeps_acknowledge (hack rfl)
    | nak | nakDelay delay => exact keeps_nak
    | term => exact keeps_terminate hv
  unfold onAdmitted
  split
  · exact keeps_terminate hv
  unfold alreadyProcessed
  split
  · refine keeps_bind.2 (keeps_cmd fun t _ ht => ⟨ht, keeps_nak, keeps_nak, ?_⟩)
    cases hp : t.processed with
    | true => simp only [jetStream, hp]; exact keeps_ack (ht.processed hp)
    | false => simp only [jetStream, hp]; exact hhd _
  · exact hhd _

/-- **Every delivery keeps the invariant**, whatever other deliveries do meanwhile. -/
theorem keeps_prog {op : BusOp} (hop : op.Plain) : KeepsSound op.prog (fun _ _ => True) s := by
  cases op with
  | expire => exact keeps_send fun t _ ht => ⟨nofun, ht.settled⟩
  | visit v =>
    obtain ⟨hhk, hdlq⟩ := hop
    refine keeps_bind.2 (keeps_cmd fun t _ ht => ⟨?_, trivial, trivial, ?_⟩)
    · simp only [jetStream]
      split
      · exact ⟨ht.processed, ht.settled⟩
      · exact ht
    · split
      · rw [onDelivery_plain hhk]; exact keeps_onAdmitted hdlq
      · trivial

theorem busRun_kept {acts : List (Action BusOp)} (hac : World.SpawnsOnly BusOp.Plain acts) :
    World.Kept jetStream MsgState.Sound MsgState.Grows BusOp.Plain (busRun acts) :=
  run_keeps BusOp.prog jetStream (fun _ => MsgState.Grows.rfl) (fun _ _ _ => MsgState.Grows.trans)
    jetStream_grows (fun _ _ hop => keeps_prog hop) ⟨(by cases ·), fun h => absurd rfl h⟩ hac

/-! ## The last permitted delivery -/

theorem jetStream_deliveries : (jetStream c s).1.deliveries = s.deliveries ∨
      (c = .deliver ∧ s.settled = none ∧ s.deliveries < maxJSRedeliveries ∧
        (jetStream c s).1.deliveries = s.deliveries + 1) := by
  cases c with
  | deliver =>
    by_cases h : s.settled = none ∧ s.deliveries < maxJSRedeliveries
    · exact .inr ⟨rfl, h.1, h.2, by rw [deliver_open h.1 h.2]⟩
    · exact .inl (by simp only [jetStream]; rw [if_neg h])
  | admitReplay d now e => simp only [jetStream, admitScript]; split <;> exact .inl rfl
  | _ => exact .inl rfl

/-- The program asks for no delivery. -/
abbrev NoDelivery {α : Type} (q : CallbackM α) : Prop :=
  q.Guar (fun _ _ => True) (· ≠ .deliver) fun _ => True

theorem send_noDelivery (hc : c ≠ .deliver) : NoDelivery (send c) :=
  guar_seq (guar_cmd hc trivial fun _ _ => trivial) fun _ => trivial

theorem terminate_noDelivery : NoDelivery (terminate v n) := by
  unfold terminate
  split
  · refine guar_seq ⟨nofun, trivial, fun _ _ => trivial⟩ fun _ => ?_
    split <;> exact send_noDelivery nofun
  · exact send_noDelivery nofun

theorem process_noDelivery : NoDelivery (processAfterRawAdmission v n) := by
  unfold processAfterRawAdmission
  split
  · trivial
  · exact guar_seq ⟨nofun, trivial, fun _ _ => trivial⟩ fun _ => trivial

theorem acknowledge_noDelivery : NoDelivery (acknowledge v) := by
  unfold acknowledge
  split
  · exact send_noDelivery nofun
  split
  · exact guar_seq (send_noDelivery nofun) fun _ => send_noDelivery nofun
  · refine guar_seq (guar_cmd nofun trivial fun _ _ => trivial) fun r => ?_
    cases r <;> exact send_noDelivery nofun

theorem onAdmitted_noDelivery : NoDelivery (onAdmitted v n) := by
  have hhd : NoDelivery (processAfterRawAdmission v n >>= settleProcessed v n) := by
    refine guar_seq process_noDelivery fun action => ?_
    cases action with
    | ack => exact acknowledge_noDelivery
    | nak | nakDelay delay => exact send_noDelivery (by simp)
    | term => exact terminate_noDelivery
  unfold onAdmitted
  split
  · exact terminate_noDelivery
  unfold alreadyProcessed
  split
  · refine guar_seq ⟨by simp, trivial, fun _ _ => trivial⟩ fun r => ?_
    rcases r with _ | _ | _
    · exact send_noDelivery (by simp)
    · exact hhd
    · exact send_noDelivery (by simp)
  · exact hhd

theorem last_path {h : List (Obs MsgCmd MsgCmd.Reply)} {r : Except Unit Unit} (hhk : v.admission = none)
    (hdlq : v.dlq) (hpt : (callback v).Path h r)
    (hls : (⟨.deliver, some (some maxJSRedeliveries)⟩ : Obs MsgCmd MsgCmd.Reply) ∈ h) :
    ∃ x, (⟨.onMessageTerminated maxJSRedeliveries v.terminated, x⟩ : Obs MsgCmd MsgCmd.Reply) ∈ h := by
  obtain ⟨x, h', rfl, hrs⟩ := hpt
  rcases mem_cons.1 hls with heq | hmem
  · -- the first command was this delivery
    cases heq
    have htm : (terminate v maxJSRedeliveries).Path h' r := by
      have hpl := hrs
      change (onDelivery v maxJSRedeliveries).Path h' r at hpl
      rw [onDelivery_plain hhk] at hpl
      unfold onAdmitted at hpl
      rwa [if_pos (Nat.le_refl _)] at hpl
    unfold terminate at htm
    rw [if_pos hdlq] at htm
    obtain ⟨y, h'', rfl, -⟩ := htm
    exact ⟨y, by simp⟩
  · -- no later command is one
    exfalso
    rcases x with _ | _ | n
    · obtain ⟨rfl, -⟩ := hrs; simp at hmem
    · obtain ⟨rfl, -⟩ := hrs; simp at hmem
    · change (onDelivery v n).Path h' r at hrs
      rw [onDelivery_plain hhk] at hrs
      exact path_guar onAdmitted_noDelivery hrs _ hmem rfl

/-- Every callback is finished. -/
def Finished (w : BusWorld) : Prop := ∀ t ∈ w.threads, t.2.ended

/-- The message will not come again. -/
def MsgState.Gone (s : MsgState) : Prop := s.settled ≠ none ∨ s.deliveries = maxJSRedeliveries

/-- The last permitted delivery reaches a callback, and its dead letter is accepted. -/
def LastTerminated (log : List (Entry MsgCmd MsgState)) : Prop :=
  ∀ e ∈ log, (e.cmd = .deliver → e.pre.deliveries + 1 = maxJSRedeliveries → e.fault ≠ .late) ∧
    ∀ ok, e.cmd = .onMessageTerminated maxJSRedeliveries ok → ok ∧ e.Ran

variable {acts : List (Action BusOp)}

theorem busRun_chain (acts : List (Action BusOp)) :
    World.Chain jetStream {} (busRun acts).log (busRun acts).st :=
  run_init_chain BusOp.prog jetStream {} acts

theorem exists_last (h : (busRun acts).st.deliveries = maxJSRedeliveries) :
    ∃ e ∈ (busRun acts).log, e.cmd = .deliver ∧ e.Ran ∧ e.pre.settled = none ∧
      e.pre.deliveries + 1 = maxJSRedeliveries := by
  by_contra hno
  -- otherwise every command keeps the count below the limit
  have hbel : (busRun acts).st.deliveries < maxJSRedeliveries := by
    refine chain_inv (P := fun s : MsgState => s.deliveries < maxJSRedeliveries)
      (busRun_chain acts) (by decide) ?_
    intro e he hpre
    by_cases hran : e.Ran
    · rw [post_of_ran hran]
      rcases jetStream_deliveries with heq | ⟨hcmd, hset, hlt, heq⟩
      · rw [heq]; exact hpre
      · have hne : e.pre.deliveries + 1 ≠ maxJSRedeliveries :=
          fun heq' => hno ⟨e, he, hcmd, hran, hset, heq'⟩
        omega
    · rw [post_of_not_ran hran]; exact hpre
  omega

theorem obs_last (hcmd : e.cmd = .deliver) (hflt : e.fault = .none)
    (hset : e.pre.settled = none) (hls : e.pre.deliveries + 1 = maxJSRedeliveries) :
    e.obs jetStream = ⟨.deliver, some (some maxJSRedeliveries)⟩ := by
  obtain ⟨tid, pre, cmd, fault⟩ := e
  subst hcmd hflt
  have hdel : (jetStream .deliver pre).2 = some maxJSRedeliveries := by
    rw [deliver_open hset (by omega), hls]
  simp only [obs, Sem.deliver_none, hdel]

theorem last_deadLetter (hac : World.SpawnsOnly BusOp.Plain acts) (hfin : Finished (busRun acts))
    (he : e ∈ (busRun acts).log)
    (hcmd : e.cmd = .deliver) (hflt : e.fault = .none) (hset : e.pre.settled = none)
    (hls : e.pre.deliveries + 1 = maxJSRedeliveries) :
    ∃ e' ∈ (busRun acts).log, ∃ ok, e'.cmd = .onMessageTerminated maxJSRedeliveries ok := by
  -- the callback that got it is finished, so what it saw is a path of its program
  have htid := (run_faithful BusOp.prog jetStream {} acts).tid e he
  obtain ⟨⟨op, q⟩, hthr⟩ : ∃ t, (busRun acts).threads[e.tid]? = some t := ⟨_, getElem?_eq_getElem htid⟩
  have hmem := mem_of_getElem? hthr
  obtain ⟨r, rfl⟩ : ∃ r, q = ofResult r := ended_iff.1 (hfin _ hmem)
  have hop : op.Plain := ((busRun_kept hac).threads _ hmem).1
  have hpt : op.prog.Path (seen jetStream e.tid (busRun acts).log) r :=
    path_of_finished BusOp.prog jetStream {} acts hthr
  have hsn : (⟨.deliver, some (some maxJSRedeliveries)⟩) ∈ seen jetStream e.tid (busRun acts).log :=
    (mem_seen jetStream).2 ⟨e, he, rfl, obs_last hcmd hflt hset hls⟩
  cases op with
  | expire =>
    -- the marker's expiry asks for no delivery
    exact absurd rfl (path_guar (p := send .expireProcessed) (send_noDelivery nofun) hpt _ hsn)
  | visit v =>
    obtain ⟨x, hx⟩ := last_path hop.1 hop.2 hpt hsn
    obtain ⟨e', he', -, hobs'⟩ := (mem_seen jetStream).1 hx
    exact ⟨e', he', v.terminated, congrArg Obs.cmd hobs'⟩

/-- **No message disappears**, in any interleaving of its deliveries and with any failures. When it
will not be delivered again and its callbacks are finished, it was handled without a request for a
retry, or its dead letter was accepted, provided that the one of the last permitted delivery is. -/
theorem no_message_disappears (hacts : World.SpawnsOnly BusOp.Plain acts)
    (hlast : LastTerminated (busRun acts).log)
    (hfin : Finished (busRun acts)) (hgone : (busRun acts).st.Gone) : (busRun acts).st.Traced := by
  rcases hgone with hset | hmax
  · exact (busRun_kept hacts).inv.settled hset
  obtain ⟨e, he, hcmd, hran, hset, hpre⟩ := exists_last hmax
  have hflt : e.fault = .none := by
    have hlt := (hlast e he).1 hcmd hpre
    cases hf : e.fault with
    | none => rfl
    | lost => exact absurd hf hran
    | late => exact absurd hf hlt
  obtain ⟨e', he', ok, hcmd'⟩ := last_deadLetter hacts hfin he hcmd hflt hset hpre
  obtain ⟨rfl, hran'⟩ := (hlast e' he').2 ok hcmd'
  -- from there on the dead letter stays
  obtain ⟨l₁, l₂, hlog⟩ := append_of_mem he'
  have hchn := busRun_chain acts
  rw [hlog] at hchn
  have hgro : (e'.post jetStream).Grows (busRun acts).st := by
    refine chain_rel (fun _ => MsgState.Grows.rfl) (fun _ _ _ => MsgState.Grows.trans)
      (chain_split hchn).2 fun d _ => ?_
    by_cases hd : d.Ran
    · rw [post_of_ran hd]; exact jetStream_grows _ _
    · rw [post_of_not_ran hd]; exact MsgState.Grows.rfl
  refine .inr (hgro.2 ?_)
  rw [post_of_ran hran', hcmd']
  simp [jetStream]

/-- A delivery, all its commands answered. -/
def visitActs (i : ℕ) (v : Visit) : List (Action BusOp) :=
  .spawn (.visit v) :: List.replicate 4 (.sched i .none)

/-- A message that is retried up to its last delivery. -/
def retriedRun (accepted : Bool) : List (Action BusOp) :=
  (List.range 99).flatMap (visitActs · { handler := .retry second }) ++
    visitActs 99 { terminated := accepted }

theorem retriedRun_plain {accepted : Bool} : World.SpawnsOnly BusOp.Plain (retriedRun accepted) := by
  intro op hop
  simp only [retriedRun, visitActs, mem_append, mem_flatMap, mem_cons, mem_replicate,
    Action.spawn.injEq, reduceCtorEq, and_false, or_false] at hop
  rcases hop with ⟨_, -, rfl⟩ | rfl <;> exact ⟨rfl, rfl⟩

/-- The dead letter of the hundredth delivery is accepted. -/
theorem retriedRun_traced : (busRun (retriedRun true)).st.Gone ∧ (busRun (retriedRun true)).st.Traced := by
  -- one evaluation of the run for all three
  have hrun : (busRun (retriedRun true)).st.deliveries = maxJSRedeliveries ∧
      LastTerminated (busRun (retriedRun true)).log ∧ Finished (busRun (retriedRun true)) := by
    unfold LastTerminated Finished
    decide +kernel
  obtain ⟨hgn, hls, hfin⟩ := hrun
  exact ⟨.inr hgn, no_message_disappears retriedRun_plain hls hfin (.inr hgn)⟩

/-- **A message disappears** when the dead letter of its last permitted delivery fails. -/
theorem message_disappears :
    World.SpawnsOnly BusOp.Plain (retriedRun false) ∧ Finished (busRun (retriedRun false)) ∧
      (busRun (retriedRun false)).st.Gone ∧ ¬ (busRun (retriedRun false)).st.Traced := by
  have hrun : Finished (busRun (retriedRun false)) ∧
      (busRun (retriedRun false)).st.deliveries = maxJSRedeliveries ∧
      (busRun (retriedRun false)).st.calls.all retries ∧
      (busRun (retriedRun false)).st.deadLettered = false := by
    unfold Finished
    decide +kernel
  obtain ⟨hfin, hgn, hcs, hdd⟩ := hrun
  refine ⟨retriedRun_plain, hfin, .inr hgn, ?_⟩
  rintro (⟨r, hr, hd⟩ | h)
  · rw [all_eq_true.1 hcs r hr] at hd
    cases hd
  · rw [hdd] at h
    cases h

end Cordum
