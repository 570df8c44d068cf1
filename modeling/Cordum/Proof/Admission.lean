import Cordum.Bus.Callback

/-!
# Does production admission swallow a message that asked to be retried?

The replay store records a packet in the step that admits it, before the handler runs, and every
later delivery is then acknowledged as a duplicate. So all depends on the delivery that is admitted
first: its handler must be reached, and must not ask for a retry.

* `not_swallowed_iff`: the exact condition.
* `message_swallowed`: a handler that asks for a retry once.
-/

namespace Cordum

open Conc Prog HandlerResult List

/-- The message after deliveries, one after the other. -/
def visits (s : MsgState) (cs : List (Visit × List Fault)) : MsgState :=
  cs.foldl (fun s c => ((callback c.1).run jetStream c.2 s).st) s

@[simp] theorem visits_nil {s : MsgState} : visits s [] = s := rfl

@[simp] theorem visits_cons {s : MsgState} {c : Visit × List Fault} {cs : List (Visit × List Fault)} :
    visits s (c :: cs) = visits ((callback c.1).run jetStream c.2 s).st cs := rfl

/-- The replay store can tell the packet from others. -/
structure ProductionPacket.Complete (p : ProductionPacket) : Prop where
  tenant : p.tenant ≠ ""
  audience : p.audience ≠ ""
  sender : p.sender ≠ ""
  messageID : p.messageID ≠ []
  digest : p.digest ≠ []

/-- The delivery brings the valid packet `p` in time, behind the production hook; the session is not
refused. -/
structure Brings (p : ProductionPacket) (v : Visit) (a : RawAdmission) : Prop where
  hook : v.admission = some a
  verified : a.verified = .ok p
  live : a.now < p.expires
  session : ∀ e, a.session = .error e → productionRawAdmissionError e = { disposition := .retry }

/-- Nothing happened to the message yet. -/
structure MsgState.New (s : MsgState) : Prop where
  replay : s.replay = none
  settled : s.settled = none
  processed : s.processed = false
  calls : s.calls = []

/-- A handler took the message. -/
def MsgState.Handled (s : MsgState) : Prop := ∃ r ∈ s.calls, r.retries = false

/-- The message is acknowledged only after an invocation that did not ask for a retry; after one that
did, a redelivery invokes the handler again. -/
structure NotSwallowed (p : ProductionPacket) (s : MsgState) : Prop where
  acked : s.settled = some .acked → s.Handled
  again : ∀ r v a, s.calls = [r] → r.retries → Brings p v a → a.session = .ok () → s.settled = none →
    s.deliveries + 1 < maxJSRedeliveries → s.calls.length < (visits s [(v, [])]).calls.length

variable {p : ProductionPacket} {v : Visit} {a : RawAdmission} {s t : MsgState} {n : ℕ}

/-! ## Invocations stay -/

theorem jetStream_calls (c : MsgCmd) (s : MsgState) : ∀ r ∈ s.calls, r ∈ (jetStream c s).1.calls := by
  intro r hr
  cases c with
  | deliver => simp only [jetStream]; split <;> exact hr
  | admitReplay d now e => simp only [jetStream, admitScript]; split <;> exact hr
  | handle r' => exact mem_append_left _ hr
  | _ => exact hr

theorem handled_run {α : Type} {q : CallbackM α} {fs : List Fault} (hs : s.Handled) :
    (q.run jetStream fs s).st.Handled := by
  obtain ⟨r, hr, hd⟩ := hs
  have hmn := run_rel (ρ := fun s t : MsgState => ∀ r ∈ s.calls, r ∈ t.calls) (fun _ _ h => h)
    (fun _ _ _ h1 h2 r h => h2 r (h1 r h)) jetStream_calls q fs s
  exact ⟨r, hmn r hr, hd⟩

/-- **A handled message stays handled**, whatever is delivered. -/
theorem handled_visits (hs : s.Handled) {cs : List (Visit × List Fault)} : (visits s cs).Handled := by
  induction cs generalizing s with
  | nil => exact hs
  | cons c cs ih => rw [visits_cons]; exact ih (handled_run hs)

theorem notSwallowed_of_handled (hs : s.Handled) : NotSwallowed p s where
  acked _ := hs
  again r v a hcs hr _ _ _ _ := by
    obtain ⟨r', hr', hd⟩ := hs
    rw [hcs, mem_singleton] at hr'
    rw [hr', hr] at hd
    cases hd

/-! ## The first admission -/

theorem wp_send {c : MsgCmd} {Q : Except Unit Unit → MsgState → Prop} :
    (send c).wp jetStream Q s ↔ Q (.ok ()) s ∧ Q (.ok ()) (jetStream c s).1 := by
  rw [send, wp_cmd_bind]
  simp

/-- What the first admission leaves: the replay entry, and a message handled or to come again. -/
structure Admitted (p : ProductionPacket) (n : ℕ) (t : MsgState) : Prop where
  replay : t.replay = some ⟨p.digest, p.expires⟩
  deliveries : t.deliveries = n
  ended : t.Handled ∨ t.settled = none

theorem process_wp (hook : v.admission = some a) {Q : Except Unit MsgAction → MsgState → Prop} :
    (processAfterRawAdmission v n).wp jetStream Q s ↔ Q (.error ()) s ∧
      Q (.error ()) { s with calls := s.calls ++ [v.handler] } ∧
      Q (.ok v.handler.action) { s with calls := s.calls ++ [v.handler] } := by
  unfold processAfterRawAdmission
  rw [if_neg (by rw [hook]; simp), wp_exec_bind]
  rfl

theorem acknowledge_wp {Q : MsgState → Prop} (h : ∀ b o, Q { s with processed := b, settled := o }) :
    (acknowledge v).wp jetStream (fun _ => Q) s := by
  have hs : Q s := h s.processed s.settled
  unfold acknowledge
  split
  · rw [wp_send]
    exact ⟨hs, h _ _⟩
  split
  · rw [bind_eq, wp_bind, wp_send, wp_send, wp_send]
    exact ⟨⟨hs, h _ _⟩, h _ _, h _ _⟩
  · rw [wp_cmd_bind, wp_send, wp_send, wp_send]
    exact ⟨⟨hs, hs⟩, ⟨h _ _, h _ _⟩, h _ _, h _ _⟩

theorem onAdmitted_wp (hook : v.admission = some a) (hn : n < maxJSRedeliveries)
    (hr : s.replay = some ⟨p.digest, p.expires⟩) (hd : s.deliveries = n) (hs : s.settled = none)
    (hp : s.processed = false) : (onAdmitted v n).wp jetStream (fun _ => Admitted p n) s := by
  -- a message without a settlement comes again, whatever its calls
  have hop : ∀ calls, Admitted p n { s with calls := calls } := fun _ => ⟨hr, hd, .inr hs⟩
  have hhd : (processAfterRawAdmission v n >>= settleProcessed v n).wp jetStream
      (fun _ => Admitted p n) s := by
    rw [bind_eq, wp_bind, process_wp hook]
    refine ⟨hop _, hop _, ?_⟩
    -- after a handler that did not ask for a retry the settlement does not matter
    have hdn : v.handler.retries = false → ∀ b o,
        Admitted p n { s with calls := s.calls ++ [v.handler], processed := b, settled := o } :=
      fun h _ _ => ⟨hr, hd, .inl ⟨v.handler, by simp, h⟩⟩
    cases hv : v.handler with
    | retry delay =>
      by_cases hdel : delay > 0
      · simp only [action, settleProcessed, if_pos hdel, wp_send]
        exact ⟨hop _, hop _⟩
      · simp only [action, settleProcessed, if_neg hdel, wp_send]
        exact ⟨hop _, hop _⟩
    | done | failed => rw [hv] at hdn; exact acknowledge_wp (hdn rfl)
  unfold onAdmitted
  rw [if_neg (by omega)]
  unfold alreadyProcessed
  split
  · rw [wp_cmd_bind]
    simp only [wp_send]
    refine ⟨⟨hop _, hop _⟩, ⟨hop _, hop _⟩, ?_⟩
    simp only [jetStream, hp]
    exact hhd
  · exact hhd

/-- What the bus does on the replay store's reply to a valid packet. -/
def replayAction : Option ReplayReply → Option MsgAction
  | some .first => none
  | some .duplicate => some .ack
  | some .conflict => some .term
  | none => some .nak

theorem preAdmit_eq (hp : p.Complete) (hb : Brings p v a) (hs : a.session = .ok ()) :
    preAdmitRawPacket v = .call (.admitReplay p.digest a.now p.expires)
      fun r => .ret (replayAction r) := by
  have hcom : ¬ (p.tenant = "" ∨ p.audience = "" ∨ p.sender = "" ∨ p.messageID = [] ∨ p.digest = []) := by
    simp [hp.tenant, hp.audience, hp.sender, hp.messageID, hp.digest]
  have hlv : ¬ p.expires ≤ a.now := by have := hb.live; omega
  unfold preAdmitRawPacket productionAdmission
  rw [hb.hook]
  dsimp only
  rw [hb.verified, hs]
  dsimp only
  unfold admitReplay replayAdmit
  rw [if_neg hcom, if_neg hlv]
  refine congrArg (call _) (funext fun r => ?_)
  rcases r with _ | _ | _ | _ <;> rfl

theorem deliver_open (hs : s.settled = none) (hrm : s.deliveries < maxJSRedeliveries) :
    jetStream .deliver s = ({ s with deliveries := s.deliveries + 1 }, some (s.deliveries + 1)) := by
  simp only [jetStream]
  rw [if_pos ⟨hs, hrm⟩]

/-- **A delivery of a new message** leaves it new, or admits it. -/
theorem visit_wp (hp : p.Complete) (hb : Brings p v a) (hnew : s.New)
    (hrm : s.deliveries + 1 < maxJSRedeliveries) :
    (callback v).wp jetStream (fun _ t => t.New ∨ Admitted p (s.deliveries + 1) t) s := by
  have hfst : jetStream (.admitReplay p.digest a.now p.expires) { s with deliveries := s.deliveries + 1 } =
      ({ s with deliveries := s.deliveries + 1, replay := some ⟨p.digest, p.expires⟩ }, .first) := by
    simp [jetStream, admitScript, hnew.replay]
  have hnew' : MsgState.New { s with deliveries := s.deliveries + 1 } := ⟨hnew.1, hnew.2, hnew.3, hnew.4⟩
  unfold callback
  rw [wp_cmd_bind, deliver_open hnew.settled (by omega)]
  refine ⟨.inl hnew, .inl hnew', ?_⟩
  unfold onDelivery
  dsimp only
  cases hs : a.session with
  | error e =>
    have hnak : preAdmitRawPacket v = .ret (some .nak) := by
      unfold preAdmitRawPacket productionAdmission
      rw [hb.hook]
      dsimp only
      rw [hs]
      dsimp only
      rw [hb.session e hs]
      rfl
    rw [hnak]
    exact wp_send.2 ⟨.inl hnew', .inl hnew'⟩
  | ok u =>
    rw [preAdmit_eq hp hb hs, bind_eq, call_bind, wp_call, hfst]
    -- the store may admit a packet without its callback hearing of it
    have hop : Admitted p (s.deliveries + 1)
        { s with deliveries := s.deliveries + 1, replay := some ⟨p.digest, p.expires⟩ } :=
      ⟨rfl, rfl, .inr hnew.settled⟩
    refine ⟨wp_send.2 ⟨.inl hnew', .inl hnew'⟩, wp_send.2 ⟨.inr hop, .inr hop⟩, ?_⟩
    exact wp_mono (fun _ _ h => .inr h) (onAdmitted_wp hb.hook hrm rfl rfl hnew.settled hnew.processed)

/-- **A delivery after the admission is acknowledged** without the handler. -/
theorem visit_duplicate (hp : p.Complete) (hb : Brings p v a) (hses : a.session = .ok ())
    (hr : s.replay = some ⟨p.digest, p.expires⟩) (hs : s.settled = none)
    (hrm : s.deliveries < maxJSRedeliveries) :
    visits s [(v, [])] = { s with deliveries := s.deliveries + 1, settled := some .acked } := by
  have hdup : jetStream (.admitReplay p.digest a.now p.expires) { s with deliveries := s.deliveries + 1 } =
      ({ s with deliveries := s.deliveries + 1 }, .duplicate) := by
    simp [jetStream, admitScript, hr, Option.filter, hb.live]
  have hrun : (callback v).run jetStream [] s =
      (onDelivery v (s.deliveries + 1)).run jetStream [] { s with deliveries := s.deliveries + 1 } := by
    unfold callback cmd
    rw [bind_eq, call_bind, run_call_nil, deliver_open hs hrm]
    rfl
  rw [visits_cons, hrun]
  unfold onDelivery
  rw [preAdmit_eq hp hb hses, bind_eq, call_bind, run_call_nil, hdup]
  simp only [replayAction, settleRawAdmission, send]
  simp [cmd, jetStream, hs]

/-! ## All deliveries -/

theorem Brings.withSession (hb : Brings p v a) :
    Brings p { v with admission := some { a with session := .ok () } } { a with session := .ok () } :=
  ⟨rfl, hb.verified, hb.live, nofun⟩

/-- **When admission swallows no message.** A new message, admitted by a delivery that is not the last
one, is never swallowed, whatever deliveries and faults follow, if and only if that delivery reached
the handler and the handler did not ask for a retry. -/
theorem not_swallowed_iff {fs : List Fault} (hp : p.Complete) (hb : Brings p v a) (hnew : s.New)
    (hroom : s.deliveries + 1 < maxJSRedeliveries) (hadm : (visits s [(v, fs)]).replay ≠ none) :
    (∀ cs : List (Visit × List Fault), (∀ c ∈ cs, ∃ b, Brings p c.1 b) →
      NotSwallowed p (visits s ((v, fs) :: cs))) ↔ (visits s [(v, fs)]).Handled := by
  have hfst : Admitted p (s.deliveries + 1) (visits s [(v, fs)]) := by
    rcases wp_run (visit_wp hp hb hnew hroom) fs with h | h
    · exact absurd h.replay hadm
    · exact h
  constructor
  · intro h
    by_contra hno
    -- one more delivery, with everything up, acknowledges the message
    have hop : (visits s [(v, fs)]).settled = none := hfst.ended.resolve_left hno
    have hroom' : (visits s [(v, fs)]).deliveries < maxJSRedeliveries := by rw [hfst.deliveries]; omega
    have hdup := visit_duplicate hp hb.withSession rfl hfst.replay hop hroom'
    have hswa := h [({ v with admission := some { a with session := .ok () } }, [])]
      (by simp only [mem_singleton, forall_eq]; exact ⟨_, hb.withSession⟩)
    have hvis : visits s [(v, fs), ({ v with admission := some { a with session := .ok () } }, [])] =
        visits (visits s [(v, fs)]) [({ v with admission := some { a with session := .ok () } }, [])] :=
      rfl
    rw [hvis, hdup] at hswa
    exact hno (hswa.acked rfl)
  · intro h cs _
    exact notSwallowed_of_handled (handled_visits h)

/-- A packet for examples. -/
def examplePacket : ProductionPacket := ⟨"acme", "sys.job.submit", "worker-1", [1], [2], 100⟩

/-- A delivery behind the production hook. -/
def productionVisit (r : HandlerResult) : Visit where
  admission := some { verified := .ok examplePacket, now := 0 }
  handler := r

theorem productionVisit_brings {r : HandlerResult} :
    Brings examplePacket (productionVisit r) { verified := .ok examplePacket, now := 0 } :=
  ⟨rfl, rfl, by decide, nofun⟩

/-- A handler that is done the first time, and a redelivery. -/
theorem done_not_swallowed :
    NotSwallowed examplePacket (visits {} [(productionVisit .done, []), (productionVisit .done, [])]) :=
  (not_swallowed_iff ⟨by decide, by decide, by decide, by decide, by decide⟩ productionVisit_brings
    ⟨rfl, rfl, rfl, rfl⟩ (by decide) (by decide)).2 ⟨.done, by decide, rfl⟩ [(productionVisit .done, [])]
    (by simp only [mem_singleton, forall_eq]; exact ⟨_, productionVisit_brings⟩)

/-- **A handler that asks for a retry is not asked again**: the redelivery is a duplicate. -/
theorem message_swallowed :
    visits {} [(productionVisit (.retry second), []), (productionVisit .done, [])] =
      { deliveries := 2, settled := some .acked, replay := some ⟨[2], 100⟩, calls := [.retry second] } ∧
    ¬ NotSwallowed examplePacket
      (visits {} [(productionVisit (.retry second), []), (productionVisit .done, [])]) := by
  have hrun : visits {} [(productionVisit (.retry second), []), (productionVisit .done, [])] =
      { deliveries := 2, settled := some .acked, replay := some ⟨[2], 100⟩,
        calls := [.retry second] } := by decide
  refine ⟨hrun, fun h => ?_⟩
  obtain ⟨r, hr, hd⟩ := h.acked rfl
  rw [mem_singleton.1 hr] at hd
  cases hd

end Cordum
