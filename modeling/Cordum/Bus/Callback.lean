import Cordum.Conc.Prog
import Mathlib.Data.Int.Order.Basic

/-!
# One durable message and its deliveries

The callbacks of `Subscribe` and `SubscribeWithContext` in `core/infra/bus/nats.go`. JetStream
delivers a message that was neither acknowledged nor terminated, at most `maxJSRedeliveries`
times; Redis keeps the marker of a processed message and the replay entry of a production packet.
A callback is a program of commands to them, the handler and `OnMessageTerminated`; a fault of
these two is a callback that died before or right after it.
-/

namespace Cordum

open Conc

/-- Deliveries after which the bus gives a message up; also `MaxDeliver`. -/
def maxJSRedeliveries : ℕ := 100

/-- Deliveries until bytes that do not decode are terminated. -/
def poisonUnmarshalThreshold : ℕ := 3

/-- Durations are in nanoseconds. -/
def second : ℕ := 1000000000

/-- What a handler's return means to the bus (`RetryDelay`). -/
inductive HandlerResult
  | done
  | failed
  | retry (delay : ℕ)
deriving DecidableEq, Repr

/-- The handler asked for a retry. -/
def HandlerResult.retries : HandlerResult → Bool
  | .retry _ => true
  | _ => false

/-- How the server was told that a message is over. -/
inductive Settlement
  | acked
  | terminated
deriving DecidableEq, Repr

/-- A replay entry: the digest, and when Redis forgets it. -/
structure ReplayEntry where
  digest : List UInt8
  expires : ℤ
deriving DecidableEq, Repr

/-- One message: its deliveries, its end, its keys in Redis, and what its handlers and dead letters
came to. -/
structure MsgState where
  deliveries : ℕ := 0
  settled : Option Settlement := none
  processed : Bool := false
  replay : Option ReplayEntry := none
  calls : List HandlerResult := []
  deadLettered : Bool := false
deriving DecidableEq, Repr

/-- The replies of `admitScript`. -/
inductive ReplayReply
  | first
  | duplicate
  | conflict
deriving DecidableEq, Repr

/-- What a callback asks of JetStream, Redis and the handler. -/
inductive MsgCmd
  | deliver
  | admitReplay (digest : List UInt8) (now expires : ℤ)
  | existsProcessed
  | setProcessed
  | expireProcessed
  | handle (result : HandlerResult)
  | onMessageTerminated (numDelivered : ℕ) (accepted : Bool)
  | ack
  | nak (delay : ℕ)
  | term
deriving DecidableEq

/-- The replies. -/
abbrev MsgCmd.Reply : MsgCmd → Type
  | deliver => Option ℕ
  | admitReplay .. => ReplayReply
  | existsProcessed => Bool
  | setProcessed | expireProcessed | handle .. | onMessageTerminated .. | ack | nak .. | term => Unit

/-- `admitScript`, on the message's own key. -/
def admitScript (digest : List UInt8) (now expires : ℤ) (s : MsgState) : MsgState × ReplayReply :=
  match s.replay.filter (now < ·.expires) with
  | some entry => (s, if entry.digest = digest then .duplicate else .conflict)
  | none => ({ s with replay := some ⟨digest, expires⟩ }, .first)

/-- JetStream and Redis, as far as one message sees them. -/
def jetStream : Sem MsgCmd MsgCmd.Reply MsgState
  | .deliver, s =>
    if s.settled = none ∧ s.deliveries < maxJSRedeliveries then
      ({ s with deliveries := s.deliveries + 1 }, some (s.deliveries + 1))
    else (s, none)
  | .admitReplay digest now expires, s => admitScript digest now expires s
  | .existsProcessed, s => (s, s.processed)
  | .setProcessed, s => ({ s with processed := true }, ())
  | .expireProcessed, s => ({ s with processed := false }, ())
  | .handle r, s => ({ s with calls := s.calls ++ [r] }, ())
  | .onMessageTerminated _ accepted, s => ({ s with deadLettered := s.deadLettered || accepted }, ())
  | .ack, s => ({ s with settled := s.settled <|> some .acked }, ())
  | .nak _, s => (s, ())
  | .term, s => ({ s with settled := s.settled <|> some .terminated }, ())

/-! ## Production admission -/

/-- Why the production boundary does not admit a packet. -/
inductive AdmissionErr
  | replayStoreUnavailable
  | replayConflict
  | incompleteReplayIdentity
  | admissionUnavailable
  | canceled
  | deadlineExceeded
  | rejected
deriving DecidableEq, Repr

/-- What the admission hook decides. -/
inductive RawAdmissionDisposition
  | invalid
  | accepted
  | duplicate
  | rejected
  | retry
deriving DecidableEq, Repr

/-- The decision, with a packet or a delay. -/
structure RawAdmissionResult where
  disposition : RawAdmissionDisposition
  hasPacket : Bool := false
  retryAfter : ℕ := 0

/-- What the replay store is asked of a packet; `expires` includes the clock skew. -/
structure ProductionPacket where
  tenant : String
  audience : String
  sender : String
  messageID : List UInt8
  digest : List UInt8
  expires : ℤ
deriving DecidableEq, Repr

/-- What the hook finds: the session, the packet that the checks make of the bytes, and the time. -/
structure RawAdmission where
  session : Except AdmissionErr Unit := .ok ()
  verified : Except AdmissionErr ProductionPacket
  now : ℤ

/-- The programs of callbacks. -/
abbrev CallbackM := Prog MsgCmd MsgCmd.Reply Unit

/-- The decision for an error of the admission. -/
def productionRawAdmissionError : AdmissionErr → RawAdmissionResult
  | .replayStoreUnavailable | .admissionUnavailable | .canceled | .deadlineExceeded =>
    { disposition := .retry }
  | .replayConflict | .incompleteReplayIdentity | .rejected => { disposition := .rejected }

/-- `Admit` of the replay store; `true` is a first delivery, `false` a duplicate. -/
def replayAdmit (p : ProductionPacket) (now : ℤ) : CallbackM (Except AdmissionErr Bool) :=
  if p.tenant = "" ∨ p.audience = "" ∨ p.sender = "" ∨ p.messageID = [] ∨ p.digest = [] then
    .ret (.error .incompleteReplayIdentity)
  else if p.expires ≤ now then .ret (.error .incompleteReplayIdentity)
  else do
    match ← Prog.cmd (MsgCmd.admitReplay p.digest now p.expires) with
    | some .first => .ret (.ok true)
    | some .duplicate => .ret (.ok false)
    | some .conflict => .ret (.error .replayConflict)
    | none => .ret (.error .replayStoreUnavailable)

/-- `admitReplay`: every failure but a conflict is an unavailable store. -/
def admitReplay (p : ProductionPacket) (now : ℤ) : CallbackM (Except AdmissionErr Bool) := do
  match ← replayAdmit p now with
  | .ok first => .ret (.ok first)
  | .error .replayConflict => .ret (.error .replayConflict)
  | .error _ => .ret (.error .replayStoreUnavailable)

/-- The hook of `NewProductionRawAdmissionHook`. -/
def productionAdmission (a : RawAdmission) : CallbackM RawAdmissionResult :=
  match a.session, a.verified with
  | .error e, _ => .ret (productionRawAdmissionError e)
  | .ok _, .error e => .ret (productionRawAdmissionError e)
  | .ok _, .ok p => do
    match ← admitReplay p a.now with
    | .error e => .ret (productionRawAdmissionError e)
    | .ok false => .ret { disposition := .duplicate }
    | .ok true => .ret { disposition := .accepted, hasPacket := true }

/-! ## The callback -/

/-- How a callback ends a delivery. -/
inductive MsgAction
  | ack
  | nak
  | nakDelay (delay : ℕ)
  | term
deriving DecidableEq, Repr

/-- What a delivery finds: which of the two callbacks it is, whether there is a Redis client, an
`OnMessageTerminated` (and whether that fails) and an admission hook, whether the bytes decode, and
what the handler returns. -/
structure Visit where
  withContext : Bool := false
  redis : Bool := true
  dlq : Bool := true
  terminated : Bool := true
  admission : Option RawAdmission := none
  decodes : Bool := true
  handler : HandlerResult := .done

/-- A command whose failure is only logged. -/
def send (c : MsgCmd) : CallbackM Unit := do
  let _ ← Prog.cmd c
  .ret ()

/-- `evaluateRawAdmission`: `none` goes on to the handler. -/
def evaluateRawAdmission (r : RawAdmissionResult) : Option MsgAction :=
  match r.disposition with
  | .accepted => if r.hasPacket then none else some .term
  | .duplicate => some .ack
  | .retry => if r.retryAfter > 0 then some (.nakDelay r.retryAfter) else some .nak
  | .invalid | .rejected => some .term

variable (v : Visit)

/-- The admission hook; `none` lets the message through. -/
def preAdmitRawPacket : CallbackM (Option MsgAction) :=
  match v.admission with
  | none => .ret none
  | some a => do
    let r ← productionAdmission a
    .ret (evaluateRawAdmission r)

/-- `settleRawAdmission`: no dead letter is written for a rejected packet. -/
def settleRawAdmission : MsgAction → CallbackM Unit
  | .ack => send .ack
  | .nak => send (.nak 0)
  | .nakDelay delay => send (.nak delay)
  | .term => send .term

/-- The dead letter before `Term`; when it fails the message is to come again. -/
def terminate (numDelivered : ℕ) : CallbackM Unit :=
  if v.dlq then do
    Prog.exec (MsgCmd.onMessageTerminated numDelivered v.terminated) ()
    if v.terminated then send .term else send (.nak (5 * second))
  else send .term

/-- The idempotency guard; `none` is a check that failed. -/
def alreadyProcessed : CallbackM (Option Bool) :=
  if v.redis then Prog.cmd MsgCmd.existsProcessed else .ret (some false)

/-- `packetHandlerAction`. -/
def HandlerResult.action : HandlerResult → MsgAction
  | .retry delay => if delay > 0 then .nakDelay delay else .nak
  | .done | .failed => .ack

/-- `processAfterRawAdmission`: bytes that do not decode are terminated when they came often enough. -/
def processAfterRawAdmission (numDelivered : ℕ) : CallbackM MsgAction :=
  if v.admission.isNone ∧ v.decodes = false then
    .ret (if numDelivered > poisonUnmarshalThreshold then .term else .nakDelay (5 * second))
  else do
    Prog.exec (MsgCmd.handle v.handler) ()
    .ret v.handler.action

/-- The acknowledgement, behind the processed marker, which only `Subscribe` insists on. -/
def acknowledge : CallbackM Unit :=
  if v.redis = false then send .ack
  else if v.withContext then do
    send .setProcessed
    send .ack
  else do
    match ← Prog.cmd MsgCmd.setProcessed with
    | some _ => send .ack
    | none => send (.nak (2 * second))

/-- What becomes of a message after the handler. -/
def settleProcessed (numDelivered : ℕ) : MsgAction → CallbackM Unit
  | .term => terminate v numDelivered
  | .nak => send (.nak 0)
  | .nakDelay delay => send (.nak delay)
  | .ack => acknowledge v

/-- A callback after admission: the limit, the idempotency guard, the handler. -/
def onAdmitted (numDelivered : ℕ) : CallbackM Unit :=
  if numDelivered ≥ maxJSRedeliveries then terminate v numDelivered
  else do
    match ← alreadyProcessed v with
    | none => send (.nak (2 * second))
    | some true => send .ack
    | some false => do settleProcessed v numDelivered (← processAfterRawAdmission v numDelivered)

/-- A callback on the message's delivery number `numDelivered`. -/
def onDelivery (numDelivered : ℕ) : CallbackM Unit := do
  match ← preAdmitRawPacket v with
  | some action => settleRawAdmission action
  | none => onAdmitted v numDelivered

/-- One delivery, if there is one. -/
def callback : CallbackM Unit := do
  match ← Prog.cmd MsgCmd.deliver with
  | some (some numDelivered) => onDelivery v numDelivered
  | _ => .ret ()

end Cordum
