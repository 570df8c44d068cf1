import Cordum.Proof.AuditTamper

/-!
# Chains of different tenants

The stream of a tenant is kept under the prefix and its id, its head under the prefix, `head:` and its
id. Ids are free text, so the stream of the tenant `head:x` and the head of the tenant `x` have one
key. Apart from that, two tenants have no key in common.

* `chains_isolated_iff`: tenants are isolated exactly when they are apart.
-/

namespace Cordum.Audit

open Conc Utf8 JsonText Decimal World Function List SIEMEvent StreamEntry Option Bool

variable {head t₁ t₂ : Bytes} {decode : Bytes → Option SIEMEvent} {s' s'' : ChainState}
  {entries entries' : List StreamEntry}
  {opts : VerifyOptions} {D : Digests} {kp t hash time : Bytes} {i now : ℕ}

/-- Neither id is `head:` and the other one. -/
def Apart (t₁ t₂ : Bytes) : Prop := t₁ ≠ chainHeadInfix ++ t₂ ∧ t₂ ≠ chainHeadInfix ++ t₁

instance (t₁ t₂ : Bytes) : Decidable (Apart t₁ t₂) := inferInstanceAs (Decidable (_ ∧ _))

theorem Apart.keys (h : Apart t₁ t₂) (hne : t₁ ≠ t₂) (kp : Bytes) :
    (headKey kp t₂ ≠ headKey kp t₁ ∧ headKey kp t₂ ≠ streamKey kp t₁) ∧
      streamKey kp t₂ ≠ headKey kp t₁ ∧ streamKey kp t₂ ≠ streamKey kp t₁ := by
  simp only [headKey, streamKey, append_assoc, ne_eq, append_cancel_left_eq]
  exact ⟨⟨fun heq => hne heq.symm, fun heq => h.1 heq.symm⟩, h.2, fun heq => hne heq.symm⟩

/-! ## What a call leaves alone -/

/-- The tenant's keys are as they were, and no cache got a head of the tenant. -/
structure Kept (kp t : Bytes) (s s' : ChainState) : Prop where
  head : s'.db (headKey kp t) = s.db (headKey kp t)
  stream : s'.db (streamKey kp t) = s.db (streamKey kp t)
  caches : ∀ i raw, s'.caches i = some (t, raw) → s.caches i = some (t, raw)

theorem Kept.refl (s : ChainState) : Kept kp t s s := ⟨rfl, rfl, fun _ _ h => h⟩

variable {s : ChainState}

theorem Kept.trans (h : Kept kp t s s') (h' : Kept kp t s' s'') : Kept kp t s s'' :=
  ⟨h'.head.trans h.head, h'.stream.trans h.stream, fun i raw hc => h.caches i raw (h'.caches i raw hc)⟩

/-- Some caches were cleared, nothing else. -/
structure Cleared (s s' : ChainState) : Prop where
  db : s'.db = s.db
  caches : ∀ i x, s'.caches i = some x → s.caches i = some x

theorem Cleared.refl (s : ChainState) : Cleared s s := ⟨rfl, fun _ _ h => h⟩

theorem Cleared.kept (h : Cleared s s') : Kept kp t s s' :=
  ⟨by rw [h.db], by rw [h.db], fun i raw hc => h.caches i _ hc⟩

theorem cleared_invalidate (i : ℕ) (tenant raw : Bytes) (s : ChainState) :
    Cleared s (chainSem (.invalidateCachedHead i tenant raw) s).1 := by
  simp only [chainSem]
  split
  · refine ⟨rfl, fun j x hj => ?_⟩
    simp only [update_apply] at hj
    split at hj
    · cases hj
    · exact hj
  · exact .refl s

variable {c : Chainer}

/-- **One command** of another tenant's `Append`. -/
theorem SentBy.keeps {base : SIEMEvent} {cmd : ChainCmd} (h : SentBy D c base cmd) (hkp : c.keyPrefix = kp)
    (hne : base.tenantID ≠ t) (hapa : Apart base.tenantID t) (s : ChainState) :
    Kept kp t s (chainSem cmd s).1 := by
  subst hkp
  obtain ⟨⟨hhh, hhs⟩, hsh, hss⟩ := hapa.keys hne c.keyPrefix
  cases cmd with
  | cachedHead i tenant => exact .refl s
  | storeCachedHead i tenant raw =>
    refine ⟨rfl, rfl, fun j raw' hj => ?_⟩
    obtain ⟨-, rfl⟩ := h
    simp only [chainSem, update_apply] at hj
    split at hj
    · cases hj
      exact absurd rfl hne
    · exact hj
  | invalidateCachedHead i tenant raw => exact (cleared_invalidate i tenant raw s).kept
  | get key => exact .refl s
  | runAppendScript hk sk expected seq hash payload now =>
    obtain ⟨rfl, rfl, -⟩ := h
    rcases chainAppendScript_cases s.db (headKey c.keyPrefix base.tenantID)
      (streamKey c.keyPrefix base.tenantID) expected seq
      hash payload now with ⟨hdb, -⟩ | ⟨head, entries, -, -, -, -, hout⟩
    · exact ⟨by simp only [chainSem, hdb], by simp only [chainSem, hdb], fun _ _ hc => hc⟩
    refine ⟨?_, ?_, fun _ _ hc => hc⟩
    · simp only [chainSem, hout]
      rw [update_of_ne hhh, update_of_ne hhs]
    · simp only [chainSem, hout]
      rw [update_of_ne hsh, update_of_ne hss]
  | del key => exact absurd h id

/-! ## What a call comes to -/

/-- The event after the head `head`, and its stored form. -/
def linkAfter (D : Digests) (c : Chainer) (event : SIEMEvent) (head : Bytes) :
    Except AppendError (SIEMEvent × Bytes) :=
  match parseChainHead head with
  | .error e => .error (.parseHead e)
  | .ok (headSeq, headHash) => linkEvent D c event headSeq headHash

variable {event : SIEMEvent}

theorem linkAfter_parsed {n : ℤ} (h : parseChainHead head = .ok (n, hash)) :
    linkAfter D c event head = linkEvent D c event n hash := by
  rw [linkAfter, h]

/-- One call of `Append`. -/
structure AppendCall where
  chainer : Chainer
  env : AppendEnv
  event : SIEMEvent

namespace AppendCall

/-- The call on a healthy Redis, with nobody else around. -/
def run (D : Digests) (call : AppendCall) (s : ChainState) : Out AppendError SIEMEvent ChainState :=
  (append D call.chainer call.env call.event).run chainSem [] s

/-- The context of the call outlives one retry, and its event brings no foreign tag. -/
structure Plain (call : AppendCall) : Prop where
  interrupted : call.env.interrupted 0 = false
  cancelled : call.env.cancelled 1 = false
  untagged : call.chainer.hmacKey = [] → call.event.hmac = []

/-- What the call comes to when it finds the head `head`. -/
def planned (D : Digests) (call : AppendCall) (head : Bytes) : Except AppendError (SIEMEvent × Bytes) :=
  if call.event.tenantID = [] then .error .tenantRequired
  else if call.env.cancelled 0 then .error .cancelled
  else linkAfter D call.chainer call.event head

end AppendCall

/-- The tenant's head and stream belong together: `n` events. A cached head can be parsed. -/
structure InOrder (kp t : Bytes) (s : ChainState) (n : ℕ) (head : Bytes)
    (entries : List StreamEntry) : Prop where
  getHead : getString s.db (headKey kp t) = .ok (if head = [] then none else some head)
  getEntries : getStream s.db (streamKey kp t) = .ok entries
  empty : head = [] → entries = []
  parsed : ∃ hash, parseChainHead head = .ok (n, hash)
  cached : ∀ i raw, s.caches i = some (t, raw) → ∃ r, parseChainHead raw = .ok r

variable {n : ℕ}

theorem InOrder.mono (h : InOrder kp t s n head entries) (hk : Kept kp t s s') :
    InOrder kp t s' n head entries := by
  refine ⟨?_, ?_, h.empty, h.parsed, fun i raw hc => h.cached i raw (hk.caches i raw hc)⟩
  · rw [getString, hk.head]
    exact h.getHead
  · rw [getStream, hk.stream]
    exact h.getEntries

theorem run_readHead :
    (readHead c t).run chainSem [] s =
      match (chainSem (.cachedHead c.id t) s).2 with
      | some raw => ⟨.ok raw, [], s⟩
      | none => match getString s.db (headKey c.keyPrefix t) with
        | .error _ => ⟨.error .readHead, [], s⟩
        | .ok raw => ⟨.ok (raw.getD []), [], s⟩ := by
  rw [readHead, tryCmd, Prog.bind_eq, Prog.cmd, Prog.call_bind, Prog.run_call_nil]
  cases (chainSem (.cachedHead c.id t) s).2 with
  | some raw => rfl
  | none =>
    change Prog.run chainSem (chainExec (.get (headKey c.keyPrefix t)) .readHead >>= _) [] s = _
    rw [chainExec, Prog.run_resend_bind_nil]
    simp only [chainSem]
    cases getString s.db (headKey c.keyPrefix t) with
    | error e => rfl
    | ok raw => cases raw <;> rfl

theorem linkEvent_ok (htm : event.timestamp.text = some time) (c : Chainer) (n : ℤ)
    (h : Bytes) : ∃ r, linkEvent D c event n h = .ok r := by
  have hmar : ∀ e : SIEMEvent, e.timestamp = event.timestamp → ∃ m, e.marshal = some m := by
    intro e he
    rw [marshal, he, htm]
    exact ⟨_, rfl⟩
  obtain ⟨m, hm⟩ := hmar (cleared { event with prevHash := h, seq := n + 1 }) rfl
  have hhs : computeEventHash D { event with prevHash := h, seq := n + 1 } = some (D.sha256 m) := by
    rw [computeEventHash, canonical, hm, map_some]
  have htag : ∃ tag, (if c.hmacKey = [] then some event.hmac
      else computeEventHMAC D { event with prevHash := h, seq := n + 1, eventHash := D.sha256 m }
        c.hmacKey) = some tag := by
    split
    · exact ⟨_, rfl⟩
    refine ⟨D.hmac c.hmacKey m, ?_⟩
    change Option.map _ (cleared { event with prevHash := h, seq := n + 1 }).marshal = _
    rw [hm, map_some]
  obtain ⟨tag, htag⟩ := htag
  obtain ⟨payload, hpay⟩ :=
    hmar { event with prevHash := h, seq := n + 1, eventHash := D.sha256 m, hmac := tag } rfl
  rw [linkEvent, hhs]
  dsimp only
  rw [htag]
  dsimp only
  rw [hpay]
  exact ⟨_, rfl⟩

theorem linkEvent_cases :
    (∀ n h, linkEvent D c event n h = .error .computeHash) ∨ ∀ n h, ∃ r,
      linkEvent D c event n h = .ok r := by
  cases htm : event.timestamp.text with
  | none =>
    refine .inl fun n h => ?_
    have hhs : computeEventHash D { event with prevHash := h, seq := n + 1 } = none := by
      simp only [computeEventHash, canonical, marshal, cleared, htm, map_none]
    rw [linkEvent, hhs]
  | some time => exact .inr (linkEvent_ok htm c)

theorem linkEvent_body (h : c.hmacKey = [] → event.hmac = []) (n : ℤ) (head : Bytes) :
    linkEvent D c event.body n head = linkEvent D c event n head := by
  have hhs : computeEventHash D { event.body with prevHash := head, seq := n + 1 } =
      computeEventHash D { event with prevHash := head, seq := n + 1 } := by
    rw [computeEventHash]
    exact congrArg _ (canonical_congr rfl rfl)
  rw [linkEvent, linkEvent, hhs]
  cases computeEventHash D { event with prevHash := head, seq := n + 1 } with
  | none => rfl
  | some hash =>
    by_cases hkey : c.hmacKey = []
    · have hemp : event.body.hmac = event.hmac := (h hkey).symm
      simp only [hkey, hemp]
      rfl
    · simp only [hkey]
      rfl

/-! ### One attempt -/

/-- The state after the commit of `ev`. -/
def committed (kp t : Bytes) (s : ChainState) (i : ℕ) (entries : List StreamEntry) (ev : SIEMEvent)
    (payload : Bytes) (now : ℕ) :
    ChainState where
  db := Function.update
    (Function.update s.db (streamKey kp t)
      (some (.stream (entries ++ [⟨nextID now entries, formatInt ev.seq, some payload⟩]))))
    (headKey kp t) (some (.str (headText (formatInt ev.seq) ev.eventHash)))
  caches := Function.update s.caches i (some (t, headText (formatInt ev.seq) ev.eventHash))

theorem InOrder.getD_head (h : InOrder kp t s n head entries) :
    ∃ raw, getString s.db (headKey kp t) = .ok raw ∧ raw.getD [] = head := by
  refine ⟨_, h.getHead, ?_⟩
  split
  · next hnil => rw [hnil]; rfl
  · rfl

theorem InOrder.script (h : InOrder kp t s n head entries) (seq hash payload : Bytes) (now : ℕ) :
    chainAppendScript s.db (headKey kp t) (streamKey kp t) head seq hash payload now = (Function.update
        (Function.update s.db (streamKey kp t)
          (some (.stream (entries ++ [⟨nextID now entries, seq, some payload⟩]))))
        (headKey kp t) (some (.str (headText seq hash))), .ok true) := by
  obtain ⟨raw, hraw, hsm⟩ := h.getD_head
  have hgua : ¬ (head = [] ∧ entries.length ≠ 0) := by
    rintro ⟨hnil, hlen⟩
    rw [h.empty hnil] at hlen
    exact hlen rfl
  simp only [chainAppendScript, hraw, h.getEntries, hsm, ne_eq, not_true_eq_false, if_false]
  rw [if_neg hgua]

theorem InOrder.script_miss {raw : Bytes} (h : InOrder kp t s n head entries) (hne : raw ≠ head)
    (seq hash payload : Bytes) (now : ℕ) :
    chainAppendScript s.db (headKey kp t) (streamKey kp t) raw seq hash payload now =
      (s.db, .ok false) := by
  obtain ⟨raw', hraw, hsm⟩ := h.getD_head
  simp only [chainAppendScript, hraw, hsm]
  rw [if_pos fun heq => hne heq.symm]

section

variable {c : Chainer} {env : AppendEnv} {left : ℕ} {event ev : SIEMEvent}
  {s : ChainState} {raw : Bytes} {n : ℤ}
  {h payload : Bytes} (hcan : env.cancelled (chainMaxCASRetries - (left + 1)) = false)
  (hrd : (readHead c event.tenantID).run chainSem [] s = ⟨.ok raw, [], s⟩)

include hcan hrd

theorem run_attempt_unlinked {e : AppendError} (hln : linkAfter D c event raw = .error e) :
    (appendLoop D c env (left + 1) event).run chainSem [] s = ⟨.error e, [], s⟩ := by
  rw [appendLoop]
  simp only [hcan, false_eq_true, if_false]
  rw [Prog.bind_eq, Prog.run_bind, hrd]
  unfold linkAfter at hln
  dsimp only
  cases hprs : parseChainHead raw with
  | error e' =>
    rw [hprs] at hln
    cases hln
    rfl
  | ok r =>
    rw [hprs] at hln
    dsimp only at hln ⊢
    rw [hln]
    rfl

/-- An attempt whose event could be linked is committed, or made again without its head. -/
theorem run_attempt_linked (hln : linkAfter D c event raw = .ok (ev, payload))
    {db : Bytes → Option RedisValue} {done : Bool}
    (hscr : chainAppendScript s.db (headKey c.keyPrefix ev.tenantID)
      (streamKey c.keyPrefix ev.tenantID) raw
      (formatInt ev.seq) ev.eventHash payload (env.now (chainMaxCASRetries - (left + 1))) = (db, .ok done))
    (hgs : done = false → env.interrupted (chainMaxCASRetries - (left + 1)) = false) :
    (appendLoop D c env (left + 1) event).run chainSem [] s = if done then
        ⟨.ok ev, [],
      ⟨db, Function.update s.caches c.id (some (ev.tenantID, headText (formatInt ev.seq) ev.eventHash))⟩⟩
      else (appendLoop D c env left ev.body).run chainSem []
        (chainSem (.invalidateCachedHead c.id ev.tenantID raw) ⟨db, s.caches⟩).1 := by
  rw [appendLoop]
  simp only [hcan, false_eq_true, if_false]
  rw [Prog.bind_eq, Prog.run_bind, hrd]
  unfold linkAfter at hln
  dsimp only
  cases hprs : parseChainHead raw with
  | error e =>
    rw [hprs] at hln
    cases hln
  | ok r =>
    rw [hprs] at hln
    dsimp only at hln ⊢
    rw [hln]
    dsimp only
    rw [chainExec, Prog.run_resend_bind_nil]
    simp only [chainSem]
    rw [hscr]
    cases done with
    | true => rfl
    | false =>
      simp only [hgs rfl, false_eq_true]
      rfl

end

theorem InOrder.run_attempt {env : AppendEnv} {left : ℕ}
    (h : InOrder kp event.tenantID s n head entries) (hkp : c.keyPrefix = kp)
    (hcan : env.cancelled (chainMaxCASRetries - (left + 1)) = false)
    (hrd : (readHead c event.tenantID).run chainSem [] s = ⟨.ok head, [], s⟩) :
    (appendLoop D c env (left + 1) event).run chainSem [] s =
      match linkAfter D c event head with
      | .error e => ⟨.error e, [], s⟩
      | .ok (ev, payload) => ⟨.ok ev, [],
          committed kp event.tenantID s c.id entries ev payload
            (env.now (chainMaxCASRetries - (left + 1)))⟩ := by
  subst hkp
  cases hln : linkAfter D c event head with
  | error e => exact run_attempt_unlinked hcan hrd hln
  | ok r =>
    obtain ⟨ev, payload⟩ := r
    obtain ⟨hash, hprs⟩ := h.parsed
    have hten : ev.tenantID = event.tenantID :=
      (linkEvent_sealed ((linkAfter_parsed hprs).symm.trans hln)).1.tenantID
    have hscr :=
      h.script (formatInt ev.seq) ev.eventHash payload (env.now (chainMaxCASRetries - (left + 1)))
    rw [← hten] at hscr
    rw [run_attempt_linked hcan hrd hln hscr nofun, if_pos rfl]
    dsimp only
    rw [committed, hten]

theorem cachedHead_cases : (chainSem (.cachedHead i t) s).2 = none ∨
      ∃ raw, (chainSem (.cachedHead i t) s).2 = some raw ∧ s.caches i = some (t, raw) := by
  simp only [chainSem]
  cases hc : s.caches i with
  | none => exact .inl rfl
  | some x =>
    obtain ⟨t', raw⟩ := x
    by_cases ht : t' = t
    · subst ht
      exact .inr ⟨raw, if_pos rfl, rfl⟩
    · exact .inl (if_neg ht)

theorem InOrder.run_readHead_get (h : InOrder c.keyPrefix t s n head entries)
    (hc : (chainSem (.cachedHead c.id t) s).2 = none) :
    (readHead c t).run chainSem [] s = ⟨.ok head, [], s⟩ := by
  obtain ⟨raw, hraw, rfl⟩ := h.getD_head
  rw [run_readHead, hc]
  rw [hraw]

/-- **A call on a chain in order** comes to what its head says, whatever is cached. -/
theorem InOrder.run_append {call : AppendCall} (h : InOrder kp call.event.tenantID s n head entries)
    (hkp : call.chainer.keyPrefix = kp) (hpl : call.Plain) :
    ∃ s' now, Cleared s s' ∧ call.run D s =
      match call.planned D head with
      | .error e => ⟨.error e, [], s'⟩
      | .ok (ev, payload) => ⟨.ok ev, [],
        committed kp call.event.tenantID s' call.chainer.id entries ev payload now⟩ := by
  obtain ⟨c, env, event⟩ := call
  subst hkp
  rw [AppendCall.run, AppendCall.planned, append]
  by_cases hten : event.tenantID = []
  · rw [if_pos hten, if_pos hten]
    exact ⟨s, 0, .refl s, rfl⟩
  rw [if_neg hten, if_neg hten]
  cases hcan : env.cancelled 0 with
  | true =>
    refine ⟨s, 0, .refl s, ?_⟩
    change Prog.run chainSem (appendLoop D c env (1023 + 1) event) [] s = _
    rw [appendLoop]
    have hz : env.cancelled (chainMaxCASRetries - (1023 + 1)) := hcan
    simp only [hz]
    rfl
  | false =>
    simp only [false_eq_true, if_false]
    change ∃ s' now, _ ∧ Prog.run chainSem (appendLoop D c env (1023 + 1) event) [] s = _
    have hz : env.cancelled (chainMaxCASRetries - (1023 + 1)) = false := hcan
    rcases cachedHead_cases with hms | ⟨raw, hhit, hraw⟩
    · exact ⟨s, _, .refl s, h.run_attempt rfl hz (h.run_readHead_get hms)⟩
    have hrd : (readHead c event.tenantID).run chainSem [] s = ⟨.ok raw, [], s⟩ := by
      rw [run_readHead, hhit]
    by_cases hsm : raw = head
    · subst hsm
      exact ⟨s, _, .refl s, h.run_attempt rfl hz hrd⟩
    -- a head that is behind costs one attempt
    obtain ⟨⟨m, hash⟩, hprs⟩ := h.cached c.id raw hraw
    rcases linkEvent_cases with hnev | halw
    · obtain ⟨hash', hhe⟩ := h.parsed
      refine ⟨s, 0, .refl s, ?_⟩
      rw [run_attempt_unlinked hz hrd ((linkAfter_parsed hprs).trans (hnev m hash)),
        linkAfter_parsed hhe, hnev]
    obtain ⟨⟨ev, payload⟩, hln⟩ := halw m hash
    have hsl := (linkEvent_sealed hln).1
    have hms := h.script_miss hsm (formatInt ev.seq) ev.eventHash payload
      (env.now (chainMaxCASRetries - (1023 + 1)))
    rw [← hsl.tenantID] at hms
    have hcle := cleared_invalidate c.id event.tenantID raw s
    have hnx : InOrder c.keyPrefix event.body.tenantID
        (chainSem (.invalidateCachedHead c.id event.tenantID raw) s).1 n head entries := h.mono hcle.kept
    have hno : (chainSem (.cachedHead c.id event.tenantID)
        (chainSem (.invalidateCachedHead c.id event.tenantID raw) s).1).2 = none := by
      simp only [chainSem, if_pos hraw, update_self]
    have hone : env.cancelled (chainMaxCASRetries - (1022 + 1)) = false := hpl.cancelled
    have haga := hnx.run_attempt (D := D) rfl hone (hnx.run_readHead_get hno)
    refine ⟨_, env.now (chainMaxCASRetries - (1022 + 1)), hcle, ?_⟩
    rw [run_attempt_linked hz hrd ((linkAfter_parsed hprs).trans hln) hms fun _ => hpl.interrupted,
      hsl.tenantID, hsl.body]
    have hbd : linkAfter D c event.body head = linkAfter D c event head := by
      rw [linkAfter, linkAfter]
      cases parseChainHead head with
      | error e => rfl
      | ok r => exact linkEvent_body hpl.untagged r.1 r.2
    rw [hbd] at haga
    exact haga

/-! ## Two runs -/

theorem parseChainHead_written (hn : n < 2 ^ 63) (hhs : IsDigest hash) :
    parseChainHead (headText (formatInt n) hash) = .ok ((n : ℤ), hash) := by
  cases hprs : parseChainHead (headText (formatInt n) hash) with
  | ok r => rw [parseChainHead_headText (by omega) hprs]
  | error e =>
    -- it has a separator, a number that fits, and a hash of the right length
    exfalso
    obtain ⟨colon, htk, hdr, hcol⟩ : ∃ colon, (headText (formatInt n) hash).take colon = formatInt n ∧
        (headText (formatInt n) hash).drop (colon + 1) = hash ∧
        (headText (formatInt n) hash).findIdx? (· = 0x3A) = some colon := headText_colon (by omega) hash
    have hft : parseInt (formatInt n) = some (n : ℤ) := by
      rw [parseInt_formatInt, if_pos (by omega)]
    rw [parseChainHead, if_neg (headText_ne_nil _ _), hcol] at hprs
    dsimp only at hprs
    rw [htk, hdr, hft] at hprs
    dsimp only at hprs
    rw [if_neg (by omega), if_neg fun h => h.2 hhs.1] at hprs
    cases hprs

theorem InOrder.committed {ev : SIEMEvent} {payload : Bytes}
    (h : InOrder kp t s n head entries) (hs : Cleared s s') (hn : n + 1 < 2 ^ 63)
    (hln : linkAfter D c event head = .ok (ev, payload)) (i now : ℕ) :
    InOrder kp t (committed kp t s' i entries ev payload now) (n + 1)
      (headText (formatInt ev.seq) ev.eventHash)
      (entries ++ [⟨nextID now entries, formatInt ev.seq, some payload⟩]) := by
  obtain ⟨hash, hprs⟩ := h.parsed
  rw [linkAfter_parsed hprs] at hln
  obtain ⟨hsl, hseq, -⟩ := linkEvent_sealed hln
  obtain ⟨m, -, hm⟩ := canonical_of_hash hsl.hash
  have hdig : IsDigest ev.eventHash := by
    rw [hm]
    exact D.sha256_isDigest m
  have hwri : parseChainHead (headText (formatInt ev.seq) ev.eventHash) =
      .ok (((n + 1 : ℕ) : ℤ), ev.eventHash) := by
    rw [hseq]
    exact parseChainHead_written hn hdig
  refine ⟨?_, ?_, fun hnil => absurd hnil (headText_ne_nil _ _), ⟨_, hwri⟩, fun j raw hj => ?_⟩
  · rw [getString, Audit.committed]
    dsimp only
    rw [update_self, if_neg (headText_ne_nil _ _)]
  · rw [getStream, Audit.committed]
    dsimp only
    rw [update_of_ne headKey_ne_streamKey.symm, update_self]
  · simp only [Audit.committed, update_apply] at hj
    split at hj
    · cases hj
      exact ⟨_, hwri⟩
    · exact h.cached j raw (hs.caches j _ hj)

/-- An entry without its time. -/
def StreamEntry.content (e : StreamEntry) : Bytes × Option Bytes := (e.seq, e.event)

/-- Two states that hold the same chain, the ids of the entries apart. -/
def SameChain (kp t : Bytes) (n : ℕ) (s s' : ChainState) : Prop :=
  ∃ head entries entries', InOrder kp t s n head entries ∧ InOrder kp t s' n head entries' ∧
    entries.map StreamEntry.content = entries'.map StreamEntry.content

/-- **One call of the tenant, in both runs.** -/
theorem SameChain.call {call : AppendCall} (h : SameChain kp call.event.tenantID n s s')
    (hkp : call.chainer.keyPrefix = kp) (hpl : call.Plain)
    (hn : n + 1 < 2 ^ 63) : (call.run D s).ans = (call.run D s').ans ∧
      ∃ m ≤ n + 1, SameChain kp call.event.tenantID m (call.run D s).st (call.run D s').st := by
  obtain ⟨head, entries, entries', hs, hs', hsm⟩ := h
  obtain ⟨u, now, hu, hrun⟩ := hs.run_append hkp hpl
  obtain ⟨u', now', hu', hrun'⟩ := hs'.run_append hkp hpl
  cases hpla : call.planned D head with
  | error e =>
    rw [hpla] at hrun hrun'
    rw [hrun, hrun']
    exact ⟨rfl, n, Nat.le_succ n, head, entries, entries', hs.mono hu.kept, hs'.mono hu'.kept, hsm⟩
  | ok r =>
    obtain ⟨ev, payload⟩ := r
    rw [hpla] at hrun hrun'
    rw [hrun, hrun']
    have hln : linkAfter D call.chainer call.event head = .ok (ev, payload) := by
      rw [AppendCall.planned] at hpla
      split_ifs at hpla
      exact hpla
    refine ⟨rfl, n + 1, Nat.le_refl _, _, _, _, hs.committed hu hn hln _ now,
      hs'.committed hu' hn hln _ now', ?_⟩
    rw [map_append, map_append, hsm]
    rfl

/-- **One call of another tenant.** -/
theorem AppendCall.run_kept {call : AppendCall} (hkp : call.chainer.keyPrefix = kp)
    (hne : call.event.tenantID ≠ t)
    (hapa : Apart call.event.tenantID t) (s : ChainState) : Kept kp t s (call.run D s).st := by
  have hke : ∀ cmd s', Kept kp t s s' → SentBy D call.chainer call.event cmd →
      Kept kp t s (chainSem cmd s').1 ∧ True :=
    fun cmd s' hs' hcmd => ⟨hs'.trans (SentBy.keeps hcmd hkp hne hapa s'), trivial⟩
  have hwp := Prog.wp_of_guar hke (guar_append call.chainer call.env call.event) (Kept.refl s)
  exact (Prog.wp_run hwp []).1

/-- The state after calls, one after the other. -/
def appendAll (D : Digests) : List AppendCall → ChainState → ChainState
  | [], s => s
  | call :: calls, s => appendAll D calls (call.run D s).st

/-- The answers to the calls of the tenant `t`. -/
def answersTo (D : Digests) (t : Bytes) : List AppendCall → ChainState →
    List (Except AppendError SIEMEvent)
  | [], _ => []
  | call :: calls, s =>
    (if call.event.tenantID = t then [(call.run D s).ans] else []) ++ answersTo D t calls (call.run D s).st

/-- The calls of two tenants under one prefix; those of the second are plain. -/
def OfPair (kp t₁ t₂ : Bytes) (call : AppendCall) : Prop :=
  call.chainer.keyPrefix = kp ∧ (call.event.tenantID = t₁ ∨ call.event.tenantID = t₂ ∧ call.Plain)

/-- The calls that remain when only the tenant `t` is there. -/
def callsOf (t : Bytes) (calls : List AppendCall) : List AppendCall :=
  calls.filter fun call => call.event.tenantID = t

/-- **The whole run**, with and without the other tenant. -/
theorem SameChain.run (hne : t₁ ≠ t₂) (hapa : Apart t₁ t₂) {calls : List AppendCall}
    (hcs : ∀ call ∈ calls, OfPair kp t₁ t₂ call) (h : SameChain kp t₂ n s s')
    (hn : n + calls.length < 2 ^ 63) :
    answersTo D t₂ calls s = answersTo D t₂ (callsOf t₂ calls) s' ∧
      ∃ m, SameChain kp t₂ m (appendAll D calls s) (appendAll D (callsOf t₂ calls) s') := by
  induction calls generalizing n s s' with
  | nil => exact ⟨rfl, n, h⟩
  | cons call calls ih =>
    have hrs : ∀ call' ∈ calls, OfPair kp t₁ t₂ call' := fun call' hc => hcs call' (mem_cons_of_mem _ hc)
    rw [length_cons] at hn
    obtain ⟨hkp, hten⟩ := hcs call (mem_cons_self ..)
    by_cases ht : call.event.tenantID = t₂
    · -- a call of the tenant: both runs make it
      have hpl : call.Plain := by
        rcases hten with h1 | ⟨-, hpl⟩
        · exact absurd (h1.symm.trans ht) hne
        · exact hpl
      subst ht
      obtain ⟨hans, m, hm, hnx⟩ := h.call hkp hpl (by omega)
      obtain ⟨han, k, hk⟩ := ih hrs hnx (by omega)
      have hfil : callsOf call.event.tenantID (call :: calls) =
          call :: callsOf call.event.tenantID calls :=
        filter_cons_of_pos (decide_eq_true rfl)
      refine ⟨?_, k, ?_⟩
      · rw [hfil, answersTo, answersTo, hans, han]
      · rw [hfil, appendAll]
        exact hk
    · -- a call of the other tenant: the run without it stands still
      have h1 : call.event.tenantID = t₁ := by
        rcases hten with h1 | ⟨h2, -⟩
        · exact h1
        · exact absurd h2 ht
      have hke := call.run_kept (D := D) hkp ht (by rw [h1]; exact hapa) s
      obtain ⟨head, entries, entries', hs, hs', hsm⟩ := h
      obtain ⟨han, k, hk⟩ := ih hrs ⟨head, entries, entries', hs.mono hke, hs', hsm⟩ (by omega)
      have hfil : callsOf t₂ (call :: calls) = callsOf t₂ calls :=
        filter_cons_of_neg (by rw [decide_eq_true_iff]; exact ht)
      refine ⟨?_, k, ?_⟩
      · rw [hfil, answersTo, if_neg ht]
        exact han
      · rw [hfil]
        exact hk

/-! ## Verification -/

theorem foldl_walkEntry_congr (h : entries.map content = entries'.map content) (w : Walk) :
    entries.foldl (walkEntry D decode opts) w = entries'.foldl (walkEntry D decode opts) w := by
  induction entries generalizing entries' w with
  | nil =>
    rw [map_eq_nil_iff.1 h.symm]
  | cons e entries ih =>
    cases entries' with
    | nil => cases h
    | cons e' entries' =>
      rw [map_cons, map_cons, cons.injEq] at h
      have hev : e.event = e'.event := congrArg Prod.snd h.1
      have hwl : walkEntry D decode opts w e = walkEntry D decode opts w e' := by
        rw [walkEntry, walkEntry, StreamEntry.read, StreamEntry.read, hev]
      rw [foldl_cons, hwl]
      exact ih h.2 _

/-- Over the whole stream, the ids of the entries do not matter. -/
theorem SameChain.verify (h : SameChain kp t n s s') (hwh : opts.Whole) :
    verifyChain D decode opts (storedEntries kp t s) = verifyChain D decode opts
      (storedEntries kp t s') := by
  obtain ⟨head, entries, entries', hs, hs', hsm⟩ := h
  have htk : (entries.take opts.effectiveLimit).map content =
      (entries'.take opts.effectiveLimit).map content := by rw [map_take, map_take, hsm]
  rw [storedEntries, storedEntries, hs.getEntries, hs'.getEntries,
    verifyChain_whole hwh, verifyChain_whole hwh, foldl_walkEntry_congr htk]

/-! ## Isolation -/

/-- Only `Append` calls, of any tenant, under one prefix. -/
def AppendsOnly (kp : Bytes) : ChainOp → Prop
  | .append c _ _ => c.keyPrefix = kp
  | _ => False

/-- What the tenant `t₁` cannot do to the tenant `t₂`. -/
structure Isolated (D : Digests) (kp t₁ t₂ : Bytes) : Prop where
  /-- In every interleaving, the commands of the calls for `t₁` leave the keys of `t₂`. -/
  keys : ∀ (s : ChainState) (acts : List (Action ChainOp)), World.SpawnsOnly (AppendsOnly kp) acts →
    ∀ e ∈ (chainRun D s acts).log, ∀ c env event p, (chainRun D s acts).threads[e.tid]? =
    some (.append c env event, p) →
      event.tenantID = t₁ →
      (e.post chainSem).db (headKey kp t₂) = e.pre.db (headKey kp t₂) ∧
        (e.post chainSem).db (streamKey kp t₂) = e.pre.db (streamKey kp t₂)
  /-- The calls for `t₂`, and its verification, go as if those for `t₁` were not there. -/
  asIf : ∀ (s : ChainState) (calls : List AppendCall), s.Fresh kp t₂ →
    (∀ i raw, s.caches i ≠ some (t₂, raw)) →
    (∀ call ∈ calls, OfPair kp t₁ t₂ call) → calls.length < 2 ^ 63 →
      answersTo D t₂ calls s = answersTo D t₂ (callsOf t₂ calls) s ∧
        ∀ decode opts, opts.Whole →
          verifyChain D decode opts (storedEntries kp t₂ (appendAll D calls s)) =
            verifyChain D decode opts (storedEntries kp t₂ (appendAll D (callsOf t₂ calls) s))

theorem Apart.run_keys (hapa : Apart t₁ t₂) (hne : t₁ ≠ t₂) {acts : List (Action ChainOp)}
    (hac : World.SpawnsOnly (AppendsOnly kp) acts) {e : Entry ChainCmd ChainState}
    (he : e ∈ (chainRun D s acts).log) {env : AppendEnv} {p : ChainM (Option SIEMEvent)}
    (hthr : (chainRun D s acts).threads[e.tid]? = some (.append c env event, p))
    (ht : event.tenantID = t₁) :
    Kept kp t₂ e.pre (e.post chainSem) := by
  let sends : ChainOp → ChainCmd → Prop := fun op cmd =>
    ∃ c env event, op = .append c env event ∧ c.keyPrefix = kp ∧ SentBy D c event cmd
  have hgua : World.Guarded (fun _ => True) (fun _ _ => True) sends (AppendsOnly kp)
      (chainRun D s acts) := by
    refine run_guarded (chainProg D) chainSem (fun _ _ _ _ _ _ => ⟨trivial, trivial⟩)
      (fun op hop => ?_) trivial hac
    cases op with
    | append c env event =>
      exact Prog.guar_seq (Prog.guar_weaken (guar_append c env event) (fun _ _ h => h)
        fun cmd h => ⟨c, env, event, rfl, hop, h⟩) fun _ => trivial
    | deleteKey key | otherTenant i tenant raw => exact absurd hop id
  obtain ⟨-, op, q, hop, c', env', event', rfl, hkp, hse⟩ := hgua.log e he
  rw [hthr] at hop
  cases hop
  have hke := hse.keeps hkp (by rw [ht]; exact hne) (by rw [ht]; exact hapa) e.pre
  by_cases hran : e.Ran
  · rw [e.post_of_ran hran]
    exact hke
  · rw [e.post_of_not_ran hran]
    exact .refl _

theorem sameChain_fresh (h : s.Fresh kp t) (hc : ∀ i raw, s.caches i ≠ some (t, raw)) :
    SameChain kp t 0 s s := by
  have hord : InOrder kp t s 0 [] [] := by
    refine ⟨?_, ?_, fun _ => rfl, ⟨[], rfl⟩, fun i raw hi => absurd hi (hc i raw)⟩
    · rw [getString, h.2]
      rfl
    · rw [getStream, h.1]
  exact ⟨[], [], [], hord, hord, rfl⟩

/-- One call for the tenant, and `n` turns for it. -/
def firstAppend (kp t : Bytes) (n : ℕ) : List (Action ChainOp) :=
  .spawn (.append ⟨0, kp, []⟩ .calm { SIEMEvent.zero with tenantID := t }) ::
    List.replicate n (.sched 0 .none)

theorem firstAppend_writes (ht : t ≠ []) :
    ∃ n, (chainRun D .empty (firstAppend kp t n)).st.db (headKey kp t) ≠ none ∧
      (chainRun D .empty (firstAppend kp t n)).st.db (streamKey kp t) ≠ none := by
  let call : AppendCall := ⟨⟨0, kp, []⟩, .calm, { zero with tenantID := t }⟩
  let op : ChainOp := .append call.chainer call.env call.event
  have hst : ((chainProg D op).run chainSem [] .empty).st = (call.run D .empty).st := by
    change Out.st
      (Prog.run chainSem (append D call.chainer call.env call.event >>= fun e => pure (some e)) [] _) = _
    rw [Prog.bind_eq, Prog.run_bind, AppendCall.run]
    rcases Prog.run chainSem (append D call.chainer call.env call.event) [] ChainState.empty with
      ⟨_ | _, _, _⟩
    · rfl
    · rfl
  have hrun := run_alone (chainProg D) chainSem ChainState.empty [] [] op (Nat.le_refl _)
  refine ⟨((chainProg D op).trace chainSem 0 .empty).length, ?_⟩
  have hwor : (chainRun D .empty (firstAppend kp t ((chainProg D op).trace chainSem 0 .empty).length)).st =
      (call.run D .empty).st := by
    rw [← hst]
    exact congrArg st hrun
  -- the call finds no head, and its event can be linked
  have hfr : SameChain kp call.event.tenantID 0 .empty .empty :=
    sameChain_fresh ⟨rfl, rfl⟩ (fun _ _ h => nomatch h)
  obtain ⟨head, entries, -, hord, -⟩ := hfr
  obtain ⟨s', now, -, hca⟩ := InOrder.run_append hord rfl ⟨rfl, rfl, fun _ => rfl⟩
  obtain ⟨hash, hprs⟩ := hord.parsed
  have htm : call.event.timestamp.text = some (ascii "0001-01-01T00:00:00Z") :=
      show zero.timestamp.text = _ by decide
  obtain ⟨⟨ev, payload⟩, hln⟩ := linkEvent_ok htm call.chainer ((0 : ℕ) : ℤ) hash
  have hpl : call.planned D head = .ok (ev, payload) := by
    rw [AppendCall.planned, if_neg ht, linkAfter_parsed hprs]
    exact hln
  rw [hpl] at hca
  rw [hwor, hca]
  unfold committed
  dsimp only
  rw [update_self, update_of_ne headKey_ne_streamKey.symm, update_self]
  exact ⟨nofun, nofun⟩

/-- **Tenants are isolated exactly when they are apart.** -/
theorem chains_isolated_iff (D : Digests) (kp : Bytes) {t₁ t₂ : Bytes} (ht₁ : t₁ ≠ []) (hne : t₁ ≠ t₂) :
    Isolated D kp t₁ t₂ ↔ Apart t₁ t₂ := by
  constructor
  · intro h
    obtain ⟨n, hhe, hstr⟩ := firstAppend_writes ht₁
    have hac : World.SpawnsOnly
        (fun op => AppendsOnly kp op ∧ ∃ c env event, op = .append c env event ∧ event.tenantID = t₁)
        (firstAppend kp t₁ n) := by
      intro op hop
      rcases mem_cons.1 hop with hop | hop
      · cases hop
        exact ⟨rfl, _, _, _, rfl, rfl⟩
      · cases eq_of_mem_replicate hop
    have hgua := run_guarded (chainProg D) chainSem (I := fun _ => True) (L := fun _ _ => True)
      (fun _ _ _ _ _ _ => ⟨trivial, trivial⟩) (fun op _ => Prog.guar_of_forall (fun _ => trivial))
      (s := .empty) trivial hac
    -- as far as isolation goes, the keys of the second tenant stay unused
    have hunu := chain_inv
      (P := fun s : ChainState => s.db (headKey kp t₂) = none ∧ s.db (streamKey kp t₂) = none)
      (run_init_chain (chainProg D) chainSem .empty (firstAppend kp t₁ n)) ⟨rfl, rfl⟩ (fun e he hpre => by
        obtain ⟨op, p, hthr⟩ := thread_of_mem (chainProg D) chainSem .empty (firstAppend kp t₁ n) he
        obtain ⟨c, env, event, rfl, ht⟩ := (hgua.threads _ (mem_of_getElem? hthr)).1.2
        obtain ⟨hh, hs⟩ := h.keys .empty _ (fun op hop => (hac op hop).1) e he c env event p hthr ht
        exact ⟨hh.trans hpre.1, hs.trans hpre.2⟩)
    have hkey : ∀ t, streamKey kp (chainHeadInfix ++ t) = headKey kp t := fun t => (append_assoc ..).symm
    constructor
    · rintro rfl
      rw [hkey] at hstr
      exact hstr hunu.1
    · rintro rfl
      rw [hkey] at hunu
      exact hhe hunu.2
  · intro h
    refine ⟨fun s acts hac e he c env event p hthr ht => ?_, fun s calls hfr hcac hcs hlen => ?_⟩
    · have hkp := h.run_keys hne hac he hthr ht
      exact ⟨hkp.head, hkp.stream⟩
    · obtain ⟨hans, m, hm⟩ := (sameChain_fresh hfr hcac).run hne h hcs (by omega)
      exact ⟨hans, fun decode opts hwh => hm.verify hwh⟩

/-! ### Two tenants that are apart, and two that are not -/

/-- Two tenants with unrelated names. -/
theorem chains_isolated_iff_acme :
    ascii "acme" ≠ [] ∧ ascii "acme" ≠ ascii "globex" ∧
      Isolated .fingerprints (ascii "audit:chain:") (ascii "acme") (ascii "globex") :=
  ⟨by decide, by decide, (chains_isolated_iff .fingerprints (ascii "audit:chain:") (by decide)
    (by decide)).2 (by decide)⟩

/-- A call for a tenant. -/
def callFor (tenant : Bytes) : AppendCall :=
  ⟨.standard 0, .calm, { SIEMEvent.zero with tenantID := tenant }⟩

/-- The tenant `head:acme` appends one event. From then on `acme` cannot append. -/
theorem head_tenant_blocks :
    ascii "head:acme" ≠ ascii "acme" ∧
      (answersTo .fingerprints (ascii "acme")
        [callFor (ascii "head:acme"), callFor (ascii "acme")] .empty).map
          (·.toOption.isSome) = [false] ∧
      (answersTo .fingerprints (ascii "acme") [callFor (ascii "acme")] .empty).map
        (·.toOption.isSome) = [true] := by
  decide +kernel

end Cordum.Audit
