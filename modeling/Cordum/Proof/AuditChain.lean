import Cordum.Audit.Chain
import Cordum.Conc.Stable

/-!
# The audit chain is linear

Any number of Chainers, each with its own cached head, append to one tenant's chain while the head key
is deleted from outside. Whatever head a call starts from, its script commits only when that is the
head in Redis, and then the event names the last hash and the next number; a cache that is behind
costs an attempt, nothing more. A commit whose reply is lost costs an entry: the client sends the
script again, takes its miss for that of another writer, and appends the event a second time
(`lost_reply_adds_twice`).
-/

namespace Cordum.Audit

open Conc Utf8 JsonText Decimal Prog Function List World Option

variable {env : AppendEnv} {op : ChainOp} {s s' : ChainState} {c : Chainer} {acts : List (Action ChainOp)}
  {obs a b : List (Obs ChainCmd ChainCmd.Reply)} {es : List SIEMEvent}
  {base last event : SIEMEvent} {D : Digests}
  {ok : Chainer → SIEMEvent → Prop} {kp t expected prev seq hash payload tenant : Bytes} {left i : ℕ}

/-! ## Chains in Redis -/

/-- The entry holds the event. -/
structure Stores (entry : StreamEntry) (e : SIEMEvent) : Prop where
  seq : entry.seq = formatInt e.seq
  event : ∃ payload, entry.event = some payload ∧ e.marshal = some payload

/-- The numbers, the links and the head of the tenant's events `es`, each handed to a call that `ok`
allows. -/
structure ChainOK (D : Digests) (ok : Chainer → SIEMEvent → Prop) (kp t : Bytes)
    (s : ChainState) (es : List SIEMEvent) :
    Prop where
  stream : ∃ entries, getStream s.db (streamKey kp t) = .ok entries ∧ List.Forall₂ Stores entries es
  numbered : ∀ (i : ℕ) (hi : i < es.length), es[i].seq = i + 1
  linked : HashChain.Linked SIEMEvent.prevHash SIEMEvent.eventHash [] es
  sealed : ∀ e ∈ es, ∃ c base payload, ok c base ∧ base.tenantID = t ∧ Sealed D c base e payload
  head : getString s.db (headKey kp t) = .ok none ∨
    ∃ last, es.getLast? = some last ∧ getString s.db (headKey kp t) =
    .ok (some (headText (formatInt last.seq) last.eventHash))

theorem headKey_ne_streamKey : headKey kp t ≠ streamKey kp t := by
  intro h
  have hlen := congrArg length h
  have hfv : chainHeadInfix.length = 5 := by decide
  rw [headKey, streamKey, length_append, length_append, length_append] at hlen
  omega

theorem ChainOK.congr (h : ChainOK D ok kp t s es) (hs : s'.db (streamKey kp t) = s.db (streamKey kp t))
    (hh : s'.db (headKey kp t) = s.db (headKey kp t)) : ChainOK D ok kp t s' es := by
  have hstr : getStream s'.db (streamKey kp t) = getStream s.db (streamKey kp t) := by
    rw [getStream, getStream, hs]
  have hhe : getString s'.db (headKey kp t) = getString s.db (headKey kp t) := by
    rw [getString, getString, hh]
  exact { h with
    stream := by rw [hstr]; exact h.stream
    head := by rw [hhe]; exact h.head }

theorem ChainOK.last_seq (h : ChainOK D ok kp t s es) (hl : es.getLast? = some last) :
    last.seq = es.length := by
  have hne : es ≠ [] := by rintro rfl; cases hl
  have hpos := length_pos_iff.2 hne
  rw [getLast?_eq_getElem?, getElem?_eq_getElem (by omega), some.injEq] at hl
  have hnum := h.numbered (es.length - 1) (by omega)
  rw [hl] at hnum
  omega

/-- The arguments of a script that brings `e`. -/
structure Brings (D : Digests) (ok : Chainer → SIEMEvent → Prop)
    (t expected seq hash payload : Bytes) (e : SIEMEvent) :
    Prop where
  sealed : ∃ c base, ok c base ∧ base.tenantID = t ∧ Sealed D c base e payload
  after : ∃ n, parseChainHead expected = .ok (n, e.prevHash) ∧ e.seq = n + 1
  seq : seq = formatInt e.seq
  hash : hash = e.eventHash

/-! ## The script -/

theorem chainAppendScript_cases (db : Bytes → Option RedisValue)
    (hk sk expected seq hash payload : Bytes) (now : ℕ) :
    ((chainAppendScript db hk sk expected seq hash payload now).1 = db ∧
      (chainAppendScript db hk sk expected seq hash payload now).2 ≠ .ok true) ∨
    ∃ head entries, getString db hk = .ok head ∧ head.getD [] = expected ∧ getStream db sk = .ok entries ∧
      (expected = [] → entries = []) ∧ chainAppendScript db hk sk expected seq hash payload now =
        (Function.update (Function.update db sk
          (some (.stream (entries ++ [⟨nextID now entries, seq, some payload⟩])))) hk
          (some (.str (headText seq hash))), .ok true) := by
  unfold chainAppendScript
  cases hhe : getString db hk with
  | error e => exact .inl ⟨rfl, nofun⟩
  | ok head =>
    dsimp only
    by_cases hexp : head.getD [] = expected
    · rw [if_neg (not_not.2 hexp)]
      cases hstr : getStream db sk with
      | error e => exact .inl ⟨rfl, nofun⟩
      | ok entries =>
        dsimp only
        split
        · exact .inl ⟨rfl, by simp⟩
        next hgua =>
        refine .inr ⟨head, entries, rfl, hexp, rfl, fun hnil => ?_, rfl⟩
        by_contra hne
        exact hgua ⟨hnil, fun hlen => hne (length_eq_zero_iff.1 hlen)⟩
    · rw [if_pos hexp]
      exact .inl ⟨rfl, by simp⟩

theorem ChainOK.next (h : ChainOK D ok kp t s es) {head : Option Bytes} {entries : List StreamEntry}
    (hhe : getString s.db (headKey kp t) = .ok head) (hexp : head.getD [] = expected)
    (hstr : getStream s.db (streamKey kp t) = .ok entries) (hemp : expected = [] → entries = []) {n : ℤ}
    (hprs : parseChainHead expected = .ok (n, prev)) :
    n = es.length ∧ prev = HashChain.tip SIEMEvent.eventHash [] es := by
  rcases h.head with hno | ⟨last, hls, hso⟩
  · -- no head: the script has seen that the stream is empty
    rw [hhe] at hno
    cases hno
    have hnil : expected = [] := hexp.symm
    obtain ⟨entries', hes', hall⟩ := h.stream
    rw [hstr] at hes'
    cases hes'
    rw [hemp hnil] at hall
    cases hall
    subst hnil
    cases hprs
    exact ⟨rfl, rfl⟩
  · rw [hhe] at hso
    cases hso
    have hseq := h.last_seq hls
    have hexp' : expected = headText (formatInt last.seq) last.eventHash := hexp.symm
    rw [hexp'] at hprs
    cases parseChainHead_headText (by omega) hprs
    refine ⟨hseq, ?_⟩
    rw [HashChain.tip, hls]
    rfl

/-- **The step**: a script call leaves the chain alone, or adds the event it brings. -/
theorem ChainOK.script (h : ChainOK D ok kp t s es) {e : SIEMEvent}
    (he : Brings D ok t expected seq hash payload e) (now : ℕ) :
    let out := chainAppendScript s.db (headKey kp t) (streamKey kp t) expected seq hash payload now
    (out.2 ≠ .ok true ∧ ChainOK D ok kp t { s with db := out.1 } es) ∨
      (out.2 = .ok true ∧ ChainOK D ok kp t { s with db := out.1 } (es ++ [e])) := by
  rcases chainAppendScript_cases s.db (headKey kp t) (streamKey kp t) expected seq hash payload now with
    ⟨hdb, hrep⟩ | ⟨head, entries, hhe, hexp, hstr, hemp, hout⟩
  · exact .inl ⟨hrep, h.congr (by rw [hdb]) (by rw [hdb])⟩
  obtain ⟨n, hprs, hseq⟩ := he.after
  obtain ⟨hn, hpv⟩ := h.next hhe hexp hstr hemp hprs
  obtain ⟨entries', hes', hall⟩ := h.stream
  rw [hstr] at hes'
  cases hes'
  obtain ⟨c, base, hok, hten, hsl⟩ := he.sealed
  rw [hout]
  refine .inr ⟨rfl, ⟨?_, ?_, ?_, ?_, ?_⟩⟩
  · refine ⟨entries ++ [⟨nextID now entries, seq, some payload⟩], ?_, ?_⟩
    · rw [getStream]
      dsimp only
      rw [update_of_ne headKey_ne_streamKey.symm, update_self]
    · exact rel_append hall (.cons ⟨he.seq, payload, rfl, hsl.payload⟩ .nil)
  · intro i hi
    rw [length_append, length_singleton] at hi
    rcases Nat.lt_or_ge i es.length with hlt | hge
    · rw [getElem_append_left hlt]
      exact h.numbered i hlt
    have hi' : i = es.length := by omega
    subst hi'
    rw [getElem_append_right (Nat.le_refl _)]
    simp only [getElem_singleton]
    rw [hseq, hn]
  · exact h.linked.snoc hpv
  · intro d hd
    rcases mem_append.1 hd with hd | hd
    · exact h.sealed d hd
    · rw [mem_singleton.1 hd]
      exact ⟨c, base, payload, hok, hten, hsl⟩
  · refine .inr ⟨e, by simp, ?_⟩
    rw [getString]
    dsimp only
    rw [update_self, ← he.seq, ← he.hash]

/-! ## Every interleaving -/

/-- The calls around the chain of tenant `t`: its appends, deletions of its head, and other uses of
the Chainers. -/
def AroundTenant (ok : Chainer → SIEMEvent → Prop) (kp t : Bytes) : ChainOp → Prop
  | .append c _ event => c.keyPrefix = kp ∧ event.tenantID = t ∧ ok c event
  | .deleteKey key => key = headKey kp t
  | .otherTenant _ tenant _ => tenant ≠ t

/-- What the calls guarantee of the commands they send. -/
def ChainGuar (D : Digests) (ok : Chainer → SIEMEvent → Prop) (kp t : Bytes)
    (_ : ChainOp) : ChainCmd → Prop
  | .runAppendScript hk sk expected seq hash payload _ =>
    hk = headKey kp t ∧ sk = streamKey kp t ∧ ∃ e, Brings D ok t expected seq hash payload e
  | .del key => key = headKey kp t
  | _ => True

/-- The chain is one of some events. -/
def Intact (D : Digests) (ok : Chainer → SIEMEvent → Prop) (kp t : Bytes) (s : ChainState) : Prop :=
  ∃ es, ChainOK D ok kp t s es

theorem intact_sem {c : ChainCmd} (hs : Intact D ok kp t s) (hc : ChainGuar D ok kp t op c) :
    Intact D ok kp t (chainSem c s).1 := by
  obtain ⟨es, h⟩ := hs
  cases c with
  | cachedHead c tenant => exact ⟨es, h⟩
  | storeCachedHead c tenant raw => exact ⟨es, h.congr rfl rfl⟩
  | invalidateCachedHead c tenant raw =>
    simp only [chainSem]
    split
    · exact ⟨es, h.congr rfl rfl⟩
    · exact ⟨es, h⟩
  | get key => exact ⟨es, h⟩
  | runAppendScript hk sk expected seq hash payload now =>
    obtain ⟨rfl, rfl, e, he⟩ := hc
    rcases h.script he now with ⟨-, hsm⟩ | ⟨-, hmr⟩
    · exact ⟨es, hsm⟩
    · exact ⟨es ++ [e], hmr⟩
  | del key =>
    obtain rfl : key = headKey kp t := hc
    refine ⟨es, ?_⟩
    have hstr : getStream (chainSem (.del (headKey kp t)) s).1.db (streamKey kp t) =
        getStream s.db (streamKey kp t) := by
      simp only [chainSem, getStream]
      rw [update_of_ne headKey_ne_streamKey.symm]
    have hhe : getString (chainSem (.del (headKey kp t)) s).1.db (headKey kp t) = .ok none := by
      simp only [chainSem, getString]
      rw [update_self]
    exact { h with
      stream := by rw [hstr]; exact h.stream
      head := .inl hhe }

/-- The commands that an `Append` of `base` by the Chainer `c` sends. -/
def SentBy (D : Digests) (c : Chainer) (base : SIEMEvent) : ChainCmd → Prop
  | .cachedHead i tenant | .storeCachedHead i tenant _ | .invalidateCachedHead i tenant _ =>
    i = c.id ∧ tenant = base.tenantID
  | .get key => key = headKey c.keyPrefix base.tenantID
  | .runAppendScript hk sk expected seq hash payload _ =>
    hk = headKey c.keyPrefix base.tenantID ∧ sk = streamKey c.keyPrefix base.tenantID ∧
      ∃ e, Brings D (fun c' base' => c' = c ∧ base' = base) base.tenantID expected seq hash payload e
  | .del _ => False

theorem guar_readHead {guar : ChainCmd → Prop} (hcac : guar (.cachedHead c.id tenant))
    (hget : guar (.get (headKey c.keyPrefix tenant))) :
    (readHead c tenant).Guar (fun _ _ => True) guar fun _ => True := by
  refine guar_seq (guar_cmd hcac trivial fun _ _ => trivial) fun cached => ?_
  rcases cached with _ | _ | raw
  case some.some => trivial
  all_goals
    refine guar_seq (guar_mono (guar_resend hget) fun _ _ => trivial) fun reply => ?_
    rcases reply with _ | _ | raw
    all_goals trivial

/-- The loop only ever brings its own event, linked to the head it took. -/
theorem guar_appendLoop (event : SIEMEvent) (hev : event.body = base.body) :
    (appendLoop D c env left event).Guar (fun _ _ => True) (SentBy D c base) fun _ => True := by
  induction left generalizing event with
  | zero => trivial
  | succ left ih =>
    have ht : event.tenantID = base.tenantID := by rw [← tenantID_body, hev, tenantID_body]
    rw [appendLoop]
    split
    · trivial
    refine guar_seq (guar_readHead ⟨rfl, ht⟩ (congrArg (headKey c.keyPrefix) ht)) fun rawHead => ?_
    split
    · trivial
    next headSeq headHash hprs =>
    split
    · trivial
    next e payload hln =>
    obtain ⟨hsl, hseq, hpv⟩ := linkEvent_sealed hln
    have hbs : Sealed D c base e payload := { hsl with body := hsl.body.trans hev }
    have hten : e.tenantID = base.tenantID := hbs.tenantID
    have hbri : Brings D (fun c' base' => c' = c ∧ base' = base) base.tenantID rawHead (formatInt e.seq)
        e.eventHash payload e :=
      ⟨⟨c, base, ⟨rfl, rfl⟩, rfl, hbs⟩, ⟨headSeq, by rw [hprs, hpv], hseq⟩, rfl, rfl⟩
    refine guar_seq (guar_mono (guar_resend ?_) fun _ _ => trivial) fun reply => ?_
    · exact ⟨by rw [hten], by rw [hten], e, hbri⟩
    · rcases reply with _ | _ | _
      · trivial
      · refine guar_seq (guar_cmd ⟨rfl, hten⟩ trivial fun _ _ => trivial) fun _ => ?_
        split
        · trivial
        · exact ih e.body hbs.body
      · exact guar_seq (guar_cmd ⟨rfl, hten⟩ trivial fun _ _ => trivial) fun _ => trivial

theorem guar_append (c : Chainer) (env : AppendEnv) (event : SIEMEvent) :
    (append D c env event).Guar (fun _ _ => True) (SentBy D c event) fun _ => True := by
  rw [append]
  split
  · trivial
  · exact guar_appendLoop event rfl

theorem SentBy.chainGuar (hkp : c.keyPrefix = kp) (ht : base.tenantID = t)
    (hok : ok c base) (cmd : ChainCmd) (h : SentBy D c base cmd) : ChainGuar D ok kp t op cmd := by
  subst hkp ht
  cases cmd with
  | runAppendScript hk sk expected seq hash payload now =>
    obtain ⟨hhk, hsk, e, he⟩ := h
    obtain ⟨c', base', ⟨rfl, rfl⟩, hten, hsl⟩ := he.sealed
    exact ⟨hhk, hsk, e, { he with sealed := ⟨c', base', hok, hten, hsl⟩ }⟩
  | _ => trivial

theorem guar_chainProg (h : AroundTenant ok kp t op) :
    (chainProg D op).Guar (fun _ _ => True) (ChainGuar D ok kp t op) fun _ => True := by
  cases op with
  | append c env event =>
    exact guar_seq
      (guar_weaken (guar_append c env event) (fun _ _ h => h) (SentBy.chainGuar h.1 h.2.1 h.2.2))
      fun _ => trivial
  | deleteKey key => exact guar_seq (guar_cmd h trivial fun _ _ => trivial) fun _ => trivial
  | otherTenant c tenant raw =>
    exact guar_seq (guar_cmd trivial trivial fun _ _ => trivial) fun _ => trivial

/-- The calls of Chainers over one Redis. -/
abbrev ChainWorld := World ChainOp ChainCmd ChainCmd.Reply AppendError (Option SIEMEvent) ChainState

/-- A run of calls around the chains, from the state `s`. -/
abbrev chainRun (D : Digests) (s : ChainState) (acts : List (Action ChainOp)) : ChainWorld :=
  World.run (chainProg D) chainSem (World.init s) acts

/-- The tenant has no keys yet. -/
def ChainState.Fresh (s : ChainState) (kp t : Bytes) : Prop :=
  s.db (streamKey kp t) = none ∧ s.db (headKey kp t) = none

theorem chainOK_fresh (h : s.Fresh kp t) : ChainOK D ok kp t s [] := by
  refine ⟨⟨[], ?_, .nil⟩, fun i hi => absurd hi (Nat.not_lt_zero i), trivial, nofun, .inl ?_⟩
  · rw [getStream, h.1]
  · rw [getString, h.2]

theorem run_guarded_chain (hs : s.Fresh kp t) (hac : World.SpawnsOnly (AroundTenant ok kp t) acts) :
    World.Guarded (Intact D ok kp t) (fun _ _ => True) (ChainGuar D ok kp t)
      (AroundTenant ok kp t) (chainRun D s acts) :=
  run_guarded (chainProg D) chainSem (fun _ _ _ _ hI hc => ⟨intact_sem hI hc, trivial⟩)
    (fun _ hop => guar_chainProg hop) ⟨[], chainOK_fresh hs⟩ hac

/-- **In every interleaving the chain is intact.** -/
theorem run_chainOK (hs : s.Fresh kp t) (hac : World.SpawnsOnly (AroundTenant ok kp t) acts) :
    ∃ es, ChainOK D ok kp t (chainRun D s acts).st es :=
  (run_guarded_chain hs hac).inv

/-! ## What a call added -/

/-- What the call saw is a script that committed. -/
def isCommit : Obs ChainCmd ChainCmd.Reply → Bool
  | ⟨.runAppendScript _ _ _ _ _ _ _, some (.ok true)⟩ => true
  | _ => false

theorem isCommit_script {hk sk : Bytes} {now : ℕ} {reply : Except WrongType Bool} :
    isCommit ⟨.runAppendScript hk sk expected seq hash payload now, some reply⟩ ↔ reply = .ok true := by
  rcases reply with _ | _ | _ <;> simp [isCommit]

theorem not_isCommit_none {cmd : ChainCmd} : ¬ isCommit ⟨cmd, none⟩ := by
  cases cmd <;> nofun

/-- How many commits the call saw. -/
def commits (obs : List (Obs ChainCmd ChainCmd.Reply)) : ℕ := obs.countP isCommit

theorem commits_append : commits (a ++ b) = commits a + commits b := countP_append

theorem commits_unanswered {cmd : ChainCmd} {k : ℕ} : commits (replicate k ⟨cmd, none⟩) = 0 := by
  refine countP_eq_zero.2 fun o ho => ?_
  rw [eq_of_mem_replicate ho]
  exact not_isCommit_none

theorem commits_readHead {r : Except AppendError Bytes} (h : (readHead c tenant).Path obs r) :
    commits obs = 0 := by
  have hgr : (readHead c tenant).Guar (fun _ _ => True) (fun cmd => ∀ reply, ¬ isCommit ⟨cmd, reply⟩)
      fun _ => True := guar_readHead (fun _ => nofun) fun _ => nofun
  exact countP_eq_zero.2 fun o ho => path_guar hgr h o ho o.reply

/-- **A call sees one commit, or fails**: the loop ends right after it. -/
theorem commits_appendLoop (event : SIEMEvent) {r : Except AppendError SIEMEvent}
    (h : (appendLoop D c env left event).Path obs r) : commits obs = if r.isOk then 1 else 0 := by
  induction left generalizing event obs with
  | zero =>
    obtain ⟨rfl, rfl⟩ := h
    rfl
  | succ left ih =>
    rw [appendLoop] at h
    split at h
    · obtain ⟨rfl, rfl⟩ := h
      rfl
    rcases path_bind.1 h with ⟨o1, o2, rawHead, rfl, hhe, hbd⟩ | ⟨e, rfl, hhe⟩
    · rw [commits_append, commits_readHead hhe, Nat.zero_add]
      split at hbd
      · obtain ⟨rfl, rfl⟩ := hbd
        rfl
      split at hbd
      · obtain ⟨rfl, rfl⟩ := hbd
        rfl
      rcases path_bind.1 hbd with ⟨o3, o4, reply, rfl, hscr, hend⟩ | ⟨e, rfl, hscr⟩
      · obtain ⟨k, ⟨x, rfl, hx⟩ | ⟨-, hx⟩⟩ := path_resend hscr
        · cases hx
          rw [commits_append, commits_append, commits_unanswered, Nat.zero_add]
          rcases reply with _ | _ | _
          · obtain ⟨rfl, rfl⟩ := hend
            rfl
          · -- a miss: what counts is the rest of the loop
            obtain ⟨o, rest, rfl, hend⟩ := hend
            have hrs : commits rest = if r.isOk then 1 else 0 := by
              split at hend
              · obtain ⟨rfl, rfl⟩ := hend
                rfl
              · exact ih _ hend
            rw [← hrs]
            exact (Nat.zero_add _).trans (countP_cons_of_neg nofun)
          · obtain ⟨o, rest, rfl, hend⟩ := hend
            obtain ⟨rfl, rfl⟩ := hend
            rfl
        · cases hx
      · obtain ⟨k, ⟨x, -, hx⟩ | ⟨rfl, -⟩⟩ := path_resend hscr
        · cases hx
        · exact commits_unanswered
    · exact commits_readHead hhe

theorem commits_chainProg {r : Except AppendError (Option SIEMEvent)}
    (h : (chainProg D (.append c env event)).Path obs r) : commits obs = if r.isOk then 1 else 0 := by
  have hca : ∀ {obs r}, (append D c env event).Path obs r → commits obs = if r.isOk then 1 else 0 := by
    intro obs r hp
    rw [append] at hp
    split at hp
    · obtain ⟨rfl, rfl⟩ := hp
      rfl
    · exact commits_appendLoop event hp
  rcases path_bind.1 h with ⟨o1, o2, e, rfl, h1, h2⟩ | ⟨e, rfl, he⟩
  · obtain ⟨rfl, rfl⟩ := h2
    rw [append_nil]
    exact hca h1
  · exact hca he

/-- How long the tenant's stream is. -/
def streamLen (kp t : Bytes) (s : ChainState) : ℕ :=
  match getStream s.db (streamKey kp t) with
  | .ok entries => entries.length
  | .error _ => 0

/-- The command made the stream one longer. -/
def Adds (kp t : Bytes) (e : Entry ChainCmd ChainState) : Prop :=
  streamLen kp t (e.post chainSem) = streamLen kp t e.pre + 1

instance (e : Entry ChainCmd ChainState) : Decidable (Adds kp t e) := inferInstanceAs (Decidable (_ = _))

/-- How many entries call `i` added to the tenant's stream. -/
def added (kp t : Bytes) (i : ℕ) (log : List (Entry ChainCmd ChainState)) : ℕ :=
  (log.filter fun e => e.tid = i).countP fun e => Adds kp t e

theorem ChainOK.streamLen_eq (h : ChainOK D ok kp t s es) : streamLen kp t s = es.length := by
  obtain ⟨entries, hes, hall⟩ := h.stream
  rw [streamLen, hes]
  exact hall.length_eq

theorem streamLen_sem {c : ChainCmd} (hs : Intact D ok kp t s) (hc : ChainGuar D ok kp t op c) :
    streamLen kp t (chainSem c s).1 = streamLen kp t s + if isCommit ⟨c, some (chainSem c s).2⟩
      then 1 else 0 := by
  obtain ⟨es, h⟩ := hs
  cases c with
  | cachedHead c tenant | storeCachedHead c tenant raw => rfl
  | invalidateCachedHead c tenant raw =>
    simp only [chainSem]
    split <;> rfl
  | get key => rfl
  | runAppendScript hk sk expected seq hash payload now =>
    obtain ⟨rfl, rfl, e, he⟩ := hc
    have hlen := h.streamLen_eq
    set script := ChainCmd.runAppendScript (headKey kp t) (streamKey kp t) expected seq hash payload now
    have hcm : isCommit ⟨script, some (chainSem script s).2⟩ ↔ (chainSem script s).2 = .ok true :=
      isCommit_script
    rcases h.script he now with ⟨hrep, hsm⟩ | ⟨hrep, hmr⟩
    · rw [if_neg (mt hcm.1 hrep), hlen]
      exact hsm.streamLen_eq
    · rw [if_pos (hcm.2 hrep), hlen]
      exact hmr.streamLen_eq.trans (by rw [length_append, length_singleton])
  | del key =>
    obtain rfl : key = headKey kp t := hc
    simp only [chainSem, streamLen, getStream]
    rw [update_of_ne headKey_ne_streamKey.symm]
    rfl

/-- A script committed, and its reply was lost. -/
def LostCommit (e : Entry ChainCmd ChainState) : Prop :=
  e.fault = .late ∧ isCommit ⟨e.cmd, some (chainSem e.cmd e.pre).2⟩

instance (e : Entry ChainCmd ChainState) : Decidable (LostCommit e) := inferInstanceAs (Decidable (_ ∧ _))

/-- The stream grows by the commits that a call sees, and by those it does not. -/
theorem adds_eq {e : Entry ChainCmd ChainState} (hs : Intact D ok kp t e.pre)
    (hc : ChainGuar D ok kp t op e.cmd) :
    (if Adds kp t e then 1 else 0) = (if isCommit (e.obs chainSem) then 1 else 0) + if LostCommit e
      then 1 else 0 := by
  obtain ⟨tid, pre, cmd, fault⟩ := e
  have hlen : streamLen kp t (chainSem cmd pre).1 = _ := streamLen_sem hs hc
  cases fault with
  | none =>
    have hno : ¬ LostCommit ⟨tid, pre, cmd, .none⟩ := fun h => nomatch h.1
    change (if streamLen kp t (chainSem cmd pre).1 = streamLen kp t pre + 1 then 1 else 0) =
      (if isCommit ⟨cmd, some (chainSem cmd pre).2⟩ then 1 else 0) + _
    rw [hlen, if_neg hno]
    split <;> simp
  | lost =>
    have hno : ¬ LostCommit ⟨tid, pre, cmd, .lost⟩ := fun h => nomatch h.1
    have hsm : ¬ Adds kp t ⟨tid, pre, cmd, .lost⟩ :=
      fun h : streamLen kp t pre = streamLen kp t pre + 1 => by omega
    have hun : ¬ isCommit (Entry.obs chainSem ⟨tid, pre, cmd, .lost⟩) := not_isCommit_none
    rw [if_neg hno, if_neg hsm, if_neg hun]
  | late =>
    have hun : ¬ isCommit (Entry.obs chainSem ⟨tid, pre, cmd, .late⟩) := not_isCommit_none
    rw [if_neg hun, Nat.zero_add]
    refine if_congr ?_ rfl rfl
    change streamLen kp t (chainSem cmd pre).1 = streamLen kp t pre + 1 ↔ _
    rw [hlen]
    by_cases hcm : isCommit ⟨cmd, some (chainSem cmd pre).2⟩
    · rw [if_pos hcm]
      exact iff_of_true rfl ⟨rfl, hcm⟩
    · rw [if_neg hcm]
      exact iff_of_false (by omega) fun h => hcm h.2

theorem added_eq (hs : s.Fresh kp t) (hac : World.SpawnsOnly (AroundTenant ok kp t) acts) :
    added kp t i (chainRun D s acts).log = commits (seen chainSem i (chainRun D s acts).log) +
      ((chainRun D s acts).log.filter fun e => e.tid = i).countP fun e => LostCommit e := by
  have hgrd := (run_guarded_chain (D := D) hs hac).log
  rw [added, commits, seen, countP_map]
  have hsub : ∀ e ∈ (chainRun D s acts).log.filter (fun e => e.tid = i), e ∈ (chainRun D s acts).log :=
    fun e he => mem_of_mem_filter he
  generalize (chainRun D s acts).log.filter (fun e => e.tid = i) = own at hsub
  induction own with
  | nil => rfl
  | cons e own ih =>
    obtain ⟨hpre, op, p, -, hg⟩ := hgrd e (hsub e mem_cons_self)
    have hadd := adds_eq hpre hg
    rw [countP_cons, countP_cons, countP_cons, ih fun x hx => hsub x (mem_cons_of_mem _ hx)]
    simp only [comp_apply, decide_eq_true_eq]
    omega

/-- No script of call `i` committed without its reply coming back. -/
def NoLostCommit (i : ℕ) (log : List (Entry ChainCmd ChainState)) : Prop :=
  ∀ e ∈ log, e.tid = i → ¬ LostCommit e

theorem countP_lostCommit_eq_zero {log : List (Entry ChainCmd ChainState)} :
    ((log.filter fun e => e.tid = i).countP fun e => LostCommit e) = 0 ↔ NoLostCommit i log := by
  simp [countP_eq_zero, NoLostCommit]

/-- Any calls around the chain of one tenant. -/
abbrev OneTenant (kp t : Bytes) : ChainOp → Prop := AroundTenant (fun _ _ => True) kp t

/-- What the tenant's keys hold when the chain is linear: `es` with the numbers 1, 2, and so on, each
naming the hash of the one before it, and the head, when there is one, of the last. -/
structure Linear (kp t : Bytes) (s : ChainState) (es : List SIEMEvent) : Prop where
  stream : ∃ entries, getStream s.db (streamKey kp t) = .ok entries ∧ List.Forall₂ Stores entries es
  numbered : ∀ (i : ℕ) (hi : i < es.length), es[i].seq = i + 1
  first : ∀ h : 0 < es.length, es[0].prevHash = []
  next : ∀ (i : ℕ) (hi : i + 1 < es.length), es[i + 1].prevHash = es[i].eventHash
  head : ∀ raw, getString s.db (headKey kp t) = .ok (some raw) →
    ∃ h : 0 < es.length, raw = headText (formatInt es.length) es[es.length - 1].eventHash

theorem ChainOK.linear (h : ChainOK D ok kp t s es) : Linear kp t s es := by
  refine ⟨h.stream, h.numbered, h.linked.prev_zero, fun i hi => h.linked.prev_getElem hi,
    fun raw hraw => ?_⟩
  rcases h.head with hno | ⟨last, hls, hso⟩
  · rw [hraw] at hno; cases hno
  rw [hraw] at hso
  cases hso
  have hseq := h.last_seq hls
  have hpos : 0 < es.length := length_pos_iff.2 (by rintro rfl; cases hls)
  rw [getLast?_eq_getElem?, getElem?_eq_getElem (by omega), some.injEq] at hls
  exact ⟨hpos, by rw [hseq, hls]⟩

/-- **The audit chain stays linear, and a call adds its one entry exactly when no commit of its own
goes unanswered**, in every interleaving of `Append` calls of any number of Chainers for one tenant,
with deletions of the head, lost commands and lost replies. -/
theorem audit_chain_linear (D : Digests) {kp t : Bytes} {s : ChainState} (hs : s.Fresh kp t)
    {acts : List (Action ChainOp)} (hacts : World.SpawnsOnly (OneTenant kp t) acts) :
    (∃ es, Linear kp t (chainRun D s acts).st es) ∧
      ∀ i c env event r, (chainRun D s acts).threads[i]? = some (.append c env event, Prog.ofResult r) →
        (∀ e, r = .ok e →
          (added kp t i (chainRun D s acts).log = 1 ↔ NoLostCommit i (chainRun D s acts).log)) ∧
        (∀ err, r = .error err →
          (added kp t i (chainRun D s acts).log = 0 ↔ NoLostCommit i (chainRun D s acts).log)) := by
  obtain ⟨es, hes⟩ := run_chainOK hs hacts
  refine ⟨⟨es, hes.linear⟩, fun i c env event r hi => ?_⟩
  have hcm := commits_chainProg (path_of_finished (chainProg D) chainSem s acts hi)
  rw [added_eq hs hacts, hcm, ← countP_lostCommit_eq_zero]
  constructor
  · rintro e rfl
    exact Nat.add_eq_left
  · rintro err rfl
    rw [if_neg nofun, Nat.zero_add]

/-! ### Two Chainers -/

/-- Nothing stored or cached. -/
def ChainState.empty : ChainState := ⟨fun _ => none, fun _ => none⟩

/-- No context ends. -/
def AppendEnv.calm : AppendEnv := ⟨fun _ => false, fun _ => false, fun _ => 0⟩

/-- A Chainer with a key. -/
def Chainer.standard (id : ℕ) : Chainer := ⟨id, ascii "audit:chain:", ascii "key"⟩

/-- An event of the tenant `acme`. -/
def acmeEvent (action : Bytes) : SIEMEvent :=
  { SIEMEvent.zero with tenantID := ascii "acme", action := action }

/-- Two calls read the empty head; the second commits, the first tries again. Then the head is
deleted. -/
def contendedActs : List (Action ChainOp) :=
  [.spawn (.append (.standard 0) .calm (acmeEvent (ascii "deploy"))),
    .spawn (.append (.standard 1) .calm (acmeEvent (ascii "login"))),
    .spawn (.deleteKey (headKey (ascii "audit:chain:") (ascii "acme")))] ++
  List.replicate 2 (.sched 0 .none) ++ List.replicate 4 (.sched 1 .none) ++
    List.replicate 6 (.sched 0 .none) ++ [.sched 2 .none]

theorem contendedActs_oneTenant :
    World.SpawnsOnly (OneTenant (ascii "audit:chain:") (ascii "acme")) contendedActs := by
  intro op hop
  simp only [contendedActs, mem_append, mem_replicate, mem_cons, not_mem_nil, or_false, reduceCtorEq,
    and_false, Action.spawn.injEq] at hop
  rcases hop with rfl | rfl | rfl
  · exact ⟨rfl, rfl, trivial⟩
  · exact ⟨rfl, rfl, trivial⟩
  · rfl

/-- Both events are in the chain. -/
theorem audit_chain_linear_contended :
    streamLen (ascii "audit:chain:") (ascii "acme") (chainRun .fingerprints .empty contendedActs).st = 2 ∧
      ∃ es, Linear (ascii "audit:chain:") (ascii "acme")
        (chainRun .fingerprints .empty contendedActs).st es :=
  ⟨by decide +kernel, (audit_chain_linear .fingerprints ⟨rfl, rfl⟩ contendedActs_oneTenant).1⟩

/-- A script commits and its reply is lost: sent again it misses, and the call commits once more. -/
def resentActs : List (Action ChainOp) :=
  [.spawn (.append (.standard 0) .calm (acmeEvent (ascii "deploy"))), .sched 0 .none,
    .sched 0 .none, .sched 0 .late] ++
  List.replicate 6 (.sched 0 .none)

/-- **One successful call, two entries.** -/
theorem lost_reply_adds_twice :
    ((chainRun .fingerprints .empty resentActs).threads[0]?.map fun call => call.2 matches .ret _) =
      some true ∧ added (ascii "audit:chain:") (ascii "acme") 0
        (chainRun .fingerprints .empty resentActs).log = 2 := by
  decide +kernel

end Cordum.Audit
