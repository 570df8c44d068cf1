import Cordum.Proof.AuditTamper

/-!
# Honest chains verify

A chain that only `Append` has written is read back. The hash of an event is recomputed over its
scrubbed form, whose canonical bytes are those that were hashed exactly when its strings are valid
UTF-8 and its timestamp has no offset or one of a minute at least.

* `honest_chain_verifies_iff`: the whole stream.
-/

namespace Cordum.Audit

open Conc Utf8 JsonText Decimal List Nat

variable {es rest evs : List SIEMEvent} {entries : List StreamEntry} {e e' : SIEMEvent}
  {opts : VerifyOptions} {D : Digests} {kp t key m : Bytes} {decode : Bytes → Option SIEMEvent}

/-- The event's own strings are valid UTF-8, and its zone is kept by its text. -/
def Steady (e : SIEMEvent) : Prop := ValidText e.body ∧ e.timestamp.ZoneKept

theorem Steady.of_body (h : e.body = e'.body) : Steady e ↔ Steady e' := by
  have htm : e.body.timestamp = e'.body.timestamp := by rw [h]
  rw [Steady, h]
  exact and_congr_right fun _ => by rw [show e.timestamp = e'.timestamp from htm]

theorem validText_cleared_iff (h : Valid e.prevHash) : ValidText e.cleared ↔ ValidText e.body := by
  have hoth : ∀ f : TextField, f = .prevHash ∨ e.cleared.get f = e.body.get f := by
    intro f
    cases f <;> first | exact .inl rfl | exact .inr rfl
  constructor
  · intro hv
    refine ⟨fun f => ?_, hv.riskTags, hv.capabilities, hv.extra⟩
    rcases hoth f with rfl | hf
    · exact valid_nil
    · rw [← hf]
      exact hv.text f
  · intro hv
    refine ⟨fun f => ?_, hv.riskTags, hv.capabilities, hv.extra⟩
    rcases hoth f with rfl | hf
    · exact h
    · rw [hf]
      exact hv.text f

/-- The canonical bytes of what is read back. -/
theorem canonical_scrub_iff (hm : e.canonical = some m) (hpv : Valid e.prevHash) :
    ∃ m', e.scrub.canonical = some m' ∧ (m' = m ↔ Steady e) := by
  obtain ⟨m', hm', hiff⟩ := marshal_scrub_iff hm
  refine ⟨m', hm', hiff.trans ?_⟩
  rw [validText_cleared_iff hpv]
  rfl

/-- A chain as `Append` builds it, signed when there is a key. -/
structure HonestChain (D : Digests) (key : Bytes) (es : List SIEMEvent) : Prop where
  linked : HashChain.Linked SIEMEvent.prevHash SIEMEvent.eventHash [] es
  numbered : ∀ (i : ℕ) (hi : i < es.length), es[i].seq = i + 1
  hash : ∀ e ∈ es, computeEventHash D e = some e.eventHash
  hmac : key ≠ [] → ∀ e ∈ es, computeEventHMAC D e key = some e.hmac

theorem ChainOK.honest {s : ChainState} {ok : Chainer → SIEMEvent → Prop} (h : ChainOK D ok kp t s es)
    (hok : ∀ c base, ok c base → c.hmacKey = key) : HonestChain D key es := by
  refine ⟨h.linked, h.numbered, fun e he => ?_, fun hkey e he => (h.signed hok hkey).hmac e he⟩
  obtain ⟨c, base, payload, -, -, hsl⟩ := h.sealed e he
  exact hsl.hash

section

variable (h : HonestChain D key es)

include h

theorem HonestChain.valid_prevHash (he : e ∈ es) : Valid e.prevHash := by
  obtain ⟨i, hi, rfl⟩ := getElem_of_mem he
  cases i with
  | zero => rw [h.linked.prev_zero hi]; exact valid_nil
  | succ i =>
    rw [h.linked.prev_getElem hi]
    obtain ⟨m, -, hm⟩ := canonical_of_hash (h.hash _ (getElem_mem (lt_of_succ_lt hi)))
    rw [hm]
    exact (D.sha256_isDigest m).valid

theorem HonestChain.scrub_eventHash (he : e ∈ es) : e.scrub.eventHash = e.eventHash := by
  obtain ⟨m, -, hm⟩ := canonical_of_hash (h.hash e he)
  have hval : Valid e.eventHash := by rw [hm]; exact (D.sha256_isDigest m).valid
  exact hval.scrub_eq

theorem HonestChain.rehash (he : e ∈ es) (hste : Steady e) :
    computeEventHash D e.scrub = some e.scrub.eventHash ∧
      (key ≠ [] → computeEventHMAC D e.scrub key = some e.scrub.hmac) := by
  obtain ⟨m, hm, -⟩ := canonical_of_hash (h.hash e he)
  obtain ⟨m', hm', hiff⟩ := canonical_scrub_iff hm (h.valid_prevHash he)
  obtain rfl := hiff.2 hste
  constructor
  · rw [h.scrub_eventHash he, computeEventHash, hm', ← hm]
    exact h.hash e he
  · intro hkey
    have hmac := h.hmac hkey e he
    have hval : Valid e.hmac := by
      rw [canonical_of_hmac hmac hm]
      exact (D.hmac_isDigest key m').valid
    have hsm : e.scrub.hmac = e.hmac := hval.scrub_eq
    rw [hsm, computeEventHMAC, hm', ← hm]
    exact hmac

theorem HonestChain.steady_of_rehash (he : e ∈ es)
    (hfr : ∀ m m', e.canonical = some m → e.scrub.canonical = some m' → D.sha256 m' = D.sha256 m → m' = m)
    (hhs : computeEventHash D e.scrub = some e.scrub.eventHash) : Steady e := by
  obtain ⟨m, hm, heq⟩ := canonical_of_hash (h.hash e he)
  obtain ⟨m', hm', hiff⟩ := canonical_scrub_iff hm (h.valid_prevHash he)
  refine hiff.1 (hfr m m' hm hm' ?_)
  rw [h.scrub_eventHash he, computeEventHash, hm', heq] at hhs
  exact Option.some.inj hhs

/-! ## The pass over the stored events -/

theorem HonestChain.passes_iff (hot : opts.hmacKey = key) {i : ℕ}
    (hrs : ∀ (k : ℕ) (hk : k < rest.length), es[i + k]? = some rest[k]) {prev : Option (Bytes × ℤ)}
    (hpv : prev = none ∧ i = 0 ∨ ∃ d, 0 < i ∧ es[i - 1]? = some d ∧ prev = some (d.eventHash, d.seq)) :
    ((∀ e ∈ rest, Steady e) → PassesAll D opts prev (rest.map SIEMEvent.scrub)) ∧
      (PassesAll D opts prev (rest.map SIEMEvent.scrub) → ∀ e ∈ rest,
        computeEventHash D e.scrub = some e.scrub.eventHash) := by
  induction rest generalizing i prev with
  | nil => exact ⟨fun _ => trivial, fun _ _ he => absurd he not_mem_nil⟩
  | cons e rest ih =>
    have hi : es[i]? = some e := hrs 0 (zero_lt_succ _)
    obtain ⟨hlt, hei⟩ := List.getElem?_eq_some_iff.1 hi
    have he : e ∈ es := mem_of_getElem? hi
    have hseq : e.seq = i + 1 := by rw [← hei]; exact h.numbered i hlt
    have hrs' : ∀ k hk, es[i + 1 + k]? = some rest[k] := by
      intro k hk
      rw [show i + 1 + k = i + (k + 1) by omega]
      exact hrs (k + 1) (succ_lt_succ hk)
    have hpv' : ∃ d, 0 < i + 1 ∧ es[i + 1 - 1]? = some d ∧
        some (e.scrub.eventHash, e.scrub.seq) = some (d.eventHash, d.seq) :=
      ⟨e, succ_pos i, hi, by rw [h.scrub_eventHash he]; rfl⟩
    have hnx := ih hrs' (.inr hpv')
    constructor
    · intro hste
      obtain ⟨hhs, hmac⟩ := h.rehash he (hste e (mem_cons_self ..))
      refine ⟨⟨?_, ?_, ?_, hhs, ?_⟩, hnx.1 fun x hx => hste x (mem_cons_of_mem _ hx)⟩
      · -- the first event has the number 1
        intro hno _
        rcases hpv with ⟨-, rfl⟩ | ⟨d, -, -, rfl⟩
        · change e.seq ≤ 1
          rw [hseq]
          simp
        · cases hno
      · rintro x n rfl
        rcases hpv with ⟨hno, -⟩ | ⟨d, hpos, hd, heq⟩
        · cases hno
        cases heq
        obtain ⟨hlt', hed⟩ := List.getElem?_eq_some_iff.1 hd
        have hds : d.seq = ((i - 1 : ℕ) : ℤ) + 1 := by rw [← hed]; exact h.numbered (i - 1) hlt'
        change d.seq ≤ e.seq ∧ e.seq ≤ d.seq + 1
        omega
      · rintro x n rfl
        rcases hpv with ⟨hno, -⟩ | ⟨d, hpos, hd, heq⟩
        · cases hno
        cases heq
        obtain ⟨hlt', hed⟩ := List.getElem?_eq_some_iff.1 hd
        have hke : e.scrub.prevHash = e.prevHash := (h.valid_prevHash he).scrub_eq
        obtain ⟨j, rfl⟩ : ∃ j, i = j + 1 := ⟨i - 1, by omega⟩
        rw [hke, ← hei, ← hed, h.linked.prev_getElem hlt]
        rfl
      · intro hkey _
        rw [hot] at hkey ⊢
        exact hmac hkey
    · rintro ⟨hps, hall⟩ x hx
      rcases mem_cons.1 hx with rfl | hx
      · exact hps.hash
      · exact hnx.2 hall x hx

end

theorem foldl_counts {w : Walk}
    (hall : List.Forall₂ (fun entry ev => entry.read decode = some ev) entries evs)
    (hps : PassesAll D opts w.prev evs) :
    (entries.foldl (walkEntry D decode opts) w).result.totalEvents =
      w.result.totalEvents + entries.length ∧
      (entries.foldl (walkEntry D decode opts) w).result.verifiedEvents =
      w.result.verifiedEvents + entries.length := by
  induction hall generalizing w with
  | nil => exact ⟨rfl, rfl⟩
  | @cons entry ev entries evs hrd _ ih =>
    obtain ⟨hev, hrs⟩ := hps
    have hsp : walkEntry D decode opts w entry = walkEvent D opts w ev := by rw [walkEntry, hrd]
    have hgd : (hashOK D ev && linkOK w ev) := by
      rw [Bool.and_eq_true, hashOK_iff, linkOK_iff]
      exact ⟨hev.hash, hev.link⟩
    have hcnt := ih (w := walkEvent D opts w ev) hrs
    rw [foldl_cons, hsp, length_cons]
    have htot : (walkEvent D opts w ev).result.totalEvents = w.result.totalEvents + 1 := rfl
    have hver : (walkEvent D opts w ev).result.verifiedEvents = w.result.verifiedEvents + 1 := by
      simp only [walkEvent, hgd, if_true]
    omega

theorem counts_of_ok (h : opts.Whole) (hok : (verifyChain D decode opts entries).status = .ok) :
    (verifyChain D decode opts entries).totalEvents = (entries.take opts.effectiveLimit).length ∧
      (verifyChain D decode opts entries).verifiedEvents = (entries.take opts.effectiveLimit).length := by
  obtain ⟨evs, hall, hps⟩ := (status_ok_iff h entries).1 hok
  have hcnt := foldl_counts
    (w := ⟨{ status := .ok, retentionBoundarySeq := opts.retentionBoundarySeq }, none, 0⟩) hall hps
  have hsim : ∀ r : VerifyResult,
      (if r.status = .ok ∧ r.gaps ≠ [] then { r with status := .partially } else r).totalEvents =
      r.totalEvents ∧
      (if r.status = .ok ∧ r.gaps ≠ [] then { r with status := .partially } else r).verifiedEvents =
      r.verifiedEvents := by
    intro r
    split <;> exact ⟨rfl, rfl⟩
  rw [verifyChain_whole h, (hsim _).1, (hsim _).2, hcnt.1, hcnt.2]
  exact ⟨zero_add _, zero_add _⟩

/-! ## The stored stream -/

theorem effectiveLimit_le (opts : VerifyOptions) : opts.effectiveLimit ≤ 100000 := by
  have hmax : maxVerifyLimit = 100000 := rfl
  rw [VerifyOptions.effectiveLimit]
  omega

theorem read_all_stored (h : List.Forall₂ Stores entries es) (hseq : ∀ e ∈ es, InInt64 e.seq) :
    List.Forall₂ (fun entry ev => entry.read unmarshal = some ev) entries (es.map SIEMEvent.scrub) := by
  induction h with
  | nil => exact .nil
  | cons hone _ ih =>
    exact .cons (hone.read (hseq _ mem_cons_self)) (ih fun e he => hseq e (mem_cons_of_mem _ he))

/-- **When an honest chain verifies.** The chain comes from any run of `Append` calls, for events of
any kind `P`. Verified as a whole with its key, it is ok with all entries counted when the events
handed in are steady; and if the digests do not collide, only then. -/
theorem honest_chain_verifies_iff (D : Digests) {kp t key : Bytes} {P : SIEMEvent → Prop} {s : ChainState}
    (hs : s.Fresh kp t) {acts : List (Action ChainOp)}
    (hacts : World.SpawnsOnly (AroundTenant (fun c base => c.hmacKey = key ∧ P base) kp t) acts)
    (opts : VerifyOptions) (hwhole : opts.Whole) (hopts : opts.hmacKey = key) :
    ∃ es, Linear kp t (chainRun D s acts).st es ∧
      (∀ e ∈ es, ∃ base, P base ∧ e.body = base.body ∧ (Steady e ↔ Steady base)) ∧
      let result := verifyChain D unmarshal opts (storedEntries kp t (chainRun D s acts).st)
      let read := es.take opts.effectiveLimit
      let Verified := result.status = .ok ∧ result.totalEvents = read.length ∧
        result.verifiedEvents = read.length
      ((∀ e ∈ read, Steady e) → Verified) ∧
        (CollisionFree D key (read ++ read.map SIEMEvent.scrub) → (Verified ↔ ∀ e ∈ read, Steady e)) := by
  obtain ⟨es, hes⟩ := run_chainOK hs hacts
  refine ⟨es, hes.linear, fun e he => ?_, ?_⟩
  · obtain ⟨c, base, payload, hok, -, hsl⟩ := hes.sealed e he
    exact ⟨base, hok.2, hsl.body, Steady.of_body hsl.body⟩
  obtain ⟨entries, hen, hall⟩ := hes.stream
  have hsto : storedEntries kp t (chainRun D s acts).st = entries := by rw [storedEntries, hen]
  rw [hsto]
  have hhon : HonestChain D key es := hes.honest fun _ _ h => h.1
  have htk : List.Forall₂ Stores (entries.take opts.effectiveLimit) (es.take opts.effectiveLimit) :=
    forall₂_take _ hall
  -- the numbers that are read fit
  have hseq : ∀ e ∈ es.take opts.effectiveLimit, InInt64 e.seq := by
    intro e he
    obtain ⟨i, hi, rfl⟩ := getElem_of_mem he
    rw [length_take] at hi
    have hlim := effectiveLimit_le opts
    have hnum := hes.numbered i (by omega)
    rw [getElem_take]
    constructor <;> omega
  have hrd := read_all_stored htk hseq
  have hpla : ∀ k hk, es[0 + k]? = some (es.take opts.effectiveLimit)[k] := by
    intro k hk
    rw [zero_add, getElem_take]
    rw [length_take] at hk
    exact getElem?_eq_getElem (by omega)
  have hpas := hhon.passes_iff hopts hpla (.inl ⟨rfl, rfl⟩)
  have hcou : (verifyChain D unmarshal opts entries).status = .ok →
      (verifyChain D unmarshal opts entries).totalEvents = (es.take opts.effectiveLimit).length ∧
        (verifyChain D unmarshal opts entries).verifiedEvents = (es.take opts.effectiveLimit).length := by
    intro hok
    rw [← htk.length_eq]
    exact counts_of_ok hwhole hok
  have hste : (∀ e ∈ es.take opts.effectiveLimit, Steady e) →
      (verifyChain D unmarshal opts entries).status = .ok :=
    fun h => (status_ok_iff hwhole entries).2 ⟨_, hrd, hpas.1 h⟩
  refine ⟨fun h => ⟨hste h, hcou (hste h)⟩, fun hfr => ⟨fun hver => ?_, fun h => ⟨hste h, hcou (hste h)⟩⟩⟩
  obtain ⟨evs, hevs, hps⟩ := (status_ok_iff hwhole entries).1 hver.1
  have hsm : evs = (es.take opts.effectiveLimit).map SIEMEvent.scrub := by
    rw [← readEvents_eq hevs, readEvents_eq hrd]
  rw [hsm] at hps
  intro e he
  refine hhon.steady_of_rehash (mem_of_mem_take he) (fun m m' hm hm' heq => ?_) (hpas.2 hps e he)
  exact (hfr e.scrub (mem_append_right _ (mem_map_of_mem he)) e (mem_append_left _ he) m' m hm' hm).1 heq

/-! ### Two chains of one event -/

/-- One call that appends `event`. -/
def appendOnce (event : SIEMEvent) : List (Action ChainOp) :=
  .spawn (.append (.standard 0) .calm event) :: List.replicate 4 (.sched 0 .none)

/-- The stream after one `Append`. -/
def onceStored (event : SIEMEvent) : List StreamEntry :=
  storedEntries (ascii "audit:chain:") (ascii "acme") (chainRun .fingerprints .empty (appendOnce event)).st

theorem steady_login : Steady (acmeEvent (ascii "login")) := by
  refine ⟨⟨fun f => ?_, ?_, ?_, ?_⟩, by decide⟩
  · cases f <;> decide
  all_goals exact fun _ h => absurd h not_mem_nil

/-- A chain of one event, read back and verified. -/
theorem honest_chain_verifies_iff_login :
    (onceStored (acmeEvent (ascii "login"))).length = 1 ∧
      (verifyChain .fingerprints unmarshal signedWhole
        (onceStored (acmeEvent (ascii "login")))).status = .ok := by
  have hac : World.SpawnsOnly
      (AroundTenant (fun c base => c.hmacKey = ascii "key" ∧ base = acmeEvent (ascii "login"))
      (ascii "audit:chain:") (ascii "acme")) (appendOnce (acmeEvent (ascii "login"))) := by
    intro op hop
    rcases mem_cons.1 hop with hop | hop
    · cases hop
      exact ⟨rfl, rfl, rfl, rfl⟩
    · cases eq_of_mem_replicate hop
  refine ⟨by decide +kernel, ?_⟩
  obtain ⟨es, -, hfr, hok, -⟩ :=
    honest_chain_verifies_iff .fingerprints (s := .empty) ⟨rfl, rfl⟩ hac signedWhole ⟨rfl, rfl⟩ rfl
  refine (hok fun e he => ?_).1
  obtain ⟨base, rfl, -, hste⟩ := hfr e (mem_of_mem_take he)
  exact hste.2 steady_login

/-- A stray byte in the action; half a minute in the zone. Each event is appended, and the stream is
reported as compromised. -/
theorem honest_chain_compromised :
    let stray := acmeEvent [0xFF]
    let shifted := { acmeEvent (ascii "login") with timestamp := { Timestamp.zero with offset := 30 } }
    (onceStored stray).length = 1 ∧ (onceStored shifted).length = 1 ∧
      (verifyChain .fingerprints unmarshal signedWhole (onceStored stray)).status = .compromised ∧
      (verifyChain .fingerprints unmarshal signedWhole (onceStored shifted)).status = .compromised := by
  decide +kernel

end Cordum.Audit
