import Cordum.Audit.Verify
import Cordum.Proof.AuditChain

/-!
# What an edit of the stored chain shows

A chain with HMAC tags is edited, as long as every entry that is left carries a tag of the chain. A
tag that verifies gives the canonical bytes of the event it was made for, these give its hash and the
hash it names, and linkage then puts the entries side by side as they were. The number of an event is
not among its canonical bytes, the first entry is linked to nothing and the head is not read, so what
stays unseen is a run of neighbours, renumbered from 1 or below without jumps (`Unseen`).

* `tampering_seen_iff`: which edits are seen.
-/

namespace Cordum.Audit

open Conc Utf8 JsonText Decimal List SIEMEvent Option

variable {decode : Bytes → Option SIEMEvent} {es evs rest : List SIEMEvent} {entries : List StreamEntry}
  {e a b ev : SIEMEvent} {opts : VerifyOptions} {D : Digests} {kp t key x y m : Bytes}

/-! ## What the canonical bytes say -/

theorem eq_of_scrub_ascii (h : Utf8.scrub x = y) (hy : ∀ b ∈ y, b < 0x80) : x = y := by
  have hval : Valid x := by
    intro p hp
    cases p with
    | rune r => rfl
    | stray b =>
      -- the replacement of a stray byte is not ASCII
      have hmem : (0xEF : UInt8) ∈ y := by
        rw [← h, Utf8.scrub, mem_flatMap]
        exact ⟨.stray b, hp, mem_cons_self ..⟩
      exact absurd (hy _ hmem) (by decide)
  rw [← h, hval.scrub_eq]

theorem prevHash_of_canonical (ha : a.canonical = some m) (hb : b.canonical = some m)
    (hasc : ∀ x ∈ b.prevHash, x < 0x80) : a.prevHash = b.prevHash := by
  have hrg : InInt64 0 := ⟨by decide, by decide⟩
  have hrd := (unmarshal_marshal ha hrg).symm.trans (unmarshal_marshal hb hrg)
  have hscr : Utf8.scrub a.prevHash = Utf8.scrub b.prevHash := congrArg prevHash (some.inj hrd)
  rw [(valid_of_ascii hasc).scrub_eq] at hscr
  exact eq_of_scrub_ascii hscr hasc

/-! ## Chains that can be told apart -/

/-- The digests of the canonical bytes of these events do not collide. -/
def CollisionFree (D : Digests) (key : Bytes) (evs : List SIEMEvent) : Prop :=
  ∀ a ∈ evs, ∀ b ∈ evs, ∀ m m', a.canonical = some m → b.canonical = some m' →
    (D.sha256 m = D.sha256 m' → m = m') ∧ (D.hmac key m = D.hmac key m' → m = m')

/-- A chain of signed events, as `Append` builds it. -/
structure SignedChain (D : Digests) (key : Bytes) (es : List SIEMEvent) : Prop where
  linked : HashChain.Linked SIEMEvent.prevHash SIEMEvent.eventHash [] es
  hash : ∀ e ∈ es, computeEventHash D e = some e.eventHash
  hmac : ∀ e ∈ es, computeEventHMAC D e key = some e.hmac

theorem ChainOK.signed {s : ChainState} {ok : Chainer → SIEMEvent → Prop} (h : ChainOK D ok kp t s es)
    (hok : ∀ c base, ok c base → c.hmacKey = key) (hkey : key ≠ []) : SignedChain D key es := by
  refine ⟨h.linked, fun e he => ?_, fun e he => ?_⟩
  · obtain ⟨c, base, payload, -, -, hsl⟩ := h.sealed e he
    exact hsl.hash
  · obtain ⟨c, base, payload, hcb, -, hsl⟩ := h.sealed e he
    have hc := hok c base hcb
    have hmac := hsl.hmac (by rw [hc]; exact hkey)
    rw [hc] at hmac
    exact hmac

theorem canonical_of_hash (h : computeEventHash D e = some e.eventHash) :
    ∃ m, e.canonical = some m ∧ e.eventHash = D.sha256 m := by
  rw [computeEventHash] at h
  cases hm : e.canonical with
  | none => rw [hm] at h; cases h
  | some m => rw [hm] at h; exact ⟨m, rfl, (some.inj h).symm⟩

theorem canonical_of_hmac (h : computeEventHMAC D e key = some e.hmac) (hm : e.canonical = some m) :
    e.hmac = D.hmac key m := by
  rw [computeEventHMAC, hm] at h
  exact (some.inj h).symm

theorem SignedChain.prevHash_ascii (h : SignedChain D key es) (he : e ∈ es) :
    ∀ b ∈ e.prevHash, b < 0x80 := by
  obtain ⟨i, hi, rfl⟩ := getElem_of_mem he
  cases i with
  | zero => rw [h.linked.prev_zero hi]; exact nofun
  | succ i =>
    rw [h.linked.prev_getElem hi]
    obtain ⟨m, -, hm⟩ := canonical_of_hash (h.hash _ (getElem_mem (Nat.lt_of_succ_lt hi)))
    rw [hm]
    exact (D.sha256_isDigest m).ascii

theorem SignedChain.commits (h : SignedChain D key es) (hfr : CollisionFree D key (es ++ evs)) :
    HashChain.Commits prevHash eventHash [] es := by
  refine ⟨fun a ha b hb heq => ?_, fun a ha => ?_⟩
  · obtain ⟨ma, hma, hhas⟩ := canonical_of_hash (h.hash a ha)
    obtain ⟨mb, hmb, hhs⟩ := canonical_of_hash (h.hash b hb)
    have hsm : ma = mb :=
      (hfr a (mem_append_left _ ha) b (mem_append_left _ hb) ma mb hma hmb).1 (by rw [← hhas, ← hhs, heq])
    exact prevHash_of_canonical hma (hsm ▸ hmb) (h.prevHash_ascii hb)
  · obtain ⟨m, -, hm⟩ := canonical_of_hash (h.hash a ha)
    rw [hm]
    exact (D.sha256_isDigest m).ne_nil

/-! ## Edits that stay unseen -/

/-- All that is hashed and signed of `ev` is that of `e`. -/
structure SameHashed (ev e : SIEMEvent) : Prop where
  canonical : ev.canonical = e.canonical
  hash : ev.eventHash = e.eventHash
  hmac : ev.hmac = e.hmac

/-- The events `evs` are those of the chain from place `i` on, up to their numbers. -/
def RunAt (es : List SIEMEvent) : ℕ → List SIEMEvent → Prop
  | _, [] => True
  | i, ev :: evs => (∃ e, es[i]? = some e ∧ SameHashed ev e) ∧ RunAt es (i + 1) evs

/-- From the number `n` on, every number is the last one or the next. -/
def Climbs : ℤ → List SIEMEvent → Prop
  | _, [] => True
  | n, ev :: evs => (n ≤ ev.seq ∧ ev.seq ≤ n + 1) ∧ Climbs ev.seq evs

/-- Numbered from 1 or below without jumps. -/
def Numbered : List SIEMEvent → Prop
  | [] => True
  | ev :: evs => ev.seq ≤ 1 ∧ Climbs ev.seq evs

/-- The events are neighbours in the chain, with what is hashed unchanged, numbered from 1 or below
without jumps. -/
def Unseen (es evs : List SIEMEvent) : Prop := (∃ i, RunAt es i evs) ∧ Numbered evs

/-- Every entry that can be read carries the tag of an event of the chain. -/
def KeepsTags (decode : Bytes → Option SIEMEvent) (es : List SIEMEvent)
    (entries : List StreamEntry) : Prop :=
  ∀ entry ∈ entries, ∀ ev, entry.read decode = some ev → ∃ e ∈ es, ev.hmac = e.hmac

section

variable (h : SignedChain D key es) (hot : opts.hmacKey = key) {i : ℕ} {n : ℤ}

include h hot

theorem place_of_passes (hkey : key ≠ []) (hfr : CollisionFree D key (es ++ evs))
    {prev : Option (Bytes × ℤ)} (hev : ev ∈ evs)
    (htag : ∃ e ∈ es, ev.hmac = e.hmac) (hps : Passes D opts prev ev) :
    ∃ (i : ℕ) (e : SIEMEvent), es[i]? = some e ∧ SameHashed ev e ∧ ev.prevHash = e.prevHash := by
  obtain ⟨e, he, htag⟩ := htag
  obtain ⟨m, hm, hhs⟩ := canonical_of_hash hps.hash
  obtain ⟨m', hm', hhs'⟩ := canonical_of_hash (h.hash e he)
  have hmac' := canonical_of_hmac (h.hmac e he) hm'
  have hne : ev.hmac ≠ [] := by rw [htag, hmac']; exact (D.hmac_isDigest key m').ne_nil
  have hmac := hps.hmac (by rw [hot]; exact hkey) hne
  rw [hot] at hmac
  have hmac := canonical_of_hmac hmac hm
  -- one tag, so one text
  have hsm : m = m' :=
    (hfr ev (mem_append_right _ hev) e (mem_append_left _ he) m m' hm hm').2
      (by rw [← hmac, ← hmac', htag])
  subst hsm
  obtain ⟨i, hi⟩ := mem_iff_getElem?.1 he
  exact ⟨i, e, hi, ⟨hm.trans hm'.symm, hhs.trans hhs'.symm, htag⟩,
    prevHash_of_canonical hm hm' (h.prevHash_ascii he)⟩

/-- **Entries that pass one after the other are neighbours**: each hash has one place only. -/
theorem runAt_of_passes (hkey : key ≠ []) (hfr : CollisionFree D key (es ++ evs)) (hrs : rest ⊆ evs)
    (htg : ∀ ev ∈ rest, ∃ e ∈ es, ev.hmac = e.hmac) (hi : es[i]? = some e)
    (hps : PassesAll D opts (some (e.eventHash, n)) rest) : RunAt es (i + 1) rest ∧ Climbs n rest := by
  induction rest generalizing i e n with
  | nil => exact ⟨trivial, trivial⟩
  | cons ev rest ih =>
    obtain ⟨hev, hall⟩ := hps
    obtain ⟨j, e', hj, hsm, hpv⟩ := place_of_passes h hot hkey hfr (hrs (mem_cons_self ..))
      (htg ev (mem_cons_self ..)) hev
    obtain ⟨hi', hie⟩ := List.getElem?_eq_some_iff.1 hi
    obtain ⟨hj', hje⟩ := List.getElem?_eq_some_iff.1 hj
    have hln : es[j].prevHash = es[i].eventHash := by
      rw [hje, hie, ← hpv]
      exact hev.link _ _ rfl
    obtain rfl := h.linked.next_position (h.commits hfr) hi' hj' hln
    rw [hsm.hash] at hall
    obtain ⟨hrun, hcli⟩ := ih (fun x hx => hrs (mem_cons_of_mem _ hx))
      (fun x hx => htg x (mem_cons_of_mem _ hx)) hj hall
    exact ⟨⟨⟨e', hj, hsm⟩, hrun⟩, hev.order _ _ rfl, hcli⟩

theorem passes_of_runAt (hi : es[i]? = some e) (hrun : RunAt es (i + 1) rest) (hcli : Climbs n rest) :
    PassesAll D opts (some (e.eventHash, n)) rest := by
  induction rest generalizing i e n with
  | nil => trivial
  | cons ev rest ih =>
    obtain ⟨⟨e', hj, hsm⟩, hrun⟩ := hrun
    obtain ⟨hord, hcli⟩ := hcli
    obtain ⟨hi', hie⟩ := List.getElem?_eq_some_iff.1 hi
    obtain ⟨hj', hje⟩ := List.getElem?_eq_some_iff.1 hj
    have he' : e' ∈ es := mem_of_getElem? hj
    obtain ⟨m, hm, -⟩ := canonical_of_hash (h.hash e' he')
    refine ⟨⟨nofun, ?_, ?_, ?_, ?_⟩, ?_⟩
    · rintro _ _ ⟨⟩
      exact hord
    · rintro _ _ ⟨⟩
      rw [prevHash_of_canonical (hsm.canonical.trans hm) hm (h.prevHash_ascii he'), ← hje,
        h.linked.prev_getElem hj', hie]
    · rw [computeEventHash, hsm.canonical, hsm.hash]
      exact h.hash e' he'
    · intro _ _
      rw [hot, computeEventHMAC, hsm.canonical, hsm.hmac]
      exact h.hmac e' he'
    · rw [hsm.hash]
      exact ih hj hrun hcli

/-- **Which edits pass.** -/
theorem passesAll_iff_unseen (hkey : key ≠ []) (hsin : opts.sinceMs = 0)
    (hfr : CollisionFree D key (es ++ evs)) (htg : ∀ ev ∈ evs, ∃ e ∈ es, ev.hmac = e.hmac) :
    PassesAll D opts none evs ↔ Unseen es evs := by
  cases evs with
  | nil => exact iff_of_true trivial ⟨⟨0, trivial⟩, trivial⟩
  | cons ev evs =>
    constructor
    · rintro ⟨hev, hall⟩
      obtain ⟨i, e, hi, hsm, -⟩ := place_of_passes h hot hkey hfr (mem_cons_self ..)
        (htg ev (mem_cons_self ..)) hev
      rw [hsm.hash] at hall
      obtain ⟨hrun, hcli⟩ := runAt_of_passes h hot hkey hfr (subset_cons_self ev evs)
        (fun x hx => htg x (mem_cons_of_mem _ hx)) hi hall
      exact ⟨⟨i, ⟨e, hi, hsm⟩, hrun⟩, hev.first rfl hsin, hcli⟩
    · rintro ⟨⟨i, ⟨e, hi, hsm⟩, hrun⟩, hfst, hcli⟩
      have he : e ∈ es := mem_of_getElem? hi
      refine ⟨⟨fun _ _ => hfst, nofun, nofun, ?_, ?_⟩, ?_⟩
      · rw [computeEventHash, hsm.canonical, hsm.hash]
        exact h.hash e he
      · intro _ _
        rw [hot, computeEventHMAC, hsm.canonical, hsm.hmac]
        exact h.hmac e he
      · rw [hsm.hash]
        exact passes_of_runAt h hot hi hrun hcli

end

/-- The events that can be read. -/
def readEvents (decode : Bytes → Option SIEMEvent) (entries : List StreamEntry) : List SIEMEvent :=
  entries.filterMap (StreamEntry.read decode)

theorem readEvents_eq (h : List.Forall₂ (fun entry ev => entry.read decode = some ev) entries evs) :
    readEvents decode entries = evs := by
  induction h with
  | nil => rfl
  | cons hrd _ ih => rw [readEvents, filterMap_cons, hrd]; exact congrArg _ ih

theorem forall₂_readEvents (h : ∀ entry ∈ entries, (entry.read decode).isSome) :
    List.Forall₂ (fun entry ev => entry.read decode = some ev) entries (readEvents decode entries) := by
  induction entries with
  | nil => exact .nil
  | cons entry entries ih =>
    obtain ⟨ev, hev⟩ := isSome_iff_exists.1 (h entry (mem_cons_self ..))
    rw [readEvents, filterMap_cons, hev]
    exact .cons hev (ih fun x hx => h x (mem_cons_of_mem _ hx))

/-- **Which edits of a signed chain are seen.** After an edit that leaves only tags of the chain, the
whole stream verifies as ok exactly when all entries read are neighbours of the chain with their
hashed fields unchanged, renumbered at most from 1 or below without jumps. -/
theorem tampering_seen_iff (D : Digests) {kp t key : Bytes} (hkey : key ≠ [])
    {s : ChainState} (hs : s.Fresh kp t) {acts : List (Action ChainOp)}
    (hacts : World.SpawnsOnly (AroundTenant (fun c _ => c.hmacKey = key) kp t) acts) :
    ∃ es, Linear kp t (chainRun D s acts).st es ∧
      ∀ (decode : Bytes → Option SIEMEvent) (opts : VerifyOptions) (edited : List StreamEntry),
        opts.Whole → opts.hmacKey = key → KeepsTags decode es edited →
        CollisionFree D key (es ++ readEvents decode (edited.take opts.effectiveLimit)) →
        ((verifyChain D decode opts edited).status ≠ .ok ↔
          ¬ ((∀ entry ∈ edited.take opts.effectiveLimit, (entry.read decode).isSome) ∧
            Unseen es (readEvents decode (edited.take opts.effectiveLimit)))) := by
  obtain ⟨es, hes⟩ := run_chainOK (D := D) hs hacts
  have hsig := hes.signed (fun _ _ h => h) hkey
  refine ⟨es, hes.linear, fun decode opts edited hwh hot htg hfr => not_congr ?_⟩
  have htg' : ∀ ev ∈ readEvents decode (edited.take opts.effectiveLimit), ∃ e ∈ es, ev.hmac = e.hmac := by
    intro ev hev
    obtain ⟨entry, hent, hrd⟩ := List.mem_filterMap.1 hev
    exact htg entry (mem_of_mem_take hent) ev hrd
  rw [status_ok_iff hwh]
  constructor
  · rintro ⟨evs, hall, hps⟩
    have hevs := readEvents_eq hall
    rw [hevs] at htg' hfr ⊢
    refine ⟨fun entry hent => ?_, (passesAll_iff_unseen hsig hot hkey hwh.1 hfr htg').1 hps⟩
    obtain ⟨k, hk, rfl⟩ := getElem_of_mem hent
    have hget := hall.get hk (by rw [← hall.length_eq]; exact hk)
    rw [get_eq_getElem] at hget
    rw [hget]
    rfl
  · rintro ⟨hrd, huns⟩
    exact ⟨_, forall₂_readEvents hrd, (passesAll_iff_unseen hsig hot hkey hwh.1 hfr htg').2 huns⟩

/-! ### A chain cut short -/

/-- The tenant's stream. -/
def storedEntries (kp t : Bytes) (s : ChainState) : List StreamEntry :=
  match getStream s.db (streamKey kp t) with
  | .ok entries => entries
  | .error _ => []

/-- One call that appends an event of `acme`. -/
def oneAppend (action : Bytes) (i : ℕ) : List (Action ChainOp) :=
  .spawn (.append (.standard 0) .calm (acmeEvent action)) :: List.replicate 4 (.sched i .none)

/-- Two such calls. -/
def twoAppends : List (Action ChainOp) := oneAppend (ascii "login") 0 ++ oneAppend (ascii "deploy") 1

theorem twoAppends_signed : World.SpawnsOnly
    (AroundTenant (fun c _ => c.hmacKey = ascii "key") (ascii "audit:chain:") (ascii "acme"))
    twoAppends := by
  have hone : ∀ action i op, .spawn op ∈ oneAppend action i →
      AroundTenant (fun c _ => c.hmacKey = ascii "key") (ascii "audit:chain:") (ascii "acme") op := by
    intro action i op hop
    rcases mem_cons.1 hop with hop | hop
    · cases hop
      exact ⟨rfl, rfl, rfl⟩
    · cases eq_of_mem_replicate hop
  exact fun op hop => (mem_append.1 hop).elim (hone _ _ op) (hone _ _ op)

/-- The stream of two events. -/
def twoEntries : List StreamEntry :=
  storedEntries (ascii "audit:chain:") (ascii "acme") (chainRun .fingerprints .empty twoAppends).st

/-- The whole stream, with the key. -/
def signedWhole : VerifyOptions := { hmacKey := ascii "key" }

/-- Texts that are told apart by their digests. -/
theorem CollisionFree.of_texts (h : ∀ m ∈ evs.filterMap canonical, ∀ m' ∈ evs.filterMap canonical,
      (D.sha256 m = D.sha256 m' → m = m') ∧ (D.hmac key m = D.hmac key m' → m = m')) :
    CollisionFree D key evs :=
  fun a ha b hb m m' hm hm' => h m (mem_filterMap.2 ⟨a, ha, hm⟩) m' (mem_filterMap.2 ⟨b, hb, hm'⟩)

/-- An event that is written again as it was read keeps its canonical bytes and its tag. -/
theorem reread_keeps (h : e.marshal = some s) (hs : e.scrub.marshal = some s) :
    e.canonical = e.scrub.canonical ∧ e.hmac = e.scrub.hmac := by
  obtain ⟨_, hs', hiff⟩ := marshal_scrub_iff h
  obtain ⟨hval, hzone⟩ := hiff.1 (some.inj (hs'.symm.trans hs))
  have hcl : ValidText e.cleared := by
    refine ⟨fun f => ?_, hval.riskTags, hval.capabilities, hval.extra⟩
    have hf := hval.text f
    cases f <;> first | exact hf | exact valid_nil
  obtain ⟨time, htx, -⟩ := Option.map_eq_some_iff.1 h
  have hm : e.canonical = some _ := Option.map_eq_some_iff.2 ⟨time, htx, rfl⟩
  obtain ⟨m', hm', hiff'⟩ := marshal_scrub_iff hm
  rw [← hiff'.2 ⟨hcl, hzone⟩] at hm
  exact ⟨hm.trans hm'.symm, (hval.text .hmac).scrub_eq.symm⟩

theorem Stores.read {entry : StreamEntry} (h : Stores entry e) (hseq : InInt64 e.seq) :
    entry.read unmarshal = some e.scrub := by
  obtain ⟨payload, hent, hmar⟩ := h.event
  rw [StreamEntry.read, hent]
  exact unmarshal_marshal hmar hseq

/-- Stored events that are written again as they are read. -/
theorem stored_keeps (h : List.Forall₂ Stores entries es) (hseq : ∀ e ∈ es, InInt64 e.seq)
    (hsame : ∀ entry ∈ entries, (entry.read unmarshal).bind marshal = entry.event) :
    es.map canonical = (readEvents unmarshal entries).map canonical ∧
      es.map hmac = (readEvents unmarshal entries).map hmac := by
  induction h with
  | nil => exact ⟨rfl, rfl⟩
  | @cons entry e _ _ hone _ ih =>
    obtain ⟨payload, hent, hmar⟩ := hone.event
    have hrd := hone.read (hseq e mem_cons_self)
    have hwr := hsame entry mem_cons_self
    rw [hrd, hent] at hwr
    obtain ⟨htexts, htags⟩ := ih (fun e he => hseq e (mem_cons_of_mem _ he))
      fun x hx => hsame x (mem_cons_of_mem _ hx)
    rw [readEvents, filterMap_cons, hrd]
    exact ⟨congrArg₂ cons (reread_keeps hmar hwr).1 htexts, congrArg₂ cons (reread_keeps hmar hwr).2 htags⟩

/-- The chain of two events, without its first one. -/
theorem tampering_seen_iff_beheaded : ∃ es, es.length = 2 ∧
    (verifyChain .fingerprints unmarshal signedWhole (twoEntries.drop 1)).status ≠ .ok ∧
      ¬ Unseen es (readEvents unmarshal (twoEntries.drop 1)) := by
  obtain ⟨es, hes, hiff⟩ :=
    tampering_seen_iff .fingerprints (show ascii "key" ≠ [] by decide) (s := .empty) ⟨rfl, rfl⟩
      twoAppends_signed
  obtain ⟨entries, hen, hall⟩ := hes.stream
  have htwo : twoEntries = entries := by rw [twoEntries, storedEntries, hen]
  rw [← htwo] at hall
  have hlen : es.length = 2 := by rw [← hall.length_eq]; decide +kernel
  have hseq : ∀ e ∈ es, InInt64 e.seq := by
    intro e he
    obtain ⟨i, hi, rfl⟩ := getElem_of_mem he
    rw [hes.numbered i hi]
    exact ⟨by omega, by omega⟩
  obtain ⟨htexts, htags⟩ := stored_keeps hall hseq (by decide +kernel)
  have hkeep : KeepsTags unmarshal es (twoEntries.drop 1) := by
    intro entry hent ev hrd
    have hmem : ev.hmac ∈ es.map hmac := by
      rw [htags]
      exact mem_map_of_mem (mem_filterMap.2 ⟨entry, mem_of_mem_drop hent, hrd⟩)
    obtain ⟨e, he, heq⟩ := mem_map.1 hmem
    exact ⟨e, he, heq.symm⟩
  have hiff := hiff unmarshal signedWhole _ ⟨rfl, rfl⟩ rfl hkeep
  rw [take_of_length_le (by decide +kernel)] at hiff
  have hfree : CollisionFree .fingerprints (ascii "key")
      (es ++ readEvents unmarshal (twoEntries.drop 1)) := by
    refine .of_texts ?_
    rw [filterMap_append, ← Function.id_comp canonical, ← filterMap_map, htexts]
    decide +kernel
  have hseen : (verifyChain .fingerprints unmarshal signedWhole (twoEntries.drop 1)).status ≠ .ok := by
    decide +kernel
  exact ⟨es, hlen, hseen, fun huns => (hiff hfree).1 hseen ⟨by decide +kernel, huns⟩⟩

/-- The entry with the number `n` written into its event, all else as it was. -/
def renumbered (n : ℤ) (entry : StreamEntry) : StreamEntry :=
  { entry with event := (entry.read unmarshal).bind fun ev => SIEMEvent.marshal { ev with seq := n } }

/-- The chain of two events: without its last entry, without its first and with the other renumbered,
and without any entry, it verifies as ok. -/
theorem cut_chain_verifies :
    twoEntries.length = 2 ∧ CollisionFree .fingerprints (ascii "key") (readEvents unmarshal twoEntries) ∧
      (verifyChain .fingerprints unmarshal signedWhole (twoEntries.take 1)).status = .ok ∧
      (verifyChain .fingerprints unmarshal signedWhole ((twoEntries.drop 1).map (renumbered 1))).status =
      .ok ∧ (verifyChain .fingerprints unmarshal signedWhole []).status = .ok :=
  ⟨by decide +kernel, .of_texts (by decide +kernel), by decide +kernel, by decide +kernel, rfl⟩

end Cordum.Audit
