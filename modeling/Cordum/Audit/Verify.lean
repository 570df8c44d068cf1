import Cordum.Audit.Chain

/-!
# Verifying an audit chain

`VerifyChain` of `core/audit/chain_verify.go`: one pass over a tenant's stream, which checks that the
events can be read, that their numbers go up by one, that their hashes are theirs and name the
predecessor, and that their tags are right. The decoder is a parameter (`unmarshal` for the program).
-/

namespace Cordum.Audit

open Utf8 JsonText Decimal List

variable {ev : SIEMEvent} {opts : VerifyOptions} {w : Walk}

/-- The status of a report. -/
inductive VerifyStatus
  | ok
  | compromised
  | partially
deriving DecidableEq

/-- What a gap is about. -/
inductive VerifyGapType
  | missing
  | outOfOrder
  | hashMismatch
  | retentionTrimmed
  | hmacMismatch
deriving DecidableEq

/-- A gap, at the number it was seen at. -/
structure VerifyGap where
  atSeq : ℤ
  type : VerifyGapType
deriving DecidableEq

/-- `VerifyResult`, without the retention window, which the caller fills in. -/
structure VerifyResult where
  status : VerifyStatus
  totalEvents : ℕ := 0
  verifiedEvents : ℕ := 0
  gaps : List VerifyGap := []
  retentionBoundarySeq : ℤ := 0
  firstSeq : ℤ := 0
  lastSeq : ℤ := 0
  hmacVerified : ℕ := 0
  hmacSkipped : ℕ := 0
  hmacSeen : Bool := false
deriving DecidableEq

/-- What a caller of `VerifyChain` asks for. -/
structure VerifyOptions where
  sinceMs : ℤ := 0
  untilMs : ℤ := 0
  limit : ℤ := 0
  retentionBoundarySeq : ℤ := 0
  hmacKey : Bytes := []

/-- The limit when none is given. -/
def defaultVerifyLimit : ℤ := 10000

/-- The largest limit. -/
def maxVerifyLimit : ℤ := 100000

/-- The gaps that are listed for trimmed entries. -/
def maxRetentionTrimmedGaps : ℤ := 1000

/-- How many entries are read. -/
def VerifyOptions.effectiveLimit (opts : VerifyOptions) : ℕ :=
  (min (if opts.limit ≤ 0 then defaultVerifyLimit else opts.limit) maxVerifyLimit).toNat

variable (D : Digests)

/-- Whether the stored hash is the event's. -/
def verifyEventHash (e : SIEMEvent) : Option Bool :=
  (computeEventHash D e).map fun got => e.eventHash = got

/-- Whether the stored tag is the event's. -/
def verifyEventHMAC (e : SIEMEvent) (key : Bytes) : Option Bool :=
  if e.hmac = [] ∨ key = [] then some true else (computeEventHMAC D e key).map fun got => e.hmac = got

/-- The event before, as far as the pass knows it: its hash and its number. -/
structure Walk where
  result : VerifyResult
  prev : Option (Bytes × ℤ)
  index : ℕ

/-- The number before the next entry, for the gaps of unreadable entries. -/
def Walk.prevSeq (w : Walk) : ℤ := (w.prev.map (·.2)).getD 0

/-- The numbers from `first` on, `n` of them, as gaps. -/
def gapsFrom (first : ℤ) (n : ℕ) (type : VerifyGapType) : List VerifyGap :=
  (List.range n).map fun k : ℕ => (⟨first + (k : ℤ), type⟩ : VerifyGap)

/-- An entry that cannot be read. -/
def Walk.unreadable (w : Walk) : Walk :=
  { w with
    result := { w.result with
      status := .compromised
      gaps := w.result.gaps ++ [⟨w.prevSeq + 1, .hashMismatch⟩] }
    index := w.index + 1 }

/-- The gaps before the first event. -/
def leadingGaps (opts : VerifyOptions) (w : Walk) (ev : SIEMEvent) : List VerifyGap :=
  if w.index = 0 ∧ opts.sinceMs = 0 ∧ ev.seq > 1 then
    gapsFrom 1 (min (ev.seq - 1) maxRetentionTrimmedGaps).toNat .retentionTrimmed
  else []

/-- Missing and out-of-order numbers. -/
def orderGaps (w : Walk) (ev : SIEMEvent) : List VerifyGap :=
  match w.prev with
  | none => []
  | some (_, prevSeq) =>
    if ev.seq < prevSeq then [⟨ev.seq, .outOfOrder⟩]
    else if ev.seq > prevSeq + 1 then gapsFrom (prevSeq + 1) (ev.seq - (prevSeq + 1)).toNat .missing
    else []

/-- The event's hash is its own. -/
def hashOK (ev : SIEMEvent) : Bool := (verifyEventHash D ev).getD false

/-- The event names the hash of the one before. -/
def linkOK (w : Walk) (ev : SIEMEvent) : Bool :=
  match w.prev with
  | none => true
  | some (prevHash, _) => ev.prevHash = prevHash

/-- The tag is right. -/
def hmacOK (opts : VerifyOptions) (ev : SIEMEvent) : Bool := (verifyEventHMAC D ev opts.hmacKey).getD false

/-- The gaps for which the chain is compromised: numbers, then hash and link, then the tag. -/
def failedGaps (opts : VerifyOptions) (w : Walk) (ev : SIEMEvent) : List VerifyGap :=
  orderGaps w ev ++
    ((if hashOK D ev && linkOK w ev then [] else [⟨ev.seq, .hashMismatch⟩]) ++
      if opts.hmacKey ≠ [] ∧ ev.hmac ≠ [] ∧ hmacOK D opts ev = false
      then [⟨ev.seq, .hmacMismatch⟩] else [])

/-- One event of the pass. -/
def walkEvent (opts : VerifyOptions) (w : Walk) (ev : SIEMEvent) : Walk :=
  let r := w.result
  { result := { r with
      status := if failedGaps D opts w ev = [] then r.status else .compromised
      totalEvents := r.totalEvents + 1
      verifiedEvents := r.verifiedEvents + if hashOK D ev && linkOK w ev then 1 else 0
      gaps := r.gaps ++ (leadingGaps opts w ev ++ failedGaps D opts w ev)
      firstSeq := if w.index = 0 then ev.seq else r.firstSeq
      lastSeq := ev.seq
      hmacVerified := r.hmacVerified + if opts.hmacKey ≠ [] ∧ ev.hmac ≠ [] ∧ hmacOK D opts ev then 1 else 0
      hmacSkipped := r.hmacSkipped + if opts.hmacKey ≠ [] ∧ ev.hmac = [] then 1 else 0
      hmacSeen := r.hmacSeen || !(ev.hmac = []) }
    prev := some (ev.eventHash, ev.seq)
    index := w.index + 1 }

variable (decode : Bytes → Option SIEMEvent)

/-- The event of an entry, when it can be read. -/
def StreamEntry.read (entry : StreamEntry) : Option SIEMEvent := entry.event.bind decode

/-- One entry of the pass. -/
def walkEntry (opts : VerifyOptions) (w : Walk) (entry : StreamEntry) : Walk :=
  match entry.read decode with
  | none => w.unreadable
  | some ev => walkEvent D opts w ev

/-- `xRevBefore`: the last id before `id`; `none` is the end of the stream. -/
def xRevBefore (id : ℕ × ℕ) : Option (ℕ × ℕ) :=
  if 2 ^ 63 ≤ id.1 ∨ 2 ^ 63 ≤ id.2 then none
  else if 0 < id.2 then some (id.1, id.2 - 1)
  else if 0 < id.1 then some (id.1 - 1, 2 ^ 64 - 1)
  else none

/-- The order of stream ids. -/
def idLE (a b : ℕ × ℕ) : Bool := a.1 < b.1 || (a.1 == b.1 && a.2 ≤ b.2)

/-- The entries that the pass reads. -/
def selectEntries (opts : VerifyOptions) (entries : List StreamEntry) : List StreamEntry :=
  (entries.filter fun e =>
    (opts.sinceMs ≤ 0 || idLE (opts.sinceMs.toNat, 0) e.id) &&
      (opts.untilMs ≤ 0 || idLE e.id (opts.untilMs.toNat, 2 ^ 64 - 1))).take opts.effectiveLimit

/-- In the middle of a chain the pass reads the entry before its range. -/
def startWalk (opts : VerifyOptions) (entries : List StreamEntry) (first : StreamEntry) : Walk :=
  let result : VerifyResult := { status := .ok, retentionBoundarySeq := opts.retentionBoundarySeq }
  if opts.sinceMs > 0 then
    let before := entries.filter fun e =>
      match xRevBefore first.id with
      | none => true
      | some id => idLE e.id id
    match before.getLast? with
    | none => ⟨{ result with status := .partially }, none, 0⟩
    | some pred =>
      match pred.read decode with
      | none => ⟨result, none, 0⟩
      | some ev =>
        if (verifyEventHash D ev).getD false then ⟨result, some (ev.eventHash, ev.seq), 0⟩
        else ⟨{ result with status := .partially }, none, 0⟩
  else ⟨result, none, 0⟩

/-- `VerifyChain` over the entries of a stream. -/
def verifyChain (opts : VerifyOptions) (entries : List StreamEntry) : VerifyResult :=
  match selectEntries opts entries with
  | [] => { status := .ok, retentionBoundarySeq := opts.retentionBoundarySeq }
  | first :: rest =>
    let result :=
      ((first :: rest).foldl (walkEntry D decode opts) (startWalk D decode opts entries first)).result
    -- nothing but entries that retention has removed
    if result.status = .ok ∧ result.gaps ≠ [] then { result with status := .partially } else result

/-! ## Clean passes -/

variable {D decode} {entries : List StreamEntry}

/-- The event raises nothing after `prev`; the first one must not leave numbers out. -/
structure Passes (D : Digests) (opts : VerifyOptions) (prev : Option (Bytes × ℤ))
    (ev : SIEMEvent) : Prop where
  first : prev = none → opts.sinceMs = 0 → ev.seq ≤ 1
  order : ∀ h n, prev = some (h, n) → n ≤ ev.seq ∧ ev.seq ≤ n + 1
  link : ∀ h n, prev = some (h, n) → ev.prevHash = h
  hash : computeEventHash D ev = some ev.eventHash
  hmac : opts.hmacKey ≠ [] → ev.hmac ≠ [] → computeEventHMAC D ev opts.hmacKey = some ev.hmac

/-- All events from `prev` on raise nothing. -/
def PassesAll (D : Digests) (opts : VerifyOptions) : Option (Bytes × ℤ) → List SIEMEvent → Prop
  | _, [] => True
  | prev, ev :: evs => Passes D opts prev ev ∧ PassesAll D opts (some (ev.eventHash, ev.seq)) evs

theorem gapsFrom_eq_nil_iff {first : ℤ} {n : ℕ} {type : VerifyGapType} :
    gapsFrom first n type = [] ↔ n = 0 := by
  rw [gapsFrom, map_eq_nil_iff, range_eq_nil]

/-- The pass has started with the entry at hand, or knows the event before. -/
def Walk.Begun (w : Walk) : Prop := w.index = 0 ↔ w.prev = none

theorem hashOK_iff : hashOK D ev ↔ computeEventHash D ev = some ev.eventHash := by
  rw [hashOK, verifyEventHash]
  cases computeEventHash D ev with
  | none => simp
  | some got => simp [eq_comm]

theorem hmacOK_iff (hkey : opts.hmacKey ≠ []) (hmac : ev.hmac ≠ []) :
    hmacOK D opts ev ↔ computeEventHMAC D ev opts.hmacKey = some ev.hmac := by
  rw [hmacOK, verifyEventHMAC, if_neg (by simp [hkey, hmac])]
  cases computeEventHMAC D ev opts.hmacKey with
  | none => simp
  | some got => simp [eq_comm]

theorem linkOK_iff : linkOK w ev ↔ ∀ h n, w.prev = some (h, n) → ev.prevHash = h := by
  rw [linkOK]
  cases hp : w.prev with
  | none => simp
  | some p =>
    obtain ⟨h, n⟩ := p
    simp

theorem orderGaps_eq_nil_iff : orderGaps w ev = [] ↔ ∀ h n, w.prev = some (h, n) →
    n ≤ ev.seq ∧ ev.seq ≤ n + 1 := by
  rw [orderGaps]
  cases hp : w.prev with
  | none => simp
  | some p =>
    obtain ⟨h, n⟩ := p
    have hall : (∀ h' n', some (h, n) = some (h', n') → n' ≤ ev.seq ∧ ev.seq ≤ n' + 1) ↔
        n ≤ ev.seq ∧ ev.seq ≤ n + 1 :=
      ⟨fun hf => hf h n rfl, by rintro hf _ _ ⟨⟩; exact hf⟩
    rw [hall]
    dsimp only
    split
    · next hlt => simp; omega
    · split
      · next hgt => rw [gapsFrom_eq_nil_iff]; omega
      · exact iff_of_true rfl (by omega)

theorem leadingGaps_eq_nil_iff (hw : w.Begun) :
    leadingGaps opts w ev = [] ↔ (w.prev = none → opts.sinceMs = 0 → ev.seq ≤ 1) := by
  rw [leadingGaps]
  split
  · next h =>
    have hmax : maxRetentionTrimmedGaps = 1000 := rfl
    have hpv := hw.1 h.1
    rw [gapsFrom_eq_nil_iff]
    refine ⟨fun hz => absurd hz (by omega), fun hle => absurd (hle hpv h.2.1) (by omega)⟩
  · next h =>
    refine iff_of_true rfl fun hpv hsin => ?_
    by_contra hgt
    exact h ⟨hw.2 hpv, hsin, by omega⟩

theorem failedGaps_eq_nil_iff : failedGaps D opts w ev = [] ↔
    (∀ h n, w.prev = some (h, n) → n ≤ ev.seq ∧ ev.seq ≤ n + 1) ∧
      (computeEventHash D ev = some ev.eventHash ∧ ∀ h n, w.prev = some (h, n) → ev.prevHash = h) ∧
      (opts.hmacKey ≠ [] → ev.hmac ≠ [] → computeEventHMAC D ev opts.hmacKey = some ev.hmac) := by
  have hhs : (if hashOK D ev && linkOK w ev then ([] : List VerifyGap)
      else [⟨ev.seq, .hashMismatch⟩]) = [] ↔
      computeEventHash D ev = some ev.eventHash ∧ ∀ h n, w.prev = some (h, n) → ev.prevHash = h := by
    rw [← hashOK_iff, ← linkOK_iff, ← Bool.and_eq_true]
    split
    · next h => exact iff_of_true rfl h
    · next h => exact iff_of_false (by simp) h
  have hmac : (if opts.hmacKey ≠ [] ∧ ev.hmac ≠ [] ∧ hmacOK D opts ev = false then
        ([⟨ev.seq, .hmacMismatch⟩] : List VerifyGap) else []) = [] ↔
      (opts.hmacKey ≠ [] → ev.hmac ≠ [] → computeEventHMAC D ev opts.hmacKey = some ev.hmac) := by
    split
    · next h =>
      refine iff_of_false (by simp) fun hrig => ?_
      have hok := (hmacOK_iff h.1 h.2.1).2 (hrig h.1 h.2.1)
      rw [hok] at h
      cases h.2.2
    · next h =>
      refine iff_of_true rfl fun hkey hne => (hmacOK_iff hkey hne).1 ?_
      by_contra hbad
      exact h ⟨hkey, hne, Bool.not_eq_true _ ▸ hbad⟩
  rw [failedGaps, append_eq_nil_iff, append_eq_nil_iff, orderGaps_eq_nil_iff, hhs, hmac]

theorem walkEvent_clean (hw : w.Begun) :
    ((walkEvent D opts w ev).result.status = .ok ∧ (walkEvent D opts w ev).result.gaps = []) ↔
      (w.result.status = .ok ∧ w.result.gaps = []) ∧ Passes D opts w.prev ev := by
  have hps : Passes D opts w.prev ev ↔ leadingGaps opts w ev = [] ∧ failedGaps D opts w ev = [] := by
    rw [leadingGaps_eq_nil_iff hw, failedGaps_eq_nil_iff]
    exact ⟨fun h => ⟨h.first, h.order, ⟨h.hash, h.link⟩, h.hmac⟩,
      fun h => ⟨h.1, h.2.1, h.2.2.1.2, h.2.2.1.1, h.2.2.2⟩⟩
  rw [hps]
  simp only [walkEvent, append_eq_nil_iff]
  by_cases hfl : failedGaps D opts w ev = []
  · rw [if_pos hfl]
    exact ⟨fun h => ⟨⟨h.1, h.2.1⟩, h.2.2⟩, fun h => ⟨h.1.1, h.1.2, h.2⟩⟩
  · exact iff_of_false (fun h => hfl h.2.2.2) (fun h => hfl h.2.2)

theorem walkEvent_begun : (walkEvent D opts w ev).Begun :=
  ⟨fun h => absurd h (Nat.succ_ne_zero _), nofun⟩

theorem foldl_compromised (hw : w.result.status = .compromised) :
    (entries.foldl (walkEntry D decode opts) w).result.status = .compromised := by
  induction entries generalizing w with
  | nil => exact hw
  | cons entry entries ih =>
    refine ih ?_
    rw [walkEntry]
    split
    · rfl
    · simp only [walkEvent, hw, ite_self]

/-- **The pass is clean exactly when every entry can be read and raises nothing.** -/
theorem foldl_clean (D : Digests) (decode : Bytes → Option SIEMEvent) (opts : VerifyOptions) (hw : w.Begun)
    (entries : List StreamEntry) : ((entries.foldl (walkEntry D decode opts) w).result.status = .ok ∧
      (entries.foldl (walkEntry D decode opts) w).result.gaps = []) ↔
      (w.result.status = .ok ∧ w.result.gaps = []) ∧
      ∃ evs, List.Forall₂ (fun entry ev => entry.read decode = some ev) entries evs ∧
      PassesAll D opts w.prev evs := by
  induction entries generalizing w with
  | nil =>
    refine ⟨fun h => ⟨h, [], .nil, trivial⟩, fun h => h.1⟩
  | cons entry entries ih =>
    rw [foldl_cons, walkEntry]
    cases hrd : entry.read decode with
    | none =>
      constructor
      · rintro ⟨hok, -⟩
        rw [foldl_compromised rfl] at hok
        cases hok
      · rintro ⟨-, evs, hall, -⟩
        obtain ⟨ev, evs, hev, -, -⟩ := forall₂_cons_left_iff.1 hall
        rw [hrd] at hev
        cases hev
    | some ev =>
      rw [ih walkEvent_begun, walkEvent_clean hw]
      constructor
      · rintro ⟨⟨hcle, hps⟩, evs, hall, hrs⟩
        exact ⟨hcle, ev :: evs, .cons hrd hall, hps, hrs⟩
      · rintro ⟨hcle, evs, hall, hps⟩
        obtain ⟨ev', evs, hev, htl, rfl⟩ := forall₂_cons_left_iff.1 hall
        rw [hrd] at hev
        cases hev
        exact ⟨⟨hcle, hps.1⟩, evs, htl, hps.2⟩

/-- The whole stream, without a range. -/
def VerifyOptions.Whole (opts : VerifyOptions) : Prop := opts.sinceMs = 0 ∧ opts.untilMs = 0

theorem selectEntries_whole (h : opts.Whole) :
    selectEntries opts entries = entries.take opts.effectiveLimit := by
  rw [selectEntries, h.1, h.2]
  simp

theorem verifyChain_whole (h : opts.Whole) :
    verifyChain D decode opts entries =
      let result := ((entries.take opts.effectiveLimit).foldl (walkEntry D decode opts)
        ⟨{ status := .ok, retentionBoundarySeq := opts.retentionBoundarySeq }, none, 0⟩).result
      if result.status = .ok ∧ result.gaps ≠ [] then { result with status := .partially } else result := by
  rw [verifyChain, selectEntries_whole h]
  cases entries.take opts.effectiveLimit with
  | nil => rfl
  | cons first rest =>
    have hsrt : startWalk D decode opts entries first =
        ⟨{ status := .ok, retentionBoundarySeq := opts.retentionBoundarySeq }, none, 0⟩ := by
      exact if_neg (by rw [h.1]; omega)
    rw [← hsrt]

/-- **The whole stream is ok exactly when every entry read passes.** -/
theorem status_ok_iff (h : opts.Whole) (entries : List StreamEntry) :
    (verifyChain D decode opts entries).status = .ok ↔
      ∃ evs, List.Forall₂ (fun entry ev => entry.read decode = some ev)
        (entries.take opts.effectiveLimit) evs ∧ PassesAll D opts none evs := by
  have hbeg : Walk.Begun ⟨{ status := .ok, retentionBoundarySeq := opts.retentionBoundarySeq }, none, 0⟩ :=
    iff_of_true rfl rfl
  have hcle := foldl_clean D decode opts hbeg (entries.take opts.effectiveLimit)
  have hsim : ∀ r : VerifyResult,
      (if r.status = .ok ∧ r.gaps ≠ [] then { r with status := .partially } else r).status = .ok ↔
        r.status = .ok ∧ r.gaps = [] := by
    intro r
    split
    · next hp => exact ⟨nofun, fun hr => absurd hr.2 hp.2⟩
    next hp =>
    refine ⟨fun hok => ⟨hok, ?_⟩, fun hr => hr.1⟩
    by_contra hne
    exact hp ⟨hok, hne⟩
  rw [verifyChain_whole h, hsim, hcle]
  exact ⟨fun hr => hr.2, fun hr => ⟨⟨rfl, rfl⟩, hr⟩⟩

end Cordum.Audit
