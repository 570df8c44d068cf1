import Cordum.Auth.Revocation
import Cordum.Proof.TokenChains

/-!
# Revoked delegation tokens

Once a token is revoked, no issue verifies a parent under it while its marker stands
(`Barred.step`). So a revocation holds for good exactly if no token under the revoked one whose
issue had come that far before, signed or not, outlives the marker.
-/

namespace Cordum.Auth

open GoString List Relation DelegationClaims Option

variable {S : TokenService} {s s' : AuthState} {i : Issuance} {r jti aud : String} {revoked : List String}
  {now limit : ℤ} {R R' : RevocationStore} {rounds : ℕ} {cascade : Bool}

/-- A revocation marks its root, and every marker it sets lasts from now on. -/
theorem cascadeRevoke_expiry (h : cascadeRevoke rounds R now jti cascade = some (.ok (revoked, R'))) :
    trimSpace jti ≠ "" ∧ R'.expiry (trimSpace jti) = some (now + delegationRevocationTTL) ∧
      ∀ j, R'.expiry j = some (now + delegationRevocationTTL) ∨ R'.expiry j = R.expiry j := by
  unfold cascadeRevoke at h
  dsimp only at h
  split_ifs at h with hbl hmem
  · cases h
  swap
  · cases h
  obtain ⟨walked, hwalk, hout⟩ := map_eq_some_iff.1 h
  rcases walked with _ | toRevoke
  · cases hout
  cases hout
  have hroot : trimSpace jti ∈ toRevoke := by
    unfold preWalk at hwalk
    split_ifs at hwalk
    · exact Graph.subset_breadthFirst hwalk (mem_singleton_self _)
    · cases hwalk
      exact mem_singleton_self _
  exact ⟨hbl, if_pos hroot, fun j => ite_eq_or_eq _ _ _⟩

/-- A token under `r`: its own identifier or one of its chain is `r`. -/
def Under (r : String) (i : Issuance) : Prop :=
  r = i.claims.id ∨ r ∈ i.claims.delegationChain.map (·.jti)

theorem verified_verify : { s with pending := s.pending ++ [i] }.verified = s.verified ++ [i] :=
  (append_assoc ..).symm

/-- A signature adds nothing to the issues that have verified their parent. -/
theorem verified_sign {before after : List Issuance} (waits : s.pending = before ++ i :: after) :
    s.verified.Perm { s with pending := before ++ after, issued := s.issued ++ [i] }.verified := by
  simpa [AuthState.verified, waits] using perm_middle.append_left s.issued

/-- Identifiers differ, and tokens and markers are not of the future. -/
structure Clocked (S : TokenService) (s : AuthState) : Prop where
  issued : Issued S s.issued
  waiting : ∀ i ∈ s.pending, i.req.parentToken.Unforged s.issued ∧
    issueDelegationToken S i.env i.req = .ok i.claims
  distinct : (s.verified.map (·.claims.id)).Nodup
  started : ∀ i ∈ s.verified, i.env.now ≤ s.now
  marked : ∀ jti, ∀ e ∈ s.store.expiry jti, e ≤ s.now + delegationRevocationTTL

theorem Clocked.step (hs : Clocked S s) (h : Step S s s') : Clocked S s' := by
  cases h with
  | tick now later =>
    refine ⟨hs.issued, hs.waiting, hs.distinct, fun i hi => (hs.started i hi).trans later,
      fun jti e he => ?_⟩
    have := hs.marked jti e he
    dsimp only
    omega
  | record store markers =>
    exact ⟨hs.issued, hs.waiting, hs.distinct, hs.started, fun j e he => hs.marked j e (markers ▸ he)⟩
  | verify i permissions env started unforged fresh ok =>
    refine ⟨hs.issued, ?_, ?_, ?_, hs.marked⟩
    · rintro j hj
      rcases mem_append.1 hj with hj | hj
      · exact hs.waiting j hj
      · cases mem_singleton.1 hj
        exact ⟨unforged, ok⟩
    · rw [verified_verify, map_append, nodup_append]
      refine ⟨hs.distinct, nodup_singleton _, ?_⟩
      rintro _ hp _ hi rfl
      obtain ⟨p, hp, hid⟩ := mem_map.1 hp
      exact fresh p hp (hid.trans (mem_singleton.1 hi))
    · rw [verified_verify]
      intro j hj
      rcases mem_append.1 hj with hj | hj
      · exact hs.started j hj
      · cases mem_singleton.1 hj
        exact started
  | sign i before after waits =>
    have hperm := verified_sign waits
    obtain ⟨unforged, ok⟩ := hs.waiting i (by simp [waits])
    have hdis := (hperm.map (·.claims.id)).nodup_iff.1 hs.distinct
    refine ⟨.issue i hs.issued unforged ?_ ok, ?_, hdis, ?_, hs.marked⟩
    · intro p hp hid
      rw [AuthState.verified, map_append, map_append, nodup_append, nodup_append] at hdis
      exact hdis.1.2.2 _ (mem_map_of_mem hp) _ (mem_singleton_self _) hid
    · intro j hj
      obtain ⟨hun, hok⟩ := hs.waiting j (by rw [waits]; grind)
      exact ⟨fun c hc => (hun c hc).imp fun p hp => ⟨mem_append_left _ hp.1, hp.2⟩, hok⟩
    · exact fun j hj => hs.started j (hperm.mem_iff.2 hj)
  | revoke rounds jti cascade revoked store ok =>
    refine ⟨hs.issued, hs.waiting, hs.distinct, hs.started, fun j e he => ?_⟩
    rcases (cascadeRevoke_expiry ok).2.2 j with hj | hj
    · cases hj.symm.trans he
      exact le_rfl
    · exact hs.marked j e (hj ▸ he)

theorem Clocked.run (hs : Clocked S s) (h : ReflTransGen (Step S) s s') : Clocked S s' := by
  induction h with
  | refl => exact hs
  | tail _ hsp ih => exact ih.step hsp

theorem Run.clocked (h : Run S s) : Clocked S s := by
  obtain ⟨now, h⟩ := h
  refine Clocked.run ⟨.nil, ?_, ?_, ?_, ?_⟩ h <;> simp [AuthState.verified, RevocationStore.empty]

/-- The marker of `r` stands until `limit`, and no token under `r` lives longer. -/
structure Barred (r : String) (limit : ℤ) (s : AuthState) : Prop where
  trimmed : trimSpace r = r ∧ r ≠ ""
  marker : ∃ e ∈ s.store.expiry r, limit ≤ e
  known : ∃ i ∈ s.verified, i.claims.id = r
  ended : ∀ i ∈ s.verified, Under r i → i.claims.expiresAt + defaultClockLeeway ≤ limit

theorem Barred.rejects (hb : Barred r limit s) (hi : i ∈ s.verified) (hu : Under r i)
    {permissions : Option Resolver} : ¬ Accepted S (s.env permissions) i.claims aud := by
  intro hacc
  obtain ⟨e, he, hlim⟩ := hb.marker
  have hend := hb.ended i hi hu
  have hnow : s.now < i.claims.expiresAt + defaultClockLeeway := hacc.unexpired
  -- the token has not expired, so the marker still stands
  have hmem : r ∈ normalizeStringSet
      ((i.claims.id :: i.claims.delegationChain.map (·.jti)).filter (· ≠ "")) := by
    refine mem_normalizeStringSet.2 ⟨⟨r, mem_filter.2 ⟨mem_cons.2 hu, ?_⟩, hb.trimmed.1⟩, hb.trimmed.2⟩
    simpa using hb.trimmed.2
  have hlv := checkRevoked_eq_none_iff.1 hacc.live r hmem
  have hrev : s.store.isRevoked s.now r := by
    simp only [RevocationStore.isRevoked, hb.trimmed.1, mem_def.1 he]
    simpa [hb.trimmed.2] using lt_of_lt_of_le hnow (hend.trans hlim)
  rw [hrev] at hlv
  cases hlv

theorem Barred.step (hb : Barred r limit s) (hlim : limit ≤ s.now + delegationRevocationTTL)
    (h : Step S s s') : Barred r limit s' := by
  cases h with
  | tick => exact ⟨hb.trimmed, hb.marker, hb.known, hb.ended⟩
  | record store markers => exact ⟨hb.trimmed, markers ▸ hb.marker, hb.known, hb.ended⟩
  | verify i permissions env started unforged fresh ok =>
    obtain ⟨p, hp, hid⟩ := hb.known
    refine ⟨hb.trimmed, hb.marker, ⟨p, verified_verify ▸ mem_append_left _ hp, hid⟩, ?_⟩
    intro j hj hu
    rw [verified_verify] at hj
    rcases mem_append.1 hj with hj | hj
    · exact hb.ended j hj hu
    cases mem_singleton.1 hj
    -- a new token under `r` would have a parent under `r`, which no verification accepts
    exfalso
    obtain ⟨parent, hd⟩ := issue_derives ok
    have hfr : r ≠ i.claims.id := hid ▸ fresh p hp
    have hmem : r ∈ i.claims.links.map Prod.fst := by
      simpa [links] using hu.resolve_left hfr
    rw [hd.links, map_append, mem_append] at hmem
    rcases hmem with hmem | hmem
    · cases parent with
      | none => simp at hmem
      | some c =>
        obtain ⟨q, hq, rfl⟩ := unforged c hd.asked
        have hacc := hd.verified _ rfl
        rw [env] at hacc
        exact hb.rejects (mem_append_left _ hq) (.inr (by simpa [links] using hmem)) hacc
    · exact hfr (by simpa using hmem)
  | sign i before after waits =>
    have hperm := verified_sign waits
    refine ⟨hb.trimmed, hb.marker, ?_, fun j hj => hb.ended j (hperm.mem_iff.2 hj)⟩
    exact hb.known.imp fun j hj => ⟨hperm.mem_iff.1 hj.1, hj.2⟩
  | revoke rounds jti cascade revoked store ok =>
    refine ⟨hb.trimmed, ?_, hb.known, hb.ended⟩
    rcases (cascadeRevoke_expiry ok).2.2 r with hr | hr
    · exact ⟨_, hr, hlim⟩
    · obtain ⟨e, he, hle⟩ := hb.marker
      exact ⟨e, hr.trans he, hle⟩

theorem Step.now_le (h : Step S s s') : s.now ≤ s'.now := by
  cases h with
  | tick now later => exact later
  | record | verify | sign | revoke => exact le_rfl

theorem Barred.run (hb : Barred r limit s) (hlim : limit ≤ s.now + delegationRevocationTTL)
    (h : ReflTransGen (Step S) s s') : Barred r limit s' ∧ limit ≤ s'.now + delegationRevocationTTL := by
  induction h with
  | refl => exact ⟨hb, hlim⟩
  | tail _ hsp ih => exact ⟨ih.1.step ih.2 hsp, by have := hsp.now_le; omega⟩

/-- An issue that has verified its parent can be signed at once. -/
theorem exists_signed (hi : i ∈ s.verified) : ∃ s', ReflTransGen (Step S) s s' ∧ i ∈ s'.issued ∧
    s'.now = s.now ∧ s'.store = s.store := by
  rcases mem_append.1 hi with hi | hi
  · exact ⟨s, .refl, hi, rfl, rfl⟩
  · obtain ⟨before, after, waits⟩ := append_of_mem hi
    exact ⟨_, .single (.sign s i before after waits), by simp, rfl, rfl⟩

/-- **Revocation is permanent** exactly if no token under the revoked one whose issue had verified its
parent by then outlives the marker. -/
theorem revocation_permanent_iff (hs : Run S s) {store : RevocationStore}
    (hr : ∃ i ∈ s.issued, i.claims.id = trimSpace jti)
    (hok : cascadeRevoke rounds s.store s.now jti cascade = some (.ok (revoked, store))) :
    (∀ s', ReflTransGen (Step S) { s with store } s' → ∀ i ∈ s'.issued, Under (trimSpace jti) i →
      ∀ permissions aud v, verifyDelegationToken S (s'.env permissions) (.signed i.claims) aud ≠ .ok v) ↔
    ∀ i ∈ s.verified, Under (trimSpace jti) i →
      i.claims.expiresAt + defaultClockLeeway ≤ s.now + delegationRevocationTTL := by
  obtain ⟨hbl, hmar, hoth⟩ := cascadeRevoke_expiry hok
  constructor
  · intro hall i hi hu
    by_contra hln
    push Not at hln
    -- signed at once, the token is still accepted at the end of the marker
    have hc := hs.clocked.step (.revoke s rounds jti cascade revoked store hok)
    obtain ⟨s', hrun, hi', hnow, hsto⟩ := exists_signed (S := S) (s := { s with store }) (i := i) hi
    obtain ⟨-, _, -, hd⟩ := (hc.run hrun).issued.derives.2 i hi'
    refine hall { s' with now := s.now + delegationRevocationTTL }
      (hrun.tail (.tick _ _ ?_)) i hi' hu none "" _
      (verify_ok_iff.2 ⟨_, rfl, rfl, hln, ?_, .inl rfl, ⟨?_, hd.depth⟩, rfl, ?_⟩)
    · exact hnow ▸ Int.le_add_of_nonneg_right (by decide)
    · have hsrt : i.env.now ≤ s.now := hc.started i hi
      have hpos : 0 ≤ delegationRevocationTTL ∧ 0 ≤ defaultClockLeeway := by decide
      have hdt : numericDate i.env.now ≤ i.env.now := Int.ediv_mul_le _ (by decide)
      rw [hd.notBefore]
      dsimp only [AuthState.env]
      omega
    · have := hd.length
      have := hd.depth.1
      omega
    · refine checkRevoked_eq_none_iff.2 fun j _ => congrArg some ?_
      cases he : store.expiry (trimSpace j) with
      | none => simp [RevocationStore.isRevoked, hsto, he]
      | some e =>
        have hle : e ≤ s.now + delegationRevocationTTL := hc.marked _ e he
        simp [RevocationStore.isRevoked, hsto, he, hle]
  · intro hend s' hrun i hi hu permissions aud v hv
    have hb : Barred (trimSpace jti) (s.now + delegationRevocationTTL) { s with store } :=
      ⟨⟨trimSpace_trimSpace, hbl⟩, ⟨_, hmar, le_rfl⟩, hr.imp fun _ h => ⟨mem_append_left _ h.1, h.2⟩, hend⟩
    obtain ⟨_, ⟨⟩, -, hacc⟩ := verify_ok_iff.1 hv
    exact (hb.run le_rfl hrun).1.rejects (mem_append_left _ hi) hu hacc

/-- The tokens on record. -/
def sampleStore : RevocationStore := { RevocationStore.empty with tokens := ["01", "03"] }

theorem run_verified {pending issued : List Issuance} (hs : Run ⟨3⟩ ⟨0, pending, issued, sampleStore⟩)
    (henv : i.env.verify = (sampleChild 0).env.verify) (hnow : i.env.now = 0)
    (unforged : i.req.parentToken.Unforged issued)
    (fresh : ∀ p ∈ issued ++ pending, p.claims.id ≠ i.claims.id)
    (ok : issueDelegationToken ⟨3⟩ i.env i.req = .ok i.claims) :
    Run ⟨3⟩ ⟨0, pending ++ [i], issued, sampleStore⟩ := by
  obtain ⟨now, hs⟩ := hs
  refine ⟨now, hs.tail (.verify _ i (sampleChild 0).env.verify.permissions ?_ hnow.le unforged fresh ok)⟩
  rw [henv]
  simp [AuthState.env, RevocationStore.isRevoked, sampleChild, sample, sampleStore, RevocationStore.empty]

theorem run_signed {issued : List Issuance} (hs : Run ⟨3⟩ ⟨0, [i], issued, sampleStore⟩) :
    Run ⟨3⟩ ⟨0, [], issued ++ [i], sampleStore⟩ := by
  obtain ⟨now, hs⟩ := hs
  exact ⟨now, hs.tail (.sign ⟨0, [i], issued, sampleStore⟩ i [] [] rfl)⟩

theorem run_recorded : Run ⟨3⟩ ⟨0, [], [], sampleStore⟩ := ⟨0, .single (.record _ sampleStore rfl)⟩

theorem cascadeRevoke_lone (ht : trimSpace jti = jti) (hne : jti ≠ "") (hmem : jti ∈ R.tokens) :
    cascadeRevoke rounds R now jti false =
      some (.ok (cascadeRevocationJTIs [jti], R.revoke now [jti])) := by
  simp [cascadeRevoke, preWalk, RevocationStore.outcome, ht, hne, hmem]

/-- A token is revoked while a child of it waits for its signature. -/
theorem revocation_permanent_sample : ∃ revoked store,
    cascadeRevoke 1 sampleStore 0 "01" false = some (.ok (revoked, store)) ∧
      ∀ s', ReflTransGen (Step ⟨3⟩) ⟨0, [sampleChild second], [sampleRoot], store⟩ s' → ∀ i ∈ s'.issued,
        Under (trimSpace "01") i → ∀ permissions aud v,
          verifyDelegationToken ⟨3⟩ (s'.env permissions) (.signed i.claims) aud ≠ .ok v := by
  have hroot := run_signed (run_verified (i := sampleRoot) run_recorded rfl rfl (by rintro c ⟨⟩) (by simp)
    (by decide +kernel))
  have hrun := run_verified (i := sampleChild second) hroot rfl rfl
    (by rintro c ⟨⟩; exact ⟨_, mem_singleton_self _, rfl⟩) (by decide +kernel) (by decide +kernel)
  have hok : cascadeRevoke 1 sampleStore 0 "01" false = _ :=
    cascadeRevoke_lone (by decide +kernel) (by decide) (by decide)
  refine ⟨_, _, hok, (revocation_permanent_iff hrun ?_ hok).2 ?_⟩
  · exact ⟨sampleRoot, .head _, by decide +kernel⟩
  · intro i hi _
    rcases mem_pair.1 hi with rfl | rfl <;> decide +kernel

/-- A token of the longest lifetime. -/
def sampleLong : Issuance :=
  sample "lead" "coder" ["read"] maxTokenTTL ⟨"03", by decide +kernel, by decide⟩ .blank

/-- A token revoked after its issue is accepted again in the leeway. -/
theorem revoked_token_accepted : Run ⟨3⟩ ⟨0, [], [sampleLong], sampleStore⟩ ∧
    cascadeRevoke 1 sampleStore 0 "03" false =
    some (.ok (cascadeRevocationJTIs ["03"], sampleStore.revoke 0 ["03"])) ∧ (verifyDelegationToken ⟨3⟩
      ((AuthState.mk delegationRevocationTTL [] [sampleLong] (sampleStore.revoke 0 ["03"])).env none)
      (.signed sampleLong.claims) "coder").isOk :=
  ⟨run_signed (run_verified (i := sampleLong) run_recorded rfl rfl (by rintro c ⟨⟩)
    (by simp) (by decide +kernel)),
    cascadeRevoke_lone (by decide +kernel) (by decide) (by decide), by decide +kernel⟩

end Cordum.Auth
