import Mathlib.Data.List.Chain
import Cordum.Auth.Gateway

/-!
# Chains of delegation tokens

`issue_derives` says what an issue makes of its request and its parent (`Derives`), and
`lineage_induction` carries that over whole chains of parents: `delegation_attenuates`, and by
`lineage_forall_iff` what tenants and expiries need beyond it. What keeps a chain in one tenant is
the gateway's look at the agents (`tenants_agree`).
-/

namespace Cordum.Auth

open GoString List

variable {S : TokenService} {h : List Issuance} {i p : Issuance} {requested permitted l : List String}

/-- The identifiers a chain records: of every token and of its parent. -/
def DelegationClaims.links (c : DelegationClaims) : List (String × String) :=
  c.delegationChain.map fun l => (l.jti, l.parentJTI)

/-- A token's scope lies in what its delegator was permitted when it was issued. -/
def Permitted (i : Issuance) : Prop :=
  ∃ perms ∈ resolveAgentPermissions i.env.permissions i.claims.subject,
    i.claims.allowedActions ⊆ perms.allowedActions ∧ i.claims.allowedTopics ⊆ perms.allowedTopics

/-- What an issue with the given parent makes of its request. -/
structure Derives (S : TokenService) (i : Issuance) (parent : Option DelegationClaims) : Prop where
  asked : i.req.parentToken = parent.elim .blank .signed
  verified : ∀ p ∈ parent, Accepted S i.env.verify p i.claims.subject
  subject : i.claims.subject ≠ "" ∧ trimSpace i.claims.subject = i.claims.subject
  parties : i.claims.subject = trimSpace i.req.delegatingAgentID ∧
    i.claims.audience = [trimSpace i.req.targetAgentID]
  tenant : i.claims.tenant = trimSpace i.req.tenant ∧ i.claims.tenant ≠ ""
  depth : i.claims.chainDepth = i.claims.delegationChain.length ∧ i.claims.chainDepth ≤ S.maxDepth
  links : i.claims.links = parent.elim [] (·.links) ++ [(i.claims.id, trimSpace (parent.elim "" (·.id)))]
  parentJTI : i.claims.parentTokenJTI = trimSpace (parent.elim "" (·.id))
  scope : ∀ p ∈ parent, i.claims.allowedActions ⊆ normalizeStringSet p.allowedActions ∧
    i.claims.allowedTopics ⊆ normalizeStringSet p.allowedTopics
  permitted : Permitted i
  clean : ∀ a, a ∈ i.claims.allowedActions ∨ a ∈ i.claims.allowedTopics ∨
    a ∈ i.claims.audience ∨ a = i.claims.id → trimSpace a = a
  named : i.claims.id ≠ ""
  lifetime : 0 < i.req.lifetime ∧ i.req.lifetime ≤ maxTokenTTL
  expiresAt : i.claims.expiresAt = numericDate (i.env.now + i.req.lifetime)
  notBefore : i.claims.notBefore = numericDate i.env.now

theorem Derives.length {parent : Option DelegationClaims} (hd : Derives S i parent) :
    i.claims.delegationChain.length = parent.elim 0 (·.delegationChain.length) + 1 := by
  have h := congrArg List.length hd.links
  cases parent <;> simpa [DelegationClaims.links] using h

/-- A signed text that was asked for is the parent. -/
theorem Derives.parent_of_asked {parent : Option Issuance} {c : DelegationClaims}
    (hd : Derives S i (parent.map (·.claims))) (hc : i.req.parentToken = .signed c) :
    ∃ p, parent = some p ∧ p.claims = c := by
  rw [hd.asked] at hc
  cases parent with
  | none => cases hc
  | some p => exact ⟨p, rfl, TokenText.signed.inj hc⟩

theorem normalize_ok {req r : IssueRequest} {ttl : ℤ} (h : normalizeIssueRequest req = .ok (r, ttl)) :
    r = { req with
      tenant := trimSpace req.tenant
      delegatingAgentID := trimSpace req.delegatingAgentID
      targetAgentID := trimSpace req.targetAgentID } ∧
    (trimSpace req.tenant ≠ "" ∧ trimSpace req.delegatingAgentID ≠ "") ∧ ttl = req.lifetime ∧
      req.lifetime ≤ maxTokenTTL := by
  unfold normalizeIssueRequest at h
  dsimp only at h
  split_ifs at h with hbl hmax
  cases h
  push Not at hbl
  exact ⟨rfl, ⟨hbl.1, hbl.2.1⟩, rfl, not_lt.1 hmax⟩

theorem lifetime_pos {req : IssueRequest} : 0 < req.lifetime := by
  unfold IssueRequest.lifetime
  split_ifs with h
  · decide
  · omega

theorem loadParent_ok {env : VerifyEnv} {req : IssueRequest} {parent : Option VerifiedToken}
    (h : loadParentClaims S env req = .ok parent) :
    ∃ claims : Option DelegationClaims, parent = claims.map verifiedTokenFromClaims ∧
      req.parentToken = claims.elim .blank .signed ∧ ∀ c ∈ claims,
      Accepted S env c req.delegatingAgentID := by
  unfold loadParentClaims at h
  split at h
  · cases h
    exact ⟨none, rfl, ‹_›, by simp⟩
  · cases hv : verifyDelegationToken S env req.parentToken req.delegatingAgentID with
    | error e =>
      rw [hv] at h
      cases h
    | ok v =>
      rw [hv] at h
      cases h
      obtain ⟨c, htok, rfl, hacc⟩ := verify_ok_iff.1 hv
      exact ⟨some c, rfl, htok, by simpa using hacc⟩

theorem trimSpace_of_mem_requestedScope {parent : Option (List String)} {a : String}
    (h : a ∈ requestedScope requested permitted parent) : trimSpace a = a := by
  unfold requestedScope at h
  dsimp only at h
  split at h
  · split_ifs at h <;> exact trimSpace_of_mem h
  · split_ifs at h <;> exact trimSpace_of_mem h

theorem issue_derives (hok : issueDelegationToken S i.env i.req = .ok i.claims) :
    ∃ parent, Derives S i parent := by
  obtain ⟨env, request, claims⟩ := i
  dsimp only at hok
  unfold issueDelegationToken at hok
  split at hok
  · cases hok
  rename_i req ttl hnr
  obtain ⟨hreq, ⟨hten, hsub⟩, rfl, hmax⟩ := normalize_ok hnr
  split at hok
  · cases hok
  rename_i parent hld
  obtain ⟨parent, rfl, hask, hver⟩ := loadParent_ok hld
  split at hok
  · cases hok
  rename_i perms hpm
  dsimp only at hok
  split_ifs at hok with hsc hper
  split at hok
  · cases hok
  rename_i jti hjti
  split_ifs at hok with hdp
  simp only [Bool.or_eq_true, Bool.not_eq_true', not_or, Bool.not_eq_false, isSubset_iff] at hper
  subst hreq
  cases hok
  refine ⟨parent, ?_⟩
  constructor
  case asked => exact hask
  case verified => exact hver
  case subject => exact ⟨hsub, trimSpace_trimSpace⟩
  case parties => exact ⟨rfl, rfl⟩
  case tenant => exact ⟨rfl, hten⟩
  case depth => exact ⟨rfl, not_lt.1 hdp⟩
  case links => cases parent <;> simp [DelegationClaims.links, verifiedTokenFromClaims]
  case parentJTI => cases parent <;> rfl
  case scope =>
    rintro p rfl
    by_contra hexc
    refine hsc ⟨_, rfl, ?_⟩
    simp only [Bool.or_eq_true, Bool.not_eq_true', ← Bool.not_eq_true, isSubset_iff]
    exact not_and_or.1 hexc
  case permitted => exact ⟨perms, hpm, hper⟩
  case clean =>
    rintro a (ha | ha | ha | rfl)
    · exact trimSpace_of_mem_requestedScope ha
    · exact trimSpace_of_mem_requestedScope ha
    · cases List.mem_singleton.1 ha
      exact trimSpace_trimSpace
    · exact jti.trimmed
  case named => exact jti.ne_blank
  case lifetime => exact ⟨lifetime_pos, hmax⟩
  case expiresAt => rfl
  case notBefore => rfl

/-- Every token was derived from its parent, itself an issued token. -/
theorem Issued.derives (hI : Issued S h) : (h.map (·.claims.id)).Nodup ∧ ∀ i ∈ h,
    i.claims.delegationChain.length ≤ h.length ∧
      ∃ parent : Option Issuance, (∀ p ∈ parent, p ∈ h) ∧ Derives S i (parent.map (·.claims)) := by
  induction hI with
  | nil => simp
  | @issue h i _ unforged fresh ok ih =>
    refine ⟨?_, ?_⟩
    · rw [map_append, nodup_append]
      refine ⟨ih.1, nodup_singleton _, ?_⟩
      rintro _ hp _ hi rfl
      obtain ⟨p, hp, hid⟩ := mem_map.1 hp
      exact fresh p hp (hid.trans (mem_singleton.1 hi))
    · intro j hj
      rcases mem_append.1 hj with hj | hj
      · obtain ⟨hlen, parent, hpar, hd⟩ := ih.2 j hj
        refine ⟨hlen.trans (by simp), parent, ?_, hd⟩
        intro p hp
        exact mem_append_left _ (hpar p hp)
      · cases mem_singleton.1 hj
        obtain ⟨claims, hd⟩ := issue_derives ok
        cases claims with
        | none => exact ⟨by simp [hd.length], none, by simp, hd⟩
        | some c =>
          obtain ⟨p, hp, rfl⟩ := unforged c hd.asked
          refine ⟨?_, some p, ?_, hd⟩
          · have := (ih.2 p hp).1
            simp only [hd.length, Option.elim_some, length_append, length_singleton]
            omega
          · rintro _ ⟨⟩
            exact mem_append_left _ hp

/-- The parent found by its identifier is the one the token was derived from. -/
theorem find_parent (hI : Issued S h) {parent : Option Issuance} (hpar : ∀ p ∈ parent, p ∈ h)
    (hd : Derives S i (parent.map (·.claims))) :
    h.find? (·.claims.id = i.claims.parentTokenJTI) = parent := by
  have clean : ∀ p ∈ h, trimSpace p.claims.id = p.claims.id ∧ p.claims.id ≠ "" := by
    intro p hp
    obtain ⟨-, _, -, hp⟩ := hI.derives.2 p hp
    exact ⟨hp.clean _ (.inr (.inr (.inr rfl))), hp.named⟩
  rw [hd.parentJTI]
  cases parent with
  | none =>
    rw [find?_eq_none]
    intro p hp
    simpa using (clean p hp).2
  | some p =>
    have hp := hpar p rfl
    simp only [Option.map_some, Option.elim_some, (clean p hp).1]
    obtain ⟨q, hq⟩ :=
        Option.isSome_iff_exists.1 (find?_isSome (p := (·.claims.id = p.claims.id)).2 ⟨p, hp, by simp⟩)
    rw [hq]
    have hid : q.claims.id = p.claims.id := by simpa using find?_some hq
    exact congrArg some (inj_on_of_nodup_map hI.derives.1 (mem_of_find?_eq_some hq) hp hid)

/-- A property of first tokens that passes from a parent to its child holds of the chain of every
token. -/
theorem lineage_induction (hI : Issued S h) {motive : Issuance → List Issuance → Prop}
    (root : ∀ i ∈ h, Derives S i none → motive i [i])
    (child : ∀ p ∈ h, ∀ i ∈ h, Derives S i (some p.claims) → ∀ ts, motive p ts → motive i (ts ++ [i])) :
    ∀ i ∈ h, motive i (lineage h h.length i) := by
  -- the chain that a token records bounds the parents that are left
  have bounded : ∀ n, ∀ i ∈ h, i.claims.delegationChain.length ≤ n + 1 → motive i (lineage h n i) := by
    intro n
    induction n with
    | zero =>
      intro i hi hlen
      obtain ⟨-, parent, hpar, hd⟩ := hI.derives.2 i hi
      cases parent with
      | none => exact root i hi hd
      | some p =>
        obtain ⟨-, _, -, hp⟩ := hI.derives.2 p (hpar p rfl)
        have := hd.length
        simp [hp.length] at this
        omega
    | succ n ih =>
      intro i hi hlen
      obtain ⟨-, parent, hpar, hd⟩ := hI.derives.2 i hi
      rw [lineage, find_parent hI hpar hd]
      cases parent with
      | none => exact root i hi hd
      | some p =>
        have := hd.length
        simp only [Option.map_some, Option.elim_some] at this
        exact child p (hpar p rfl) i hi hd _ (ih p (hpar p rfl) (by omega))
  intro i hi
  exact bounded h.length i hi ((hI.derives.2 i hi).1.trans (Nat.le_succ _))

/-- From a parent to its child no scope is added, and the delegator received the parent. -/
def Attenuates (p i : Issuance) : Prop :=
  i.claims.allowedActions ⊆ p.claims.allowedActions ∧ i.claims.allowedTopics ⊆ p.claims.allowedTopics ∧
    i.claims.subject ∈ p.claims.audience

theorem normalizeStringSet_subset (hl : ∀ a ∈ l, trimSpace a = a) : normalizeStringSet l ⊆ l := by
  intro a ha
  obtain ⟨⟨b, hb, rfl⟩, -⟩ := mem_normalizeStringSet.1 ha
  rwa [hl b hb]

theorem attenuates (hI : Issued S h) (hp : p ∈ h) (hd : Derives S i (some p.claims)) : Attenuates p i := by
  obtain ⟨-, _, -, hdp⟩ := hI.derives.2 p hp
  have hsc := hd.scope _ rfl
  refine ⟨List.Subset.trans hsc.1 ?_, List.Subset.trans hsc.2 ?_, ?_⟩
  · exact normalizeStringSet_subset fun a ha => hdp.clean a (.inl ha)
  · exact normalizeStringSet_subset fun a ha => hdp.clean a (.inr (.inl ha))
  · have haud := (hd.verified _ rfl).audience.resolve_left hd.subject.1
    simp only [audienceContains, hd.subject.2, hd.subject.1, decide_false, Bool.false_or, any_eq_true,
      decide_eq_true_eq] at haud
    obtain ⟨a, ha, hsm⟩ := haud
    rwa [← hsm, hdp.clean a (.inr (.inr (.inl ha)))]

/-- The links of a token carry the identifiers of its chain, each with that of the token before it. -/
structure Attenuated (S : TokenService) (i : Issuance) (ts : List Issuance) : Prop where
  last : ts.getLast? = some i
  length : ts.length = i.claims.delegationChain.length
  depth : i.claims.chainDepth = i.claims.delegationChain.length ∧ i.claims.chainDepth ≤ S.maxDepth
  steps : ts.IsChain Attenuates
  permitted : ∀ t ∈ ts, Permitted t
  links : i.claims.links = (ts.map (·.claims.id)).zip ("" :: (ts.map (·.claims.id)).dropLast)

theorem attenuated (hI : Issued S h) : ∀ i ∈ h, Attenuated S i (lineage h h.length i) := by
  refine lineage_induction hI ?_ ?_
  · intro i hi hd
    exact ⟨rfl, hd.length.symm, hd.depth, .singleton _, by simpa using hd.permitted, by simp [hd.links]⟩
  · intro p hp i hi hd ts ih
    obtain ⟨-, _, -, hdp⟩ := hI.derives.2 p hp
    obtain ⟨ts, rfl⟩ : ∃ l, ts = l ++ [p] := ⟨_, (dropLast_append_getLast? p ih.last).symm⟩
    have hid : trimSpace p.claims.id = p.claims.id := hdp.clean _ (.inr (.inr (.inr rfl)))
    constructor
    case last => exact getLast?_concat
    case steps =>
      rw [isChain_append]
      refine ⟨ih.steps, .singleton _, ?_⟩
      simpa using attenuates hI hp hd
    case permitted =>
      intro t ht
      rcases mem_append.1 ht with ht | ht
      · exact ih.permitted t ht
      · cases mem_singleton.1 ht
        exact hd.permitted
    case links =>
      set ids := ts.map (·.claims.id)
      have hzip : (ids ++ [p.claims.id] ++ [i.claims.id]).zip ("" :: ids ++ [p.claims.id]) =
          (ids ++ [p.claims.id]).zip ("" :: ids) ++ [(i.claims.id, p.claims.id)] := zip_append (by simp)
      simpa [hd.links, ih.links, hid, ids] using hzip.symm
    case length => simp [hd.length, ← ih.length]
    case depth => exact hd.depth

/-- **Delegation only attenuates.** The chain of an accepted token is the one it records, and no step
of it adds to the scope. -/
theorem delegation_attenuates (hI : Issued S h) {token : TokenText}
    (hu : token.Unforged h) {env : VerifyEnv}
    {aud : String} {v : VerifiedToken} (hv : verifyDelegationToken S env token aud = .ok v) :
    ∃ i ∈ h, token = .signed i.claims ∧ Attenuated S i (lineage h h.length i) := by
  obtain ⟨c, rfl, -, -⟩ := verify_ok_iff.1 hv
  obtain ⟨i, hi, rfl⟩ := hu c rfl
  exact ⟨i, hi, rfl, attenuated hI i hi⟩

section

/-- The issue at time zero of a token of tenant red, to agents that may read and write. -/
def sample (agent target : String) (actions : List String) (ttl : ℤ) (jti : JTI)
    (parent : TokenText) : Issuance :=
  let scopes : Option Resolver := some fun _ => some ⟨["read", "write"], ["jobs"]⟩
  let env : IssueEnv := ⟨0, ⟨0, scopes, some fun _ => some false⟩, scopes, some jti⟩
  let req : IssueRequest := ⟨"red", agent, target, actions, ["jobs"], ttl, parent⟩
  ⟨env, req, (issueDelegationToken ⟨3⟩ env req).toOption.getD default⟩

/-- A first token. -/
def sampleRoot : Issuance :=
  sample "lead" "coder" ["read", "write"] (60 * second) ⟨"01", by decide +kernel, by decide⟩ .blank

/-- A child with less scope and the given lifetime. -/
def sampleChild (ttl : ℤ) : Issuance :=
  sample "coder" "tester" ["read"] ttl ⟨"02", by decide +kernel, by decide⟩ (.signed sampleRoot.claims)

theorem issued_root : Issued ⟨3⟩ [sampleRoot] :=
  .issue sampleRoot .nil (by rintro c ⟨⟩) (by simp) (by decide +kernel)

theorem issued_sample {ttl : ℤ} (hid : sampleRoot.claims.id ≠ (sampleChild ttl).claims.id)
    (hok : issueDelegationToken ⟨3⟩ (sampleChild ttl).env (sampleChild ttl).req =
      .ok (sampleChild ttl).claims) :
    Issued ⟨3⟩ [sampleRoot, sampleChild ttl] := by
  refine .issue _ issued_root ?_ ?_ hok
  · rintro c ⟨⟩
    exact ⟨_, mem_singleton_self _, rfl⟩
  · simpa using hid

end

/-- A child that may only read. -/
theorem delegation_attenuates_sample :
    (sampleChild second).claims.allowedActions = ["read"] ∧
      ∃ i ∈ [sampleRoot, sampleChild second],
      TokenText.signed (sampleChild second).claims = .signed i.claims ∧
        Attenuated ⟨3⟩ i (lineage [sampleRoot, sampleChild second] 2 i) :=
  have hv : verifyDelegationToken ⟨3⟩ ⟨0, none, none⟩ (.signed (sampleChild second).claims) "tester" =
      .ok (verifiedTokenFromClaims (sampleChild second).claims) := by decide +kernel
  ⟨by decide +kernel, delegation_attenuates (issued_sample (by decide +kernel) (by decide +kernel))
    (fun _ hc => ⟨sampleChild second, by simp, by cases hc; rfl⟩) hv⟩

/-- Every issued token is accepted at its own start, where nothing is revoked. -/
theorem accepted_at_start (hI : Issued S h) (hi : i ∈ h) :
    ∃ env aud v, verifyDelegationToken S env (.signed i.claims) aud = .ok v := by
  obtain ⟨-, _, -, hd⟩ := hI.derives.2 i hi
  refine ⟨⟨i.claims.notBefore, none, none⟩, "", _, verify_ok_iff.2 ⟨_, rfl, rfl, ?_⟩⟩
  have hlen := hd.length
  have hle : i.claims.notBefore ≤ i.claims.expiresAt := by
    rw [hd.notBefore, hd.expiresAt]
    have := hd.lifetime.1
    unfold numericDate second
    omega
  have hlee : 0 < defaultClockLeeway := by decide
  have hdep := hd.depth
  exact ⟨by dsimp only; omega, by dsimp only; omega, .inl rfl, ⟨by omega, hdep⟩, rfl, rfl⟩

theorem self_mem_lineage (h : List Issuance) {n : ℕ} : i ∈ lineage h n i := by
  cases n with
  | zero => exact mem_singleton_self i
  | succ n =>
    unfold lineage
    split <;> simp

/-- A reflexive and transitive relation holds between a token and its ancestors exactly if every
request keeps it. -/
theorem lineage_forall_iff (hI : Issued S h) {R : DelegationClaims → DelegationClaims → Prop}
    (hrf : ∀ c, R c c)
    (htr : ∀ a b c, R a b → R b c → R a c) : (∀ i ∈ h, ∀ t ∈ lineage h h.length i, R t.claims i.claims) ↔
      ∀ i ∈ h, ∀ c, i.req.parentToken = .signed c → R c i.claims := by
  constructor
  · intro hall i hi c hc
    obtain ⟨-, parent, hpar, hd⟩ := hI.derives.2 i hi
    obtain ⟨p, rfl, rfl⟩ := hd.parent_of_asked hc
    apply hall i hi p
    obtain ⟨n, hn⟩ := Nat.exists_eq_add_one_of_ne_zero (length_pos_of_mem hi).ne'
    rw [hn, lineage, find_parent hI hpar hd]
    exact mem_append_left _ (self_mem_lineage h)
  · intro hsp
    refine lineage_induction hI (motive := fun i ts => ∀ t ∈ ts, R t.claims i.claims) ?_ ?_
    · intro i _ _ t ht
      cases mem_singleton.1 ht
      exact hrf _
    · intro p _ i hi hd ts ih t ht
      rcases mem_append.1 ht with ht | ht
      · exact htr _ _ _ (ih t ht) (hsp i hi _ hd.asked)
      · cases mem_singleton.1 ht
        exact hrf _

/-- A chain keeps to one tenant exactly if every request names its parent's. -/
theorem tenants_agree_iff (hI : Issued S h) :
    (∀ i ∈ h, (∃ env aud v, verifyDelegationToken S env (.signed i.claims) aud = .ok v) →
      ∀ t ∈ lineage h h.length i, t.claims.tenant = i.claims.tenant) ↔
    ∀ i ∈ h, ∀ c, i.req.parentToken = .signed c → c.tenant = trimSpace i.req.tenant := by
  have hiff := lineage_forall_iff hI (R := fun p c => p.tenant = c.tenant) (fun _ => rfl)
    fun _ _ _ => Eq.trans
  have hten : ∀ i ∈ h, i.claims.tenant = trimSpace i.req.tenant := by
    intro i hi
    obtain ⟨-, _, -, hd⟩ := hI.derives.2 i hi
    exact hd.tenant.1
  constructor
  · intro hall i hi c hc
    rw [← hten i hi]
    exact hiff.1 (fun i hi => hall i hi (accepted_at_start hI hi)) i hi c hc
  · intro hsp i hi _
    exact hiff.2 (fun i hi c hc => (hsp i hi c hc).trans (hten i hi).symm) i hi

section

variable {A : AgentRecords}

theorem AgentRecords.Under.create {tenant agent id t : String}
    (h : A.Under tenant agent) (fresh : A id = none) :
    AgentRecords.Under (Function.update A id (some t)) tenant agent := by
  unfold Under at h ⊢
  rwa [Function.update_of_ne]
  rintro rfl
  simp [fresh] at h

/-- Both agents of every token stay on record under its tenant. -/
theorem Served.recorded (hs : Served S A h) : ∀ i ∈ h, A.Under i.claims.tenant i.claims.subject ∧
    ∀ a ∈ i.claims.audience, A.Under i.claims.tenant a := by
  induction hs with
  | start => simp
  | create _ id tenant fresh ih =>
    intro i hi
    exact ⟨(ih i hi).1.create fresh, fun a ha => ((ih i hi).2 a ha).create fresh⟩
  | delegate i _ checks tenant agent req admitted _ _ issued ih =>
    intro j hj
    rcases mem_append.1 hj with hj | hj
    · exact ih j hj
    · cases mem_singleton.1 hj
      obtain ⟨_, hd⟩ := issue_derives issued
      obtain ⟨hfrom, hto⟩ := handle_ok admitted (hd.tenant.1 ▸ hd.tenant.2)
      simp only [hd.tenant.1, hd.parties.1, hd.parties.2, mem_singleton, forall_eq]
      exact ⟨hfrom, hto⟩

/-- **A delegation chain never crosses tenants.** The receiver of the parent is the delegator of the
child, on record under one tenant only. -/
theorem tenants_agree (hs : Served S A h) : ∀ i ∈ h,
    (∃ env aud v, verifyDelegationToken S env (.signed i.claims) aud = .ok v) →
      ∀ t ∈ lineage h h.length i, t.claims.tenant = i.claims.tenant := by
  refine (tenants_agree_iff hs.issued).2 ?_
  intro i hi c hc
  obtain ⟨-, parent, hpar, hd⟩ := hs.issued.derives.2 i hi
  obtain ⟨p, rfl, rfl⟩ := hd.parent_of_asked hc
  have hp := hpar p rfl
  have hreceived := (hs.recorded p hp).2 _ (attenuates hs.issued hp hd).2.2
  rw [← hd.tenant.1]
  exact Option.some.inj (hreceived.symm.trans (hs.recorded i hi).1)

/-- Three agents of one tenant. -/
def sampleAgents : AgentRecords := fun id => if id ∈ ["lead", "coder", "tester"] then some "red" else none

theorem served_sample : Served ⟨3⟩ sampleAgents [sampleRoot, sampleChild second] := by
  refine .delegate _ (.delegate sampleRoot (.start _) ⟨.ok (), .ok ()⟩ "red" "lead"
    ⟨"coder", ["read", "write"], ["jobs"], 60, .blank⟩ (by decide +kernel) (by rintro c ⟨⟩)
      (by simp) (by decide +kernel))
    ⟨.ok (), .ok ()⟩ "red" "coder" ⟨"tester", ["read"], ["jobs"], 1, .signed sampleRoot.claims⟩
    (by decide +kernel) ?_ ?_ ?_
  · rintro c ⟨⟩
    exact ⟨_, mem_singleton_self _, rfl⟩
  · decide +kernel
  · decide +kernel

/-- Two tokens of one tenant. -/
theorem tenants_agree_sample :
    (lineage [sampleRoot, sampleChild second] 2 (sampleChild second)).length = 2 ∧
      ∀ t ∈ lineage [sampleRoot, sampleChild second] 2 (sampleChild second),
        t.claims.tenant = (sampleChild second).claims.tenant :=
  ⟨by decide +kernel, tenants_agree served_sample (sampleChild second) (by simp)
    (accepted_at_start served_sample.issued (by simp))⟩

end

/-- **A token outlives none of its ancestors** exactly if every request asks for a lifetime that ends
with the parent's. -/
theorem outlives_none_iff (hI : Issued S h) :
    (∀ i ∈ h, ∀ t ∈ lineage h h.length i, i.claims.expiresAt ≤ t.claims.expiresAt ∧
      ∀ env aud v, t.claims.expiresAt + defaultClockLeeway ≤ env.now →
        verifyDelegationToken S env (.signed i.claims) aud ≠ .ok v) ↔
    ∀ i ∈ h, ∀ c, i.req.parentToken = .signed c →
    numericDate (i.env.now + i.req.lifetime) ≤ c.expiresAt := by
  have hiff := lineage_forall_iff hI (R := fun p c => c.expiresAt ≤ p.expiresAt) (fun _ => le_rfl)
    fun _ _ _ hab hbc => hbc.trans hab
  have hexp : ∀ i ∈ h, i.claims.expiresAt = numericDate (i.env.now + i.req.lifetime) := by
    intro i hi
    obtain ⟨-, _, -, hd⟩ := hI.derives.2 i hi
    exact hd.expiresAt
  constructor
  · intro hall i hi c hc
    rw [← hexp i hi]
    exact hiff.1 (fun i hi t ht => (hall i hi t ht).1) i hi c hc
  · intro hsp i hi t ht
    have hle := hiff.2 (fun i hi c hc => (hexp i hi).trans_le (hsp i hi c hc)) i hi t ht
    refine ⟨hle, ?_⟩
    intro env aud v hlt hv
    obtain ⟨_, ⟨⟩, -, hacc⟩ := verify_ok_iff.1 hv
    have := hacc.unexpired
    omega

/-- A child of one second ends first. -/
theorem outlives_none_sample :
    Issued ⟨3⟩ [sampleRoot, sampleChild second] ∧
      ∀ i ∈ [sampleRoot, sampleChild second], ∀ t ∈ lineage [sampleRoot, sampleChild second] 2 i,
        i.claims.expiresAt ≤ t.claims.expiresAt ∧
          ∀ env aud v, t.claims.expiresAt + defaultClockLeeway ≤ env.now →
            verifyDelegationToken ⟨3⟩ env (.signed i.claims) aud ≠ .ok v := by
  have hI : Issued ⟨3⟩ [sampleRoot, sampleChild second] :=
    issued_sample (by decide +kernel) (by decide +kernel)
  refine ⟨hI, (outlives_none_iff hI).2 ?_⟩
  intro i hi c hc
  rcases mem_pair.1 hi with rfl | rfl
  · cases hc
  · cases hc
    decide +kernel

/-- The parent has expired for good, and its child is still accepted. -/
theorem child_outlives_parent :
    Issued ⟨3⟩ [sampleRoot, sampleChild maxTokenTTL] ∧
      (lineage [sampleRoot, sampleChild maxTokenTTL] 2 (sampleChild maxTokenTTL)).map
        (·.claims.expiresAt) = [60 * second, maxTokenTTL] ∧
      (verifyDelegationToken ⟨3⟩ ⟨60 * second + defaultClockLeeway, none, none⟩
        (.signed (sampleChild maxTokenTTL).claims) "tester").isOk :=
  ⟨issued_sample (by decide +kernel) (by decide +kernel), by decide +kernel, by decide +kernel⟩

end Cordum.Auth
