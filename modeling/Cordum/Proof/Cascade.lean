import Cordum.Auth.Revocation

/-!
# The cascade of a revocation

`cascade_exact`: whatever cycles and shared descendants there are, the script's loop ends; it
revokes each token under the root once, or gives up before it writes anything, exactly when a token
at the last depth has a child.
-/

namespace Cordum.Auth

open GoString List Graph

variable {R : RevocationStore} {now : ℤ} {jti : String}

/-- What a cascade of tokens on record comes to. -/
structure Exact (R : RevocationStore) (now : ℤ) (root : String)
    (outcome : Except CascadeError (List String × RevocationStore)) : Prop where
  deep : outcome = .error .tooDeep ↔
    ∃ j, AtDistance R.children root delegationCascadeDepthLimit j ∧ R.children j ≠ []
  exact : outcome = .error .tooDeep ∨ ∃ revoked R', outcome = .ok (cascadeRevocationJTIs revoked, R') ∧
    revoked.Nodup ∧ (∀ j, j ∈ revoked ↔ Reaches R.children root j) ∧
    R'.tokens = R.tokens ∧ R'.tenant = R.tenant ∧ R'.children = R.children ∧
    (∀ j, R'.expiry j = if j ∈ revoked then some (now + delegationRevocationTTL) else R.expiry j) ∧
    (∀ j, R'.revoked j ↔ j ∈ revoked ∨ R.revoked j) ∧
    ∀ tenant j, j ∈ R'.active tenant ↔ j ∈ R.active tenant ∧ ¬ (j ∈ revoked ∧ R.tenant j = tenant)

/-- A cascade from a token on record is its walk and then the writes. -/
theorem cascadeRevoke_eq {rounds : ℕ} (hrt : trimSpace jti ≠ "" ∧ trimSpace jti ∈ R.tokens) :
    cascadeRevoke rounds R now jti true =
      (breadthFirst R.children delegationCascadeDepthLimit rounds [(trimSpace jti, 0)] [trimSpace jti]).map
        (R.outcome now) := by
  rw [cascadeRevoke, if_neg hrt.1, if_neg (not_not.2 hrt.2), preWalk, if_pos rfl]

/-- **A cascade ends, and it is exact or writes nothing.** -/
theorem cascade_exact (hrt : trimSpace jti ≠ "" ∧ trimSpace jti ∈ R.tokens)
    (hrec : ∀ j, Reaches R.children (trimSpace jti) j → j ∈ R.tokens ∧ R.tenant j ≠ "") :
    (∃ enough, ∀ rounds, enough ≤ rounds → (cascadeRevoke rounds R now jti true).isSome) ∧
      ∀ rounds outcome, cascadeRevoke rounds R now jti true = some outcome →
      Exact R now (trimSpace jti) outcome := by
  simp only [cascadeRevoke_eq hrt, Option.isSome_map]
  refine ⟨breadthFirst_ends .., fun rounds outcome hout => ?_⟩
  obtain ⟨walked, hwalk, rfl⟩ := Option.map_eq_some_iff.1 hout
  have hsea := breadthFirst_searched hwalk
  rcases walked with _ | revoked
  · exact ⟨iff_of_true rfl (hsea.deep.1 rfl), .inl rfl⟩
  obtain ⟨hnd, hmem⟩ := hsea.found revoked rfl
  refine ⟨⟨nofun, fun hdp => nomatch hsea.deep.2 hdp⟩,
    .inr ⟨revoked, _, rfl, hnd, hmem, ?_, rfl, rfl, fun _ => rfl, fun j => ?_, fun tenant j => ?_⟩⟩
  · simpa [RevocationStore.revoke] using fun j hj => (hrec j ((hmem j).1 hj)).1
  · simp [RevocationStore.revoke]
  · have hnam : j ∈ revoked → R.tenant j ≠ "" := fun hj => (hrec j ((hmem j).1 hj)).2
    simp only [RevocationStore.revoke, mem_filter, Bool.not_eq_true', Bool.and_eq_false_iff,
      decide_eq_false_iff_not]
    grind

/-- Two tokens with a common descendant, from which a cycle leads back to the root. -/
def sampleCycle : RevocationStore where
  tokens := ["a", "b", "c", "d", "e"]
  tenant _ := "red"
  revoked _ := false
  active _ := ["a", "b", "c", "d", "e"]
  children jti := if jti = "a" then ["b", "c"] else if jti = "d" then ["a"]
    else if jti = "e" then [] else ["d"]
  expiry _ := none

/-- All but `e` are revoked, each once. -/
theorem cascade_exact_cycle :
    cascadeRevoke 5 sampleCycle 0 "a" true =
        some (.ok (cascadeRevocationJTIs ["a", "b", "c", "d"],
          sampleCycle.revoke 0 ["a", "b", "c", "d"])) ∧
      Exact sampleCycle 0 (trimSpace "a")
        (.ok (cascadeRevocationJTIs ["a", "b", "c", "d"], sampleCycle.revoke 0 ["a", "b", "c", "d"])) := by
  have hrt : trimSpace "a" ≠ "" ∧ trimSpace "a" ∈ sampleCycle.tokens := by decide +kernel
  have hrec : ∀ j, Reaches sampleCycle.children (trimSpace "a") j → j ∈ sampleCycle.tokens := by
    intro j hj
    induction hj with
    | refl => exact hrt.2
    | tail _ hj ih =>
      have hall : ∀ a ∈ sampleCycle.tokens, ∀ b ∈ sampleCycle.children a,
          b ∈ sampleCycle.tokens := by decide
      exact hall _ ih _ hj
  have hwalk : breadthFirst sampleCycle.children delegationCascadeDepthLimit 5
      [(trimSpace "a", 0)] [trimSpace "a"] = some (some ["a", "b", "c", "d"]) := by decide +kernel
  have hrun : cascadeRevoke 5 sampleCycle 0 "a" true =
      some (sampleCycle.outcome 0 (some ["a", "b", "c", "d"])) := by
    rw [cascadeRevoke_eq hrt, hwalk]
    rfl
  exact ⟨hrun, (cascade_exact hrt fun j hj => ⟨hrec j hj, show "red" ≠ "" by decide⟩).2 5 _ hrun⟩

end Cordum.Auth
