import Cordum.Policy.DecisionCache
import Cordum.Text.GoString

/-!
# Cached decisions

`cached_decisions_fresh_iff`: what the cache serves is the answer of the policy that the request
found, exactly when policies with one snapshot answer alike.
-/

namespace Cordum.Policy

open List Function

variable {P Req D : Type} {E : Evaluation P Req D} {I : Set (P × String)}
  {s s' : String} {r r' : Req} {p q : P}

theorem cacheKeyForRequest_inj (h : E.cacheKeyForRequest r s = E.cacheKeyForRequest r' s') :
    s = s' ∧ r = r' := by
  have hcut : ∀ s t : String, (s ++ ":" ++ t).toList.reverse =
      t.toList.reverse ++ ':' :: s.toList.reverse := by
    intro s t
    rw [String.toList_append, String.toList_append, reverse_append, reverse_append]
    rfl
  have hli := congrArg (fun k : String => k.toList.reverse) h
  simp only [Evaluation.cacheKeyForRequest, hcut] at hli
  have hno : ∀ r, ':' ∉ (E.digest r).toList.reverse := fun r hmem => E.digest_hex r (mem_reverse.1 hmem)
  obtain ⟨hdig, hs⟩ := GoString.split_at_first (hno r) (hno r') hli
  exact ⟨String.toList_inj.1 (reverse_injective hs),
    E.digest_injective (String.toList_inj.1 (reverse_injective hdig))⟩

/-- What a section may carry: policies that are installed. -/
def Section.Ok (E : Evaluation P Req D) (I : Set (P × String)) : Section P Req → Prop
  | .bump p s | .install p s => (p, s) ∈ I
  | .clear | .read _ => True
  | .lookup r p s | .insert r p s => (p, s) ∈ I ∧ E.looksUp p r

/-- What holds in every interleaving: an entry was made under the snapshot of its key. -/
structure CacheInv (E : Evaluation P Req D) (I : Set (P × String)) (w : Calls P Req D) : Prop where
  installed : (w.kernel.policy, w.kernel.snapshot) ∈ I
  calls : ∀ s, some s ∈ w.calls → s.Ok E I
  cache : ∀ r s e, w.kernel.cache (E.cacheKeyForRequest r s) = some e →
    ∃ p, (p, s) ∈ I ∧ E.looksUp p r ∧ E.completes p r ∧ e.1 = E.respond p r
  served : ∀ a ∈ w.served, ∃ p, (p, a.snapshot) ∈ I ∧ E.looksUp p a.request ∧ E.completes p a.request ∧
    (a.policy, a.snapshot) ∈ I ∧ E.looksUp a.policy a.request ∧
    a.response = E.stamp a.snapshot a.request (E.respond p a.request)

/-- A section keeps it. -/
theorem CacheInv.step {w : Calls P Req D} (h : CacheInv E I w) (i : ℕ) (evicted : String → Bool) :
    CacheInv E I (E.act w (.enter i evicted)) := by
  have hcs : ∀ {next}, (∀ s, next = some s → s.Ok E I) → ∀ s, some s ∈ w.calls.set i next → s.Ok E I := by
    intro next hnx s hs
    rcases mem_or_eq_of_mem_set hs with hs | hs
    · exact h.calls s hs
    · exact hnx s hs.symm
  have hsm : w.served = w.served ++ [] := (append_nil _).symm
  rw [Evaluation.act]
  cases hs : w.calls[i]?.join with
  | none => exact h
  | some s =>
    have hok := h.calls s (mem_of_getElem? (Option.join_eq_some_iff.1 hs))
    dsimp only
    cases s with
    | bump p s => exact ⟨h.installed, hcs fun _ hn => by cases hn; exact hok, h.cache, hsm ▸ h.served⟩
    | install p s => exact ⟨hok, hcs fun _ hn => by cases hn; trivial, h.cache, hsm ▸ h.served⟩
    | clear => exact ⟨h.installed, hcs nofun, nofun, hsm ▸ h.served⟩
    | read r =>
      rw [Evaluation.step]
      refine ⟨h.installed, hcs fun _ hn => ?_, h.cache, hsm ▸ h.served⟩
      split at hn
      · cases hn
        exact ⟨h.installed, ‹_›⟩
      · cases hn
    | lookup r p s =>
      rw [Evaluation.step]
      split
      · exact ⟨h.installed, hcs fun _ hn => by cases hn; exact hok, h.cache, hsm ▸ h.served⟩
      rename_i body version he
      split
      · refine ⟨h.installed, hcs nofun, h.cache, fun a ha => ?_⟩
        rcases mem_append.1 ha with ha | ha
        · exact h.served a ha
        · obtain ⟨q, hq, hlks, hcom, hbd⟩ := h.cache r s _ he
          rw [mem_singleton.1 ha]
          exact ⟨q, hq, hlks, hcom, hok.1, hok.2, congrArg (E.stamp s r) hbd⟩
      · refine ⟨h.installed, hcs fun _ hn => by cases hn; exact hok, fun r' s' e he' => ?_, hsm ▸ h.served⟩
        refine h.cache r' s' e ?_
        dsimp only at he'
        by_cases hkey : E.cacheKeyForRequest r' s' = E.cacheKeyForRequest r s
        · rw [hkey, update_self] at he'
          cases he'
        · rwa [update_of_ne hkey] at he'
    | insert r p s =>
      rw [Evaluation.step]
      split
      · refine ⟨h.installed, hcs nofun, fun r' s' e he => ?_, hsm ▸ h.served⟩
        dsimp only at he
        by_cases hkey : E.cacheKeyForRequest r' s' = E.cacheKeyForRequest r s
        · obtain ⟨rfl, rfl⟩ := cacheKeyForRequest_inj hkey
          rw [update_self] at he
          cases he
          exact ⟨p, hok.1, hok.2, ‹_›, rfl⟩
        · rw [update_of_ne hkey] at he
          split at he
          · cases he
          · exact h.cache r' s' e he
      · exact ⟨h.installed, hcs nofun, h.cache, hsm ▸ h.served⟩

/-- The policies that the actions install. -/
def Installs (I : Set (P × String)) (acts : List (CacheAct P Req)) : Prop :=
  ∀ p s, CacheAct.setPolicy p s ∈ acts → (p, s) ∈ I

theorem cacheInv_after (hp : (p, s) ∈ I) {acts : List (CacheAct P Req)} (hac : Installs I acts) :
    CacheInv E I (E.after p s acts) := by
  refine foldlRecOn acts _ ⟨hp, nofun, nofun, nofun⟩ fun w h a ha => ?_
  have hspa : ∀ s : Section P Req, s.Ok E I → CacheInv E I { w with calls := w.calls ++ [some s] } := by
    intro s hs
    refine ⟨h.installed, fun s' hs' => ?_, h.cache, h.served⟩
    rcases mem_append.1 hs' with hs' | hs'
    · exact h.calls s' hs'
    · cases mem_singleton.1 hs'
      exact hs
  cases a with
  | setPolicy p s => exact hspa (.bump p s) (hac p s ha)
  | evaluate r => exact hspa (.read r) trivial
  | enter i evicted => exact h.step i evicted

/-- An evaluation under the first policy inserts its answer once the next one is installed. -/
def lateInsert (q : P) (s : String) (r : Req) : List (CacheAct P Req) :=
  [.evaluate r, .enter 0 fun _ => false, .enter 0 fun _ => false, .setPolicy q s, .enter 1 fun _ => false,
    .enter 1 fun _ => false, .enter 1 fun _ => false, .enter 0 fun _ => false, .evaluate r,
    .enter 2 fun _ => false, .enter 2 fun _ => false]

theorem served_lateInsert (hp : E.looksUp p r) (hc : E.completes p r) (hq : E.looksUp q r) :
    (E.after p s (lateInsert q s r)).served = [⟨r, q, s, E.stamp s r (E.respond p r)⟩] := by
  simp [lateInsert, Evaluation.after, Evaluation.act, Evaluation.step, hp, hq, hc]

/-- **When the decision cache serves no stale decision**: when policies under one snapshot answer
alike. -/
theorem cached_decisions_fresh_iff (E : Evaluation P Req D) (I : Set (P × String)) :
    (∀ p s, (p, s) ∈ I → ∀ acts, Installs I acts → ∀ a ∈ (E.after p s acts).served,
        a.response = E.stamp a.snapshot a.request (E.respond a.policy a.request)) ↔
      ∀ p q s r, (p, s) ∈ I → (q, s) ∈ I → E.looksUp p r = true →
      E.completes p r = true → E.looksUp q r = true →
        E.respond p r = E.respond q r := by
  constructor
  · intro h p q s r hp hq hlks hcom hlks'
    have hlt : Installs I (lateInsert q s r) := by
      intro p' s' hmem
      simp only [lateInsert, mem_cons, not_mem_nil, or_false, CacheAct.setPolicy.injEq,
        reduceCtorEq, false_or] at hmem
      rw [hmem.1, hmem.2]
      exact hq
    have hser := h p s hp _ hlt ⟨r, q, s, E.stamp s r (E.respond p r)⟩
      (by rw [served_lateInsert hlks hcom hlks']; exact mem_cons_self)
    exact congrArg CheckResponse.body hser
  · intro h p s hp acts hac a ha
    obtain ⟨q, hq, hlks, hcom, ha', hlks', hres⟩ := (cacheInv_after hp hac).served a ha
    rw [hres, h q a.policy a.snapshot a.request hq ha' hlks hcom hlks']

/-- Policies that answer `true` and `false`. -/
def plainEvaluation : Evaluation Bool Unit Bool where
  respond p _ := p
  approvalRequired _ := false
  jobID _ := "job"
  looksUp _ _ := true
  completes _ _ := true
  digest _ := "0f"
  digest_injective _ _ _ := rfl
  digest_hex _ := by decide

/-- An evaluation under the first policy inserts its answer after two reloads, each with another
snapshot; the second brings the first one back. -/
def reinstalled : List (CacheAct Bool Unit) :=
  let enter := fun call => CacheAct.enter call fun _ => false
  [.evaluate (), enter 0, enter 0, .setPolicy true "cfg:c", enter 1, enter 1, enter 1,
    .setPolicy false "cfg:a", enter 2, enter 2, enter 2, enter 0, .evaluate (), enter 3, enter 3]

/-- The answer of the first policy is served under the last, with the same snapshot. -/
theorem stale_decision_served :
    (plainEvaluation.after true "cfg:a" reinstalled).served.map (fun a => (a.policy, a.response.body)) =
      [(false, true)] := by
  rfl

end Cordum.Policy
