import Cordum.Conc.Pool
import Cordum.Store.Ops

/-!
# Runs of the job store

The store of one job under any interleaving of calls, a Redis command at a time:
`Conc.World` at the store's programs. The runtime hash changes only by its own
commands (`post_runtime`), so what is said of `runtimeStep` is said of every run: a
dispatch that was followed by another one is fenced off for good (`attempts_fence`).
-/

namespace Cordum

open Conc Entry List Option World

/-- One command of a store run. -/
abbrev StoreEntry := Entry StoreCmd JobKeys

/-- The world a run of calls leads to. -/
def storeRun (cfg : StoreConfig) (k : JobKeys) (acts : List (Action StoreOp)) :
    World StoreOp StoreCmd StoreCmd.Reply StoreErr StoreAns JobKeys :=
  World.run (StoreOp.prog cfg.jobID) (store cfg) (World.init k) acts

/-- The keys after the first `n` actions. -/
def storeAt (cfg : StoreConfig) (k : JobKeys) (acts : List (Action StoreOp)) (n : ℕ) : JobKeys :=
  (World.wAt (StoreOp.prog cfg.jobID) (store cfg) (World.init k) acts n).st

/-- The commands a run sent. -/
def storeLog (cfg : StoreConfig) (k : JobKeys) (acts : List (Action StoreOp)) : List StoreEntry :=
  (storeRun cfg k acts).log

/-- Call number `i` of a run is `op`. -/
def Called (cfg : StoreConfig) (k : JobKeys) (acts : List (Action StoreOp)) (i : ℕ)
    (op : StoreOp) : Prop :=
  ∃ p, (storeRun cfg k acts).threads[i]? = some (op, p)

/-- Call number `i` of a run is `op` and ended with `r`. -/
def Ended (cfg : StoreConfig) (k : JobKeys) (acts : List (Action StoreOp)) (i : ℕ) (op : StoreOp)
    (r : Except StoreErr StoreAns) : Prop :=
  (storeRun cfg k acts).threads[i]? = some (op, Prog.ofResult r)

/-- The script a command of the log ran on the runtime hash, if it did. -/
def RanScript (e : StoreEntry) (c : RtCmd) : Prop := e.Ran ∧ e.cmd = .rt c

/-- Call number `i`, run to its end without a fault: at most `n` commands. -/
def alone (i : ℕ) (op : StoreOp) (n : ℕ) : List (Action StoreOp) :=
  .spawn op :: List.replicate n (.sched i .none)

/-- The store of a test job. -/
def exampleConfig : StoreConfig := ⟨"job-1", 60, ⟨fun _ => some "hash"⟩⟩

/-- A job whose meta hash says `DISPATCHED`, without a runtime hash yet. -/
def dispatchedKeys : JobKeys := { jobMeta := { state := some .dispatched } }

variable {cfg : StoreConfig} {e : StoreEntry} {c : RtCmd} {rt : Runtime}

theorem post_runtime : (e.post (store cfg)).runtime = e.pre.runtime ∧ (∀ c, ¬ RanScript e c) ∨
    ∃ c, RanScript e c ∧ (e.post (store cfg)).runtime = (runtimeStep cfg c e.pre.runtime).1 := by
  by_cases hr : e.Ran
  · cases hc : e.cmd with
    | rt c => exact .inr ⟨c, ⟨hr, hc⟩, by rw [post_of_ran hr, hc]; rfl⟩
    | key c =>
      refine .inl ⟨by rw [post_of_ran hr, hc]; exact store_key_runtime, ?_⟩
      rintro c' ⟨-, h⟩
      rw [hc] at h; cases h
  · exact .inl ⟨by rw [post_of_not_ran hr], fun c h => hr h.1⟩

theorem post_runtime_of_ran (h : RanScript e c) :
    (e.post (store cfg)).runtime = (runtimeStep cfg c e.pre.runtime).1 := by
  rw [post_of_ran h.1, h.2]; rfl

/-! ## Attempts -/

/-- The attempt that a script names. -/
def RtCmd.names : RtCmd → Option ℤ
  | .rollbackDispatch _ n => some n
  | .acceptJobEvent cl _ | .acceptSignedJobEvent cl _ _ => some cl.attempt
  | .applyJobResult a => some a.claim.attempt
  | _ => none

/-- Each dispatch gets a higher attempt than those before it, and scripts that name a lower one have
no effect. -/
def AttemptsFence (cfg : StoreConfig) (log : List StoreEntry) : Prop :=
  ∀ l₁ e l₂ d w t, log = l₁ ++ e :: l₂ → RanScript e (.beginDispatch d w t) →
    let attempt : ℤ := (runtimeStep cfg (.beginDispatch d w t) e.pre.runtime).2
    ∀ e' ∈ l₂, (∀ d' w' t', RanScript e' (.beginDispatch d' w' t') →
        attempt < (runtimeStep cfg (.beginDispatch d' w' t') e'.pre.runtime).2) ∧
      ∀ c n, RanScript e' c → c.names = some n → n < attempt →
        (e'.post (store cfg)).runtime = e'.pre.runtime

/-- An attempt that is recorded is never lowered. -/
def AttemptKept (rt rt' : Runtime) : Prop := ∀ n, rt.fence.attempt = some n →
    ∃ m, n ≤ m ∧ rt'.fence.attempt = some m

theorem attempt_mono : AttemptKept rt (runtimeStep cfg c rt).1 := by
  intro n hn
  by_cases hb : ∃ d w t, c = .beginDispatch d w t
  · obtain ⟨d, w, t, rfl⟩ := hb
    exact ⟨n + 1, by omega, by simp [runtimeStep, beginDispatchScript, hn]⟩
  · obtain ⟨rt', hchg, -, hfen, -⟩ := runtimeStep_change cfg c rt
    rw [hfen]
    refine ⟨n, le_rfl, ?_⟩
    cases hchg with
    | begun => exact absurd ⟨_, _, _, rfl⟩ hb
    | migrated => simp [hn]
    | _ => exact hn

/-- A script that names another attempt leaves the hash as it is. -/
theorem stale_unchanged {n m : ℤ} (hc : c.names = some n) (hm : rt.fence.attempt = some m) (hne : n ≠ m) :
    (runtimeStep cfg c rt).1 = rt := by
  have hfen : ∀ cl : Claim, cl.attempt = n → rt.fenced cl = false := by
    rintro cl rfl
    simp [Runtime.fenced, hm, hne.symm]
  cases c with
  | rollbackDispatch d i =>
    cases hc
    simp only [runtimeStep, rollbackDispatchScript, hm, some.injEq, ne_eq,
      hne.symm, not_false_iff, if_true]
    split <;> rfl
  | acceptJobEvent cl i => simp [runtimeStep, acceptJobEventScript, hfen cl (some.inj hc)]
  | acceptSignedJobEvent cl i g => simp [runtimeStep, acceptSignedJobEventScript, hfen cl (some.inj hc)]
  | applyJobResult a => simp [runtimeStep, applyJobResultScript, hfen a.claim (some.inj hc)]
  | _ => cases hc

/-- **Attempts fence dispatches off**, in every interleaving with any faults. -/
theorem attempts_fence (cfg : StoreConfig) (k : JobKeys) (acts : List (Action StoreOp)) :
    AttemptsFence cfg (storeLog cfg k acts) := by
  intro l₁ e l₂ d w t hlog hrun attempt e' he'
  have hch := run_init_chain (StoreOp.prog cfg.jobID) (store cfg) k acts
  rw [show (run (StoreOp.prog cfg.jobID) (store cfg) (init k) acts).log = _ from hlog] at hch
  obtain ⟨m₁, m₂, rfl⟩ := append_of_mem he'
  have hkept : AttemptKept (e.post (store cfg)).runtime e'.pre.runtime := by
    refine chain_rel (ρ := fun s s' : JobKeys => AttemptKept s.runtime s'.runtime)
      (fun _ n hn => ⟨n, le_rfl, hn⟩) ?_ (chain_split (chain_split hch).2).1 fun x _ => ?_
    · intro s s₁ s₂ h h' n hn
      obtain ⟨m, hle, hm⟩ := h n hn
      obtain ⟨m', hle', hm'⟩ := h' m hm
      exact ⟨m', hle.trans hle', hm'⟩
    · rcases post_runtime with ⟨heq, -⟩ | ⟨c, -, heq⟩
      · rw [heq]; exact fun n hn => ⟨n, le_rfl, hn⟩
      · rw [heq]; exact attempt_mono
  obtain ⟨m, hle, hm⟩ := hkept attempt (by
    rw [post_runtime_of_ran hrun]
    simp [runtimeStep, beginDispatchScript, attempt])
  refine ⟨fun d' w' t' _ => ?_, fun c n hc hn hlt => ?_⟩
  · have hreply : (runtimeStep cfg (.beginDispatch d' w' t') e'.pre.runtime).2 = m + 1 := by
      simp [runtimeStep, beginDispatchScript, hm]
    rw [hreply]
    omega
  · rw [post_runtime_of_ran hc]
    exact stale_unchanged hn hm (by omega)

end Cordum
