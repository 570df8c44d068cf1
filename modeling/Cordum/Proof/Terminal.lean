import Cordum.Store.Runs

/-!
# Terminal states in the runtime hash

A job that reached a terminal state should stay there, save that a succeeded output may still be
quarantined. Two scripts break this: the rollback of a failed publish does not look at the state, and
the cancellation compares it with `QUARANTINED` where the store writes `OUTPUT_QUARANTINED`.

* `terminal_final_iff`: a run keeps terminal states exactly when no script of it regresses.
-/

namespace Cordum

open Conc

/-- A terminal state stays, or a succeeded job becomes quarantined. -/
def KeepsFinal (rt rt' : Runtime) : Prop :=
  ∀ s, rt.state = some s → terminalStates s →
    rt'.state = some s ∨ (s = .succeeded ∧ rt'.state = some .quarantined)

/-- The hash has a terminal state. -/
def Runtime.terminal (rt : Runtime) : Prop := ∃ s, rt.state = some s ∧ terminalStates s

/-- The rollback of the current dispatch, and the cancellation of a quarantined job. -/
def Regresses (rt : Runtime) : RtCmd → Prop
  | .rollbackDispatch d n => rt.terminal ∧ rt.fence.dispatchId = some d ∧ rt.fence.attempt = some n
  | .cancelAllJobAttempts => rt.state = some .quarantined
  | _ => False

variable {cfg : StoreConfig} {rt rt' rt'' : Runtime} {n ttl : ℤ} {c : RtCmd}

theorem keepsFinal_of_state_eq (h : rt'.state = rt.state) : KeepsFinal rt rt' :=
  fun _ hs _ => .inl (h.trans hs)

theorem keepsFinal_of_not_terminal (h : ¬ rt.terminal) : KeepsFinal rt rt' :=
  fun s hs ht => absurd ⟨s, hs, ht⟩ h

theorem not_terminal_of_inFlight (h : rt.inFlight) : ¬ rt.terminal := by
  rintro ⟨s, hs, ht⟩
  rcases Runtime.inFlight_iff.1 h with h | h <;> rw [h] at hs <;> cases hs <;> cases ht

theorem keepsFinal_trans (h1 : KeepsFinal rt rt') (h2 : KeepsFinal rt' rt'') : KeepsFinal rt rt'' := by
  intro s hs ht
  rcases h1 s hs ht with h | ⟨rfl, h⟩
  · exact h2 s h ht
  · rcases h2 .quarantined h rfl with h' | ⟨h', -⟩
    · exact .inr ⟨rfl, h'⟩
    · cases h'

theorem rollback_keepsFinal_iff {d : String} :
    KeepsFinal rt (rollbackDispatchScript d n rt).1 ↔ ¬ Regresses rt (.rollbackDispatch d n) := by
  unfold rollbackDispatchScript
  split_ifs with hd hn
  · exact ⟨fun _ h => hd h.2.1, fun _ => keepsFinal_of_state_eq rfl⟩
  · exact ⟨fun _ h => hn h.2.2, fun _ => keepsFinal_of_state_eq rfl⟩
  · constructor
    · rintro h ⟨⟨s, hs, ht⟩, -⟩
      rcases h s hs ht with h' | ⟨-, h'⟩
      · cases h'; cases ht
      · cases h'
    · intro h
      exact keepsFinal_of_not_terminal fun ht => h ⟨ht, not_not.1 hd, not_not.1 hn⟩

/-- The scripts that may regress apart, a change keeps terminal states. -/
theorem RtChange.keepsFinal (h : RtChange rt c rt')
    (hrol : ∀ d n, c ≠ .rollbackDispatch d n) (hcan : c ≠ .cancelAllJobAttempts) : KeepsFinal rt rt' := by
  cases h with
  | rolledBack => exact absurd rfl (hrol _ _)
  | cancelled => exact absurd rfl hcan
  | moved hs hpri =>
    intro s hs' ht
    cases hs.symm.trans hs'
    obtain ⟨rfl, rfl⟩ := isAllowedTransition_terminal ht hpri
    exact .inr ⟨rfl, rfl⟩
  | migrated => exact fun s hs _ => .inl (by simp [hs])
  | committed hfli => exact keepsFinal_of_not_terminal (not_terminal_of_inFlight hfli)
  | _ => exact keepsFinal_of_state_eq rfl

theorem cancel_keepsFinal_iff : KeepsFinal rt (cancelAllJobAttemptsScript ttl rt).1 ↔
    rt.state ≠ some .quarantined := by
  unfold cancelAllJobAttemptsScript
  split_ifs with hc
  · refine ⟨fun _ hq => ?_, fun _ => keepsFinal_of_state_eq (by simp)⟩
    rw [hq] at hc
    exact (cancelStops_iff.1 hc).2 rfl
  constructor
  · intro h hq
    rcases h .quarantined hq rfl with h' | ⟨h', -⟩
    · cases h'
    · cases h'
  · intro hq
    refine keepsFinal_of_not_terminal ?_
    rintro ⟨s, hs, ht⟩
    rw [hs] at hc hq
    exact hc (cancelStops_iff.2 ⟨ht, fun h => hq (by rw [h])⟩)

/-- **One script and terminal states**: it keeps them unless it regresses. -/
theorem runtimeStep_keepsFinal_iff : KeepsFinal rt (runtimeStep cfg c rt).1 ↔ ¬ Regresses rt c := by
  obtain ⟨rt', hchg, hsta, -⟩ := runtimeStep_change cfg c rt
  cases c with
  | rollbackDispatch d n => exact rollback_keepsFinal_iff
  | cancelAllJobAttempts => exact cancel_keepsFinal_iff
  | _ => exact iff_of_true (keepsFinal_trans (hchg.keepsFinal nofun nofun)
      (keepsFinal_of_state_eq hsta)) id

/-- Once the runtime hash is in a terminal state, it stays there. -/
def TerminalFinal (cfg : StoreConfig) (k : JobKeys) (acts : List (Action StoreOp)) : Prop :=
  ∀ n m, n ≤ m → KeepsFinal (storeAt cfg k acts n).runtime (storeAt cfg k acts m).runtime

/-- **Terminal states are final exactly when nothing regresses.** Over any interleaving of store
calls, a terminal state stays (or a success is quarantined) if and only if no rollback of the current
dispatch ran on a terminal hash and no cancellation on a quarantined one. -/
theorem terminal_final_iff (cfg : StoreConfig) (k : JobKeys) (acts : List (Action StoreOp)) :
    TerminalFinal cfg k acts ↔
      ∀ e ∈ storeLog cfg k acts, ∀ c, RanScript e c → ¬ Regresses e.pre.runtime c := by
  have hrel := World.rel_wAt_iff (StoreOp.prog cfg.jobID) (store cfg)
    (ρ := fun s t => KeepsFinal s.runtime t.runtime) (fun _ => keepsFinal_of_state_eq rfl)
    (fun _ _ _ => keepsFinal_trans) k acts
  refine hrel.trans (forall₂_congr fun e _ => ?_)
  rcases post_runtime with ⟨heq, hno⟩ | ⟨c, hc, heq⟩
  · rw [heq]
    exact iff_of_true (keepsFinal_of_state_eq rfl) fun c hc => absurd hc (hno c)
  rw [heq, runtimeStep_keepsFinal_iff]
  constructor
  · rintro h c' ⟨-, hc'⟩
    cases hc.2.symm.trans hc'; exact h
  · exact fun h => h c hc

/-- A publish is reported as failed, the worker's result is applied, and then the rollback of that
publish runs. -/
def lateRollbackRun : List (Action StoreOp) :=
  alone 0 (.beginDispatch "worker-1" "acme" "d1") 5 ++
  alone 1 (.applyJobResult ⟨⟨"d1", 1, "worker-1", "acme"⟩, [1], [2], [3], .succeeded, "res:1"⟩) 3 ++
  alone 2 (.rollbackDispatch "d1" 1) 1

/-- A job whose output was quarantined is cancelled. -/
def cancelQuarantinedRun : List (Action StoreOp) :=
  alone 0 (.beginDispatch "worker-1" "acme" "d1") 5 ++
  alone 1 (.applyJobResult ⟨⟨"d1", 1, "worker-1", "acme"⟩, [1], [2], [3], .quarantined, "res:1"⟩) 3 ++
  alone 2 .cancelAllJobAttempts 3

/-- **Terminal states are not final**: the late rollback takes a succeeded job back to `SCHEDULED`,
and the cancellation a quarantined one to `CANCELLED`. -/
theorem terminal_final_fails :
    ((storeAt exampleConfig dispatchedKeys lateRollbackRun 10).runtime.state = some .succeeded ∧
      (storeAt exampleConfig dispatchedKeys lateRollbackRun 12).runtime.state = some .scheduled ∧
      ¬ TerminalFinal exampleConfig dispatchedKeys lateRollbackRun) ∧
    ((storeAt exampleConfig dispatchedKeys cancelQuarantinedRun 10).runtime.state = some .quarantined ∧
      (storeAt exampleConfig dispatchedKeys cancelQuarantinedRun 14).runtime.state = some .cancelled ∧
      ¬ TerminalFinal exampleConfig dispatchedKeys cancelQuarantinedRun) := by
  have r₁ : (storeAt exampleConfig dispatchedKeys lateRollbackRun 10).runtime.state =
      some .succeeded := by decide
  have r₂ : (storeAt exampleConfig dispatchedKeys lateRollbackRun 12).runtime.state =
      some .scheduled := by decide
  have q₁ : (storeAt exampleConfig dispatchedKeys cancelQuarantinedRun 10).runtime.state =
      some .quarantined := by
    decide
  have q₂ : (storeAt exampleConfig dispatchedKeys cancelQuarantinedRun 14).runtime.state =
      some .cancelled := by decide
  refine ⟨⟨r₁, r₂, fun h => ?_⟩, q₁, q₂, fun h => ?_⟩
  · rcases h 10 12 (by decide) _ r₁ rfl with h' | ⟨-, h'⟩ <;> cases r₂.symm.trans h'
  · rcases h 10 14 (by decide) _ q₁ rfl with h' | ⟨-, h'⟩ <;> cases q₂.symm.trans h'

end Cordum
