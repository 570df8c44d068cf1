import Mathlib.Data.List.Sort
import Mathlib.Data.String.Basic
import Cordum.Conc.Prog

/-!
# Session taints

`RedisTaintStore` with a client: a taint goes to Redis, or to the map of the process when it
cannot be encoded or Redis reports an error. A read asks Redis only. Taints are of any type with a
JSON form, which need not exist for each of them.
-/

namespace Cordum.Mcp

open Conc

/-- What the keys in Redis begin with. -/
def MCPTaintKeyPrefix : String := "mcp:taint:"

/-- The key of a session. -/
def taintKey (tenant session : String) : String := tenant ++ ":" ++ session

/-- How many taints a process keeps. -/
def maxInProcessTaints : ℕ := 10000

/-- How many it drops at once. -/
def inProcessTaintEvictBatch : ℕ := 1000

/-- A taint in the memory of the process. -/
structure InProcessTaintEntry (τ : Type) where
  key : String
  taint : τ
  expires : ℤ

/-- `evictLocked`: the expired entries go first, then the ones that expire soonest. -/
def evictLocked {τ : Type} (now : ℤ) (keep : String) (m : List (InProcessTaintEntry τ)) :
    List (InProcessTaintEntry τ) :=
  let m := m.filter fun e => e.key = keep || !(e.expires < now)
  if m.length ≤ maxInProcessTaints then m
  else
    let live := (m.filter (·.key ≠ keep)).insertionSort (·.expires ≤ ·.expires)
    let target := maxInProcessTaints - inProcessTaintEvictBatch
    let evicted := (live.take (m.length - target)).map (·.key)
    m.filter (·.key ∉ evicted)

/-- `inProcessTaintStore.Taint`. -/
def taintInProcess {τ : Type} (ttl now : ℤ) (key : String) (t : τ) (m : List (InProcessTaintEntry τ)) :
    List (InProcessTaintEntry τ) :=
  let m := ⟨key, t, now + ttl⟩ :: m.filter (·.key ≠ key)
  if maxInProcessTaints < m.length then evictLocked now key m else m

/-- A store of `NewRedisTaintStore`: its lifetimes, and the JSON form of a taint. -/
structure RedisTaintStore (τ : Type) where
  ttl : ℤ
  ttl_pos : 0 < ttl
  fallbackTTL : ℤ
  marshal : τ → Option String
  unmarshal : String → Option τ

/-- The values in Redis, with the times they expire, and the map of the process. -/
structure TaintState (τ : Type) where
  redis : String → Option (String × ℤ)
  fallback : List (InProcessTaintEntry τ)

/-- Tainted, clean, or no answer. -/
inductive TaintAnswer (τ : Type) where
  | tainted (t : τ)
  | clean
  | failed
deriving DecidableEq

variable {τ : Type} (S : RedisTaintStore τ)

/-- `RedisTaintStore.Taint`. A late `SET` took effect and reports an error. -/
def taint (now : ℤ) (fault : Fault) (tenant session : String) (t : τ) (s : TaintState τ) : TaintState τ :=
  let key := MCPTaintKeyPrefix ++ taintKey tenant session
  let local_ :=
      { s with fallback := taintInProcess S.fallbackTTL now (taintKey tenant session) t s.fallback }
  match S.marshal t with
  | none => local_
  | some encoded =>
    let written := fun k => if k = key then some (encoded, now + S.ttl) else s.redis k
    match fault with
    | .none => { s with redis := written }
    | .lost => local_
    | .late => { local_ with redis := written }

/-- `GetTaint`: the taint that Redis has. -/
def getTaint (now : ℤ) (fault : Fault) (tenant session : String) (s : TaintState τ) : TaintAnswer τ :=
  match fault with
  | .lost | .late => .failed
  | .none => match s.redis (MCPTaintKeyPrefix ++ taintKey tenant session) with
    | none => .clean
    | some (raw, expires) =>
      if expires ≤ now then .clean
      else match S.unmarshal raw with
        | none => .failed
        | some t => .tainted t

/-- A call of `Taint`; reads change nothing. -/
structure TaintCall (τ : Type) where
  now : ℤ
  fault : Fault
  tenant : String
  session : String
  taint : τ

/-- The state after calls of `SetTaint`. -/
def tainted (calls : List (TaintCall τ)) : TaintState τ :=
  calls.foldl (fun s c => taint S c.now c.fault c.tenant c.session c.taint s) ⟨fun _ => none, []⟩

/-! ## A taint is kept where it reached Redis

A read never looks at the map of the process, so a taint that went there alone is forgotten at
once (`taint_forgotten`). A taint that Redis has stays for its lifetime, whatever comes after it.
-/

open Prod List

variable {τ : Type} {S : RedisTaintStore τ}

/-- The write of a call took effect. -/
def TaintCall.Reached (S : RedisTaintStore τ) (c : TaintCall τ) : Prop :=
  (S.marshal c.taint).isSome ∧ c.fault ≠ .lost

instance (S : RedisTaintStore τ) (c : TaintCall τ) : Decidable (c.Reached S) :=
  inferInstanceAs (Decidable (_ ∧ _))

theorem taint_redis {c : TaintCall τ} {s : TaintState τ} {key : String} :
    ((taint S c.now c.fault c.tenant c.session c.taint s).redis key).map snd =
      if c.Reached S ∧ key = MCPTaintKeyPrefix ++ taintKey c.tenant c.session then some (c.now + S.ttl)
      else (s.redis key).map snd := by
  unfold taint
  cases hm : S.marshal c.taint with
  | none => simp [TaintCall.Reached, hm]
  | some encoded =>
    by_cases hkey : key = MCPTaintKeyPrefix ++ taintKey c.tenant c.session <;> cases hf : c.fault <;>
      simp [TaintCall.Reached, hm, hf, hkey]

theorem getTaint_eq_clean_iff {now : ℤ} {fault : Fault} {tenant session : String} {s : TaintState τ} :
    getTaint S now fault tenant session s = .clean ↔
      fault = .none ∧ ∀ e ∈ (s.redis (MCPTaintKeyPrefix ++ taintKey tenant session)).map snd, e ≤ now := by
  unfold getTaint
  cases fault with
  | lost | late => simp
  | none =>
    cases hred : s.redis (MCPTaintKeyPrefix ++ taintKey tenant session) with
    | none => simp
    | some v =>
      dsimp only
      split_ifs with hle
      · simpa using hle
      · cases S.unmarshal v.1 <;> simpa using hle

/-- **A session taint is not forgotten** by any later read exactly if its write reached Redis. -/
theorem taint_kept_iff (S : RedisTaintStore τ) (before : List (TaintCall τ)) (c : TaintCall τ)
    (hbefore : ∀ b ∈ before, b.now < c.now) :
    (∀ (later : List (TaintCall τ)) (now : ℤ) (fault : Fault), (∀ l ∈ later, c.now ≤ l.now) → c.now ≤ now →
      now < c.now + S.ttl → getTaint S now fault c.tenant c.session
        (tainted S (before ++ c :: later)) ≠ .clean) ↔
    c.Reached S := by
  set key := MCPTaintKeyPrefix ++ taintKey c.tenant c.session with hkey
  have hpos := S.ttl_pos
  constructor
  · intro hkp
    by_contra hlo
    -- what Redis has of the session is older, and expires before the taint should
    have hold : ∀ e ∈ ((tainted S before).redis key).map snd, e < c.now + S.ttl := by
      refine foldlRecOn (motive := fun s : TaintState τ => ∀ e ∈ (s.redis key).map snd, e < c.now + S.ttl)
        before _ nofun fun s hs b hb e he => ?_
      rw [taint_redis] at he
      split_ifs at he
      · cases he
        have := hbefore b hb
        omega
      · exact hs e he
    refine hkp [] (c.now + S.ttl - 1) .none nofun (by omega) (by omega) (getTaint_eq_clean_iff.2 ⟨rfl, ?_⟩)
    intro e he
    rw [tainted, foldl_append, foldl_cons, foldl_nil, taint_redis, if_neg fun h => hlo h.1] at he
    have := hold e he
    omega
  · intro hrch later now fault hlat _ hnow hcle
    have hls : ∃ e ∈ ((tainted S (before ++ c :: later)).redis key).map snd, c.now + S.ttl ≤ e := by
      rw [tainted, foldl_append]
      refine foldlRecOn
        (motive := fun s : TaintState τ => ∃ e ∈ (s.redis key).map snd, c.now + S.ttl ≤ e) later _ ?_ ?_
      · rw [taint_redis, if_pos ⟨hrch, hkey⟩]
        exact ⟨_, rfl, le_rfl⟩
      · intro s hs l hl
        rw [taint_redis]
        split_ifs
        · exact ⟨_, rfl, by have := hlat l hl; omega⟩
        · exact hs
    obtain ⟨e, he, hle⟩ := hls
    have := (getTaint_eq_clean_iff.1 hcle).2 e he
    omega

/-- A store whose taints are their own JSON form. -/
def plainStore : RedisTaintStore String := ⟨3600, by decide, 3600, some, some⟩

theorem taint_kept_plain :
    getTaint plainStore 1 .none "acme" "s"
      (tainted plainStore [⟨0, .late, "acme", "s", "injection"⟩]) ≠ .clean :=
  (taint_kept_iff plainStore [] ⟨0, .late, "acme", "s", "injection"⟩ nofun).2 (by decide) [] 1 .none nofun
    (by decide) (by decide)

/-- Redis is away for the write and back for the read. -/
theorem taint_forgotten :
    getTaint plainStore 1 .none "acme" "s"
      (tainted plainStore [⟨0, .lost, "acme", "s", "injection"⟩]) = .clean := by
  decide

end Cordum.Mcp
