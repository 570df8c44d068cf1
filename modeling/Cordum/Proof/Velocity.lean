import Cordum.Policy.Velocity
import Mathlib.Data.List.Perm.Subperm

/-!
# Velocity limits and buckets

* `velocity_limit`: within any stretch as long as the window, at most as many requests as the limit
  are let through.
* `buckets_isolated_iff`: two buckets have different keys exactly when they differ at more than separators.
* `simulation_predicts_iff`: a dry run predicts an evaluation exactly when no window it asks is full
  to the last request.
-/

namespace Cordum.Policy

open GoString

theorem evaluateRulesWithVelocity_cons (E : VelocityCall) (method : String) (count : ℤ) (rule : PolicyRule)
    (rules : List PolicyRule) (W : Windows) :
    evaluateRulesWithVelocity E method count (rule :: rules) W =
      let next := if rule.velocity.isSome then count + 1 else count
      match E.turn count rule with
      | .passed => evaluateRulesWithVelocity E method next rules W
      | .fires => (.rule rule, W)
      | .asks cfg keyValue =>
        match E.check method W rule.id keyValue cfg with
        | (none, W') =>
          if E.failOpen then evaluateRulesWithVelocity E method next rules W'
            else (.velocityUnavailable, W')
        | (some true, W') => (.rule rule, W')
        | (some false, W') => evaluateRulesWithVelocity E method next rules W' := by
  rw [evaluateRulesWithVelocity, velocityLoop, VelocityCall.turn]
  cases rule.velocity with
  | none =>
    by_cases hmt : matchRule E.matchers rule.terms E.input <;> simp [hmt]
  | some v =>
    dsimp only
    by_cases hlim : E.limit ≠ unlimited ∧ count + 1 > E.limit
    · rw [if_pos hlim, if_pos hlim]
      rfl
    rw [if_neg hlim, if_neg hlim]
    by_cases hmt : matchRule E.matchers rule.terms E.input = false
    · rw [if_pos hmt, if_pos hmt]
      rfl
    rw [if_neg hmt, if_neg hmt]
    by_cases hkey : v.resolveKey E.input = ""
    · rw [if_pos hkey, if_pos hkey]
      rfl
    rw [if_neg hkey, if_neg hkey]
    dsimp only
    rcases E.check method W rule.id (v.resolveKey E.input) v with ⟨_ | _ | _, W'⟩ <;> rfl

open List VelocityConfig Function Prod

/-! ## Limits -/

section

variable (ruleID keyValue : String) (cfg : VelocityConfig)

/-- One call of `CheckAndRecord` for the bucket, with its answer behind those so far. -/
def bucketStep (s : Windows × List ((ℤ × String) × Option Bool)) (c : ℤ × String) :
    Windows × List ((ℤ × String) × Option Bool) :=
  let r := checkAndRecord c.1 c.2 s.1 ruleID keyValue cfg
  (r.2, s.2 ++ [(c, r.1)])

/-- Calls for one bucket, with their answers. -/
def bucketRun (W : Windows) (calls : List (ℤ × String)) : Windows × List ((ℤ × String) × Option Bool) :=
  calls.foldl (bucketStep ruleID keyValue cfg) (W, [])

variable {ruleID keyValue cfg} {W : Windows} {calls : List (ℤ × String)}

theorem bucketRun_append_singleton {c : ℤ × String} :
    bucketRun ruleID keyValue cfg W (calls ++ [c]) = bucketStep ruleID keyValue cfg
      (bucketRun ruleID keyValue cfg W calls) c :=
  foldl_append ..

theorem bucketStep_valid {ruleID keyValue : String} (hcfg : cfg.Valid)
    {s : Windows × List ((ℤ × String) × Option Bool)} {c : ℤ × String} :
    ∃ w, w = zadd c.2 c.1 (pruned (c.1 - cfg.windowSeconds) (s.1 (velocityKey ruleID keyValue))) ∧
      (bucketStep ruleID keyValue cfg s c).1 (velocityKey ruleID keyValue) = w ∧
      (bucketStep ruleID keyValue cfg s c).2 = s.2 ++ [(c, some (cfg.exceeded w))] := by
  refine ⟨_, rfl, ?_, ?_⟩
  · rw [bucketStep, checkAndRecord, if_pos hcfg]
    exact update_self ..
  · rw [bucketStep, checkAndRecord, if_pos hcfg]

/-- **A request that still counts is in the window**, with the time of its last call. -/
theorem recorded (ruleID keyValue : String) (W : Windows) (hcfg : cfg.Valid)
    (hclo : calls.Pairwise fun c d => c.1 ≤ d.1) {now : ℤ}
    (hnow : ∀ c ∈ calls, c.1 ≤ now) : ∀ c ∈ calls, now - cfg.windowSeconds < c.1 →
      ∃ time, c.1 ≤ time ∧ (c.2, time) ∈ (bucketRun ruleID keyValue cfg W calls).1
        (velocityKey ruleID keyValue) := by
  induction calls using reverseRecOn generalizing now with
  | nil => exact nofun
  | append_singleton calls d ih =>
    rw [pairwise_append] at hclo
    have hls : ∀ c ∈ calls, c.1 ≤ d.1 := fun c hc => hclo.2.2 c hc d mem_cons_self
    have hd : d.1 ≤ now := hnow d (mem_append_right _ mem_cons_self)
    obtain ⟨w, hw, hwin, -⟩ :=
      bucketStep_valid hcfg
    intro c hc hsrt
    rw [bucketRun_append_singleton, hwin, hw]
    by_cases hmbr : c.2 = d.2
    · refine ⟨d.1, ?_, ?_⟩
      · rcases mem_append.1 hc with hc | hc
        · exact hls c hc
        · exact Int.le_of_eq (congrArg fst (mem_singleton.1 hc))
      · rw [hmbr]
        exact mem_append_right _ mem_cons_self
    · have hc : c ∈ calls := by
        rcases mem_append.1 hc with hc | hc
        · exact hc
        · exact absurd (by rw [mem_singleton.1 hc]) hmbr
      obtain ⟨time, htm, hmem⟩ := ih hclo.1 hls c hc (by omega)
      refine ⟨time, htm, mem_append_left _ (mem_filter.2 ⟨mem_filter.2 ⟨hmem, ?_⟩, ?_⟩)⟩
      · exact decide_eq_true (by dsimp only; omega)
      · exact decide_eq_true hmbr

/-- **Velocity limits are not exceeded unflagged.** -/
theorem velocity_limit (ruleID keyValue : String) (cfg : VelocityConfig) (W : Windows)
    (calls : List (ℤ × String))
    (hclock : calls.Pairwise fun c d => c.1 ≤ d.1) (t : ℤ) (chosen : List ((ℤ × String) × Option Bool))
    (hsub : chosen.Sublist (bucketRun ruleID keyValue cfg W calls).2)
    (hids : (chosen.map fun e => e.1.2).Nodup)
    (htimes : ∀ e ∈ chosen, t ≤ e.1.1 ∧ e.1.1 < t + cfg.windowSeconds)
    (hpassed : ∀ e ∈ chosen, e.2 = some false) :
    chosen.length ≤ cfg.maxRequests.toNat := by
  have hcs : ∀ calls, (bucketRun ruleID keyValue cfg W calls).2.map fst = calls := by
    intro calls
    induction calls using reverseRecOn with
    | nil => rfl
    | append_singleton calls c ih =>
      rw [bucketRun_append_singleton, bucketStep, map_append, ih]
      rfl
  induction calls using reverseRecOn generalizing chosen with
  | nil => rw [sublist_nil.1 hsub]; exact Nat.zero_le _
  | append_singleton calls d ih =>
    have hclock' := (pairwise_append.1 hclock).1
    rw [bucketRun_append_singleton] at hsub
    obtain ⟨front, back, rfl, hfrt, hbk⟩ := sublist_append_iff.1 hsub
    rcases sublist_singleton.1 hbk with rfl | rfl
    · rw [append_nil] at hids htimes hpassed ⊢
      exact ih hclock' front hfrt hids htimes hpassed
    -- the last chosen call is the last one made, and every chosen request is in the window that it sees
    have hd := hpassed _ (mem_append_right _ mem_cons_self)
    have htd : t ≤ d.1 ∧ d.1 < t + cfg.windowSeconds := htimes _ (mem_append_right _ mem_cons_self)
    by_cases hcfg : cfg.Valid
    · obtain ⟨w, -, hwin, hlog⟩ :=
        bucketStep_valid hcfg
      have hans : some (cfg.exceeded w) = some false := by
        have := append_cancel_left hlog
        rw [← hd]
        simpa using this.symm
      have hnow : ∀ c ∈ calls ++ [d], c.1 ≤ d.1 := by
        intro c hc
        rcases mem_append.1 hc with hc | hc
        · exact (pairwise_append.1 hclock).2.2 c hc d mem_cons_self
        · exact Int.le_of_eq (congrArg fst (mem_singleton.1 hc))
      have hmm : ((front ++
          [(d, (checkAndRecord d.1 d.2 (bucketRun ruleID keyValue cfg W calls).1 ruleID keyValue
          cfg).1)]).map fun e => e.1.2) ⊆ w.map fst := by
        intro member hmbr
        obtain ⟨e, he, rfl⟩ := mem_map.1 hmbr
        have hca : e.1 ∈ calls ++ [d] := by
          rcases mem_append.1 he with he | he
          · refine mem_append_left _ ?_
            rw [← hcs calls]
            exact mem_map_of_mem (hfrt.subset he)
          · rw [mem_singleton.1 he]
            exact mem_append_right _ mem_cons_self
        have hte := htimes e he
        obtain ⟨time, -, hmem⟩ := recorded ruleID keyValue W hcfg hclock hnow e.1 hca (by omega)
        rw [bucketRun_append_singleton, hwin] at hmem
        exact mem_map_of_mem hmem
      have hlen := (subperm_of_subset hids hmm).length_le
      rw [length_map, length_map] at hlen
      have hwit : ¬ w.length > cfg.maxRequests := of_decide_eq_false (Option.some.inj hans)
      omega
    · rw [checkAndRecord, if_neg hcfg] at hd
      cases hd

theorem velocity_limit_two :
    (bucketRun "burst" "acme" ⟨2, 10, "tenant"⟩ (fun _ => []) [(0, "a"), (1, "b"), (2, "c")]).2 =
      [((0, "a"), some false), ((1, "b"), some false), ((2, "c"), some true)] ∧
      [((0, "a"), some false), ((1, "b"), some false)].length ≤ (2 : ℤ).toNat := by
  have hrun : (bucketRun "burst" "acme" ⟨2, 10, "tenant"⟩ (fun _ => []) [(0, "a"), (1, "b"), (2, "c")]).2 =
      [((0, "a"), some false), ((1, "b"), some false), ((2, "c"), some true)] := by decide +kernel
  refine ⟨hrun, velocity_limit "burst" "acme" ⟨2, 10, "tenant"⟩ (fun _ => [])
    [(0, "a"), (1, "b"), (2, "c")] (by decide) 0
    [((0, "a"), some false), ((1, "b"), some false)] ?_ (by decide) (by decide) (by decide)⟩
  rw [hrun]
  exact .cons_cons _ (.cons_cons _ (.cons _ .slnil))

end

/-! ## Buckets -/

/-- The texts differ at most where both have a separator or an underscore. -/
def Blurred (s t : String) : Prop :=
  List.Forall₂ (fun c d => c = d ∨ c ∈ '_' :: keySeparators ∧ d ∈ '_' :: keySeparators) s.toList t.toList

theorem sanitizeKeyValue_eq_iff {s t : String} :
    sanitizeKeyValue s = sanitizeKeyValue t ↔ Blurred s t := by
  have hch : ∀ c d : Char,
      ((if keySeparators.contains c then '_' else c) = if keySeparators.contains d then '_' else d) ↔
      c = d ∨ c ∈ '_' :: keySeparators ∧ d ∈ '_' :: keySeparators := by
    intro c d
    simp only [contains_eq_mem, decide_eq_true_eq, mem_cons]
    split_ifs with hc hd hd
    · simp [hc, hd]
    · have hne : c ≠ d := fun h => hd (h ▸ hc)
      simp [hc, hd, hne, eq_comm]
    · have hne : c ≠ d := fun h => hc (h ▸ hd)
      simp [hc, hd, hne]
    · simp only [hc, hd, or_false, iff_self_or]
      rintro ⟨rfl, rfl⟩
      rfl
  rw [sanitizeKeyValue, sanitizeKeyValue, replaceAll, replaceAll, String.ofList_inj, ← forall₂_eq_eq_eq,
    forall₂_map_left_iff, forall₂_map_right_iff, Blurred]
  simp only [hch]

theorem velocityKey_eq_iff {id id' keyValue keyValue' : String} :
    velocityKey id keyValue = velocityKey id' keyValue' ↔ Blurred id id' ∧ Blurred keyValue keyValue' := by
  have hno : ∀ s, ':' ∉ (sanitizeKeyValue s).toList := by
    intro s
    exact not_mem_replaceAll (by decide) (by decide)
  have hcut : ∀ p s t : String, (p ++ s ++ ":" ++ t).toList =
      p.toList ++ (s.toList ++ ':' :: t.toList) := by
    intro p s t
    rw [String.toList_append, String.toList_append, String.toList_append, append_assoc, append_assoc]
    rfl
  have hkey : ∀ s t : String, (velocityKey s t).toList = _ := fun s t =>
    hcut "cordum:velocity:" (sanitizeKeyValue s) (sanitizeKeyValue t)
  rw [← sanitizeKeyValue_eq_iff, ← sanitizeKeyValue_eq_iff, ← String.toList_inj, hkey,
    hkey, append_cancel_left_eq, ← String.toList_inj, ← String.toList_inj]
  constructor
  · exact split_at_first (hno _) (hno _)
  · rintro ⟨h, h'⟩
    rw [h, h']

/-- The components of the key. -/
def VelocityConfig.components (v : VelocityConfig) (input : PolicyInput) : List String :=
  if contains v.key ":" then (split ':' v.key).map fun part => resolveKeyPart (trimSpace part) input
  else [resolveKeyPart v.key input]

theorem resolveKey_eq_join {v : VelocityConfig} {input : PolicyInput} (h : v.resolveKey input ≠ "") :
    v.resolveKey input = join ':' (v.components input) := by
  unfold resolveKey at h ⊢
  unfold components
  by_cases hkey : v.key = ""
  · rw [if_pos hkey] at h
    exact absurd rfl h
  rw [if_neg hkey] at h ⊢
  by_cases hcom : contains v.key ":"
  · dsimp only at h ⊢
    split_ifs at h ⊢ with hbl
    · exact absurd rfl h
    · rfl
  · rw [if_neg hcom, if_neg hcom, join_singleton]

/-- **When velocity buckets are isolated**: when their rules or components differ at a character that
is not a separator or an underscore in both. -/
theorem buckets_isolated_iff (id id' : String) (v v' : VelocityConfig) (input input' : PolicyInput)
    (h : v.resolveKey input ≠ "") (h' : v'.resolveKey input' ≠ "") :
    (id ≠ id' ∨ v.components input ≠ v'.components input' →
        velocityKey id (v.resolveKey input) ≠ velocityKey id' (v'.resolveKey input')) ↔
      (id = id' ∧ v.components input = v'.components input') ∨
        ¬ (Blurred id id' ∧ Blurred (join ':' (v.components input))
          (join ':' (v'.components input'))) := by
  rw [← resolveKey_eq_join h, ← resolveKey_eq_join h', ← velocityKey_eq_iff, ← not_and_or,
    imp_iff_not_or, not_not]

theorem buckets_isolated_iff_tenants :
    ("burst" ≠ "burst" ∨ ["acme"] ≠ ["globex"] → velocityKey "burst" "acme" ≠
      velocityKey "burst" "globex") ↔ ("burst" = "burst" ∧ ["acme"] = ["globex"]) ∨
        ¬ (Blurred "burst" "burst" ∧ Blurred (join ':' ["acme"]) (join ':' ["globex"])) :=
  buckets_isolated_iff "burst" "burst" ⟨1, 60, "tenant"⟩ ⟨1, 60, "tenant"⟩
    ⟨"acme", "", [], {}, false, {}, none⟩
    ⟨"globex", "", [], {}, false, {}, none⟩ (by decide +kernel) (by decide +kernel)

/-- Two tenants share a window. -/
theorem tenants_share_bucket :
    (VelocityConfig.components ⟨1, 60, "tenant"⟩ ⟨"acme:eu", "", [], {}, false, {}, none⟩ ≠
      VelocityConfig.components ⟨1, 60, "tenant"⟩ ⟨"acme_eu", "", [], {}, false, {}, none⟩) ∧
      velocityKey "burst"
        (VelocityConfig.resolveKey ⟨1, 60, "tenant"⟩ ⟨"acme:eu", "", [], {}, false, {}, none⟩) =
        velocityKey "burst"
          (VelocityConfig.resolveKey ⟨1, 60, "tenant"⟩ ⟨"acme_eu", "", [], {}, false, {}, none⟩) := by
  decide +kernel

/-! ## Dry runs -/

section

variable {E : VelocityCall} {W V : Windows} {method : String}

/-- A dry run comes to a window that holds as many requests as its limit. -/
def VelocityCall.MeetsFull (E : VelocityCall) : ℤ → List PolicyRule → Windows → Prop
  | _, [], _ => False
  | count, rule :: rules, W =>
    let next := if rule.velocity.isSome then count + 1 else count
    match E.turn count rule with
    | .passed => E.MeetsFull next rules W
    | .fires => False
    | .asks cfg keyValue =>
      if cfg.Valid then
        let w := pruned (E.now - cfg.windowSeconds) (W (velocityKey rule.id keyValue))
        (w.length : ℤ) = cfg.maxRequests ∨ (w.length : ℤ) < cfg.maxRequests ∧
          E.MeetsFull next rules (Function.update W (velocityKey rule.id keyValue) w)
      else E.failOpen ∧ E.MeetsFull next rules W

/-- The windows of an evaluation beside those of a dry run: they may have the job's request. -/
def Ahead (E : VelocityCall) (W V : Windows) : Prop :=
  ∀ key, (V key).filter (fun e => e.1 ≠ E.jobID) = W key ∧ ∀ e ∈ V key, e.1 = E.jobID → e.2 = E.now

theorem Ahead.zadd_pruned (h : Ahead E W V) (key : String) (start : ℤ) :
    zadd E.jobID E.now (pruned start (V key)) = pruned start (W key) ++ [(E.jobID, E.now)] := by
  rw [zadd, ← (h key).1, pruned, pruned, filter_filter, filter_filter]
  simp only [Bool.and_comm]

theorem Ahead.update (h : Ahead E W V) (key : String) (start : ℤ) :
    Ahead E (update W key (pruned start (W key)))
      (update V key (pruned start (W key) ++ [(E.jobID, E.now)])) := by
  have hoth : ∀ e ∈ pruned start (W key), e.1 ≠ E.jobID := by
    intro e he
    have hmem := (mem_filter.1 he).1
    rw [← (h key).1] at hmem
    exact of_decide_eq_true (mem_filter.1 hmem).2
  intro key'
  by_cases hkey : key' = key
  · subst hkey
    rw [update_self, filter_append]
    constructor
    · rw [filter_eq_self.2 fun e he => decide_eq_true (hoth e he)]
      simp
    · intro e he hid
      rcases mem_append.1 he with he | he
      · exact absurd hid (hoth e he)
      · rw [mem_singleton.1 he]
  · rw [update_of_ne hkey, update_of_ne hkey]
    exact h key'

theorem check_dryRun (hm : method = "simulate" ∨ method = "explain") :
    E.check method = checkOnly E.now := if_pos hm

theorem check_evaluate (hjob : E.jobID ≠ "") : E.check "evaluate" = checkAndRecord E.now E.jobID := by
  rw [VelocityCall.check, if_neg (by decide), VelocityCall.member, if_pos hjob]

/-- A rule that decides is one of the rules. -/
theorem mem_of_decides {rules : List PolicyRule} {count : ℤ} {W : Windows} {rule' : PolicyRule}
    (h : (evaluateRulesWithVelocity E method count rules W).1 = .rule rule') : rule' ∈ rules := by
  induction rules generalizing count W with
  | nil => cases h
  | cons rule rules ih =>
    rw [evaluateRulesWithVelocity_cons] at h
    cases htn : E.turn count rule with
    | passed =>
      rw [htn] at h
      exact mem_cons_of_mem _ (ih h)
    | fires =>
      rw [htn] at h
      cases h
      exact mem_cons_self
    | asks cfg keyValue =>
      simp only [htn] at h
      split at h
      · split at h
        · exact mem_cons_of_mem _ (ih h)
        · cases h
      · cases h
        exact mem_cons_self
      · exact mem_cons_of_mem _ (ih h)

/-- **A dry run beside an evaluation**: they agree, or a window is full to the last request, where the
evaluation stops. -/
theorem dryRun_beside (hm : method = "simulate" ∨ method = "explain") (hjob : E.jobID ≠ "")
    (rules : List PolicyRule) (count : ℤ) (h : Ahead E W V) : (¬ E.MeetsFull count rules W →
        (evaluateRulesWithVelocity E method count rules W).1 =
        (evaluateRulesWithVelocity E "evaluate" count rules V).1) ∧
      (E.MeetsFull count rules W → ∃ front rule back, rules = front ++ rule :: back ∧
        (evaluateRulesWithVelocity E "evaluate" count rules V).1 = .rule rule ∧
        ∀ rule', (evaluateRulesWithVelocity E method count rules W).1 = .rule rule' → rule' ∈ back) := by
  induction rules generalizing count W V with
  | nil => exact ⟨fun _ => rfl, nofun⟩
  | cons rule rules ih =>
    -- what holds of the rules behind holds of all
    have hbeh : ∀ {count' : ℤ} {W' V' : Windows}, Ahead E W' V' →
        (E.MeetsFull count' rules W' → ∃ front rule' back, rule :: rules = front ++ rule' :: back ∧
          (evaluateRulesWithVelocity E "evaluate" count' rules V').1 = .rule rule' ∧
          ∀ r, (evaluateRulesWithVelocity E method count' rules W').1 = .rule r → r ∈ back) := by
      intro count' W' V' h' hfu
      obtain ⟨front, rule', back, hrs, hev, hdry⟩ := (ih _ h').2 hfu
      exact ⟨rule :: front, rule', back, congrArg (rule :: ·) hrs, hev, hdry⟩
    rw [evaluateRulesWithVelocity_cons, evaluateRulesWithVelocity_cons, VelocityCall.MeetsFull,
      check_dryRun hm, check_evaluate hjob]
    cases htn : E.turn count rule with
    | passed => exact ⟨(ih _ h).1, hbeh h⟩
    | fires => exact ⟨fun _ => rfl, False.elim⟩
    | asks cfg keyValue =>
      dsimp only
      rw [checkOnly, checkAndRecord]
      by_cases hcfg : cfg.Valid
      · rw [if_pos hcfg, if_pos hcfg, if_pos hcfg]
        dsimp only
        rw [h.zadd_pruned]
        have hnx := h.update (velocityKey rule.id keyValue) (E.now - cfg.windowSeconds)
        set w := pruned (E.now - cfg.windowSeconds) (W (velocityKey rule.id keyValue))
        have hcnt : ((w ++ [(E.jobID, E.now)]).length) = w.length + 1 := by
          rw [length_append]
          rfl
        rw [exceeded, exceeded]
        rcases Int.lt_trichotomy w.length cfg.maxRequests with hlt | heq | hgt
        · rw [decide_eq_false (by omega), decide_eq_false (by omega)]
          refine ⟨fun hfu => (ih _ hnx).1 fun hf => hfu (.inr ⟨hlt, hf⟩), fun hfu => hbeh hnx ?_⟩
          exact hfu.elim (fun heq => by omega) And.right
        · rw [decide_eq_false (by omega), decide_eq_true (by omega)]
          exact ⟨absurd (.inl heq), fun _ => ⟨[], rule, rules, rfl, rfl, fun _ hr => mem_of_decides hr⟩⟩
        · rw [decide_eq_true (by omega), decide_eq_true (by omega)]
          exact ⟨fun _ => rfl, fun hfu => by omega⟩
      · rw [if_neg hcfg, if_neg hcfg, if_neg hcfg]
        dsimp only
        by_cases hop : E.failOpen
        · rw [if_pos hop, if_pos hop]
          exact ⟨fun hfu => (ih _ h).1 fun hf => hfu ⟨hop, hf⟩, fun hfu => hbeh h hfu.2⟩
        · rw [if_neg hop, if_neg hop]
          exact ⟨fun _ => rfl, fun hfu => absurd hfu.1 hop⟩

/-- The decision and the rule are the same. -/
def SameOutcome (p : SafetyPolicy) (v v' : Verdict) : Prop :=
  (v.decide p).decision = (v'.decide p).decision ∧ (v.decide p).ruleID = (v'.decide p).ruleID

/-- **When a dry run predicts the evaluation**: when it comes to no window that the request would
overflow; under distinct rule ids, only then. -/
theorem simulation_predicts_iff (E : VelocityCall) (p : SafetyPolicy) (W : Windows) (method : String)
    (hm : method = "simulate" ∨ method = "explain") (hjob : E.jobID ≠ "")
    (hnew : ∀ key, ∀ e ∈ W key, e.1 ≠ E.jobID) :
    (¬ E.MeetsFull 0 (effectiveRules E.matchers p) W →
        SameOutcome p (evaluateRulesWithVelocity E method 0 (effectiveRules E.matchers p) W).1
          (evaluateRulesWithVelocity E "evaluate" 0 (effectiveRules E.matchers p) W).1) ∧
      (((effectiveRules E.matchers p).map PolicyRule.id).Nodup →
        "" ∉ (effectiveRules E.matchers p).map PolicyRule.id →
        SameOutcome p (evaluateRulesWithVelocity E method 0 (effectiveRules E.matchers p) W).1
          (evaluateRulesWithVelocity E "evaluate" 0 (effectiveRules E.matchers p) W).1 →
        ¬ E.MeetsFull 0 (effectiveRules E.matchers p) W) := by
  have h : Ahead E W W := fun key =>
    ⟨filter_eq_self.2 fun e he => decide_eq_true (hnew key e he),
      fun e he hid => absurd hid (hnew key e he)⟩
  obtain ⟨hsm, hfu⟩ := dryRun_beside hm hjob (effectiveRules E.matchers p) 0 h
  refine ⟨fun hnot => ?_, fun hids hnam hagr hmts => ?_⟩
  · rw [hsm hnot]
    exact ⟨rfl, rfl⟩
  · obtain ⟨front, rule, back, hrs, hev, hdry⟩ := hfu hmts
    have hid := hagr.2
    rw [hev] at hid
    rw [hrs, map_append] at hids hnam
    have hru : ((Verdict.rule rule).decide p).ruleID = rule.id := rfl
    have hne : rule.id ≠ "" := fun hbl => hnam (mem_append_right _ (hbl ▸ mem_cons_self))
    cases hv : (evaluateRulesWithVelocity E method 0 (effectiveRules E.matchers p) W).1 with
    | rule rule' =>
      rw [hv, hru] at hid
      have hmem : rule.id ∈ back.map PolicyRule.id := by
        rw [← hid]
        exact mem_map_of_mem (hdry rule' hv)
      exact (nodup_cons.1 (nodup_append.1 hids).2.1).1 hmem
    | velocityUnavailable =>
      rw [hv] at hid
      exact hne hid.symm
    | default =>
      have hbl : (defaultPolicyDecision p).ruleID = "" := by
        rw [defaultPolicyDecision]
        split_ifs <;> rfl
      rw [hv] at hid
      exact hne (hid.symm.trans hbl)

/-- A second request of a tenant within a minute is denied. -/
def burstPolicy : SafetyPolicy where
  rules := [{ id := "burst", velocity := some ⟨1, 60, "tenant"⟩, decision := "deny" }]
  defaultDecision := "allow"

/-- A second request within the window. -/
def burstCall : VelocityCall where
  matchers := .literal
  limit := unlimited
  failOpen := false
  now := 100
  input := ⟨"acme", "job.a", [], {}, false, {}, none⟩
  jobID := "second"
  anon := "anon"

theorem simulation_predicts_iff_burst :
    SameOutcome burstPolicy (evaluateRulesWithVelocity burstCall "simulate" 0
      (effectiveRules .literal burstPolicy) fun _ => []).1
      (evaluateRulesWithVelocity burstCall "evaluate" 0 (effectiveRules .literal burstPolicy)
        fun _ => []).1 := by
  refine (simulation_predicts_iff burstCall burstPolicy (fun _ => []) "simulate" (.inl rfl)
    (by decide) (by simp)).1 ?_
  have hrs : effectiveRules burstCall.matchers burstPolicy = burstPolicy.rules := by decide +kernel
  have htn : ∀ rule ∈ burstPolicy.rules, burstCall.turn 0 rule = .asks ⟨1, 60, "tenant"⟩ "acme" := by
    decide +kernel
  rw [hrs, burstPolicy, VelocityCall.MeetsFull, htn _ (.head _)]
  simp [VelocityCall.MeetsFull, pruned]

/-- The dry run allows what the evaluation denies. -/
theorem simulation_misses_full :
    ((evaluateRulesWithVelocity burstCall "simulate" 0 (effectiveRules .literal burstPolicy)
      fun _ => [("first", 99)]).1.decide burstPolicy).decision = .allow ∧
      ((evaluateRulesWithVelocity burstCall "evaluate" 0 (effectiveRules .literal burstPolicy)
        fun _ => [("first", 99)]).1.decide
        burstPolicy).decision = .deny := by
  decide +kernel

end

end Cordum.Policy
