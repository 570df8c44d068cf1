import Cordum.Policy.Merge
import Cordum.Proof.FloorLoaded

/-!
# Reloads

A policy is installed when its snapshot is another one. The snapshot hashes ids and contents in the
order of the ids; the merge follows the times of installation.

* `reload_converges_iff`: reloads leave the kernel with what `Load` builds, whatever policies mean,
  exactly when documents with one hashed text have the same contents in the order of installation.
-/

namespace Cordum.Policy

open String LoadState Option

section

variable {P : Type} (L : Loader P) (base : Option P × String)

/-- Reloads of these documents leave the kernel with what `Load` builds. -/
def Converges (𝒟 : Set Bundles) : Prop :=
  ∀ d₀ ∈ 𝒟, ∀ k, load L base d₀ = .ok k → ∀ docs : List Bundles, (∀ d ∈ docs, d ∈ 𝒟) → ∀ d ∈ 𝒟, ∀ r,
    load L base d = .ok r → r.snapshot ≠ "" →
    (reload L base (docs.foldl (reload L base) k) d).enforced = r.enforced

variable {L base} {𝒟 : Set Bundles}

theorem converges_iff : Converges L base 𝒟 ↔ ∀ d ∈ 𝒟, ∀ d' ∈ 𝒟, ∀ r r', load L base d = .ok r →
    load L base d' = .ok r' →
    r.snapshot ≠ "" → r.snapshot = r'.snapshot → r.enforced = r'.enforced := by
  constructor
  · intro h d hd d' hd' r r' hr hr' hne heq
    have hls := h d hd r hr [] nofun d' hd' r' hr' (heq ▸ hne)
    rw [reload, hr'] at hls
    dsimp only at hls
    rwa [if_neg fun hnew => hnew.2 heq.symm] at hls
  · intro h d0 hd0 k hk docs hdc d hd r hr hne
    -- what the kernel has was loaded from one of the documents
    have hfr : ∃ e ∈ 𝒟, load L base e = .ok (docs.foldl (reload L base) k) := by
      refine List.foldlRecOn (motive := fun k => ∃ e ∈ 𝒟, load L base e = .ok k) docs _
        ⟨d0, hd0, hk⟩ fun k hk d hd => ?_
      rw [reload]
      cases hld : load L base d with
      | error => exact hk
      | ok r =>
        dsimp only
        split_ifs
        · exact ⟨d, hdc d hd, hld⟩
        · exact hk
    obtain ⟨e, he, hld⟩ := hfr
    rw [reload, hr]
    dsimp only
    split_ifs with hnew
    · rfl
    · rw [not_and, not_not] at hnew
      exact (h d hd e he r _ hr hld hne (hnew hne)).symm

end

/-! ## What texts mean does not matter -/

section

variable {P : Type} (S : LoaderEnv) (M : Meaning P)

/-- The texts for themselves. -/
def Meaning.text : Meaning String := ⟨id, fun _ text => text⟩

/-- What the first pass accepts of a document. -/
def LoaderEnv.accepted (doc : Bundles) : Except String (LoadState String) :=
  doc.sorted.foldlM (visitBundle (S.loader .text)) {}

/-- The texts in the order in which they are merged. -/
def LoadState.order (s : LoadState String) : List String :=
  (s.pending.insertionSort mergesBefore).map fun e => e.2.1

/-- The policies of texts, merged. -/
def Meaning.mergeAll (texts : List String) : Option P :=
  texts.foldl (fun merged text => some (M.merge merged (M.read text))) none

/-- Nothing is accepted. -/
def LoadState.Empty (s : LoadState String) : Prop := s.order = [] ∧ s.invariants = none

instance (s : LoadState String) : Decidable s.Empty := inferInstanceAs (Decidable (_ ∧ _))

/-- The state with its texts read. -/
def LoadState.read (s : LoadState String) : LoadState P :=
  { invariants := s.invariants.map M.read
    pending := s.pending.map fun e => (e.1, M.read e.2.1, e.2.2)
    customBundleCount := s.customBundleCount
    skippedCount := s.skippedCount
    hashed := s.hashed }

theorem visitBundle_read {s : LoadState String} {e : String × Bundle} :
    visitBundle (S.loader M) (s.read M) e = (visitBundle (S.loader .text) s e).map (read M) := by
  have hov : overLimit (S.loader M) = overLimit (S.loader .text) := rfl
  unfold visitBundle
  cases extractPolicyFragment e.2 with
  | none => rfl
  | some content =>
    dsimp only
    by_cases hbl : GoString.trimSpace content = ""
    · rw [if_pos hbl, if_pos hbl]
      rfl
    rw [if_neg hbl, if_neg hbl, hov, show (s.read M).customBundleCount = s.customBundleCount from rfl]
    by_cases hlim : overLimit (S.loader .text) (GoString.hasPrefix e.1 customBundles) s.customBundleCount
    · rw [if_pos hlim, if_pos hlim]
      rfl
    rw [if_neg hlim, if_neg hlim]
    dsimp only [LoaderEnv.loader]
    cases S.verify e.1 content (fragmentSignature e.2) with
    | some err => rfl
    | none =>
      by_cases hacc : S.accepts content
      · split_ifs <;> simp [Except.map, LoadState.read, Meaning.text]
      · simp only [hacc]
        rfl

theorem foldlM_read (entries : List (String × Bundle)) (s : LoadState String) :
    entries.foldlM (visitBundle (S.loader M)) (s.read M) =
      (entries.foldlM (visitBundle (S.loader .text)) s).map (read M) := by
  induction entries generalizing s with
  | nil => rfl
  | cons e entries ih =>
    rw [List.foldlM_cons, List.foldlM_cons, visitBundle_read]
    cases visitBundle (S.loader .text) s e with
    | error err => rfl
    | ok s' => exact ih s'

/-- **The first pass decides**: what is loaded is read off the accepted texts. -/
theorem loadFragments_eq {doc : Bundles} : loadFragments (S.loader M) doc = (S.accepted doc).map fun s =>
    if s.Empty then { customBundleCount := s.customBundleCount }
    else ⟨M.mergeAll s.order, s.invariants.map M.read, "cfg:" ++ S.sha256 (hashedText s.hashed),
      s.customBundleCount⟩ := by
  have hrd := foldlM_read S M doc.sorted {}
  change doc.sorted.foldlM (visitBundle (S.loader M)) {} = (S.accepted doc).map (read M) at hrd
  unfold loadFragments
  rw [hrd]
  cases S.accepted doc with
  | error err => rfl
  | ok s =>
    have hsrd : (s.read M).pending.insertionSort mergesBefore =
        (s.pending.insertionSort mergesBefore).map fun e => (e.1, M.read e.2.1, e.2.2) :=
      (List.map_insertionSort _ _ (fun e : String × String × ℤ => (e.1, M.read e.2.1, e.2.2)) _
        fun a _ b _ => Iff.rfl).symm
    have hmrg : ((s.read M).pending.insertionSort mergesBefore).foldl
        (fun merged fragment => some ((S.loader M).merge merged fragment.2.1)) none =
        M.mergeAll s.order := by
      rw [hsrd, List.foldl_map, Meaning.mergeAll, order, List.foldl_map]
      rfl
    have hso : ∀ (l : List String) p,
        l.foldl (fun merged text => some (M.merge merged (M.read text))) (some p) ≠ none := by
      intro l
      induction l with
      | nil => exact fun _ => nofun
      | cons _ _ ih => exact fun _ => ih _
    have hno : (M.mergeAll s.order).isNone ∧ (s.read M).invariants.isNone ↔ s.Empty := by
      rw [LoadState.read, isNone_map, isNone_iff_eq_none, isNone_iff_eq_none]
      refine and_congr_left fun _ => ?_
      cases s.order with
      | nil => exact iff_of_true rfl rfl
      | cons text texts => exact iff_of_false (hso texts _) nofun
    dsimp only [Except.map, bind, Except.bind]
    rw [hmrg]
    simp only [hno]
    split_ifs <;> rfl

/-- The snapshot of what is accepted. -/
def LoaderEnv.snapshot (s : LoadState String) : String :=
  if s.Empty then "" else "cfg:" ++ S.sha256 (hashedText s.hashed)

/-- What is loaded beside the policy file. -/
def LoaderEnv.result (base : Option P × String) (s : LoadState String) : Loaded P where
  merged := match M.mergeAll s.order with
    | none => base.1
    | some policy => some (M.merge base.1 policy)
  invariants := s.invariants.map M.read
  snapshot := combineSnapshots base.2 (S.snapshot s)
  customBundleCount := s.customBundleCount

theorem load_eq (base : Option P × String) (doc : Bundles) :
    load (S.loader M) base doc = (S.accepted doc).map (S.result M base) := by
  rw [load, loadFragments_eq]
  cases S.accepted doc with
  | error err => rfl
  | ok s =>
    dsimp only [Except.map, bind]
    rw [LoaderEnv.result, LoaderEnv.snapshot]
    by_cases hemp : s.Empty
    · rw [if_pos hemp, if_pos hemp, hemp.1, hemp.2]
      rfl
    · rw [if_neg hemp, if_neg hemp]
      rfl

end

theorem combineSnapshots_inj {base a b : String}
    (h : combineSnapshots base a = combineSnapshots base b) : a = b := by
  unfold combineSnapshots at h
  have hlon : ∀ c : String, base ≠ base ++ "|" ++ c := by
    intro c heq
    have hlen := congrArg length heq
    rw [length_append, length_append] at hlen
    have hbar : "|".length = 1 := by decide
    omega
  split_ifs at h with h0 ha hb hb
  · exact h
  · rw [ha, hb]
  · exact absurd h (hlon b)
  · exact absurd h.symm (hlon a)
  · rw [append_assoc, append_assoc] at h
    exact (append_right_inj _).1 ((append_right_inj _).1 h)

/-- Lists of texts, one behind the other. -/
def Meaning.listed : Meaning (List String) :=
  ⟨fun text => [text], fun merged texts => merged.getD [] ++ texts⟩

theorem mergeAll_listed (texts : List String) : (Meaning.listed.mergeAll texts).getD [] = texts := by
  have hfl : ∀ texts (m : Option (List String)),
      (texts.foldl
        (fun merged text => some (Meaning.listed.merge merged (Meaning.listed.read text))) m).getD [] =
        m.getD [] ++ texts := by
    intro texts
    induction texts with
    | nil => exact fun m => (List.append_nil _).symm
    | cons text texts ih =>
      intro m
      rw [List.foldl_cons, ih]
      simp [Meaning.listed]
  exact hfl texts none

/-- **When reloads converge**, whatever the policies mean: when documents hashed as one text have the
same contents in the order of installation, and the same invariants. -/
theorem reload_converges_iff (S : LoaderEnv) (𝒟 : Set Bundles) :
    (∀ (P : Type) (M : Meaning P) (base : Option P × String), Converges (S.loader M) base 𝒟) ↔
      ∀ d ∈ 𝒟, ∀ d' ∈ 𝒟, ∀ s s', S.accepted d = .ok s → S.accepted d' = .ok s' → ¬ s.Empty → ¬ s'.Empty →
        hashedText s.hashed = hashedText s'.hashed → s.order = s'.order ∧
        s.invariants = s'.invariants := by
  have hsna : ∀ {s s'}, S.snapshot s = S.snapshot s' → s.Empty ∧ s'.Empty ∨
      ¬ s.Empty ∧ ¬ s'.Empty ∧ hashedText s.hashed = hashedText s'.hashed := by
    intro s s' heq
    have hcfg : ∀ t : String, "" ≠ "cfg:" ++ t := by
      intro t h
      have hlen := congrArg length h
      rw [length_append] at hlen
      have hfr : "cfg:".length = 4 := by decide
      have hz : "".length = 0 := by decide
      omega
    unfold LoaderEnv.snapshot at heq
    split_ifs at heq with hs hs' hs'
    · exact .inl ⟨hs, hs'⟩
    · exact absurd heq (hcfg _)
    · exact absurd heq.symm (hcfg _)
    · exact .inr ⟨hs, hs', S.sha256_injective ((append_right_inj _).1 heq)⟩
  constructor
  · intro h d hd d' hd' s s' hs hs' hne hne' htx
    have hr := load_eq S .listed (none, "") d
    have hr' := load_eq S .listed (none, "") d'
    rw [hs] at hr
    rw [hs'] at hr'
    have hequ : S.snapshot s = S.snapshot s' := by
      rw [LoaderEnv.snapshot, LoaderEnv.snapshot, if_neg hne, if_neg hne', htx]
    have hnem : S.snapshot s ≠ "" := fun hbl => by
      rcases @hsna s {} (hbl.trans (if_pos ⟨rfl, rfl⟩).symm) with he | he
      · exact hne he.1
      · exact he.2.1 ⟨rfl, rfl⟩
    have hsm := converges_iff.1 (h _ .listed (none, "")) d hd d' hd' _ _ hr hr' hnem hequ
    have hmrg : ∀ s, (S.result .listed (none, "") s).merged = Meaning.listed.mergeAll s.order := by
      intro s
      rw [LoaderEnv.result]
      cases Meaning.listed.mergeAll s.order with
      | none | some texts => rfl
    obtain ⟨hord, hinv⟩ := Prod.mk.inj hsm
    rw [hmrg, hmrg] at hord
    refine ⟨by rw [← mergeAll_listed s.order, hord, mergeAll_listed], ?_⟩
    exact map_injective (fun a b hab => (List.cons.inj hab).1) hinv
  · intro h P M base
    refine converges_iff.2 fun d hd d' hd' r r' hr hr' _ heq => ?_
    rw [load_eq] at hr hr'
    cases hs : S.accepted d with
    | error err => rw [hs] at hr; cases hr
    | ok s =>
      cases hs' : S.accepted d' with
      | error err => rw [hs'] at hr'; cases hr'
      | ok s' =>
        rw [hs] at hr
        rw [hs'] at hr'
        cases hr
        cases hr'
        have hsm : s.order = s'.order ∧ s.invariants = s'.invariants := by
          rcases hsna (combineSnapshots_inj heq) with ⟨he, he'⟩ | ⟨hne, hne', htx⟩
          · exact ⟨he.1.trans he'.1.symm, he.2.trans he'.2.symm⟩
          · exact h d hd d' hd' s s' hs hs' hne hne' htx
        rw [Loaded.enforced, Loaded.enforced, LoaderEnv.result, LoaderEnv.result, hsm.1, hsm.2]

/-- Every text is a policy of one rule, with its text for the decision. -/
def ruleLoader : Loader SafetyPolicy :=
  LoaderEnv.loader
    ⟨{}, fun _ => true, fun _ _ _ => none, String.ofList, fun _ _ h => String.ofList_injective h⟩
    { read := fun text => { rules := [{ id := "r", decision := text }] }
      merge := fun merged p => (mergePolicies merged (some p)).getD p }

/-- Bundles `a` and `b` with the same rule; `b` is installed at 2. -/
def installedAt (a : ℤ) : Bundles :=
  ⟨[("a", .fields .absent (.text "deny") .absent .absent none a),
    ("b", .fields .absent (.text "allow") .absent .absent none 2)], by simp⟩

/-- The decisions of the rules. -/
def reloadDecisions (k : Loaded SafetyPolicy) : Option (List String) :=
  k.merged.map fun p => p.rules.map PolicyRule.decision

/-- Bundle `a` is installed again; the kernel goes on with the other. -/
theorem reinstalled_not_reloaded :
    reloadDecisions
      (reload ruleLoader (none, "") (reload ruleLoader (none, "") {} (installedAt 1)) (installedAt 3)) =
      some ["allow"] ∧
      (load ruleLoader (none, "") (installedAt 3)).toOption.map reloadDecisions =
      some (some ["deny"]) := by
  decide +kernel

end Cordum.Policy
