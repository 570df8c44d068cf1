import Cordum.Policy.Loader

/-!
# The floor among the policy bundles

The invariants bundle is counted with the custom ones, since its key has their prefix. It is loaded
exactly when the licence has no limit or when fewer custom bundles than the limit allows come before
it (`floor_loaded_iff`).
-/

namespace Cordum.Policy

open GoString

open List Nat

variable {P : Type} {L : Loader P} {entries before after : List (String × Bundle)}
  {key content : String} {b : Bundle} {doc : Bundles}

/-- The bundle is enabled, not blank and parses: it uses up one of the licence. -/
def countsBundle (L : Loader P) (entry : String × Bundle) : Bool :=
  hasPrefix entry.1 customBundles &&
    match extractPolicyFragment entry.2 with
    | none => false
    | some content => trimSpace content ≠ "" && (L.parse content).isSome

/-- The licence has room for one more bundle. -/
def Room (L : Loader P) (count : ℕ) : Prop := (count : ℤ) < policyBundleLimit L.entitlements

theorem overLimit_iff {custom : Bool} {count : ℕ} (hlim : policyBundleLimit L.entitlements ≠ unlimited) :
    overLimit L custom count ↔ custom ∧ ¬ Room L count := by
  unfold overLimit Room
  simp only [Bool.and_eq_true, Bool.or_eq_true, decide_eq_true_eq, and_assoc]
  constructor
  · rintro ⟨hcus, -, hov⟩
    refine ⟨hcus, ?_⟩
    rcases hov with hz | hov
    · omega
    · omega
  · rintro ⟨hcus, hrm⟩
    exact ⟨hcus, hlim, .inr (by omega)⟩

variable {s s' : LoadState P}

/-- **One bundle that is not the floor**: the invariants stay, and the room shrinks by its count. -/
theorem visitBundle_spec {entry : String × Bundle} (h : visitBundle L s entry = .ok s')
    (hkey : entry.1 ≠ kernelInvariantsBundleKey) :
    s'.invariants = s.invariants ∧ (policyBundleLimit L.entitlements ≠ unlimited → ∀ m,
      (Room L (s'.customBundleCount + m) ↔
        Room L (s.customBundleCount + (countsBundle L entry).toNat + m))) := by
  unfold visitBundle at h
  unfold countsBundle
  cases hcon : extractPolicyFragment entry.2 with
  | none =>
    rw [hcon] at h
    cases h
    simp
  | some content =>
    rw [hcon] at h
    dsimp only at h ⊢
    by_cases hbl : trimSpace content = ""
    · rw [if_pos hbl] at h
      cases h
      simp [hbl]
    rw [if_neg hbl] at h
    by_cases hov : overLimit L (hasPrefix entry.1 customBundles) s.customBundleCount
    · rw [if_pos hov] at h
      cases h
      refine ⟨rfl, fun hlim m => ?_⟩
      obtain ⟨-, hrm⟩ := (overLimit_iff hlim).1 hov
      -- there was no room, and there is none
      unfold Room at hrm ⊢
      dsimp only
      omega
    rw [if_neg hov] at h
    cases hver : L.verify entry.1 content (fragmentSignature entry.2) with
    | some err =>
      rw [hver] at h
      cases h
    | none =>
      rw [hver] at h
      cases hprs : L.parse content with
      | none =>
        rw [hprs] at h
        cases h
        simp
      | some policy =>
        rw [hprs] at h
        dsimp only at h
        rw [if_neg hkey] at h
        cases h
        cases hasPrefix entry.1 customBundles with
        | true => simp [hbl]
        | false => simp

/-- **The bundles before the floor, and those behind it.** -/
theorem foldlM_visitBundle
    (h : entries.foldlM (visitBundle L) s = .ok s')
    (hky : ∀ entry ∈ entries, entry.1 ≠ kernelInvariantsBundleKey) :
    s'.invariants = s.invariants ∧
      (policyBundleLimit L.entitlements ≠ unlimited → ∀ m, (Room L (s'.customBundleCount + m) ↔
        Room L (s.customBundleCount + (entries.filter (countsBundle L)).length + m))) := by
  induction entries generalizing s with
  | nil =>
    cases h
    simp
  | cons entry entries ih =>
    rw [foldlM_cons] at h
    cases hvis : visitBundle L s entry with
    | error err =>
      rw [hvis] at h
      cases h
    | ok s1 =>
      rw [hvis] at h
      obtain ⟨hinv, hrm⟩ := visitBundle_spec hvis (hky entry (mem_cons_self ..))
      obtain ⟨hinv', hrm'⟩ := ih h fun e he => hky e (mem_cons_of_mem _ he)
      refine ⟨hinv'.trans hinv, fun hlim m => (hrm' hlim m).trans ?_⟩
      have hsp := hrm hlim ((entries.filter (countsBundle L)).length + m)
      rw [← add_assoc, ← add_assoc] at hsp
      rw [hsp, filter_cons]
      cases countsBundle L entry with
      | true => simp only [if_true, length_cons, Bool.toNat_true, add_assoc, add_comm 1]
      | false => simp only [Bool.false_eq_true, if_false, Bool.toNat_false, add_zero]

theorem Bundles.sorted_split (doc : Bundles) (h : (key, b) ∈ doc.entries) :
    ∃ before after, doc.sorted = before ++ (key, b) :: after ∧ (∀ e ∈ before, e.1 < key) ∧
      (∀ e ∈ after, key < e.1) := by
  have hpm : doc.sorted.Perm doc.entries := perm_insertionSort _ _
  obtain ⟨before, after, hsp⟩ := append_of_mem (hpm.mem_iff.2 h)
  have hsrd : doc.sorted.Pairwise fun a b => a.1 ≤ b.1 := by
    exact pairwise_insertionSort _ _
  have hnd : (doc.sorted.map Prod.fst).Nodup := (hpm.map Prod.fst).nodup_iff.2 doc.nodup
  rw [hsp] at hsrd hnd
  rw [map_append, map_cons, nodup_append'] at hnd
  rw [pairwise_append] at hsrd
  refine ⟨before, after, hsp, fun e he => ?_, fun e he => ?_⟩
  · have hle := hsrd.2.2 e he (key, b) (mem_cons_self ..)
    have hne : e.1 ≠ key := fun heq =>
      hnd.2.2 (mem_map_of_mem he) (by rw [heq]; exact mem_cons_self ..)
    exact lt_of_le_of_ne hle hne
  · have hle := (pairwise_cons.1 hsrd.2.1).1 e he
    have hne : key ≠ e.1 := fun heq =>
      (nodup_cons.1 hnd.2.1).1 (mem_map.2 ⟨e, he, heq.symm⟩)
    exact lt_of_le_of_ne hle hne

/-- The bundles counted before the floor. -/
def bundlesBeforeFloor (L : Loader P) (doc : Bundles) : ℕ :=
  (doc.entries.filter fun entry => countsBundle L entry &&
    decide (entry.1 < kernelInvariantsBundleKey)).length

theorem bundlesBeforeFloor_eq (hsp : doc.sorted = before ++ (kernelInvariantsBundleKey, b) :: after)
    (hbef : ∀ e ∈ before, e.1 < kernelInvariantsBundleKey)
    (haft : ∀ e ∈ after, kernelInvariantsBundleKey < e.1) :
    bundlesBeforeFloor L doc = (before.filter (countsBundle L)).length := by
  have hpm : doc.sorted.Perm doc.entries := perm_insertionSort _ _
  have hfrt : (before.filter fun entry => countsBundle L entry &&
      decide (entry.1 < kernelInvariantsBundleKey)) = before.filter (countsBundle L) :=
    filter_congr fun e he => by rw [decide_eq_true (hbef e he), Bool.and_true]
  have hbk : (after.filter fun entry => countsBundle L entry &&
      decide (entry.1 < kernelInvariantsBundleKey)) = [] := by
    refine filter_eq_nil_iff.2 fun e he => ?_
    rw [decide_eq_false (lt_asymm (haft e he)), Bool.and_false]
    exact Bool.noConfusion
  have hsf : ¬ (countsBundle L (kernelInvariantsBundleKey, b) &&
      decide (kernelInvariantsBundleKey < kernelInvariantsBundleKey)) := by
    rw [decide_eq_false (lt_irrefl _), Bool.and_false]
    exact Bool.noConfusion
  rw [bundlesBeforeFloor, ← (hpm.filter _).length_eq, hsp, filter_append, filter_cons, if_neg hsf, hfrt,
    hbk, append_nil]

theorem ok_of_bind {α β : Type} {x : Except String α} {f : α → Except String β}
    {b : β} (h : x >>= f = .ok b) :
    ∃ a, x = .ok a ∧ f a = .ok b := by
  cases x with
  | error err => cases h
  | ok a => exact ⟨a, rfl, h⟩

theorem invariants_of_loadFragments {r : Loaded P} (h : loadFragments L doc = .ok r) :
    ∃ s, doc.sorted.foldlM (visitBundle L) {} = .ok s ∧ r.invariants = s.invariants := by
  obtain ⟨s, hs, hrs⟩ := ok_of_bind h
  refine ⟨s, hs, ?_⟩
  dsimp only at hrs
  split_ifs at hrs with hemp
  · cases hrs
    exact (Option.isNone_iff_eq_none.1 hemp.2).symm
  · cases hrs
    rfl

/-- **The floor's own visit.** -/
theorem visitBundle_floor {policy : P} (hcon : extractPolicyFragment b = some content)
    (hver : L.verify kernelInvariantsBundleKey content (fragmentSignature b) = none)
    (hprs : L.parse content = some policy) (hno : s.invariants = none)
    (h : visitBundle L s (kernelInvariantsBundleKey, b) = .ok s') :
    s'.invariants = some policy ↔ trimSpace content ≠ "" ∧
      (policyBundleLimit L.entitlements = unlimited ∨ Room L s.customBundleCount) := by
  have hcus : hasPrefix kernelInvariantsBundleKey customBundles := by decide
  unfold visitBundle at h
  rw [hcon, hcus] at h
  dsimp only at h
  by_cases hbl : trimSpace content = ""
  · rw [if_pos hbl] at h
    cases h
    simp [hbl, hno]
  rw [if_neg hbl] at h
  by_cases hlim : policyBundleLimit L.entitlements = unlimited
  · have hov : overLimit L true s.customBundleCount = false := by simp [overLimit, hlim]
    rw [hov, hver, hprs] at h
    cases h
    exact iff_of_true rfl ⟨hbl, .inl hlim⟩
  · by_cases hrm : Room L s.customBundleCount
    · have hov : ¬ overLimit L true s.customBundleCount := fun hov => ((overLimit_iff hlim).1 hov).2 hrm
      rw [if_neg hov, hver, hprs] at h
      cases h
      exact iff_of_true rfl ⟨hbl, .inr hrm⟩
    · rw [if_pos ((overLimit_iff hlim).2 ⟨rfl, hrm⟩)] at h
      cases h
      refine iff_of_false ?_ fun hcd => hcd.2.elim hlim hrm
      rw [hno]
      exact nofun

/-- **When the floor is loaded**: when it is not blank and the licence has room behind the custom
bundles that sort before it. -/
theorem floor_loaded_iff (L : Loader P) (doc : Bundles) {b : Bundle} {content : String}
    {policy : P} {r : Loaded P}
    (hb : (kernelInvariantsBundleKey, b) ∈ doc.entries) (hcontent : extractPolicyFragment b = some content)
    (hverify : L.verify kernelInvariantsBundleKey content (fragmentSignature b) = none)
    (hparse : L.parse content = some policy) (hr : loadFragments L doc = .ok r) :
    r.invariants = some policy ↔ trimSpace content ≠ "" ∧
      (policyBundleLimit L.entitlements = unlimited ∨
        (bundlesBeforeFloor L doc : ℤ) < policyBundleLimit L.entitlements) := by
  obtain ⟨before, after, hsp, hbef, haft⟩ := doc.sorted_split hb
  obtain ⟨s, hs, hinv⟩ := invariants_of_loadFragments hr
  -- the bundles before the floor, the floor, and the bundles behind it
  rw [hsp, foldlM_append] at hs
  obtain ⟨s₁, h₁, hs⟩ := ok_of_bind hs
  obtain ⟨s₂, h₂, h₃⟩ := ok_of_bind hs
  obtain ⟨hno, hrm⟩ := foldlM_visitBundle h₁ fun e he => (hbef e he).ne
  obtain ⟨hkp, -⟩ := foldlM_visitBundle h₃ fun e he => (haft e he).ne'
  rw [hinv, hkp, visitBundle_floor hcontent hverify hparse hno h₂, bundlesBeforeFloor_eq hsp hbef haft]
  refine and_congr_right fun _ => ?_
  by_cases hlim : policyBundleLimit L.entitlements = unlimited
  · exact iff_of_true (.inl hlim) (.inl hlim)
  · have hcnt := hrm hlim 0
    rw [add_zero, zero_add] at hcnt
    exact or_congr_right hcnt

/-- A loader that takes every text for a policy. -/
def plainLoader (limit : ℤ) : Loader String where
  entitlements := { maxPolicyBundles := limit }
  parse := some
  verify _ _ _ := none
  merge _ p := p
  hash _ := ""

/-- Two bundles, the floor among them. -/
def twoBundles : Bundles :=
  ⟨[("secops/global-input", .text "input"), (kernelInvariantsBundleKey, .text "floor")], by decide⟩

/-- Both are loaded. -/
def bothLoaded : Loaded String := ⟨some "input", some "floor", "cfg:", 2⟩

theorem floor_loaded_iff_two :
    bothLoaded.invariants = some "floor" ↔ trimSpace "floor" ≠ "" ∧
      (policyBundleLimit (plainLoader 2).entitlements = unlimited ∨
        (bundlesBeforeFloor (plainLoader 2) twoBundles : ℤ) <
        policyBundleLimit (plainLoader 2).entitlements) :=
  floor_loaded_iff (plainLoader 2) twoBundles (b := .text "floor") (by simp [twoBundles]) rfl rfl rfl
    (by decide +kernel)

/-- A licence for one custom bundle, and the floor is not loaded. -/
theorem floor_not_loaded :
    (extractPolicyFragment (.text "floor") = some "floor" ∧ (plainLoader 1).parse "floor" = some "floor" ∧
      (plainLoader 1).verify kernelInvariantsBundleKey "floor" none = none) ∧
      (loadFragments (plainLoader 1) twoBundles).map Loaded.invariants = .ok none := by
  decide +kernel

end Cordum.Policy
