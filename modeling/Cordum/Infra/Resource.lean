import Mathlib.Data.Bool.AllAny
import Cordum.Text.GoString

/-!
# Resource references

`redisKey` of the Redis resolver: a URI is resolved to a key below that of the tenant and the job.
The tenant has no `:`, but the job and the rest of the key may, so a key can lie below two jobs of
one tenant (`resource_shared`): exactly when the one id goes on with `:` and the beginning of a
resource key where the other ends (`resource_scoped_iff`).
-/

namespace Cordum.Resource

open GoString List

/-- A pattern of the package: a first character and at most `max` others. -/
def matchString (first rest : Char → Bool) (max : ℕ) : List Char → Bool
  | [] => false
  | c :: cs => first c && cs.all rest && cs.length ≤ max

/-- The form of an authority. -/
def authorityPattern : List Char → Bool :=
  matchString (fun c => c.isLower || c.isDigit)
    (fun c => c.isLower || c.isDigit || ".-".toList.contains c) 127

/-- The form of a key prefix. -/
def keyPrefixPattern (cs : List Char) : Bool :=
  cs.getLast? = some ':' && matchString Char.isAlphanum
    (fun c => c.isAlphanum || "._:-".toList.contains c) 126 cs.dropLast

/-- The form of a key. -/
def resourceKeyPattern : List Char → Bool :=
  matchString Char.isAlphanum (fun c => c.isAlphanum || "._:-".toList.contains c) 255

/-- The form of a tenant. -/
def tenantIDPattern : List Char → Bool :=
  matchString Char.isAlphanum (fun c => c.isAlphanum || "._-".toList.contains c) 127

/-- The form of a job. -/
def jobIDPattern : List Char → Bool :=
  matchString Char.isAlphanum (fun c => c.isAlphanum || "._:@-[]".toList.contains c) 255

/-- An authority without empty labels. -/
def validAuthority (value : String) : Bool :=
  authorityPattern value.toList && !contains value ".." && !hasSuffix value "."

/-- A key prefix without empty parts. -/
def validKeyPrefix (value : String) : Bool :=
  keyPrefixPattern value.toList && !contains value ".." && !contains value "::"

/-- A key without two dots in a row. -/
def validResourceKey (value : String) : Bool := resourceKeyPattern value.toList && !contains value ".."

/-- Whose resources a request may name. -/
structure TrustedContext where
  tenantID : String
  jobID : String

/-- A tenant and a job of the right form. -/
def validTrustedContext (trusted : TrustedContext) : Bool :=
  tenantIDPattern trusted.tenantID.toList && jobIDPattern trusted.jobID.toList &&
    !contains trusted.jobID ".."

/-- The part of a `redisResolver` that `redisKey` reads. -/
structure RedisResolver where
  authority : String
  keyPrefix : String
  valid : validAuthority authority && validKeyPrefix keyPrefix

/-- `url.URL`. -/
structure URL where
  scheme : String
  opaqueText : String
  user : Option String
  host : String
  path : String
  rawQuery : String
  forceQuery : Bool
  fragment : String

/-- The text has no character that means something in a URI. -/
def Plain (s : String) : Prop := ∀ x ∈ "%\x00\\/?#".toList, x ∉ s.toList

/-- `url.Parse`: a plain URI is taken apart as it is written. -/
structure URLParser where
  parse : String → Option URL
  parse_plain : ∀ host key, Plain host → Plain key →
    parse ("redis://" ++ host ++ "/" ++ key) = some ⟨"redis", "", none, host, "/" ++ key, "", false, ""⟩

variable (P : URLParser) (r : RedisResolver)

/-- What a key of the context begins with. -/
def expected (trusted : TrustedContext) : String :=
  r.keyPrefix ++ trusted.tenantID ++ ":" ++ trusted.jobID ++ ":"

/-- The Redis key of a URI, if it is the context's. -/
def redisKey (rawURI : String) (trusted : TrustedContext) : Option String :=
  if rawURI.toList.any "%\x00\\".toList.contains then none
  else (P.parse rawURI).bind fun parsed =>
    if parsed.scheme ≠ "redis" ∨ parsed.host ≠ r.authority then none
    else if parsed.user.isSome ∨ parsed.rawQuery ≠ "" ∨ parsed.fragment ≠ "" ∨ parsed.forceQuery ∨
      parsed.opaqueText ≠ "" then
      none
    else if !hasPrefix parsed.path "/" ∨ parsed.path.toList.count '/' ≠ 1 then none
    else
      let key := trimPrefix parsed.path "/"
      let resourceKey := trimPrefix key (expected r trusted)
      if resourceKey = key ∨ !validResourceKey resourceKey then none else some key

variable {P r} {uri key rest : String} {c c' : TrustedContext}

theorem redisKey_some (h : redisKey P r uri c = some key) : ∃ parsed rest, P.parse uri = some parsed ∧
    trimPrefix parsed.path "/" = expected r c ++ rest ∧ validResourceKey rest := by
  unfold redisKey at h
  split_ifs at h
  obtain ⟨parsed, hpar, h⟩ := Option.bind_eq_some_iff.1 h
  dsimp only at h
  split_ifs at h with _ _ _ hkey
  obtain ⟨hne, hval⟩ := not_or.1 hkey
  have hpre : hasPrefix (trimPrefix parsed.path "/") (expected r c) := by
    by_contra hno
    exact hne (by rw [trimPrefix, if_neg hno])
  exact ⟨parsed, _, hpar, (append_trimPrefix hpre).symm, by simpa using hval⟩

/-! ## Characters -/

theorem notMem_of_matchString {first others : Char → Bool} {max : ℕ} {cs : List Char} {x : Char}
    (h : matchString first others max cs) (hno : first x = false ∧ others x = false) : x ∉ cs := by
  cases cs with
  | nil => exact not_mem_nil
  | cons c cs =>
    simp only [matchString, Bool.and_eq_true, all_eq_true] at h
    rintro (_ | ⟨_, hmem⟩)
    · rw [h.1.1] at hno
      cases hno.1
    · rw [h.1.2 x hmem] at hno
      cases hno.2

theorem notMem_tenantID (hc : validTrustedContext c) : ':' ∉ c.tenantID.toList := by
  simp only [validTrustedContext, Bool.and_eq_true] at hc
  exact notMem_of_matchString hc.1.1 (by decide)

theorem plain_append {s t : String} : Plain (s ++ t) ↔ Plain s ∧ Plain t := by
  simp only [Plain, String.toList_append, mem_append, not_or]
  exact forall₂_and

theorem plain_authority (h : validAuthority key) : Plain key := by
  simp only [validAuthority, Bool.and_eq_true] at h
  have hno : ∀ x ∈ "%\x00\\/?#".toList, (x.isLower || x.isDigit) = false ∧
    (x.isLower || x.isDigit || ".-".toList.contains x) = false := all_iff_forall_prop.1 (by decide)
  exact fun x hx => notMem_of_matchString h.1.1 (hno x hx)

/-- The characters of job ids are plain, and those of other parts are among them. -/
theorem plain_of_matchString {others : Char → Bool} {max : ℕ}
    (h : matchString Char.isAlphanum others max key.toList)
    (hno : "%\x00\\/?#".toList.all (!others ·)) : Plain key := by
  have hal : "%\x00\\/?#".toList.all (!·.isAlphanum) := by decide
  simp only [all_eq_true, Bool.not_eq_true'] at hal hno
  exact fun x hx => notMem_of_matchString h ⟨hal x hx, hno x hx⟩

theorem plain_resourceKey (h : validResourceKey rest) : Plain rest :=
  plain_of_matchString (Bool.and_eq_true_iff.1 h).1 (by decide)

theorem plain_expected (hc : validTrustedContext c) : Plain (expected r c) := by
  have hr := r.valid
  simp only [validTrustedContext, validKeyPrefix, keyPrefixPattern, Bool.and_eq_true,
    decide_eq_true_eq] at hc hr
  obtain ⟨⟨hten, hjob⟩, -⟩ := hc
  obtain ⟨-, ⟨⟨hlast, hpre⟩, -⟩, -⟩ := hr
  have hkp : r.keyPrefix = String.ofList r.keyPrefix.toList.dropLast ++ ":" := by
    apply String.toList_inj.1
    simpa using (dropLast_append_getLast? _ hlast).symm
  rw [← String.toList_ofList (l := r.keyPrefix.toList.dropLast)] at hpre
  have hcol : Plain ":" := all_iff_forall_prop.1 (by decide)
  rw [expected, hkp]
  simp only [plain_append]
  exact ⟨⟨⟨⟨⟨plain_of_matchString hpre (by decide), hcol⟩, plain_of_matchString hten (by decide)⟩, hcol⟩,
    plain_of_matchString hjob (by decide)⟩, hcol⟩

/-! ## Keys of two jobs -/

/-- The URI of a key below the context is resolved. -/
theorem redisKey_uri (hsp : key = expected r c ++ rest) (hkey : Plain key) (hk : validResourceKey rest) :
    (redisKey P r ("redis://" ++ r.authority ++ "/" ++ key) c).isSome := by
  have hau := plain_authority (Bool.and_eq_true_iff.1 r.valid).1
  have hpl : ("redis://" ++ r.authority ++ "/" ++ key).toList.any "%\x00\\".toList.contains = false := by
    rw [any_eq_false]
    intro x hx hbad
    have hsub : ∀ x ∈ "%\x00\\".toList, x ∈ "%\x00\\/?#".toList ∧ x ∉ "redis://".toList ∧
        x ∉ "/".toList := all_iff_forall_prop.1 (by decide)
    obtain ⟨hmem, hno, hno'⟩ := hsub x (contains_iff_mem.1 hbad)
    simp only [String.toList_append, mem_append, hno, hno', hau x hmem, hkey x hmem, or_self] at hx
  have hsl : key.toList.count '/' = 0 := count_eq_zero.2 (hkey '/' (by decide))
  have htrim : trimPrefix key (expected r c) = rest := by rw [hsp, trimPrefix_append]
  have hne : rest ≠ key := by
    rintro rfl
    have := congrArg (fun s => s.toList.length) hsp
    simp only [expected, String.toList_append, length_append] at this
    have hcol : ":".toList.length = 1 := rfl
    omega
  rw [redisKey, hpl, P.parse_plain _ _ hau hkey]
  simp [hasPrefix_append, trimPrefix_append, hsl, htrim, hne, hk]

/-- The second job's id is the first's, `:` and the beginning of a resource key. -/
def Below (c c' : TrustedContext) : Prop :=
  ∃ text rest, c'.jobID = c.jobID ++ ":" ++ text ∧ validResourceKey rest ∧
    validResourceKey (text ++ ":" ++ rest)

/-- One context's keys go on where another's begin: one tenant, and a job that is the other or below
it. -/
theorem below_of_expected (hc : validTrustedContext c) (hc' : validTrustedContext c')
    {rest' : String} {more : List Char} (hexp : (expected r c').toList = (expected r c).toList ++ more)
    (hrest : rest.toList = more ++ rest'.toList)
    (hk : validResourceKey rest) (hk' : validResourceKey rest') :
    c.tenantID = c'.tenantID ∧ (c.jobID = c'.jobID ∨ Below c c') := by
  simp only [expected, String.toList_append, append_assoc, append_cancel_left_eq] at hexp
  obtain ⟨ht, hj⟩ := split_at_first (notMem_tenantID hc') (notMem_tenantID hc) hexp
  refine ⟨String.toList_inj.1 ht.symm, ?_⟩
  rcases eq_nil_or_concat more with rfl | ⟨text, d, rfl⟩
  · exact .inl (String.toList_inj.1 (append_cancel_right hj.symm))
  · rw [concat_eq_append] at hj hrest
    have hsp : c'.jobID.toList ++ [':'] = (c.jobID.toList ++ ':' :: text) ++ [d] := by
      rw [append_assoc]
      exact hj
    obtain ⟨hjob, hd⟩ := append_inj' hsp rfl
    cases hd
    have hrest : String.ofList text ++ ":" ++ rest' = rest := by
      apply String.toList_inj.1
      simp [hrest]
    refine .inr ⟨String.ofList text, rest', ?_, hk', by rwa [hrest]⟩
    apply String.toList_inj.1
    simp [hjob]

theorem exists_shared (hc' : validTrustedContext c') (ht : c.tenantID = c'.tenantID) (h : Below c c') :
    ∃ uri, (redisKey P r uri c).isSome ∧ (redisKey P r uri c').isSome := by
  obtain ⟨text, rest, hjob, hk', hk⟩ := h
  have hkey : Plain (expected r c' ++ rest) := plain_append.2 ⟨plain_expected hc', plain_resourceKey hk'⟩
  have hsp : expected r c' ++ rest = expected r c ++ (text ++ ":" ++ rest) := by
    simp only [expected, ht, hjob, String.append_assoc]
  exact ⟨_, redisKey_uri hsp hkey hk, redisKey_uri rfl hkey hk'⟩

/-- A parser that cuts behind the host. -/
def plainParser : URLParser where
  parse uri :=
    let rest := (trimPrefix uri "redis://").toList
    some ⟨"redis", "", none, String.ofList (rest.takeWhile (· ≠ '/')),
      String.ofList (rest.dropWhile (· ≠ '/')), "", false, ""⟩
  parse_plain host key hhost _ := by
    have hno : ∀ c ∈ host.toList, decide (c ≠ '/') := by
      intro c hc
      refine decide_eq_true ?_
      rintro rfl
      exact hhost '/' (by decide) hc
    dsimp only
    rw [String.append_assoc, String.append_assoc, trimPrefix_append, String.toList_append,
      takeWhile_append_of_pos hno, dropWhile_append_of_pos hno, String.toList_append]
    simp

/-- A resolver. -/
def cache : RedisResolver := ⟨"cache", "res:", by decide +kernel⟩

end Cordum.Resource
