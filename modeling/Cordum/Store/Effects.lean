import Cordum.Store.Runtime
import Cordum.Text.GoString
import Mathlib.Algebra.Ring.Nat

/-!
# Reading the pending effects

`PendingJobEffects` walks the runtime hashes with `SCAN`, reads each with `HGETALL` and decodes its
`effect:` fields. Redis answers each command at its own moment, so the functions below take the
answers: the pages of the scan, and for each key the fields of its hash, in Go's map order.
-/

namespace Cordum

open GoString Base64 List

/-! ## Keys and fields -/

/-- The key of a runtime hash. -/
def jobRuntimeKey (jobID : String) : String :=
  "job:\x7b" ++ Base64.encode Base64.rawURL jobID.toUTF8.data.toList ++ "\x7d:runtime"

/-- `runtimeJobID`: the text between the first braces, decoded. -/
def runtimeJobID (key : String) : Option String := do
  let start ← indexByte key '\x7b'
  let stop ← indexByte key '\x7d'
  if stop ≤ start + 1 then none
  else
    let raw ← Base64.decode Base64.rawURL (String.ofList ((key.toList.take stop).drop (start + 1)))
    String.fromUTF8? ⟨raw.toArray⟩

/-- What event fields begin with. -/
def runtimeEventPrefix : String := "event:"

/-- What effect fields begin with. -/
def runtimeEffectPrefix : String := "effect:"

/-- `HGET` on the runtime hash. -/
def Runtime.hget (rt : Runtime) (field : String) : Option String :=
  if hasPrefix field runtimeEventPrefix then rt.events.lookup (trimPrefix field runtimeEventPrefix)
  else if hasPrefix field runtimeEffectPrefix then rt.effects.lookup (trimPrefix field runtimeEffectPrefix)
  else if field = "state" then rt.state.map JobState.value
  else if field = "dispatch_id" then rt.fence.dispatchId
  else if field = "dispatch_attempt" then rt.fence.attempt.map toString
  else if field = "dispatch_worker_id" then rt.fence.workerId
  else if field = "dispatch_tenant" then rt.fence.tenant
  else if field = "result_ptr" then rt.resultPtr
  else none

/-- The fields of a hash, each with its value. -/
abbrev Fields := List (String × String)

/-- An answer `HGETALL` can give: every field once, in any order. -/
structure Reading (rt : Runtime) (fields : Fields) : Prop where
  nodup : (fields.map Prod.fst).Nodup
  mem_iff : ∀ f v, (f, v) ∈ fields ↔ rt.hget f = some v

/-! ## The functions -/

/-- An effect that was not acknowledged. -/
structure JobEffect where
  jobId : String
  eventId : String
  digest : List UInt8
  payload : List UInt8
deriving DecidableEq, Repr

/-- Why effects could not be read. -/
inductive EffectsErr
  | scan
  | read
  | runtimeKey (key : String)
  | encoding (jobID : String)
deriving DecidableEq, Repr

/-- The effect an `effect:` field stands for. -/
def decodeEffect (jobID : String) (fields : Fields) (field encoded : String) :
    Except EffectsErr JobEffect :=
  let eventID := trimPrefix field runtimeEffectPrefix
  match Base64.decode Base64.rawStd encoded,
      Base64.decode Base64.rawStd ((fields.lookup (runtimeEventPrefix ++ eventID)).getD "") with
  | some payload, some digest =>
    if digest = [] then .error (.encoding jobID) else .ok ⟨jobID, eventID, digest, payload⟩
  | _, _ => .error (.encoding jobID)

/-- The loop of `appendRuntimeEffects` over the fields. -/
def appendFields (jobID : String) (fields : Fields) (limit : ℕ) : Fields → List JobEffect →
    Except EffectsErr (List JobEffect)
  | [], effects => .ok effects
  | (field, encoded) :: rest, effects =>
    if hasPrefix field runtimeEffectPrefix = false ∨ effects.length ≥ limit
      then appendFields jobID fields limit rest effects
    else do
      let effect ← decodeEffect jobID fields field encoded
      appendFields jobID fields limit rest (effects ++ [effect])

/-- `appendRuntimeEffects`, with what `HGETALL` answered. -/
def appendRuntimeEffects (key : String) (reply : Option Fields) (effects : List JobEffect) (limit : ℕ) :
    Except EffectsErr (List JobEffect) :=
  match reply with
  | none => .error .read
  | some fields =>
    match runtimeJobID key with
    | none => .error (.runtimeKey key)
    | some jobID => appendFields jobID fields limit fields effects

/-- A page of the scan: an error, or keys, each with the answer to its `HGETALL`. -/
abbrev ScanPage := Option (List (String × Option Fields))

/-- The keys of a page; `true` when the limit is reached. -/
def pageEffects (limit : ℕ) : List (String × Option Fields) → List JobEffect →
    Except EffectsErr (List JobEffect × Bool)
  | [], effects => .ok (effects, false)
  | (key, reply) :: rest, effects => do
    let effects ← appendRuntimeEffects key reply effects limit
    if effects.length ≥ limit then .ok (effects, true) else pageEffects limit rest effects

/-- `pendingEffectsFromClient`: the pages up to the one whose cursor is zero. -/
def pendingEffectsFromClient (limit : ℕ) : List ScanPage → List JobEffect →
    Except EffectsErr (List JobEffect)
  | [], effects => .ok effects
  | none :: _, _ => .error .scan
  | some keys :: rest, effects => do
    let (effects, full) ← pageEffects limit keys effects
    if full then .ok effects else pendingEffectsFromClient limit rest effects

/-- The store's client: one server, or a cluster with its masters. -/
inductive ScanClient
  | single (pages : List ScanPage)
  | cluster (masters : List (List ScanPage))

/-- The callbacks of `ForEachMaster`, one after the other under their lock. -/
def clusterEffects (limit : ℕ) : List (List ScanPage) → List JobEffect → Except EffectsErr (List JobEffect)
  | [], effects => .ok effects
  | pages :: rest, effects => do
    let found ← pendingEffectsFromClient limit pages []
    clusterEffects limit rest (effects ++ found.take (limit - effects.length))

/-- `PendingJobEffects`. -/
def pendingJobEffects (limit : ℤ) : ScanClient → Except EffectsErr (List JobEffect)
  | .single pages => pendingEffectsFromClient (if limit ≤ 0 then 100 else limit).toNat pages []
  | .cluster masters => clusterEffects (if limit ≤ 0 then 100 else limit).toNat masters []

/-! ## What they return -/

theorem runtimeJobID_jobRuntimeKey {jobID : String} (h : jobID ≠ "") :
    runtimeJobID (jobRuntimeKey jobID) = some jobID := by
  obtain ⟨tag, htag⟩ : ∃ tag, tag = encodeChars rawURL jobID.toUTF8.data.toList := ⟨_, rfl⟩
  have hkey : (jobRuntimeKey jobID).toList = "job:\x7b".toList ++ tag ++ '\x7d' :: ":runtime".toList := by
    have henc : (encode rawURL jobID.toUTF8.data.toList).toList = tag := by
      rw [htag, encode, String.toList_ofList]
    rw [jobRuntimeKey, String.toList_append, String.toList_append, henc]
    rfl
  -- no digit of the tag is a brace
  have hbra : '\x7d' ∉ "job:\x7b".toList ++ tag := by
    rw [mem_append, not_or, htag]
    exact ⟨by decide, fun hmem => absurd (mem_encodeChars _ hmem) (by decide +kernel)⟩
  have hsrt : indexByte (jobRuntimeKey jobID) '\x7b' = some 4 := by
    have hsp : (jobRuntimeKey jobID).toList = "job:".toList ++ '\x7b' ::
        (tag ++ '\x7d' :: ":runtime".toList) := by
      rw [hkey]
      rfl
    exact indexByte_of_toList hsp (by decide)
  have hst : indexByte (jobRuntimeKey jobID) '\x7d' = some (5 + tag.length) := by
    rw [indexByte_of_toList hkey hbra, length_append]
    rfl
  have hsli : ((jobRuntimeKey jobID).toList.take (5 + tag.length)).drop 5 = tag := by
    rw [hkey, take_left' (by rw [length_append]; rfl)]
    rfl
  have hpos : 0 < tag.length := htag ▸ length_pos_iff.2 (encodeChars_ne_nil _ (toUTF8_ne_nil h))
  have hdec : decode rawURL (String.ofList tag) = some jobID.toUTF8.data.toList :=
    htag ▸ decode_encode rawURL_oneLine
  simp only [runtimeJobID, hsrt, hst, Option.bind_eq_bind, Option.bind_some]
  rw [if_neg (by omega), hsli, hdec]
  exact fromUTF8_toUTF8 jobID

variable {rt : Runtime} {id : String}

theorem hget_event : rt.hget (runtimeEventPrefix ++ id) = rt.events.lookup id := by
  rw [Runtime.hget, hasPrefix_append, if_pos rfl, trimPrefix_append]

theorem hget_effect : rt.hget (runtimeEffectPrefix ++ id) = rt.effects.lookup id := by
  have hoth : hasPrefix (runtimeEffectPrefix ++ id) runtimeEventPrefix = false := by
    simp [hasPrefix, runtimeEffectPrefix, runtimeEventPrefix, isPrefixOf]
  rw [Runtime.hget, hoth, if_neg (by decide), hasPrefix_append, if_pos rfl, trimPrefix_append]

theorem Reading.lookup {fields : Fields} (h : Reading rt fields) (f : String) :
    fields.lookup f = rt.hget f := by
  cases hl : fields.lookup f with
  | some v =>
    obtain ⟨l1, l2, rfl, -⟩ := lookup_eq_some_iff.1 hl
    exact ((h.mem_iff f v).1 (by simp)).symm
  | none =>
    cases hg : rt.hget f with
    | none => rfl
    | some v =>
      have hne := lookup_eq_none_iff.1 hl _ ((h.mem_iff f v).2 hg)
      simp at hne

/-- The effect is pending in the hash of its job. -/
structure Pends (rt : Runtime) (job : String) (x : JobEffect) : Prop where
  ofJob : x.jobId = job
  effect : rt.effects.lookup x.eventId = some (Base64.encode Base64.rawStd x.payload)
  event : rt.events.lookup x.eventId = some (Base64.encode Base64.rawStd x.digest)

/-- Its field in the hash. -/
def JobEffect.field (x : JobEffect) : String × String :=
  (runtimeEffectPrefix ++ x.eventId, Base64.encode Base64.rawStd x.payload)

/-- The hash has one pending effect for an event. -/
theorem Pends.unique {job : String} {x y : JobEffect} (hx : Pends rt job x) (hy : Pends rt job y)
    (h : x.eventId = y.eventId) : x = y := by
  obtain ⟨j, e, d, p⟩ := x
  obtain ⟨j', e', d', p'⟩ := y
  cases (show e = e' from h)
  have hp : p = p' := encode_injective _ (Option.some.inj (hx.effect.symm.trans hy.effect))
  have hd : d = d' := encode_injective _ (Option.some.inj (hx.event.symm.trans hy.event))
  have hj : j = j' := hx.ofJob.trans hy.ofJob.symm
  rw [hp, hd, hj]

/-- Every effect was encoded, and stands beside its event with a digest. -/
def Runtime.Paired (rt : Runtime) : Prop :=
  ∀ id p, rt.effects.lookup id = some p → ∃ payload digest, digest ≠ [] ∧
    p = Base64.encode Base64.rawStd payload ∧ rt.events.lookup id =
    some (Base64.encode Base64.rawStd digest)

section

variable {rt : Runtime} {fields l : Fields} (job : String)

/-- An `effect:` field of such a hash decodes to the pending effect it stands for. -/
theorem decodeEffect_paired (hp : rt.Paired) (hr : Reading rt fields) {field encoded : String}
    (hf : (field, encoded) ∈ fields) (heff : hasPrefix field runtimeEffectPrefix) :
    ∃ x, decodeEffect job fields field encoded = .ok x ∧ Pends rt job x ∧ x.field = (field, encoded) := by
  obtain ⟨id, rfl⟩ : ∃ id, field = runtimeEffectPrefix ++ id := ⟨_, (append_trimPrefix heff).symm⟩
  have hef : rt.effects.lookup id = some encoded := by
    rw [← hget_effect]
    exact (hr.mem_iff _ _).1 hf
  obtain ⟨payload, digest, hne, rfl, hev⟩ := hp id encoded hef
  refine ⟨⟨job, id, digest, payload⟩, ?_, ⟨rfl, hef, hev⟩, rfl⟩
  have hdig : (fields.lookup (runtimeEventPrefix ++ id)).getD "" = encode rawStd digest := by
    rw [hr.lookup, hget_event, hev]
    rfl
  simp only [decodeEffect, trimPrefix_append, hdig, decode_encode rawStd_oneLine, if_neg hne]

/-- The loop over the fields `l` adds the pending effects while there is room. -/
theorem appendFields_paired (hp : rt.Paired) (hr : Reading rt fields) {limit : ℕ} (hl : l ⊆ fields)
    (effects : List JobEffect) (hrm : effects.length + l.length ≤ limit) :
    ∃ out, appendFields job fields limit l effects = .ok out ∧ out.length ≤ effects.length + l.length ∧
      ∀ x, x ∈ out ↔ x ∈ effects ∨ Pends rt job x ∧ x.field ∈ l := by
  induction l generalizing effects with
  | nil => exact ⟨effects, rfl, by simp, by simp⟩
  | cons f l ih =>
    obtain ⟨field, encoded⟩ := f
    have hf : (field, encoded) ∈ fields := hl (by simp)
    have hl' : l ⊆ fields := fun _ h => hl (by simp [h])
    simp only [length_cons] at hrm ⊢
    cases heff : hasPrefix field runtimeEffectPrefix with
    | false =>
      -- not an effect: the loop passes over it
      obtain ⟨out, hout, hlen, hmem⟩ := ih hl' effects (by omega)
      refine ⟨out, by rw [appendFields, if_pos (.inl heff)]; exact hout, by omega, fun x => ?_⟩
      have hne : x.field ≠ (field, encoded) := by
        intro h
        have hfie : runtimeEffectPrefix ++ x.eventId = field := congrArg Prod.fst h
        rw [← hfie, hasPrefix_append] at heff
        cases heff
      rw [hmem, mem_cons]
      simp only [hne, false_or]
    | true =>
      obtain ⟨y, hdec, hpen, hfie⟩ := decodeEffect_paired job hp hr hf heff
      obtain ⟨out, hout, hlen, hmem⟩ := ih hl' (effects ++ [y]) (by simp; omega)
      rw [length_append, length_singleton] at hlen
      refine ⟨out, ?_, by omega, fun x => ?_⟩
      · rw [appendFields, if_neg (by rw [heff]; simp; omega), hdec]
        exact hout
      · have hxy : Pends rt job x ∧ x.field = (field, encoded) ↔ x = y := by
          constructor
          · rintro ⟨hx, hxf⟩
            refine hx.unique hpen ?_
            have hid := congrArg Prod.fst (hxf.trans hfie.symm)
            rw [← trimPrefix_append runtimeEffectPrefix x.eventId,
              ← trimPrefix_append runtimeEffectPrefix y.eventId]
            exact congrArg (trimPrefix · runtimeEffectPrefix) hid
          · rintro rfl
            exact ⟨hpen, hfie⟩
        rw [hmem, mem_append, mem_singleton, mem_cons, and_or_left, hxy, or_assoc]

end

/-! ## A whole scan -/

/-- One hash read during a scan. -/
structure RuntimeRead where
  job : String
  named : job ≠ ""
  rt : Runtime
  fields : Fields
  reading : Reading rt fields

/-- What the client got. -/
def RuntimeRead.reply (r : RuntimeRead) : String × Option Fields := (jobRuntimeKey r.job, some r.fields)

/-- The fields that were read. -/
def fieldsRead (rs : List RuntimeRead) : ℕ := (rs.map fun r => r.fields.length).sum

/-- The effect was pending in one of the hashes when it was read. -/
def PendsIn (rs : List RuntimeRead) (x : JobEffect) : Prop := ∃ r ∈ rs, Pends r.rt r.job x

variable (limit : ℕ)

theorem appendRuntimeEffects_read (r : RuntimeRead) (hp : r.rt.Paired) (effects : List JobEffect)
    (hrm : effects.length + r.fields.length ≤ limit) :
    ∃ out, appendRuntimeEffects (jobRuntimeKey r.job) (some r.fields) effects limit = .ok out ∧
      out.length ≤ effects.length + r.fields.length ∧ ∀ x, x ∈ out ↔ x ∈ effects ∨ Pends r.rt r.job x := by
  obtain ⟨out, hout, hlen, hmem⟩ :=
    appendFields_paired r.job hp r.reading (fun _ h => h) effects hrm
  refine ⟨out, ?_, hlen, fun x => ?_⟩
  · rw [appendRuntimeEffects, runtimeJobID_jobRuntimeKey r.named]
    exact hout
  · rw [hmem]
    refine or_congr_right (and_iff_left_of_imp fun hx => ?_)
    rw [JobEffect.field, r.reading.mem_iff, hget_effect]
    exact hx.effect

theorem pageEffects_read (rs : List RuntimeRead) (hp : ∀ r ∈ rs, r.rt.Paired) (effects : List JobEffect)
    (hrm : effects.length + fieldsRead rs < limit) :
    ∃ out, pageEffects limit (rs.map RuntimeRead.reply) effects = .ok (out, false) ∧
      out.length ≤ effects.length + fieldsRead rs ∧ ∀ x, x ∈ out ↔ x ∈ effects ∨ PendsIn rs x := by
  induction rs generalizing effects with
  | nil => exact ⟨effects, rfl, by simp [fieldsRead], by simp [PendsIn]⟩
  | cons r rs ih =>
    have hsum : fieldsRead (r :: rs) = r.fields.length + fieldsRead rs := by simp [fieldsRead]
    obtain ⟨mid, hmid, hmd, hmi⟩ := appendRuntimeEffects_read limit r (hp r (by simp)) effects (by omega)
    obtain ⟨out, hout, hlen, hmem⟩ := ih (fun r hr => hp r (by simp [hr])) mid (by omega)
    refine ⟨out, ?_, by omega, fun x => ?_⟩
    · rw [map_cons, RuntimeRead.reply, pageEffects, hmid]
      exact (if_neg (by omega)).trans hout
    · rw [hmem, hmi, or_assoc]
      simp [PendsIn]

theorem pendingEffects_read (pages : List (List RuntimeRead)) (hp : ∀ r ∈ pages.flatten, r.rt.Paired)
    (effects : List JobEffect) (hrm : effects.length + fieldsRead pages.flatten < limit) :
    ∃ out, pendingEffectsFromClient limit (pages.map fun rs => some (rs.map RuntimeRead.reply))
      effects = .ok out ∧ out.length ≤ effects.length + fieldsRead pages.flatten ∧ ∀ x, x ∈ out ↔
      x ∈ effects ∨ PendsIn pages.flatten x := by
  induction pages generalizing effects with
  | nil => exact ⟨effects, rfl, by simp [fieldsRead], by simp [PendsIn]⟩
  | cons rs pages ih =>
    have hsum : fieldsRead (rs :: pages).flatten = fieldsRead rs + fieldsRead pages.flatten := by
      simp [fieldsRead]
    obtain ⟨mid, hmid, hmd, hmi⟩ :=
      pageEffects_read limit rs (fun r hr => hp r (by simp [hr])) effects (by omega)
    obtain ⟨out, hout, hlen, hmem⟩ :=
      ih (fun r hr => hp r (by rw [flatten_cons]; exact mem_append_right _ hr)) mid (by omega)
    refine ⟨out, ?_, by omega, fun x => ?_⟩
    · rw [map_cons, pendingEffectsFromClient, hmid]
      exact hout
    · rw [hmem, hmi, or_assoc]
      simp [PendsIn, or_and_right, exists_or]

theorem clusterEffects_read (masters : List (List (List RuntimeRead)))
    (hp : ∀ r ∈ masters.flatten.flatten, r.rt.Paired) (effects : List JobEffect)
    (hrm : effects.length + fieldsRead masters.flatten.flatten < limit) :
    ∃ out, clusterEffects limit
      (masters.map fun pages => pages.map fun rs => some (rs.map RuntimeRead.reply)) effects =
        .ok out ∧ ∀ x, x ∈ out ↔ x ∈ effects ∨ PendsIn masters.flatten.flatten x := by
  induction masters generalizing effects with
  | nil => exact ⟨effects, rfl, by simp [PendsIn]⟩
  | cons pages masters ih =>
    have hsum : fieldsRead (pages :: masters).flatten.flatten =
        fieldsRead pages.flatten + fieldsRead masters.flatten.flatten := by simp [fieldsRead]
    obtain ⟨found, hfd, hfou, hfn⟩ := pendingEffects_read limit pages
      (fun r hr => hp r (by rw [flatten_cons, flatten_append]; exact mem_append_left _ hr)) []
      (by simp; omega)
    rw [length_nil] at hfou
    have htk : found.take (limit - effects.length) = found := take_of_length_le (by omega)
    obtain ⟨out, hout, hmem⟩ := ih
      (fun r hr => hp r (by rw [flatten_cons, flatten_append]; exact mem_append_right _ hr))
      (effects ++ found) (by rw [length_append]; omega)
    refine ⟨out, ?_, fun x => ?_⟩
    · rw [map_cons, clusterEffects, hfd]
      change clusterEffects limit _ (effects ++ found.take (limit - effects.length)) = _
      rw [htk]
      exact hout
    · rw [hmem, mem_append, hfn, or_assoc]
      simp [PendsIn, or_and_right, exists_or]

/-- A scan, of one server or of a cluster. -/
inductive Scan
  | single (pages : List (List RuntimeRead))
  | cluster (masters : List (List (List RuntimeRead)))

/-- The hashes it read. -/
def Scan.reads : Scan → List RuntimeRead
  | .single pages => pages.flatten
  | .cluster masters => masters.flatten.flatten

/-- What the client got. -/
def Scan.client : Scan → ScanClient
  | .single pages => .single (pages.map fun rs => some (rs.map RuntimeRead.reply))
  | .cluster masters =>
    .cluster (masters.map fun pages => pages.map fun rs => some (rs.map RuntimeRead.reply))

/-- **`PendingJobEffects` returns exactly the pending effects** of the hashes it reads, when the limit
is above the number of fields. -/
theorem pendingJobEffects_complete (scan : Scan) (hp : ∀ r ∈ scan.reads, r.rt.Paired) {bound : ℤ}
    (hrm : (fieldsRead scan.reads : ℤ) < bound) :
    ∃ out, pendingJobEffects bound scan.client = .ok out ∧ ∀ x, x ∈ out ↔ PendsIn scan.reads x := by
  have hlim : (if bound ≤ 0 then 100 else bound).toNat = bound.toNat := by
    rw [if_neg (by omega)]
  cases scan with
  | single pages =>
    obtain ⟨out, hout, -, hmem⟩ := pendingEffects_read bound.toNat pages hp [] (by
      simp only [Scan.reads] at hrm
      simp only [length_nil]
      omega)
    refine ⟨out, ?_, fun x => by simpa [Scan.reads] using hmem x⟩
    rw [Scan.client, pendingJobEffects, hlim]
    exact hout
  | cluster masters =>
    obtain ⟨out, hout, hmem⟩ := clusterEffects_read bound.toNat masters hp [] (by
      simp only [Scan.reads] at hrm
      simp only [length_nil]
      omega)
    refine ⟨out, ?_, fun x => by simpa [Scan.reads] using hmem x⟩
    rw [Scan.client, pendingJobEffects, hlim]
    exact hout

end Cordum
