import Cordum.Codec.Rfc3339

/-!
# Audit events and their JSON

`SIEMEvent` with its JSON encoding: the fields in the order of their declaration, the optional ones
left out when they are empty, the keys of the map sorted. All strings are byte strings.
-/

namespace Cordum.Audit

open Utf8 JsonText Decimal List Value Timestamp Option Nat

variable {k s time v time' : Bytes} {es : List (Bytes × Bytes)} {acc e : SIEMEvent}
  {t : Timestamp} {ms ms' : List (Bytes × Value)} {l : List Bytes}

/-! ## Maps of strings -/

/-- A byte string by its numbers; Go orders strings this way. -/
def byteKey (s : Bytes) : List ℕ := s.map UInt8.toNat

/-- A `map[string]string`, by its entries in the order of their keys. -/
structure StrMap where
  entries : List (Bytes × Bytes)
  sorted : entries.Pairwise fun a b => byteKey a.1 < byteKey b.1
deriving DecidableEq

namespace StrMap

/-- No entries. -/
def empty : StrMap := ⟨[], .nil⟩

/-- The entries with `k` set to `v`. -/
def insertEntry (k v : Bytes) : List (Bytes × Bytes) → List (Bytes × Bytes)
  | [] => [(k, v)]
  | e :: es =>
    if byteKey k < byteKey e.1 then (k, v) :: e :: es
    else if k = e.1 then (k, v) :: es
    else e :: insertEntry k v es

theorem mem_insertEntry {e : Bytes × Bytes} (h : e ∈ insertEntry k v es) : e = (k, v) ∨ e ∈ es := by
  induction es with
  | nil => exact .inl (mem_singleton.1 h)
  | cons d es ih =>
    rw [insertEntry] at h
    split at h
    · rcases mem_cons.1 h with rfl | h
      · exact .inl rfl
      · exact .inr h
    split at h
    · rcases mem_cons.1 h with rfl | h
      · exact .inl rfl
      · exact .inr (mem_cons_of_mem _ h)
    · rcases mem_cons.1 h with rfl | h
      · exact .inr (mem_cons_self ..)
      · exact (ih h).imp_right (mem_cons_of_mem _)

theorem sorted_insertEntry (h : es.Pairwise fun a b => byteKey a.1 < byteKey b.1) :
    (insertEntry k v es).Pairwise fun a b => byteKey a.1 < byteKey b.1 := by
  induction es with
  | nil => exact pairwise_singleton _ _
  | cons d es ih =>
    obtain ⟨hd, hes⟩ := pairwise_cons.1 h
    rw [insertEntry]
    split
    · next hlt =>
      refine pairwise_cons.2 ⟨fun a ha => ?_, h⟩
      rcases mem_cons.1 ha with rfl | ha
      · exact hlt
      · exact hlt.trans (hd a ha)
    · next hnlt =>
      split
      · next heq => exact pairwise_cons.2 ⟨fun a ha => by rw [heq]; exact hd a ha, hes⟩
      next hne =>
      -- the key is neither before nor at this entry
      have hgt : byteKey d.1 < byteKey k :=
        lt_of_le_of_ne (not_lt.1 hnlt) fun h => hne
          ((map_injective_iff.2 fun _ _ h => UInt8.toNat_inj.1 h) h).symm
      refine pairwise_cons.2 ⟨fun a ha => ?_, ih hes⟩
      rcases mem_insertEntry ha with rfl | ha
      · exact hgt
      · exact hd a ha

/-- `m[k] = v`. -/
def insert (m : StrMap) (k v : Bytes) : StrMap := ⟨insertEntry k v m.entries, sorted_insertEntry m.sorted⟩

theorem insertEntry_of_lt (h : ∀ e ∈ es, byteKey e.1 < byteKey k) :
    insertEntry k v es = es ++ [(k, v)] := by
  induction es with
  | nil => rfl
  | cons d es ih =>
    have hd := h d (mem_cons_self ..)
    have hne : k ≠ d.1 := by rintro rfl; exact lt_irrefl _ hd
    rw [insertEntry, if_neg (not_lt_of_gt hd), if_neg hne, ih fun e he => h e (mem_cons_of_mem _ he)]
    rfl

/-- Entries put in one after the other. -/
def insertAll (m : StrMap) (es : List (Bytes × Bytes)) : StrMap := es.foldl (fun m e => m.insert e.1 e.2) m

variable {m : StrMap}

theorem insertAll_sorted (h : (m.entries ++ es).Pairwise fun a b => byteKey a.1 < byteKey b.1) :
    (m.insertAll es).entries = m.entries ++ es := by
  induction es generalizing m with
  | nil => simp [insertAll]
  | cons e es ih =>
    have hls : (m.insert e.1 e.2).entries = m.entries ++ [e] :=
      insertEntry_of_lt fun d hd => (pairwise_append.1 h).2.2 d hd e (mem_cons_self ..)
    have hsp : m.insertAll (e :: es) = (m.insert e.1 e.2).insertAll es := rfl
    rw [hsp, ih (by rw [hls, append_assoc]; exact h), hls, append_assoc]
    rfl

theorem insertAll_entries : empty.insertAll m.entries = m := by
  have h : (empty.insertAll m.entries).entries = m.entries := insertAll_sorted m.sorted
  cases hm : empty.insertAll _
  rw [hm] at h
  cases h
  rfl

/-- The map that a JSON text keeps of `m`: keys scrubbed to one key become one entry. -/
def scrub (m : StrMap) : StrMap :=
  empty.insertAll (m.entries.map fun e => (Utf8.scrub e.1, Utf8.scrub e.2))

theorem scrub_eq_self (h : ∀ e ∈ m.entries, Valid e.1 ∧ Valid e.2) : m.scrub = m := by
  have hmap : (m.entries.map fun e => (Utf8.scrub e.1, Utf8.scrub e.2)) = m.entries := by
    conv_rhs => rw [← map_id m.entries]
    exact map_congr_left fun e he => by rw [(h e he).1.scrub_eq, (h e he).2.scrub_eq]; rfl
  rw [scrub, hmap, insertAll_entries]

end StrMap

/-! ## Events -/

/-- An audit event. -/
structure SIEMEvent where
  timestamp : Timestamp
  eventType : Bytes
  severity : Bytes
  tenantID : Bytes
  agentID : Bytes
  agentName : Bytes
  agentRiskTier : Bytes
  jobID : Bytes
  action : Bytes
  decision : Bytes
  matchedRule : Bytes
  reason : Bytes
  riskTags : List Bytes
  capabilities : List Bytes
  policyVersion : Bytes
  identity : Bytes
  extra : StrMap
  seq : ℤ
  eventHash : Bytes
  prevHash : Bytes
  hmac : Bytes
deriving DecidableEq

/-- The fields that are strings. -/
inductive TextField
  | eventType | severity | tenantID | agentID | agentName | agentRiskTier | jobID | action
  | decision | matchedRule | reason | policyVersion | identity | eventHash | prevHash | hmac
deriving DecidableEq

/-- The fields of an event. -/
inductive Field
  | timestamp
  | text (f : TextField)
  | riskTags
  | capabilities
  | extra
  | seq
deriving DecidableEq

/-- The fields in the order of their declaration. -/
def fields : List Field :=
  [.timestamp, .text .eventType, .text .severity, .text .tenantID, .text .agentID,
    .text .agentName, .text .agentRiskTier,
    .text .jobID, .text .action, .text .decision, .text .matchedRule, .text .reason,
    .riskTags, .capabilities,
    .text .policyVersion, .text .identity, .extra, .seq, .text .eventHash, .text .prevHash, .text .hmac]

/-- The JSON name of a field. -/
def Field.name : Field → String
  | .timestamp => "timestamp"
  | .text .eventType => "event_type"
  | .text .severity => "severity"
  | .text .tenantID => "tenant_id"
  | .text .agentID => "agent_id"
  | .text .agentName => "agent_name"
  | .text .agentRiskTier => "agent_risk_tier"
  | .text .jobID => "job_id"
  | .text .action => "action"
  | .text .decision => "decision"
  | .text .matchedRule => "matched_rule"
  | .text .reason => "reason"
  | .riskTags => "risk_tags"
  | .capabilities => "capabilities"
  | .text .policyVersion => "policy_version"
  | .text .identity => "identity"
  | .extra => "extra"
  | .seq => "seq"
  | .text .eventHash => "event_hash"
  | .text .prevHash => "prev_hash"
  | .text .hmac => "hmac"

/-- The string fields that are written even when they are empty. -/
def TextField.required : TextField → Bool
  | .eventType | .severity | .tenantID | .action => true
  | _ => false

namespace SIEMEvent

/-- The text of a field. -/
def get (e : SIEMEvent) : TextField → Bytes
  | .eventType => e.eventType
  | .severity => e.severity
  | .tenantID => e.tenantID
  | .agentID => e.agentID
  | .agentName => e.agentName
  | .agentRiskTier => e.agentRiskTier
  | .jobID => e.jobID
  | .action => e.action
  | .decision => e.decision
  | .matchedRule => e.matchedRule
  | .reason => e.reason
  | .policyVersion => e.policyVersion
  | .identity => e.identity
  | .eventHash => e.eventHash
  | .prevHash => e.prevHash
  | .hmac => e.hmac

/-- An event with another text in a field. -/
def set (e : SIEMEvent) (s : Bytes) : TextField → SIEMEvent
  | .eventType => { e with eventType := s }
  | .severity => { e with severity := s }
  | .tenantID => { e with tenantID := s }
  | .agentID => { e with agentID := s }
  | .agentName => { e with agentName := s }
  | .agentRiskTier => { e with agentRiskTier := s }
  | .jobID => { e with jobID := s }
  | .action => { e with action := s }
  | .decision => { e with decision := s }
  | .matchedRule => { e with matchedRule := s }
  | .reason => { e with reason := s }
  | .policyVersion => { e with policyVersion := s }
  | .identity => { e with identity := s }
  | .eventHash => { e with eventHash := s }
  | .prevHash => { e with prevHash := s }
  | .hmac => { e with hmac := s }

/-- The zero value. -/
def zero : SIEMEvent :=
  ⟨.zero, [], [], [], [], [], [], [], [], [], [], [], [], [], [], [], .empty, 0, [], [], []⟩

/-! ### Writing -/

/-- What one field contributes to the JSON object. -/
def member (e : SIEMEvent) (time : Bytes) (f : Field) : List (Bytes × Value) :=
  match f with
  | .timestamp => [(ascii f.name, .str time)]
  | .text t => if t.required = false ∧ e.get t = [] then [] else [(ascii f.name, .str (e.get t))]
  | .riskTags => if e.riskTags = [] then [] else [(ascii f.name, .arr (e.riskTags.map .str))]
  | .capabilities => if e.capabilities = [] then [] else [(ascii f.name, .arr (e.capabilities.map .str))]
  | .extra => if e.extra.entries = [] then []
      else [(ascii f.name, .obj (e.extra.entries.map fun m => (m.1, .str m.2)))]
  | .seq => if e.seq = 0 then [] else [(ascii f.name, .num (formatInt e.seq))]

/-- `json.Marshal`; it fails on a timestamp that RFC 3339 cannot express. -/
def marshal (e : SIEMEvent) : Option Bytes :=
  e.timestamp.text.map fun time => render (.obj (fields.flatMap (e.member time)))

/-! ### Reading -/

end SIEMEvent

/-- A rune folded for the comparison of names, as far as it leads to ASCII. -/
def foldPiece : Piece → Bytes
  | .rune [b] => if 0x61 ≤ b ∧ b ≤ 0x7A then [b - 0x20] else [b]
  | .rune [0xC5, 0xBF] => [0x53]
  | .rune [0xE2, 0x84, 0xAA] => [0x4B]
  | .rune r => r
  | .stray _ => Piece.replacement

/-- A key as `encoding/json` compares it. -/
def foldName (k : Bytes) : Bytes := (pieces k).flatMap foldPiece

/-- The field a key names: by its exact name, else up to case. -/
def fieldOf (k : Bytes) : Option Field :=
  (fields.find? fun f => ascii f.name = k).or (fields.find? fun f => foldName (ascii f.name) = foldName k)

/-- The string of an element of a slice or a map; null is the empty string. -/
def textOf : Value → Option Bytes
  | .str s => some s
  | .null => some []
  | _ => none

/-- The slice of a value. -/
def textsOf : Value → Option (List Bytes)
  | .arr items => items.mapM textOf
  | .null => some []
  | _ => none

/-- The entries of an object of strings. -/
def entriesOf (ms : List (Bytes × Value)) : Option (List (Bytes × Bytes)) :=
  ms.mapM fun m => (textOf m.2).map fun v => (m.1, v)

/-- Store the value of one member; a wrong type is an error, and null leaves a scalar alone. -/
def assignField (e : SIEMEvent) (v : Value) : Field → Option SIEMEvent
  | .timestamp =>
    match v with
    | .str s => (Timestamp.parse s).map fun t => { e with timestamp := t }
    | .null => some e
    | _ => none
  | .text f =>
    match v with
    | .str s => some (e.set s f)
    | .null => some e
    | _ => none
  | .riskTags => (textsOf v).map fun l => { e with riskTags := l }
  | .capabilities => (textsOf v).map fun l => { e with capabilities := l }
  | .extra =>
    match v with
    | .obj ms => (entriesOf ms).map fun es => { e with extra := e.extra.insertAll es }
    | .null => some { e with extra := .empty }
    | _ => none
  | .seq =>
    match v with
    | .num literal => (parseInt literal).map fun n => { e with seq := n }
    | .null => some e
    | _ => none

/-- One member of the object; unknown keys are skipped. -/
def assign (e : SIEMEvent) (m : Bytes × Value) : Option SIEMEvent :=
  match fieldOf m.1 with
  | none => some e
  | some f => assignField e m.2 f

/-- The members one after the other. -/
def assignAll : SIEMEvent → List (Bytes × Value) → Option SIEMEvent
  | e, [] => some e
  | e, m :: ms => (assign e m).bind fun e => assignAll e ms

/-- `json.Unmarshal` into an event. -/
def unmarshal (s : Bytes) : Option SIEMEvent :=
  match JsonText.parse s with
  | some (.obj ms) => assignAll .zero ms
  | some .null => some .zero
  | _ => none

/-! ## Reading what was written -/

variable {f : Field} {fs : List Field}

namespace SIEMEvent

/-- The event that its JSON text keeps. -/
def scrub (e : SIEMEvent) : SIEMEvent where
  timestamp := e.timestamp.inMinutes
  eventType := Utf8.scrub e.eventType
  severity := Utf8.scrub e.severity
  tenantID := Utf8.scrub e.tenantID
  agentID := Utf8.scrub e.agentID
  agentName := Utf8.scrub e.agentName
  agentRiskTier := Utf8.scrub e.agentRiskTier
  jobID := Utf8.scrub e.jobID
  action := Utf8.scrub e.action
  decision := Utf8.scrub e.decision
  matchedRule := Utf8.scrub e.matchedRule
  reason := Utf8.scrub e.reason
  riskTags := e.riskTags.map Utf8.scrub
  capabilities := e.capabilities.map Utf8.scrub
  policyVersion := Utf8.scrub e.policyVersion
  identity := Utf8.scrub e.identity
  extra := e.extra.scrub
  seq := e.seq
  eventHash := Utf8.scrub e.eventHash
  prevHash := Utf8.scrub e.prevHash
  hmac := Utf8.scrub e.hmac

@[simp] theorem get_scrub {f : TextField} : e.scrub.get f = Utf8.scrub (e.get f) := by cases f <;> rfl

/-- One field of `acc` taken from the scrubbed `e`. -/
def put (e acc : SIEMEvent) : Field → SIEMEvent
  | .timestamp => { acc with timestamp := e.timestamp.inMinutes }
  | .text f => acc.set (Utf8.scrub (e.get f)) f
  | .riskTags => { acc with riskTags := e.riskTags.map Utf8.scrub }
  | .capabilities => { acc with capabilities := e.capabilities.map Utf8.scrub }
  | .extra => { acc with extra := e.extra.scrub }
  | .seq => { acc with seq := e.seq }

/-- The field still has its zero value. -/
def Fresh (acc : SIEMEvent) : Field → Prop
  | .timestamp => True
  | .text f => acc.get f = []
  | .riskTags => acc.riskTags = []
  | .capabilities => acc.capabilities = []
  | .extra => acc.extra = .empty
  | .seq => acc.seq = 0

theorem get_set_of_ne {f g : TextField} (h : f ≠ g) : (e.set s f).get g = e.get g := by
  cases f <;> cases g <;> first | rfl | exact absurd rfl h

theorem set_get (e : SIEMEvent) (f : TextField) : e.set (e.get f) f = e := by cases f <;> rfl

theorem Fresh.put {g : Field} (h : acc.Fresh g) (hne : f ≠ g) : (e.put acc f).Fresh g := by
  cases f with
  | text f =>
    cases g with
    | text g => exact (get_set_of_ne (fun h => hne (by rw [h]))).trans h
    | _ => cases f <;> exact h
  | _ =>
    cases g with
    | _ => first | exact h | exact trivial | exact absurd rfl hne

theorem fresh_zero (f : Field) : zero.Fresh f := by
  cases f with
  | text f => cases f <;> rfl
  | timestamp => trivial
  | _ => rfl

end SIEMEvent

theorem fieldOf_name : fieldOf (ascii f.name) = some f := by
  cases f with
  | text f => cases f <;> decide +kernel
  | _ => decide +kernel

theorem ascii_name : ∀ b ∈ ascii f.name, b < 0x80 := by
  cases f with
  | text f => cases f <;> decide +kernel
  | _ => decide +kernel

theorem scrub_name : Utf8.scrub (ascii f.name) = ascii f.name := (valid_of_ascii ascii_name).scrub_eq

theorem assignAll_append (e : SIEMEvent) (ms ms' : List (Bytes × Value)) :
    assignAll e (ms ++ ms') = (assignAll e ms).bind fun e => assignAll e ms' := by
  induction ms generalizing e with
  | nil => rfl
  | cons m ms ih =>
    rw [cons_append, assignAll, assignAll]
    cases assign e m with
    | none => rfl
    | some e' => exact ih e'

theorem assignAll_one (e : SIEMEvent) (f : Field) (v : Value) :
    assignAll e [(ascii f.name, v)] = assignField e v f := by
  rw [assignAll, assign, fieldOf_name]
  dsimp only
  cases assignField e v f <;> rfl

theorem scrubMembers_append : scrubMembers (ms ++ ms') = scrubMembers ms ++ scrubMembers ms' := by
  induction ms with
  | nil => rfl
  | cons m ms ih =>
    rw [cons_append, scrubMembers, scrubMembers, ih, cons_append]

theorem scrubMembers_one {v : Value} : scrubMembers [(ascii f.name, v)] = [(ascii f.name, v.scrub)] := by
  rw [scrubMembers, scrub_name, scrubMembers]

theorem scrubItems_map : scrubItems (l.map .str) = (l.map Utf8.scrub).map .str := by
  induction l with
  | nil => rfl
  | cons s l ih => rw [map_cons, scrubItems, ih]; rfl

theorem scrubMembers_map : scrubMembers (es.map fun m => (m.1, .str m.2)) =
      (es.map fun m => (Utf8.scrub m.1, Utf8.scrub m.2)).map fun m => (m.1, .str m.2) := by
  induction es with
  | nil => rfl
  | cons m es ih => rw [map_cons, scrubMembers, ih]; rfl

theorem mapM_textOf : (l.map str).mapM textOf = some l := by
  induction l with
  | nil => rfl
  | cons s l ih => rw [map_cons, mapM_cons, ih]; rfl

theorem entriesOf_map : entriesOf (es.map fun m => (m.1, .str m.2)) = some es := by
  rw [entriesOf]
  induction es with
  | nil => rfl
  | cons m es ih => rw [map_cons, mapM_cons, ih]; rfl

/-- The integers that Go's `int64` holds. -/
def InInt64 (n : ℤ) : Prop := -2 ^ 63 ≤ n ∧ n < 2 ^ 63

theorem valid_time (h : t.text = some time) : Valid time := by
  refine valid_of_ascii fun b hb => ?_
  have hall : ∀ n < 256, isTimeByte (.ofNat n) → UInt8.ofNat n < 0x80 := by decide +kernel
  have hby := hall b.toNat b.toNat_lt
  rw [UInt8.ofNat_toNat] at hby
  exact hby (all_eq_true.1 (all_isTimeByte h) b hb)

/-- A field that is a slice of strings. -/
theorem assign_texts (store : List Bytes → SIEMEvent)
    (hf : ∀ v, assignField acc v f = (textsOf v).map store) (hemp : store [] = acc) (l : List Bytes) :
    assignAll acc (scrubMembers (if l = [] then [] else [(ascii f.name, .arr (l.map .str))])) =
      some (store (l.map Utf8.scrub)) := by
  split
  · next hnil =>
    rw [hnil, map_nil, hemp]
    rfl
  · rw [scrubMembers_one, assignAll_one, Value.scrub, scrubItems_map, hf, textsOf, mapM_textOf]
    rfl

open SIEMEvent in
/-- **What one field writes, it reads back scrubbed.** -/
theorem assign_member (htm : e.timestamp.text = some time) (hseq : InInt64 e.seq) (hf : acc.Fresh f) :
    assignAll acc (scrubMembers (e.member time f)) = some (e.put acc f) := by
  cases f with
  | timestamp =>
    rw [member, scrubMembers_one, assignAll_one, Value.scrub, (valid_time htm).scrub_eq,
      assignField, parse_text htm]
    rfl
  | text t =>
    rw [member]
    split
    · next hemp =>
      have hz : acc.get t = [] := hf
      have hset := set_get acc t
      rw [hz] at hset
      rw [put, hemp.2, scrub_nil, hset]
      rfl
    · rw [scrubMembers_one, assignAll_one, Value.scrub]
      rfl
  | riskTags =>
    have hz : acc.riskTags = [] := hf
    exact assign_texts (fun l => { acc with riskTags := l }) (fun _ => rfl) (by rw [← hz]) e.riskTags
  | capabilities =>
    have hz : acc.capabilities = [] := hf
    exact assign_texts (fun l => { acc with capabilities := l }) (fun _ => rfl)
      (by rw [← hz]) e.capabilities
  | extra =>
    have hz : acc.extra = .empty := hf
    rw [member]
    split
    · next hemp =>
      have hsm : put e acc .extra = acc := by
        rw [put, StrMap.scrub, hemp, map_nil]
        change { acc with extra := StrMap.empty } = acc
        rw [← hz]
      rw [hsm]
      rfl
    · rw [scrubMembers_one, assignAll_one, Value.scrub, scrubMembers_map, assignField, entriesOf_map, hz]
      rfl
  | seq =>
    have hz : acc.seq = 0 := hf
    rw [member]
    split
    · next hemp =>
      have hsm : put e acc .seq = acc := by rw [put, hemp, ← hz]
      rw [hsm]
      rfl
    · rw [scrubMembers_one, assignAll_one, Value.scrub, assignField, parseInt_formatInt,
        if_pos (show -2 ^ 63 ≤ e.seq ∧ e.seq < 2 ^ 63 from hseq)]
      rfl

open SIEMEvent in
/-- The fields are read one after the other; none of them is written twice. -/
theorem assign_members (htm : e.timestamp.text = some time) (hseq : InInt64 e.seq) (hnd : fs.Nodup)
    (hfr : ∀ f ∈ fs, acc.Fresh f) : assignAll acc (scrubMembers (fs.flatMap (e.member time))) =
      some (fs.foldl e.put acc) := by
  induction fs generalizing acc with
  | nil => rfl
  | cons f fs ih =>
    obtain ⟨hf, hfs⟩ := nodup_cons.1 hnd
    rw [flatMap_cons, scrubMembers_append, assignAll_append,
      assign_member htm hseq (hfr f (mem_cons_self ..)), bind_some, foldl_cons]
    refine ih hfs fun g hg => (hfr g (mem_cons_of_mem _ hg)).put ?_
    rintro rfl
    exact hf hg

theorem literal_member : LiteralMembers (e.member time f) := by
  have hits : ∀ l : List Bytes, LiteralItems (l.map .str) := by
    intro l
    induction l with
    | nil => trivial
    | cons s l ih => rw [map_cons]; exact ⟨trivial, ih⟩
  have hes : ∀ es : List (Bytes × Bytes), LiteralMembers (es.map fun m => (m.1, .str m.2)) := by
    intro es
    induction es with
    | nil => trivial
    | cons m es ih => rw [map_cons]; exact ⟨trivial, ih⟩
  have hone : ∀ {p : Prop} [Decidable p] {v : Value}, v.Literal →
      LiteralMembers (if p then [] else [(ascii f.name, v)]) := by
    intro p _ v hv
    split
    · trivial
    · exact ⟨hv, trivial⟩
  cases f with
  | timestamp =>
    exact ⟨trivial, trivial⟩
  | text t => exact hone trivial
  | riskTags | capabilities => exact hone (by rw [Value.Literal]; exact hits _)
  | extra => exact hone (by rw [Value.Literal]; exact hes _)
  | seq => exact hone (by rw [Value.Literal]; exact isNumber_formatInt)

theorem literal_append (h : LiteralMembers ms) (h' : LiteralMembers ms') : LiteralMembers (ms ++ ms') := by
  induction ms with
  | nil => exact h'
  | cons m ms ih =>
    exact ⟨h.1, ih h.2⟩

theorem literal_members : LiteralMembers (fs.flatMap (e.member time)) := by
  induction fs with
  | nil => trivial
  | cons f fs ih => rw [flatMap_cons]; exact literal_append literal_member ih

/-- **An event that was stored is read back scrubbed.** -/
theorem unmarshal_marshal (h : e.marshal = some s) (hseq : InInt64 e.seq) :
    unmarshal s = some e.scrub := by
  unfold SIEMEvent.marshal at h
  cases htm : e.timestamp.text with
  | none => rw [htm] at h; cases h
  | some time =>
    rw [htm] at h
    cases h
    have hlit : (obj (fields.flatMap (e.member time))).Literal := literal_members
    rw [unmarshal, parse_render hlit, Value.scrub]
    dsimp only
    rw [assign_members htm hseq (by decide) fun f _ => SIEMEvent.fresh_zero f]
    rfl

/-! ## The bytes that are hashed -/

/-- The event as it is hashed and signed. -/
def SIEMEvent.cleared (e : SIEMEvent) : SIEMEvent := { e with seq := 0, eventHash := [], hmac := [] }

/-- The canonical bytes of an event. -/
def SIEMEvent.canonical (e : SIEMEvent) : Option Bytes := e.cleared.marshal

/-! ## Stable events -/

/-- All strings are valid UTF-8. -/
structure ValidText (e : SIEMEvent) : Prop where
  text : ∀ t, Valid (e.get t)
  riskTags : ∀ s ∈ e.riskTags, Valid s
  capabilities : ∀ s ∈ e.capabilities, Valid s
  extra : ∀ m ∈ e.extra.entries, Valid m.1 ∧ Valid m.2

theorem map_scrub_of_valid (h : ∀ s ∈ l, Valid s) : l.map Utf8.scrub = l := by
  conv_rhs => rw [← map_id l]
  exact map_congr_left fun s hs => (h s hs).scrub_eq

theorem ValidText.scrub_eq (h : ValidText e) :
    e.scrub = { e with timestamp := e.timestamp.inMinutes } := by
  have ht : ∀ t, Utf8.scrub (e.get t) = e.get t := fun t => (h.text t).scrub_eq
  simp only [SIEMEvent.scrub, SIEMEvent.mk.injEq, true_and]
  exact ⟨ht .eventType, ht .severity, ht .tenantID, ht .agentID, ht .agentName,
    ht .agentRiskTier, ht .jobID, ht .action,
    ht .decision, ht .matchedRule, ht .reason, map_scrub_of_valid h.riskTags,
    map_scrub_of_valid h.capabilities,
    ht .policyVersion, ht .identity, StrMap.scrub_eq_self h.extra, ht .eventHash, ht .prevHash, ht .hmac⟩

theorem StrMap.mem_insertAll {m : StrMap} {d : Bytes × Bytes} (h : d ∈ (m.insertAll es).entries) :
    d ∈ m.entries ∨ d ∈ es := by
  induction es generalizing m with
  | nil => exact .inl h
  | cons e es ih =>
    rcases ih h with h | h
    · rcases mem_insertEntry h with rfl | h
      · exact .inr mem_cons_self
      · exact .inl h
    · exact .inr (mem_cons_of_mem _ h)

theorem validText_scrub : ValidText e.scrub where
  text t := by
    rw [SIEMEvent.get_scrub]
    exact valid_scrub
  riskTags := forall_mem_map.2 fun _ _ => valid_scrub
  capabilities := forall_mem_map.2 fun _ _ => valid_scrub
  extra m hm := by
    obtain ⟨d, -, rfl⟩ := mem_map.1 ((StrMap.mem_insertAll hm).resolve_left not_mem_nil)
    exact ⟨valid_scrub, valid_scrub⟩

theorem straysItems_eq_zero_iff : straysItems (l.map .str) = 0 ↔ ∀ s ∈ l, Valid s := by
  induction l with
  | nil => exact ⟨fun _ => nofun, fun _ => rfl⟩
  | cons s l ih =>
    rw [map_cons, straysItems, Nat.add_eq_zero_iff, ih, Value.strays, strays_eq_zero_iff, forall_mem_cons]

theorem straysMembers_eq_zero_iff : straysMembers (es.map fun m => (m.1, .str m.2)) = 0 ↔
    ∀ m ∈ es, Valid m.1 ∧ Valid m.2 := by
  induction es with
  | nil => exact ⟨fun _ => nofun, fun _ => rfl⟩
  | cons m es ih =>
    rw [map_cons, straysMembers, Nat.add_eq_zero_iff, Nat.add_eq_zero_iff, ih,
      Value.strays, strays_eq_zero_iff, strays_eq_zero_iff, forall_mem_cons]

theorem straysMembers_append : straysMembers (ms ++ ms') = straysMembers ms + straysMembers ms' := by
  induction ms with
  | nil => exact (zero_add _).symm
  | cons m ms ih => rw [cons_append, straysMembers, straysMembers, ih, add_assoc _ _ (straysMembers ms')]

theorem straysMembers_one {v : Value} : straysMembers [(ascii f.name, v)] = v.strays := by
  rw [straysMembers, (strays_eq_zero_iff _).2 (valid_of_ascii ascii_name),
    straysMembers, zero_add, add_zero]

/-- A field without stray bytes. -/
def ValidField (e : SIEMEvent) : Field → Prop
  | .timestamp | .seq => True
  | .text t => Valid (e.get t)
  | .riskTags => ∀ s ∈ e.riskTags, Valid s
  | .capabilities => ∀ s ∈ e.capabilities, Valid s
  | .extra => ∀ m ∈ e.extra.entries, Valid m.1 ∧ Valid m.2

theorem straysMembers_member (htm : Valid time) :
    straysMembers (e.member time f) = 0 ↔ ValidField e f := by
  -- a field that is left out is empty
  have hif : ∀ {p P : Prop} [Decidable p] {v : Value}, (p → P) → (v.strays = 0 ↔ P) →
      (straysMembers (if p then [] else [(ascii f.name, v)]) = 0 ↔ P) := by
    intro p P _ v hp hv
    split
    · exact ⟨fun _ => hp ‹_›, fun _ => rfl⟩
    · rwa [straysMembers_one]
  cases f with
  | timestamp =>
    rw [SIEMEvent.member, straysMembers_one]
    exact iff_of_true ((strays_eq_zero_iff _).2 htm) trivial
  | text t => exact hif (fun h => by rw [ValidField, h.2]; exact valid_nil) (strays_eq_zero_iff _)
  | riskTags | capabilities =>
    exact hif (fun h => by rw [ValidField, h]; exact nofun) straysItems_eq_zero_iff
  | extra => exact hif (fun h => by rw [ValidField, h]; exact nofun) straysMembers_eq_zero_iff
  | seq => exact hif (fun _ => trivial) (iff_of_true rfl trivial)

theorem mem_fields : f ∈ fields := by
  cases f with
  | text t => cases t <;> decide
  | _ => decide

theorem strays_iff_validText (htm : Valid time) :
    (Value.obj (fields.flatMap (e.member time))).strays = 0 ↔ ValidText e := by
  have hsum : ∀ fs : List Field, straysMembers (fs.flatMap (e.member time)) = 0 ↔
      ∀ f ∈ fs, ValidField e f := by
    intro fs
    induction fs with
    | nil => exact ⟨fun _ => nofun, fun _ => rfl⟩
    | cons f fs ih =>
      rw [flatMap_cons, straysMembers_append, Nat.add_eq_zero_iff,
        straysMembers_member htm, ih, forall_mem_cons]
  rw [Value.strays, hsum]
  constructor
  · intro h
    exact ⟨fun t => h (.text t) mem_fields, h .riskTags mem_fields,
      h .capabilities mem_fields, h .extra mem_fields⟩
  · rintro h (_ | t | _ | _ | _ | _) -
    exacts [trivial, h.text t, h.riskTags, h.capabilities, h.extra, trivial]

/-- **An event keeps its bytes exactly when its strings are valid UTF-8 and its zone is kept.** -/
theorem marshal_scrub_iff (h : e.marshal = some s) :
    ∃ s', e.scrub.marshal = some s' ∧ (s' = s ↔ ValidText e ∧ e.timestamp.ZoneKept) := by
  unfold SIEMEvent.marshal at h ⊢
  cases htx : e.timestamp.text with
  | none => rw [htx] at h; cases h
  | some time =>
    rw [htx, map_some, some.injEq] at h
    subst h
    obtain ⟨time', htx', hkp⟩ := text_inMinutes htx
    have hscr : e.scrub.timestamp.text = some time' := htx'
    rw [hscr]
    refine ⟨_, map_some _ _, ?_⟩
    constructor
    · intro heq
      have hlit : ∀ {e : SIEMEvent} {time}, (obj (fields.flatMap (e.member time))).Literal :=
        literal_members
      obtain ⟨hsm, hstr⟩ := scrub_eq_of_render hlit hlit heq
      have hval := (strays_iff_validText (valid_time htx')).2 (validText_scrub (e := e))
      refine ⟨(strays_iff_validText (valid_time htx)).1 (hstr ▸ hval), hkp.1 ?_⟩
      simp only [Value.scrub, fields, flatMap_cons, SIEMEvent.member, singleton_append,
        scrubMembers, Value.obj.injEq,
        cons.injEq, Prod.mk.injEq, Value.str.injEq, (valid_time htx).scrub_eq,
        (valid_time htx').scrub_eq] at hsm
      exact hsm.1.2
    · rintro ⟨hval, hzn⟩
      rw [hkp.2 hzn, hval.scrub_eq]
      rfl

/-- **Reading what was written**: an event comes back as it was exactly if its texts are valid UTF-8
and its zone is one of whole minutes; what came back is stable. -/
theorem event_reread_iff (hseq : InInt64 e.seq) (h : e.marshal = some s) :
    ∃ e', unmarshal s = some e' ∧ (e' = e ↔ ValidText e ∧ 60 ∣ e.timestamp.offset) ∧
      ∃ s', e'.marshal = some s' ∧ unmarshal s' = some e' := by
  obtain ⟨s', hs', -⟩ := marshal_scrub_iff h
  refine ⟨e.scrub, unmarshal_marshal h hseq, ?_, s', hs', ?_⟩
  · constructor
    · intro heq
      have hoff : 60 * e.timestamp.offset.tdiv 60 = e.timestamp.offset := congrArg (·.timestamp.offset) heq
      exact ⟨heq ▸ validText_scrub, _, hoff.symm⟩
    · rintro ⟨hval, hdvd⟩
      rw [hval.scrub_eq, Timestamp.inMinutes, Int.mul_tdiv_cancel' hdvd]
  · have hst : e.scrub.scrub = e.scrub := by
      rw [validText_scrub.scrub_eq]
      simp only [SIEMEvent.scrub, Timestamp.inMinutes, Timestamp.tdiv_sixty]
    rw [unmarshal_marshal hs' hseq, hst]

/-- An event with a zone, extra entries and a text that is not valid UTF-8. -/
def sampleEvent : SIEMEvent := { SIEMEvent.zero with
  timestamp := ⟨2026, 11, 16, 9, 30, 0, 5, 19800, by decide⟩
  action := ascii "deploy"
  reason := ascii "no" ++ [0xFF]
  riskTags := [ascii "pii", ascii "prod"]
  extra := ⟨[(ascii "host", ascii "a"), (ascii "zone", ascii "b")], by decide⟩
  seq := 7 }

/-- The invalid text is lost. -/
theorem event_reread_sample : ¬ ValidText sampleEvent ∧
    ∃ e', unmarshal (sampleEvent.marshal.getD []) = some e' ∧
      (e' = sampleEvent ↔ ValidText sampleEvent ∧ 60 ∣ sampleEvent.timestamp.offset) ∧
      ∃ s', e'.marshal = some s' ∧ unmarshal s' = some e' := by
  have hst : ¬ Valid (sampleEvent.get .reason) := by decide +kernel
  exact ⟨fun hval => hst (hval.text .reason), event_reread_iff ⟨by decide, by decide⟩ (by decide +kernel)⟩

end Cordum.Audit
