import Cordum.Audit.Event
import Cordum.Conc.Pool
import Cordum.Graph.HashChain

/-!
# The audit chain

`Chainer` of `core/audit`: every tenant has a stream of events and a head key `seq:hash`. `Append`
links an event to the head it knows and commits it with a script that refuses when the head has
moved, or is missing while the stream is not empty.

The commands are those on Redis and those on the head caches of the Chainers, each in the memory of a
process. A command that is not answered is sent again three times (the default of `MaxRetries`). The
lock that a Chainer takes for a tenant is left out: calls interleave more freely here.
-/

namespace Cordum.Audit

open Conc Utf8 JsonText Decimal List

/-! ## Hashes -/

def chainHashHexLen : ℕ := 64

/-- A lower-case hexadecimal digit. -/
def isHexDigit (b : UInt8) : Bool := isDigit b || (0x61 ≤ b && b ≤ 0x66)

/-- A digest of 256 bits in hexadecimal. -/
def IsDigest (h : Bytes) : Prop := h.length = chainHashHexLen ∧ ∀ b ∈ h, isHexDigit b

/-- SHA-256 and HMAC-SHA256, in hexadecimal. -/
structure Digests where
  sha256 : Bytes → Bytes
  hmac : Bytes → Bytes → Bytes
  sha256_isDigest : ∀ m, IsDigest (sha256 m)
  hmac_isDigest : ∀ k m, IsDigest (hmac k m)

variable {h headHash payload : Bytes} {n headSeq : ℤ} {e e' event base base' : SIEMEvent}

theorem IsDigest.ne_nil (hd : IsDigest h) : h ≠ [] := by
  rintro rfl
  cases hd.1

theorem IsDigest.ascii (hd : IsDigest h) : ∀ b ∈ h, b < 0x80 := by
  intro b hb
  have hall : ∀ n < 256, isHexDigit (.ofNat n) → UInt8.ofNat n < 0x80 := by decide +kernel
  have := hall b.toNat b.toNat_lt
  rw [UInt8.ofNat_toNat] at this
  exact this (hd.2 b hb)

theorem IsDigest.valid (hd : IsDigest h) : Valid h := valid_of_ascii hd.ascii

/-- The 64 hexadecimal digits of a number. -/
def hex64 (n : ℕ) : Bytes := (List.range chainHashHexLen).map fun i => hexDigit (n / 16 ^ i % 16)

theorem isDigest_hex64 {n : ℕ} : IsDigest (hex64 n) := by
  have hdg : ∀ d < 16, isHexDigit (hexDigit d) := by decide
  refine ⟨by rw [hex64, length_map, length_range], fun b hb => ?_⟩
  obtain ⟨i, -, rfl⟩ := mem_map.1 hb
  exact hdg _ (Nat.mod_lt _ (by decide))

/-- A polynomial fingerprint of 256 bits. -/
def fingerprint (seed : ℕ) (m : Bytes) : ℕ :=
  m.foldl (fun h b => (h * 1000003 + b.toNat + 1) % 2 ^ 256) seed

/-- Fingerprints in place of the two digests, to run chains with. -/
def Digests.fingerprints : Digests where
  sha256 m := hex64 (fingerprint 7 m)
  hmac k m := hex64 (fingerprint (fingerprint 11 k) m)
  sha256_isDigest _ := isDigest_hex64
  hmac_isDigest _ _ := isDigest_hex64

variable (D : Digests)

/-- The hash of the canonical bytes. -/
def computeEventHash (e : SIEMEvent) : Option Bytes := e.canonical.map D.sha256

/-- The tag of the canonical bytes. -/
def computeEventHMAC (e : SIEMEvent) (key : Bytes) : Option Bytes := e.canonical.map (D.hmac key)

/-! ## The head -/

/-- How a head key fails to be read. -/
inductive HeadError
  | missingSeparator (raw : Bytes)
  | parseSeq
  | negativeSeq (seq : ℤ)
  | hashLength (got : ℕ)
deriving DecidableEq

/-- `parseChainHead`: the empty head is that of a tenant without events. -/
def parseChainHead (raw : Bytes) : Except HeadError (ℤ × Bytes) :=
  if raw = [] then .ok (0, [])
  else
    match raw.findIdx? (· = 0x3A) with
    | none => .error (.missingSeparator raw)
    | some colon =>
      match parseInt (raw.take colon) with
      | none => .error .parseSeq
      | some seq =>
        if seq < 0 then .error (.negativeSeq seq)
        else if raw.drop (colon + 1) ≠ [] ∧ (raw.drop (colon + 1)).length ≠ chainHashHexLen then
          .error (.hashLength (raw.drop (colon + 1)).length)
        else .ok (seq, raw.drop (colon + 1))

/-- The head of a chain whose last entry has the number `seq` and the hash `hash`. -/
def headText (seq hash : Bytes) : Bytes := seq ++ 0x3A :: hash

theorem headText_ne_nil (seq hash : Bytes) : headText seq hash ≠ [] := by
  rw [headText]
  simp

theorem headText_colon (hn : 0 ≤ n) (h : Bytes) :
    ∃ colon, (headText (formatInt n) h).take colon = formatInt n ∧
      (headText (formatInt n) h).drop (colon + 1) = h ∧
      (headText (formatInt n) h).findIdx? (· = 0x3A) = some colon := by
  refine ⟨(formatInt n).length, take_left' rfl, ?_, ?_⟩
  · rw [headText, drop_append]
    simp
  · have hno : (formatInt n).findIdx? (· = 0x3A) = none := by
      rw [findIdx?_eq_none_iff]
      intro b hb
      have hdg := isDigit_of_mem_formatInt hn hb
      refine decide_eq_false ?_
      rintro rfl
      cases hdg
    rw [headText, findIdx?_append, hno, findIdx?_cons]
    simp

/-- A head that was written by the script is read back. -/
theorem parseChainHead_headText (hn : 0 ≤ n) {r : ℤ × Bytes}
    (hr : parseChainHead (headText (formatInt n) h) = .ok r) : r = (n, h) := by
  obtain ⟨colon, htk, hdr, hcol⟩ := headText_colon hn h
  rw [parseChainHead, if_neg (headText_ne_nil _ _), hcol] at hr
  dsimp only at hr
  rw [htk, hdr] at hr
  cases hprs : parseInt (formatInt n) with
  | none => rw [hprs] at hr; cases hr
  | some m =>
    rw [hprs, eq_of_parseInt_formatInt hprs] at hr
    dsimp only at hr
    rw [if_neg (by omega)] at hr
    split at hr
    · cases hr
    · cases hr; rfl

/-! ## Redis -/

/-- An entry of a stream: its id, and its fields `seq` and `event`. -/
structure StreamEntry where
  id : ℕ × ℕ
  seq : Bytes
  event : Option Bytes
deriving DecidableEq

/-- What a Redis key holds. -/
inductive RedisValue
  | str (s : Bytes)
  | stream (entries : List StreamEntry)

/-- The Redis keys, and for every Chainer the tenant and the head in its cache. -/
structure ChainState where
  db : Bytes → Option RedisValue
  caches : ℕ → Option (Bytes × Bytes)

/-- The reply to a command on a key of another type. -/
inductive WrongType
  | wrongType
deriving DecidableEq

/-- The id that `XADD` with `*` gives at the time `now`. -/
def nextID (now : ℕ) (entries : List StreamEntry) : ℕ × ℕ :=
  match entries.getLast? with
  | none => (now, 0)
  | some last => if last.id.1 < now then (now, 0) else (last.id.1, last.id.2 + 1)

/-- What a call asks of its cache and of Redis. -/
inductive ChainCmd
  | cachedHead (chainer : ℕ) (tenant : Bytes)
  | storeCachedHead (chainer : ℕ) (tenant rawHead : Bytes)
  | invalidateCachedHead (chainer : ℕ) (tenant rawHead : Bytes)
  | get (key : Bytes)
  | runAppendScript (headKey streamKey expected seq hash payload : Bytes) (now : ℕ)
  | del (key : Bytes)

/-- The replies. -/
abbrev ChainCmd.Reply : ChainCmd → Type
  | .cachedHead _ _ => Option Bytes
  | .storeCachedHead _ _ _ | .invalidateCachedHead _ _ _ | .del _ => Unit
  | .get _ => Except WrongType (Option Bytes)
  | .runAppendScript _ _ _ _ _ _ _ => Except WrongType Bool

/-- `GET`. -/
def getString (db : Bytes → Option RedisValue) (key : Bytes) : Except WrongType (Option Bytes) :=
  match db key with
  | none => .ok none
  | some (.str s) => .ok (some s)
  | some (.stream _) => .error .wrongType

/-- The entries of a stream, as `XLEN`, `XADD` and `XRANGE` see them. -/
def getStream (db : Bytes → Option RedisValue) (key : Bytes) : Except WrongType (List StreamEntry) :=
  match db key with
  | none => .ok []
  | some (.stream entries) => .ok entries
  | some (.str _) => .error .wrongType

/-- The script that compares the head and appends. -/
def chainAppendScript (db : Bytes → Option RedisValue)
    (headKey streamKey expected seq hash payload : Bytes) (now : ℕ) :
    (Bytes → Option RedisValue) × Except WrongType Bool :=
  match getString db headKey with
  | .error e => (db, .error e)
  | .ok head =>
    if head.getD [] ≠ expected then (db, .ok false)
    else
      match getStream db streamKey with
      | .error e => (db, .error e)
      | .ok entries =>
        -- a head that was deleted is not taken for a tenant without events
        if expected = [] ∧ entries.length ≠ 0 then (db, .ok false)
        else
          let entry : StreamEntry := ⟨nextID now entries, seq, some payload⟩
          let db := Function.update db streamKey (some (.stream (entries ++ [entry])))
          (Function.update db headKey (some (.str (headText seq hash))), .ok true)

/-- What the commands do. -/
def chainSem : Sem ChainCmd ChainCmd.Reply ChainState
  | .cachedHead c tenant, s =>
    (s, match s.caches c with
      | some (t, raw) => if t = tenant then some raw else none
      | none => none)
  | .storeCachedHead c tenant raw, s =>
    ({ s with caches := Function.update s.caches c (some (tenant, raw)) }, ())
  | .invalidateCachedHead c tenant raw, s =>
    (if s.caches c = some (tenant, raw)
      then { s with caches := Function.update s.caches c none } else s, ())
  | .get key, s => (s, getString s.db key)
  | .runAppendScript headKey streamKey expected seq hash payload now, s =>
    ({ s with db := (chainAppendScript s.db headKey streamKey expected seq hash payload now).1 },
      (chainAppendScript s.db headKey streamKey expected seq hash payload now).2)
  | .del key, s => ({ s with db := Function.update s.db key none }, ())

/-! ## Append -/

/-- A `Chainer`: where its cache is, its key prefix and its HMAC key (empty: no HMAC). -/
structure Chainer where
  id : ℕ
  keyPrefix : Bytes
  hmacKey : Bytes

/-- What a head key has behind the key prefix. -/
def chainHeadInfix : Bytes := ascii "head:"

/-- The key of a tenant's stream. -/
def streamKey (keyPrefix tenant : Bytes) : Bytes := keyPrefix ++ tenant

/-- The key of a tenant's head. -/
def headKey (keyPrefix tenant : Bytes) : Bytes := keyPrefix ++ chainHeadInfix ++ tenant

/-- The attempts of one `Append`. -/
def chainMaxCASRetries : ℕ := 1024

/-- How an `Append` fails. -/
inductive AppendError
  | tenantRequired
  | cancelled
  | readHead
  | parseHead (e : HeadError)
  | computeHash
  | computeHMAC
  | marshalEvent
  | scriptRun
  | casExhausted
deriving DecidableEq

/-- What each attempt meets: whether its context is over before it or in the pause after it, and the
server's clock. -/
structure AppendEnv where
  cancelled : ℕ → Bool
  interrupted : ℕ → Bool
  now : ℕ → ℕ

/-- The programs of Chainers. -/
abbrev ChainM := Prog ChainCmd ChainCmd.Reply AppendError

/-- How often the Redis client sends a command again. -/
def redisMaxRetries : ℕ := 3

/-- A Redis command whose failure ends the call. When the context ends, the tries left are lost. -/
def chainExec (c : ChainCmd) (e : AppendError) : ChainM c.Reply := Prog.resend c e redisMaxRetries

/-- A command whose failure is not looked at; for a cache it counts as a miss. -/
def tryCmd (c : ChainCmd) : ChainM (Option c.Reply) := Prog.cmd c

/-- The head as far as the Chainer knows it: from its cache, else read. -/
def readHead (c : Chainer) (tenant : Bytes) : ChainM Bytes := do
  let cached ← tryCmd (.cachedHead c.id tenant)
  match cached with
  | some (some raw) => pure raw
  | _ =>
    let reply ← chainExec (.get (headKey c.keyPrefix tenant)) .readHead
    match reply with
    | .error _ => .fail .readHead
    | .ok none => pure []
    | .ok (some raw) => pure raw

/-- The event after the head `(headSeq, headHash)`, and its stored form. -/
def linkEvent (c : Chainer) (event : SIEMEvent) (headSeq : ℤ) (headHash : Bytes) :
    Except AppendError (SIEMEvent × Bytes) :=
  let event := { event with prevHash := headHash, seq := headSeq + 1 }
  match computeEventHash D event with
  | none => .error .computeHash
  | some eventHash =>
    let event := { event with eventHash := eventHash }
    match (if c.hmacKey = [] then some event.hmac else computeEventHMAC D event c.hmacKey) with
    | none => .error .computeHMAC
    | some tag =>
      let event := { event with hmac := tag }
      match event.marshal with
      | none => .error .marshalEvent
      | some payload => .ok (event, payload)

/-- The event without what the chain adds to it. -/
def SIEMEvent.body (e : SIEMEvent) : SIEMEvent :=
  { e with seq := 0, eventHash := [], prevHash := [], hmac := [] }

/-- The loop of `Append`, with the attempts that are left. -/
def appendLoop (c : Chainer) (env : AppendEnv) : ℕ → SIEMEvent → ChainM SIEMEvent
  | 0, _ => .fail .casExhausted
  | left + 1, event =>
    let attempt := chainMaxCASRetries - (left + 1)
    if env.cancelled attempt then .fail .cancelled
    else do
      let rawHead ← readHead c event.tenantID
      match parseChainHead rawHead with
      | .error e => .fail (.parseHead e)
      | .ok (headSeq, headHash) =>
        match linkEvent D c event headSeq headHash with
        | .error e => .fail e
        | .ok (event, payload) =>
          let reply ← chainExec
              (.runAppendScript (headKey c.keyPrefix event.tenantID) (streamKey c.keyPrefix event.tenantID)
            rawHead (formatInt event.seq) event.eventHash payload (env.now attempt)) .scriptRun
          match reply with
          | .error _ => .fail .scriptRun
          | .ok true =>
            let _ ← tryCmd
                (.storeCachedHead c.id event.tenantID (headText (formatInt event.seq) event.eventHash))
            pure event
          | .ok false =>
            let _ ← tryCmd (.invalidateCachedHead c.id event.tenantID rawHead)
            if env.interrupted attempt then .fail .cancelled else appendLoop c env left event.body

/-- `Append`. -/
def append (c : Chainer) (env : AppendEnv) (event : SIEMEvent) : ChainM SIEMEvent :=
  if event.tenantID = [] then .fail .tenantRequired else appendLoop D c env chainMaxCASRetries event

/-- What happens around the chain of one tenant. -/
inductive ChainOp
  | append (c : Chainer) (env : AppendEnv) (event : SIEMEvent)
  | deleteKey (key : Bytes)
  | otherTenant (chainer : ℕ) (tenant rawHead : Bytes)

/-- The program of a call; only an `Append` answers with an event. -/
def chainProg : ChainOp → ChainM (Option SIEMEvent)
  | .append c env event => do return some (← append D c env event)
  | .deleteKey key => do
    let _ ← tryCmd (.del key)
    return none
  | .otherTenant chainer tenant rawHead => do
    let _ ← tryCmd (.storeCachedHead chainer tenant rawHead)
    return none

/-! ## What Append makes of an event -/

variable {D} {c : Chainer}

/-- The event `e`, stored as `payload`, is `base` linked into the chain by `c`. -/
structure Sealed (D : Digests) (c : Chainer) (base e : SIEMEvent) (payload : Bytes) : Prop where
  body : e.body = base.body
  hash : computeEventHash D e = some e.eventHash
  hmac : c.hmacKey ≠ [] → computeEventHMAC D e c.hmacKey = some e.hmac
  payload : e.marshal = some payload

/-- The chain's own fields are not in the canonical bytes, `PrevHash` apart. -/
theorem canonical_congr (h : e.body = e'.body) (hp : e.prevHash = e'.prevHash) :
    e.canonical = e'.canonical := by
  have hcle : e.cleared = e'.cleared := by
    have hset : ∀ x : SIEMEvent, x.cleared = { x.body with prevHash := x.prevHash } := fun _ => rfl
    rw [hset, hset, h, hp]
  rw [SIEMEvent.canonical, SIEMEvent.canonical, hcle]

theorem linkEvent_sealed (h : linkEvent D c event headSeq headHash = .ok (e, payload)) :
    Sealed D c event e payload ∧ e.seq = headSeq + 1 ∧ e.prevHash = headHash := by
  unfold linkEvent at h
  dsimp only at h
  split at h
  · cases h
  next eventHash hhs =>
  split at h
  · cases h
  next tag htag =>
  split at h
  · cases h
  next payload' hpay =>
  cases h
  refine ⟨⟨rfl, hhs, fun hkey => ?_, hpay⟩, rfl, rfl⟩
  rw [if_neg hkey] at htag
  exact htag

theorem tenantID_body : e.body.tenantID = e.tenantID := rfl

theorem Sealed.tenantID (h : Sealed D c base e payload) : e.tenantID = base.tenantID := by
  rw [← tenantID_body, h.body, tenantID_body]

end Cordum.Audit
