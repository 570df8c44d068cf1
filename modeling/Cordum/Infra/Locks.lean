import Cordum.Text.GoString
import Mathlib.Data.List.AList

/-!
# Resource locks

`RedisStore` of the lock package: a lock lies under one key with all its owners, and each call is one
script. Times are those of Redis, in milliseconds; durations are in nanoseconds.
-/

namespace Cordum.Locks

open GoString

/-- Shared or exclusive. -/
inductive Mode
  | shared
  | exclusive
deriving DecidableEq

/-- `lockPayload`: how often each owner holds the lock. -/
structure Lock where
  mode : Mode
  owners : AList fun _ : String => ℕ

/-- A lock under its key, and the time the key expires, if it does. -/
structure Stored where
  lock : Lock
  deadline : Option ℤ

/-- The Redis key of a lock. -/
def lockKey (resource : String) : String := "lock:" ++ resource

/-- Half a minute. -/
def defaultTTL : ℤ := 30 * 1000000000

/-- The default for what is not positive. -/
def normalizeTTL (ttl : ℤ) : ℤ := if ttl ≤ 0 then defaultTTL else ttl

/-- All but `shared` is exclusive. -/
def normalizeMode (mode : String) : Mode := if mode = "shared" then .shared else .exclusive

variable (owner : String)

/-- The owner counted once more. -/
def Lock.hold (lock : Lock) : Lock :=
  { lock with owners := lock.owners.insert owner ((lock.owners.lookup owner).getD 0 + 1) }

/-- The owner counted once less. -/
def Lock.drop (lock : Lock) (count : ℕ) : Lock :=
  { lock with owners := if count ≤ 1 then lock.owners.erase owner
    else lock.owners.insert owner (count - 1) }

/-- `acquireScript`: the lock that it writes, if it is not refused. -/
def acquireScript (mode : Mode) : Option Lock → Option Lock
  | none => some ⟨mode, AList.singleton owner 1⟩
  | some lock =>
    match lock.mode, mode with
    | .exclusive, _ => if owner ∈ lock.owners then some (lock.hold owner) else none
    | .shared, .shared => some (lock.hold owner)
    -- an upgrade
    | .shared, .exclusive =>
      if lock.owners.keys = [] then none
      else if ∀ k ∈ lock.owners.keys, k = owner then some { lock.hold owner with mode := .exclusive }
      else none

/-- What a call returns: an error, or the lock and whether it succeeded. -/
inductive Answer
  | required
  | redis
  | ok (lock : Option Lock) (success : Bool)

/-- `SET` with an expiry, which Redis refuses when it is not positive. -/
def setPX (now ttl : ℤ) (lock : Lock) (s : Option Stored) : Option Stored × Answer :=
  if 0 < ttl then (some ⟨lock, some (now + ttl)⟩, .ok (some lock) true) else (s, .redis)

/-- `releaseScript`. -/
def releaseScript (now : ℤ) : Option Stored → Option Stored × Answer
  | none => (none, .ok none true)
  | some s =>
    match s.lock.owners.lookup owner with
    | none => (some s, .ok (some s.lock) true)
    | some count =>
      let lock := s.lock.drop owner count
      -- `PTTL`, negative when the key does not expire
      let ttl := (s.deadline.map (· - now)).getD (-1)
      if lock.owners.keys = [] then (none, .ok none true)
      else (some ⟨lock, some (now + if 0 < ttl then ttl else 30000)⟩, .ok (some lock) true)

/-- `renewScript`. -/
def renewScript (now ttl : ℤ) : Option Stored → Option Stored × Answer
  | none => (none, .ok none false)
  | some s => if owner ∈ s.lock.owners then setPX now ttl s.lock (some s) else (some s, .ok none false)

/-- The calls of the store. -/
inductive LockCall
  | acquire (mode : String) (ttl : ℤ)
  | release
  | renew (ttl : ℤ)
deriving DecidableEq

/-- A call of an owner, at a time. -/
structure Request where
  now : ℤ
  resource : String
  owner : String
  call : LockCall

/-- The resource as the scripts see it. -/
def Request.name (q : Request) : String := trimSpace q.resource

/-- The owner as the scripts see it. -/
def Request.holder (q : Request) : String := trimSpace q.owner

/-- The script of a request, on what is under the key. -/
def Request.serve (q : Request) (s : Option Stored) : Option Stored × Answer :=
  match q.call with
  | .acquire mode ttl =>
    match acquireScript q.holder (normalizeMode mode) (s.map (·.lock)) with
    | none => (s, .ok none false)
    | some lock => setPX q.now (normalizeTTL ttl / 1000000) lock s
  | .release => releaseScript q.holder q.now s
  | .renew ttl => renewScript q.holder q.now (normalizeTTL ttl / 1000000) s

/-- A request with what its script found and what the call returned. -/
structure Served where
  request : Request
  found : Option Stored
  answer : Answer

/-- The locks in Redis. -/
abbrev Keys := String → Option Stored

/-- No locks. -/
def Keys.empty : Keys := fun _ => none

/-- A key is there until its deadline. -/
def expiring (now : ℤ) (s : Stored) : Bool := s.deadline.all (now < ·)

/-- A key is there for ever. -/
def lasting (_ : ℤ) (_ : Stored) : Bool := true

/-- `Acquire`, `Release` and `Renew`, where `alive` says which keys are there. -/
def serve (alive : ℤ → Stored → Bool) (s : Keys × List Served) (q : Request) : Keys × List Served :=
  let key := lockKey q.name
  let found := (s.1 key).filter (alive q.now)
  if q.name = "" ∨ q.holder = "" then (s.1, s.2 ++ [⟨q, found, .required⟩])
  else
    let r := q.serve found
    (fun k => if k = key then r.1 else s.1 k, s.2 ++ [⟨q, found, r.2⟩])

/-- Requests one after the other. -/
def run (alive : ℤ → Stored → Bool) (keys : Keys) (requests : List Request) : Keys × List Served :=
  requests.foldl (serve alive) (keys, [])

end Cordum.Locks
