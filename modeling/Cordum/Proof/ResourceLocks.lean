import Cordum.Infra.Locks

/-!
# Resource locks are exclusive and counted

While no key expires, the count of an owner is its acquires less its releases, and an exclusive lock
has one owner (`locks_counted`). With expiry all owners share one deadline: a lease lasts as long as
no other owner sets an earlier one (`lease_kept`, `lease_cut_short`).
-/

namespace Cordum.Locks

open GoString AList List Request Option Function

variable {s s' : Option Stored} {q : Request} {a : Answer} {w o r : String} {mode : Mode}
  {lock : Lock} {e : Stored} {count : ℕ} {ttl : ℤ}

/-- The owners under a key, with their counts. -/
def ownersOf (s : Option Stored) : AList fun _ : String => ℕ := s.elim ∅ (·.lock.owners)

/-- How often an owner holds the lock. -/
def held (s : Option Stored) (o : String) : ℕ := ((ownersOf s).lookup o).getD 0

/-- The call succeeded. -/
def Answer.success : Answer → Bool
  | .ok _ success => success
  | .required | .redis => false

/-- A lock has an owner, each owner holds it, and an exclusive lock has one owner. -/
structure Sound (s : Option Stored) : Prop where
  positive : ∀ o ∈ ownersOf s, 0 < held s o
  present : s.isSome ↔ ∃ o, o ∈ ownersOf s
  exclusive : ∀ e ∈ s, e.lock.mode = .exclusive → ∃! o, o ∈ ownersOf s

theorem isSome_of_mem (h : o ∈ ownersOf s) : s.isSome := by
  cases s with
  | none => exact absurd h (notMem_empty o)
  | some => rfl

theorem acquireScript_some (h : acquireScript w mode (s.map (·.lock)) = some lock) :
    lock.owners = (ownersOf s).insert w (held s w + 1) ∧
      (Sound s → lock.mode = .exclusive ∨ mode = .exclusive ∨ (∃ e ∈ s, e.lock.mode = .exclusive) →
        ∀ k ∈ ownersOf s, k = w) := by
  cases s with
  | none =>
    cases h
    exact ⟨rfl, fun _ _ k hk => absurd hk (notMem_empty k)⟩
  | some e =>
    simp only [acquireScript, map_some] at h
    split at h
    · rename_i hmd
      split_ifs at h with hmem
      cases h
      exact ⟨rfl, fun hs _ k hk => (hs.exclusive e rfl hmd).unique hk hmem⟩
    · rename_i hsha
      cases h
      refine ⟨rfl, ?_⟩
      simp [Lock.hold, hsha]
    · split_ifs at h with hnil hall
      cases h
      exact ⟨rfl, fun _ _ k hk => hall k (AList.mem_keys.2 hk)⟩

/-- What a script can do. -/
inductive Change (q : Request) (s : Option Stored) : Option Stored → Answer → Prop
  | refused {a : Answer} (ha : a.success = false) : Change q s s a
  | acquired {m : String} {ttl : ℤ} {lock : Lock} (hq : q.call = .acquire m ttl)
    (h : acquireScript q.holder (normalizeMode m) (s.map (·.lock)) = some lock) :
    Change q s (some ⟨lock, some (q.now + normalizeTTL ttl / 1000000)⟩) (.ok (some lock) true)
  | renewed {e : Stored} {ttl : ℤ} (hq : q.call = .renew ttl) (hs : s = some e)
      (h : q.holder ∈ e.lock.owners) :
    Change q s (some ⟨e.lock, some (q.now + normalizeTTL ttl / 1000000)⟩) (.ok (some e.lock) true)
  | foreign {a : Answer} (hq : q.call = .release) (h : q.holder ∉ ownersOf s) : Change q s s a
  | released {s' : Option Stored} {a : Answer} (hq : q.call = .release) (h : q.holder ∈ ownersOf s)
    (howners : ∀ k, (ownersOf s').lookup k = if k = q.holder then
      (if held s k ≤ 1 then none else some (held s k - 1)) else (ownersOf s).lookup k)
    (hs' : ∀ e' ∈ s', (∃ o, o ∈ ownersOf s') ∧ ∃ e ∈ s, e'.lock.mode = e.lock.mode ∧
      ∀ d ∈ e.deadline, q.now < d → e'.deadline = some d) (ha : a.success) : Change q s s' a

theorem change_setPX (h : Change q s (some ⟨lock, some (q.now + ttl)⟩) (.ok (some lock) true)) :
    Change q s (setPX q.now ttl lock s).1 (setPX q.now ttl lock s).2 := by
  unfold setPX
  split
  · exact h
  · exact .refused rfl

theorem change_serve (q : Request) (s : Option Stored) : Change q s (q.serve s).1 (q.serve s).2 := by
  unfold Request.serve
  cases hq : q.call with
  | acquire m ttl =>
    dsimp only
    split
    · exact .refused rfl
    · exact change_setPX (.acquired hq ‹_›)
  | release =>
    cases s with
    | none => exact .foreign hq (notMem_empty _)
    | some e =>
      dsimp only [releaseScript]
      split
      · exact .foreign hq (lookup_eq_none.1 ‹_›)
      rename_i count h
      change (ownersOf (some e)).lookup _ = _ at h
      have hmem : q.holder ∈ ownersOf (some e) := lookup_isSome.1 (by rw [h]; rfl)
      have hhd : held (some e) q.holder = count := by rw [held, h]; rfl
      have hows : ∀ k, (e.lock.drop q.holder count).owners.lookup k = if k = q.holder then
          (if held (some e) k ≤ 1 then none else some (held (some e) k - 1))
            else (ownersOf (some e)).lookup k := by
        intro k
        unfold Lock.drop
        split_ifs with hle hk hk' hk <;> subst_vars <;> simp_all [lookup_erase_ne, ownersOf]
      by_cases hnil : (e.lock.drop q.holder count).owners.keys = []
      · rw [if_pos hnil]
        refine .released hq hmem (fun k => ?_) nofun rfl
        exact (lookup_eq_none.2 fun hk => not_mem_nil (hnil ▸ AList.mem_keys.1 hk)).symm.trans (hows k)
      · rw [if_neg hnil]
        refine .released hq hmem hows ?_ rfl
        rintro _ ⟨⟩
        refine ⟨exists_mem_of_ne_nil _ hnil, e, rfl, rfl, fun d hd hlt => ?_⟩
        simp only [mem_def.1 hd, map_some, getD_some]
        congr 1
        omega
  | renew ttl =>
    cases s with
    | none => exact .refused rfl
    | some e =>
      dsimp only [renewScript]
      split
      · exact change_setPX (.renewed hq rfl ‹_›)
      · exact .refused rfl

/-- An acquire that succeeds adds one to the owner's count, and a release takes one. -/
def Request.counted (q : Request) (s : Option Stored) (a : Answer) (o : String) : ℤ :=
  if q.holder = o ∧ a.success then
    match q.call with
    | .acquire .. => 1
    | .release => if o ∈ ownersOf s then -1 else 0
    | .renew _ => 0
  else 0

theorem Change.held_eq (h : Change q s s' a) (hs : Sound s) (o : String) :
    (held s' o : ℤ) = held s o + q.counted s a o := by
  cases h with
  | refused ha => simp [counted, ha]
  | acquired hq h =>
    rw [held, ownersOf, elim_some, (acquireScript_some h).1]
    by_cases ho : o = q.holder
    · subst ho
      simp [counted, hq, Answer.success]
    · rw [lookup_insert_ne ho]
      simp [counted, Ne.symm ho, held]
  | renewed hq hs =>
    subst hs
    simp [counted, hq, held, ownersOf]
  | foreign hq h =>
    by_cases ho : q.holder = o
    · simp [counted, hq, ← ho, h]
    · simp [counted, ho]
  | released hq h hows _ ha =>
    rw [held, hows]
    by_cases ho : o = q.holder
    · subst ho
      have hpos := hs.positive _ h
      simp only [counted, ha, hq, h, and_true]
      split_ifs <;> simp <;> omega
    · simp [counted, ho, Ne.symm ho, held]

theorem Change.sound (h : Change q s s' a) (hs : Sound s) : Sound s' := by
  cases h with
  | refused | foreign => exact hs
  | @renewed e ttl hq hse =>
    subst hse
    exact ⟨hs.positive, hs.present, fun _ h => by cases h; exact hs.exclusive e rfl⟩
  | @acquired m ttl lock hq h =>
    obtain ⟨hows, hmd⟩ := acquireScript_some h
    have hmem : ∀ k, k ∈ lock.owners ↔ k = q.holder ∨ k ∈ ownersOf s := fun k => by rw [hows, mem_insert]
    refine ⟨fun k hk => ?_, ⟨fun _ => ⟨_, (hmem _).2 (.inl rfl)⟩, fun _ => rfl⟩, ?_⟩
    · rw [held, ownersOf, elim_some, hows]
      by_cases hkw : k = q.holder
      · rw [hkw, lookup_insert]
        exact Nat.succ_pos _
      · rw [lookup_insert_ne hkw]
        exact hs.positive k (((hmem k).1 hk).resolve_left hkw)
    · rintro _ ⟨⟩ hex
      exact ⟨_, (hmem _).2 (.inl rfl), fun k hk => ((hmem k).1 hk).elim id (hmd hs (.inl hex) k)⟩
  | released hq h hows hs' ha =>
    have hsub : ∀ k ∈ ownersOf s', k ∈ ownersOf s := by
      intro k hk
      by_cases hkw : k = q.holder
      · exact hkw ▸ h
      · rwa [← lookup_isSome, hows, if_neg hkw, lookup_isSome] at hk
    refine ⟨fun k hk => ?_, ⟨fun h => ?_, fun ⟨_, ho⟩ => isSome_of_mem ho⟩, fun e' he' hex => ?_⟩
    · have hpos := hs.positive k (hsub k hk)
      rw [← lookup_isSome, hows] at hk
      rw [held, hows]
      split_ifs at hk ⊢
      · cases hk
      · simp only [getD_some]
        omega
      · exact hpos
    · obtain ⟨e', he'⟩ := isSome_iff_exists.1 h
      exact (hs' e' he').1
    · obtain ⟨⟨o, ho⟩, e, he, hmd, -⟩ := hs' e' he'
      exact ⟨o, ho, fun k hk => (hs.exclusive e he (hmd ▸ hex)).unique (hsub k hk) (hsub o ho)⟩

section

variable {alive : ℤ → Stored → Bool} {st : Keys × List Served} {requests : List Request}

theorem lockKey_injective : Function.Injective lockKey := fun _ _ => (String.append_right_inj _).1

/-- One request changes one key, unless it names no resource or no owner. -/
theorem serve_change (alive : ℤ → Stored → Bool) (st : Keys × List Served) (q : Request) :
    ∃ a, (serve alive st q).2 = st.2 ++ [⟨q, (st.1 (lockKey q.name)).filter (alive q.now), a⟩] ∧
      ((serve alive st q).1 = st.1 ∧ a = .required ∨ ∃ s',
        Change q ((st.1 (lockKey q.name)).filter (alive q.now)) s' a ∧
          (serve alive st q).1 = update st.1 (lockKey q.name) s') := by
  unfold serve
  split
  · exact ⟨_, rfl, .inl ⟨rfl, rfl⟩⟩
  · refine ⟨_, rfl, .inr ⟨_, change_serve q _, ?_⟩⟩
    funext k
    simp only [update_apply]

theorem Sound.none : Sound none :=
  ⟨fun o ho => absurd ho (notMem_empty o), by simp [ownersOf], nofun⟩

theorem Sound.filter (hs : Sound s) (p : Stored → Bool) : Sound (s.filter p) := by
  cases s with
  | none => exact .none
  | some e =>
    cases hp : p e
    · rw [filter_some_neg (by simp [hp])]
      exact .none
    · rwa [filter_some_pos hp]

theorem sound_serve (alive : ℤ → Stored → Bool) (q : Request) (h : ∀ k, Sound (st.1 k)) (k : String) :
    Sound ((serve alive st q).1 k) := by
  obtain ⟨a, -, ⟨heq, -⟩ | ⟨s', hc, heq⟩⟩ := serve_change alive st q <;> rw [heq]
  · exact h k
  · rw [update_apply]
    split
    · exact hc.sound ((h _).filter _)
    · exact h k

theorem run_concat (keys : Keys) (q : Request) :
    run alive keys (requests ++ [q]) = serve alive (run alive keys requests) q := foldl_concat ..

theorem sound_run (alive : ℤ → Stored → Bool) (requests : List Request) (k : String) :
    Sound ((run alive .empty requests).1 k) := by
  induction requests using reverseRecOn generalizing k with
  | nil => exact .none
  | append_singleton l q ih =>
    rw [run_concat]
    exact sound_serve alive q ih k

/-- What a lock is, after the requests of a log. -/
structure Counted (r : String) (s : Option Stored) (log : List Served) : Prop extends Sound s where
  counts : ∀ o, (held s o : ℤ) = ((log.filter fun x => x.request.name = r).map fun x =>
    x.request.counted x.found x.answer o).sum
  granted : ∀ x ∈ log, x.request.name = r → ∀ m ttl, x.request.call = .acquire m ttl → x.answer.success →
    (normalizeMode m = .exclusive ∨ ∃ e ∈ x.found, e.lock.mode = .exclusive) →
      ∀ k ∈ ownersOf x.found, k = x.request.holder

theorem Change.granted (h : Change q s s' a) (hs : Sound s) {m : String}
    (hq : q.call = .acquire m ttl) (ha : a.success)
    (hex : normalizeMode m = .exclusive ∨ ∃ e ∈ s, e.lock.mode = .exclusive) :
    ∀ k ∈ ownersOf s, k = q.holder := by
  cases h with
  | refused ha' => exact absurd ha (by simp [ha'])
  | acquired hq' h =>
    cases hq.symm.trans hq'
    exact (acquireScript_some h).2 hs (.inr hex)
  | renewed hq' | foreign hq' | released hq' => cases hq.symm.trans hq'

theorem Counted.serve (h : Counted r (st.1 (lockKey r)) st.2) (hs : ∀ k, Sound (st.1 k)) :
    Counted r ((serve lasting st q).1 (lockKey r)) (serve lasting st q).2 := by
  obtain ⟨a, hlog, hc⟩ := serve_change lasting st q
  have hfd : ∀ s : Option Stored, s.filter (lasting q.now) = s := by rintro (_ | _) <;> rfl
  simp only [hfd] at hlog hc
  refine ⟨sound_serve lasting q hs _, fun o => ?_, ?_⟩
  · rw [hlog, filter_append, map_append, sum_append, ← h.counts o]
    obtain ⟨heq, rfl⟩ | ⟨s', hc, heq⟩ := hc <;> rw [heq]
    · by_cases hr : q.name = r <;> simp [hr, counted, Answer.success]
    · by_cases hr : q.name = r
      · subst hr
        simpa using hc.held_eq (hs _) o
      · rw [update_of_ne fun h => hr (lockKey_injective h).symm]
        simp [hr]
  · rw [hlog]
    rintro x hx rfl m ttl hq ha hex
    obtain hx | hx := mem_append.1 hx
    · exact h.granted x hx rfl m ttl hq ha hex
    · cases mem_singleton.1 hx
      obtain ⟨-, rfl⟩ | ⟨s', hc, -⟩ := hc
      · cases ha
      · exact hc.granted (hs _) hq ha hex

end

/-- **Resource locks are exclusive and counted**, while no key expires. -/
theorem locks_counted (requests : List Request) (r : String) :
    Counted r ((run lasting .empty requests).1 (lockKey r)) (run lasting .empty requests).2 := by
  induction requests using reverseRecOn with
  | nil => exact ⟨.none, fun _ => rfl, nofun⟩
  | append_singleton l q ih =>
    rw [run_concat]
    exact ih.serve (sound_run _ l)

/-- The TTL that a call asks for, in nanoseconds. -/
def Request.lease (q : Request) : Option ℤ :=
  match q.call with
  | .acquire _ ttl | .renew ttl => some (normalizeTTL ttl)
  | .release => none

/-- The lock lists an owner until `d` or longer. -/
def Leased (d : ℤ) (o : String) (s : Option Stored) : Prop :=
  ∃ e, s = some e ∧ o ∈ e.lock.owners ∧ ∃ d' ∈ e.deadline, d ≤ d'

variable {d now : ℤ} {alive : ℤ → Stored → Bool} {requests : List Request}

theorem Leased.filter (h : Leased d o s) (hlt : now < d) : s.filter (expiring now) = s := by
  obtain ⟨e, rfl, -, d', hd', hle⟩ := h
  exact filter_some_pos (by simp [expiring, mem_def.1 hd']; omega)

/-- A call leases its lock when it succeeds. -/
theorem Change.leased (h : Change q s s' a) (hd : d ∈ q.lease) (ha : a.success) :
    Leased (q.now + d / 1000000) q.holder s' := by
  cases h with
  | refused ha' => exact absurd ha (by simp [ha'])
  | acquired hq h =>
    simp only [lease, hq, mem_def, some.injEq] at hd
    exact ⟨_, rfl, by simp [(acquireScript_some h).1], _, rfl, by omega⟩
  | renewed hq _ h =>
    simp only [lease, hq, mem_def, some.injEq] at hd
    exact ⟨_, rfl, h, _, rfl, by omega⟩
  | foreign hq | released hq => simp [lease, hq] at hd

theorem Change.keeps (h : Change q s s' a) (hs : Leased d o s) (hlt : q.now < d)
    (hown : q.holder = o → q.call ≠ .release ∧ (q.lease.isSome → a.success = false))
    (hoth : q.holder ≠ o → a.success → ∀ d' ∈ q.lease, d ≤ q.now + d' / 1000000) : Leased d o s' := by
  obtain ⟨e, rfl, ho, d', hd', hle⟩ := hs
  -- a success leases the lock, which here only another owner does
  have hend : ∀ ttl, q.lease = some (normalizeTTL ttl) → a.success →
      d ≤ q.now + normalizeTTL ttl / 1000000 := by
    intro ttl hlea ha
    refine hoth (fun hqo => ?_) ha _ hlea
    rw [(hown hqo).2 (by rw [hlea]; rfl)] at ha
    cases ha
  cases h with
  | refused | foreign => exact ⟨e, rfl, ho, d', hd', hle⟩
  | @acquired m ttl lock hq h =>
    have hmem : o ∈ lock.owners := by
      rw [(acquireScript_some h).1, mem_insert]
      exact .inr ho
    exact ⟨_, rfl, hmem, _, rfl, hend ttl (by rw [lease, hq]) rfl⟩
  | @renewed _ ttl hq hs =>
    cases hs
    exact ⟨_, rfl, ho, _, rfl, hend ttl (by rw [lease, hq]) rfl⟩
  | released hq h hows hs' =>
    have hmem : o ∈ ownersOf s' := by
      rw [← lookup_isSome, hows, if_neg fun hqo => (hown hqo.symm).1 hq]
      exact lookup_isSome.2 ho
    cases s' with
    | none => exact absurd hmem (notMem_empty o)
    | some e' =>
      obtain ⟨-, _, he, -, hdl⟩ := hs' e' rfl
      cases he
      exact ⟨e', rfl, hmem, d', hdl d' hd' (by omega), hle⟩

theorem run_append (keys : Keys) (l l' : List Request) :
    (run alive keys (l ++ l')).1 = (run alive (run alive keys l).1 l').1 := by
  induction l' using reverseRecOn with
  | nil => simp [run]
  | append_singleton l' q ih =>
    rw [← append_assoc, run_concat, run_concat]
    unfold serve
    rw [ih]
    split <;> rfl

theorem leased_run {keys : Keys} (h : Leased d o (keys (lockKey r))) (hlt : now < d)
    (hnow : ∀ x ∈ requests, x.now ≤ now)
    (hown : ∀ x ∈ (run expiring keys requests).2, x.request.name = r → x.request.holder = o →
      x.request.call ≠ .release ∧ (x.request.lease.isSome → x.answer.success = false))
    (hoth : ∀ x ∈ (run expiring keys requests).2, x.request.name = r →
      x.request.holder ≠ o → x.answer.success →
      ∀ d' ∈ x.request.lease, d ≤ x.request.now + d' / 1000000) :
    Leased d o ((run expiring keys requests).1 (lockKey r)) := by
  induction requests using reverseRecOn with
  | nil => exact h
  | append_singleton l x ih =>
    obtain ⟨a, hlog, hc⟩ := serve_change expiring (run expiring keys l) x
    rw [run_concat] at hown hoth ⊢
    rw [hlog] at hown hoth
    have hl := ih (fun y hy => hnow y (mem_append_left _ hy)) (fun y hy => hown y (mem_append_left _ hy))
      fun y hy => hoth y (mem_append_left _ hy)
    have hx : x ∈ l ++ [x] := mem_append_right _ (mem_singleton_self x)
    have hxd : x.now < d := Int.lt_of_le_of_lt (hnow x hx) hlt
    obtain ⟨heq, -⟩ | ⟨s', hc, heq⟩ := hc <;> rw [heq]
    · exact hl
    by_cases hr : x.name = r
    · rw [hr, hl.filter hxd] at hc
      rw [hr, update_self]
      exact hc.keeps hl hxd (hown _ (mem_append_right _ (mem_singleton_self _)) hr)
        (hoth _ (mem_append_right _ (mem_singleton_self _)) hr)
    · rwa [update_of_ne fun h => hr (lockKey_injective h).symm]

/-- **A lock holder keeps its lease** while no other owner gets one that ends earlier. -/
theorem lease_kept (before after : List Request) (hr : q.name = r) (ho : q.holder = o)
    (hd : d ∈ q.lease) (hms : 1000000 ∣ d)
    (hok : ∀ x ∈ (run expiring (run expiring .empty before).1 [q]).2, x.answer.success)
    (hafter : ∀ x ∈ (run expiring (run expiring .empty (before ++ [q])).1 after).2,
      x.request.name = r → x.request.holder = o →
        x.request.call ≠ .release ∧ (x.request.lease.isSome → x.answer.success = false))
    (hother : ∀ x ∈ (run expiring (run expiring .empty (before ++ [q])).1 after).2,
      x.request.name = r → x.request.holder ≠ o → x.answer.success →
        ∀ d' ∈ x.request.lease, q.now * 1000000 + d ≤ x.request.now * 1000000 + d')
    (hnow : ∀ x ∈ after, x.now ≤ now) (hlt : now * 1000000 < q.now * 1000000 + d) :
    let s := ((run expiring .empty (before ++ q :: after)).1 (lockKey r)).filter (expiring now)
    o ∈ ownersOf s ∧ ∀ w ≠ o, acquireScript w .exclusive (s.map (·.lock)) = none := by
  intro s
  have hkp : Leased (q.now + d / 1000000) o
      ((run expiring .empty (before ++ q :: after)).1 (lockKey r)) := by
    rw [append_cons, run_append]
    refine leased_run ?_ (by omega) hnow hafter fun x hx hr ho ha d' hd' => ?_
    · obtain ⟨a, hlog, hc⟩ := serve_change expiring ((run expiring .empty before).1, []) q
      have ha := hok _ (by rw [run, foldl_cons, foldl_nil, hlog]; exact mem_singleton_self _)
      rw [run_append, run, foldl_cons, foldl_nil]
      obtain ⟨-, rfl⟩ | ⟨s', hc, heq⟩ := hc
      · cases ha
      · rw [heq, hr, update_self, ← ho]
        exact hc.leased hd ha
    · have := hother x hx hr ho ha d' hd'
      omega
  have hs : s = _ := hkp.filter (by omega)
  have hsou := sound_run expiring (before ++ q :: after) (lockKey r)
  obtain ⟨e, he, hmem, -⟩ := hkp
  rw [← hs] at hsou
  replace hmem : o ∈ ownersOf s := by rwa [hs, he]
  refine ⟨hmem, fun w hw => eq_none_iff_forall_ne_some.2 fun lock h => ?_⟩
  exact hw ((acquireScript_some h).2 hsou (.inr (.inl rfl)) _ hmem).symm

/-- One other owner asks for less and is refused, another one is granted more. -/
theorem lease_kept_sample :
    let s := ((run expiring .empty
    [⟨0, "db", "a", .acquire "shared" 0⟩, ⟨3, "db", "c", .acquire "exclusive" 1000000⟩,
      ⟨5, "db", "b", .acquire "shared" (60 * 1000000000)⟩]).1 (lockKey "db")).filter (expiring 29999)
    "a" ∈ ownersOf s ∧ ∀ w ≠ "a", acquireScript w .exclusive (s.map (·.lock)) = none :=
  lease_kept [] [⟨3, "db", "c", .acquire "exclusive" 1000000⟩,
    ⟨5, "db", "b", .acquire "shared" (60 * 1000000000)⟩] (by decide +kernel) (by decide +kernel)
    (by rfl) (by decide) (by decide +kernel) (by decide +kernel)
      (by decide +kernel) (by decide) (by decide)

/-- An owner that asks for less cuts the lease of another short. -/
theorem lease_cut_short :
    let requests : List Request := [⟨0, "db", "a", .acquire "shared" (60 * 1000000000)⟩,
      ⟨0, "db", "b", .acquire "shared" 1000000000⟩, ⟨2000, "db", "c", .acquire "exclusive" 1000000000⟩]
    let st := run expiring .empty requests
    st.2.map (·.answer.success) = [true, true, true] ∧ "a" ∉ ownersOf (st.1 (lockKey "db")) := by
  decide +kernel

end Cordum.Locks
