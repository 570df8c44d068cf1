import Cordum.Store.Watch

/-!
# An approval is resolved once

Any number of `ResolveApproval` calls, with any other writes to the job in between. A call that
commits found its three keys unwritten since it began to watch them, so all it had read still held
(`commit_current`), and its pipeline starts from `APPROVAL_REQUIRED` and leaves it.

* `approval_exclusive`: of every run.
-/

namespace Cordum

open Conc GoString World List Entry JobKeys Prog

variable {w : Resolution} {seen v : Versions} {e : WatchEntry} {o : WatchObs}
  {during jobID : String} {m : Meta} {t u : WatchedKeys} {i : ℕ}

/-- What a call sees of a command. -/
abbrev WatchObs := Obs WatchCmd WatchCmd.Reply

/-! ## What a call sees -/

variable {l reads a b obs2 : List WatchObs} {p : ApprovalResolutionParams} {now : ℤ}

section

variable {α β : Type} {obs : List WatchObs} {r : Except StoreErr β}

theorem path_watchCmd {c : WatchCmd} {f : c.Reply → WatchM β} (hp : (watchCmd c during >>= f).Path obs r) :
    (∃ x rest, obs = ⟨c, some x⟩ :: rest ∧ (f x).Path rest r) ∨
      (obs = [⟨c, none⟩] ∧ r = .error (.redis during)) := by
  obtain ⟨o, rest, rfl, hrs⟩ := hp
  cases o with
  | none =>
    obtain ⟨rfl, rfl⟩ := hrs
    exact .inr ⟨rfl, rfl⟩
  | some x => exact .inl ⟨x, rest, rfl, hrs⟩

theorem path_checked {x : Except StoreErr α} {f : α → WatchM β} (hp : (checked x >>= f).Path obs r) :
    (∃ a, x = .ok a ∧ (f a).Path obs r) ∨ ∃ e, x = .error e ∧ obs = [] ∧ r = .error e := by
  cases x with
  | ok a => exact .inl ⟨a, rfl, hp⟩
  | error e => exact .inr ⟨e, rfl, hp.1, hp.2⟩

/-- The reads that found the state `current`. -/
def CurrentReads (m : Meta) (current : JobState) (reads : List WatchObs) : Prop :=
  m.state = some current ∧ reads = [] ∨ m.state = none ∧ reads = [⟨.getStateKey, some (some current)⟩]

/-- The call failed after reads alone. -/
def GaveUp (obs : List WatchObs) (r : Except StoreErr β) : Prop :=
  (∀ o ∈ obs, o.cmd.isRead) ∧ ∃ e, r = .error e

theorem gaveUp_nil {e : StoreErr} : GaveUp [] (.error e : Except StoreErr β) := ⟨by simp, e, rfl⟩

theorem GaveUp.cons (ho : o.cmd.isRead) (h : GaveUp obs r) : GaveUp (o :: obs) r :=
  ⟨forall_mem_cons.2 ⟨ho, h.1⟩, h.2⟩

theorem GaveUp.append (hl : ∀ o ∈ l, o.cmd.isRead) (h : GaveUp obs r) : GaveUp (l ++ obs) r :=
  ⟨forall_mem_append.2 ⟨hl, h.1⟩, h.2⟩

theorem CurrentReads.allReads {current : JobState} (h : CurrentReads m current reads) :
    ∀ o ∈ reads, o.cmd.isRead := by
  rcases h with ⟨-, rfl⟩ | ⟨-, rfl⟩ <;> simp [WatchCmd.isRead]

theorem path_readCurrent {f : JobState → WatchM β} (hp : (readCurrent m >>= f).Path obs r) :
    (∃ current reads rest, CurrentReads m current reads ∧ obs = reads ++ rest ∧ (f current).Path rest r) ∨
      GaveUp obs r := by
  unfold readCurrent at hp
  cases hm : m.state with
  | some s =>
    rw [hm] at hp
    exact .inl ⟨s, [], obs, .inl ⟨hm, rfl⟩, rfl, hp⟩
  | none =>
    rw [hm] at hp
    simp only [bind_eq, bind_assoc] at hp
    rcases path_watchCmd hp with ⟨x, rest, rfl, hrs⟩ | ⟨rfl, rfl⟩
    · cases x with
      | some s => exact .inl ⟨s, _, rest, .inr ⟨hm, rfl⟩, rfl, hrs⟩
      | none =>
        obtain ⟨rfl, rfl⟩ := hrs
        exact .inr (gaveUp_nil.cons rfl)
    · exact .inr (gaveUp_nil.cons rfl)

/-- What the reply to the pipeline makes of a call. -/
def execAnswer (p : ApprovalResolutionParams) : Option Bool → Except StoreErr JobState
  | some true => .ok p.resultState
  | some false => .error (.approvalConflict .retryableLock "concurrent approval conflict; retry")
  | none => .error (.redis "job store resolve approval exec")

/-- The way of a call that sent its pipeline. -/
structure SentPipeline (h : Hasher) (p : ApprovalResolutionParams) (now : ℤ) (obs : List WatchObs)
    (r : Except StoreErr JobState) (seen : Versions) (w : Resolution) : Prop where
  params : w.params = p
  time : w.now = now
  resolvable : resolvable w.jobMeta w.current = .ok w.record
  matches' : requestMatches h p w.jobMeta w.request = .ok ()
  obs : ∃ reads reply, CurrentReads w.jobMeta w.current reads ∧ r = execAnswer p reply ∧
    obs = ⟨.watch, some seen⟩ :: ⟨.hgetAllMeta, some w.jobMeta⟩ ::
      (reads ++ [⟨.getRequest, some (some w.request)⟩, ⟨.exec seen w, reply⟩])

/-- **A call gives up, or sends one pipeline after its reads.** -/
theorem resolve_path {h : Hasher} {r : Except StoreErr JobState}
    (hp : (resolveApprovalWatch h jobID p now).Path obs r) :
    GaveUp obs r ∨ ∃ seen w, SentPipeline h p now obs r seen w := by
  unfold resolveApprovalWatch at hp
  split at hp
  · obtain ⟨rfl, rfl⟩ := hp
    exact .inl gaveUp_nil
  rcases path_watchCmd hp with ⟨seen, obs1, rfl, hp1⟩ | ⟨rfl, rfl⟩
  swap
  · exact .inl (gaveUp_nil.cons rfl)
  rcases path_watchCmd hp1 with ⟨m, obs2, rfl, hp2⟩ | ⟨rfl, rfl⟩
  swap
  · exact .inl ((gaveUp_nil.cons rfl).cons rfl)
  rcases path_readCurrent hp2 with ⟨current, reads, obs3, hrd, rfl, hp3⟩ | hgv
  swap
  · exact .inl ((hgv.cons rfl).cons rfl)
  have hgv : ∀ obs' : List WatchObs, GaveUp obs' r →
      GaveUp (⟨.watch, some seen⟩ :: ⟨.hgetAllMeta, some m⟩ :: (reads ++ obs')) r :=
    fun obs' h => ((h.append hrd.allReads).cons rfl).cons rfl
  rcases path_checked hp3 with ⟨record, hrec, hp4⟩ | ⟨e, -, rfl, rfl⟩
  swap
  · exact .inl (hgv _ gaveUp_nil)
  rcases path_watchCmd hp4 with ⟨x, obs5, rfl, hp5⟩ | ⟨rfl, rfl⟩
  swap
  · exact .inl (hgv _ (gaveUp_nil.cons rfl))
  cases x with
  | none =>
    obtain ⟨rfl, rfl⟩ := hp5
    exact .inl (hgv _ (gaveUp_nil.cons rfl))
  | some req =>
    rcases path_checked hp5 with ⟨_, hmt, hp6⟩ | ⟨e, -, rfl, rfl⟩
    swap
    · exact .inl (hgv _ (gaveUp_nil.cons rfl))
    refine .inr ⟨seen, ⟨p, now, m, current, record, req⟩, rfl, rfl, hrec, hmt, reads, ?_⟩
    rcases path_watchCmd hp6 with ⟨committed, obs7, rfl, hp7⟩ | ⟨rfl, rfl⟩
    · cases committed with
      | true =>
        obtain ⟨rfl, rfl⟩ := hp7
        exact ⟨some true, hrd, rfl, rfl⟩
      | false =>
        obtain ⟨rfl, rfl⟩ := hp7
        exact ⟨some false, hrd, rfl, rfl⟩
    · exact ⟨none, hrd, rfl, rfl⟩

end

/-! ## Runs -/

/-- Resolutions, and other writes. -/
inductive ApprovalOp
  | resolve (p : ApprovalResolutionParams) (now : ℤ)
  | other (c : KeyCmd) (h : ∀ p now, c ≠ .resolveApproval p now)

/-- Their programs. -/
def ApprovalOp.prog (cfg : StoreConfig) : ApprovalOp → WatchM (Option JobState)
  | .resolve p now => do return some (← resolveApprovalWatch cfg.hasher cfg.jobID p now)
  | .other c _ => do
    let _ ← Prog.cmd (WatchCmd.key c)
    return none

/-- A command of the log. -/
abbrev WatchEntry := Entry WatchCmd WatchedKeys

/-- A run of such calls. -/
def approvalRun (cfg : StoreConfig) (s : WatchedKeys) (acts : List (Action ApprovalOp)) :
    World ApprovalOp WatchCmd WatchCmd.Reply StoreErr (Option JobState) WatchedKeys :=
  World.run (ApprovalOp.prog cfg) (watched cfg) (World.init s) acts

/-- The entry commits this resolution. -/
structure Commits (e : WatchEntry) (p : ApprovalResolutionParams) (now : ℤ) : Prop where
  ran : e.Ran
  sent : ∃ seen w, e.cmd = .exec seen w ∧ w.params = p ∧ w.now = now ∧
    seen .jobMeta = e.pre.versions .jobMeta ∧
    seen .stateKey = e.pre.versions .stateKey ∧ seen .request = e.pre.versions .request

variable {l₁ l₂ es : List WatchEntry}

section

variable {cfg : StoreConfig} {s : WatchedKeys} {acts : List (Action ApprovalOp)}

theorem exec_last {x : WatchObs} (h : a ++ o :: b = l ++ [x]) (hl : ∀ y ∈ l, y.cmd.isRead)
    (ho : o.cmd.isRead = false) : a = l ∧ o = x ∧ b = [] := by
  rcases eq_nil_or_concat b with rfl | ⟨b', y, rfl⟩
  · obtain ⟨rfl, hox⟩ := append_inj' h rfl
    exact ⟨rfl, singleton_inj.1 hox, rfl⟩
  -- otherwise the pipeline would be among the reads
  have hcat : (a ++ o :: b') ++ [y] = l ++ [x] := by simpa using h
  have hin : a ++ o :: b' = l := (append_inj' hcat rfl).1
  have hno := hl o (hin ▸ mem_append_right _ mem_cons_self)
  rw [ho] at hno
  cases hno

theorem seen_of_exec (hl : (approvalRun cfg s acts).log = l₁ ++ e :: l₂) (hcmd : e.cmd = .exec seen w) :
    ∃ q, (approvalRun cfg s acts).threads[e.tid]? = some (.resolve w.params w.now, q) ∧
      resolvable w.jobMeta w.current = .ok w.record ∧
      requestMatches cfg.hasher w.params w.jobMeta w.request = .ok () ∧
      ∃ reads, CurrentReads w.jobMeta w.current reads ∧ World.seen (watched cfg) e.tid l₁ =
        ⟨.watch, some seen⟩ :: ⟨.hgetAllMeta, some w.jobMeta⟩ ::
        (reads ++ [⟨.getRequest, some (some w.request)⟩]) := by
  have he : e ∈ (approvalRun cfg s acts).log := by rw [hl]; simp
  obtain ⟨op, q, hthr⟩ := thread_of_mem (ApprovalOp.prog cfg) (watched cfg) s acts he
  obtain ⟨rest, r, hpt⟩ := path_of_thread (ApprovalOp.prog cfg) (watched cfg) s acts hthr
  have hsn : World.seen (watched cfg) e.tid (approvalRun cfg s acts).log =
      World.seen (watched cfg) e.tid l₁ ++ e.obs (watched cfg) :: World.seen (watched cfg) e.tid l₂ := by
    rw [hl]
    simp [World.seen]
  have hex : (e.obs (watched cfg)).cmd = .exec seen w := hcmd
  change (op.prog cfg).Path (World.seen (watched cfg) e.tid (approvalRun cfg s acts).log ++ rest) r at hpt
  rw [hsn, append_assoc, cons_append] at hpt
  cases op with
  | other c hc =>
    -- another call sends one command, and it is no pipeline
    obtain ⟨o, t, hobs, hnil, -⟩ := hpt
    rw [hnil] at hobs
    have hmem : e.obs (watched cfg) ∈ [(⟨.key c, o⟩)] := hobs ▸ mem_append_right _ mem_cons_self
    rw [mem_singleton] at hmem
    rw [hmem] at hex
    cases hex
  | resolve p now =>
    have hp : ∃ r', (resolveApprovalWatch cfg.hasher cfg.jobID p now).Path
        (World.seen (watched cfg) e.tid l₁ ++
        e.obs (watched cfg) :: (World.seen (watched cfg) e.tid l₂ ++ rest)) r' := by
      rcases path_bind.1 hpt with ⟨h1, h2, a, hcat, h3, h4⟩ | ⟨e', -, h3⟩
      · obtain ⟨rfl, -⟩ := h4
        rw [hcat, append_nil]
        exact ⟨_, h3⟩
      · exact ⟨_, h3⟩
    obtain ⟨r', hp⟩ := hp
    rcases resolve_path hp with hgv | ⟨seen', w', hse⟩
    · have := hgv.1 (e.obs (watched cfg)) (by simp)
      rw [hex] at this
      cases this
    obtain ⟨hpar, htm, hrec, hmt, reads, reply, hrd, -, hobs⟩ := hse
    have hsp : World.seen (watched cfg) e.tid l₁ ++ e.obs (watched cfg) ::
        (World.seen (watched cfg) e.tid l₂ ++ rest) =
        (⟨.watch, some seen'⟩ :: ⟨.hgetAllMeta, some w'.jobMeta⟩ ::
          (reads ++ [⟨.getRequest, some (some w'.request)⟩])) ++ [⟨.exec seen' w', reply⟩] := by
      rw [hobs]
      simp
    obtain ⟨hbef, hls, -⟩ := exec_last hsp (by
      have hno := hrd.allReads
      simp only [forall_mem_cons, forall_mem_append]
      exact ⟨rfl, rfl, hno, rfl, by simp⟩) (by rw [hex]; rfl)
    rw [hls] at hex
    cases hex
    subst hpar
    subst htm
    exact ⟨q, hthr, hrec, hmt, reads, hrd, hbef⟩

theorem read_current {l : List WatchEntry} (hc : World.Chain (watched cfg) s l t) (obs1 : List WatchObs)
    (hsn : World.seen (watched cfg) i l = ⟨.watch, some v⟩ :: (obs1 ++ o :: obs2)) {key : WatchKey}
    (hv : v key = t.versions key) : ∃ e : WatchEntry, e.obs (watched cfg) = o ∧
      e.pre.keys.value key = t.keys.value key := by
  obtain ⟨l₁, e0, l₂, rfl, -, hwat, -, hrs⟩ := seen_split (a := []) hsn
  obtain ⟨l3, e, l4, rfl, -, ho, -, -⟩ := seen_split hrs
  obtain ⟨-, haft⟩ := chain_split hc
  have hchn : World.Chain (watched cfg) e0.pre ((e0 :: l3) ++ e :: l4) t := ⟨rfl, haft⟩
  have hsrt : e0.pre.versions = v := (obs_some hwat).2.2
  refine ⟨e, ho, watched_versioned.read_at_commit hchn ?_⟩
  rw [hsrt, hv]

/-- **A commit finds what its call had read**, so its checks hold. -/
theorem commit_current (hl : (approvalRun cfg s acts).log = l₁ ++ e :: l₂) (hcom : Commits e p now) :
    ∃ r, resolveApprovalChecks cfg.hasher p e.pre.keys = .ok r ∧
      (e.post (watched cfg)).keys = (resolveApprovalTx cfg.hasher p now e.pre.keys).1 ∧
      (e.post (watched cfg)).events = e.pre.events ++ [(now, p.resultState)] := by
  obtain ⟨hran, seen, w, hcmd, rfl, rfl, hme, hsta, hreq⟩ := hcom
  obtain ⟨q, -, hrec, hmt, reads, hrd, hsn⟩ := seen_of_exec hl hcmd
  have hchn : World.Chain (watched cfg) s l₁ e.pre :=
    (chain_split (hl ▸ run_init_chain (ApprovalOp.prog cfg) (watched cfg) s acts)).1
  -- the three reads, one after the other
  obtain ⟨e1, ho1, hv1⟩ := read_current hchn [] hsn hme
  have hm : w.jobMeta = e.pre.keys.jobMeta := (obs_some ho1).2.2.symm.trans hv1
  obtain ⟨e2, ho2, hv2⟩ :=
    read_current hchn (⟨.hgetAllMeta, some w.jobMeta⟩ :: reads) (by rw [hsn, cons_append]) hreq
  have hq : e.pre.keys.request = some w.request := ((obs_some ho2).2.2.symm.trans hv2).symm
  have hs : e.pre.keys.storedState = some w.current := by
    rcases hrd with ⟨hst, -⟩ | ⟨hst, rfl⟩
    · rw [storedState, ← hm, hst]
      rfl
    obtain ⟨e3, ho3, hv3⟩ := read_current hchn [⟨.hgetAllMeta, some w.jobMeta⟩] hsn hsta
    have hkey : e.pre.keys.stateKey = some w.current := ((obs_some ho3).2.2.symm.trans hv3).symm
    rw [storedState, ← hm, hst, hkey]
    rfl
  rw [hm] at hrec hmt
  have hche := resolveApprovalChecks_of_parts hs hrec hq hmt
  refine ⟨_, hche, ?_, ?_⟩
  · rw [w.write_eq hm hche, post_of_ran hran, hcmd]
    simp only [watched, hme, hsta, hreq, and_self, if_true]
  · rw [post_of_ran hran, hcmd]
    simp only [watched, hme, hsta, hreq, and_self, if_true]

end

/-! ## The property -/

section

variable {h : Hasher} {p : ApprovalResolutionParams} {now : ℤ} {k : JobKeys}
  {r : JobState × ApprovalRecord × JobRequest}

theorem resolveApprovalTx_storedState (hc : resolveApprovalChecks h p k = .ok r) :
    (resolveApprovalTx h p now k).1.storedState = some p.resultState := by
  rw [resolveApprovalTx, hc]
  simp [storedState]

theorem resolveApprovalTx_revision (hc : resolveApprovalChecks h p k = .ok r) :
    k.jobMeta.approval.revision < (resolveApprovalTx h p now k).1.jobMeta.approval.revision := by
  have hpsd := resolveApprovalChecks_ok hc
  have hrev : (resolveApprovalTx h p now k).1.jobMeta.approval.revision =
      if r.2.1.revision + 1 ≤ 1 then 2 else r.2.1.revision + 1 := by
    rw [resolveApprovalTx, hc]
    simp [resolvedRecord]
  have hrec : r.2.1.revision = derivedApprovalRevision k.jobMeta.safetyRecord k.jobMeta.approval := by
    rw [hpsd.record]
    rfl
  rw [hrev, hrec]
  unfold derivedApprovalRevision
  split_ifs <;> omega

end

/-- The job enters `APPROVAL_REQUIRED`, from another state or anew. -/
def Enters (cfg : StoreConfig) (e : WatchEntry) : Prop :=
  (e.post (watched cfg)).keys.storedState = some .approval ∧
    (e.pre.keys.storedState ≠ some .approval ∨ ∃ p now, Commits e p now)

/-- **Resolutions are exclusive and bound to the request.** -/
structure ApprovalExclusive (cfg : StoreConfig) (s : WatchedKeys)
    (acts : List (Action ApprovalOp)) : Prop where
  /-- A call that succeeded committed its pipeline. -/
  succeeded : ∀ i p now st, (approvalRun cfg s acts).threads[i]? =
    some (.resolve p now, Prog.ofResult (.ok st)) →
    ∃ e ∈ (approvalRun cfg s acts).log, e.tid = i ∧ Commits e p now
  /-- A commit takes the job from `APPROVAL_REQUIRED` to the result state. -/
  moves : ∀ e ∈ (approvalRun cfg s acts).log, ∀ p now, Commits e p now →
    e.pre.keys.storedState = some .approval ∧ (e.post (watched cfg)).keys.storedState = some p.resultState
  /-- Between two commits the job enters `APPROVAL_REQUIRED` again. -/
  exclusive : ∀ l₁ e l₂ e' l₃, (approvalRun cfg s acts).log = l₁ ++ e :: (l₂ ++ e' :: l₃) →
    ∀ p now p' now', Commits e p now → Commits e' p' now' → ∃ d ∈ e :: l₂, Enters cfg d
  /-- What is approved is the request that was checked. -/
  bound : ∀ e ∈ (approvalRun cfg s acts).log, ∀ p now, Commits e p now → p.decision = .approve →
    ∃ req, e.pre.keys.request = some req ∧ e.pre.keys.jobMeta.safety.jobHash ≠ "" ∧
      cfg.hasher.hash req = some e.pre.keys.jobMeta.safety.jobHash
  /-- A call that lost or was rejected wrote nothing. -/
  unchanged : ∀ i p now err, (approvalRun cfg s acts).threads[i]? =
    some (.resolve p now, Prog.ofResult (.error err)) → (∀ during, err ≠ .redis during) →
    ∀ e ∈ (approvalRun cfg s acts).log, e.tid = i → e.post (watched cfg) = e.pre
  /-- Every commit counts the revision up. -/
  revision : ∀ e ∈ (approvalRun cfg s acts).log, ∀ p now, Commits e p now →
    e.pre.keys.jobMeta.approval.revision < (e.post (watched cfg)).keys.jobMeta.approval.revision

section

variable {cfg : StoreConfig} {s : WatchedKeys} {acts : List (Action ApprovalOp)}

theorem resolve_finished {r : Except StoreErr (Option JobState)}
    (hi : (approvalRun cfg s acts).threads[i]? = some (.resolve p now, ofResult r)) :
    ∃ r', r = r'.map some ∧
      (resolveApprovalWatch cfg.hasher cfg.jobID p now).Path
        (World.seen (watched cfg) i (approvalRun cfg s acts).log) r' := by
  have hpt := path_of_finished (ApprovalOp.prog cfg) (watched cfg) s acts hi
  rcases path_bind.1 hpt with ⟨h1, h2, a, hcat, h3, h4⟩ | ⟨e, rfl, h3⟩
  · obtain ⟨rfl, rfl⟩ := h4
    rw [append_nil] at hcat
    exact ⟨.ok a, rfl, hcat ▸ h3⟩
  · exact ⟨.error e, rfl, h3⟩

theorem read_post (h : e.cmd.isRead) : e.post (watched cfg) = e.pre := by
  by_cases hran : e.Ran
  · rw [post_of_ran hran, watched_read h]
  · exact post_of_not_ran hran

/-- From a commit on, the job is elsewhere until it enters `APPROVAL_REQUIRED` again. -/
theorem elsewhere (hc : World.Chain (watched cfg) t es u)
    (ht : t.keys.storedState ≠ some .approval) (hno : ∀ d ∈ es, ¬ Enters cfg d) :
    u.keys.storedState ≠ some .approval :=
  World.chain_inv (P := fun x : WatchedKeys => x.keys.storedState ≠ some .approval) hc ht
    fun d hd hpre hpo => hno d hd ⟨hpo, .inl hpre⟩

/-- **An approval is resolved once**, bound to the request that was checked, over any interleaving of
resolutions with any other writes to the job's keys. -/
theorem approval_exclusive (cfg : StoreConfig) (s : WatchedKeys) (acts : List (Action ApprovalOp)) :
    ApprovalExclusive cfg s acts where
  succeeded i p now st hi := by
    obtain ⟨r', hr, hpt⟩ := resolve_finished hi
    rcases resolve_path hpt with ⟨-, e, rfl⟩ | ⟨seen, w, hse⟩
    · cases hr
    obtain ⟨rfl, rfl, -, -, reads, reply, -, rfl, hobs⟩ := hse
    obtain rfl : reply = some true := by
      cases reply with
      | none => cases hr
      | some b =>
        cases b with
        | true => rfl
        | false => cases hr
    have hmem : (⟨.exec seen w, some true⟩) ∈ World.seen (watched cfg) i (approvalRun cfg s acts).log := by
      rw [hobs]
      simp
    obtain ⟨e, he, htid, ho⟩ := (mem_seen _).1 hmem
    obtain ⟨hran, hcmd, hrep⟩ := obs_some ho
    simp only [watched] at hrep
    split_ifs at hrep with hsn
    exact ⟨e, he, htid, hran, seen, w, hcmd, rfl, rfl, hsn⟩
  moves e he p now hcom := by
    obtain ⟨l₁, l₂, hl⟩ := append_of_mem he
    obtain ⟨r, hche, hpo, -⟩ := commit_current hl hcom
    have hpsd := resolveApprovalChecks_ok hche
    rw [hpo, resolveApprovalTx_storedState hche, hpsd.stored, hpsd.awaiting]
    exact ⟨rfl, rfl⟩
  exclusive l₁ e l₂ e' l₃ hl p now p' now' hcom hcom' := by
    by_contra hno
    push Not at hno
    have hl' : (approvalRun cfg s acts).log = (l₁ ++ e :: l₂) ++ e' :: l₃ := by
      rw [hl, append_assoc, cons_append]
    obtain ⟨r', hche', -, -⟩ := commit_current hl' hcom'
    have hlf : (e.post (watched cfg)).keys.storedState ≠ some .approval := fun happ =>
      hno e (by simp) ⟨happ, .inr ⟨p, now, hcom⟩⟩
    have hchn := (chain_split (chain_split
      (hl ▸ run_init_chain (ApprovalOp.prog cfg) (watched cfg) s acts)).2).1
    have hpsd := resolveApprovalChecks_ok hche'
    have hsto := hpsd.stored
    rw [hpsd.awaiting] at hsto
    exact elsewhere hchn hlf (fun d hd => hno d (by simp [hd])) hsto
  bound e he p now hcom hap := by
    obtain ⟨l₁, l₂, hl⟩ := append_of_mem he
    obtain ⟨r, hche, -, -⟩ := commit_current hl hcom
    have hpsd := resolveApprovalChecks_ok hche
    exact ⟨r.2.2, hpsd.request, hpsd.hash hap⟩
  unchanged i p now err hi herr e he htid := by
    obtain ⟨r', hr, hpt⟩ := resolve_finished hi
    have hmem : e.obs (watched cfg) ∈ seen (watched cfg) i (approvalRun cfg s acts).log :=
      (mem_seen _).2 ⟨e, he, htid, rfl⟩
    rcases resolve_path hpt with ⟨hrd, -⟩ | ⟨seen, w, hse⟩
    · exact read_post (hrd _ hmem)
    obtain ⟨-, -, -, -, reads, reply, hrd, rfl, hobs⟩ := hse
    obtain rfl : reply = some false := by
      cases reply with
      | none =>
        cases hr
        exact absurd rfl (herr _)
      | some b =>
        cases b with
        | true => cases hr
        | false => rfl
    rw [hobs] at hmem
    simp only [mem_cons, mem_append, not_mem_nil, or_false] at hmem
    rcases hmem with ho | ho | ho | ho | ho
    · exact read_post (congrArg (fun o : WatchObs => o.cmd.isRead) ho)
    · exact read_post (congrArg (fun o : WatchObs => o.cmd.isRead) ho)
    · exact read_post (hrd.allReads _ ho)
    · exact read_post (congrArg (fun o : WatchObs => o.cmd.isRead) ho)
    · obtain ⟨hran, hcmd, hrep⟩ := obs_some ho
      rw [post_of_ran hran, hcmd]
      simp only [watched] at hrep ⊢
      split_ifs at hrep ⊢
      rfl
  revision e he p now hcom := by
    obtain ⟨l₁, l₂, hl⟩ := append_of_mem he
    obtain ⟨r, hche, hpo, -⟩ := commit_current hl hcom
    rw [hpo]
    exact resolveApprovalTx_revision hche

end

end Cordum
