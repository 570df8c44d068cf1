import Mathlib.Data.List.Induction
import Cordum.Conc.Prog

/-!
# Interleavings

Any number of calls run against one service, a command at a time. A `World` is the service's
state, the calls with what is left of their programs, and the log of the commands sent. An action
starts a call or lets one send its next command under some fault, so a list of actions is an
interleaving with arbitrary delays, losses and retries.
-/

namespace Conc

open List Prog

variable {Op C E α S : Type} {R : C → Type} {n m i : ℕ}

/-- What happened in a history happened before its last step, or there. -/
theorem exists_split_snoc {β : Type} {P : List β → β → Prop} {cs : List β} {c : β} :
    (∃ b1 d b2, cs ++ [c] = b1 ++ d :: b2 ∧ P b1 d) ↔
      (∃ b1 d b2, cs = b1 ++ d :: b2 ∧ P b1 d) ∨ P cs c := by
  constructor
  · rintro ⟨b1, d, b2, h, hp⟩
    rcases eq_nil_or_concat b2 with rfl | ⟨b2, x, rfl⟩
    · obtain ⟨rfl, h'⟩ := append_inj' h rfl
      cases h'
      exact .inr hp
    · rw [concat_eq_append, ← cons_append, ← append_assoc] at h
      exact .inl ⟨b1, d, b2, (append_inj' h rfl).1, hp⟩
  · rintro (⟨b1, d, b2, rfl, hp⟩ | hp)
    · exact ⟨b1, d, b2 ++ [c], by simp, hp⟩
    · exact ⟨cs, c, [], rfl, hp⟩

/-! ## Paths of a program -/

/-- A command and what its sender saw of it. -/
structure Obs (C : Type) (R : C → Type) where
  cmd : C
  reply : Option (R cmd)

variable {c : C} {h b hist a : List (Obs C R)} {r : Except E α} {o : Obs C R} {s : S}

namespace Prog

variable {β : Type} {p : Prog C R E α} {f : α → Prog C R E β}

/-- `p.Path h r`: `p` can see `h`, command by command, and end with `r`. -/
def Path : Prog C R E α → List (Obs C R) → Except E α → Prop
  | ret a, h, r => h = [] ∧ r = .ok a
  | fail e, h, r => h = [] ∧ r = .error e
  | call c k, h, r => ∃ o t, h = ⟨c, o⟩ :: t ∧ (k o).Path t r

/-- The program that is over, with `r`. -/
def ofResult : Except E α → Prog C R E α
  | .ok a => ret a
  | .error e => fail e

/-- The program has no more commands. -/
def ended : Prog C R E α → Bool
  | ret _ | fail _ => true
  | call _ _ => false

theorem ended_iff : p.ended ↔ ∃ r, p = ofResult r := by
  constructor
  · intro h
    cases p with
    | ret a => exact ⟨.ok a, rfl⟩
    | fail e => exact ⟨.error e, rfl⟩
    | call c k => cases h
  · rintro ⟨r, rfl⟩
    cases r <;> rfl

theorem path_ofResult : (ofResult r : Prog C R E α).Path [] r := by
  cases r <;> exact ⟨rfl, rfl⟩

@[simp] theorem run_ofResult {sem : Sem C R S} {fs : List Fault} :
    (ofResult r : Prog C R E α).run sem fs s = ⟨r, fs, s⟩ := by
  cases r <;> rfl

theorem exists_path : ∃ h r, p.Path h r := by
  induction p with
  | ret a => exact ⟨[], .ok a, rfl, rfl⟩
  | fail e => exact ⟨[], .error e, rfl, rfl⟩
  | call c k ih =>
    obtain ⟨h, r, hp⟩ := ih none
    exact ⟨_, r, none, h, rfl, hp⟩

/-- A path of a sequence is one of the first program and then one of the second, or an error of the
first. -/
theorem path_bind {r : Except E β} : (p.bind f).Path h r ↔
    (∃ h₁ h₂ a, h = h₁ ++ h₂ ∧ p.Path h₁ (.ok a) ∧ (f a).Path h₂ r) ∨
      (∃ e, r = .error e ∧ p.Path h (.error e)) := by
  induction p generalizing h with
  | ret a =>
    constructor
    · intro hp; exact .inl ⟨[], h, a, rfl, ⟨rfl, rfl⟩, hp⟩
    · rintro (⟨h₁, h₂, b, rfl, ⟨rfl, hb⟩, hp⟩ | ⟨e, -, -, he⟩)
      · cases hb; exact hp
      · cases he
  | fail e =>
    constructor
    · rintro ⟨rfl, rfl⟩; exact .inr ⟨e, rfl, rfl, rfl⟩
    · rintro (⟨h₁, h₂, b, rfl, ⟨rfl, hb⟩, hp⟩ | ⟨e', rfl, rfl, he⟩)
      · cases hb
      · cases he; exact ⟨rfl, rfl⟩
  | call c k ih =>
    constructor
    · rintro ⟨o, t, rfl, hp⟩
      rcases (ih o).1 hp with ⟨h₁, h₂, a, rfl, h1, h2⟩ | ⟨e, rfl, he⟩
      · exact .inl ⟨⟨c, o⟩ :: h₁, h₂, a, rfl, ⟨o, h₁, rfl, h1⟩, h2⟩
      · exact .inr ⟨e, rfl, o, t, rfl, he⟩
    · rintro (⟨h₁, h₂, a, rfl, ⟨o, t, rfl, h1⟩, h2⟩ | ⟨e, rfl, o, t, rfl, he⟩)
      · exact ⟨o, t ++ h₂, rfl, (ih o).2 (.inl ⟨t, h₂, a, rfl, h1, h2⟩)⟩
      · exact ⟨o, t, rfl, (ih o).2 (.inr ⟨e, rfl, he⟩)⟩

theorem path_exec {e : E} {r : Except E (R c)} : (exec c e : Prog C R E (R c)).Path h r ↔
      (∃ x, h = [⟨c, some x⟩] ∧ r = .ok x) ∨ (h = [⟨c, none⟩] ∧ r = .error e) := by
  constructor
  · rintro ⟨o, t, rfl, hp⟩
    cases o with
    | none => obtain ⟨rfl, rfl⟩ := hp; exact .inr ⟨rfl, rfl⟩
    | some x => obtain ⟨rfl, rfl⟩ := hp; exact .inl ⟨x, rfl, rfl⟩
  · rintro (⟨x, rfl, rfl⟩ | ⟨rfl, rfl⟩)
    · exact ⟨some x, [], rfl, rfl, rfl⟩
    · exact ⟨none, [], rfl, rfl, rfl⟩

theorem path_resend {e : E} {n : ℕ} {r : Except E (R c)}
    (hp : (resend c e n : Prog C R E (R c)).Path h r) :
    ∃ k, (∃ x, h = replicate k ⟨c, none⟩ ++ [⟨c, some x⟩] ∧ r = .ok x) ∨
      (h = replicate k ⟨c, none⟩ ∧ r = .error e) := by
  induction n generalizing h with
  | zero =>
    rcases path_exec.1 hp with ⟨x, rfl, hr⟩ | ⟨rfl, hr⟩
    · exact ⟨0, .inl ⟨x, rfl, hr⟩⟩
    · exact ⟨1, .inr ⟨rfl, hr⟩⟩
  | succ n ih =>
    obtain ⟨o, t, rfl, hp⟩ := hp
    cases o with
    | some x =>
      obtain ⟨rfl, rfl⟩ := hp
      exact ⟨0, .inl ⟨x, rfl, rfl⟩⟩
    | none =>
      obtain ⟨k, ⟨x, rfl, hr⟩ | ⟨rfl, hr⟩⟩ := ih hp
      · exact ⟨k + 1, .inl ⟨x, rfl, hr⟩⟩
      · exact ⟨k + 1, .inr ⟨rfl, hr⟩⟩

/-- `p` sends commands in `guar` and ends in `post`, if its replies are in `rely`. -/
def Guar (rely : (c : C) → R c → Prop) (guar : C → Prop) (post : α → Prop) : Prog C R E α → Prop
  | ret a => post a
  | fail _ => True
  | call c k => guar c ∧ (k none).Guar rely guar post ∧ ∀ r, rely c r → (k (some r)).Guar rely guar post

variable {rely rely' : (c : C) → R c → Prop} {guar guar' : C → Prop} {post mid post' : α → Prop}

@[simp] theorem guar_fail {e : E} : (fail e : Prog C R E α).Guar rely guar post ↔ True := Iff.rfl

theorem guar_bind {post : β → Prop} (hp : p.Guar rely guar mid)
    (hf : ∀ a, mid a → (f a).Guar rely guar post) :
    (p >>= f).Guar rely guar post := by
  induction p with
  | ret a => exact hf a hp
  | fail e => trivial
  | call c k ih => exact ⟨hp.1, ih none hp.2.1, fun r hr => ih (some r) (hp.2.2 r hr)⟩

theorem guar_seq {post : β → Prop} (hp : p.Guar rely guar fun _ => True)
    (hf : ∀ a, (f a).Guar rely guar post) :
    (p >>= f).Guar rely guar post := guar_bind hp fun a _ => hf a

theorem guar_when {b : Prop} [Decidable b] {p : Prog C R E Unit} (hp : p.Guar rely guar fun _ => True) :
    (when b p).Guar rely guar fun _ => True := by
  unfold when
  split
  · exact hp
  · exact trivial

theorem guar_exec {e : E} (hc : guar c) : (exec c e : Prog C R E (R c)).Guar rely guar (rely c) :=
  ⟨hc, trivial, fun _ hr => hr⟩

theorem guar_resend {e : E} {n : ℕ} (hc : guar c) :
    (resend c e n : Prog C R E (R c)).Guar rely guar (rely c) := by
  induction n with
  | zero => exact guar_exec hc
  | succ n ih => exact ⟨hc, ih, fun _ hr => hr⟩

theorem guar_cmd {post : Option (R c) → Prop} (hc : guar c) (hn : post none)
    (hs : ∀ r, rely c r → post (some r)) : (cmd c : Prog C R E (Option (R c))).Guar rely guar post :=
  ⟨hc, hn, hs⟩

theorem guar_mono (hp : p.Guar rely guar post) (h : ∀ a, post a → post' a) : p.Guar rely guar post' := by
  induction p with
  | ret a => exact h a hp
  | fail e => trivial
  | call c k ih => exact ⟨hp.1, ih none hp.2.1, fun r hr => ih (some r) (hp.2.2 r hr)⟩

theorem guar_of_forall (h : ∀ c, guar c) : p.Guar rely guar fun _ => True := by
  induction p with
  | ret a | fail e => trivial
  | call c k ih => exact ⟨h c, ih none, fun r _ => ih (some r)⟩

theorem guar_weaken (hp : p.Guar rely guar post) (hr : ∀ c r, rely' c r → rely c r)
    (hg : ∀ c, guar c → guar' c) :
    p.Guar rely' guar' post := by
  induction p with
  | ret a => exact hp
  | fail e => trivial
  | call c k ih => exact ⟨hg c hp.1, ih none hp.2.1, fun r h => ih (some r) (hp.2.2 r (hr c r h))⟩

theorem guar_mapErr {E' : Type} {f : E → E'} (hp : p.Guar rely guar post) :
    (p.mapErr f).Guar rely guar post := by
  induction p with
  | ret a => exact hp
  | fail e => trivial
  | call c k ih => exact ⟨hp.1, ih none hp.2.1, fun r h => ih (some r) (hp.2.2 r h)⟩

theorem guar_attempt {E' : Type} (hp : p.Guar rely guar post) :
    (p.attempt : Prog C R E' (Except E α)).Guar rely guar fun r => ∀ a, r = .ok a → post a := by
  induction p with
  | ret a => rintro _ ⟨⟩; exact hp
  | fail e => exact nofun
  | call c k ih => exact ⟨hp.1, ih none hp.2.1, fun r h => ih (some r) (hp.2.2 r h)⟩

theorem guar_inl {D : Type} {Q : D → Type} {rely' : (c : C ⊕ D) → Sum.elim R Q c → Prop}
    {guar' : C ⊕ D → Prop} (hp : p.Guar rely guar post) (hr : ∀ c r, rely' (.inl c) r → rely c r)
    (hg : ∀ c, guar c → guar' (.inl c)) :
    (p.inl : Prog (C ⊕ D) (Sum.elim R Q) E α).Guar rely' guar' post := by
  induction p with
  | ret a => exact hp
  | fail e => trivial
  | call c k ih => exact ⟨hg c hp.1, ih none hp.2.1, fun r h => ih (some r) (hp.2.2 r (hr c r h))⟩

theorem wp_of_guar {sem : Sem C R S} {I : S → Prop}
    (hsem : ∀ c s, I s → guar c → I (sem c s).1 ∧ rely c (sem c s).2)
    (h : p.Guar rely guar post) (hs : I s) :
    p.wp sem (fun r s' => I s' ∧ ∀ a, r = .ok a → post a) s := by
  induction p generalizing s with
  | ret a => exact ⟨hs, fun _ h' => by cases h'; exact h⟩
  | fail e => exact ⟨hs, nofun⟩
  | call c k ih =>
    obtain ⟨hc, hno, hso⟩ := h
    obtain ⟨hI, hr⟩ := hsem c s hs hc
    exact wp_call.2 ⟨ih _ hno hs, ih _ hno hI, ih _ (hso _ hr) hI⟩

variable {P : List (Obs C R) → C → Prop}

end Prog

/-! ## Worlds -/

/-- One command of the log: who sent it, the state it met, and its fault. -/
structure Entry (C S : Type) where
  tid : ℕ
  pre : S
  cmd : C
  fault : Fault

namespace Entry

variable (sem : Sem C R S) (e : Entry C S)

/-- The state the command left. -/
def post : S := (sem.deliver e.fault e.cmd e.pre).1

/-- What its sender saw. -/
def obs : Obs C R := ⟨e.cmd, (sem.deliver e.fault e.cmd e.pre).2⟩

/-- The service ran the command. -/
def Ran : Prop := e.fault ≠ .lost

instance : Decidable e.Ran := inferInstanceAs (Decidable (e.fault ≠ .lost))

variable {sem e}

theorem post_of_ran (h : e.Ran) : e.post sem = (sem e.cmd e.pre).1 := by
  unfold post
  cases hf : e.fault with
  | none => rfl
  | lost => exact absurd hf h
  | late => rfl

theorem post_of_not_ran (h : ¬ e.Ran) : e.post sem = e.pre := by
  have hf : e.fault = .lost := not_not.1 h
  simp [post, hf]

end Entry

/-- The service, the calls with what is left of them, and the log. -/
structure World (Op C : Type) (R : C → Type) (E α S : Type) where
  st : S
  threads : List (Op × Prog C R E α)
  log : List (Entry C S)

/-- Start a call, or let call `tid` send its next command. -/
inductive Action (Op : Type)
  | spawn (op : Op)
  | sched (tid : ℕ) (f : Fault)

namespace World

/-- No calls yet. -/
def init (s : S) : World Op C R E α S := ⟨s, [], []⟩

variable (prog : Op → Prog C R E α) (sem : Sem C R S) (w : World Op C R E α S)

/-- What an action does to the world. -/
def step : Action Op → World Op C R E α S
  | .spawn op => { w with threads := w.threads ++ [(op, prog op)] }
  | .sched i f =>
    match w.threads[i]? with
    | some (op, .call c k) =>
      { st := (sem.deliver f c w.st).1
        threads := w.threads.set i (op, k (sem.deliver f c w.st).2)
        log := w.log ++ [⟨i, w.st, c, f⟩] }
    | _ => w

/-- The world after actions. -/
def run (acts : List (Action Op)) : World Op C R E α S := acts.foldl (step prog sem) w

/-- The world after the first `n` actions. -/
def wAt (acts : List (Action Op)) (n : ℕ) : World Op C R E α S :=
  run prog sem w (acts.take n)

theorem step_cases (a : Action Op) :
    (∃ op, a = .spawn op ∧ step prog sem w a = { w with threads := w.threads ++ [(op, prog op)] }) ∨
    (∃ i f op c k, a = .sched i f ∧ w.threads[i]? = some (op, .call c k) ∧
      step prog sem w a =
        { st := (sem.deliver f c w.st).1
          threads := w.threads.set i (op, k (sem.deliver f c w.st).2)
          log := w.log ++ [⟨i, w.st, c, f⟩] }) ∨
    (∃ i f, a = .sched i f ∧ step prog sem w a = w) := by
  cases a with
  | spawn op => exact .inl ⟨op, rfl, rfl⟩
  | sched i f =>
    right
    cases ht : w.threads[i]? with
    | none => exact .inr ⟨i, f, rfl, by simp [step, ht]⟩
    | some t =>
      obtain ⟨op, p⟩ := t
      cases p with
      | ret a | fail e => exact .inr ⟨i, f, rfl, by simp [step, ht]⟩
      | call c k => exact .inl ⟨i, f, op, c, k, rfl, ht, by simp [step, ht]⟩

theorem run_nil : run prog sem w [] = w := rfl

theorem run_cons {a : Action Op} {as : List (Action Op)} :
    run prog sem w (a :: as) = run prog sem (step prog sem w a) as := rfl

theorem run_append (as bs : List (Action Op)) :
    run prog sem w (as ++ bs) = run prog sem (run prog sem w as) bs := List.foldl_append

/-! ## The log -/

/-- The commands `es` lead from `s` to `t`. -/
def Chain : S → List (Entry C S) → S → Prop
  | s, [], t => s = t
  | s, e :: es, t => e.pre = s ∧ Chain (e.post sem) es t

variable {es fs l1 l2 log : List (Entry C S)} {ρ : S → S → Prop} {e : Entry C S}

section

variable {sem} {t u : S}

theorem chain_append (h1 : Chain sem s es t) (h2 : Chain sem t fs u) : Chain sem s (es ++ fs) u := by
  induction es generalizing s with
  | nil => cases h1; exact h2
  | cons e es ih => exact ⟨h1.1, ih h1.2⟩

theorem chain_split (h : Chain sem s (es ++ e :: fs) t) :
    Chain sem s es e.pre ∧ Chain sem (e.post sem) fs t := by
  induction es generalizing s with
  | nil => exact ⟨h.1.symm, h.2⟩
  | cons d es ih => exact ⟨⟨h.1, (ih h.2).1⟩, (ih h.2).2⟩

/-- A reflexive and transitive relation that every command respects holds throughout. -/
theorem chain_rel (hr : ∀ s, ρ s s) (ht : ∀ s t u, ρ s t → ρ t u → ρ s u) (h : Chain sem s es t)
    (he : ∀ e ∈ es, ρ e.pre (e.post sem)) : ρ s t := by
  induction es generalizing s with
  | nil => cases h; exact hr _
  | cons e es ih =>
    have h1 : ρ e.pre (e.post sem) := he e (by simp)
    rw [h.1] at h1
    exact ht _ _ _ h1 (ih h.2 fun d hd => he d (by simp [hd]))

theorem chain_inv {P : S → Prop} (h : Chain sem s es t) (hs : P s)
    (he : ∀ e ∈ es, P e.pre → P (e.post sem)) : P t :=
  chain_rel (ρ := fun s t => P s → P t) (fun _ h => h) (fun _ _ _ h1 h2 h => h2 (h1 h)) h he hs

end

theorem step_chain (a : Action Op) : ∃ es, (step prog sem w a).log = w.log ++ es ∧
    Chain sem w.st es (step prog sem w a).st := by
  rcases step_cases prog sem w a with
    ⟨op, -, h⟩ | ⟨i, f, op, c, k, -, -, h⟩ | ⟨i, f, -, h⟩
  · exact ⟨[], by rw [h]; simp, by rw [h]; rfl⟩
  · exact ⟨[⟨i, w.st, c, f⟩], by rw [h], by rw [h]; exact ⟨rfl, rfl⟩⟩
  · exact ⟨[], by rw [h]; simp, by rw [h]; rfl⟩

/-- **Every interleaving is a sequence of commands** from its first state to its last. -/
theorem run_chain (acts : List (Action Op)) :
    ∃ es, (run prog sem w acts).log = w.log ++ es ∧ Chain sem w.st es (run prog sem w acts).st := by
  induction acts generalizing w with
  | nil => exact ⟨[], by simp [run_nil], rfl⟩
  | cons a as ih =>
    obtain ⟨es, hl, hc⟩ := step_chain prog sem w a
    obtain ⟨fs, hl', hc'⟩ := ih (step prog sem w a)
    exact ⟨es ++ fs, by rw [run_cons, hl', hl, append_assoc], chain_append hc hc'⟩

section

variable (s : S) (acts : List (Action Op))

theorem run_init_chain : Chain sem s (run prog sem (init s) acts).log (run prog sem (init s) acts).st := by
  obtain ⟨es, hl, hc⟩ := run_chain prog sem (init s) acts
  rw [hl]; exact hc

theorem wAt_chain (hnm : n ≤ m) : ∃ es, (∀ e ∈ es, e ∈ (run prog sem (init s) acts).log) ∧
      Chain sem (wAt prog sem (init s) acts n).st es (wAt prog sem (init s) acts m).st := by
  have hm : acts.take m = acts.take n ++ (acts.take m).drop n := by
    conv_lhs => rw [← take_append_drop n (acts.take m)]
    rw [take_take, Nat.min_eq_left hnm]
  obtain ⟨es, hl, hc⟩ := run_chain prog sem (wAt prog sem (init s) acts n) ((acts.take m).drop n)
  obtain ⟨fs, hl', -⟩ := run_chain prog sem (wAt prog sem (init s) acts m) (acts.drop m)
  have hw : wAt prog sem (init s) acts m = run prog sem (wAt prog sem (init s) acts n)
      ((acts.take m).drop n) := by
    simp only [wAt]; rw [← run_append, ← hm]
  have hlog : (run prog sem (init s) acts).log = (wAt prog sem (init s) acts m).log ++ fs := by
    rw [← hl', wAt, ← run_append, take_append_drop]
  refine ⟨es, fun e he => ?_, by rw [hw]; exact hc⟩
  rw [hlog, hw, hl]
  simp [he]

theorem exists_wAt_of_mem (he : e ∈ (run prog sem (init s) acts).log) :
    ∃ n < acts.length, (wAt prog sem (init s) acts n).st = e.pre ∧
      (wAt prog sem (init s) acts (n + 1)).st = e.post sem := by
  induction acts using reverseRecOn with
  | nil => simp [run_nil, init] at he
  | append_singleton as a ih =>
    rw [run_append, run_cons] at he
    have hlt : ∀ n, n ≤ as.length → wAt prog sem (init s) (as ++ [a]) n = wAt prog sem (init s) as n := by
      intro n hn; simp only [wAt]; rw [take_append_of_le_length hn]
    have hls : wAt prog sem (init s) (as ++ [a]) (as.length + 1) =
        step prog sem (run prog sem (init s) as) a := by
      rw [wAt, take_of_length_le (by simp), run_append]
      rfl
    by_cases hold : e ∈ (run prog sem (init s) as).log
    · obtain ⟨n, hn, h1, h2⟩ := ih hold
      refine ⟨n, by simp; omega, ?_, ?_⟩
      · rw [hlt n (by omega)]; exact h1
      · rw [hlt (n + 1) (by omega)]; exact h2
    · rcases step_cases prog sem (run prog sem (init s) as) a with
        ⟨op, -, h⟩ | ⟨i, f, op, c, k, -, -, h⟩ | ⟨i, f, -, h⟩
      · rw [h] at he; exact absurd he hold
      · rw [h] at he
        rcases mem_append.1 he with he | he
        · exact absurd he hold
        · rw [mem_singleton] at he
          subst he
          exact ⟨as.length, by simp, by rw [hlt _ (Nat.le_refl _), wAt, take_length], by rw [hls, h]; rfl⟩
      · rw [h] at he; exact absurd he hold

end

/-- **A relation along a run is a relation of its commands**: a reflexive and transitive `ρ` holds
between any two moments exactly when each command respects it. -/
theorem rel_wAt_iff (hr : ∀ s, ρ s s) (ht : ∀ s t u, ρ s t → ρ t u → ρ s u) (s : S)
    (acts : List (Action Op)) :
    (∀ n m, n ≤ m → ρ (wAt prog sem (init s) acts n).st (wAt prog sem (init s) acts m).st) ↔
      ∀ e ∈ (run prog sem (init s) acts).log, ρ e.pre (e.post sem) := by
  constructor
  · intro h e he
    obtain ⟨n, -, h1, h2⟩ := exists_wAt_of_mem prog sem s acts he
    have := h n (n + 1) (Nat.le_succ n)
    rwa [h1, h2] at this
  · intro h n m hnm
    obtain ⟨es, hes, hc⟩ := wAt_chain prog sem s acts hnm
    exact chain_rel hr ht hc fun e he => h e (hes e he)

/-! ## Invariants with guarantees -/

section

variable {I : S → Prop} {L : (c : C) → R c → Prop} {G : Op → C → Prop} {ok : Op → Prop}

/-- The invariant holds, every call still keeps its guarantee, and so did every command sent. -/
structure Guarded (I : S → Prop) (L : (c : C) → R c → Prop) (G : Op → C → Prop) (ok : Op → Prop)
    (w : World Op C R E α S) : Prop where
  inv : I w.st
  threads : ∀ t ∈ w.threads, ok t.1 ∧ t.2.Guar L (G t.1) fun _ => True
  log : ∀ e ∈ w.log, I e.pre ∧ ∃ op p, w.threads[e.tid]? = some (op, p) ∧ G op e.cmd

/-- The calls a run makes are among those of `ok`. -/
def SpawnsOnly (ok : Op → Prop) (acts : List (Action Op)) : Prop := ∀ op, .spawn op ∈ acts → ok op

theorem step_guarded (hsem : ∀ op c s, ok op → I s → G op c → I (sem c s).1 ∧ L c (sem c s).2)
    {w : World Op C R E α S} (hw : Guarded I L G ok w) {a : Action Op}
    (ha : ∀ op, a = .spawn op → ok op ∧ (prog op).Guar L (G op) fun _ => True) :
    Guarded I L G ok (step prog sem w a) := by
  rcases step_cases prog sem w a with ⟨op, rfl, h⟩ | ⟨i, f, op, c, k, -, hi, h⟩ | ⟨i, f, -, h⟩
  · rw [h]
    refine ⟨hw.inv, fun t ht => ?_, fun e he => ?_⟩
    · rcases mem_append.1 ht with ht | ht
      · exact hw.threads t ht
      · rw [mem_singleton] at ht; subst ht; exact ha op rfl
    · obtain ⟨hpre, op', p, hp, hg⟩ := hw.log e he
      have hlt := (List.getElem?_eq_some_iff.1 hp).1
      exact ⟨hpre, op', p, by rw [getElem?_append_left hlt]; exact hp, hg⟩
  · rw [h]
    have hlen := (List.getElem?_eq_some_iff.1 hi).1
    obtain ⟨hok, hc, hno, hso⟩ := hw.threads _ (mem_of_getElem? hi)
    obtain ⟨hinv, hL⟩ := hsem op c w.st hok hw.inv hc
    have hdel : I (sem.deliver f c w.st).1 := by
      rcases sem.deliver_cases f c w.st with ⟨h1, -⟩ | ⟨h1, -⟩
      · rw [h1]; exact hw.inv
      · rw [h1]; exact hinv
    have hk : (k (sem.deliver f c w.st).2).Guar L (G op) fun _ => True := by
      cases hr : (sem.deliver f c w.st).2 with
      | none => exact hno
      | some r => rw [(sem.deliver_some hr).2]; exact hso _ hL
    refine ⟨hdel, fun t ht => ?_, fun e he => ?_⟩
    · rcases mem_or_eq_of_mem_set ht with ht | rfl
      · exact hw.threads t ht
      · exact ⟨hok, hk⟩
    · rcases mem_append.1 he with he | he
      · obtain ⟨hpre, op', p, hp, hg⟩ := hw.log e he
        by_cases hei : i = e.tid
        · -- the call that just moved sent this one earlier
          subst hei
          cases hi.symm.trans hp
          exact ⟨hpre, op, _, getElem?_set_self hlen, hg⟩
        · exact ⟨hpre, op', p, by rw [getElem?_set_ne hei]; exact hp, hg⟩
      · rw [mem_singleton] at he; subst he
        exact ⟨hw.inv, op, _, getElem?_set_self hlen, hc⟩
  · rw [h]; exact hw

/-- **The invariant rule**: calls that keep their guarantee keep the invariant, in every interleaving. -/
theorem run_guarded (hsem : ∀ op c s, ok op → I s → G op c → I (sem c s).1 ∧ L c (sem c s).2)
    (hpr : ∀ op, ok op → (prog op).Guar L (G op) fun _ => True) (hs : I s)
    {acts : List (Action Op)} (hac : SpawnsOnly ok acts) :
    Guarded I L G ok (run prog sem (init s) acts) := by
  refine foldlRecOn acts _ ⟨hs, by simp [init], by simp [init]⟩ fun w hw a ha => ?_
  refine step_guarded prog sem hsem hw fun op h => ?_
  have hop : ok op := hac op (h ▸ ha)
  exact ⟨hop, hpr op hop⟩

end

/-! ## What a call saw -/

/-- The commands of call `i`, as it saw them. -/
def seen (i : ℕ) (log : List (Entry C S)) : List (Obs C R) := (log.filter (·.tid = i)).map (Entry.obs sem)

/-- What is left of a call continues what it saw to a path of its program. -/
structure Faithful (w : World Op C R E α S) : Prop where
  tid : ∀ e ∈ w.log, e.tid < w.threads.length
  path : ∀ i op p, w.threads[i]? = some (op, p) → ∀ h r, p.Path h r →
    (prog op).Path (seen sem i w.log ++ h) r

theorem step_faithful {w : World Op C R E α S} (hw : Faithful prog sem w) (a : Action Op) :
    Faithful prog sem (step prog sem w a) := by
  rcases step_cases prog sem w a with ⟨op, -, h⟩ | ⟨i, f, op, c, k, -, hi, h⟩ | ⟨i, f, -, h⟩
  · rw [h]
    refine ⟨fun e he => ?_, fun i op' p hp h r hpt => ?_⟩
    · have := hw.tid e he
      simp only [length_append]; omega
    · rw [getElem?_append] at hp
      split at hp
      · exact hw.path i op' p hp h r hpt
      -- the new call has seen nothing: no logged command has its number
      rename_i hlt
      rw [getElem?_singleton] at hp
      split at hp
      · cases hp
        have hno : seen sem i w.log = [] := by
          unfold seen
          rw [filter_eq_nil_iff.2, map_nil]
          intro e he
          have := hw.tid e he
          simp only [decide_eq_true_eq]; omega
        rw [hno]; exact hpt
      · cases hp
  · rw [h]
    have hlen : i < w.threads.length := (List.getElem?_eq_some_iff.1 hi).1
    refine ⟨fun e he => ?_, fun j op' p hp h r hpt => ?_⟩
    · rw [length_set]
      rcases mem_append.1 he with he | he
      · exact hw.tid e he
      · rw [mem_singleton] at he; subst he; exact hlen
    · have hsn : seen sem j (w.log ++ [⟨i, w.st, c, f⟩]) =
          seen sem j w.log ++ if i = j then [⟨c, (sem.deliver f c w.st).2⟩] else [] := by
        unfold seen
        by_cases hij : i = j
        · simp [hij, Entry.obs]
        · simp [hij]
      rw [hsn]
      by_cases hij : i = j
      · subst hij
        rw [getElem?_set_self hlen] at hp
        cases hp
        rw [if_pos rfl, append_assoc]
        exact hw.path i op _ hi _ r ⟨_, h, rfl, hpt⟩
      · rw [getElem?_set_ne hij] at hp
        rw [if_neg hij, append_nil]
        exact hw.path j op' p hp h r hpt
  · rw [h]; exact hw

section

variable (s : S) (acts : List (Action Op))

theorem run_faithful : Faithful prog sem (run prog sem (init s) acts) :=
  foldlRecOn acts _ ⟨by simp [init], by simp [init]⟩ fun _ hw a _ =>
    step_faithful prog sem hw a

variable {op : Op}

/-- **A finished call saw a path of its program.** -/
theorem path_of_finished (h : (run prog sem (init s) acts).threads[i]? = some (op, ofResult r)) :
    (prog op).Path (seen sem i (run prog sem (init s) acts).log) r := by
  have := (run_faithful prog sem s acts).path i op _ h [] r (path_ofResult)
  rwa [append_nil] at this

/-- **Every call saw the beginning of a path of its program.** -/
theorem path_of_thread {p : Prog C R E α} (h : (run prog sem (init s) acts).threads[i]? = some (op, p)) :
    ∃ rest r, (prog op).Path (seen sem i (run prog sem (init s) acts).log ++ rest) r := by
  obtain ⟨rest, r, hp⟩ := p.exists_path
  exact ⟨rest, r, (run_faithful prog sem s acts).path i op p h rest r hp⟩

theorem thread_of_mem (he : e ∈ (run prog sem (init s) acts).log) :
    ∃ op p, (run prog sem (init s) acts).threads[e.tid]? = some (op, p) :=
  ⟨_, _, getElem?_eq_getElem ((run_faithful prog sem s acts).tid e he)⟩

end

variable {sem} in
theorem seen_split (h : seen sem i log = a ++ o :: b) :
    ∃ l1 e l2, log = l1 ++ e :: l2 ∧ e.tid = i ∧ e.obs sem = o ∧
      seen sem i l1 = a ∧ seen sem i l2 = b := by
  unfold seen at h
  obtain ⟨f1, f2, hf, ha, hob⟩ := map_eq_append_iff.1 h
  obtain ⟨e, f3, rfl, ho, hb⟩ := map_eq_cons_iff.1 hob
  obtain ⟨l1, l2, rfl, hl1, hl2⟩ := filter_eq_append_iff.1 hf
  obtain ⟨m1, m2, rfl, hm1, he, hm2⟩ := filter_eq_cons_iff.1 hl2
  refine ⟨l1 ++ m1, e, m2, by simp, by simpa using he, ho, ?_, by rw [seen, hm2, hb]⟩
  rw [seen, filter_append, hl1, filter_eq_nil_iff.2 hm1, append_nil, ha]

variable {sem} in
theorem obs_some {x : R c} (h : e.obs sem = ⟨c, some x⟩) : e.Ran ∧ e.cmd = c ∧ (sem c e.pre).2 = x := by
  obtain ⟨tid, pre, cmd, fault⟩ := e
  cases fault with
  | none => cases h; exact ⟨nofun, rfl, rfl⟩
  | lost | late => cases h

theorem mem_seen : o ∈ seen sem i log ↔ ∃ e ∈ log, e.tid = i ∧ e.obs sem = o := by
  simp [seen, and_assoc]

end World

/-! ## A call on its own -/

/-- The commands a program sends to a healthy service, as call number `i`. -/
def Prog.trace (sem : Sem C R S) (i : ℕ) : Prog C R E α → S → List (Entry C S)
  | .ret _, _ => []
  | .fail _, _ => []
  | .call c k, s => ⟨i, s, c, .none⟩ :: (k (some (sem c s).2)).trace sem i (sem c s).1

namespace World

variable (prog : Op → Prog C R E α) (sem : Sem C R S)

/-- **A call run to its end alone** leaves what its program leaves, and logs its commands. -/
theorem run_alone (s : S) (ts : List (Op × Prog C R E α)) (log : List (Entry C S)) (op : Op)
    (hn : ((prog op).trace sem ts.length s).length ≤ n) :
    run prog sem ⟨s, ts, log⟩ (.spawn op :: List.replicate n (.sched ts.length .none)) =
      ⟨((prog op).run sem [] s).st, ts ++ [(op, ofResult ((prog op).run sem [] s).ans)],
        log ++ (prog op).trace sem ts.length s⟩ := by
  have hil : ∀ n s r log,
      run prog sem ⟨s, ts ++ [(op, ofResult r)], log⟩ (replicate n (.sched ts.length .none)) =
        ⟨s, ts ++ [(op, ofResult r)], log⟩ := by
    intro n s r log
    induction n with
    | zero => rfl
    | succ n ih =>
      rw [replicate_succ, run_cons]
      have : step prog sem ⟨s, ts ++ [(op, ofResult r)], log⟩ (.sched ts.length .none) =
          ⟨s, ts ++ [(op, ofResult r)], log⟩ := by
        cases r <;> simp [step, ofResult]
      rw [this, ih]
  have hmn : ∀ p n s log,
      (p.trace sem ts.length s).length ≤ n →
      run prog sem ⟨s, ts ++ [(op, p)], log⟩ (replicate n (.sched ts.length .none)) =
        ⟨(p.run sem [] s).st, ts ++ [(op, ofResult (p.run sem [] s).ans)],
          log ++ p.trace sem ts.length s⟩ := by
    intro p
    induction p with
    | ret a => intro n s log _; simpa [trace, ofResult] using hil n s (.ok a) log
    | fail e => intro n s log _; simpa [trace, ofResult] using hil n s (.error e) log
    | call c k ih =>
      intro n s log hn
      cases n with
      | zero => simp [trace] at hn
      | succ n =>
        rw [replicate_succ, run_cons]
        have : step prog sem ⟨s, ts ++ [(op, .call c k)], log⟩ (.sched ts.length .none) =
            ⟨(sem c s).1, ts ++ [(op, k (some (sem c s).2))], log ++ [⟨ts.length, s, c, .none⟩]⟩ := by
          simp [step]
        rw [this, ih _ n _ _ (by simpa [trace] using hn)]
        simp [trace]
  exact hmn (prog op) n s log hn

end World

end Conc
