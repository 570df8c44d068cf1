import Mathlib.Data.Sum.Basic

/-!
# Programs of atomic commands

A client of a remote service (a database, a message bus) is a tree: it answers,
fails, or sends one command and goes on with the reply. The service runs every
command atomically, but the client may not learn what happened: a command can
be lost on the way out, or its reply on the way back (`Fault`).
-/

namespace Conc

/-- What happens to one command: it runs and its reply arrives, it is lost, or its reply is. The last
two look the same to the client. -/
inductive Fault
  | none
  | lost
  | late
deriving DecidableEq, Repr

/-- Programs over the commands `C`, where `c : C` is answered by an `R c`, or by `none` for a
transport error. -/
inductive Prog (C : Type) (R : C → Type) (E α : Type) where
  | ret (a : α)
  | fail (e : E)
  | call (c : C) (k : Option (R c) → Prog C R E α)

namespace Prog

variable {C D : Type} {R : C → Type} {Q : D → Type} {E E' α β γ : Type}

/-- One program after another; an error ends both. -/
def bind : Prog C R E α → (α → Prog C R E β) → Prog C R E β
  | ret a, f => f a
  | fail e, _ => fail e
  | call c k, f => call c fun r => (k r).bind f

instance : Monad (Prog C R E) where
  pure := ret
  bind := bind

/-- One command; the client sees whether a reply came. -/
def cmd (c : C) : Prog C R E (Option (R c)) := call c ret

/-- One command; a transport error ends the program with `e`. -/
def exec (c : C) (e : E) : Prog C R E (R c) :=
  call c fun
    | some r => ret r
    | none => fail e

/-- One command, sent again up to `n` times while no reply comes. -/
def resend (c : C) (e : E) : Nat → Prog C R E (R c)
  | 0 => exec c e
  | n + 1 =>
    call c fun
      | some r => ret r
      | none => resend c e n

/-- `p` when `b` holds, nothing otherwise. -/
def when (b : Prop) [Decidable b] (p : Prog C R E Unit) : Prog C R E Unit := if b then p else ret ()

/-- Run `p` and hand its error to the caller as a value. -/
def attempt : Prog C R E α → Prog C R E' (Except E α)
  | ret a => ret (.ok a)
  | fail e => ret (.error e)
  | call c k => call c fun r => (k r).attempt

/-- Run `p` with its errors translated. -/
def mapErr (f : E → E') : Prog C R E α → Prog C R E' α
  | ret a => ret a
  | fail e => fail (f e)
  | call c k => call c fun r => (k r).mapErr f

/-- A program of one service as a program of two. -/
def inl : Prog C R E α → Prog (C ⊕ D) (Sum.elim R Q) E α
  | ret a => ret a
  | fail e => fail e
  | call c k => call (.inl c) fun r => (k r).inl

@[simp] theorem pure_eq {a : α} : (pure a : Prog C R E α) = ret a := rfl

@[simp] theorem bind_eq {p : Prog C R E α} {f : α → Prog C R E β} : p >>= f = p.bind f := rfl

@[simp] theorem ret_bind {a : α} {f : α → Prog C R E β} : (ret a).bind f = f a := rfl

@[simp] theorem fail_bind {e : E} {f : α → Prog C R E β} : (fail e : Prog C R E α).bind f = fail e := rfl

@[simp] theorem call_bind {c : C} {k : Option (R c) → Prog C R E α} {f : α → Prog C R E β} :
    (call c k).bind f = call c fun r => (k r).bind f := rfl

theorem bind_assoc {p : Prog C R E α} {f : α → Prog C R E β} {g : β → Prog C R E γ} :
    (p.bind f).bind g = p.bind fun a => (f a).bind g := by
  induction p with
  | ret a | fail e => rfl
  | call c k ih => simp only [call_bind, ih]

/-- Every error the program can end with satisfies `P`. -/
def Errs (P : E → Prop) : Prog C R E α → Prop
  | ret _ => True
  | fail e => P e
  | call _ k => ∀ o, (k o).Errs P

variable {P : E → Prop} {p : Prog C R E α}

theorem Errs.imp {Q : E → Prop} (hp : p.Errs P) (h : ∀ e, P e → Q e) : p.Errs Q := by
  induction p with
  | ret a => exact trivial
  | fail e => exact h e hp
  | call c k ih => exact fun o => ih o (hp o)

theorem errs_bind {f : α → Prog C R E β} (hp : p.Errs P) (hf : ∀ a, (f a).Errs P) : (p >>= f).Errs P := by
  induction p with
  | ret a => exact hf a
  | fail e => exact hp
  | call c k ih => exact fun o => ih o (hp o)

theorem errs_when {b : Prop} [Decidable b] {p : Prog C R E Unit} (hp : p.Errs P) : (when b p).Errs P := by
  unfold when
  split
  · exact hp
  · exact trivial

theorem errs_cmd {c : C} : (cmd c : Prog C R E (Option (R c))).Errs P := fun _ => trivial

theorem errs_exec {c : C} {e : E} (he : P e) : (exec c e : Prog C R E (R c)).Errs P := by
  intro o
  cases o with
  | none => exact he
  | some r => exact trivial

theorem errs_attempt {P : E' → Prop} : (p.attempt : Prog C R E' (Except E α)).Errs P := by
  induction p with
  | ret a | fail e => exact trivial
  | call c k ih => exact ih

theorem errs_mapErr {P : E' → Prop} {f : E → E'} (hf : ∀ e, P (f e)) : (p.mapErr f).Errs P := by
  induction p with
  | ret a => exact trivial
  | fail e => exact hf e
  | call c k ih => exact ih

theorem errs_inl (hp : p.Errs P) : (p.inl : Prog (C ⊕ D) (Sum.elim R Q) E α).Errs P := by
  induction p with
  | ret a => exact trivial
  | fail e => exact hp
  | call c k ih => exact fun o => ih o (hp o)

end Prog

/-- A service: how each command changes the state and what it replies. -/
def Sem (C : Type) (R : C → Type) (S : Type) : Type := (c : C) → S → S × R c

/-- One command under a fault: the new state and what the client sees. -/
def Sem.deliver {C : Type} {R : C → Type} {S : Type} (sem : Sem C R S) (f : Fault) (c : C) (s : S) :
    S × Option (R c) :=
  match f with
  | .none => ((sem c s).1, some (sem c s).2)
  | .lost => (s, none)
  | .late => ((sem c s).1, none)

/-- What is left of a program: its answer, the faults not used, the state. -/
structure Out (E α S : Type) where
  ans : Except E α
  rest : List Fault
  st : S

theorem Out.eq_of_ans {E α S : Type} {o : Out E α S} {r : Except E α} (h : o.ans = r) :
    o = ⟨r, o.rest, o.st⟩ := by
  subst h; rfl

section

variable {C : Type} {R : C → Type} {S E E' α β : Type} (sem : Sem C R S)

@[simp] theorem Sem.deliver_none (c : C) (s : S) :
    sem.deliver .none c s = ((sem c s).1, some (sem c s).2) := rfl

@[simp] theorem Sem.deliver_lost (c : C) (s : S) : sem.deliver .lost c s = (s, none) := rfl

@[simp] theorem Sem.deliver_late (c : C) (s : S) : sem.deliver .late c s = ((sem c s).1, none) := rfl

theorem Sem.deliver_cases (f : Fault) (c : C) (s : S) :
    ((sem.deliver f c s).1 = s ∧ (sem.deliver f c s).2 = none) ∨ ((sem.deliver f c s).1 = (sem c s).1 ∧
      ((sem.deliver f c s).2 = none ∨ (sem.deliver f c s).2 = some (sem c s).2)) := by
  cases f <;> simp

variable {s s1 : S}

theorem Sem.deliver_some {f : Fault} {c : C} {r : R c} (h : (sem.deliver f c s).2 = some r) :
    sem.deliver f c s = ((sem c s).1, some (sem c s).2) ∧ r = (sem c s).2 := by
  cases f with
  | none => simp only [Sem.deliver_none, Option.some.injEq] at h; exact ⟨rfl, h.symm⟩
  | lost | late => simp at h

namespace Prog

/-- Run a program against the service, the `n`-th command under the `n`-th fault. -/
def run : Prog C R E α → List Fault → S → Out E α S
  | ret a, fs, s => ⟨.ok a, fs, s⟩
  | fail e, fs, s => ⟨.error e, fs, s⟩
  | call c k, fs, s =>
    (k (sem.deliver (fs.headD .none) c s).2).run fs.tail (sem.deliver (fs.headD .none) c s).1

/-- `Q` holds of the answer and the final state under every fault. -/
def wp : Prog C R E α → (Except E α → S → Prop) → S → Prop
  | ret a, Q, s => Q (.ok a) s
  | fail e, Q, s => Q (.error e) s
  | call c k, Q, s => ∀ f, (k (sem.deliver f c s).2).wp Q (sem.deliver f c s).1

variable {sem} {p : Prog C R E α}

@[simp] theorem run_ret {a : α} {fs : List Fault} :
    (ret a : Prog C R E α).run sem fs s = ⟨.ok a, fs, s⟩ := rfl

@[simp] theorem run_fail {e : E} {fs : List Fault} :
    (fail e : Prog C R E α).run sem fs s = ⟨.error e, fs, s⟩ := rfl

theorem run_call (c : C) (k : Option (R c) → Prog C R E α) (fs : List Fault) (s : S) :
    (call c k).run sem fs s =
      (k (sem.deliver (fs.headD .none) c s).2).run sem fs.tail (sem.deliver (fs.headD .none) c s).1 := rfl

@[simp] theorem run_call_nil (c : C) (k : Option (R c) → Prog C R E α) (s : S) :
    (call c k).run sem [] s = (k (some (sem c s).2)).run sem [] (sem c s).1 := rfl

theorem run_exec_bind_nil {c : C} {e : E} {f : R c → Prog C R E β} :
    (exec c e >>= f : Prog C R E β).run sem [] s = (f (sem c s).2).run sem [] (sem c s).1 := rfl

theorem run_resend_bind_nil {c : C} {e : E} {n : Nat} {f : R c → Prog C R E β} :
    (resend c e n >>= f : Prog C R E β).run sem [] s = (f (sem c s).2).run sem [] (sem c s).1 := by
  cases n with
  | zero | succ n => rfl

theorem run_bind {f : α → Prog C R E β} {fs : List Fault} :
    (p.bind f).run sem fs s =
      match p.run sem fs s with
      | ⟨.ok a, fs', s'⟩ => (f a).run sem fs' s'
      | ⟨.error e, fs', s'⟩ => ⟨.error e, fs', s'⟩ := by
  induction p generalizing fs s with
  | ret a | fail e => rfl
  | call c k ih => rw [call_bind, run_call, run_call, ih]

variable {fs fs1 : List Fault} {a : α}

theorem run_bind_of_ok (h : p.run sem fs s = ⟨.ok a, fs1, s1⟩) (f : α → Prog C R E β) :
    (p >>= f).run sem fs s = (f a).run sem fs1 s1 := by
  rw [bind_eq, run_bind, h]

theorem run_bind_of_ans (h : (p.run sem fs s).ans = .ok a) {f : α → Prog C R E β} :
    (p >>= f).run sem fs s = (f a).run sem (p.run sem fs s).rest (p.run sem fs s).st :=
  run_bind_of_ok (by rw [← h]) f

/-- A reflexive and transitive relation that every command respects holds throughout. -/
theorem run_rel {ρ : S → S → Prop} (hr : ∀ s, ρ s s) (ht : ∀ s t u, ρ s t → ρ t u → ρ s u)
    (hc : ∀ c s, ρ s (sem c s).1) (p : Prog C R E α) (fs : List Fault) (s : S) :
    ρ s (p.run sem fs s).st := by
  induction p generalizing fs s with
  | ret a | fail e => exact hr s
  | call c k ih =>
    refine ht _ _ _ ?_ (ih _ _ _)
    rcases sem.deliver_cases (fs.headD .none) c s with ⟨h, -⟩ | ⟨h, -⟩
    · rw [h]; exact hr s
    · rw [h]; exact hc c s

theorem run_attempt (p : Prog C R E α) (fs : List Fault) (s : S) :
    (p.attempt : Prog C R E' (Except E α)).run sem fs s =
      ⟨.ok (p.run sem fs s).ans, (p.run sem fs s).rest, (p.run sem fs s).st⟩ := by
  induction p generalizing fs s with
  | ret a | fail e => rfl
  | call c k ih => simp only [attempt, run_call, ih]

theorem run_errs {P : E → Prop} (hp : p.Errs P) {e : E} (h : (p.run sem fs s).ans = .error e) : P e := by
  induction p generalizing fs s with
  | ret a => cases h
  | fail e' => cases h; exact hp
  | call c k ih => exact ih _ (hp _) h

theorem run_nil_rest (p : Prog C R E α) (s : S) : (p.run sem [] s).rest = [] := by
  induction p generalizing s with
  | ret a | fail e => rfl
  | call c k ih => rw [run_call_nil]; exact ih _ _

@[simp] theorem wp_ret (a : α) (Q : Except E α → S → Prop) (s : S) :
    (ret a : Prog C R E α).wp sem Q s ↔ Q (.ok a) s := Iff.rfl

theorem wp_call {c : C} {k : Option (R c) → Prog C R E α} {Q : Except E α → S → Prop} :
    (call c k).wp sem Q s ↔
      (k none).wp sem Q s ∧ (k none).wp sem Q (sem c s).1 ∧
      (k (some (sem c s).2)).wp sem Q (sem c s).1 := by
  constructor
  · intro h; exact ⟨h .lost, h .late, h .none⟩
  · rintro ⟨h1, h2, h3⟩ f
    cases f with
    | none => exact h3
    | lost => exact h1
    | late => exact h2

theorem wp_exec {c : C} {e : E} {Q : Except E (R c) → S → Prop} :
    (exec c e : Prog C R E (R c)).wp sem Q s ↔
      Q (.error e) s ∧ Q (.error e) (sem c s).1 ∧ Q (.ok (sem c s).2) (sem c s).1 := wp_call

theorem wp_mono {Q Q' : Except E α → S → Prop} (hQ : ∀ r s, Q r s → Q' r s) :
    ∀ {s}, p.wp sem Q s → p.wp sem Q' s := by
  induction p with
  | ret a | fail e => intro s h; exact hQ _ _ h
  | call c k ih => intro s h f; exact ih _ (h f)

theorem wp_true (p : Prog C R E α) (s : S) : p.wp sem (fun _ _ => True) s := by
  induction p generalizing s with
  | ret a | fail e => trivial
  | call c k ih => exact fun f => ih _ _

theorem wp_bind (p : Prog C R E α) (f : α → Prog C R E β) (Q : Except E β → S → Prop) (s : S) :
    (p.bind f).wp sem Q s ↔
      p.wp sem (fun r s' => match r with
        | .ok a => (f a).wp sem Q s'
        | .error e => Q (.error e) s') s := by
  induction p generalizing s with
  | ret a | fail e => rfl
  | call c k ih => exact forall_congr' fun f => ih _ _

theorem wp_attempt (p : Prog C R E α) (Q : Except E' (Except E α) → S → Prop) (s : S) :
    (p.attempt : Prog C R E' (Except E α)).wp sem Q s ↔ p.wp sem (fun r => Q (.ok r)) s := by
  induction p generalizing s with
  | ret a | fail e => rfl
  | call c k ih => exact forall_congr' fun f => ih _ _

theorem wp_cmd_bind (c : C) (f : Option (R c) → Prog C R E β) (Q : Except E β → S → Prop) (s : S) :
    (cmd c >>= f : Prog C R E β).wp sem Q s ↔
      (f none).wp sem Q s ∧ (f none).wp sem Q (sem c s).1 ∧
      (f (some (sem c s).2)).wp sem Q (sem c s).1 := wp_call

theorem wp_exec_bind {c : C} {e : E} {f : R c → Prog C R E β} {Q : Except E β → S → Prop} :
    (exec c e >>= f : Prog C R E β).wp sem Q s ↔
      Q (.error e) s ∧ Q (.error e) (sem c s).1 ∧ (f (sem c s).2).wp sem Q (sem c s).1 := wp_call

theorem wp_run {Q : Except E α → S → Prop} (h : p.wp sem Q s) (fs : List Fault) :
    Q (p.run sem fs s).ans (p.run sem fs s).st := by
  induction p generalizing fs s with
  | ret a | fail e => exact h
  | call c k ih => rw [run_call]; exact ih _ (h _) _

end Prog

end

end Conc
