/-
Nvl/Lib/Prog.lean

Programs with external calls, as finite trees.

A `Prog Op Res α` either returns a value or makes one external call `o : Op`
and continues with the answer, of type `Res o`.  The tree says what the code
does and leaves open what the outside does; an interpretation supplies that.
Two interpretations are run:

* `Prog.exec env p` answers every call from a function `env` and keeps the
  trace of calls with their answers.  It always returns;
* `Prog.run h p s` answers from a state by a handler `h`, which may also not
  answer at all (`none`).  The state reached is kept in both cases, so a
  program that waits for ever still has a last state.

`Prog.Path p tr a` is the most general one: some answers, chosen anew at each
call, take `p` along the calls `tr` to the result `a`.  What all paths of a
program have in common is stated with `Prog.Meets` and proved by its rules.

The lemmas say how each interpretation meets the monad operations.
-/
import Mathlib.Data.List.Basic

namespace SysLib

/-- A program over the external calls `Op`, the call `o` answered in `Res o`. -/
inductive Prog (Op : Type) (Res : Op → Type) (α : Type) : Type
  | ret (a : α)
  | step (o : Op) (k : Res o → Prog Op Res α)

namespace Prog

variable {Op : Type} {Res : Op → Type} {α β σ : Type}

/-- Sequencing: graft `f` onto every return. -/
protected def bind : Prog Op Res α → (α → Prog Op Res β) → Prog Op Res β
  | ret a, f => f a
  | step o k, f => step o fun r => (k r).bind f

instance : Monad (Prog Op Res) where
  pure := ret
  bind := Prog.bind

/-- One external call, returning its answer. -/
def call (o : Op) : Prog Op Res (Res o) := step o ret

@[simp] theorem pure_eq_ret (a : α) : (pure a : Prog Op Res α) = ret a := rfl

@[simp] theorem ret_bind (a : α) (f : α → Prog Op Res β) :
    (ret a : Prog Op Res α) >>= f = f a := rfl

@[simp] theorem step_bind (o : Op) (k : Res o → Prog Op Res α) (f : α → Prog Op Res β) :
    step o k >>= f = step o fun r => k r >>= f := rfl

@[simp] theorem call_bind (o : Op) (f : Res o → Prog Op Res β) :
    call o >>= f = step o f := rfl

/-! ### Answers from a function -/

/-- A trace: the calls made, each with its answer. -/
abbrev Trace (Op : Type) (Res : Op → Type) : Type := List (Σ o : Op, Res o)

/-- Run a program on answers from `env`, keeping the trace. -/
def exec (env : (o : Op) → Res o) : Prog Op Res α → α × Trace Op Res
  | ret a => (a, [])
  | step o k => ((exec env (k (env o))).1, ⟨o, env o⟩ :: (exec env (k (env o))).2)

@[simp] theorem exec_ret (env : (o : Op) → Res o) (a : α) :
    exec env (ret a : Prog Op Res α) = (a, []) := rfl

@[simp] theorem exec_step (env : (o : Op) → Res o) (o : Op) (k : Res o → Prog Op Res α) :
    exec env (step o k)
      = ((exec env (k (env o))).1, ⟨o, env o⟩ :: (exec env (k (env o))).2) := rfl

@[simp] theorem exec_call (env : (o : Op) → Res o) (o : Op) :
    exec env (call o : Prog Op Res (Res o)) = (env o, [⟨o, env o⟩]) := rfl

/-- Traces of a sequence concatenate. -/
@[simp] theorem exec_bind (env : (o : Op) → Res o) (p : Prog Op Res α)
    (f : α → Prog Op Res β) :
    exec env (p >>= f)
      = ((exec env (f (exec env p).1)).1,
          (exec env p).2 ++ (exec env (f (exec env p).1)).2) := by
  induction p with
  | ret a => simp
  | step o k ih => simp [ih]

/-- Every entry of a trace carries the answer `env` gives to its call. -/
theorem snd_eq_of_mem_exec {env : (o : Op) → Res o} {p : Prog Op Res α}
    {c : Σ o : Op, Res o} (h : c ∈ (exec env p).2) : c.2 = env c.1 := by
  induction p with
  | ret a => simp at h
  | step o k ih =>
      rcases List.mem_cons.mp h with rfl | h'
      · rfl
      · exact ih _ h'

/-! ### Which calls a program can make -/

/-- Every call the program can make, whatever is answered, satisfies `P`. -/
def All (P : Op → Prop) : Prog Op Res α → Prop
  | ret _ => True
  | step o k => P o ∧ ∀ r, (k r).All P

variable {P : Op → Prop}

@[simp] theorem all_ret (a : α) : (ret a : Prog Op Res α).All P := trivial

@[simp] theorem all_step (o : Op) (k : Res o → Prog Op Res α) :
    (step o k).All P ↔ P o ∧ ∀ r, (k r).All P := Iff.rfl

@[simp] theorem all_call (o : Op) : (call o : Prog Op Res (Res o)).All P ↔ P o := by
  simp [call]

@[simp] theorem all_ite (c : Prop) [Decidable c] (p q : Prog Op Res α) :
    (if c then p else q).All P ↔ (c → p.All P) ∧ (¬ c → q.All P) := by
  split <;> simp_all

theorem All.ite {c : Prop} [Decidable c] {p q : Prog Op Res α} (hp : c → p.All P)
    (hq : ¬ c → q.All P) : (if c then p else q).All P := (all_ite c p q).mpr ⟨hp, hq⟩

theorem All.bind {p : Prog Op Res α} {f : α → Prog Op Res β} (hp : p.All P)
    (hf : ∀ a, (f a).All P) : (p >>= f).All P := by
  induction p with
  | ret a => exact hf a
  | step o k ih => exact ⟨hp.1, fun r => ih r (hp.2 r)⟩

/-- The trace of a run has no other calls. -/
theorem All.of_mem_exec {p : Prog Op Res α} (hp : p.All P) {env : (o : Op) → Res o}
    {c : Σ o : Op, Res o} (h : c ∈ (exec env p).2) : P c.1 := by
  induction p with
  | ret a => simp at h
  | step o k ih =>
      rcases List.mem_cons.mp h with rfl | h'
      · exact hp.1
      · exact ih _ (hp.2 _) h'

/-! ### What a program can return -/

/-- Every value the program can return, whatever is answered, satisfies `Q`. -/
def Returns (Q : α → Prop) : Prog Op Res α → Prop
  | ret a => Q a
  | step _ k => ∀ r, (k r).Returns Q

variable {Q : α → Prop}

@[simp] theorem returns_ret (a : α) : (ret a : Prog Op Res α).Returns Q ↔ Q a := Iff.rfl

@[simp] theorem returns_step (o : Op) (k : Res o → Prog Op Res α) :
    (step o k).Returns Q ↔ ∀ r, (k r).Returns Q := Iff.rfl

@[simp] theorem returns_ite (c : Prop) [Decidable c] (p q : Prog Op Res α) :
    (if c then p else q).Returns Q ↔ (c → p.Returns Q) ∧ (¬ c → q.Returns Q) := by
  split <;> simp_all

theorem returns_true (p : Prog Op Res α) : p.Returns fun _ => True := by
  induction p with
  | ret a => trivial
  | step o k ih => exact ih

theorem Returns.mono {R : α → Prop} {p : Prog Op Res α} (hp : p.Returns Q)
    (h : ∀ a, Q a → R a) : p.Returns R := by
  induction p with
  | ret a => exact h a hp
  | step o k ih => exact fun r => ih r (hp r)

theorem Returns.bind {p : Prog Op Res α} {f : α → Prog Op Res β} {R : β → Prop}
    (hp : p.Returns Q) (hf : ∀ a, Q a → (f a).Returns R) : (p >>= f).Returns R := by
  induction p with
  | ret a => exact hf a hp
  | step o k ih => exact fun r => ih r (hp r)

theorem Returns.exec {p : Prog Op Res α} (hp : p.Returns Q) (env : (o : Op) → Res o) :
    Q (exec env p).1 := by
  induction p with
  | ret a => exact hp
  | step o k ih => exact ih _ (hp _)

/-! ### Any answers at all -/

/-- Some answers take the program along the calls `tr` to the result `a`. -/
inductive Path : Prog Op Res α → Trace Op Res → α → Prop
  | ret (a : α) : Path (ret a) [] a
  | step {o : Op} {k : Res o → Prog Op Res α} (r : Res o) {tr : Trace Op Res} {a : α}
      (h : Path (k r) tr a) : Path (step o k) (⟨o, r⟩ :: tr) a

/-- Answers from a function are one way to take. -/
theorem path_exec (env : (o : Op) → Res o) (p : Prog Op Res α) :
    Path p (exec env p).2 (exec env p).1 := by
  induction p with
  | ret a => exact Path.ret a
  | step o k ih => exact Path.step _ (ih _)

/-- A path through a sequence is a path through each half. -/
theorem path_bind {p : Prog Op Res α} {f : α → Prog Op Res β} {tr : Trace Op Res} {b : β}
    (h : Path (p >>= f) tr b) :
    ∃ tr₁ tr₂ a, tr = tr₁ ++ tr₂ ∧ Path p tr₁ a ∧ Path (f a) tr₂ b := by
  induction p generalizing tr with
  | ret a => exact ⟨[], tr, a, rfl, Path.ret a, h⟩
  | step o k ih =>
      cases h with
      | step r h' =>
          obtain ⟨tr₁, tr₂, a, rfl, h₁, h₂⟩ := ih r h'
          exact ⟨⟨o, r⟩ :: tr₁, tr₂, a, rfl, Path.step r h₁, h₂⟩

/-- A path ends in a value the program can return. -/
theorem Returns.path {p : Prog Op Res α} (hp : p.Returns Q) {tr : Trace Op Res} {a : α}
    (h : Path p tr a) : Q a := by
  induction h with
  | ret a => exact hp
  | step r _ ih => exact ih (hp r)

/-- Whatever is answered, the calls made and the value returned satisfy `R`. -/
def Meets (R : Trace Op Res → α → Prop) (p : Prog Op Res α) : Prop :=
  ∀ tr a, Path p tr a → R tr a

section Meets

variable {R : Trace Op Res → α → Prop}

theorem Meets.ret {a : α} (h : R [] a) : (ret a : Prog Op Res α).Meets R := by
  intro tr b hp
  cases hp
  exact h

theorem Meets.step {o : Op} {k : Res o → Prog Op Res α}
    (h : ∀ r, (k r).Meets fun tr => R (⟨o, r⟩ :: tr)) : (step o k).Meets R := by
  intro tr a hp
  cases hp with
  | step r hp' => exact h r _ _ hp'

theorem Meets.ite {c : Prop} [Decidable c] {p q : Prog Op Res α} (hp : c → p.Meets R)
    (hq : ¬ c → q.Meets R) : (if c then p else q).Meets R := by
  split
  · exact hp ‹_›
  · exact hq ‹_›

theorem Meets.mono {R' : Trace Op Res → α → Prop} {p : Prog Op Res α} (hp : p.Meets R)
    (h : ∀ tr a, R tr a → R' tr a) : p.Meets R' := fun tr a hpath => h tr a (hp tr a hpath)

/-- The second half starts from what the first one left. -/
theorem Meets.bind {p : Prog Op Res α} {f : α → Prog Op Res β} {R' : Trace Op Res → β → Prop}
    (hp : p.Meets R) (hf : ∀ tr a, R tr a → (f a).Meets fun tr' => R' (tr ++ tr')) :
    (p >>= f).Meets R' := by
  intro tr b hpath
  obtain ⟨tr₁, tr₂, a, rfl, h₁, h₂⟩ := path_bind hpath
  exact hf tr₁ a (hp tr₁ a h₁) tr₂ b h₂

end Meets

/-! ### Answers from a state -/

/-- Run a program against a handler; `none` means a call that never returns,
and the state is the one in which it waits. -/
def run (h : (o : Op) → σ → Option (Res o) × σ) : Prog Op Res α → σ → Option α × σ
  | ret a, s => (some a, s)
  | step o k, s =>
      match h o s with
      | (some r, s') => run h (k r) s'
      | (none, s') => (none, s')

variable {h : (o : Op) → σ → Option (Res o) × σ}

@[simp] theorem run_ret (a : α) (s : σ) :
    run h (ret a : Prog Op Res α) s = (some a, s) := rfl

@[simp] theorem run_step (o : Op) (k : Res o → Prog Op Res α) (s : σ) :
    run h (step o k) s = match h o s with
      | (some r, s') => run h (k r) s'
      | (none, s') => (none, s') := by
  rcases e : h o s with ⟨- | r, s'⟩ <;> simp only [run, e]

@[simp] theorem run_call (o : Op) (s : σ) : run h (call o) s = h o s := by
  rw [call, run_step]
  rcases h o s with ⟨- | r, s'⟩ <;> rfl

/-- A sequence runs its second half only if the first returned. -/
theorem run_bind (p : Prog Op Res α) (f : α → Prog Op Res β) (s : σ) :
    run h (p >>= f) s = match run h p s with
      | (some a, s') => run h (f a) s'
      | (none, s') => (none, s') := by
  induction p generalizing s with
  | ret a => rfl
  | step o k ih =>
      rw [step_bind, run_step, run_step]
      rcases h o s with ⟨- | r, s'⟩
      · rfl
      · exact ih r s'

theorem run_bind_some {p : Prog Op Res α} {f : α → Prog Op Res β} {s s' : σ} {a : α}
    (e : run h p s = (some a, s')) : run h (p >>= f) s = run h (f a) s' := by
  rw [run_bind, e]

/-- A run that returns, returns a value the program can return. -/
theorem Returns.run {Q : α → Prop} {p : Prog Op Res α} (hp : p.Returns Q) {s s' : σ} {a : α}
    (e : run h p s = (some a, s')) : Q a := by
  induction p generalizing s with
  | ret b =>
      obtain rfl : b = a := Option.some.inj (Prod.mk.inj e).1
      exact hp
  | step o k ih =>
      rw [run_step] at e
      rcases hr : h o s with ⟨- | r, s''⟩
      · rw [hr] at e
        cases e
      · rw [hr] at e
        exact ih r (hp r) e

/-- Two handlers that agree on the calls a program can make run it alike. -/
theorem run_congr {P : Op → Prop} {h' : (o : Op) → σ → Option (Res o) × σ} {p : Prog Op Res α}
    (hp : p.All P) (hh : ∀ o, P o → h o = h' o) (s : σ) : run h p s = run h' p s := by
  induction p generalizing s with
  | ret a => rfl
  | step o k ih =>
      rw [run_step, run_step, hh o hp.1]
      rcases h' o s with ⟨- | r, s'⟩
      · rfl
      · exact ih r (hp.2 r) s'

theorem run_bind_none {p : Prog Op Res α} {f : α → Prog Op Res β} {s s' : σ}
    (e : run h p s = (none, s')) : run h (p >>= f) s = (none, s') := by
  rw [run_bind, e]

end Prog

end SysLib
