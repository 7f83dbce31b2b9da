/-
  Loops with three ways out, as a C function has them.

  One pass through the body of a `while` either goes round again, leaves the loop
  (its condition is false, or `break`), or returns from the enclosing function.
  `Loop.exec` repeats the body with fuel taken from a variant, so it is
  structurally recursive and evaluates; where the variant decreases the fuel never
  runs out (`exec_spec`).
-/
import Mathlib.Logic.Basic

namespace Loop

universe u v

/-- How one pass through a loop body ends. -/
inductive Pass (σ : Type u)
  /-- Back to the loop condition. -/
  | again (s : σ)
  /-- Out of the loop: the condition is false, or `break`. -/
  | leave (s : σ)
  /-- Out of the function: `return`. -/
  | ret (s : σ)

namespace Pass

variable {σ : Type u} {τ : Type v}

/-- The state the pass ends in. -/
def state : Pass σ → σ
  | again s => s
  | leave s => s
  | ret s => s

/-- The pass ends the loop. -/
def Final : Pass σ → Prop
  | again _ => False
  | leave _ => True
  | ret _ => True

/-- Two passes end the same way: in states related by `R` while the function goes on, in states
related by `S` where it returns. -/
inductive Rel (R S : σ → τ → Prop) : Pass σ → Pass τ → Prop
  | again {s t} (h : R s t) : Rel R S (again s) (again t)
  | leave {s t} (h : R s t) : Rel R S (leave s) (leave t)
  | ret {s t} (h : S s t) : Rel R S (ret s) (ret t)

end Pass

variable {σ : Type u} {τ : Type v}

/-- At most `fuel` passes; `again` means that the fuel ran out. -/
def run (body : σ → Pass σ) : Nat → σ → Pass σ
  | 0, s => .again s
  | fuel + 1, s =>
    match body s with
    | .again s' => run body fuel s'
    | p => p

/-- The loop, with the variant `m` as its fuel. -/
def exec (body : σ → Pass σ) (m : σ → Nat) (s : σ) : Pass σ := run body (m s + 1) s

/-- Every pass that goes round again decreases the variant. -/
def Decreases (body : σ → Pass σ) (m : σ → Nat) : Prop :=
  ∀ s s', body s = .again s' → m s' < m s

/-- With enough fuel the loop ends in a last pass from a state that the passes before it lead to:
an invariant of the passes that go round again holds there. -/
theorem run_spec {body : σ → Pass σ} {m : σ → Nat} (hm : Decreases body m) {I : σ → Prop}
    (hI : ∀ s s', I s → body s = .again s' → I s') :
    ∀ (fuel : Nat) (s : σ), m s < fuel → I s →
      ∃ t, I t ∧ run body fuel s = body t ∧ (body t).Final := by
  intro fuel
  induction fuel with
  | zero => intro s h; omega
  | succ fuel ih =>
    intro s hfuel hs
    rw [run]
    cases hb : body s with
    | again s' =>
      have hlt := hm s s' hb
      exact ih s' (by omega) (hI s s' hs hb)
    | leave s' => exact ⟨s, hs, by rw [hb], by rw [hb]; trivial⟩
    | ret s' => exact ⟨s, hs, by rw [hb], by rw [hb]; trivial⟩

/-- **Loop rule.** A loop whose variant decreases ends with a last pass, from a state in which
every invariant of the earlier passes holds. -/
theorem exec_spec {body : σ → Pass σ} {m : σ → Nat} (hm : Decreases body m) {I : σ → Prop}
    (hI : ∀ s s', I s → body s = .again s' → I s') {s : σ} (hs : I s) :
    ∃ t, I t ∧ exec body m s = body t ∧ (body t).Final :=
  run_spec hm hI (m s + 1) s (Nat.lt_succ_self _) hs

/-- Two loops with the same fuel and related bodies end the same way, in related states. -/
theorem run_rel {body : σ → Pass σ} {body' : τ → Pass τ} {R S : σ → τ → Prop}
    (h : ∀ s t, R s t → Pass.Rel R S (body s) (body' t)) :
    ∀ (fuel : Nat) (s : σ) (t : τ), R s t → Pass.Rel R S (run body fuel s) (run body' fuel t) := by
  intro fuel
  induction fuel with
  | zero => intro s t hst; exact .again hst
  | succ fuel ih =>
    intro s t hst
    rw [run, run]
    have hpass := h s t hst
    generalize body s = p at hpass ⊢
    generalize body' t = q at hpass ⊢
    cases hpass with
    | again h' => exact ih _ _ h'
    | leave h' => exact .leave h'
    | ret h' => exact .ret h'

/-- **Relational loop rule.** -/
theorem exec_rel {body : σ → Pass σ} {body' : τ → Pass τ} {R S : σ → τ → Prop} {m : σ → Nat}
    {m' : τ → Nat} (h : ∀ s t, R s t → Pass.Rel R S (body s) (body' t))
    (hm : ∀ s t, R s t → m s = m' t) {s : σ} {t : τ} (hst : R s t) :
    Pass.Rel R S (exec body m s) (exec body' m' t) := by
  rw [exec, exec, hm s t hst]
  exact run_rel h _ s t hst

end Loop
