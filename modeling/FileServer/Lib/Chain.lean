/-
  Invariants of chains of steps and of runs.

  A chain is a path of a step relation, `Relation.ReflTransGen`; a run folds a
  transition function over a list of actions.  The rules give the proof of one step
  the chain before it and the chain behind it, so that a fact about the whole of a
  chain can be used at each of its steps.  Where actions may fail, the history of a run
  is the list of those that did not, and `history_rule` relates it to the state.
-/
import Mathlib.Data.List.Induction
import Mathlib.Logic.Relation

namespace Chain

universe u v

open Relation

variable {σ : Type u} {α : Type v}

/-! ### Chains -/

section Steps

variable {r : σ → σ → Prop} {P : σ → Prop}

/-- What every step keeps, a chain keeps. -/
theorem invariant (hstep : ∀ x y, r x y → P x → P y) {a b : σ} (h : ReflTransGen r a b)
    (ha : P a) : P b := by
  induction h with
  | refl => exact ha
  | tail _ hxy ih => exact hstep _ _ hxy ih

/-- **Chain rule.** What every step of this chain keeps, the chain keeps; at each step the chain
before it and the chain behind it are at hand. -/
theorem between {a c : σ}
    (hstep : ∀ x y, ReflTransGen r a x → r x y → ReflTransGen r y c → P x → P y)
    (h : ReflTransGen r a c) (ha : P a) : P c := by
  suffices hb : ∀ b, ReflTransGen r b c → ReflTransGen r a b → P b → P c from hb a h .refl ha
  intro b hbc
  induction hbc using ReflTransGen.head_induction_on with
  | refl => exact fun _ hc => hc
  | head hxy hyc ih => exact fun hax hx => ih (hax.tail hxy) (hstep _ _ hax hxy hyc hx)

/-- A value that every step can only move up in a preorder `le`. -/
theorem map_le {β : Type v} {f : σ → β} {le : β → β → Prop} (hrefl : ∀ x, le x x)
    (htrans : ∀ x y z, le x y → le y z → le x z) (hstep : ∀ x y, r x y → le (f x) (f y)) {a b : σ}
    (h : ReflTransGen r a b) : le (f a) (f b) :=
  invariant (P := fun x => le (f a) (f x)) (fun x y hxy hx => htrans _ _ _ hx (hstep x y hxy)) h
    (hrefl _)

end Steps

/-! ### Runs -/

section Runs

variable {act : σ → α → σ} {I : σ → Prop}

/-- What every action keeps, a run keeps. -/
theorem run_invariant (hact : ∀ s a, I s → I (act s a)) (s : σ) (as : List α) (hs : I s) :
    I (as.foldl act s) := by
  induction as generalizing s with
  | nil => exact hs
  | cons a as ih => exact ih _ (hact s a hs)

/-- **Run rule.** What every action of this run keeps, the run keeps; at each action the actions
before it and behind it are at hand. -/
theorem run_between (s : σ) (as : List α)
    (hact : ∀ pre a post, as = pre ++ a :: post → I (pre.foldl act s) →
      I (act (pre.foldl act s) a))
    (hs : I s) : I (as.foldl act s) := by
  suffices h : ∀ post pre, as = pre ++ post → I (pre.foldl act s) → I (as.foldl act s) from
    h as [] rfl hs
  intro post
  induction post with
  | nil => intro pre hpre hI; rw [hpre, List.append_nil]; exact hI
  | cons a post ih =>
    intro pre hpre hI
    refine ih (pre ++ [a]) (by rw [hpre, List.append_assoc]; rfl) ?_
    rw [List.foldl_append]
    exact hact pre a post hpre hI

/-- The prefixes of a list, each with the next one, by their lengths. -/
theorem forall_step_iff {P : List α → List α → Prop} {as : List α} :
    (∀ pre a post, as = pre ++ a :: post → P pre (pre ++ [a])) ↔
      ∀ k < as.length, P (as.take k) (as.take (k + 1)) := by
  constructor
  · intro h k hk
    rw [List.take_succ_eq_append_getElem hk]
    refine h (as.take k) as[k] (as.drop (k + 1)) ?_
    rw [List.getElem_cons_drop, List.take_append_drop]
  · rintro h pre a post rfl
    have hk := h pre.length (by simp)
    rwa [List.take_length_add_append, List.take_left] at hk

/-- What holds of every element of a list together with what is before it: the last element is one
of them. -/
theorem forall_split_concat {P : List α → α → Prop} {as : List α} {a : α} :
    (∀ pre b post, as ++ [a] = pre ++ b :: post → P pre b) ↔
      (∀ pre b post, as = pre ++ b :: post → P pre b) ∧ P as a := by
  constructor
  · intro h
    refine ⟨fun pre b post heq => h pre b (post ++ [a]) ?_, h as a [] rfl⟩
    rw [heq, List.append_assoc, List.cons_append]
  · rintro ⟨h, ha⟩ pre b post heq
    rcases List.eq_nil_or_concat post with rfl | ⟨post, x, rfl⟩
    · obtain ⟨rfl, hab⟩ := List.append_inj' heq rfl
      obtain rfl := List.singleton_inj.mp hab
      exact ha
    · rw [List.concat_eq_append, ← List.cons_append, ← List.append_assoc] at heq
      exact h pre b post (List.append_inj' heq rfl).1

/-- **Step rule.** Where `P` holds of the steps before, it leaves `I`; where `I` holds, `P` and `Q`
are the same of the next step.  So they are the same of all steps. -/
theorem forall_split_iff {P Q : List α → α → Prop} {I : List α → Prop} (h0 : I [])
    (hI : ∀ pre a, P pre a → I (pre ++ [a])) (hiff : ∀ pre a, I pre → (P pre a ↔ Q pre a))
    (as : List α) :
    (∀ pre a post, as = pre ++ a :: post → P pre a) ↔
      ∀ pre a post, as = pre ++ a :: post → Q pre a := by
  induction as using List.reverseRecOn with
  | nil => exact iff_of_true (fun pre a post h => by simp at h) fun pre a post h => by simp at h
  | append_singleton as a ih =>
    have hbefore : (∀ pre a post, as = pre ++ a :: post → P pre a) → I as := fun h => by
      rcases List.eq_nil_or_concat as with rfl | ⟨pre, b, rfl⟩
      · exact h0
      · rw [List.concat_eq_append]
        exact hI pre b (h pre b [] List.concat_eq_append)
    rw [forall_split_concat, forall_split_concat]
    constructor
    · exact fun ⟨h, ha⟩ => ⟨ih.mp h, (hiff as a (hbefore h)).mp ha⟩
    · exact fun ⟨h, ha⟩ => ⟨ih.mpr h, (hiff as a (hbefore (ih.mpr h))).mpr ha⟩

end Runs

/-! ### Histories -/

section Histories

variable (act : σ → α → σ) (fails : σ → α → Prop) [∀ s a, Decidable (fails s a)]

/-- The actions of a run that did not fail. -/
def history (s : σ) : List α → List α
  | [] => []
  | a :: as => if fails s a then history (act s a) as else a :: history (act s a) as

theorem history_concat (s : σ) (as : List α) (a : α) :
    history act fails s (as ++ [a]) =
      history act fails s as ++ if fails (as.foldl act s) a then [] else [a] := by
  induction as generalizing s with
  | nil => rw [List.nil_append, history, history, history, List.foldl_nil, List.nil_append]
  | cons b as ih =>
    rw [List.cons_append, history, history, ih, List.foldl_cons]
    by_cases hb : fails s b
    · rw [if_pos hb, if_pos hb]
    · rw [if_neg hb, if_neg hb, List.cons_append]

variable {act fails}

/-- **History rule.** What every action that does not fail keeps of the state and the history, a run
keeps, where an action that fails changes nothing. -/
theorem history_rule {I : σ → List α → Prop} (hfail : ∀ s a, fails s a → act s a = s)
    (hact : ∀ s hist a, I s hist → ¬ fails s a → I (act s a) (hist ++ [a])) {s : σ} (hs : I s [])
    (as : List α) : I (as.foldl act s) (history act fails s as) := by
  induction as using List.reverseRecOn with
  | nil => exact hs
  | append_singleton as a ih =>
    rw [history_concat, List.foldl_append, List.foldl_cons, List.foldl_nil]
    by_cases h : fails (as.foldl act s) a
    · rw [if_pos h, hfail _ _ h, List.append_nil]
      exact ih
    · rw [if_neg h]
      exact hact _ _ _ ih h

end Histories

end Chain
