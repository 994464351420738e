import Mathlib.Data.List.Forall2
import Mathlib.Data.Option.Basic

/-!
# Services

A service takes one message after the other.  Each may be answered, and each may change what the
service remembers; what its surroundings tell it meanwhile comes from outside.

* `run`: the answers to a list of messages, and the memory at the end.
* `run_rel`: a service that answers each message as it should answers all of them so, in order.
* `run_congr`, `run_rel₂`: two services that are in step message by message are so in every run.
* `run_invariant`: what every message keeps.
-/

namespace Service

variable {ε α α' β σ κ : Type*}

/-- **A run of a service**: `env i` is what the surroundings tell it during message `i`. -/
def run (step : ε → α → σ → Option β × σ) (env : ℕ → ε) : List α → σ → List β × σ
  | [], s => ([], s)
  | a :: as, s =>
    let r := step (env 0) a s
    let rest := run step (fun i => env (i + 1)) as r.2
    (r.1.toList ++ rest.1, rest.2)

variable {step : ε → α → σ → Option β × σ}

@[simp] theorem run_nil (env : ℕ → ε) (s : σ) : run step env [] s = ([], s) := rfl

theorem run_cons (env : ℕ → ε) (a : α) (as : List α) (s : σ) :
    run step env (a :: as) s =
      ((step (env 0) a s).1.toList ++ (run step (fun i => env (i + 1)) as (step (env 0) a s).2).1,
        (run step (fun i => env (i + 1)) as (step (env 0) a s).2).2) := rfl

/-- **Every message is answered as it should be**, and so are all of them. -/
theorem run_rel {R : κ → β → Prop} {want : α → Option κ}
    (h : ∀ env a s, Option.Rel R (want a) (step env a s).1) (env : ℕ → ε) (as : List α) (s : σ) :
    List.Forall₂ R (as.filterMap want) (run step env as s).1 := by
  induction as generalizing env s with
  | nil => exact .nil
  | cons a as ih =>
    have hfirst := h (env 0) a s
    have hrest := ih (fun i => env (i + 1)) (step (env 0) a s).2
    rw [run_cons, List.filterMap_cons]
    dsimp only
    generalize want a = wanted at hfirst ⊢
    generalize (step (env 0) a s).1 = answer at hfirst ⊢
    cases hfirst with
    | none => exact hrest
    | some hR => exact .cons hR hrest

/-- Two services that do the same with corresponding messages. -/
theorem run_congr {step' : ε → α' → σ → Option β × σ} {as : List α} {as' : List α'}
    (h : List.Forall₂ (fun a a' => ∀ env s, step env a s = step' env a' s) as as')
    (env : ℕ → ε) (s : σ) : run step env as s = run step' env as' s := by
  induction h generalizing env s with
  | nil => rfl
  | cons hstep _ ih => rw [run_cons, run_cons, hstep, ih]

/-- **Two services in step**: their memories correspond, and with every message they give related
answers and their memories correspond again. -/
theorem run_rel₂ {β' σ' : Type*} {R : β → β' → Prop} {Q : σ → σ' → Prop}
    {step' : ε → α → σ' → Option β' × σ'} {as : List α}
    (h : ∀ a ∈ as, ∀ env s s', Q s s' → Option.Rel R (step env a s).1 (step' env a s').1 ∧
      Q (step env a s).2 (step' env a s').2) (env : ℕ → ε) {s : σ} {s' : σ'} (hs : Q s s') :
    List.Forall₂ R (run step env as s).1 (run step' env as s').1 ∧
      Q (run step env as s).2 (run step' env as s').2 := by
  induction as generalizing env s s' with
  | nil => exact ⟨.nil, hs⟩
  | cons a as ih =>
    obtain ⟨hanswer, hmemory⟩ := h a List.mem_cons_self (env 0) s s' hs
    have hrest := ih (fun b hb => h b (List.mem_cons_of_mem a hb)) (fun i => env (i + 1)) hmemory
    rw [run_cons, run_cons]
    dsimp only
    refine ⟨?_, hrest.2⟩
    generalize (step (env 0) a s).1 = answer at hanswer ⊢
    generalize (step' (env 0) a s').1 = answer' at hanswer ⊢
    cases hanswer with
    | none => exact hrest.1
    | some hR => exact .cons hR hrest.1

/-- **What every message keeps, a run keeps.** -/
theorem run_invariant {I : σ → Prop} (h : ∀ env a s, I s → I (step env a s).2) (env : ℕ → ε)
    (as : List α) {s : σ} (hs : I s) : I (run step env as s).2 := by
  induction as generalizing env s with
  | nil => exact hs
  | cons a as ih => exact ih (fun i => env (i + 1)) (h (env 0) a s hs)

/-- Messages in two parts. -/
theorem run_append (env : ℕ → ε) (as bs : List α) (s : σ) :
    run step env (as ++ bs) s =
      ((run step env as s).1 ++ (run step (fun i => env (i + as.length)) bs (run step env as s).2).1,
        (run step (fun i => env (i + as.length)) bs (run step env as s).2).2) := by
  induction as generalizing env s with
  | nil => rfl
  | cons a as ih =>
    rw [List.cons_append, run_cons, ih, run_cons, List.length_cons]
    simp only [List.append_assoc, Nat.add_assoc]

end Service
