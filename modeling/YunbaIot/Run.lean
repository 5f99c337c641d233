import Mathlib.Tactic.Common

/-! Runs of a step function over a list of inputs: what every step keeps holds behind
any run, and what every step puts out is put out in order. -/
namespace YunbaIot.Run

variable {σ ι β : Type}

def run (step : σ → ι → σ) (s : σ) (inputs : List ι) : σ := inputs.foldl step s

/- Every input meets the condition in the state it finds. -/
def Along (step : σ → ι → σ) (ok : σ → ι → Prop) : σ → List ι → Prop
  | _, [] => True
  | s, i :: later => ok s i ∧ Along step ok (step s i) later

/- What the steps put out, each from the state it finds. -/
def outputs (step : σ → ι → σ) (emit : σ → ι → List β) : σ → List ι → List β
  | _, [] => []
  | s, i :: later => emit s i ++ outputs step emit (step s i) later

variable {step : σ → ι → σ}

theorem alongEvery {ok : σ → ι → Prop} {inputs : List ι} (every : ∀ i ∈ inputs, ∀ s, ok s i) (s : σ) :
    Along step ok s inputs := by
  induction inputs generalizing s with
  | nil => trivial
  | cons i later ih =>
    exact ⟨every i (List.mem_cons_self ..) s,ih (fun i inside => every i (List.mem_cons_of_mem _ inside)) (step s i)⟩

theorem alongAppend {ok : σ → ι → Prop} {s : σ} {first second : List ι} (along : Along step ok s first)
    (behind : Along step ok (run step s first) second) : Along step ok s (first ++ second) := by
  induction first generalizing s with
  | nil => exact behind
  | cons i later ih =>
    obtain ⟨now,rest⟩ := along
    exact ⟨now,ih rest behind⟩

theorem alongInvariant {inv : σ → Prop} {ok : σ → ι → Prop}
    (kept : ∀ s i, inv s → ok s i → inv (step s i)) {s : σ} {inputs : List ι} (start : inv s)
    (along : Along step ok s inputs) : inv (run step s inputs) := by
  induction inputs generalizing s with
  | nil => exact start
  | cons i later ih =>
    obtain ⟨now,rest⟩ := along
    exact ih (kept s i start now) rest

/- Where two conditions agree in every state that one of them leads to, they hold along the same runs. -/
theorem alongExact {inv : σ → Prop} {p ok : σ → ι → Prop} (same : ∀ s i, inv s → (p s i ↔ ok s i))
    (kept : ∀ s i, inv s → ok s i → inv (step s i)) {s : σ} (start : inv s) (inputs : List ι) :
    Along step p s inputs ↔ Along step ok s inputs := by
  induction inputs generalizing s with
  | nil => exact Iff.rfl
  | cons i later ih =>
    have now := same s i start
    constructor
    · intro along
      have fine := now.mp along.1
      exact ⟨fine,(ih (kept s i start fine)).mp along.2⟩
    · intro along
      exact ⟨now.mpr along.1,(ih (kept s i start along.1)).mpr along.2⟩

theorem runInvariant {inv : σ → Prop} (kept : ∀ s i, inv s → inv (step s i)) {s : σ} (inputs : List ι)
    (start : inv s) : inv (run step s inputs) := by
  induction inputs generalizing s with
  | nil => exact start
  | cons i later ih => exact ih (kept s i start)

/- An abstract machine that every step follows is followed by the run. -/
theorem runRefines {α : Type} (step : σ → ι → σ) (abstractStep : α → ι → α) (ready : σ → List ι → Prop) (abs : σ → α)
    (advance : ∀ s i later, ready s (i :: later) →
      ready (step s i) later ∧ abs (step s i) = abstractStep (abs s) i)
    {s : σ} {inputs : List ι} (start : ready s inputs) :
    abs (run step s inputs) = run abstractStep (abs s) inputs := by
  induction inputs generalizing s with
  | nil => rfl
  | cons i later ih =>
    obtain ⟨still,followed⟩ := advance s i later start
    have rest := ih still
    rw [followed] at rest
    exact rest

/- A run through inputs it is ready for, each step being ready for the rest. -/
theorem runOutputs (step : σ → ι → σ) (ready : σ → List ι → Prop) (out : σ → List β) (emit : σ → ι → List β)
    (advance : ∀ s i later, ready s (i :: later) →
      ready (step s i) later ∧ out (step s i) = out s ++ emit s i)
    {s : σ} {inputs : List ι} (start : ready s inputs) :
    out (run step s inputs) = out s ++ outputs step emit s inputs := by
  induction inputs generalizing s with
  | nil => simp [run, outputs]
  | cons i later ih =>
    obtain ⟨still,gained⟩ := advance s i later start
    have rest := ih still
    have first : run step s (i :: later) = run step (step s i) later := rfl
    rw [first, rest, gained, outputs, List.append_assoc]

/- Outputs that the inputs alone decide. -/
theorem outputsConstant (emit : ι → List β) (s : σ) (inputs : List ι) :
    outputs step (fun _ => emit) s inputs = inputs.flatMap emit := by
  induction inputs generalizing s with
  | nil => rfl
  | cons i later ih => rw [outputs, ih, List.flatMap_cons]

end YunbaIot.Run
