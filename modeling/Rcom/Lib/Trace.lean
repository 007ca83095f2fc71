import Mathlib.Data.List.Basic

/-!
# Runs of a labelled transition system

A run is kept with its moves, so that a property of the moves (what a step was
answered, whether a guard held) can be stated next to a property of the states.
The induction over a run is done here once: `Run.invariant` for what every
guarded move preserves, `Run.forall_iff` for the exact guard.
-/

namespace Rcom.Lib.Trace

structure Move (σ α : Type*) where
  src : σ
  act : α
  dst : σ

variable {σ α : Type*} {step : σ → α → σ → Prop}

inductive Run (step : σ → α → σ → Prop) : σ → List (Move σ α) → σ → Prop where
  | nil (s : σ) : Run step s [] s
  | cons {s t u : σ} {a : α} {ms : List (Move σ α)} :
      step s a t → Run step t ms u → Run step s (⟨s, a, t⟩ :: ms) u

theorem Run.append {s t u : σ} {ms ns : List (Move σ α)}
    (h : Run step s ms t) (h' : Run step t ns u) : Run step s (ms ++ ns) u := by
  induction h with
  | nil => exact h'
  | cons hs _ ih => exact .cons hs (ih h')

theorem Run.single {s t : σ} {a : α} (h : step s a t) : Run step s [⟨s, a, t⟩] t :=
  .cons h (.nil t)

theorem Run.split {s u : σ} {ms ns : List (Move σ α)} {m : Move σ α}
    (h : Run step s (ms ++ m :: ns) u) :
    Run step s ms m.src ∧ step m.src m.act m.dst ∧ Run step m.dst ns u := by
  induction ms generalizing s with
  | nil =>
    cases h with
    | cons hs hr => exact ⟨.nil _, hs, hr⟩
  | cons n ms ih =>
    cases h with
    | cons hs hr =>
      obtain ⟨hpre, hm, hpost⟩ := ih hr
      exact ⟨.cons hs hpre, hm, hpost⟩

theorem Run.invariant {I : σ → Prop} {G : Move σ α → Prop}
    (hstep : ∀ s a t, I s → step s a t → G ⟨s, a, t⟩ → I t)
    {s t : σ} {ms : List (Move σ α)} (h : Run step s ms t)
    (h0 : I s) (hG : ∀ m ∈ ms, G m) : I t := by
  induction h with
  | nil => exact h0
  | cons hs _ ih =>
    simp only [List.mem_cons, forall_eq_or_imp] at hG
    exact ih (hstep _ _ _ h0 hs hG.1) hG.2

theorem Run.invariant_dst {I : σ → Prop} {G : Move σ α → Prop}
    (hstep : ∀ s a t, I s → step s a t → G ⟨s, a, t⟩ → I t)
    {s t : σ} {ms : List (Move σ α)} (h : Run step s ms t)
    (h0 : I s) (hG : ∀ m ∈ ms, G m) : ∀ m ∈ ms, I m.dst := by
  induction h with
  | nil => simp
  | cons hs _ ih =>
    simp only [List.mem_cons, forall_eq_or_imp] at hG ⊢
    have ht := hstep _ _ _ h0 hs hG.1
    exact ⟨ht, ih ht hG.2⟩

/-- When, from states satisfying `I`, a move is good exactly if its guard holds
and then stays in `I`, the moves of a run are all good exactly if all guards hold. -/
theorem Run.forall_iff {I : σ → Prop} {P G : Move σ α → Prop}
    (hgood : ∀ s a t, I s → step s a t → (P ⟨s, a, t⟩ ↔ G ⟨s, a, t⟩))
    (hstep : ∀ s a t, I s → step s a t → G ⟨s, a, t⟩ → I t)
    {s t : σ} {ms : List (Move σ α)} (h : Run step s ms t) (h0 : I s) :
    (∀ m ∈ ms, P m) ↔ ∀ m ∈ ms, G m := by
  induction h with
  | nil => simp
  | cons hs _ ih =>
    simp only [List.mem_cons, forall_eq_or_imp]
    have hg := hgood _ _ _ h0 hs
    constructor
    · rintro ⟨hp, hps⟩
      exact ⟨hg.1 hp, (ih (hstep _ _ _ h0 hs (hg.1 hp))).1 hps⟩
    · rintro ⟨hG, hGs⟩
      exact ⟨hg.2 hG, (ih (hstep _ _ _ h0 hs hG)).2 hGs⟩

/-! ## Executable steps -/

/-- The moves that a list of labels makes, up to the first one that is not enabled. -/
def moves (exec : σ → α → Option σ) : σ → List α → List (Move σ α)
  | _, [] => []
  | s, a :: as =>
    match exec s a with
    | none => []
    | some t => ⟨s, a, t⟩ :: moves exec t as

theorem run_moves (exec : σ → α → Option σ) (s : σ) (as : List α) :
    ∃ t, Run (fun s a t => exec s a = some t) s (moves exec s as) t ∧
      t = ((moves exec s as).getLast?.map Move.dst).getD s := by
  induction as generalizing s with
  | nil => exact ⟨s, .nil s, rfl⟩
  | cons a as ih =>
    rw [moves]
    cases h : exec s a with
    | none => exact ⟨s, .nil s, rfl⟩
    | some u =>
      obtain ⟨t, hrun, hlast⟩ := ih u
      refine ⟨t, .cons h hrun, ?_⟩
      dsimp only
      rw [List.getLast?_cons, Option.map_some, Option.getD_some, hlast]
      cases (moves exec u as).getLast? with
      | none => rfl
      | some m => rfl

end Rcom.Lib.Trace
