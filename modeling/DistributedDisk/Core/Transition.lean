import Mathlib.Data.List.Basic
import Mathlib.Logic.Function.Basic

/-! Finite runs of labelled step relations, the invariant rules used for them,
and the free interleaving of a family of components. A condition on a schedule
is a guard that every step of the run meets. -/
namespace Transition
variable {S E ι : Type}

inductive Run (step : S → E → S → Prop) : S → List E → S → Prop where
  | refl (s) : Run step s [] s
  | next : step s e t → Run step t rest u → Run step s (e :: rest) u

/-- The steps of a relation that meet a condition on the state before them. -/
def Under (guard : S → E → Prop) (step : S → E → S → Prop) (s : S) (e : E) (t : S) : Prop :=
  step s e t ∧ guard s e

/-- The steps of a relation whose states keep the labels taken so far. -/
def Recorded (step : S → E → S → Prop) (s : List E × S) (e : E) (t : List E × S) : Prop :=
  step s.2 e t.2 ∧ t.1 = s.1 ++ [e]

theorem Recorded.of_step {step : S → E → S → Prop} (past : List E) (head : step s e t) :
    Recorded step (past, s) e (past ++ [e], t) := ⟨head, rfl⟩

/-- What a run shows, when one more label is taken. -/
theorem filterMap_concat {F : Type} (shows : E → Option F) (tr : List E) (e : E) :
    (tr ++ [e]).filterMap shows = tr.filterMap shows ++ (shows e).toList := by
  rw [List.filterMap_append]
  cases shown : shows e with
  | none => rw [List.filterMap_cons_none shown]; rfl
  | some => rw [List.filterMap_cons_some shown]; rfl

namespace Run
variable {step : S → E → S → Prop}

theorem single (h : step s e t) : Run step s [e] t := .next h (.refl _)

theorem trans (first : Run step s tr t) (second : Run step t tr' u) : Run step s (tr ++ tr') u := by
  induction first with
  | refl => exact second
  | next head _ ih => exact .next head (ih second)

/-- The states around one of the labels. -/
theorem split (run : Run step s (past ++ e :: rest) u) :
    ∃ t t', Run step s past t ∧ step t e t' ∧ Run step t' rest u := by
  induction past generalizing s with
  | nil =>
    cases run with
    | next head tail => exact ⟨_, _, .refl _, head, tail⟩
  | cons first past ih =>
    cases run with
    | next head tail =>
      obtain ⟨t, t', before, here, after⟩ := ih tail
      exact ⟨t, t', .next head before, here, after⟩

theorem invariant {P : S → Prop} (preserves : ∀ {s e t}, P s → step s e t → P t)
    (run : Run step s tr t) (initial : P s) : P t := by
  induction run with
  | refl => exact initial
  | next head _ ih => exact ih (preserves initial head)

/-- Invariants that speak about the labels so far: the run is extended at its
end, so the history `tr` is available in every step. -/
theorem history {P : List E → S → Prop} (run : Run step s tr t) (initial : P [] s)
    (preserves : ∀ {tr t e u}, P tr t → step t e u → P (tr ++ [e]) u) : P tr t := by
  suffices general : ∀ past, P past s → P (past ++ tr) t from general [] initial
  clear initial
  induction run with
  | refl => simp
  | next head _ ih =>
    intro past before
    simpa using ih _ (preserves before head)

theorem mono {step' : S → E → S → Prop} (weaker : ∀ {s e t}, step s e t → step' s e t)
    (run : Run step s tr t) : Run step' s tr t := by
  induction run with
  | refl => exact .refl _
  | next head _ ih => exact .next (weaker head) ih

theorem guarded {guard : S → E → Prop} (run : Run (Under guard step) s tr t) : Run step s tr t :=
  run.mono And.left

/-- A run whose labels meet the condition in every state. -/
theorem under {guard : S → E → Prop} (run : Run step s tr t) (free : ∀ s, ∀ e ∈ tr, guard s e) :
    Run (Under guard step) s tr t := by
  induction run with
  | refl => exact .refl _
  | next head _ ih =>
    exact .next ⟨head, free _ _ (by simp)⟩ (ih fun s e member => free s e (by simp [member]))

end Run

/-- One component moves, every other component keeps its state. -/
def Interleave (step : S → E → S → Prop) (σ : ι → S) (label : ι × E) (τ : ι → S) : Prop :=
  step (σ label.1) label.2 (τ label.1) ∧ ∀ j, j ≠ label.1 → τ j = σ j

/-- What holds of the component that moved, and held of the others, holds of each. -/
theorem Interleave.forall_of_step {step : S → E → S → Prop} {σ τ : ι → S} {P : ι → S → Prop}
    (moves : Interleave step σ label τ) (moved : P label.1 (τ label.1))
    (others : ∀ j, j ≠ label.1 → P j (σ j)) (j : ι) : P j (τ j) := by
  by_cases here : j = label.1
  · exact here ▸ moved
  · rw [moves.2 j here]
    exact others j here

variable [DecidableEq ι]

/-- The labels of component `i`. -/
def own (i : ι) (tr : List (ι × E)) : List E :=
  tr.filterMap fun label => if label.1 = i then some label.2 else none

@[simp] theorem own_cons_self (i : ι) (e : E) (tr : List (ι × E)) :
    own i ((i, e) :: tr) = e :: own i tr := by simp [own]

theorem own_cons_ne {i j : ι} (h : j ≠ i) (e : E) (tr : List (ι × E)) :
    own i ((j, e) :: tr) = own i tr := by simp [own, h]

@[simp] theorem own_map (i : ι) (tr : List E) : own i (tr.map (Prod.mk i)) = tr := by
  simp [own, List.filterMap_map]

theorem own_map_ne {i j : ι} (h : j ≠ i) (tr : List E) : own i (tr.map (Prod.mk j)) = [] := by
  simp [own, h]

@[simp] theorem own_append (i : ι) (tr tr' : List (ι × E)) :
    own i (tr ++ tr') = own i tr ++ own i tr' := List.filterMap_append

/-- A component of an interleaving runs as it would alone. -/
theorem Run.project {step : S → E → S → Prop} {σ τ : ι → S}
    (run : Run (Interleave step) σ tr τ) (i : ι) : Run step (σ i) (own i tr) (τ i) := by
  induction run with
  | refl => exact .refl _
  | @next _ label _ _ _ head _ ih =>
    obtain ⟨j, e⟩ := label
    by_cases same : j = i
    · subst same
      rw [own_cons_self]
      exact .next head.1 ih
    · rw [own_cons_ne same]
      exact head.2 i (Ne.symm same) ▸ ih

/-- A component that has not moved could have been in any state. -/
theorem Run.replace {step : S → E → S → Prop} {σ τ : ι → S}
    (run : Run (Interleave step) σ tr τ) (i : ι) (idle : own i tr = []) (a : S) :
    Run (Interleave step) (Function.update σ i a) tr (Function.update τ i a) := by
  induction run with
  | refl => exact .refl _
  | @next σ label σ' rest τ head _ ih =>
    obtain ⟨j, e⟩ := label
    by_cases same : j = i
    · subst same
      rw [own_cons_self] at idle
      cases idle
    · rw [own_cons_ne same] at idle
      refine .next ⟨?_, fun k other => ?_⟩ (ih idle)
      · simpa only [Function.update_of_ne same] using head.1
      · by_cases here : k = i
        · subst here
          rw [Function.update_self, Function.update_self]
        · rw [Function.update_of_ne here, Function.update_of_ne here]
          exact head.2 k other

/-- What a component does alone, it can do while the others rest. -/
theorem Run.embed {step : S → E → S → Prop} (run : Run step s tr t) (i : ι) (σ : ι → S)
    (here : σ i = s) :
    Run (Interleave step) σ (tr.map (Prod.mk i)) (Function.update σ i t) := by
  induction run generalizing σ with
  | refl s =>
    subst here
    rw [Function.update_eq_self]
    exact .refl _
  | @next s e s' rest t head _ ih =>
    subst here
    have moved := ih (Function.update σ i s') (Function.update_self ..)
    rw [Function.update_idem] at moved
    refine .next ⟨?_, fun j other => Function.update_of_ne other ..⟩ moved
    simpa only [Function.update_self] using head

/-- A run of components in turn. -/
theorem Run.move {step : S → E → S → Prop} {σ τ : ι → S} (before : Run (Interleave step) σ tr τ)
    (i : ι) (here : τ i = s) (run : Run step s tr' t) :
    Run (Interleave step) σ (tr ++ tr'.map (Prod.mk i)) (Function.update τ i t) :=
  before.trans (run.embed i τ here)

/-- The runs of single components make a run of all of them, one after the other. -/
theorem Run.gather {step : S → E → S → Prop} {σ τ : ι → S} {f : ι → List E}
    (runs : ∀ i, Run step (σ i) (f i) (τ i)) (l : List ι) (nodup : l.Nodup) :
    ∃ tr, Run (Interleave step) σ tr (fun i => if i ∈ l then τ i else σ i) ∧
      ∀ i, own i tr = if i ∈ l then f i else [] := by
  induction l with
  | nil => exact ⟨[], .refl _, fun _ => rfl⟩
  | cons i l ih =>
    obtain ⟨absent, nodup⟩ := List.nodup_cons.mp nodup
    obtain ⟨tr, run, own_tr⟩ := ih nodup
    have state : Function.update (fun j => if j ∈ l then τ j else σ j) i (τ i) =
        fun j => if j ∈ i :: l then τ j else σ j := by
      funext j
      by_cases same : j = i
      · subst same
        rw [Function.update_self, if_pos List.mem_cons_self]
      · rw [Function.update_of_ne same]
        simp only [List.mem_cons, same, false_or]
    refine ⟨_, state ▸ run.move i (if_neg absent) (runs i), fun j => ?_⟩
    rw [own_append, own_tr]
    by_cases same : j = i
    · subst same
      rw [own_map, if_neg absent, if_pos List.mem_cons_self, List.nil_append]
    · rw [own_map_ne (Ne.symm same), List.append_nil]
      simp only [List.mem_cons, same, false_or]

end Transition
