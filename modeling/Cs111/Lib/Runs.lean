import Mathlib.Logic.Basic

structure TransitionSystem (σ ε : Type*) where
  initial : σ → Prop
  step : σ → ε → σ → Prop

namespace TransitionSystem
variable {σ ε : Type*} {S : TransitionSystem σ ε}

-- The history holds each earlier event with the state it met, newest first; `ok` restricts
-- the steps of a run by their history, state and event.
inductive Run (S : TransitionSystem σ ε) (ok : List (σ × ε) → σ → ε → Prop) :
    List (σ × ε) → σ → Prop
  | start {s} : S.initial s → Run S ok [] s
  | next {past s e s'} : Run S ok past s → ok past s e → S.step s e s' → Run S ok ((s, e) :: past) s'

def always : List (σ × ε) → σ → ε → Prop := fun _ _ _ => True

def Reachable (S : TransitionSystem σ ε) (s : σ) : Prop := ∃ past, Run S always past s

section Invariants
variable {ok ok' : List (σ × ε) → σ → ε → Prop} {past : List (σ × ε)} {s : σ}

theorem Run.mono (hok : ∀ past s e, ok past s e → ok' past s e) (h : Run S ok past s) :
    Run S ok' past s := by
  induction h with
  | start hinit => exact .start hinit
  | next _ hstep hnext ih => exact .next ih (hok _ _ _ hstep) hnext

theorem Run.reachable (h : Run S ok past s) : S.Reachable s :=
  ⟨past, h.mono fun _ _ _ _ => trivial⟩

theorem Run.trace_invariant {P : List (σ × ε) → σ → Prop} (h : Run S ok past s)
    (hinit : ∀ s, S.initial s → P [] s)
    (hstep : ∀ past s e s', P past s → ok past s e → S.step s e s' → P ((s, e) :: past) s') :
    P past s := by
  induction h with
  | start h => exact hinit _ h
  | next _ hok hnext ih => exact hstep _ _ _ _ ih hok hnext

theorem Run.invariant {P : σ → Prop} (h : Run S ok past s) (hinit : ∀ s, S.initial s → P s)
    (hstep : ∀ past s e s', P s → ok past s e → S.step s e s' → P s') : P s :=
  h.trace_invariant (P := fun _ => P) hinit hstep

end Invariants

end TransitionSystem
