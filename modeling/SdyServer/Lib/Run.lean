import Mathlib.Data.List.Basic

/-!
# Runs of a step function

A system is a step function on states and events. A run is a list of events folded over an initial
state, and an event that is not enabled leaves the state as it is. `Along` says that every step of a
run was taken under a condition on the state it started from, which is how a property of the runs
that avoid some schedule is stated.
-/

namespace Run

variable {σ ε : Type*} (step : σ → ε → σ)

/-- The state reached by the events from `s`. -/
def exec (s : σ) (events : List ε) : σ := events.foldl step s

/-- Every step of the run from `s` meets `cond`. -/
def Along (cond : σ → ε → Prop) : σ → List ε → Prop
  | _, [] => True
  | s, event :: events => cond s event ∧ Along cond (step s event) events

instance decidableAlong (cond : σ → ε → Prop) [∀ s e, Decidable (cond s e)] :
    ∀ (s : σ) (events : List ε), Decidable (Along step cond s events)
  | _, [] => isTrue trivial
  | s, event :: events =>
      haveI := decidableAlong cond (step s event) events
      inferInstanceAs (Decidable (_ ∧ _))

@[simp]
theorem exec_nil (s : σ) : exec step s [] = s := rfl

@[simp]
theorem exec_cons (s : σ) (event : ε) (events : List ε) :
    exec step s (event :: events) = exec step (step s event) events := rfl

theorem exec_append (s : σ) (events events' : List ε) :
    exec step s (events ++ events') = exec step (exec step s events) events' :=
  List.foldl_append ..

variable {step}

/-- **The invariant rule.** What every permitted step keeps, every run of permitted steps keeps. -/
theorem invariant {cond : σ → ε → Prop} {Inv : σ → Prop}
    (hstep : ∀ s event, Inv s → cond s event → Inv (step s event)) :
    ∀ (events : List ε) (s : σ), Inv s → Along step cond s events → Inv (exec step s events) := by
  intro events
  induction events with
  | nil =>
      intro s hinv _
      exact hinv
  | cons event events ih =>
      intro s hinv halong
      exact ih (step s event) (hstep s event hinv halong.1) halong.2

/-- **The simulation rule.** What each permitted step keeps between two systems, the runs keep. -/
theorem simulation {τ : Type*} {step' : τ → ε → τ} {cond : ε → Prop} {R : σ → τ → Prop}
    (hstep : ∀ s t event, R s t → cond event → R (step s event) (step' t event)) :
    ∀ (events : List ε) (s : σ) (t : τ), R s t → (∀ event ∈ events, cond event) →
      R (exec step s events) (exec step' t events) := by
  intro events
  induction events with
  | nil =>
      intro s t hR _
      exact hR
  | cons event events ih =>
      intro s t hR hcond
      exact ih _ _ (hstep s t event hR (hcond event List.mem_cons_self))
        fun event' hevent' => hcond event' (List.mem_cons_of_mem _ hevent')

/-- Every run is one of permitted steps when every step is permitted. -/
theorem Along.of_forall {cond : σ → ε → Prop} (hcond : ∀ s event, cond s event)
    (events : List ε) (s : σ) :
    Along step cond s events := by
  induction events generalizing s with
  | nil => trivial
  | cons event events ih => exact ⟨hcond s event, ih (step s event)⟩

theorem Along.imp {cond cond' : σ → ε → Prop} (himp : ∀ s event, cond s event → cond' s event)
    {events : List ε} {s : σ} (halong : Along step cond s events) : Along step cond' s events := by
  induction events generalizing s with
  | nil => trivial
  | cons event events ih => exact ⟨himp s event halong.1, ih halong.2⟩

/-- A run of permitted steps that is cut short is still one. -/
theorem Along.of_append {cond : σ → ε → Prop} {events events' : List ε} {s : σ}
    (halong : Along step cond s (events ++ events')) : Along step cond s events := by
  induction events generalizing s with
  | nil => trivial
  | cons event events ih => exact ⟨halong.1, ih halong.2⟩

theorem Along.take {cond : σ → ε → Prop} {events : List ε} {s : σ}
    (halong : Along step cond s events)
    (n : Nat) : Along step cond s (events.take n) := by
  rw [← List.take_append_drop n events] at halong
  exact halong.of_append

/-- What follows a run of permitted steps goes on with permitted steps. -/
theorem Along.of_append_right {cond : σ → ε → Prop} {events events' : List ε} {s : σ}
    (halong : Along step cond s (events ++ events')) :
    Along step cond (exec step s events) events' := by
  induction events generalizing s with
  | nil => exact halong
  | cons event events ih => exact ih halong.2

/-- **The exact rule.** When the permitted steps are those that keep a property, the runs in which
it holds throughout are the runs of permitted steps. -/
theorem forall_take_iff {cond : σ → ε → Prop} {Inv Good : σ → Prop}
    (hinv : ∀ s event, Inv s → Inv (step s event))
    (hgood : ∀ s event, Inv s → Good s → (Good (step s event) ↔ cond s event)) :
    ∀ (events : List ε) (s : σ), Inv s → Good s →
      ((∀ n, Good (exec step s (events.take n))) ↔ Along step cond s events) := by
  intro events
  induction events with
  | nil =>
      intro s _ hs
      exact ⟨fun _ => trivial, fun _ n => by rw [List.take_nil]; exact hs⟩
  | cons event events ih =>
      intro s hi hs
      constructor
      · intro h
        have hnext : Good (step s event) := h 1
        refine ⟨(hgood s event hi hs).mp hnext, ?_⟩
        exact (ih (step s event) (hinv s event hi) hnext).mp fun n => h (n + 1)
      · intro h n
        have hnext := (hgood s event hi hs).mpr h.1
        cases n with
        | zero => exact hs
        | succ n => exact (ih (step s event) (hinv s event hi) hnext).mpr h.2 n

/-- **The exact rule for steps.** When the permitted steps are those that are taken well, the runs
whose steps are all taken well are the runs of permitted steps. -/
theorem forall_index_iff {cond good : σ → ε → Prop} {Inv Sound : σ → Prop}
    (hinv : ∀ s event, Inv s → Inv (step s event))
    (hsound : ∀ s event, good s event → Sound (step s event))
    (hgood : ∀ s event, Inv s → Sound s → (good s event ↔ cond s event)) :
    ∀ (events : List ε) (s : σ), Inv s → Sound s →
      ((∀ n event, events[n]? = some event → good (exec step s (events.take n)) event) ↔
        Along step cond s events) := by
  intro events
  induction events with
  | nil =>
      intro s _ _
      exact ⟨fun _ => trivial, fun _ n event hevent => absurd hevent (by simp)⟩
  | cons event events ih =>
      intro s hi hs
      constructor
      · intro h
        have hfirst : good s event := h 0 event rfl
        refine ⟨(hgood s event hi hs).mp hfirst, ?_⟩
        refine (ih (step s event) (hinv s event hi) (hsound s event hfirst)).mp
          fun n event' hevent' => ?_
        exact h (n + 1) event' hevent'
      · intro h n event' hevent'
        have hfirst := (hgood s event hi hs).mpr h.1
        cases n with
        | zero =>
            cases hevent'
            exact hfirst
        | succ n =>
            exact (ih (step s event) (hinv s event hi) (hsound s event hfirst)).mpr h.2 n
              event' hevent'

/-- The last step of a run of permitted steps is permitted where it is taken. -/
theorem Along.last {cond : σ → ε → Prop} {events : List ε} {event : ε} {s : σ}
    (halong : Along step cond s (events ++ [event])) : cond (exec step s events) event := by
  induction events generalizing s with
  | nil => exact halong.1
  | cons head events ih => exact ih halong.2

theorem Along.and {cond cond' : σ → ε → Prop} {events : List ε} {s : σ}
    (halong : Along step cond s events)
    (halong' : Along step cond' s events) :
    Along step (fun s event => cond s event ∧ cond' s event) s events := by
  induction events generalizing s with
  | nil => trivial
  | cons event events ih => exact ⟨⟨halong.1, halong'.1⟩, ih halong.2 halong'.2⟩

/-- Any step of a run of permitted steps is permitted where it is taken. -/
theorem Along.at_index {cond : σ → ε → Prop} {events : List ε} {event : ε} {n : Nat} {s : σ}
    (halong : Along step cond s events) (hevent : events[n]? = some event) :
    cond (exec step s (events.take n)) event := by
  induction events generalizing s n with
  | nil => simp at hevent
  | cons head events ih =>
      cases n with
      | zero =>
          rw [List.getElem?_cons_zero, Option.some.injEq] at hevent
          exact hevent ▸ halong.1
      | succ n => exact ih halong.2 (by simpa using hevent)

end Run
