import Mathlib.Data.List.Induction

/-!
# Executable transition systems

A machine is given by its initial state and a partial next-state function.
Every source of nondeterminism (the scheduler, spurious failures, the choices
of a caller) is part of the label, so that a run is a list of labels and can
be evaluated.  A step also emits observations; the observations of a run are
its history.

The invariant rule and the simulation rule below are the only inductions over
runs that the models of this development need.
-/

namespace AsyncMutex

structure Machine (σ ℓ ε : Type*) where
  init : σ
  next : σ → ℓ → Option (σ × List ε)

namespace Machine

variable {σ σ' ℓ ε : Type*}

/-- Continue from a state and its history through one label. -/
def advance (machine : Machine σ ℓ ε) (current : σ × List ε) (label : ℓ) :
    Option (σ × List ε) :=
  (machine.next current.1 label).map fun result =>
    (result.1, current.2 ++ result.2)

/-- The state and the history after a word of labels, when every step of the
word is enabled. -/
def run (machine : Machine σ ℓ ε) (labels : List ℓ) : Option (σ × List ε) :=
  labels.foldlM machine.advance (machine.init, [])

/-- The machine can reach `state` with the observations `history`. -/
def Trace (machine : Machine σ ℓ ε) (history : List ε) (state : σ) : Prop :=
  ∃ labels, machine.run labels = some (state, history)

def Reachable (machine : Machine σ ℓ ε) (state : σ) : Prop :=
  ∃ history, machine.Trace history state

theorem run_append_singleton (machine : Machine σ ℓ ε) (labels : List ℓ)
    (label : ℓ) :
    machine.run (labels ++ [label]) =
      (machine.run labels).bind fun current => machine.advance current label := by
  simp [run, List.foldlM_append]

theorem trace_init (machine : Machine σ ℓ ε) : machine.Trace [] machine.init :=
  ⟨[], rfl⟩

theorem reachable_init (machine : Machine σ ℓ ε) :
    machine.Reachable machine.init :=
  ⟨[], machine.trace_init⟩

theorem Trace.step {machine : Machine σ ℓ ε} {history events : List ε}
    {state next : σ} {label : ℓ} (htrace : machine.Trace history state)
    (hnext : machine.next state label = some (next, events)) :
    machine.Trace (history ++ events) next := by
  obtain ⟨labels, hrun⟩ := htrace
  refine ⟨labels ++ [label], ?_⟩
  rw [run_append_singleton, hrun]
  simp [advance, hnext]

theorem Reachable.step {machine : Machine σ ℓ ε} {events : List ε}
    {state next : σ} {label : ℓ} (hreach : machine.Reachable state)
    (hnext : machine.next state label = some (next, events)) :
    machine.Reachable next := by
  obtain ⟨history, htrace⟩ := hreach
  exact ⟨_, htrace.step hnext⟩

theorem Trace.reachable {machine : Machine σ ℓ ε} {history : List ε}
    {state : σ} (htrace : machine.Trace history state) :
    machine.Reachable state :=
  ⟨history, htrace⟩

/-- A property of histories and states that holds initially and is preserved
by every step from a reachable state holds along every run. -/
theorem Trace.invariant {machine : Machine σ ℓ ε}
    {motive : List ε → σ → Prop} (hinit : motive [] machine.init)
    (hstep : ∀ history state label next events,
      machine.Trace history state → motive history state →
        machine.next state label = some (next, events) →
          motive (history ++ events) next)
    {history : List ε} {state : σ} (htrace : machine.Trace history state) :
    motive history state := by
  obtain ⟨labels, hrun⟩ := htrace
  induction labels using List.reverseRecOn generalizing history state with
  | nil =>
      simp only [run, List.foldlM_nil, Option.pure_def, Option.some.injEq,
        Prod.mk.injEq] at hrun
      obtain ⟨rfl, rfl⟩ := hrun
      exact hinit
  | append_singleton labels label ih =>
      rw [run_append_singleton, Option.bind_eq_some_iff] at hrun
      obtain ⟨⟨before, past⟩, hbefore, hadvance⟩ := hrun
      simp only [advance, Option.map_eq_some_iff] at hadvance
      obtain ⟨⟨after, events⟩, hnext, heq⟩ := hadvance
      simp only [Prod.mk.injEq] at heq
      obtain ⟨rfl, rfl⟩ := heq
      exact hstep past before label after events ⟨labels, hbefore⟩
        (ih hbefore) hnext

theorem Reachable.invariant {machine : Machine σ ℓ ε} {motive : σ → Prop}
    (hinit : motive machine.init)
    (hstep : ∀ state label next events,
      machine.Reachable state → motive state →
        machine.next state label = some (next, events) → motive next)
    {state : σ} (hreach : machine.Reachable state) : motive state := by
  obtain ⟨history, htrace⟩ := hreach
  exact htrace.invariant (motive := fun _ state => motive state) hinit
    fun _ state label next events hpast hold hnext =>
      hstep state label next events hpast.reachable hold hnext

theorem reachable_of_run (machine : Machine σ ℓ ε) (labels : List ℓ)
    {result : σ × List ε} (hrun : machine.run labels = some result) :
    machine.Reachable result.1 :=
  ⟨result.2, labels, hrun⟩

/-! ## Runs within a region -/

/-- The runs of a machine whose states all are in `region`. -/
inductive TraceWithin (machine : Machine σ ℓ ε) (region : σ → Prop) : List ε → σ → Prop
  | init (hregion : region machine.init) : TraceWithin machine region [] machine.init
  | step {history events : List ε} {state next : σ} {label : ℓ}
      (htrace : TraceWithin machine region history state)
      (hnext : machine.next state label = some (next, events)) (hregion : region next) :
      TraceWithin machine region (history ++ events) next

theorem TraceWithin.trace {machine : Machine σ ℓ ε} {region : σ → Prop} {history : List ε}
    {state : σ} (htrace : machine.TraceWithin region history state) :
    machine.Trace history state := by
  induction htrace with
  | init => exact machine.trace_init
  | step _ hnext _ htrace => exact htrace.step hnext

theorem TraceWithin.region {machine : Machine σ ℓ ε} {region : σ → Prop} {history : List ε}
    {state : σ} (htrace : machine.TraceWithin region history state) : region state := by
  cases htrace with
  | init hregion => exact hregion
  | step _ _ hregion => exact hregion

/-- A run stays where all its states are known to be. -/
theorem TraceWithin.imp {machine : Machine σ ℓ ε} {region region' : σ → Prop}
    {history : List ε} {state : σ} (htrace : machine.TraceWithin region history state)
    (hregion : ∀ history state, machine.TraceWithin region history state → region' state) :
    machine.TraceWithin region' history state := by
  induction htrace with
  | init hinit => exact .init (hregion _ _ (.init hinit))
  | step htrace hnext hafter hbefore =>
      exact hbefore.step hnext (hregion _ _ (htrace.step hnext hafter))

theorem Trace.within {machine : Machine σ ℓ ε} {region : σ → Prop} {history : List ε}
    {state : σ} (htrace : machine.Trace history state) (hregion : ∀ state, region state) :
    machine.TraceWithin region history state := by
  refine htrace.invariant (motive := machine.TraceWithin region) (.init (hregion _)) ?_
  exact fun past before label after events _ hbefore hnext =>
    hbefore.step hnext (hregion after)

/-! ## Restricting the steps of a machine -/

/-- The machine that takes only the steps allowed by `allowed`. -/
def restrict (machine : Machine σ ℓ ε) (allowed : σ → ℓ → Prop)
    [∀ state label, Decidable (allowed state label)] : Machine σ ℓ ε where
  init := machine.init
  next state label :=
    if allowed state label then machine.next state label else none

/-- The machine that begins in `state`. -/
def start (machine : Machine σ ℓ ε) (state : σ) : Machine σ ℓ ε :=
  { machine with init := state }

theorem restrict_next {machine : Machine σ ℓ ε} {allowed : σ → ℓ → Prop}
    [∀ state label, Decidable (allowed state label)] {state : σ} {label : ℓ}
    {result : σ × List ε} :
    (machine.restrict allowed).next state label = some result ↔
      allowed state label ∧ machine.next state label = some result := by
  simp only [restrict]
  split <;> simp_all

/-- A part of a run continues a run. -/
theorem Trace.append {machine : Machine σ ℓ ε} {allowed : σ → ℓ → Prop}
    [∀ state label, Decidable (allowed state label)] {history events : List ε}
    {state next : σ} (htrace : machine.Trace history state)
    (hpart : ((machine.start state).restrict allowed).Trace events next) :
    machine.Trace (history ++ events) next := by
  refine hpart.invariant
    (motive := fun events next => machine.Trace (history ++ events) next)
    (by rw [List.append_nil]; exact htrace) ?_
  intro past before label after events _ hbefore hnext
  obtain ⟨-, hnext⟩ := restrict_next.mp hnext
  rw [← List.append_assoc]
  exact hbefore.step hnext

/-! ## Keeping books beside a machine -/

section Record

variable {γ : Type*} (note : σ → ℓ → List ε → σ → γ → γ) (books : γ)

/-- The machine with books beside its state, written up by `note` from the
states before and after every step. -/
def record (machine : Machine σ ℓ ε) : Machine (σ × γ) ℓ ε where
  init := (machine.init, books)
  next current label :=
    (machine.next current.1 label).map fun result =>
      ((result.1, note current.1 label result.2 result.1 current.2), result.2)

variable {note books}

theorem record_next {machine : Machine σ ℓ ε} {current next : σ × γ} {label : ℓ}
    {events : List ε}
    (hnext : (machine.record note books).next current label = some (next, events)) :
    machine.next current.1 label = some (next.1, events) ∧
      next.2 = note current.1 label events next.1 current.2 := by
  simp only [record, Option.map_eq_some_iff] at hnext
  obtain ⟨result, hresult, heq⟩ := hnext
  cases heq
  exact ⟨hresult, rfl⟩

/-- Books can be kept of every run. -/
theorem Trace.recorded {machine : Machine σ ℓ ε} {history : List ε} {state : σ}
    (htrace : machine.Trace history state) :
    ∃ kept, (machine.record note books).Trace history (state, kept) := by
  refine htrace.invariant
    (motive := fun history state =>
      ∃ kept, (machine.record note books).Trace history (state, kept))
    ⟨books, trace_init _⟩ ?_
  intro past before label after events _ hbefore hnext
  obtain ⟨kept, hkept⟩ := hbefore
  have hrecord : (machine.record note books).next (before, kept) label =
      some ((after, note before label events after kept), events) := by
    simp only [record, hnext, Option.map_some]
  exact ⟨_, hkept.step hrecord⟩

theorem Trace.unrecorded {machine : Machine σ ℓ ε} {history : List ε} {current : σ × γ}
    (htrace : (machine.record note books).Trace history current) :
    machine.Trace history current.1 := by
  refine htrace.invariant
    (motive := fun history current => machine.Trace history current.1)
    machine.trace_init ?_
  intro past before label after events _ hbefore hnext
  exact hbefore.step (record_next hnext).1

end Record

/-! ## Forward simulation -/

/-- `relates` is a forward simulation of `concrete` by `abstract` which keeps
labels and observations. -/
structure Simulation (concrete : Machine σ ℓ ε) (abstract : Machine σ' ℓ ε)
    (relates : σ → σ' → Prop) : Prop where
  init : relates concrete.init abstract.init
  step : ∀ state state' label next events,
    abstract.Reachable state' → relates state state' →
      concrete.next state label = some (next, events) →
        ∃ next', abstract.next state' label = some (next', events) ∧
          relates next next'

theorem Simulation.trace {concrete : Machine σ ℓ ε}
    {abstract : Machine σ' ℓ ε} {relates : σ → σ' → Prop}
    (hsim : Simulation concrete abstract relates)
    {history : List ε} {state : σ} (htrace : concrete.Trace history state) :
    ∃ state', abstract.Trace history state' ∧ relates state state' := by
  refine htrace.invariant
    (motive := fun history state =>
      ∃ state', abstract.Trace history state' ∧ relates state state')
    ⟨_, abstract.trace_init, hsim.init⟩ ?_
  rintro past before label after events - ⟨before', hbefore', hrel⟩ hnext
  obtain ⟨after', hnext', hrel'⟩ :=
    hsim.step before before' label after events hbefore'.reachable hrel hnext
  exact ⟨after', hbefore'.step hnext', hrel'⟩

theorem Simulation.reachable {concrete : Machine σ ℓ ε}
    {abstract : Machine σ' ℓ ε} {relates : σ → σ' → Prop}
    (hsim : Simulation concrete abstract relates)
    {state : σ} (hreach : concrete.Reachable state) :
    ∃ state', abstract.Reachable state' ∧ relates state state' := by
  obtain ⟨history, htrace⟩ := hreach
  obtain ⟨state', htrace', hrel⟩ := hsim.trace htrace
  exact ⟨state', htrace'.reachable, hrel⟩

end Machine

end AsyncMutex
