import AsyncMutex.Board
import AsyncMutex.WorldRefinement
import Mathlib.Algebra.GroupWithZero.Nat

/-!
# Programs on futexes

A lock or a channel is a program that each task runs on its own, over one
world of futexes and one shared memory.  `Client` gives the program by its
program points; `System` runs any number of tasks and interleaves their atomic
steps.

The same program runs on the pointers of the source and on plain lists.
-/

namespace AsyncMutex

/-- Where every futex has one queue, `0` is that queue. -/
instance oneQueue : NeZero 1 := ⟨Nat.one_ne_zero⟩

/-- What the code at a program point does next. -/
inductive Code (τ φ κ α : Type) where
  /-- Wait for the caller, or for the future to be polled or dropped. -/
  | rest
  | call (op : Op τ φ κ α)
  /-- An atomic step on the shared memory. -/
  | own

/-- A program over futexes with shared memory `M`, program points `L` and
methods `C`.  `none` in place of the next program point is a panic. -/
structure Client (τ φ κ α M L C : Type) where
  idle : L
  start : L → C → Option L
  code : L → Code τ φ κ α
  resume : L → Resp τ α → Option L
  act : τ → M → L → Option (M × L)

/-- How a program is used. -/
structure Usage (τ L : Type) where
  /-- When a pending future may be dropped, given whether it was woken. -/
  mayDrop : L → Bool → Bool := fun _ _ => true
  /-- The program points that runs stay in. -/
  within : (τ → L) → Bool := fun _ => true

inductive Label (C ω : Type) where
  | start (call : C)
  | call (spurious : Bool) (waker : ω)
  | own
  | poll (waker : ω)
  | drop
  | step (spurious : Bool)

inductive Mark (τ φ α ω L C : Type) where
  | started (task : τ) (call : C)
  | responded (task : τ) (pc : L) (resp : Resp τ α)
  | acted (task : τ) (pc : L)
  | event (event : Event τ φ ω)
deriving DecidableEq

structure System (S τ φ α ω M L : Type) where
  world : World S τ φ α ω
  memory : M
  pc : τ → L
  panicked : Bool

namespace World

variable {S τ φ α ω : Type}

/-- `wake` was called on the waiter of the task. -/
def awake (world : World S τ φ α ω) (task : τ) : Bool :=
  (world.waker task).isDone

end World

namespace Client

variable {τ φ κ α ω M L C : Type}

def request (client : Client τ φ κ α M L C) (pc : L) :
    Label C ω → Option (Act τ φ κ α ω)
  | .call spurious waker =>
      match client.code pc with
      | .call op => some (.call op spurious waker)
      | _ => none
  | .poll waker => some (.poll waker)
  | .drop => some .drop
  | .step spurious => some (.step spurious)
  | _ => none

/-- Where the code goes on with a response. -/
def goOn (client : Client τ φ κ α M L C) (pc : L) (resp : Resp τ α) : Option L :=
  match resp with
  | .panic => none
  | .misuse => none
  | resp => client.resume pc resp

end Client

namespace System

variable {S τ φ κ α ω M L C : Type} [DecidableEq τ] [DecidableEq φ]
  [DecidableEq α] [DecidableEq ω] [FutexStore S τ φ κ]

def setPc (sys : System S τ φ α ω M L) (task : τ) (pc : L) :
    System S τ φ α ω M L :=
  { sys with pc := Function.update sys.pc task pc }

/-- The end of a step of the world. -/
def settle (client : Client τ φ κ α M L C) (sys : System S τ φ α ω M L)
    (task : τ) (outcome : Outcome S τ φ α ω) :
    System S τ φ α ω M L × List (Mark τ φ α ω L C) :=
  match outcome.resp with
  | none => ({ sys with world := outcome.world }, outcome.events.map .event)
  | some resp =>
      let marks := outcome.events.map .event ++ [.responded task (sys.pc task) resp]
      match client.goOn (sys.pc task) resp with
      | some pc => ({ sys.setPc task pc with world := outcome.world }, marks)
      | none => ({ sys with world := outcome.world, panicked := true }, marks)

def next (client : Client τ φ κ α M L C) (sys : System S τ φ α ω M L)
    (task : τ) (label : Label C ω) :
    Option (System S τ φ α ω M L × List (Mark τ φ α ω L C)) :=
  if sys.panicked then none
  else
    match label, client.code (sys.pc task) with
    | .start call, .rest =>
        (client.start (sys.pc task) call).map fun pc =>
          (sys.setPc task pc, [.started task call])
    | .own, .own =>
        match client.act task sys.memory (sys.pc task) with
        | some (memory, pc) =>
            some ({ sys.setPc task pc with memory := memory },
              [.acted task (sys.pc task)])
        | none => some ({ sys with panicked := true }, [.acted task (sys.pc task)])
    | label, _ =>
        (client.request (sys.pc task) label).bind fun act =>
          (sys.world.step task act).map (sys.settle client task)

def allowed (usage : Usage τ L) (sys : System S τ φ α ω M L) (task : τ)
    (label : Label C ω) (pc : τ → L) : Bool :=
  usage.within pc &&
    match label with
    | .drop => usage.mayDrop (sys.pc task) (sys.world.awake task)
    | _ => true

/-- All runs of the client in which every task starts with `idle`. -/
def machine (client : Client τ φ κ α M L C) (usage : Usage τ L) (store : S)
    (atom : φ → α) (futex : φ) (memory : M) :
    Machine (System S τ φ α ω M L) (τ × Label C ω) (Mark τ φ α ω L C) where
  init := ⟨World.initial store atom futex, memory, fun _ => client.idle, false⟩
  next sys label :=
    (sys.next client label.1 label.2).filter fun result =>
      sys.allowed usage label.1 label.2 result.1.pc

/-! ## The kinds of steps -/

/-- One step of a task, with the state after it and the history it adds. -/
inductive Next (client : Client τ φ κ α M L C) (sys : System S τ φ α ω M L)
    (task : τ) :
    Label C ω → System S τ φ α ω M L × List (Mark τ φ α ω L C) → Prop
  | start {call : C} {pc : L} (hcode : client.code (sys.pc task) = .rest)
      (hstart : client.start (sys.pc task) call = some pc) :
      Next client sys task (.start call) (sys.setPc task pc, [.started task call])
  | act {memory : M} {pc : L} (hcode : client.code (sys.pc task) = .own)
      (hact : client.act task sys.memory (sys.pc task) = some (memory, pc)) :
      Next client sys task .own
        ({ sys.setPc task pc with memory := memory }, [.acted task (sys.pc task)])
  | fail (hcode : client.code (sys.pc task) = .own)
      (hact : client.act task sys.memory (sys.pc task) = none) :
      Next client sys task .own
        ({ sys with panicked := true }, [.acted task (sys.pc task)])
  | move {label : Label C ω} {act : Act τ φ κ α ω} {outcome : Outcome S τ φ α ω}
      (hrequest : client.request (sys.pc task) label = some act)
      (hstep : sys.world.step task act = some outcome) :
      Next client sys task label (sys.settle client task outcome)

theorem next_spec {client : Client τ φ κ α M L C} {sys : System S τ φ α ω M L}
    {task : τ} {label : Label C ω}
    {result : System S τ φ α ω M L × List (Mark τ φ α ω L C)}
    (hnext : sys.next client task label = some result) :
    sys.panicked = false ∧ Next client sys task label result := by
  unfold System.next at hnext
  split at hnext
  case isTrue => cases hnext
  case isFalse hpanicked =>
    refine ⟨by simpa using hpanicked, ?_⟩
    split at hnext
    case h_1 call hcode =>
      rw [Option.map_eq_some_iff] at hnext
      obtain ⟨pc, hstart, rfl⟩ := hnext
      exact .start hcode hstart
    case h_2 hcode =>
      split at hnext <;> cases hnext
      case h_1.refl hact => exact .act hcode hact
      case h_2.refl hact => exact .fail hcode hact
    case h_3 =>
      rw [Option.bind_eq_some_iff] at hnext
      obtain ⟨act, hrequest, hmap⟩ := hnext
      rw [Option.map_eq_some_iff] at hmap
      obtain ⟨outcome, hstep, rfl⟩ := hmap
      exact .move hrequest hstep

theorem machine_next {client : Client τ φ κ α M L C} {usage : Usage τ L}
    {store : S} {atom : φ → α} {futex : φ} {memory : M}
    {sys : System S τ φ α ω M L} {label : τ × Label C ω}
    {result : System S τ φ α ω M L × List (Mark τ φ α ω L C)} :
    (machine client usage store atom futex memory).next sys label = some result ↔
      sys.next client label.1 label.2 = some result ∧
        sys.allowed usage label.1 label.2 result.1.pc = true := by
  simp [machine, Option.filter_eq_some_iff]

/-- An operation that answers. -/
theorem next_of_answer {client : Client τ φ κ α M L C} {usage : Usage τ L}
    {store : S} {atom : φ → α} {futex : φ} {memory : M} {sys : System S τ φ α ω M L}
    {task : τ} {op : Op τ φ κ α} {spurious : Bool} {waker : ω} {outcome : Outcome S τ φ α ω}
    {resp : Resp τ α} {pc : L} (hsafe : sys.panicked = false)
    (hcode : client.code (sys.pc task) = .call op)
    (hstep : sys.world.step task (.call op spurious waker) = some outcome)
    (hresp : outcome.resp = some resp) (hgo : client.goOn (sys.pc task) resp = some pc)
    (hwithin : usage.within (Function.update sys.pc task pc) = true) :
    (machine client usage store atom futex memory).next sys (task, .call spurious waker) =
      some ({ sys.setPc task pc with world := outcome.world },
        outcome.events.map .event ++ [.responded task (sys.pc task) resp]) := by
  refine machine_next.mpr ⟨?_, ?_⟩
  · simp only [System.next, hsafe, hcode, Client.request, Option.bind_some, hstep,
      Option.map_some, settle, hresp, hgo]
    rfl
  · simp only [System.allowed, setPc, hwithin]
    rfl

/-- A call begins. -/
theorem next_of_start {client : Client τ φ κ α M L C} {usage : Usage τ L}
    {store : S} {atom : φ → α} {futex : φ} {memory : M} {sys : System S τ φ α ω M L}
    {task : τ} {call : C} {pc : L} (hsafe : sys.panicked = false)
    (hcode : client.code (sys.pc task) = .rest)
    (hstart : client.start (sys.pc task) call = some pc)
    (hwithin : usage.within (Function.update sys.pc task pc) = true) :
    (machine client usage store atom futex memory).next sys (task, .start call) =
      some (sys.setPc task pc, [.started task call]) := by
  refine machine_next.mpr ⟨?_, ?_⟩
  · simp only [System.next, hsafe, hcode, hstart, Option.map_some]
    rfl
  · simp only [System.allowed, setPc, hwithin]
    rfl

/-- The program point after a response. -/
theorem responded_of_next {client : Client τ φ κ α M L C} {sys : System S τ φ α ω M L}
    {task : τ} {label : Label C ω}
    {result : System S τ φ α ω M L × List (Mark τ φ α ω L C)}
    (hnext : sys.next client task label = some result) {actor : τ} {pc : L}
    {resp : Resp τ α} (hmark : .responded actor pc resp ∈ result.2) :
    actor = task ∧ pc = sys.pc task ∧
      (result.1.panicked = true ∨ ∃ pc', client.goOn pc resp = some pc' ∧
        result.1.pc = Function.update sys.pc task pc') := by
  obtain ⟨-, hstep⟩ := next_spec hnext
  cases hstep with
  | start => simp at hmark
  | act => simp at hmark
  | fail => simp at hmark
  | @move _ act outcome hrequest hstep =>
      cases hresp : outcome.resp with
      | none => simp [settle, hresp] at hmark
      | some resp' =>
          simp only [settle, hresp] at hmark ⊢
          cases hgo : client.goOn (sys.pc task) resp' with
          | none =>
              simp only [hgo, List.mem_append, List.mem_map, reduceCtorEq, and_false,
                exists_false, List.mem_singleton, Mark.responded.injEq, false_or] at hmark
              obtain ⟨rfl, rfl, rfl⟩ := hmark
              exact ⟨rfl, rfl, Or.inl rfl⟩
          | some pc' =>
              simp only [hgo, List.mem_append, List.mem_map, reduceCtorEq, and_false,
                exists_false, List.mem_singleton, Mark.responded.injEq, false_or] at hmark
              obtain ⟨rfl, rfl, rfl⟩ := hmark
              exact ⟨rfl, rfl, Or.inr ⟨pc', hgo, rfl⟩⟩

/-- A call that begins is on record. -/
theorem started_of_next {client : Client τ φ κ α M L C} {sys : System S τ φ α ω M L}
    {task : τ} {call : C} {result : System S τ φ α ω M L × List (Mark τ φ α ω L C)}
    (hnext : sys.next client task (.start call) = some result) :
    .started task call ∈ result.2 := by
  obtain ⟨-, hstep⟩ := next_spec hnext
  cases hstep with
  | start => exact List.mem_singleton_self _
  | move hrequest => cases hrequest

omit [DecidableEq φ] [DecidableEq α] [DecidableEq ω] [FutexStore S τ φ κ] in
theorem settle_world (client : Client τ φ κ α M L C)
    (sys : System S τ φ α ω M L) (task : τ) (outcome : Outcome S τ φ α ω) :
    (sys.settle client task outcome).1.world = outcome.world := by
  unfold settle
  split
  · rfl
  · split <;> rfl

end System

/-! ## Lists and pointers -/

abbrev ListSystem (τ φ κ α ω M L : Type) := System (ListStore τ φ κ) τ φ α ω M L

abbrev HeapSystem (τ φ κ α ω M L : Type) := System (HeapStore τ φ κ) τ φ α ω M L

namespace System

variable {τ φ κ α ω M L C : Type} [DecidableEq τ] [DecidableEq φ]
  [DecidableEq κ] [DecidableEq α] [DecidableEq ω]
  {client : Client τ φ κ α M L C} {usage : Usage τ L} {queue : κ} {atom : φ → α}
  {futex : φ} {memory : M}

/-- The futexes of a client keep their invariant. -/
theorem inv_of_reachable {sys : ListSystem τ φ κ α ω M L}
    (hreach : (machine client usage (ListStore.empty queue) atom futex memory :
      Machine (ListSystem τ φ κ α ω M L) _ _).Reachable sys) :
    ∃ place, World.Inv sys.world place := by
  refine hreach.invariant (motive := fun sys => ∃ place, World.Inv sys.world place)
    ⟨_, World.Inv.initial queue atom futex⟩ ?_
  rintro sys ⟨task, label⟩ next marks - ⟨place, hinv⟩ hnext
  obtain ⟨hnext, -⟩ := machine_next.mp hnext
  obtain ⟨-, hstep⟩ := next_spec hnext
  generalize hresult : (next, marks) = result at hstep
  have hworld : next.world = result.1.world := by rw [← hresult]
  rw [hworld]
  cases hstep with
  | start => exact ⟨place, hinv⟩
  | act => exact ⟨place, hinv⟩
  | fail => exact ⟨place, hinv⟩
  | move hrequest hstep =>
      rw [settle_world]
      exact hinv.step hstep

variable [Fintype τ]

def lists (sys : HeapSystem τ φ κ α ω M L) : ListSystem τ φ κ α ω M L :=
  { sys with world := sys.world.lists }

def withStore (sys : ListSystem τ φ κ α ω M L) (store : HeapStore τ φ κ) :
    HeapSystem τ φ κ α ω M L :=
  { sys with world := sys.world.withStore store }

omit [DecidableEq φ] [DecidableEq κ] [DecidableEq α] [DecidableEq ω] [Fintype τ] in
theorem settle_withStore (sys : ListSystem τ φ κ α ω M L) (store : HeapStore τ φ κ)
    (task : τ) (world : ListWorld τ φ κ α ω) (store' : HeapStore τ φ κ)
    (resp : Option (Resp τ α)) (events : List (Event τ φ ω)) :
    (sys.withStore store).settle client task
        ⟨world.withStore store', resp, events⟩ =
      ((sys.settle client task ⟨world, resp, events⟩).1.withStore store',
        (sys.settle client task ⟨world, resp, events⟩).2) := by
  cases resp with
  | none => rfl
  | some resp =>
      simp only [settle, withStore]
      split <;> rfl

/-- Each step of the pointers is the same step of the lists. -/
theorem next_withStore {sys : ListSystem τ φ κ α ω M L}
    {place : τ → Place τ φ κ} (hinv : World.Inv sys.world place)
    {store : HeapStore τ φ κ} (hrep : sys.world.RepresentedBy store) {task : τ}
    {label : Label C ω}
    {result : HeapSystem τ φ κ α ω M L × List (Mark τ φ α ω L C)}
    (hnext : (sys.withStore store).next client task label = some result) :
    ∃ sys' store', sys.next client task label = some (sys', result.2) ∧
      result.1 = sys'.withStore store' ∧ sys'.world.RepresentedBy store' := by
  unfold System.next at hnext ⊢
  split at hnext
  case isTrue => cases hnext
  case isFalse hpanicked =>
    have hsame : ¬ sys.panicked = true := hpanicked
    rw [if_neg hsame]
    split at hnext
    case h_1 call hcode =>
      have hcode' : client.code (sys.pc task) = .rest := hcode
      rw [Option.map_eq_some_iff] at hnext
      obtain ⟨pc, hstart, rfl⟩ := hnext
      have hstart' : client.start (sys.pc task) call = some pc := hstart
      refine ⟨sys.setPc task pc, store, ?_, rfl, hrep⟩
      simp [hcode', hstart']
    case h_2 hcode =>
      have hcode' : client.code (sys.pc task) = .own := hcode
      split at hnext <;> cases hnext
      case h_1.refl memory pc hact =>
        have hact' : client.act task sys.memory (sys.pc task) = some (memory, pc) :=
          hact
        refine ⟨{ sys.setPc task pc with memory := memory }, store, ?_, rfl, hrep⟩
        simp [hcode', hact', withStore]
      case h_2.refl hact =>
        have hact' : client.act task sys.memory (sys.pc task) = none := hact
        refine ⟨{ sys with panicked := true }, store, ?_, rfl, hrep⟩
        simp [hcode', hact', withStore]
    case h_3 label _ _ hstart hown =>
      rw [Option.bind_eq_some_iff] at hnext
      obtain ⟨act, hrequest, hmap⟩ := hnext
      rw [Option.map_eq_some_iff] at hmap
      obtain ⟨outcome, hstep, rfl⟩ := hmap
      have hrefined := hrep.step hinv task act
      have hstep' : (sys.world.withStore store).step task act = some outcome := hstep
      have hrequest' : client.request (sys.pc task) label = some act := hrequest
      rw [hstep'] at hrefined
      generalize habstract : sys.world.step task act = abstract at hrefined
      cases hrefined with
      | stepped hrep' =>
          rename_i abstract store' resp events
          refine ⟨_, store', ?_, congrArg Prod.fst
            (settle_withStore sys store task abstract store' resp events), ?_⟩
          · split
            case h_1 call hcode => exact (hstart call rfl hcode).elim
            case h_2 hcode => exact (hown rfl hcode).elim
            case h_3 =>
              rw [hrequest', Option.bind_some, habstract,
                settle_withStore sys store task]
              rfl
          · rw [settle_world]
            exact hrep'

theorem simulation (client : Client τ φ κ α M L C) (usage : Usage τ L)
    (queue : κ) (atom : φ → α) (futex : φ) (memory : M) :
    Machine.Simulation
      (machine client usage (HeapStore.empty queue) atom futex memory :
        Machine (HeapSystem τ φ κ α ω M L) _ _)
      (machine client usage (ListStore.empty queue) atom futex memory)
      fun concrete abstract => ∃ store,
        concrete = abstract.withStore store ∧
          abstract.world.RepresentedBy store where
  init := ⟨_, rfl, World.RepresentedBy.initial queue atom futex⟩
  step := by
    rintro concrete abstract ⟨task, label⟩ next marks hreach ⟨store, rfl, hrep⟩ hnext
    obtain ⟨place, hinv⟩ := inv_of_reachable hreach
    obtain ⟨hnext, hallowed⟩ := machine_next.mp hnext
    obtain ⟨sys', store', hnext', heq, hrep'⟩ := next_withStore hinv hrep hnext
    obtain rfl : next = sys'.withStore store' := heq
    exact ⟨sys', machine_next.mpr ⟨hnext', hallowed⟩, store', rfl, hrep'⟩

/-- Every run of the pointers is a run of the lists that they hold. -/
theorem lists_of_trace {history : List (Mark τ φ α ω L C)}
    {sys : HeapSystem τ φ κ α ω M L}
    (htrace : (machine client usage (HeapStore.empty queue) atom futex memory :
      Machine (HeapSystem τ φ κ α ω M L) _ _).Trace history sys) :
    (machine client usage (ListStore.empty queue) atom futex memory :
      Machine (ListSystem τ φ κ α ω M L) _ _).Trace history sys.lists ∧
      sys.lists.world.RepresentedBy sys.world.store := by
  obtain ⟨abstract, habstract, store, rfl, hrep⟩ :=
    (simulation client usage queue atom futex memory).trace htrace
  obtain ⟨place, hinv⟩ := inv_of_reachable habstract.reachable
  have hlists : (abstract.withStore store).lists = abstract := by
    have hworld := hrep.lists_eq hinv
    simp only [lists, withStore, hworld]
  rw [hlists]
  exact ⟨habstract, hrep⟩

/-- The pointers begin with empty lists. -/
theorem lists_init (client : Client τ φ κ α M L C) (usage : Usage τ L) (queue : κ)
    (atom : φ → α) (futex : φ) (memory : M) :
    (machine client usage (HeapStore.empty queue) atom futex memory :
      Machine (HeapSystem τ φ κ α ω M L) _ _).init.lists =
        (machine client usage (ListStore.empty queue) atom futex memory :
          Machine (ListSystem τ φ κ α ω M L) _ _).init := by
  have hworld := (World.RepresentedBy.initial queue atom futex :
    World.RepresentedBy (_ : ListWorld τ φ κ α ω) _).lists_eq
      (World.Inv.initial queue atom futex)
  exact congrArg (fun world => (⟨world, memory, fun _ => client.idle, false⟩ :
    ListSystem τ φ κ α ω M L)) hworld

/-- A step of the pointers after a run is a step of the lists that they hold. -/
theorem next_lists {history : List (Mark τ φ α ω L C)}
    {sys : HeapSystem τ φ κ α ω M L} {label : τ × Label C ω}
    {result : HeapSystem τ φ κ α ω M L × List (Mark τ φ α ω L C)}
    (htrace : (machine client usage (HeapStore.empty queue) atom futex memory :
      Machine (HeapSystem τ φ κ α ω M L) _ _).Trace history sys)
    (hnext : (machine client usage (HeapStore.empty queue) atom futex memory :
      Machine (HeapSystem τ φ κ α ω M L) _ _).next sys label = some result) :
    (machine client usage (ListStore.empty queue) atom futex memory :
      Machine (ListSystem τ φ κ α ω M L) _ _).next sys.lists label =
        some (result.1.lists, result.2) := by
  obtain ⟨habstract, hrep⟩ := lists_of_trace htrace
  obtain ⟨place, hinv⟩ := inv_of_reachable habstract.reachable
  obtain ⟨hnext, hallowed⟩ := machine_next.mp hnext
  obtain ⟨sys', store', hnext', heq, hrep'⟩ := next_withStore hinv hrep hnext
  have hstep : (machine client usage (ListStore.empty queue) atom futex memory :
      Machine (ListSystem τ φ κ α ω M L) _ _).next sys.lists label =
        some (sys', result.2) := by
    refine machine_next.mpr ⟨hnext', ?_⟩
    rw [heq] at hallowed
    exact hallowed
  obtain ⟨place', hinv'⟩ := inv_of_reachable (habstract.step hstep).reachable
  have hlists : (sys'.withStore store').lists = sys' := by
    have hworld := hrep'.lists_eq hinv'
    simp only [lists, withStore, hworld]
  rw [heq, hlists]
  exact hstep

theorem lists_of_reachable {sys : HeapSystem τ φ κ α ω M L}
    (hreach : (machine client usage (HeapStore.empty queue) atom futex memory :
      Machine (HeapSystem τ φ κ α ω M L) _ _).Reachable sys) :
    (machine client usage (ListStore.empty queue) atom futex memory :
      Machine (ListSystem τ φ κ α ω M L) _ _).Reachable sys.lists ∧
      sys.lists.world.RepresentedBy sys.world.store := by
  obtain ⟨history, htrace⟩ := hreach
  obtain ⟨habstract, hrep⟩ := lists_of_trace htrace
  exact ⟨habstract.reachable, hrep⟩

end System

end AsyncMutex
