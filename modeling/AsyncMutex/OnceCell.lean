import AsyncMutex.OnceCellInvariant

/-!
# The once cell

The pointers of the source run the code of `SyncOnceCell`.  The cell is
initialized once and releases everyone who waits for it.  It is poisoned by the
panic of an init future, and also whenever the call that runs the init future is
dropped.
-/

namespace AsyncMutex

namespace SyncOnceCell

variable {τ V ω : Type}

abbrev CellMark (τ V ω : Type) := Mark τ Unit CellAtom ω (Point τ V) (Call V)

/-- The tasks that started their init future. -/
def begins (history : List (CellMark τ V ω)) : List τ :=
  history.filterMap fun
    | .responded task (.start _ _) .success => some task
    | _ => none

/-- An init future panicked. -/
def panics (history : List (CellMark τ V ω)) : Bool :=
  history.any fun
    | .started _ .panic => true
    | _ => false

/-- A call was dropped while its init future ran. -/
def abandons (history : List (CellMark τ V ω)) : Bool :=
  history.any fun
    | .started _ .abandon => true
    | _ => false

/-- The task has still to poison the cell. -/
def Point.failing : Point τ V → Bool
  | .finish point .panic => point.before
  | .finish point .abandon => point.before
  | _ => false

/-- How a cell may change. -/
inductive Moves : CellAtom → CellAtom → Prop where
  | same (atom : CellAtom) : Moves atom atom
  | begin : Moves .uninit .active
  | finish {atom : CellAtom} (hfinal : atom.Final) : Moves .active atom

theorem active_of_failing {point : Point τ V} (hfailing : point.failing = true) :
    point.active = true := by
  cases point with
  | finish point cause =>
      cases cause with
      | complete => cases hfailing
      | panic => exact hfailing
      | abandon => exact hfailing
  | _ => cases hfailing

theorem failing_of_loopAt {used : Bool} {current : FutexAtom τ CellAtom} {pc : Point τ V}
    (hresume : loopAt used current = some pc) : pc.failing = false := by
  unfold loopAt at hresume
  split at hresume
  case h_2 =>
    split at hresume <;> cases hresume
    rfl
  all_goals
    cases hresume
    rfl

theorem failing_of_finishAt {cause : Cause} {current : FutexAtom τ CellAtom} {pc : Point τ V}
    (hresume : finishAt cause current = some pc) {point : Finish τ}
    (hbefore : point.before = true) :
    pc.failing = (Point.finish point cause : Point τ V).failing := by
  unfold finishAt at hresume
  split at hresume <;> cases hresume
  cases cause with
  | complete => rfl
  | panic => exact hbefore.symm
  | abandon => exact hbefore.symm

theorem failing_of_resumeFinish {point : Finish τ} {cause : Cause}
    {resp : Resp τ CellAtom} {pc : Point τ V}
    (hresume : resumeFinish cause point resp = some pc)
    (hstore : ∀ current, point = .loop current → resp ≠ .success) :
    pc.failing = (Point.finish point cause : Point τ V).failing := by
  unfold resumeFinish at hresume
  split at hresume
  case h_3 => exact failing_of_finishAt hresume rfl
  case h_4 => exact absurd rfl (hstore _ rfl)
  case h_5 => exact failing_of_finishAt hresume rfl
  case h_12 => cases hresume
  all_goals
    cases hresume
    cases cause <;> rfl

/-- Only the compare-exchange of `finish` poisons the cell. -/
theorem failing_of_resume {pc pc' : Point τ V} {resp : Resp τ CellAtom}
    (hresume : resume pc resp = some pc')
    (hstore : ∀ current cause, pc = .finish (.loop current) cause → resp ≠ .success) :
    pc'.failing = pc.failing := by
  cases pc with
  | finish point cause =>
      refine failing_of_resumeFinish hresume fun current hpoint => ?_
      exact hstore current cause (by rw [hpoint])
  | getLoad =>
      cases resp <;> cases hresume
      unfold getAt
      split <;> rfl
  | load =>
      cases resp <;> cases hresume
      rfl
  | waiter current =>
      cases resp <;> first | exact failing_of_loopAt hresume | cases hresume
  | start used current =>
      cases resp with
      | failure => exact failing_of_loopAt hresume
      | success =>
          cases hresume
          rfl
      | _ => cases hresume
  | wait current =>
      cases resp with
      | failure => exact failing_of_loopAt hresume
      | success =>
          cases hresume
          rfl
      | _ => cases hresume
  | entered =>
      cases resp <;> cases hresume
      rfl
  | waiting => cases resp <;> cases hresume <;> rfl
  | reload =>
      cases resp with
      | atom => exact failing_of_loopAt hresume
      | _ => cases hresume
  | _ => cases hresume

variable [DecidableEq τ] [DecidableEq V] [DecidableEq ω]

abbrev ListCell (τ V ω : Type) :=
  ListSystem τ Unit (Fin 1) CellAtom ω (Option V) (Point τ V)

abbrev Sound (sys : ListCell τ V ω) : Prop :=
  sys.Verified client holds Inv

/-- One step of `task`, which comes to the program point `pc`. -/
inductive Change (atom : CellAtom) (inner : Option V) (task : τ) (old : Point τ V) :
    List (CellMark τ V ω) → CellAtom → Option V → Point τ V → Prop
  | keep {marks : List (CellMark τ V ω)} {pc : Point τ V} (hbegins : begins marks = [])
      (hpanics : panics marks = false) (habandons : abandons marks = false)
      (hfailing : pc.failing = old.failing) : Change atom inner task old marks atom inner pc
  | fail {marks : List (CellMark τ V ω)} {pc : Point τ V} (hold : old = .initializing)
      (hbegins : begins marks = []) (hfails : panics marks = true ∨ abandons marks = true)
      (hfailing : pc.failing = true) : Change atom inner task old marks atom inner pc
  | begin {marks : List (CellMark τ V ω)} (hbegins : begins marks = [task])
      (hpanics : panics marks = false) (habandons : abandons marks = false)
      (hold : old.failing = false) (hatom : atom = .uninit) :
      Change atom inner task old marks .active inner .initializing
  | write {value : V} {marks : List (CellMark τ V ω)} (hbegins : begins marks = [])
      (hpanics : panics marks = false) (habandons : abandons marks = false)
      (hold : old = .write value) (hinner : inner = none) :
      Change atom inner task old marks atom (some value) (.finish .lock .complete)
  | store {current : FutexAtom τ CellAtom} {cause : Cause} {marks : List (CellMark τ V ω)}
      (hbegins : begins marks = []) (hpanics : panics marks = false)
      (habandons : abandons marks = false) (hold : old = .finish (.loop current) cause)
      (hatom : atom = .active) :
      Change atom inner task old marks cause.atom inner (.finish .popMany cause)

section Marks

variable (events : List (Event τ Unit ω)) (task : τ) (pc : Point τ V)
  (resp : Resp τ CellAtom)

omit [DecidableEq τ] [DecidableEq V] [DecidableEq ω]

theorem begins_events : begins (events.map .event : List (CellMark τ V ω)) = [] := by
  simp [begins, List.filterMap_map]

theorem panics_events : panics (events.map .event : List (CellMark τ V ω)) = false := by
  simp [panics]

theorem abandons_events : abandons (events.map .event : List (CellMark τ V ω)) = false := by
  simp [abandons]

theorem begins_append (first second : List (CellMark τ V ω)) :
    begins (first ++ second) = begins first ++ begins second :=
  List.filterMap_append

theorem panics_append (first second : List (CellMark τ V ω)) :
    panics (first ++ second) = (panics first || panics second) :=
  List.any_append

theorem abandons_append (first second : List (CellMark τ V ω)) :
    abandons (first ++ second) = (abandons first || abandons second) :=
  List.any_append

end Marks

omit [DecidableEq V] [DecidableEq ω] in
/-- The code goes on after a response. -/
theorem change_answer {board board' : CellBoard τ} {inner : Option V} {pc : τ → Point τ V}
    (hinv : Inv board inner pc) {task : τ} {input : Board.Input τ Unit (Fin 1) CellAtom}
    (hasks : (client : Client τ _ _ _ _ (Point τ V) _).Asks (pc task) input)
    {resp : Resp τ CellAtom} (hstep : board.Step task input (some resp) board')
    {pc' : Point τ V} (hresume : resume (pc task) resp = some pc')
    (events : List (Event τ Unit ω)) :
    Change (board.atom ()) inner task (pc task)
      (events.map .event ++ [.responded task (pc task) resp]) (board'.atom ()) inner pc' := by
  have hpanics : panics (events.map .event ++ [.responded task (pc task) resp] :
      List (CellMark τ V ω)) = false := by
    rw [panics_append, panics_events]
    rfl
  have habandons : abandons (events.map .event ++ [.responded task (pc task) resp] :
      List (CellMark τ V ω)) = false := by
    rw [abandons_append, abandons_events]
    rfl
  have hbegins : begins (events.map .event ++ [.responded task (pc task) resp] :
      List (CellMark τ V ω)) =
        begins [(.responded task (pc task) resp : CellMark τ V ω)] := by
    rw [begins_append, begins_events, List.nil_append]
  have hquiet : ∀ point : Point τ V, (∀ used current, point ≠ .start used current) ∨
      resp ≠ .success → begins [(.responded task point resp : CellMark τ V ω)] = [] := by
    intro point hnot
    unfold begins
    rw [List.filterMap_cons]
    split
    case h_1 => rfl
    case h_2 hsome =>
      split at hsome
      case h_1 heq =>
        cases heq
        rcases hnot with hnot | hnot
        · exact absurd rfl (hnot _ _)
        · exact absurd rfl hnot
      case h_2 => cases hsome
  by_cases hsuccess : resp = .success
  · subst hsuccess
    cases input with
    | go => cases hstep
    | drop => cases hstep
    | call op =>
        have hcode : code (pc task) = .call op := hasks op rfl
        have hpoint := hinv.points task
        cases hpc : pc task with
        | start used current =>
            rw [hpc] at hcode hpoint hresume
            cases hcode
            cases hstep
            cases hresume
            have hatom : ((board.setAtom () .active).atom ()) = .active := by
              simp [Board.setAtom]
            rw [hatom]
            rw [hpc] at hpanics habandons hbegins
            exact .begin (hbegins.trans rfl) hpanics habandons rfl hpoint.2
        | wait current =>
            rw [hpc] at hcode hpoint hresume hpanics habandons hbegins
            cases hcode
            cases hstep
            cases hresume
            have hatom : board.atom () = .active := hpoint
            have hatom' : (((board.setAtom () .active).setStore
                (FutexStore.push board.store () task)).setStage task .entered).atom () =
                  board.atom () := by
              rw [hatom]
              simp [Board.setAtom, Board.setStore, Board.setStage]
            rw [hatom']
            exact .keep (hbegins.trans rfl) hpanics habandons rfl
        | finish point cause =>
            rw [hpc] at hcode hpoint hresume hpanics habandons hbegins
            cases hcode
            cases point with
            | loop current =>
                cases hstep
                cases hresume
                have hactive : board.atom () = .active :=
                  hinv.atom_of_active (by rw [hpc]; rfl)
                have hatom : ((board.flip ()).setAtom () cause.atom).atom () = cause.atom := by
                  simp [Board.setAtom]
                rw [hatom]
                exact .store (hbegins.trans rfl) hpanics habandons rfl hactive
            | _ => cases hstep
        | _ =>
            rw [hpc] at hcode
            cases hcode <;> cases hstep
  · have hatom : board'.atom = board.atom := by
      refine hstep.atom.resolve_right ?_
      rintro ⟨futex, new, hresp, -⟩
      exact hsuccess (Option.some.inj hresp)
    rw [hatom]
    exact .keep (hbegins.trans (hquiet _ (Or.inr hsuccess))) hpanics habandons
      (failing_of_resume hresume fun _ _ _ => hsuccess)

omit [DecidableEq V] in
/-- Every step of a system is a change of its task. -/
theorem change {sys : ListCell τ V ω} (hsys : Sound sys) {task : τ} {label : Label (Call V) ω}
    {result : ListCell τ V ω × List (CellMark τ V ω)}
    (hnext : sys.next client task label = some result) :
    ∃ pc', result.1.pc = Function.update sys.pc task pc' ∧
      Change (sys.world.atom ()) sys.memory task (sys.pc task) result.2
        (result.1.world.atom ()) result.1.memory pc' := by
  obtain ⟨-, hstep⟩ := System.next_spec hnext
  cases hstep with
  | @start call pc' hcode hstart =>
      refine ⟨pc', rfl, ?_⟩
      have hstart' : SyncOnceCell.start (sys.pc task) call = some pc' := hstart
      unfold SyncOnceCell.start at hstart'
      split at hstart' <;> cases hstart'
      case h_6.refl hpc => exact .fail hpc rfl (Or.inl rfl) rfl
      case h_7.refl hpc => exact .fail hpc rfl (Or.inr rfl) rfl
      all_goals
        rename_i hpc
        exact .keep rfl rfl rfl (by rw [hpc]; rfl)
  | @act inner pc' hcode hact =>
      refine ⟨pc', rfl, ?_⟩
      have hact' : SyncOnceCell.act sys.memory (sys.pc task) = some (inner, pc') := hact
      cases hpc : sys.pc task with
      | write value =>
          rw [hpc] at hact'
          cases hact'
          exact .write rfl rfl rfl rfl (hsys.inv.write hpc).1
      | assumeInitRef =>
          rw [hpc] at hact'
          obtain ⟨value, -, heq⟩ := Option.map_eq_some_iff.mp hact'
          cases heq
          exact .keep rfl rfl rfl rfl
      | _ =>
          rw [hpc] at hact'
          cases hact'
  | fail hcode hact =>
      obtain ⟨inner, pc', hact', -⟩ := hsys.inv.own hcode
      have hnone : SyncOnceCell.act sys.memory (sys.pc task) = none := hact
      rw [hnone] at hact'
      cases hact'
  | @move _ act outcome hrequest hstep =>
      obtain ⟨hcalls, hboard⟩ := hsys.step_board typed invariant hrequest hstep
      cases hresp : outcome.resp with
      | none =>
          rw [hresp] at hboard
          have hatom : outcome.world.atom = sys.world.atom := by
            refine hboard.atom.resolve_right ?_
            rintro ⟨futex, new, hsome, -⟩
            cases hsome
          refine ⟨sys.pc task, ?_, ?_⟩
          · simp [System.settle, hresp]
          · simp only [System.settle, hresp, hatom]
            exact .keep (begins_events _) (panics_events _) (abandons_events _) rfl
      | some resp =>
          obtain ⟨pc', hgo, -⟩ := hsys.answer typed invariant hrequest hstep hresp
          rw [hresp] at hboard
          have hresume : resume (sys.pc task) resp = some pc' := by
            rw [← hgo]
            obtain ⟨hpanic, hmisuse⟩ := hboard.resp_ne
            cases resp <;> first | rfl | exact absurd rfl hpanic | exact absurd rfl hmisuse
          refine ⟨pc', ?_, ?_⟩
          · simp [System.settle, hresp, hgo, System.setPc]
          · simp only [System.settle, hresp, hgo]
            exact change_answer hsys.inv (fun op hop => (hcalls op hop).1) hboard hresume _

/-- What the history tells about the cell. -/
structure Recorded (history : List (CellMark τ V ω)) (atom : CellAtom)
    (pc : τ → Point τ V) : Prop where
  begun : (begins history).length = if atom = .uninit then 0 else 1
  failed : panics history = true ∨ abandons history = true ↔
    atom = .poison ∨ ∃ task, (pc task).failing = true

omit [DecidableEq τ] [DecidableEq V] [DecidableEq ω] in
/-- A part of the history without failures. -/
theorem fails_append {history marks : List (CellMark τ V ω)} (hpanics : panics marks = false)
    (habandons : abandons marks = false) :
    (panics (history ++ marks) = true ∨ abandons (history ++ marks) = true) ↔
      (panics history = true ∨ abandons history = true) := by
  rw [panics_append, abandons_append, hpanics, habandons, Bool.or_false, Bool.or_false]

omit [DecidableEq V] in
theorem exists_failing_update {pc : τ → Point τ V} {task : τ} {pc' : Point τ V}
    (hfailing : pc'.failing = (pc task).failing) :
    (∃ other, (Function.update pc task pc' other).failing = true) ↔
      ∃ other, (pc other).failing = true := by
  have hsame : ∀ other, (Function.update pc task pc' other).failing = (pc other).failing :=
    (Function.forall_update_iff pc fun other point => point.failing = (pc other).failing).mpr
      ⟨hfailing, fun _ _ => rfl⟩
  simp only [hsame]

omit [DecidableEq V] [DecidableEq ω] in
theorem Recorded.change {history marks : List (CellMark τ V ω)} {board : CellBoard τ}
    {inner inner' : Option V} {atom' : CellAtom} {pc : τ → Point τ V} {task : τ}
    {pc' : Point τ V} (hrecorded : Recorded history (board.atom ()) pc)
    (hinv : Inv board inner pc)
    (hchange : Change (board.atom ()) inner task (pc task) marks atom' inner' pc') :
    Recorded (history ++ marks) atom' (Function.update pc task pc') := by
  obtain ⟨hbegun, hfailed⟩ := hrecorded
  cases hchange with
  | keep hbegins hpanics habandons hfailing =>
      refine ⟨?_, ?_⟩
      · rw [begins_append, hbegins, List.append_nil, hbegun]
      · rw [fails_append hpanics habandons, hfailed, exists_failing_update hfailing]
  | fail hold hbegins hfails hfailing =>
      refine ⟨?_, iff_of_true ?_ ?_⟩
      · rw [begins_append, hbegins, List.append_nil, hbegun]
      · rw [panics_append, abandons_append, Bool.or_eq_true, Bool.or_eq_true]
        exact hfails.imp Or.inr Or.inr
      · exact Or.inr ⟨task, by rw [Function.update_self, hfailing]⟩
  | begin hbegins hpanics habandons hold hatom =>
      have hnone : ¬ ∃ other, (pc other).failing = true := by
        rintro ⟨other, hother⟩
        have hactive := hinv.atom_of_active (active_of_failing hother)
        rw [hatom] at hactive
        cases hactive
      refine ⟨?_, ?_⟩
      · rw [begins_append, hbegins, List.length_append, hbegun, hatom]
        rfl
      · have hfailing : (Point.initializing : Point τ V).failing = (pc task).failing :=
          hold.symm
        rw [fails_append hpanics habandons, hfailed, exists_failing_update hfailing, hatom]
        simp
  | write hbegins hpanics habandons hold hinner =>
      have hfailing : (Point.finish .lock .complete : Point τ V).failing =
          (pc task).failing := by
        rw [hold]
        rfl
      refine ⟨?_, ?_⟩
      · rw [begins_append, hbegins, List.append_nil, hbegun]
      · rw [fails_append hpanics habandons, hfailed, exists_failing_update hfailing]
  | @store current cause _ hbegins hpanics habandons hold hatom =>
      have hactive : (pc task).active = true := by
        rw [hold]
        rfl
      have hbefore : (∃ other, (pc other).failing = true) ↔ cause ≠ .complete := by
        constructor
        · rintro ⟨other, hother⟩ hcause
          have hsame := hinv.eq_of_active hactive (active_of_failing hother)
          rw [hsame, hold, hcause] at hother
          cases hother
        · intro hcause
          refine ⟨task, ?_⟩
          rw [hold]
          cases cause with
          | complete => exact absurd rfl hcause
          | panic => rfl
          | abandon => rfl
      have hafter : ¬ ∃ other,
          (Function.update pc task (.finish .popMany cause : Point τ V) other).failing =
            true := by
        rintro ⟨other, hother⟩
        by_cases hsame : other = task
        · subst hsame
          rw [Function.update_self] at hother
          cases cause <;> cases hother
        · rw [Function.update_of_ne hsame] at hother
          exact hsame (hinv.eq_of_active hactive (active_of_failing hother))
      have huninit : cause.atom ≠ .uninit := by
        cases cause <;> simp [Cause.atom]
      refine ⟨?_, ?_⟩
      · rw [begins_append, hbegins, List.append_nil, hbegun, hatom, if_neg huninit]
        rfl
      · rw [fails_append hpanics habandons, hfailed, hbefore, hatom]
        cases cause <;> simp [Cause.atom, hafter]

/-! ## Runs -/

variable [Fintype τ]

/-- The runs of any number of tasks from `SyncOnceCell::new`. -/
def machine : Machine (HeapSystem τ Unit (Fin 1) CellAtom ω (Option V) (Point τ V))
    (τ × Label (Call V) ω) (CellMark τ V ω) :=
  System.machine client usage (HeapStore.empty 0) (fun _ => .uninit) () none

abbrev lists : Machine (ListCell τ V ω) (τ × Label (Call V) ω) (CellMark τ V ω) :=
  System.machine client usage (ListStore.empty 0) (fun _ => .uninit) () none

omit [DecidableEq τ] [DecidableEq V] [DecidableEq ω] [Fintype τ] in
theorem inv_initial :
    Inv (World.initial (ListStore.empty 0) (fun _ => .uninit) () :
      ListWorld τ Unit (Fin 1) CellAtom ω).board (none : Option V) fun _ => .idle := by
  refine ⟨fun _ _ h => (by cases h), ?_, fun _ => trivial, fun _ h => (by cases h), by simp,
    fun h => (by cases h), ?_⟩
  · refine iff_of_false (fun h => by cases h) fun hexists => ?_
    obtain ⟨-, hactive⟩ := hexists
    cases hactive
  · exact fun hfinal => absurd hfinal not_final_uninit

omit [DecidableEq V] [Fintype τ] in
theorem sound_of_reachable {sys : ListCell τ V ω}
    (hreach : (lists : Machine (ListCell τ V ω) _ _).Reachable sys) : Sound sys :=
  System.Verified.of_reachable typed invariant inv_initial hreach

omit [DecidableEq V] [Fintype τ] in
theorem recorded_of_trace {history : List (CellMark τ V ω)} {sys : ListCell τ V ω}
    (htrace : lists.Trace history sys) : Recorded history (sys.world.atom ()) sys.pc := by
  refine htrace.invariant
    (motive := fun history sys => Recorded history (sys.world.atom ()) sys.pc) ?_ ?_
  · exact ⟨rfl, iff_of_false (by simp [panics, abandons]) (by rintro (h | ⟨_, h⟩) <;> cases h)⟩
  · rintro history sys ⟨task, label⟩ next marks htrace hrecorded hnext
    obtain ⟨hnext, -⟩ := System.machine_next.mp hnext
    have hsound := sound_of_reachable htrace.reachable
    obtain ⟨pc', hpc, hchange⟩ := change hsound hnext
    rw [show next.pc = Function.update sys.pc task pc' from hpc]
    exact hrecorded.change hsound.inv hchange

/-- What a cell promises in a state of a run, and for the next step. -/
structure Initializes (history : List (CellMark τ V ω))
    (sys : HeapSystem τ Unit (Fin 1) CellAtom ω (Option V) (Point τ V)) : Prop where
  safe : sys.panicked = false
  /-- At most one init future is ever started. -/
  once : (begins history).length ≤ 1
  /-- Every reference is to the value of the cell. -/
  reference : ∀ task value, sys.pc task = .ended (.reference value) →
    sys.world.atom () = .init ∧ sys.memory = some value
  moves : ∀ label next marks, machine.next sys label = some (next, marks) →
    Moves (sys.world.atom ()) (next.world.atom ()) ∧
      ∀ value, sys.memory = some value → next.memory = some value
  /-- A waiter that was woken does not wait again. -/
  again : ∀ label next marks task resp, machine.next sys label = some (next, marks) →
    .responded task .reload resp ∈ marks →
      next.pc task = .assumeInitRef ∨ next.pc task = .ended .poisoned
  /-- Nobody is left when `finish` is over. -/
  settled : (sys.world.atom ()).Final → (∀ task, (sys.pc task).finishes = false) →
    FutexStore.top sys.world.store () = none ∧
      FutexStore.isEmpty sys.world.store () 0 = true ∧
        ∀ task, sys.pc task = .entered ∨ sys.pc task = .waiting →
          sys.world.awake task = true ∨ sys.lists.world.board.stage task = .dropping

omit [DecidableEq τ] [DecidableEq V] [Fintype τ] in
/-- Whoever still holds a handle or a list of handles is inside `finish`. -/
theorem finishes_of_holds {point : Point τ V}
    (hholds : (holds point).hand = true ∨ (holds point).list = true) :
    point.finishes = true := by
  cases point with
  | finish point cause => rfl
  | start used current => cases used <;> simp [holds] at hholds
  | _ => simp [holds] at hholds

omit [DecidableEq ω] [DecidableEq τ] [DecidableEq V] [Fintype τ] in
/-- When `finish` is over, nobody who still waits is asleep. -/
theorem awake_of_settled {sys : ListCell τ V ω} (hsys : Sound sys)
    (hinbox : sys.world.store.inbox () = []) (hqueue : sys.world.store.queues () 0 = [])
    (hidle : ∀ task, (sys.pc task).finishes = false) {task : τ}
    (hpc : sys.pc task = .entered ∨ sys.pc task = .waiting) :
    sys.world.awake task = true ∨ sys.world.board.stage task = .dropping := by
  obtain ⟨place, hplaced⟩ := hsys.coherent.placed
  have hslot := (hsys.fits task).slot
  have hstage : (sys.world.board.stage task = .entered ∨
      sys.world.board.stage task = .waiting) ∨ sys.world.board.stage task = .dropping := by
    rcases hpc with hpc | hpc
    · rw [hpc] at hslot
      exact Or.inl (Or.inl hslot.1)
    · rw [hpc] at hslot
      exact hslot.1.imp_left Or.inr
  refine hstage.symm.symm.imp_left fun hwaits => ?_
  by_contra hasleep
  have hplace := hplaced.somewhere task hwaits (eq_false_of_ne_true hasleep)
  cases hcase : place task with
  | nowhere => exact hplace hcase
  | inbox futex =>
      have hmem := (hplaced.places.inbox futex task).mpr hcase
      rw [show sys.world.board.store.inbox futex = [] from hinbox] at hmem
      cases hmem
  | queue futex queue =>
      have hmem := (hplaced.places.queues futex queue task).mpr hcase
      rw [Subsingleton.elim queue 0,
        show sys.world.board.store.queues futex 0 = [] from hqueue] at hmem
      cases hmem
  | list other =>
      have hmem := (hplaced.places.list other task).mpr hcase
      have hlist : (holds (sys.pc other)).list = false := by
        by_contra hnot
        have hfinish := finishes_of_holds (Or.inr (by simpa using hnot))
        rw [hidle other] at hfinish
        cases hfinish
      rw [(hsys.fits other).list hlist] at hmem
      cases hmem
  | hand other =>
      have hhandle := (hplaced.places.hand other task).mpr hcase
      have hhand : (holds (sys.pc other)).hand = false := by
        by_contra hnot
        have hfinish := finishes_of_holds (Or.inl (by simpa using hnot))
        rw [hidle other] at hfinish
        cases hfinish
      rw [(hsys.fits other).handle_eq_none hhand] at hhandle
      cases hhandle

omit [DecidableEq V] in
/-- In every run the cell is initialized once and releases everyone. -/
theorem initializes_of_trace {history : List (CellMark τ V ω)}
    {sys : HeapSystem τ Unit (Fin 1) CellAtom ω (Option V) (Point τ V)}
    (htrace : machine.Trace history sys) : Initializes history sys := by
  obtain ⟨hlists, hrep⟩ := System.lists_of_trace htrace
  obtain ⟨before, hstore, -⟩ := hrep.lists
  have hsound := sound_of_reachable hlists.reachable
  have hinv := hsound.inv
  refine ⟨hsound.safe, ?_, ?_, ?_, ?_, ?_⟩
  · have hbegun := (recorded_of_trace hlists).begun
    rw [hbegun]
    split <;> simp
  · intro task value hpc
    have hpoint := hinv.points task
    rw [show sys.lists.pc task = .ended (.reference value) from hpc] at hpoint
    exact hpoint
  · intro label next marks hnext
    obtain ⟨hnext', -⟩ := System.machine_next.mp (System.next_lists htrace hnext)
    obtain ⟨pc', -, hchange⟩ := change hsound hnext'
    have hmoves : ∀ {marks : List (CellMark τ V ω)} {atom' : CellAtom} {inner' : Option V},
        Change (sys.world.atom ()) sys.memory label.1 (sys.pc label.1) marks atom' inner' pc' →
          Moves (sys.world.atom ()) atom' ∧
            ∀ value, sys.memory = some value → inner' = some value := by
      intro marks atom' inner' hchange
      generalize sys.world.atom () = atom at hchange ⊢
      cases hchange with
      | keep => exact ⟨.same _, fun _ => id⟩
      | fail => exact ⟨.same _, fun _ => id⟩
      | begin _ _ _ _ hatom =>
          subst hatom
          exact ⟨.begin, fun _ => id⟩
      | write _ _ _ _ hnone =>
          refine ⟨.same _, fun value hvalue => ?_⟩
          rw [hnone] at hvalue
          cases hvalue
      | store _ _ _ _ hatom =>
          subst hatom
          exact ⟨.finish (final_cause _), fun _ => id⟩
    exact hmoves hchange
  · intro label next marks task resp hnext hmark
    have hsound' := sound_of_reachable
      (System.lists_of_trace (htrace.step hnext)).1.reachable
    obtain ⟨rfl, -, hpanicked | ⟨pc', hgo, hpc'⟩⟩ :=
      System.responded_of_next (System.machine_next.mp hnext).1 hmark
    · have hsafe : next.panicked = false := hsound'.safe
      rw [hsafe] at hpanicked
      cases hpanicked
    · have hpoint := hsound'.inv.points label.1
      have hself : next.pc label.1 = pc' := by
        rw [hpc', Function.update_self]
      rw [show next.lists.pc label.1 = pc' from hself] at hpoint
      rw [hself]
      cases resp with
      | atom current =>
          have hresume : loopAt true current = some pc' := hgo
          unfold loopAt at hresume
          split at hresume <;> cases hresume
          · cases hpoint.1
          · exact Or.inr rfl
          · exact Or.inl rfl
      | _ => cases hgo
  · intro hfinal hidle
    obtain ⟨hinbox, hqueue⟩ := hinv.settled hfinal
    have hqueue : sys.lists.world.store.queues () 0 = [] := by
      refine hqueue.resolve_right ?_
      rintro ⟨task, cause, hpc⟩
      have hfinish := hidle task
      rw [show sys.pc task = .finish .popMany cause from hpc] at hfinish
      cases hfinish
    refine ⟨?_, ?_, fun task hpc => ?_⟩
    · rw [hstore.top]
      exact List.head?_eq_none_iff.mpr hinbox
    · rw [hstore.isEmpty]
      exact List.isEmpty_iff.mpr hqueue
    · exact awake_of_settled hsound hinbox hqueue hidle hpc

/-- One task initializes the cell while another one waits for it. -/
theorem initializes_of_complete :
    ∃ (history : List (CellMark (Fin 2) ℕ Unit))
      (sys : HeapSystem (Fin 2) Unit (Fin 1) CellAtom Unit (Option ℕ) (Point (Fin 2) ℕ)),
      sys.pc 0 = .ended (.reference 7) ∧ sys.pc 1 = .ended (.reference 7) ∧
        Initializes history sys := by
  let run (task : Fin 2) (count : ℕ) : List (Fin 2 × Label (Call ℕ) Unit) :=
    List.replicate count (task, .call false ())
  let wait : List (Fin 2 × Label (Call ℕ) Unit) := (1, .start .getOrInit) :: run 1 4
  let finish : List (Fin 2 × Label (Call ℕ) Unit) :=
    [(0, .start (.complete 7)), (0, .own)] ++ run 0 7 ++ [(0, .step false)] ++ run 0 3 ++
      [(0, .own)]
  let wake : List (Fin 2 × Label (Call ℕ) Unit) :=
    [(1, .poll ()), (1, .step false), (1, .call false ()), (1, .own)]
  have htrace : (machine : Machine (HeapSystem (Fin 2) Unit (Fin 1) CellAtom Unit
      (Option ℕ) (Point (Fin 2) ℕ)) _ _).Trace _ _ :=
    ⟨(0, .start .getOrInit) :: run 0 3 ++ wait ++ finish ++ wake, rfl⟩
  exact ⟨_, _, rfl, rfl, initializes_of_trace htrace⟩

/-! ## Poison -/

omit [DecidableEq V] in
/-- Without a panic, the cell is poisoned exactly by dropping the call that runs
the init future. -/
theorem poisoned_of_trace {history : List (CellMark τ V ω)}
    {sys : HeapSystem τ Unit (Fin 1) CellAtom ω (Option V) (Point τ V)}
    (htrace : machine.Trace history sys) (hpanics : panics history = false) :
    (abandons history = false → sys.world.atom () ≠ .poison ∧
        ∀ task, sys.pc task ≠ .ended .poisoned) ∧
      (abandons history = true → sys.world.atom () = .poison ∨
        ∃ task, (sys.pc task).failing = true) := by
  obtain ⟨hlists, -⟩ := System.lists_of_trace htrace
  have hfailed : panics history = true ∨ abandons history = true ↔
      sys.world.atom () = .poison ∨ ∃ task, (sys.pc task).failing = true :=
    (recorded_of_trace hlists).failed
  refine ⟨fun habandons => ?_, fun habandons => hfailed.mp (Or.inr habandons)⟩
  have hpoison : sys.world.atom () ≠ .poison := by
    intro hpoison
    have hfails := hfailed.mpr (Or.inl hpoison)
    simp [hpanics, habandons] at hfails
  refine ⟨hpoison, fun task hpc => hpoison ?_⟩
  have hpoint := (sound_of_reachable hlists.reachable).inv.points task
  rw [show sys.lists.pc task = .ended .poisoned from hpc] at hpoint
  exact hpoint

/-- A call that runs its init future is dropped, and the cell is poisoned for the
next call. -/
theorem poisoned_of_abandon :
    ∃ (history : List (CellMark (Fin 2) ℕ Unit))
      (sys : HeapSystem (Fin 2) Unit (Fin 1) CellAtom Unit (Option ℕ) (Point (Fin 2) ℕ)),
      machine.Trace history sys ∧ panics history = false ∧
        sys.world.atom () = .poison ∧ sys.pc 1 = .ended .poisoned := by
  let run (task : Fin 2) (count : ℕ) : List (Fin 2 × Label (Call ℕ) Unit) :=
    List.replicate count (task, .call false ())
  exact ⟨_, _, ⟨(0, .start .getOrInit) :: run 0 3 ++ (0, .start .abandon) :: run 0 8 ++
    (1, .start .getOrInit) :: run 1 2, rfl⟩, rfl, rfl, rfl⟩

/-- A call that waits is dropped, then the init future completes: the cell is
initialized. -/
theorem poisoned_of_drop :
    ∃ (history : List (CellMark (Fin 2) ℕ Unit))
      (sys : HeapSystem (Fin 2) Unit (Fin 1) CellAtom Unit (Option ℕ) (Point (Fin 2) ℕ)),
      .event (.cancelSleeping 1) ∈ history ∧ panics history = false ∧
        abandons history = false ∧ sys.world.atom () = .init ∧
        sys.pc 0 = .ended (.reference 7) ∧ sys.pc 1 = .ended (.reference 7) ∧
        (abandons history = false → sys.world.atom () ≠ .poison ∧
          ∀ task, sys.pc task ≠ .ended .poisoned) ∧
        (abandons history = true → sys.world.atom () = .poison ∨
          ∃ task, (sys.pc task).failing = true) := by
  let machine : Machine (HeapSystem (Fin 2) Unit (Fin 1) CellAtom Unit (Option ℕ)
    (Point (Fin 2) ℕ)) (Fin 2 × Label (Call ℕ) Unit) (CellMark (Fin 2) ℕ Unit) := machine
  let run (task : Fin 2) (count : ℕ) : List (Fin 2 × Label (Call ℕ) Unit) :=
    List.replicate count (task, .call false ())
  let cancel : List (Fin 2 × Label (Call ℕ) Unit) :=
    (1, .drop) :: List.replicate 7 (1, .step false)
  let finish : List (Fin 2 × Label (Call ℕ) Unit) :=
    [(0, .start (.complete 7)), (0, .own)] ++ run 0 8 ++ [(0, .own)]
  let labels : List (Fin 2 × Label (Call ℕ) Unit) :=
    (0, .start .getOrInit) :: run 0 3 ++ (1, .start .getOrInit) :: run 1 4 ++ cancel ++
      finish ++ (1, .start .getOrInit) :: run 1 2 ++ [(1, .own)]
  have hrun : (machine.run labels).map (fun result =>
      decide (Mark.event (.cancelSleeping 1) ∈ result.2 ∧ panics result.2 = false ∧
        abandons result.2 = false ∧ result.1.world.atom () = .init ∧
        result.1.pc 0 = .ended (.reference 7) ∧ result.1.pc 1 = .ended (.reference 7))) =
      some true := by decide +kernel
  obtain ⟨⟨sys, history⟩, hresult, hgood⟩ := Option.map_eq_some_iff.mp hrun
  obtain ⟨hcancel, hpanics, habandons, hatom, hfirst, hsecond⟩ := of_decide_eq_true hgood
  exact ⟨history, sys, hcancel, hpanics, habandons, hatom, hfirst, hsecond,
    poisoned_of_trace ⟨labels, hresult⟩ hpanics⟩

end SyncOnceCell

end AsyncMutex
