import AsyncMutex.OnceCellProgram

/-!
# The invariant of the once cell

At any time at most one task runs the init future or has still to store its
outcome.  The atom is `Active` exactly while there is such a task, and once the
outcome is stored only the waiters that `finish` has not woken yet are asleep.
-/

namespace AsyncMutex

/-- The cell does not change any more. -/
def CellAtom.Final (atom : CellAtom) : Prop :=
  atom = .init ∨ atom = .poison

namespace SyncOnceCell

variable {τ V : Type}

/-- `finish` has not stored its atom. -/
def Finish.before : Finish τ → Bool
  | .lock => true
  | .borrow => true
  | .load => true
  | .loop _ => true
  | _ => false

/-- The task runs the init future or has still to store how it ended. -/
def Point.active : Point τ V → Bool
  | .initializing => true
  | .write _ => true
  | .finish point _ => point.before
  | _ => false

/-- The task has written the value and not stored `Init`. -/
def Point.written : Point τ V → Bool
  | .finish point .complete => point.before
  | _ => false

def Point.finishes : Point τ V → Bool
  | .finish _ _ => true
  | _ => false

abbrev CellBoard (τ : Type) := Board τ Unit (Fin 1) CellAtom

def PointInv (atom : CellAtom) (inner : Option V) : Point τ V → Prop
  | .waiter current => current.atom.Final → atom = current.atom
  | .start used current => used = false ∧ current.atom = .uninit
  | .wait current => current.atom = .active
  | .reload => atom.Final
  | .finish point cause =>
      if point.before then cause = .complete → inner ≠ none else atom = cause.atom
  | .assumeInitRef => atom = .init
  | .ended (.reference value) => atom = .init ∧ inner = some value
  | .ended .poisoned => atom = .poison
  | _ => True

structure Inv (board : CellBoard τ) (inner : Option V) (pc : τ → Point τ V) : Prop where
  unique : ∀ task other, (pc task).active = true → (pc other).active = true →
    task = other
  active : board.atom () = .active ↔ ∃ task, (pc task).active = true
  points : ∀ task, PointInv (board.atom ()) inner (pc task)
  /-- Nobody is woken before the outcome is stored. -/
  awake : ∀ task, board.awake task = true → (board.atom ()).Final
  written : inner ≠ none → board.atom () = .init ∨ ∃ task, (pc task).written = true
  value : board.atom () = .init → inner ≠ none
  /-- Only `finish` itself still finds waiters in the queue. -/
  settled : (board.atom ()).Final → board.store.inbox () = [] ∧
    (board.store.queues () 0 = [] ∨ ∃ task cause, pc task = .finish .popMany cause)

/-- Futures may be dropped at any time. -/
def usage : Usage τ (Point τ V) := {}

theorem not_final_active : ¬ CellAtom.active.Final := by
  simp [CellAtom.Final]

theorem not_final_uninit : ¬ CellAtom.uninit.Final := by
  simp [CellAtom.Final]

theorem final_cause (cause : Cause) : cause.atom.Final := by
  cases cause <;> simp [CellAtom.Final, Cause.atom]

theorem active_of_written {point : Point τ V} (hwritten : point.written = true) :
    point.active = true := by
  cases point with
  | finish point cause =>
      cases cause with
      | complete => exact hwritten
      | panic => cases hwritten
      | abandon => cases hwritten
  | _ => cases hwritten

/-- A program point that keeps its promise until the outcome is stored. -/
theorem PointInv.mono {atom atom' : CellAtom} {inner inner' : Option V} {point : Point τ V}
    (hpoint : PointInv atom inner point) (hatom : atom.Final → atom' = atom)
    (hinner : ∀ value, inner = some value → inner' = some value) :
    PointInv atom' inner' point := by
  have hsome : inner ≠ none → inner' ≠ none := by
    intro hne
    obtain ⟨value, hvalue⟩ := Option.ne_none_iff_exists'.mp hne
    simp [hinner value hvalue]
  cases point with
  | reload =>
      have hfinal : atom.Final := hpoint
      rw [hatom hfinal]
      exact hfinal
  | finish point cause =>
      simp only [PointInv] at hpoint ⊢
      split
      case isTrue hbefore =>
        rw [if_pos hbefore] at hpoint
        exact fun hcause => hsome (hpoint hcause)
      case isFalse hafter =>
        rw [if_neg hafter] at hpoint
        rw [hatom (hpoint ▸ final_cause cause)]
        exact hpoint
  | assumeInitRef =>
      have hinit : atom = .init := hpoint
      have hsame := hatom (Or.inl hinit)
      exact hsame.trans hinit
  | ended outcome =>
      cases outcome with
      | reference value =>
          obtain ⟨hinit, hvalue⟩ := hpoint
          exact ⟨(hatom (Or.inl hinit)).trans hinit, hinner value hvalue⟩
      | poisoned =>
          have hpoison : atom = .poison := hpoint
          exact (hatom (Or.inr hpoison)).trans hpoison
      | none => trivial
      | unwound => trivial
  | waiter current =>
      intro hfinal
      have hsame : atom = current.atom := hpoint hfinal
      rw [hatom (hsame ▸ hfinal), hsame]
  | start used current => exact hpoint
  | wait current => exact hpoint
  | _ => trivial

variable [DecidableEq τ] {board board' : CellBoard τ} {inner : Option V}
  {pc : τ → Point τ V} {task : τ}

namespace Inv

omit [DecidableEq τ] in
/-- The task at hand is the only active one. -/
theorem eq_of_active (hinv : Inv board inner pc) (hactive : (pc task).active = true)
    {other : τ} (hother : (pc other).active = true) : other = task :=
  hinv.unique other task hother hactive

omit [DecidableEq τ] in
theorem atom_of_active (hinv : Inv board inner pc) (hactive : (pc task).active = true) :
    board.atom () = .active :=
  hinv.active.mpr ⟨task, hactive⟩

/-- A step that leaves the atom and the value as they are. -/
theorem advance (hinv : Inv board inner pc) {pc' : Point τ V}
    (hatom : board'.atom () = board.atom ())
    (hlines : (board.atom ()).Final → board.store.inbox () = [] →
      board'.store.inbox () = [] ∧
        (board.store.queues () 0 = [] → board'.store.queues () 0 = []))
    (hawake : ∀ other, board'.awake other = true → board.awake other = true ∨
      (board.atom ()).Final)
    (hactive : pc'.active = (pc task).active) (hwritten : pc'.written = (pc task).written)
    (hpop : ∀ cause, pc task = .finish .popMany cause →
      board'.store.queues () 0 = [] ∨ pc' = .finish .popMany cause)
    (hpoint : PointInv (board.atom ()) inner pc') :
    Inv board' inner (Function.update pc task pc') := by
  have hsame : ∀ other, (Function.update pc task pc' other).active = (pc other).active :=
    (Function.forall_update_iff pc fun other point => point.active = (pc other).active).mpr
      ⟨hactive, fun _ _ => rfl⟩
  have hsame' : ∀ other,
      (Function.update pc task pc' other).written = (pc other).written :=
    (Function.forall_update_iff pc fun other point =>
      point.written = (pc other).written).mpr ⟨hwritten, fun _ _ => rfl⟩
  refine ⟨?_, ?_, ?_, fun other hother => ?_, ?_, ?_, ?_⟩
  · simpa only [hsame] using hinv.unique
  · simpa only [hsame, hatom] using hinv.active
  · rw [hatom]
    exact (Function.forall_update_iff pc fun _ point =>
      PointInv (board.atom ()) inner point).mpr ⟨hpoint, fun other _ => hinv.points other⟩
  · rw [hatom]
    exact (hawake other hother).elim (hinv.awake other) id
  · simpa only [hsame', hatom] using hinv.written
  · rw [hatom]
    exact hinv.value
  · rw [hatom]
    intro hfinal
    obtain ⟨hinbox, hqueue⟩ := hinv.settled hfinal
    obtain ⟨hinbox', hqueue'⟩ := hlines hfinal hinbox
    refine ⟨hinbox', ?_⟩
    rcases hqueue with hqueue | ⟨other, cause, hother⟩
    · exact Or.inl (hqueue' hqueue)
    · by_cases hsame : other = task
      · subst hsame
        refine (hpop cause hother).imp_right fun heq => ⟨other, cause, ?_⟩
        rw [Function.update_self, heq]
      · refine Or.inr ⟨other, cause, ?_⟩
        rw [Function.update_of_ne hsame, hother]

/-- A step that leaves all program points as they are. -/
theorem still (hinv : Inv board inner pc) (task : τ)
    (hatom : board'.atom () = board.atom ())
    (hlines : (board.atom ()).Final → board.store.inbox () = [] →
      board'.store.inbox () = [] ∧
        (board.store.queues () 0 = [] → board'.store.queues () 0 = []))
    (hawake : ∀ other, board'.awake other = true → board.awake other = true ∨
      (board.atom ()).Final) :
    Inv board' inner pc := by
  have hkeep : Inv board' inner (Function.update pc task (pc task)) :=
    hinv.advance hatom hlines hawake rfl rfl (fun _ => Or.inr) (hinv.points task)
  rwa [Function.update_eq_self] at hkeep

/-- The code goes on, and the board changes in nothing that matters here. -/
theorem goOn (hinv : Inv board inner pc) {pc' : Point τ V}
    (hatom : board'.atom = board.atom) (hinbox : board'.store.inbox = board.store.inbox)
    (hqueues : board'.store.queues = board.store.queues)
    (hawake : ∀ other, board'.awake other = true → board.awake other = true)
    (hactive : pc'.active = (pc task).active) (hwritten : pc'.written = (pc task).written)
    (hpop : ∀ cause, pc task ≠ .finish .popMany cause)
    (hpoint : PointInv (board.atom ()) inner pc') :
    Inv board' inner (Function.update pc task pc') := by
  refine hinv.advance (by rw [hatom]) (fun _ hnil => ?_)
    (fun other hother => Or.inl (hawake other hother)) hactive hwritten
    (fun cause hpc => absurd hpc (hpop cause)) hpoint
  rw [hinbox, hqueues]
  exact ⟨hnil, id⟩

/-! ## The steps that change the cell -/

/-- The compare-exchange from `Uninit` to `Active` succeeds. -/
theorem begin (hinv : Inv board inner pc) (huninit : board.atom () = .uninit) :
    Inv (board.setAtom () .active) inner (Function.update pc task .initializing) := by
  have hidle : ∀ other, (pc other).active = false := by
    intro other
    cases hactive : (pc other).active with
    | false => rfl
    | true =>
        have hatom := hinv.atom_of_active hactive
        rw [huninit] at hatom
        cases hatom
  have hactive : ∀ other,
      (Function.update pc task (.initializing : Point τ V) other).active = true →
        other = task := by
    intro other hother
    by_contra hne
    rw [Function.update_of_ne hne, hidle other] at hother
    cases hother
  have hnone : inner = none := by
    by_contra hne
    rcases hinv.written hne with hinit | ⟨other, hother⟩
    · rw [huninit] at hinit
      cases hinit
    · have hother' := active_of_written hother
      rw [hidle other] at hother'
      cases hother'
  refine ⟨fun first second hfirst hsecond => ?_, ?_, ?_, fun other hother => ?_, ?_, ?_, ?_⟩
  · rw [hactive first hfirst, hactive second hsecond]
  · refine iff_of_true (by simp [Board.setAtom]) ⟨task, ?_⟩
    rw [Function.update_self]
    rfl
  · refine (Function.forall_update_iff pc fun _ point => PointInv _ inner point).mpr
      ⟨trivial, fun other _ => (hinv.points other).mono (fun hfinal => ?_) fun _ => id⟩
    rw [huninit] at hfinal
    exact absurd hfinal not_final_uninit
  · have hfinal := hinv.awake other hother
    rw [huninit] at hfinal
    exact absurd hfinal not_final_uninit
  · exact fun hne => absurd hnone hne
  · simp [Board.setAtom]
  · intro hfinal
    simp only [Board.setAtom, Function.update_self] at hfinal
    exact absurd hfinal not_final_active

/-- The compare-exchange of `finish` succeeds. -/
theorem store (hinv : Inv board inner pc) {current : FutexAtom τ CellAtom} {cause : Cause}
    (hpc : pc task = .finish (.loop current) cause) :
    Inv ((board.flip ()).setAtom () cause.atom) inner
      (Function.update pc task (.finish .popMany cause)) := by
  have hactive : (pc task).active = true := by
    rw [hpc]
    rfl
  have hatom := hinv.atom_of_active hactive
  have hidle : ∀ other,
      (Function.update pc task (.finish .popMany cause : Point τ V) other).active =
        false := by
    refine (Function.forall_update_iff pc fun _ point => point.active = false).mpr
      ⟨rfl, fun other hother => ?_⟩
    cases hother' : (pc other).active with
    | false => rfl
    | true => exact absurd (hinv.eq_of_active hactive hother') hother
  have hvalue : cause = .complete → inner ≠ none := by
    have hpoint := hinv.points task
    rw [hpc] at hpoint
    exact hpoint
  have hatom' : ((board.flip ()).setAtom () cause.atom).atom () = cause.atom := by
    simp [Board.setAtom]
  refine ⟨fun first second hfirst => ?_, ?_, ?_, fun other _ => ?_, fun hne => ?_,
    fun hinit => ?_, fun _ => ⟨?_, Or.inr ⟨task, cause, Function.update_self _ _ _⟩⟩⟩
  · rw [hidle first] at hfirst
    cases hfirst
  · rw [hatom']
    refine iff_of_false (fun hsame => ?_) (not_exists.mpr fun other hother => ?_)
    · have hfinal := final_cause cause
      rw [hsame] at hfinal
      exact not_final_active hfinal
    · rw [hidle other] at hother
      cases hother
  · rw [hatom']
    refine (Function.forall_update_iff pc fun _ point => PointInv _ inner point).mpr
      ⟨rfl, fun other _ => (hinv.points other).mono (fun hfinal => ?_) fun _ => id⟩
    rw [hatom] at hfinal
    exact absurd hfinal not_final_active
  · rw [hatom']
    exact final_cause cause
  · -- the value was written by this task
    rw [hatom']
    rcases hinv.written hne with hinit | ⟨other, hother⟩
    · rw [hatom] at hinit
      cases hinit
    · have hsame := hinv.eq_of_active hactive (active_of_written hother)
      rw [hsame, hpc] at hother
      cases cause with
      | complete => exact Or.inl rfl
      | panic => cases hother
      | abandon => cases hother
  · rw [hatom'] at hinit
    cases cause with
    | complete => exact hvalue rfl
    | panic => cases hinit
    | abandon => cases hinit
  · simp [Board.setAtom, Board.flip, Board.setStore]

/-- The value is written. -/
theorem write (hinv : Inv board inner pc) {value : V} (hpc : pc task = .write value) :
    inner = none ∧
      Inv board (some value) (Function.update pc task (.finish .lock .complete)) := by
  have hactive : (pc task).active = true := by
    rw [hpc]
    rfl
  have hatom := hinv.atom_of_active hactive
  have hnone : inner = none := by
    by_contra hne
    rcases hinv.written hne with hinit | ⟨other, hother⟩
    · rw [hatom] at hinit
      cases hinit
    · have hsame := hinv.eq_of_active hactive (active_of_written hother)
      rw [hsame, hpc] at hother
      cases hother
  have hsame : ∀ other, (Function.update pc task
      (.finish .lock .complete : Point τ V) other).active = (pc other).active := by
    refine (Function.forall_update_iff pc fun other point =>
      point.active = (pc other).active).mpr ⟨?_, fun _ _ => rfl⟩
    rw [hactive]
    rfl
  refine ⟨hnone, ?_, ?_, ?_, hinv.awake, fun _ => Or.inr ⟨task, ?_⟩, fun _ => by simp, ?_⟩
  · simpa only [hsame] using hinv.unique
  · simpa only [hsame] using hinv.active
  · refine (Function.forall_update_iff pc fun _ point => PointInv _ (some value) point).mpr
      ⟨fun _ => by simp, fun other _ => (hinv.points other).mono (fun _ => rfl) ?_⟩
    simp [hnone]
  · rw [Function.update_self]
    rfl
  · intro hfinal
    rw [hatom] at hfinal
    exact absurd hfinal not_final_active

/-- A program point of the loop of `get_or_init`. -/
theorem enterLoop (hinv : Inv board inner pc) {used : Bool}
    (hused : used = true → (board.atom ()).Final) (hactive : (pc task).active = false)
    (hwritten : (pc task).written = false)
    (hpop : ∀ cause, pc task ≠ .finish .popMany cause)
    (hatom : board'.atom = board.atom) (hinbox : board'.store.inbox = board.store.inbox)
    (hqueues : board'.store.queues = board.store.queues)
    (hawake : ∀ other, board'.awake other = true → board.awake other = true)
    (current : FutexAtom τ CellAtom)
    (hcurrent : current.atom.Final → board.atom () = current.atom)
    (hload : used = true → current.atom = board.atom ()) :
    ∃ pc', loopAt used current = some pc' ∧ Inv board' inner (Function.update pc task pc') := by
  have hkeep : ∀ {pc' : Point τ V}, pc'.active = false → pc'.written = false →
      PointInv (board.atom ()) inner pc' → Inv board' inner (Function.update pc task pc') :=
    fun hactive' hwritten' hpoint => hinv.goOn hatom hinbox hqueues hawake
      (hactive'.trans hactive.symm) (hwritten'.trans hwritten.symm) hpop hpoint
  have hunused : ¬ current.atom.Final → used = false := by
    intro hnot
    cases hcase : used with
    | false => rfl
    | true => exact absurd (hload hcase ▸ hused hcase) hnot
  unfold loopAt
  split
  case h_1 huninit =>
    have hfresh := hunused (by rw [huninit]; exact not_final_uninit)
    exact ⟨_, rfl, hkeep rfl rfl ⟨hfresh, huninit⟩⟩
  case h_2 hwait =>
    have hfresh := hunused (by rw [hwait]; exact not_final_active)
    subst hfresh
    exact ⟨_, rfl, hkeep rfl rfl hwait⟩
  case h_3 hpoison =>
    have hsame := hcurrent (Or.inr hpoison)
    exact ⟨_, rfl, hkeep rfl rfl (hsame.trans hpoison)⟩
  case h_4 hinit =>
    have hsame := hcurrent (Or.inl hinit)
    exact ⟨_, rfl, hkeep rfl rfl (hsame.trans hinit)⟩

/-! ## The steps of the code -/

omit [DecidableEq τ] in
theorem point_of_wake {point : Point τ V} (hcode : code point = .call .wake) :
    ∃ cause, point = .finish .wake cause := by
  cases point with
  | finish point cause =>
      cases point <;> cases hcode
      exact ⟨cause, rfl⟩
  | _ => cases hcode

omit [DecidableEq τ] in
theorem code_ne_requeue (point : Point τ V) (futex : Unit) :
    code point ≠ .call (.requeue futex) := by
  cases point with
  | finish point cause => cases point <;> simp [code, finishOp]
  | _ => simp [code]

omit [DecidableEq τ] in
/-- Whoever holds the queue guard is inside `finish`, behind its `borrow`. -/
theorem point_of_borrowed {point : Point τ V}
    (hborrow : (holds point).borrow = some ()) :
    ∃ point' cause, point = .finish point' cause ∧ point' ≠ .borrow := by
  cases point with
  | finish point cause =>
      refine ⟨point, cause, rfl, ?_⟩
      rintro rfl
      cases hborrow
  | start used current => cases used <;> cases hborrow
  | _ => cases hborrow

omit [DecidableEq τ] in
theorem borrow (hinv : Inv board inner pc)
    (hco : (client : Client τ _ _ _ _ (Point τ V) _).Coherent holds board pc) {futex : Unit}
    (hcode : code (pc task) = .call (.borrow futex)) : board.borrowed futex = none := by
  obtain ⟨cause, hpc⟩ : ∃ cause, pc task = .finish .borrow cause := by
    cases hpc : pc task with
    | finish point cause =>
        rw [hpc] at hcode
        cases point <;> cases hcode
        exact ⟨cause, rfl⟩
    | _ =>
        rw [hpc] at hcode
        cases hcode
  have hactive : (pc task).active = true := by
    rw [hpc]
    rfl
  by_contra hne
  obtain ⟨other, hborrowed⟩ := Option.ne_none_iff_exists'.mp hne
  obtain ⟨point, cause', hother, hpoint⟩ :=
    point_of_borrowed (((hco.fits other).borrow futex).mp hborrowed)
  cases hbefore : point.before with
  | true =>
      have hsame : other = task := hinv.eq_of_active hactive (by rw [hother]; exact hbefore)
      rw [hsame, hpc] at hother
      cases hother
      exact hpoint rfl
  | false =>
      have hatom : board.atom () = cause'.atom := by
        have hpoint' := hinv.points other
        rw [hother] at hpoint'
        simpa [PointInv, hbefore] using hpoint'
      rw [hinv.atom_of_active hactive] at hatom
      exact not_final_active (hatom ▸ final_cause cause')

theorem quiet (hinv : Inv board inner pc) {input : Board.Input τ Unit (Fin 1) CellAtom}
    (hasks : (client : Client τ _ _ _ _ (Point τ V) _).Asks (pc task) input)
    (hstep : board.Step task input none board') : Inv board' inner pc := by
  cases hstep with
  | wake waiter hhandle =>
      obtain ⟨cause, hpc⟩ := point_of_wake (hasks _ rfl)
      have hatom : board.atom () = cause.atom := by
        have hpoint := hinv.points task
        rw [hpc] at hpoint
        exact hpoint
      exact hinv.still task rfl (fun _ hnil => ⟨hnil, id⟩) fun _ _ =>
        Or.inr (hatom ▸ final_cause cause)
  | requeue futex => exact absurd (hasks _ rfl) (code_ne_requeue _ futex)
  | requeueStore => exact hinv.still task rfl (fun _ hnil => ⟨hnil, id⟩) fun _ => Or.inl
  | silent => exact hinv
  | drop => exact hinv.still task rfl (fun _ hnil => ⟨hnil, id⟩) fun _ => Or.inl
  | dropFlip futex =>
      refine hinv.still task rfl (fun _ hnil => ?_) fun _ => Or.inl
      simp [Board.flip, Board.setStore, ListStore.arrivals, hnil]
  | dropCancel futex =>
      refine hinv.still task rfl (fun _ hnil => ?_) fun _ => Or.inl
      have hzero : board.store.queue task = 0 := Subsingleton.elim _ _
      refine ⟨hnil, fun hqueue => ?_⟩
      simp [Board.setStore, FutexStore.cancel, ListStore.setQueue, hzero, hqueue]

theorem finish_answer (hinv : Inv board inner pc) {point : Finish τ} {cause : Cause}
    (hpc : pc task = .finish point cause) {resp : Resp τ CellAtom}
    (hstep : board.Step task (.call (finishOp cause point)) (some resp) board') :
    ∃ pc', resumeFinish cause point resp = some pc' ∧
      Inv board' inner (Function.update pc task pc') := by
  have hpoint := hinv.points task
  rw [hpc] at hpoint
  have hkeep : ∀ {board' : CellBoard τ} {point' : Finish τ}, point'.before = point.before →
      point ≠ .popMany → board'.atom = board.atom →
      board'.store.inbox = board.store.inbox → board'.store.queues = board.store.queues →
      board'.awake = board.awake →
        Inv board' inner (Function.update pc task (.finish point' cause)) := by
    intro board' point' hbefore hpop hatom hinbox hqueues hawake
    refine hinv.goOn hatom hinbox hqueues (fun other => by rw [hawake]; exact id) ?_ ?_ ?_ ?_
    · rw [hpc]
      exact hbefore
    · rw [hpc]
      cases cause with
      | complete => exact hbefore
      | _ => rfl
    · intro cause' heq
      rw [hpc] at heq
      cases heq
      exact hpop rfl
    · simpa only [PointInv, hbefore] using hpoint
  have hloop : point.before = true → point ≠ .popMany →
      ∃ pc', finishAt cause (board.word ()) = some pc' ∧
        Inv board inner (Function.update pc task pc') := by
    intro hbefore hpop
    have hatom : (board.word ()).atom = .active :=
      hinv.atom_of_active (by rw [hpc]; exact hbefore)
    refine ⟨.finish (.loop (board.word ())) cause, if_pos hatom, ?_⟩
    exact hkeep hbefore.symm hpop rfl rfl rfl rfl
  cases point with
  | lock =>
      cases hstep
      exact ⟨_, rfl, hkeep rfl (by simp) rfl rfl rfl rfl⟩
  | borrow =>
      cases hstep
      exact ⟨_, rfl, hkeep rfl (by simp) rfl rfl rfl rfl⟩
  | load =>
      cases hstep
      exact hloop rfl (by simp)
  | loop current =>
      cases hstep
      case cmpxchgEnqueueWeak => exact ⟨_, rfl, hinv.store hpc⟩
      case cmpxchgEnqueueWeakFails => exact hloop rfl (by simp)
  | popMany =>
      cases hstep
      have hqueue : (board.setStore (FutexStore.popMany board.store task ()
          WaiterList.usizeMax 0)).store.queues () 0 = [] := by
        simp [Board.setStore, FutexStore.popMany, ListStore.setQueue, WaiterList.back]
      refine ⟨_, rfl, hinv.advance rfl (fun _ hnil => ⟨hnil, fun _ => hqueue⟩)
        (fun _ => Or.inl) ?_ ?_ (fun _ _ => Or.inl hqueue) hpoint⟩
      · rw [hpc]
        rfl
      · rw [hpc]
        cases cause <;> rfl
  | next =>
      cases hstep
      cases (board.store.list task).head? with
      | none => exact ⟨_, rfl, hkeep rfl (by simp) rfl rfl rfl rfl⟩
      | some waiter => exact ⟨_, rfl, hkeep rfl (by simp) rfl rfl rfl rfl⟩
  | wake => cases hstep
  | release =>
      cases hstep
      exact ⟨_, rfl, hkeep rfl (by simp) rfl rfl rfl rfl⟩
  | unlock =>
      cases hstep
      refine ⟨_, rfl, hinv.goOn rfl rfl rfl (fun _ => id) ?_ ?_ (by simp [hpc]) ?_⟩
      · rw [hpc]
        cases cause <;> rfl
      · rw [hpc]
        cases cause <;> rfl
      · cases cause with
        | complete => exact hpoint
        | panic => trivial
        | abandon => trivial

/-- An operation of `get` or `get_or_init`. -/
theorem call_answer (hinv : Inv board inner pc) {op : Op τ Unit (Fin 1) CellAtom}
    (hcode : code (pc task) = .call op) {resp : Resp τ CellAtom}
    (hstep : board.Step task (.call op) (some resp) board') :
    ∃ pc', resume (pc task) resp = some pc' ∧
      Inv board' inner (Function.update pc task pc') := by
  have hpoint := hinv.points task
  have hloop : ∀ {used : Bool} {board' : CellBoard τ}, (used = true → (board.atom ()).Final) →
      (pc task).active = false → (pc task).written = false →
      (∀ cause, pc task ≠ .finish .popMany cause) → board'.atom = board.atom →
      board'.store.inbox = board.store.inbox → board'.store.queues = board.store.queues →
      board'.awake = board.awake →
        ∃ pc', loopAt used (board.word ()) = some pc' ∧
          Inv board' inner (Function.update pc task pc') := by
    intro used board' hused hactive hwritten hpop hatom hinbox hqueues hawake
    exact hinv.enterLoop hused hactive hwritten hpop hatom hinbox hqueues
      (fun other => by rw [hawake]; exact id) (board.word ()) (fun _ => rfl) (fun _ => rfl)
  cases hpc : pc task with
  | finish point cause =>
      rw [hpc] at hcode
      cases hcode
      exact finish_answer hinv hpc hstep
  | getLoad =>
      rw [hpc] at hcode
      cases hcode
      cases hstep
      refine ⟨_, rfl, hinv.goOn rfl rfl rfl (fun _ => id) ?_ ?_ (by simp [hpc]) ?_⟩
      · rw [hpc, getAt]
        split <;> rfl
      · rw [hpc, getAt]
        split <;> rfl
      · rw [getAt]
        split
        case h_3 hpoison => exact hpoison
        case h_4 hinit => exact hinit
        all_goals trivial
  | load =>
      rw [hpc] at hcode
      cases hcode
      cases hstep
      refine ⟨_, rfl, hinv.goOn rfl rfl rfl (fun _ => id) ?_ ?_ (by simp [hpc])
        fun _ => rfl⟩ <;> rw [hpc] <;> rfl
  | waiter current =>
      rw [hpc] at hcode hpoint
      cases hcode
      cases hstep
      refine hinv.enterLoop (by simp) (by rw [hpc]; rfl) (by rw [hpc]; rfl) (by simp [hpc])
        ?_ ?_ ?_ (fun other hother => ?_) current hpoint (by simp)
      · rfl
      · rfl
      · rfl
      by_cases hsame : other = task
      · subst hsame
        simp [Board.setAwake] at hother
      · simpa [Board.setAwake, Board.setStage, Board.setOwner, Board.setStore, hsame]
          using hother
  | start used current =>
      rw [hpc] at hcode hpoint
      cases hcode
      obtain ⟨rfl, huninit⟩ := hpoint
      cases hstep
      case cmpxchgWeak => exact ⟨_, rfl, hinv.begin huninit⟩
      case cmpxchgWeakFails =>
        exact hloop (by simp) (by rw [hpc]; rfl) (by rw [hpc]; rfl) (by simp [hpc])
          rfl rfl rfl rfl
  | wait current =>
      rw [hpc] at hcode hpoint
      cases hcode
      cases hstep
      case cmpxchgWaitWeak =>
        have hactive : board.atom () = .active := hpoint
        refine ⟨.entered, rfl, hinv.advance ?_ (fun hfinal => ?_) (fun _ => Or.inl) ?_ ?_
          (by simp [hpc]) trivial⟩
        · simp [Board.setAtom, Board.setStore, Board.setStage, hactive]
        · rw [hactive] at hfinal
          exact absurd hfinal not_final_active
        all_goals
          rw [hpc]
          rfl
      case cmpxchgWaitWeakFails =>
        exact hloop (by simp) (by rw [hpc]; rfl) (by rw [hpc]; rfl) (by simp [hpc])
          rfl rfl rfl rfl
  | entered =>
      rw [hpc] at hcode
      cases hcode
      cases hstep
      refine ⟨_, rfl, hinv.goOn rfl rfl rfl (fun _ => id) ?_ ?_ (by simp [hpc]) trivial⟩ <;>
        rw [hpc] <;> rfl
  | reload =>
      rw [hpc] at hcode hpoint
      cases hcode
      cases hstep
      exact hloop (fun _ => hpoint) (by rw [hpc]; rfl) (by rw [hpc]; rfl) (by simp [hpc])
        rfl rfl rfl rfl
  | _ =>
      rw [hpc] at hcode
      cases hcode

/-- The end of a longer operation, of a poll or of a drop. -/
theorem go_answer (hinv : Inv board inner pc)
    (hco : (client : Client τ _ _ _ _ (Point τ V) _).Coherent holds board pc)
    {resp : Resp τ CellAtom}
    (hstep : board.Step task .go (some resp) board') :
    ∃ pc', resume (pc task) resp = some pc' ∧
      Inv board' inner (Function.update pc task pc') := by
  have hwaiting : board.stage task = .waiting ∨ board.stage task = .dropping →
      pc task = .waiting := by
    intro hstage
    obtain ⟨queue, hslot⟩ := (hco.fits task).slot_of_stage hstage
    cases hpc : pc task with
    | finish point cause =>
        rw [hpc] at hslot
        cases point <;> cases hslot
    | start used current =>
        rw [hpc] at hslot
        cases used <;> cases hslot
    | waiting => rfl
    | _ =>
        rw [hpc] at hslot
        cases hslot
  have hkeep : ∀ (pc' : Point τ V) (board' : CellBoard τ), pc task = .waiting →
      pc'.active = false → pc'.written = false → board'.atom = board.atom →
      board'.store = board.store →
      (∀ other, board'.awake other = true → board.awake other = true) →
      PointInv (board.atom ()) inner pc' →
        Inv board' inner (Function.update pc task pc') := by
    intro pc' board' hpc hactive hwritten hatom hstore hawake hpoint
    refine hinv.goOn hatom (by rw [hstore]) (by rw [hstore]) hawake ?_ ?_ (by simp [hpc]) hpoint
    · rw [hpc, hactive]
      rfl
    · rw [hpc, hwritten]
      rfl
  cases hstep with
  | wakeDone hactivity =>
      obtain ⟨cause, hpc⟩ := point_of_wake ((hco.fits task).waking hactivity)
      have hpoint := hinv.points task
      rw [hpc] at hpoint ⊢
      refine ⟨_, rfl, hinv.goOn rfl rfl rfl (fun _ => id) ?_ ?_ (by simp [hpc]) hpoint⟩
      · rw [hpc]
        rfl
      · rw [hpc]
        cases cause <;> rfl
  | requeueDone futex hlist hactivity =>
      exact absurd ((hco.fits task).requeueing futex hactivity) (code_ne_requeue _ futex)
  | ready hstage hawake =>
      have hpc := hwaiting (Or.inl hstage)
      have hinv' := hkeep .reload (board.setStage task .free) hpc rfl rfl rfl rfl
        (fun _ => id) (hinv.awake task hawake)
      rw [hpc]
      exact ⟨_, rfl, hinv'⟩
  | cancelWoken hstage hawake =>
      have hpc := hwaiting (Or.inr hstage)
      have hinv' := hkeep .idle ((board.setStage task .free).setAwake task false) hpc rfl
        rfl rfl rfl
        (fun other hother => by
          by_cases hsame : other = task
          · subst hsame
            exact hawake
          · simpa [Board.setAwake, Board.setStage, hsame] using hother) trivial
      rw [hpc]
      exact ⟨_, rfl, hinv'⟩
  | cancelSleeping hstage =>
      have hpc := hwaiting (Or.inr hstage)
      have hinv' := hkeep .idle (board.setStage task .free) hpc rfl rfl rfl rfl
        (fun _ => id) trivial
      rw [hpc]
      exact ⟨_, rfl, hinv'⟩

theorem own (hinv : Inv board inner pc) (hcode : code (pc task) = .own) :
    ∃ inner' pc', act inner (pc task) = some (inner', pc') ∧
      Inv board inner' (Function.update pc task pc') := by
  cases hpc : pc task with
  | write value => exact ⟨_, _, rfl, (hinv.write hpc).2⟩
  | assumeInitRef =>
      have hinit : board.atom () = .init := by
        have hpoint := hinv.points task
        rw [hpc] at hpoint
        exact hpoint
      obtain ⟨value, hvalue⟩ := Option.ne_none_iff_exists'.mp (hinv.value hinit)
      refine ⟨inner, .ended (.reference value), by simp [act, hvalue], ?_⟩
      refine hinv.goOn rfl rfl rfl (fun _ => id) ?_ ?_ (by simp [hpc]) ⟨hinit, hvalue⟩ <;>
        rw [hpc] <;> rfl
  | _ =>
      rw [hpc] at hcode
      cases hcode

end Inv

/-- The once cell never panics of itself and keeps its invariant. -/
theorem invariant : (client : Client τ _ _ _ _ (Point τ V) _).Invariant holds usage Inv where
  borrow _ _ _ _ _ hco hinv hcode := hinv.borrow hco hcode
  start board inner pc task call pc' hco hinv hcode hstart hwithin := by
    simp only [client] at hstart
    unfold start at hstart
    split at hstart <;> cases hstart
    all_goals
      rename_i hpc
      refine hinv.goOn rfl rfl rfl (fun _ => id) ?_ ?_ (by simp [hpc]) ?_ <;>
        simp [hpc, Point.active, Point.written, Finish.before, PointInv]
  quiet _ _ _ _ _ _ _ hinv hasks _ hstep := hinv.quiet hasks hstep
  answer board inner pc task input resp board' hco hinv hasks hstep := by
    cases input with
    | call op =>
        obtain ⟨pc', hresume, hinv'⟩ := hinv.call_answer (hasks op rfl) hstep
        exact ⟨pc', hresume, fun _ => hinv'⟩
    | go =>
        obtain ⟨pc', hresume, hinv'⟩ := hinv.go_answer hco hstep
        exact ⟨pc', hresume, fun _ => hinv'⟩
    | drop => cases hstep
  own _ _ _ _ _ hinv hcode := by
    obtain ⟨inner', pc', hact, hinv'⟩ := hinv.own hcode
    exact ⟨inner', pc', hact, fun _ => hinv'⟩

end SyncOnceCell

end AsyncMutex
