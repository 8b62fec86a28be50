import AsyncMutex.FairMutexesInvariant

/-!
# The steps of several mutexes

A step of a task is a step of the fair mutex that it works on, or a refused `wait`;
either keeps the invariant, and so does every new call.
-/

namespace AsyncMutex

namespace FairMutexes

variable {τ M K : Type} [DecidableEq τ] [DecidableEq M] [DecidableEq K] {address : M ↪ ℕ+}
  {board board' : MutexesBoard τ M K} {pc : τ → Spot τ M K} {task : τ} {spot : Spot τ M K}
  {mutex : M} {which : K}

namespace Inv

section Steps

variable [Inhabited M] {input : Board.Input τ (Site M K) (Fin 1) ℕ}
  (hinv : Inv address board pc) (hco : (client address).Coherent holds board pc)
include hinv hco

/-- `borrow_mut` never finds the cell borrowed. -/
theorem borrow {futex : Site M K}
    (hcode : (client address).code (pc task) = .call (.borrow futex)) :
    board.borrowed futex = none := by
  obtain ⟨op, hop, hrename⟩ := code_eq_call hcode
  cases op <;> cases hrename
  rename_i inside
  have hview : ((sight address board pc (pc task).mutex).borrowed inside) = none :=
    (hinv.views (pc task).mutex).borrow (hinv.coherent hco _) ((code_view _).trans hop)
  have hseen : (board.borrowed (site (pc task).mutex inside)).filter
      (window address board.atom pc (pc task).mutex).mine = none := hview
  cases hborrowed : board.borrowed (site (pc task).mutex inside) with
  | none => rfl
  | some other =>
      have hsame : (pc other).mutex = (pc task).mutex := by
        have hheld := ((hco.fits other).borrow _).mp hborrowed
        simp only [holds, Holding.rename, Option.map_eq_some_iff] at hheld
        obtain ⟨futex, hfutex, hsite⟩ := hheld
        cases inside with
        | mutex =>
            cases futex <;> simp only [site, Site.mutex.injEq, reduceCtorEq] at hsite
            exact hsite
        | condvar which =>
            cases futex <;> simp only [site, Site.condvar.injEq, reduceCtorEq] at hsite
            rename_i used
            subst hsite
            have htask : board.atom (.condvar used) = address (pc task).mutex := by
              rcases point_of_futex hop rfl with hpoint | ⟨current, hpoint⟩ | ⟨point, hpoint⟩
              · rw [hpoint] at hop
                cases hop
              · rw [hpoint] at hop
                cases hop
              · refine hinv.notifies task point _ hpoint fun count hload => ?_
                rw [hpoint, hload] at hop
                cases hop
            have hother : board.atom (.condvar used) = address (pc other).mutex := by
              cases hpoint : (pc other).point with
              | unlock point caller =>
                  rw [hpoint] at hfutex
                  cases point <;> cases hfutex
              | notify point which' =>
                  rw [hpoint] at hfutex
                  have hnotifies := hinv.notifies other point which' hpoint
                  cases point <;> cases hfutex <;> exact hnotifies (by simp)
              | _ =>
                  rw [hpoint] at hfutex
                  cases hfutex
            rw [htask] at hother
            exact (address.injective (PNat.coe_injective hother)).symm
      have hmine : (window address board.atom pc (pc task).mutex).mine other = true :=
        mine_eq_true.mpr hsame
      rw [hborrowed, Option.filter_some, if_pos hmine] at hseen
      cases hseen

theorem quiet (hasks : (client address).Asks (pc task) input)
    (hdrop : input = .drop →
      (usage (τ := τ) (M := M) (K := K)).mayDrop (pc task) (board.awake task) = true)
    (hstep : board.Step task input none board') : Inv address board' pc where
  views mutex := by
    by_cases hmutex : (pc task).mutex = mutex
    · subst hmutex
      obtain ⟨input', hinput, hasks'⟩ := asks_own hasks
      have hown := step_own hinv hasks hstep hco hinput fun _ _ hrefused => by
        obtain ⟨_, _, hresp, -⟩ := hrefused
        cases hresp
      refine (hinv.views _).quiet (hinv.coherent hco _) hasks' (fun hdrop' => ?_) hown
      subst hdrop'
      have hmay := hdrop hinput
      have hawake : (sight address board pc (pc task).mutex).awake task = board.awake task := by
        simp [sight, Window.sight, window]
      rw [hawake]
      by_cases hpoint : (pc task).point = .idle
      · rw [view_of_idle hpoint]
        cases (pc task).guards (pc task).mutex <;> rfl
      · rw [view_of_point hpoint]
        exact hmay
    · refine view_other hinv hasks hstep hco (fun futex hinput => ?_) hmutex
      exact hinv.borrow hco (hasks _ hinput)
  apart := apart_step hinv hasks hstep hco
  bound := bound_step hinv hasks hstep
  notifies other point which hpoint hload :=
    bound_stable hinv hasks hstep (hinv.notifies other point which hpoint hload)
  waiting := hinv.waiting
  calls := hinv.calls

variable {resp : Resp τ ℕ}

/-- The call of a task goes on. -/
theorem answer_goOn (hasks : (client address).Asks (pc task) input)
    (hstep : board.Step task input (some resp) board')
    (hrefused : ∀ op, input = .call op → ¬ Refused address (pc task) (some resp)) :
    ∃ point, FairMutex.resume (address (pc task).mutex) (pc task).point resp = some point ∧
      Inv address board' (Function.update pc task ((pc task).goOn point)) := by
  obtain ⟨input', hinput, hasks'⟩ := asks_own hasks
  have hown := step_own hinv hasks hstep hco hinput hrefused
  obtain ⟨point, hresume, hview⟩ := (FairMutex.invariant (address (pc task).mutex)).answer _ ()
    _ task input' resp _ (hinv.coherent hco _) (hinv.views _) hasks' hown
  replace hresume : FairMutex.resume (address (pc task).mutex)
      ((pc task).view (pc task).mutex) resp = some point := hresume
  have hcall := call_of_resume hresume
  rw [view_of_point hcall] at hresume
  have hchecked := checked_of_resume hresume
  refine ⟨point, hresume, ?_, ?_,
    bound_step hinv hasks hstep, ?_, ?_, ?_⟩
  · intro mutex
    rw [sight_update goOn_mutex, view_update]
    by_cases hmutex : (pc task).mutex = mutex
    · subst hmutex
      rw [view_goOn (hinv.calls task hcall)]
      exact hview rfl
    · rw [view_goOn_of_ne hmutex, Function.update_eq_self_iff.mpr rfl]
      refine view_other hinv hasks hstep hco (fun futex hinput => ?_) hmutex
      exact hinv.borrow hco (hasks _ hinput)
  · intro mutex
    rw [window_update goOn_mutex]
    exact apart_step hinv hasks hstep hco mutex
  · refine (Function.forall_update_iff pc fun other (spot : Spot τ M K) =>
      ∀ point which, spot.point = .notify point which → (∀ count, point ≠ .load count) →
        board'.atom (.condvar which) = address spot.mutex).mpr ⟨?_, ?_⟩
    · intro point' which hpoint hload
      obtain rfl := point_of_goOn hpoint (by simp)
      obtain ⟨before, hbefore, hread⟩ := hchecked
      rw [goOn_mutex]
      by_cases hloads : ∃ count, before = .load count
      · obtain ⟨count, rfl⟩ := hloads
        obtain ⟨current, rfl, haddress⟩ := hread count rfl
        obtain ⟨futex, rfl, rfl, rfl⟩ := eq_load_of_step hstep
        obtain ⟨op, hcode, hrename⟩ := code_eq_call (hasks _ rfl)
        rw [hbefore] at hcode
        cases hcode
        cases hrename
        exact haddress
      · refine bound_stable hinv hasks hstep (hinv.notifies task before which hbefore ?_)
        exact fun count hcount => hloads ⟨count, hcount⟩
    · intro other _ point' which hpoint hload
      exact bound_stable hinv hasks hstep (hinv.notifies other point' which hpoint hload)
  · refine (Function.forall_update_iff pc fun other (spot : Spot τ M K) =>
      ∀ which current, spot.point = .waitLoop which current →
        current.atom = 0 ∨ current.atom = address spot.mutex).mpr
          ⟨?_, fun other _ => hinv.waiting other⟩
    intro which current hpoint
    obtain rfl := point_of_goOn hpoint (by simp)
    rw [goOn_mutex]
    exact hchecked
  · refine (Function.forall_update_iff pc fun other (spot : Spot τ M K) =>
      spot.point ≠ .idle → spot.guards spot.mutex = .none).mpr
        ⟨fun hgoes => ?_, fun other _ => hinv.calls other⟩
    have hguards : ((pc task).goOn point).guards = (pc task).guards := by
      cases point with
      | guard => exact absurd rfl hgoes
      | _ => rfl
    rw [hguards, goOn_mutex]
    exact hinv.calls task hcall

omit hinv hco in
/-- A call that is refused has only read. -/
theorem same_of_refused (hasks : (client address).Asks (pc task) input)
    (hstep : board.Step task input (some resp) board')
    (hrefused : Refused address (pc task) (some resp)) {op : Op τ (Site M K) (Fin 1) ℕ}
    (hinput : input = .call op) : board' = board := by
  obtain ⟨resp', guard, hresp, hresume, hpanics⟩ := hrefused
  cases hresp
  subst hinput
  obtain ⟨op, hcode, rfl⟩ := code_eq_call (hasks op rfl)
  cases hpoint : (pc task).point with
  | waitLoad which =>
      rw [hpoint] at hcode
      cases hcode
      cases hstep
      rfl
  | waitLoop which current =>
      rw [hpoint] at hcode hresume
      cases hcode
      cases hstep
      case cmpxchgWaitWeak => cases hresume
      case cmpxchgWaitWeakFails => rfl
  | notify point which =>
      rw [hpoint] at hcode hpanics
      cases point <;> cases hpanics
      cases hcode
      cases hstep
      rfl
  | _ =>
      rw [hpoint] at hpanics
      cases hpanics

omit hco [Inhabited M] in
/-- The call of a task panics. -/
theorem answer_panic (hrefused : Refused address (pc task) (some resp)) :
    ∃ spot, resume address (pc task) resp = some spot ∧
      Inv address board (Function.update pc task spot) := by
  obtain ⟨resp', guard, hresp, hresume, hpanics⟩ := hrefused
  cases hresp
  obtain ⟨hcall, hguard, howns, hwaits, hwaitsOn⟩ := point_of_panics hpanics
  have hview : ((pc task).panic guard).view (pc task).mutex = .guard := by
    have hpanicked : ((pc task).panic guard).view (pc task).mutex =
        (((pc task).panic guard).guards (pc task).mutex).point := view_of_idle rfl
    rw [hpanicked, ← hguard]
    simp [Spot.panic, Spot.setGuard]
  have hsame : ((pc task).panic guard).mutex = (pc task).mutex := rfl
  refine ⟨(pc task).panic guard, by simp only [resume, hresume, hpanics, Option.map_some], ?_,
    ?_, hinv.bound, ?_, ?_, ?_⟩
  · intro mutex
    rw [sight_update hsame, view_update]
    by_cases hmutex : (pc task).mutex = mutex
    · subst hmutex
      rw [hview]
      refine (hinv.views (pc task).mutex).advance rfl rfl rfl rfl rfl rfl (fun _ => id) ?_ ?_ ?_
        trivial (by simp)
      · rw [view_of_point hcall, howns]
        rfl
      · rw [view_of_point hcall, hwaits]
        rfl
      · rw [view_of_point hcall, hwaitsOn]
        rfl
    · rw [view_panic_of_ne hmutex, Function.update_eq_self_iff.mpr rfl]
      exact hinv.views mutex
  · intro mutex
    rw [window_update hsame]
    exact hinv.apart mutex
  · refine (Function.forall_update_iff pc fun other (spot : Spot τ M K) =>
      ∀ point which, spot.point = .notify point which → (∀ count, point ≠ .load count) →
        board.atom (.condvar which) = address spot.mutex).mpr
          ⟨fun _ _ hpoint => (by cases hpoint), fun other _ => hinv.notifies other⟩
  · refine (Function.forall_update_iff pc fun other (spot : Spot τ M K) =>
      ∀ which current, spot.point = .waitLoop which current →
        current.atom = 0 ∨ current.atom = address spot.mutex).mpr
          ⟨fun _ _ hpoint => (by cases hpoint), fun other _ => hinv.waiting other⟩
  · refine (Function.forall_update_iff pc fun other (spot : Spot τ M K) =>
      spot.point ≠ .idle → spot.guards spot.mutex = .none).mpr
        ⟨fun hidle => absurd rfl hidle, fun other _ => hinv.calls other⟩

/-! ## New calls -/

omit hinv in
/-- A task without a call is in no list and has popped nobody. -/
theorem unplaced (hidle : (pc task).point = .idle) :
    (∀ futex, task ∉ board.store.inbox futex) ∧
      (∀ futex queue, task ∉ board.store.queues futex queue) ∧
        (∀ other, task ∉ board.store.list other) ∧ ∀ other, board.handle other ≠ some task := by
  obtain ⟨place, hplaced⟩ := hco.placed
  have hplace : place task = .nowhere := by
    by_contra hsomewhere
    have hslot := (hco.fits task).slot
    have hfree : (holds (pc task)).slot = .free := by
      simp only [holds, hidle]
      rfl
    rw [hfree] at hslot
    rcases hplaced.waits task hsomewhere with h | h | h <;> simp [h, Slot.Fits] at hslot
  have hplaces := hplaced.places
  refine ⟨?_, ?_, ?_, ?_⟩
  · simp [hplaces.inbox, hplace]
  · simp [hplaces.queues, hplace]
  · simp [hplaces.list, hplace]
  · simp [hplaces.hand, hplace]

omit hinv in
/-- A task without a call has popped nobody. -/
theorem holds_nothing (hidle : (pc task).point = .idle) :
    board.handle task = none ∧ board.store.list task = [] := by
  have hholds : holds (pc task) = {} := by
    simp only [holds, hidle]
    rfl
  have hfits := hco.fits task
  rw [hholds] at hfits
  exact ⟨hfits.handle_eq_none rfl, hfits.list rfl⟩

omit [Inhabited M] hinv hco [DecidableEq K] in
theorem mine_update {spot : Spot τ M K} {atom : Site M K → ℕ} {other : τ}
    (hother : other ≠ task) :
    (window address atom (Function.update pc task spot) mutex).mine other =
      (window address atom pc mutex).mine other := by
  simp only [window, Function.update_of_ne hother]

/-- A task without a call may go over to another mutex. -/
theorem apart_start (hidle : (pc task).point = .idle) (spot : Spot τ M K) (mutex : M) :
    (window address board.atom (Function.update pc task spot) mutex).Apart board := by
  obtain ⟨hinbox, hqueues, hlist, hhand⟩ := unplaced hco hidle
  obtain ⟨hhandle, hnil⟩ := holds_nothing hco hidle
  have hbeside {futex : Site M K} {waiter : τ} (hne : waiter ≠ task)
      (hbefore : (window address board.atom pc mutex).Beside waiter futex) :
      (window address board.atom (Function.update pc task spot) mutex).Beside waiter futex := by
    unfold Window.Beside
    rw [mine_update hne]
    exact hbefore
  constructor
  · intro futex waiter hmem
    refine hbeside ?_ ((hinv.apart mutex).inbox futex waiter hmem)
    rintro rfl
    exact hinbox futex hmem
  · intro futex queue waiter hmem
    refine hbeside ?_ ((hinv.apart mutex).queues futex queue waiter hmem)
    rintro rfl
    exact hqueues futex queue hmem
  · intro other waiter hmem
    have hwaiter : waiter ≠ task := by
      rintro rfl
      exact hlist other hmem
    have hother : other ≠ task := by
      rintro rfl
      rw [hnil] at hmem
      cases hmem
    rw [mine_update hwaiter, mine_update hother]
    exact (hinv.apart mutex).list other waiter hmem
  · intro other waiter hmem
    have hwaiter : waiter ≠ task := by
      rintro rfl
      exact hhand other hmem
    have hother : other ≠ task := by
      rintro rfl
      rw [hhandle] at hmem
      cases hmem
    rw [mine_update hwaiter, mine_update hother]
    exact (hinv.apart mutex).hand other waiter hmem

omit hinv in
theorem view_start (hidle : (pc task).point = .idle) (spot : Spot τ M K)
    {views : τ → FairMutex.Point τ K} (hwaits : (views task).waits = false)
    (hview : FairMutex.Inv (address mutex) (sight address board pc mutex) views) :
    FairMutex.Inv (address mutex) (sight address board (Function.update pc task spot) mutex)
      views := by
  obtain ⟨hhandle, -⟩ := holds_nothing hco hidle
  refine hview.unwaited hwaits rfl rfl rfl ?_ ?_ ?_ ?_
  · funext other
    by_cases hother : other = task
    · subst hother
      simp [sight, Window.sight, hhandle]
    · simp only [sight, Window.sight, mine_update hother]
  · intro other hother
    simp only [sight, Window.sight, mine_update hother]
  · intro other hother
    simp only [sight, Window.sight, mine_update hother]
    rfl
  · intro other hother
    simp only [sight, Window.sight, mine_update hother]
    rfl

omit hinv hco [DecidableEq τ] [DecidableEq K] in
theorem waits_of_start {point point' : FairMutex.Point τ K} {call : FairMutex.Call K}
    (hstart : FairMutex.start point call = some point') :
    point'.waits = false ∧ point' ≠ .idle ∧
      (∀ before which, point' = .notify before which → ∃ count, before = .load count) ∧
        ∀ which current, point' ≠ .waitLoop which current := by
  unfold FairMutex.start at hstart
  split at hstart <;> cases hstart
  all_goals
    refine ⟨rfl, by simp, fun before which hpoint => ?_, by simp⟩
    cases hpoint <;> exact ⟨_, rfl⟩

/-- A task calls a method with one of the mutexes. -/
theorem start_call {call : Call M K} {spot : Spot τ M K}
    (hstart : start (pc task) call = some spot) :
    Inv address board (Function.update pc task spot) := by
  obtain ⟨hidle, -, -, point, hpoint, rfl⟩ := start_spec hstart
  obtain ⟨hwaits, hcall, hload, hloop⟩ := waits_of_start hpoint
  have hbefore (mutex : M) : (pc task).view mutex = ((pc task).guards mutex).point :=
    view_of_idle hidle
  refine ⟨fun mutex => ?_, fun mutex => apart_start hinv hco hidle _ mutex, hinv.bound, ?_, ?_, ?_⟩
  · rw [view_update]
    by_cases hmutex : call.1 = mutex
    · subst hmutex
      have hview := (FairMutex.invariant (address call.1)).start _ () _ task call.2 point
        (hinv.coherent hco call.1) (hinv.views call.1) (by rw [hbefore]; exact code_point _ _)
        (by rw [hbefore]; exact hpoint) rfl
      rw [view_call hcall]
      exact view_start hco hidle _ (by simpa using hwaits) hview
    · rw [view_call_of_ne hidle hmutex, Function.update_eq_self_iff.mpr rfl]
      refine view_start hco hidle _ ?_ (hinv.views mutex)
      rw [hbefore]
      exact waits_point _
  · refine (Function.forall_update_iff pc fun other (spot : Spot τ M K) =>
      ∀ point which, spot.point = .notify point which → (∀ count, point ≠ .load count) →
        board.atom (.condvar which) = address spot.mutex).mpr
          ⟨fun before which hnotify hnever => ?_, fun other _ => hinv.notifies other⟩
    obtain ⟨count, hcount⟩ := hload before which hnotify
    exact absurd hcount (hnever count)
  · refine (Function.forall_update_iff pc fun other (spot : Spot τ M K) =>
      ∀ which current, spot.point = .waitLoop which current →
        current.atom = 0 ∨ current.atom = address spot.mutex).mpr
          ⟨fun which current hwait => absurd hwait (hloop which current),
            fun other _ => hinv.waiting other⟩
  · refine (Function.forall_update_iff pc fun other (spot : Spot τ M K) =>
      spot.point ≠ .idle → spot.guards spot.mutex = .none).mpr
        ⟨fun _ => Function.update_self _ _ _, fun other _ => hinv.calls other⟩

end Steps

end Inv

variable [Inhabited M]

/-- The mutexes and their condition variables keep their invariant, and a call
panics only in its task. -/
theorem invariant (address : M ↪ ℕ+) : (client address).Invariant holds usage
    fun (board : MutexesBoard τ M K) _ pc => Inv address board pc where
  borrow _ _ _ _ _ hco hinv hcode := hinv.borrow hco hcode
  start _ _ _ _ _ _ hco hinv _ hstart _ := hinv.start_call hco hstart
  quiet _ _ _ _ _ _ hco hinv hasks hdrop hstep := hinv.quiet hco hasks hdrop hstep
  answer board memory pc task input resp board' hco hinv hasks hstep := by
    by_cases hrefused : (∃ op, input = .call op) ∧ Inv.Refused address (pc task) (some resp)
    · obtain ⟨⟨op, hinput⟩, hrefused⟩ := hrefused
      obtain rfl := Inv.same_of_refused hasks hstep hrefused hinput
      obtain ⟨spot, hresume, hkeep⟩ := hinv.answer_panic hrefused
      exact ⟨spot, hresume, fun _ => hkeep⟩
    · obtain ⟨point, hresume, hkeep⟩ := hinv.answer_goOn hco hasks hstep
        fun op hinput hrefused' => hrefused ⟨⟨op, hinput⟩, hrefused'⟩
      exact ⟨(pc task).goOn point, by simp only [client, resume, hresume], fun _ => hkeep⟩
  own _ _ _ task _ _ hcode := by
    exact absurd hcode (code_ne_own address _)

end FairMutexes

end AsyncMutex
