import AsyncMutex.FairMutexOrder

/-!
# The condition variables of the fair mutex

The history of a run gives the waits on each condition variable that have
entered and have not been moved, in the order in which they entered.  Each
`notify` moves the first of them to the mutex.
-/

namespace AsyncMutex

namespace FairMutex

variable {τ K ω : Type} [DecidableEq τ] [DecidableEq K]

def hearWait (which : K) (waiting : List τ) : News τ K → List τ
  | .waits task which' => if which' = which then waiting ++ [task] else waiting
  | .moves waiter => waiting.filter fun other => other ≠ waiter
  | _ => waiting

def hearMoved (task : τ) (moved : Bool) : News τ K → Bool
  | .waits other _ => if other = task then false else moved
  | .moves waiter => if waiter = task then true else moved
  | _ => moved

/-- The waits on a condition variable that have entered and are not moved. -/
def waits (which : K) (history : List (Mark τ (Cell K) ℕ ω (Point τ K) (Call K))) :
    List τ :=
  (history.filterMap news).foldl (hearWait which) []

/-- A `notify` moved the waiter of the last wait of the task. -/
def moved (task : τ) (history : List (Mark τ (Cell K) ℕ ω (Point τ K) (Call K))) :
    Bool :=
  (history.filterMap news).foldl (hearMoved task) false

/-- The waiters that are moved in a part of a history. -/
def moves (history : List (Mark τ (Cell K) ℕ ω (Point τ K) (Call K))) : List τ :=
  history.filterMap fun mark =>
    match news mark with
    | some (.moves waiter) => some waiter
    | _ => none

/-! ## The waits that are not moved -/

/-- The history knows where the waits on the condition variables are. -/
structure Booked (pc : τ → Point τ K) (view : View τ K) (waiting : K → List τ)
    (moved : τ → Bool) : Prop where
  carried : ∀ task which, (pc task).carries = some which →
    waiting which = view.unmoved task ++ view.line (.condvar which)
  queued : ∀ which, (∀ task, (pc task).carries ≠ some which) →
    waiting which = view.line (.condvar which)
  known : ∀ task which, (pc task).waitsOn = some which →
    moved task = true ∨ task ∈ waiting which

namespace Booked

variable {pc : τ → Point τ K} {view view' : View τ K} {waiting : K → List τ}
  {moved : τ → Bool} {task : τ}

omit [DecidableEq K] in
/-- A step after which the waits of all condition variables are as before. -/
theorem same (hbooked : Booked pc view waiting moved) {point : Point τ K}
    (hline : ∀ which, view'.line (.condvar which) = view.line (.condvar which))
    (hunmoved : view'.unmoved = view.unmoved) (hcarries : point.carries = (pc task).carries)
    (hwaitsOn : ∀ which, point.waitsOn = some which → (pc task).waitsOn = some which) :
    Booked (Function.update pc task point) view' waiting moved := by
  have hsame : ∀ other, (Function.update pc task point other).carries =
      (pc other).carries :=
    (Function.forall_update_iff pc fun other point => point.carries = (pc other).carries).mpr
      ⟨hcarries, fun _ _ => rfl⟩
  have hwaits : ∀ other which,
      (Function.update pc task point other).waitsOn = some which →
        (pc other).waitsOn = some which :=
    (Function.forall_update_iff pc fun other point => ∀ which,
      point.waitsOn = some which → (pc other).waitsOn = some which).mpr
        ⟨hwaitsOn, fun _ _ _ => id⟩
  refine ⟨?_, ?_, fun other which hwhich => hbooked.known other which
    (hwaits other which hwhich)⟩
  · simpa only [hsame, hline, hunmoved] using hbooked.carried
  · simpa only [hsame, hline] using hbooked.queued

omit [DecidableEq τ] [DecidableEq K] in
/-- While `task` has the lock and carries nobody, all waits are queued. -/
theorem queued_of_owns (hbooked : Booked pc view waiting moved)
    (hunique : ∀ task other, (pc task).owns = true → (pc other).owns = true →
      task = other) (howns : (pc task).owns = true)
    (hcarries : (pc task).carries = none) (which : K) :
    waiting which = view.line (.condvar which) := by
  refine hbooked.queued which fun other hother => ?_
  rw [Ordered.alone hunique howns hcarries other] at hother
  cases hother

theorem wait (hbooked : Booked pc view waiting moved)
    (hunique : ∀ task other, (pc task).owns = true → (pc other).owns = true →
      task = other) {which : K} {current : FutexAtom τ ℕ}
    (hpc : pc task = .waitLoop which current) :
    Booked (Function.update pc task (.unlock .lock (.wait which)))
      (view.setLine (.condvar which) (view.line (.condvar which) ++ [task]))
      (fun which' => hearWait which' (waiting which') (.waits task which))
      fun other => hearMoved other (moved other) (.waits task which : News τ K) := by
  have howns : (pc task).owns = true := by
    rw [hpc]
    rfl
  have hcarries : (pc task).carries = none := by
    rw [hpc]
    rfl
  have hnone : ∀ other, (Function.update pc task
      (Point.unlock .lock (.wait which)) other).carries = none :=
    (Function.forall_update_iff pc fun _ point => point.carries = none).mpr
      ⟨rfl, fun other _ => Ordered.alone hunique howns hcarries other⟩
  refine ⟨fun other which' hother => ?_, fun which' _ => ?_, fun other which' hother => ?_⟩
  · rw [hnone other] at hother
    cases hother
  · have hqueued := hbooked.queued_of_owns hunique howns hcarries which'
    by_cases hwhich : which = which'
    · subst hwhich
      simp [hearWait, View.setLine, hqueued]
    · have hne : ¬ Cell.condvar which' = Cell.condvar which := fun heq =>
        hwhich (Cell.condvar.inj heq).symm
      simp [hearWait, View.setLine, hqueued, hwhich, hne]
  · by_cases htask : other = task
    · subst htask
      rw [Function.update_self] at hother
      cases hother
      exact Or.inr (by simp [hearWait])
    · rw [Function.update_of_ne htask] at hother
      refine (hbooked.known other which' hother).imp ?_ ?_
      · simp [hearMoved, Ne.symm htask]
      · intro hmem
        simp only [hearWait]
        split
        · exact List.mem_append_left _ hmem
        · exact hmem

theorem take (hbooked : Booked pc view waiting moved)
    (hunique : ∀ task other, (pc task).owns = true → (pc other).owns = true →
      task = other) {count : ℕ} {which : K}
    (hpc : pc task = .notify (.popMany count) which) :
    Booked (Function.update pc task (.notify .release which))
      (((view.setLine (.condvar which)
        (WaiterList.back count (view.line (.condvar which)))).setList task
          (WaiterList.front count (view.line (.condvar which)))).setUnmoved task
            (WaiterList.front count (view.line (.condvar which)))) waiting moved := by
  have howns : (pc task).owns = true := by
    rw [hpc]
    rfl
  have hcarries : (pc task).carries = none := by
    rw [hpc]
    rfl
  have hqueued := hbooked.queued_of_owns hunique howns hcarries
  refine ⟨fun other which' hother => ?_, fun which' hnot => ?_, fun other which' hother => ?_⟩
  · by_cases htask : other = task
    · subst htask
      rw [Function.update_self] at hother
      cases hother
      simp [View.setUnmoved, View.setList, View.setLine, hqueued,
        WaiterList.front_append_back]
    · rw [Function.update_of_ne htask, Ordered.alone hunique howns hcarries other]
        at hother
      cases hother
  · have hne : ¬ Cell.condvar which' = Cell.condvar which := by
      intro heq
      refine hnot task ?_
      rw [Function.update_self, Cell.condvar.inj heq]
      rfl
    simp [View.setUnmoved, View.setList, View.setLine, hqueued, hne]
  · refine hbooked.known other which' ?_
    by_cases htask : other = task
    · subst htask
      rw [Function.update_self] at hother
      cases hother
    · rwa [Function.update_of_ne htask] at hother

theorem move (hbooked : Booked pc view waiting moved)
    (hunique : ∀ task other, (pc task).owns = true → (pc other).owns = true →
      task = other) {which : K} {waiter : τ} {rest : List τ}
    (hpc : pc task = .notify .requeue which) (hunmoved : view.unmoved task = waiter :: rest)
    (hrest : waiter ∉ rest) (hfresh : ∀ futex, waiter ∉ view.line futex) :
    Booked pc (view.setUnmoved task rest)
      (fun which' => hearWait which' (waiting which') (.moves waiter))
      fun other => hearMoved other (moved other) (.moves waiter : News τ K) := by
  have hcarries : (pc task).carries = some which := by
    rw [hpc]
    rfl
  have hkeep : ∀ line : List τ, waiter ∉ line →
      line.filter (fun other => other ≠ waiter) = line := by
    intro line hnot
    refine List.filter_eq_self.mpr fun other hother => ?_
    have hne : other ≠ waiter := fun heq => hnot (heq ▸ hother)
    simpa using hne
  refine ⟨fun other which' hother => ?_, fun which' hnot => ?_, fun other which' hother => ?_⟩
  · obtain rfl := hunique other task (owns_of_carries hother) (owns_of_carries hcarries)
    rw [hcarries] at hother
    cases hother
    simp only [hearWait, hbooked.carried other which hcarries, hunmoved, View.setUnmoved,
      List.filter_append, List.filter_cons, Function.update_self]
    rw [hkeep rest hrest, hkeep _ (hfresh _)]
    simp
  · simp only [hearWait, hbooked.queued which' hnot]
    exact hkeep _ (hfresh _)
  · rcases hbooked.known other which' hother with hmoved | hmem
    · exact Or.inl (by simp [hearMoved, hmoved])
    · by_cases heq : other = waiter
      · exact Or.inl (by simp [hearMoved, heq])
      · exact Or.inr (by simp [hearWait, hmem, heq])

theorem link (hbooked : Booked pc view waiting moved)
    (hunique : ∀ task other, (pc task).owns = true → (pc other).owns = true →
      task = other) {which : K} (hpc : pc task = .notify .requeue which)
    (hunmoved : view.unmoved task = []) :
    Booked (Function.update pc task (.notify .unlockMutex which))
      ((view.setLine .mutex (view.line .mutex ++ view.list task)).setList task [])
      waiting moved := by
  have hcarries : (pc task).carries = some which := by
    rw [hpc]
    rfl
  have hnone : ∀ other, (Function.update pc task
      (Point.notify .unlockMutex which) other).carries = none := by
    refine (Function.forall_update_iff pc fun _ point => point.carries = none).mpr
      ⟨rfl, fun other hother => ?_⟩
    cases hcase : (pc other).carries with
    | none => rfl
    | some which' =>
        exact absurd (hunique other task (owns_of_carries hcase)
          (owns_of_carries hcarries)) hother
  refine ⟨fun other which' hother => ?_, fun which' _ => ?_, fun other which' hother => ?_⟩
  · rw [hnone other] at hother
    cases hother
  · by_cases hwhich : which' = which
    · subst hwhich
      simpa [View.setList, View.setLine, hunmoved] using hbooked.carried task which' hcarries
    · refine hbooked.queued which' fun other hother => ?_
      obtain rfl := hunique other task (owns_of_carries hother) (owns_of_carries hcarries)
      rw [hcarries] at hother
      exact hwhich (Option.some.inj hother).symm
  · refine hbooked.known other which' ?_
    by_cases htask : other = task
    · subst htask
      rw [Function.update_self] at hother
      cases hother
    · rwa [Function.update_of_ne htask] at hother

theorem turn (hbooked : Booked pc view waiting moved)
    (hunique : ∀ task other, (pc task).owns = true → (pc other).owns = true →
      task = other) {item : Option (News τ K)} {point : Point τ K}
    (hturn : Turn task (pc task) view item point view') :
    Booked (Function.update pc task point) view'
      (fun which => item.toList.foldl (hearWait which) (waiting which))
      fun other => item.toList.foldl (hearMoved other) (moved other) := by
  generalize hold : pc task = old at hturn
  cases hturn with
  | keep hasks hcarries hwaitsOn =>
      exact hbooked.same (fun _ => rfl) rfl (hold ▸ hcarries) (hold ▸ hwaitsOn)
  | ask hguard =>
      subst hguard
      exact hbooked.same (fun _ => rfl) rfl (by rw [hold]; rfl) (fun _ h => by cases h)
  | unused hload =>
      subst hload
      exact hbooked.same (fun _ => rfl) rfl (by rw [hold]; rfl) (fun _ h => by cases h)
  | cancel waiter =>
      exact hbooked.same (fun _ => by simp [View.setLine]) rfl (by rw [hold])
        (by rw [hold]; exact fun _ => id)
  | wait hloop hfresh => exact hbooked.wait hunique (hold.trans hloop)
  | lock hloop hfresh =>
      subst hloop
      exact hbooked.same (fun _ => by simp [View.setLine]) rfl (by rw [hold]; rfl)
        (fun _ h => by cases h)
  | take hpop => exact hbooked.take hunique (hold.trans hpop)
  | move hrequeue hunmoved hrest hfresh =>
      rw [← hold, Function.update_eq_self]
      exact hbooked.move hunique (hold.trans hrequeue) hunmoved hrest hfresh
  | link hrequeue hunmoved => exact hbooked.link hunique (hold.trans hrequeue) hunmoved
  | @pop point' caller waiter rest hunlock hline =>
      subst hunlock
      refine hbooked.same (fun _ => by simp [View.setLine]) rfl (by rw [hold]; rfl) ?_
      intro which hwhich
      rw [hold]
      cases caller with
      | drop => cases hwhich
      | wait which' => exact hwhich

end Booked

/-! ## One call of `notify` -/

def Point.notifies : Point τ K → Bool
  | .notify _ _ => true
  | _ => false

/-- What a `notify` on `which` has moved, when `waiting` were the waits at its
beginning. -/
inductive Serving (count : ℕ) (which : K) (waiting : List τ) (task : τ)
    (point : Point τ K) (view : View τ K) (moved : List τ) : Prop
  | asked (hasks : point.asks = some (count, which))
      (hline : view.line (.condvar which) = waiting) (hmoved : moved = [])
  | carried (hcarries : point.carries = some which)
      (hlist : view.list task = WaiterList.front count waiting)
      (hmoved : WaiterList.front count waiting = moved ++ view.unmoved task)
  | served (hasks : point.asks = none) (hcarries : point.carries = none)
      (hmoved : moved = WaiterList.front count waiting)

omit [DecidableEq τ] [DecidableEq K] in
theorem carries_of_asks {point : Point τ K} {asked : ℕ × K} (hasks : point.asks = some asked) :
    point.carries = none := by
  cases point with
  | notify point which =>
      cases point with
      | release => cases hasks
      | lockMutex => cases hasks
      | requeue => cases hasks
      | _ => rfl
  | _ => rfl

omit [DecidableEq τ] [DecidableEq K] in
theorem Serving.of_asks {count : ℕ} {which : K} {waiting moved : List τ} {task : τ}
    {point : Point τ K} {view : View τ K}
    (hserving : Serving count which waiting task point view moved) {asked : ℕ × K}
    (hasks : point.asks = some asked) :
    asked = (count, which) ∧ view.line (.condvar which) = waiting ∧ moved = [] := by
  cases hserving with
  | asked hasks' hline hmoved =>
      rw [hasks] at hasks'
      exact ⟨Option.some.inj hasks', hline, hmoved⟩
  | carried hcarries =>
      rw [carries_of_asks hasks] at hcarries
      cases hcarries
  | served hasks' =>
      rw [hasks] at hasks'
      cases hasks'

omit [DecidableEq τ] [DecidableEq K] in
theorem Serving.of_carries {count : ℕ} {which which' : K} {waiting moved : List τ} {task : τ}
    {point : Point τ K} {view : View τ K}
    (hserving : Serving count which waiting task point view moved)
    (hcarries : point.carries = some which') :
    which' = which ∧ view.list task = WaiterList.front count waiting ∧
      WaiterList.front count waiting = moved ++ view.unmoved task := by
  cases hserving with
  | asked hasks =>
      rw [carries_of_asks hasks] at hcarries
      cases hcarries
  | carried hcarries' hlist hmoved =>
      rw [hcarries] at hcarries'
      exact ⟨Option.some.inj hcarries', hlist, hmoved⟩
  | served _ hcarries' =>
      rw [hcarries] at hcarries'
      cases hcarries'

def movesOf : Option (News τ K) → List τ
  | some (.moves waiter) => [waiter]
  | _ => []

section Serving

variable {pc : τ → Point τ K} {view view' : View τ K} {task actor : τ} {count : ℕ}
  {which : K} {waiting moved : List τ}

/-- A step of another task. -/
theorem Serving.other (hserving : Serving count which waiting task (pc task) view moved)
    (hnotifies : (pc task).notifies = true)
    (hunique : ∀ task other, (pc task).owns = true → (pc other).owns = true →
      task = other) (hactor : actor ≠ task) {item : Option (News τ K)} {point : Point τ K}
    (hturn : Turn actor (pc actor) view item point view') :
    Serving count which waiting task (pc task) view' (moved ++ movesOf item) := by
  have howns : (pc task).owns = true := by
    cases hpc : pc task with
    | notify => rfl
    | _ =>
        rw [hpc] at hnotifies
        cases hnotifies
  -- only the owner of the lock touches a condition variable
  have hidle : (pc actor).owns = false := by
    cases hcase : (pc actor).owns with
    | false => rfl
    | true => exact absurd (hunique actor task hcase howns) hactor
  have hkeep : ∀ view' : View τ K, (∀ which, view'.line (.condvar which) =
      view.line (.condvar which)) → view'.list = view.list →
      view'.unmoved = view.unmoved →
        Serving count which waiting task (pc task) view' moved := by
    intro view' hline hlist hunmoved
    cases hserving with
    | asked hasks hline' hmoved =>
        exact .asked hasks ((hline which).trans hline') hmoved
    | carried hcarries hlist' hmoved =>
        exact .carried hcarries (by rw [hlist]; exact hlist') (by rw [hunmoved]; exact hmoved)
    | served hasks hcarries hmoved => exact .served hasks hcarries hmoved
  generalize hold : pc actor = old at hturn
  rw [hold] at hidle
  cases hturn with
  | keep => simpa [movesOf] using hserving
  | cancel =>
      simp only [movesOf, List.append_nil]
      exact hkeep _ (fun _ => by simp [View.setLine]) rfl rfl
  | lock =>
      simp only [movesOf, List.append_nil]
      exact hkeep _ (fun _ => by simp [View.setLine]) rfl rfl
  | pop =>
      simp only [movesOf, List.append_nil]
      exact hkeep _ (fun _ => by simp [View.setLine]) rfl rfl
  | ask hold => rw [hold] at hidle; cases hidle
  | unused hold => rw [hold] at hidle; cases hidle
  | wait hold => rw [hold] at hidle; cases hidle
  | take hold => rw [hold] at hidle; cases hidle
  | move hold => rw [hold] at hidle; cases hidle
  | link hold => rw [hold] at hidle; cases hidle

/-- A step of the `notify` itself. -/
theorem Serving.own {old point : Point τ K}
    (hserving : Serving count which waiting task old view moved)
    (hnotifies : old.notifies = true) {item : Option (News τ K)}
    (hturn : Turn task old view item point view') :
    Serving count which waiting task point view' (moved ++ movesOf item) := by
  cases hturn with
  | keep hasks hcarries =>
      simp only [movesOf, List.append_nil]
      cases hserving with
      | asked hasks' hline hmoved => exact .asked (hasks.trans hasks') hline hmoved
      | carried hcarries' hlist hmoved => exact .carried (hcarries.trans hcarries') hlist hmoved
      | served hasks' hcarries' hmoved =>
          exact .served (hasks.trans hasks') (hcarries.trans hcarries') hmoved
  | ask hold =>
      subst hold
      cases hnotifies
  | @unused count' which' hold hline =>
      subst hold
      obtain ⟨hsame, hwaiting, hmoved⟩ := hserving.of_asks rfl
      cases hsame
      rw [hline] at hwaiting
      refine .served rfl rfl ?_
      rw [hmoved, ← hwaiting]
      simp [movesOf, WaiterList.front]
  | cancel waiter =>
      simp only [movesOf, List.append_nil]
      cases hserving with
      | asked hasks hline hmoved => exact .asked hasks (by simpa [View.setLine] using hline) hmoved
      | carried hcarries hlist hmoved => exact .carried hcarries hlist hmoved
      | served hasks hcarries hmoved => exact .served hasks hcarries hmoved
  | wait hold =>
      subst hold
      cases hnotifies
  | lock hold =>
      subst hold
      cases hnotifies
  | pop hold =>
      subst hold
      cases hnotifies
  | take hold =>
      subst hold
      obtain ⟨hsame, hwaiting, hmoved⟩ := hserving.of_asks rfl
      cases hsame
      refine .carried rfl ?_ ?_
      · simp [View.setUnmoved, View.setList, hwaiting]
      · simp [View.setUnmoved, View.setList, hwaiting, hmoved, movesOf]
  | @move which' waiter rest hold hunmoved =>
      subst hold
      obtain ⟨rfl, hlist, hmoved⟩ := hserving.of_carries rfl
      refine .carried rfl hlist ?_
      simp [View.setUnmoved, hmoved, hunmoved, movesOf]
  | @link which' hold hunmoved =>
      subst hold
      obtain ⟨rfl, hlist, hmoved⟩ := hserving.of_carries rfl
      refine .served rfl rfl ?_
      simp [hmoved, hunmoved, movesOf]

end Serving

variable {address : ℕ+}
  {history : List (Mark τ (Cell K) ℕ ω (Point τ K) (Call K))}

/-! ## Along runs -/

theorem waits_append (which : K)
    (history marks : List (Mark τ (Cell K) ℕ ω (Point τ K) (Call K))) :
    waits which (history ++ marks) =
      (marks.filterMap news).foldl (hearWait which) (waits which history) := by
  simp [waits, List.filterMap_append, List.foldl_append]

omit [DecidableEq K] in
theorem moved_append (task : τ)
    (history marks : List (Mark τ (Cell K) ℕ ω (Point τ K) (Call K))) :
    moved task (history ++ marks) =
      (marks.filterMap news).foldl (hearMoved task) (moved task history) := by
  simp [moved, List.filterMap_append, List.foldl_append]

omit [DecidableEq τ] [DecidableEq K] in
theorem moves_append (history marks : List (Mark τ (Cell K) ℕ ω (Point τ K) (Call K)))
    {item : Option (News τ K)} (hnews : marks.filterMap news = item.toList) :
    moves (history ++ marks) = moves history ++ movesOf item := by
  have hmoves : ∀ marks : List (Mark τ (Cell K) ℕ ω (Point τ K) (Call K)),
      moves marks = (marks.filterMap news).flatMap fun item => movesOf (some item) := by
    intro marks
    induction marks with
    | nil => rfl
    | cons mark marks ih =>
        rw [moves, List.filterMap_cons, List.filterMap_cons, ← moves, ih]
        cases hcase : news mark with
        | none => rfl
        | some item => cases item <;> rfl
  rw [hmoves, hmoves, List.filterMap_append, List.flatMap_append, hnews]
  cases item with
  | none => rfl
  | some item => simp

variable [DecidableEq ω]

theorem booked_of_trace {sys : LockSystem τ K ω} (htrace : (lists address).Trace history sys) :
    Booked sys.pc (viewOf sys) (fun which => waits which history)
      fun task => moved task history := by
  refine htrace.invariant
    (motive := fun history sys => Booked sys.pc (viewOf sys)
      (fun which => waits which history) fun task => moved task history) ?_ ?_
  · exact ⟨fun _ _ h => (by cases h), fun _ _ => rfl, fun _ _ h => (by cases h)⟩
  · rintro history sys ⟨task, label⟩ next marks htrace hbooked hnext
    obtain ⟨hnext, -⟩ := System.machine_next.mp hnext
    have hlocked := locked_of_trace htrace
    obtain ⟨item, point, hnews, hpc, hturn⟩ := FairMutex.turn hlocked hnext
    simp only [waits_append, moved_append, hnews]
    rw [show next.pc = Function.update sys.pc task point from hpc]
    exact hbooked.turn hlocked.inv.unique_owns hturn

variable [Fintype τ]

/-- A waiter that `notify` has not moved sleeps. -/
theorem asleep_of_waits {sys : LockSystem τ K ω} (htrace : (lists address).Trace history sys)
    {task : τ} {which : K} (hwaits : task ∈ waits which history) :
    sys.world.board.awake task = false := by
  obtain ⟨place, hplaced⟩ := (locked_of_trace htrace).coherent.placed
  have hbooked := booked_of_trace htrace
  have hline : task ∈ (viewOf sys).line (.condvar which) →
      sys.world.board.awake task = false := by
    intro hmem
    have hplace := hplaced.places.mem_contents hmem
    exact hplaced.asleep task (by rintro heq; simp [heq] at hplace)
  by_cases hcarried : ∃ other, (sys.pc other).carries = some which
  · obtain ⟨other, hcarries⟩ := hcarried
    have hwaits' := hbooked.carried other which hcarries
    rw [hwaits', List.mem_append] at hwaits
    refine hwaits.elim (fun hunmoved => ?_) hline
    have hlist : task ∈ sys.world.board.store.list other := by
      have hlist := (ordered_of_trace htrace).carried other which hcarries
      have hmem := List.mem_append_right (arrivals history).batch hunmoved
      rwa [← hlist] at hmem
    have hplace := (hplaced.places.list other task).mp hlist
    exact hplaced.asleep task (by simp [hplace])
  · have hwaits' := hbooked.queued which fun other hother => hcarried ⟨other, hother⟩
    rw [hwaits'] at hwaits
    exact hline hwaits

/-- The steps of a run while `task` is inside `notify`. -/
def during (address : ℕ+) (sys : HeapSystem τ (Cell K) (Fin 1) ℕ ω Unit (Point τ K)) (task : τ) :
    Machine (HeapSystem τ (Cell K) (Fin 1) ℕ ω Unit (Point τ K))
      (τ × Label (Call K) ω) (Mark τ (Cell K) ℕ ω (Point τ K) (Call K)) :=
  ((machine address).start sys).restrict fun sys _ => (sys.pc task).notifies = true

/-- `notify` serves the waits that it found at its beginning. -/
theorem serving_of_trace {sys started served :
      HeapSystem τ (Cell K) (Fin 1) ℕ ω Unit (Point τ K)}
    {marks events : List (Mark τ (Cell K) ℕ ω (Point τ K) (Call K))} {task : τ}
    {count : ℕ} {which : K} (htrace : (machine address).Trace history sys)
    {call : Call K} (hguard : sys.pc task = .guard)
    (hcall : FairMutex.start (.guard : Point τ K) call =
      some (.notify (.load count) which))
    (hnext : (machine address).next sys (task, .start call) = some (started, marks))
    (hduring : (during address started task).Trace events served) :
    Serving count which (waits which history) task (served.pc task)
      (viewOf served.lists) (moves events) := by
  have hstarted : started = sys.setPc task (.notify (.load count) which) := by
    obtain ⟨-, hstep⟩ := System.next_spec (System.machine_next.mp hnext).1
    generalize hresult : (started, marks) = result at hstep
    cases hstep with
    | start hcode hstart =>
        have hstart' : FairMutex.start (sys.pc task) call = some _ := hstart
        rw [hguard, hcall] at hstart'
        cases hstart'
        cases hresult
        rfl
    | move hrequest => cases hrequest
  have htrace' := htrace.step hnext
  refine hduring.invariant (motive := fun events served =>
    Serving count which (waits which history) task (served.pc task)
      (viewOf served.lists) (moves events)) ?_ ?_
  · have hlists := (System.lists_of_trace htrace).1
    have howns : (sys.lists.pc task).owns = true := by
      rw [show sys.lists.pc task = .guard from hguard]
      rfl
    have hcarries : (sys.lists.pc task).carries = none := by
      rw [show sys.lists.pc task = .guard from hguard]
      rfl
    have hwaits := (booked_of_trace hlists).queued_of_owns
      (locked_of_trace hlists).inv.unique_owns howns hcarries which
    have hpc : started.pc task = .notify (.load count) which := by
      rw [hstarted]
      exact Function.update_self _ _ _
    have hinit : (during address started task).init = started := rfl
    rw [hinit, hpc]
    refine .asked rfl ?_ rfl
    rw [hwaits, hstarted]
    rfl
  · rintro events served ⟨actor, label⟩ next marks hduring hserving hnext
    obtain ⟨hnotifies, hnext⟩ := Machine.restrict_next.mp hnext
    have hserved := htrace'.append hduring
    have hlists := (System.lists_of_trace hserved).1
    have hlocked := locked_of_trace hlists
    obtain ⟨hnext', -⟩ := System.machine_next.mp (System.next_lists hserved hnext)
    obtain ⟨item, point, hnews, hpc, hturn⟩ := FairMutex.turn hlocked hnext'
    rw [moves_append events marks hnews]
    have hpc' : next.pc = Function.update served.pc actor point := hpc
    by_cases hactor : actor = task
    · subst hactor
      rw [hpc', Function.update_self]
      exact hserving.own hnotifies hturn
    · rw [hpc', Function.update_of_ne (Ne.symm hactor)]
      exact hserving.other hnotifies hlocked.inv.unique_owns hactor hturn

/-- One call of `notify` by a task that has the lock: it moves the waits that
have waited longest, and pushes them in this order behind all other waiters of
the mutex. -/
structure Notifies (address : ℕ+)
    (history : List (Mark τ (Cell K) ℕ ω (Point τ K) (Call K)))
    (started : HeapSystem τ (Cell K) (Fin 1) ℕ ω Unit (Point τ K)) (task : τ)
    (count : ℕ) (which : K)
    (events : List (Mark τ (Cell K) ℕ ω (Point τ K) (Call K)))
    (served : HeapSystem τ (Cell K) (Fin 1) ℕ ω Unit (Point τ K)) : Prop where
  moving : moves events <+: WaiterList.front count (waits which history)
  moved : (served.pc task).notifies = false →
    moves events = WaiterList.front count (waits which history)
  appended : ∀ label next marks, (machine address).next served label = some (next, marks) →
    .responded task (.notify .requeue which) .unit ∈ marks →
      next.lists.world.store.contents .mutex 0 =
        served.lists.world.store.contents .mutex 0 ++
          WaiterList.front count (waits which history)

/-- What the condition variables of a mutex promise in a state of a run. -/
structure Monitor (address : ℕ+)
    (history : List (Mark τ (Cell K) ℕ ω (Point τ K) (Call K)))
    (sys : HeapSystem τ (Cell K) (Fin 1) ℕ ω Unit (Point τ K)) : Prop where
  safe : sys.panicked = false
  /-- A task with a guard is the only owner of the mutex. -/
  exclusive : ∀ task, sys.pc task = .guard → sys.world.atom .mutex = 1 ∧
    ∀ other, Owner sys.world.handle sys.world.awake other (sys.pc other) → other = task
  /-- A wait that returns was moved, and has the mutex. -/
  returns : ∀ label next marks task which,
    (machine address).next sys label = some (next, marks) →
      .responded task (.waitWaiting which) .ready ∈ marks →
        moved task history = true ∧ next.pc task = .guard
  /-- No wait that has entered is missed. -/
  entered : ∀ task which, (sys.pc task).waitsOn = some which →
    moved task history = true ∨ task ∈ waits which history
  notifies : ∀ task which count call started marks events served,
    sys.pc task = .guard → FairMutex.start (.guard : Point τ K) call =
      some (.notify (.load count) which) →
      (machine address).next sys (task, .start call) = some (started, marks) →
        (during address started task).Trace events served →
          Notifies address history started task count which events served
  /-- Neither a locker nor a moved wait is stranded. -/
  empty : sys.world.atom .mutex = 0 →
    FutexStore.top sys.world.store .mutex = none ∧
      FutexStore.isEmpty sys.world.store .mutex 0 = true

/-- In every run the condition variables of a mutex lose and double no
notification. -/
theorem monitor_of_trace {sys : HeapSystem τ (Cell K) (Fin 1) ℕ ω Unit (Point τ K)}
    (htrace : (machine address).Trace history sys) : Monitor address history sys := by
  have hlists := (System.lists_of_trace htrace).1
  have hhands := handsOver_of_verified htrace.reachable (verified_of_reachable htrace.reachable)
  refine ⟨hhands.safe, fun task hguard => ?_, ?_, fun task which hwhich =>
    (booked_of_trace hlists).known task which hwhich, ?_,
    fun hzero => ⟨(hhands.empty hzero).2.2.1, (hhands.empty hzero).2.2.2⟩⟩
  · have howner : Owner sys.world.handle sys.world.awake task (sys.pc task) :=
      Or.inl (by rw [hguard]; rfl)
    have hone : sys.world.atom .mutex = 1 :=
      hhands.binary.resolve_left fun hzero => hhands.free hzero task howner
    exact ⟨hone, fun other hother => (hhands.owned hone).unique hother howner⟩
  · intro label next marks task which hnext hmark
    have hsafe : next.panicked = false :=
      (verified_of_reachable (htrace.step hnext).reachable).safe
    have hlocked := locked_of_trace hlists
    obtain ⟨hnext', -⟩ := System.machine_next.mp (System.next_lists htrace hnext)
    obtain ⟨rfl, hpc, input, board', -, hboard⟩ := responded_of_next hlocked hnext' hmark
    have hawake : sys.lists.world.board.awake label.1 = true := by
      cases hboard with
      | ready hstage hawake => exact hawake
    obtain ⟨-, -, hpanicked | ⟨pc', hgo, hpc'⟩⟩ :=
      System.responded_of_next (System.machine_next.mp hnext).1 hmark
    · rw [hsafe] at hpanicked
      cases hpanicked
    · have hwhich : (sys.lists.pc label.1).waitsOn = some which := by
        rw [← hpc]
        rfl
      refine ⟨((booked_of_trace hlists).known _ which hwhich).resolve_right fun hwaits => ?_, ?_⟩
      · have hasleep := asleep_of_waits hlists hwaits
        rw [hawake] at hasleep
        cases hasleep
      · rw [hpc', Function.update_self]
        cases hgo
        rfl
  · intro task which count call started marks events served hguard hcall hnext hduring
    have hserving := serving_of_trace htrace hguard hcall hnext hduring
    refine ⟨?_, fun hdone => ?_, fun label next marks' hnext' hmark => ?_⟩
    · cases hserving with
      | asked hasks hline hmoved => simp [hmoved]
      | carried hcarries hlist hmoved => exact ⟨_, hmoved.symm⟩
      | served hasks hcarries hmoved => rw [hmoved]
    · cases hserving with
      | asked hasks =>
          cases hpc : served.pc task <;> rw [hpc] at hasks hdone
          case notify => cases hdone
          all_goals cases hasks
      | carried hcarries =>
          cases hpc : served.pc task <;> rw [hpc] at hcarries hdone
          case notify => cases hdone
          all_goals cases hcarries
      | served hasks hcarries hmoved => exact hmoved
    · have hserved := (htrace.step hnext).append hduring
      have hlists := (System.lists_of_trace hserved).1
      obtain ⟨hnext', -⟩ := System.machine_next.mp (System.next_lists hserved hnext')
      obtain ⟨item, point, hnews, hpc, hturn⟩ :=
        FairMutex.turn (locked_of_trace hlists) hnext'
      obtain ⟨rfl, hpc', -⟩ := System.responded_of_next hnext' hmark
      have hitem : .links ∈ item.toList := by
        rw [← hnews]
        exact List.mem_filterMap.mpr ⟨_, hmark, rfl⟩
      rw [Option.mem_toList] at hitem
      subst hitem
      have hcarries : (served.pc label.1).carries = some which := by
        rw [show served.pc label.1 = _ from hpc'.symm]
        rfl
      obtain ⟨-, hlist, -⟩ := hserving.of_carries hcarries
      have hline := hturn.line_of_links
      rw [hlist] at hline
      exact hline

/-- The first of two waits is notified. -/
theorem monitor_of_notify :
    ∃ (history : List (Mark (Fin 3) (Cell Unit) ℕ Unit (Point (Fin 3) Unit) (Call Unit)))
      (sys : HeapSystem (Fin 3) (Cell Unit) (Fin 1) ℕ Unit Unit (Point (Fin 3) Unit)),
      moves history = [0] ∧ waits () history = [1] ∧ Monitor 1 history sys := by
  let lock (task : Fin 3) : List (Fin 3 × Label (Call Unit) Unit) :=
    [(task, .start .lock), (task, .call false ()), (task, .call false ()),
      (task, .call false ())]
  let wait (task : Fin 3) : List (Fin 3 × Label (Call Unit) Unit) :=
    (task, .start (.wait ())) :: List.replicate 11 (task, .call false ())
  let notify (task : Fin 3) : List (Fin 3 × Label (Call Unit) Unit) :=
    (task, .start (.notify () 1)) :: List.replicate 8 (task, .call false ()) ++
      List.replicate 3 (task, .step false)
  have htrace : (machine 1 : Machine (HeapSystem (Fin 3) (Cell Unit) (Fin 1) ℕ Unit
      Unit (Point (Fin 3) Unit)) _ _).Trace _ _ :=
    ⟨lock 0 ++ wait 0 ++ lock 1 ++ wait 1 ++ lock 2 ++ notify 2, rfl⟩
  exact ⟨_, _, rfl, rfl, monitor_of_trace htrace⟩

end FairMutex

end AsyncMutex
