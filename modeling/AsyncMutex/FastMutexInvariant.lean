import AsyncMutex.FastMutexProgram
import AsyncMutex.Coherence
import Mathlib.Data.Fintype.Card

/-!
# The invariant of the fast mutex

At most one task has the lock, and at most one carries a wakeup: an `unlock`
that is about to pop a waiter, or a waiter that was popped and neither has the
lock nor sleeps again.  The flags of the word say whether there are such
tasks.  The count is that of the waiters in the inbox and in the queue, and of
the popped one.
-/

namespace AsyncMutex

namespace FastMutex

variable {τ : Type}

/-- `unlock` has not yet done its releasing compare-exchange. -/
def Unlock.owns : Unlock τ → Bool
  | .load => true
  | .check _ => true
  | .borrow _ => true
  | .isEmpty _ => true
  | .loop _ _ => true
  | _ => false

/-- The code at this point has the lock. -/
def Point.owns : Point τ → Bool
  | .guard => true
  | .unlock point => point.owns
  | _ => false

/-- A compare-exchange of `lock` succeeded and its future has not returned. -/
def Point.waits : Point τ → Bool
  | .entered _ => true
  | .waiting _ => true
  | _ => false

/-- The task was woken, and neither has the lock nor sleeps again. -/
def Point.competes : Point τ → Bool
  | .again _ => true
  | .againLoop _ => true
  | _ => false

abbrev MutexBoard (τ : Type) := Board τ Unit (Fin 1) ℕ

def word (board : MutexBoard τ) : Atom := .decode (board.atom ())

def inbox (board : MutexBoard τ) : List τ := board.store.inbox ()

def queue (board : MutexBoard τ) : List τ := board.store.queues () 0

/-- The waiter of the task was popped, and the task neither has the lock nor
sleeps again. -/
def Woken (handle : τ → Option τ) (awake : τ → Bool) (task : τ) (point : Point τ) : Prop :=
  point.competes = true ∨
    point.waits = true ∧ ((∃ other, handle other = some task) ∨ awake task = true)

/-- Who carries a wakeup. -/
inductive Carrier (τ : Type) where
  | none
  /-- An `unlock` that is about to pop a waiter. -/
  | unlock (task : τ)
  | woken (task : τ)

def Carrier.waiters : Carrier τ → List τ
  | .woken task => [task]
  | _ => []

def Carrier.isSome : Carrier τ → Bool
  | .none => false
  | _ => true

/-- What holds at a program point. -/
def PointInv (waking : Bool) (inbox queue : List τ) : Point τ → Prop
  | .lockWaiter current => (atomOf current).waiters < 2 ^ 62
  | .entered current => (atomOf current).locked = true
  | .waiting current => (atomOf current).locked = true
  | .again current => (atomOf current).locked = true
  | .againLoop current => (atomOf current).locked = false → (atomOf current).waiters ≠ 0
  | .unlock (.check current) =>
      (atomOf current).waking = false → (atomOf current).waiters ≠ 0 →
        waking = false ∧ (queue = [] → current.inbox ≠ none ∧ inbox ≠ [])
  | .unlock (.borrow current) =>
      waking = false ∧ (queue = [] → current.inbox ≠ none ∧ inbox ≠ [])
  | .unlock (.isEmpty current) =>
      waking = false ∧ (queue = [] → current.inbox ≠ none ∧ inbox ≠ [])
  | .unlock (.loop hadWaiters current) =>
      waking = false ∧ (hadWaiters = true → queue ≠ []) ∧
        (hadWaiters = false → current.inbox ≠ none ∧ inbox ≠ [])
  | .unlock .pop => queue ≠ []
  | .unlock .leave => False
  | _ => True

structure Accounts (board : MutexBoard τ) (pc : τ → Point τ) (owner : Option τ)
    (carrier : Carrier τ) : Prop where
  owns : ∀ task, (pc task).owns = true ↔ owner = some task
  pops : ∀ task, pc task = .unlock .pop ↔ carrier = .unlock task
  woken : ∀ task, Woken board.handle board.awake task (pc task) ↔ carrier = .woken task
  locked : (word board).locked = owner.isSome
  waking : (word board).waking = carrier.isSome
  waiters : (word board).waiters =
    (inbox board).length + (queue board).length + carrier.waiters.length
  /-- A free lock with waiters has its wakeup under way. -/
  free : (word board).locked = false → (word board).waking = false → (word board).waiters = 0
  points : ∀ task, PointInv (word board).waking (inbox board) (queue board) (pc task)
  undropped : ∀ task, board.stage task ≠ .dropping

def Inv (board : MutexBoard τ) (pc : τ → Point τ) : Prop :=
  ∃ owner carrier, Accounts board pc owner carrier

/-- The task waits, or was woken and neither has the lock nor sleeps again. -/
def Point.counted (point : Point τ) : Bool := point.waits || point.competes

/-- How many tasks wait or were woken. -/
def crowd [Fintype τ] (pc : τ → Point τ) : ℕ :=
  (Finset.univ.filter fun task => (pc task).counted).card

theorem crowd_le_card [Fintype τ] (pc : τ → Point τ) : crowd pc ≤ Fintype.card τ :=
  Finset.card_le_univ _

/-- One more task waits. -/
theorem crowd_update [Fintype τ] [DecidableEq τ] {pc : τ → Point τ} {task : τ} {point : Point τ}
    (hbefore : (pc task).counted = false) (hafter : point.counted = true) :
    crowd (Function.update pc task point) = crowd pc + 1 := by
  have hinsert : (Finset.univ.filter fun other =>
      (Function.update pc task point other).counted) =
        insert task (Finset.univ.filter fun other => (pc other).counted) := by
    ext other
    by_cases hother : other = task
    · subst hother
      simp [hafter]
    · simp [hother]
  rw [crowd, hinsert, Finset.card_insert_of_notMem (by simp [hbefore]), crowd]

/-- A pending future is not dropped: both cancel callbacks are `todo!()`. -/
def usage : Usage τ (Point τ) where
  mayDrop _ _ := false

/-! ## Program points and the lists -/

/-- Where the code has neither the lock nor a wakeup, the board is of no
importance. -/
theorem PointInv.of_idle {waking waking' : Bool} {inbox inbox' queue queue' : List τ}
    {point : Point τ} (hpoint : PointInv waking inbox queue point)
    (howns : point.owns = false) (hpop : point ≠ .unlock .pop) :
    PointInv waking' inbox' queue' point := by
  cases point with
  | unlock point => cases point <;> simp_all [PointInv, Point.owns, Unlock.owns]
  | _ => exact hpoint

/-- While a wakeup is under way, `unlock` is on its fast path. -/
theorem PointInv.of_waking {waking' : Bool} {inbox inbox' queue queue' : List τ}
    {point : Point τ} (hpoint : PointInv true inbox queue point)
    (hpop : point ≠ .unlock .pop) : PointInv waking' inbox' queue' point := by
  cases point with
  | unlock point =>
      cases point with
      | check current =>
          intro hwaking hwaiters
          exact absurd (hpoint hwaking hwaiters).1 (by simp)
      | borrow current => exact absurd hpoint.1 (by simp)
      | isEmpty current => exact absurd hpoint.1 (by simp)
      | loop hadWaiters current => exact absurd hpoint.1 (by simp)
      | pop => exact absurd rfl hpop
      | _ => exact hpoint
  | _ => exact hpoint

/-- The inbox only grows. -/
theorem PointInv.mono {waking : Bool} {inbox inbox' queue : List τ} {point : Point τ}
    (hpoint : PointInv waking inbox queue point) (hinbox : inbox ≠ [] → inbox' ≠ []) :
    PointInv waking inbox' queue point := by
  cases point with
  | unlock point =>
      cases point with
      | check current =>
          intro hwaking hwaiters
          obtain ⟨hsame, hstock⟩ := hpoint hwaking hwaiters
          exact ⟨hsame, fun hqueue => (hstock hqueue).imp_right hinbox⟩
      | borrow current => exact hpoint.imp_right fun h hqueue => (h hqueue).imp_right hinbox
      | isEmpty current => exact hpoint.imp_right fun h hqueue => (h hqueue).imp_right hinbox
      | loop hadWaiters current =>
          obtain ⟨hsame, hhad, hnone⟩ := hpoint
          exact ⟨hsame, hhad, fun hnot => (hnone hnot).imp_right hinbox⟩
      | _ => exact hpoint
  | _ => exact hpoint

theorem word_setAtom (board : MutexBoard τ) {atom : Atom} (hwaiters : atom.waiters < 2 ^ 62) :
    word (board.setAtom () atom.encode) = atom := by
  simp [word, Board.setAtom, Atom.decode_encode hwaiters]

/-- All waiters ask for the one queue. -/
theorem arrivals_eq (board : MutexBoard τ) :
    board.store.arrivals () 0 = (inbox board).reverse := by
  simp [ListStore.arrivals, inbox, Subsingleton.elim (board.store.queue _) 0]

namespace Accounts

variable [DecidableEq τ] {board board' : MutexBoard τ} {pc : τ → Point τ}
  {owner : Option τ} {carrier : Carrier τ} {task : τ}

/-- After a step of `task`, with what it says about the other tasks. -/
theorem of_update {pc' : Point τ} {owner' : Option τ} {carrier' : Carrier τ}
    (howns : pc'.owns = true ↔ owner' = some task)
    (hpop : pc' = .unlock .pop ↔ carrier' = .unlock task)
    (hwoken : Woken board'.handle board'.awake task pc' ↔ carrier' = .woken task)
    (hpoint : PointInv (word board').waking (inbox board') (queue board') pc')
    (hothers : ∀ other, other ≠ task → ((pc other).owns = true ↔ owner' = some other) ∧
      (pc other = .unlock .pop ↔ carrier' = .unlock other) ∧
      (Woken board'.handle board'.awake other (pc other) ↔ carrier' = .woken other) ∧
      PointInv (word board').waking (inbox board') (queue board') (pc other))
    (hlocked : (word board').locked = owner'.isSome)
    (hwaking : (word board').waking = carrier'.isSome)
    (hwaiters : (word board').waiters =
      (inbox board').length + (queue board').length + carrier'.waiters.length)
    (hfree : (word board').locked = false → (word board').waking = false →
      (word board').waiters = 0)
    (hstage : ∀ other, board'.stage other ≠ .dropping) :
    Accounts board' (Function.update pc task pc') owner' carrier' where
  owns := (Function.forall_update_iff pc fun other point =>
    point.owns = true ↔ owner' = some other).mpr
      ⟨howns, fun other hother => (hothers other hother).1⟩
  pops := (Function.forall_update_iff pc fun other point =>
    point = .unlock .pop ↔ carrier' = .unlock other).mpr
      ⟨hpop, fun other hother => (hothers other hother).2.1⟩
  woken := (Function.forall_update_iff pc fun other point =>
    Woken board'.handle board'.awake other point ↔ carrier' = .woken other).mpr
      ⟨hwoken, fun other hother => (hothers other hother).2.2.1⟩
  locked := hlocked
  waking := hwaking
  waiters := hwaiters
  free := hfree
  points := (Function.forall_update_iff pc fun _ point =>
    PointInv (word board').waking (inbox board') (queue board') point).mpr
      ⟨hpoint, fun other hother => (hothers other hother).2.2.2⟩
  undropped := hstage

/-- A step of `task` that leaves the word, the lists, the owner and the carrier
as they are. -/
theorem keep (hacc : Accounts board pc owner carrier) {pc' : Point τ}
    (hatom : board'.atom = board.atom) (hinbox : inbox board' = inbox board)
    (hqueue : queue board' = queue board) (howns : pc'.owns = (pc task).owns)
    (hpop : pc' = .unlock .pop ↔ pc task = .unlock .pop)
    (hwoken : Woken board'.handle board'.awake task pc' ↔
      Woken board.handle board.awake task (pc task))
    (hothers : ∀ other, other ≠ task → (Woken board'.handle board'.awake other (pc other) ↔
      Woken board.handle board.awake other (pc other)))
    (hpoint : PointInv (word board).waking (inbox board) (queue board) pc')
    (hstage : ∀ other, board'.stage other ≠ .dropping) :
    Accounts board' (Function.update pc task pc') owner carrier := by
  have hword : word board' = word board := by simp only [word, hatom]
  refine of_update ?_ (hpop.trans (hacc.pops task)) (hwoken.trans (hacc.woken task)) ?_
    (fun other hother => ⟨hacc.owns other, hacc.pops other,
      (hothers other hother).trans (hacc.woken other), ?_⟩) ?_ ?_ ?_ ?_ hstage
  · rw [howns]
    exact hacc.owns task
  · rw [hword, hinbox, hqueue]
    exact hpoint
  · rw [hword, hinbox, hqueue]
    exact hacc.points other
  · rw [hword]
    exact hacc.locked
  · rw [hword]
    exact hacc.waking
  · rw [hword, hinbox, hqueue]
    exact hacc.waiters
  · rw [hword]
    exact hacc.free

/-- The code goes on, and the board changes in nothing that matters here. -/
theorem advance (hacc : Accounts board pc owner carrier) {pc' : Point τ}
    (hatom : board'.atom = board.atom) (hstore : board'.store = board.store)
    (hhandle : board'.handle = board.handle) (hawake : board'.awake = board.awake)
    (howns : pc'.owns = (pc task).owns) (hwaits : pc'.waits = (pc task).waits)
    (hcompetes : pc'.competes = (pc task).competes)
    (hpop : pc' = .unlock .pop ↔ pc task = .unlock .pop)
    (hpoint : PointInv (word board).waking (inbox board) (queue board) pc')
    (hstage : ∀ other, board'.stage other ≠ .dropping) :
    Accounts board' (Function.update pc task pc') owner carrier := by
  refine hacc.keep hatom (by rw [inbox, inbox, hstore]) (by rw [queue, queue, hstore]) howns
    hpop ?_ (fun other _ => ?_) hpoint hstage
  · rw [hhandle, hawake, Woken, Woken, hwaits, hcompetes]
  · rw [hhandle, hawake]

omit [DecidableEq τ] in
theorem owner_eq (hacc : Accounts board pc owner carrier) (howns : (pc task).owns = true) :
    owner = some task := (hacc.owns task).mp howns

omit [DecidableEq τ] in
theorem not_owns (hacc : Accounts board pc owner carrier) (howns : (pc task).owns = true)
    {other : τ} (hother : other ≠ task) : (pc other).owns = false := by
  by_contra howner
  have howner' := (hacc.owns other).mp (by simpa using howner)
  rw [hacc.owner_eq howns, Option.some_inj] at howner'
  exact hother howner'.symm

omit [DecidableEq τ] in
theorem carrier_eq_none (hacc : Accounts board pc owner carrier)
    (hwaking : (word board).waking = false) : carrier = .none := by
  have hsome := hacc.waking
  rw [hwaking] at hsome
  cases carrier with
  | none => rfl
  | _ => cases hsome

/-! ## The counted waiters -/

section Coherent

variable (hco : (client : Client τ Unit _ _ _ _ _).Coherent holds board pc)
include hco

omit [DecidableEq τ] hco in
theorem unused_of_competes (hcompetes : (pc task).competes = true) :
    (holds (pc task)).slot.Unused := by
  cases hpc : pc task <;> simp_all [Point.competes, holds, Slot.Unused]

theorem unlisted_of_woken (hwoken : Woken board.handle board.awake task (pc task)) :
    task ∉ inbox board ∧ task ∉ queue board := by
  have hunlisted : ¬ board.Listed task := by
    rcases hwoken with hcompetes | ⟨-, ⟨other, hhandle⟩ | hawake⟩
    · exact (hco.unlisted_of_unused (unused_of_competes hcompetes)).1
    · exact hco.unlisted_of_popped (Or.inl ⟨other, hhandle⟩)
    · intro hlisted
      rw [hco.awake_of_listed hlisted] at hawake
      cases hawake
  exact ⟨fun hmem => hunlisted (Or.inl ⟨(), hmem⟩), fun hmem => hunlisted (Or.inr ⟨(), 0, hmem⟩)⟩

/-- The counted waiters are different tasks. -/
theorem nodup (hacc : Accounts board pc owner carrier) :
    (carrier.waiters ++ (inbox board ++ queue board)).Nodup := by
  obtain ⟨place, hplaced⟩ := hco.placed
  have hlists : (inbox board ++ queue board).Nodup := by
    refine List.Nodup.append (hplaced.places.inboxNodup ()) (hplaced.places.queuesNodup () 0) ?_
    intro waiter hinbox hqueue
    have hplace := (hplaced.places.inbox () waiter).mp hinbox
    have hplace' := (hplaced.places.queues () 0 waiter).mp hqueue
    rw [hplace] at hplace'
    cases hplace'
  cases carrier with
  | none => exact hlists
  | unlock other => exact hlists
  | woken other =>
      obtain ⟨hinbox, hqueue⟩ := unlisted_of_woken hco ((hacc.woken other).mpr rfl)
      refine List.nodup_cons.mpr ⟨?_, hlists⟩
      intro hmem
      have hlisted : other ∈ inbox board ++ queue board := hmem
      rcases List.mem_append.mp hlisted with hmem | hmem
      · exact hinbox hmem
      · exact hqueue hmem

omit [DecidableEq τ] hco in
theorem waiters_eq (hacc : Accounts board pc owner carrier) :
    (word board).waiters = (carrier.waiters ++ (inbox board ++ queue board)).length := by
  rw [hacc.waiters, List.length_append, List.length_append]
  omega

end Coherent

/-! ## Taking the lock and sleeping -/

omit [DecidableEq τ] in
theorem not_woken_of_carrier (hacc : Accounts board pc owner carrier) {other : τ}
    (hcarrier : carrier ≠ .woken other) :
    ¬ Woken board.handle board.awake other (pc other) :=
  fun hwoken => hcarrier ((hacc.woken other).mp hwoken)

/-- `Futex::waiter`. -/
theorem newWaiter (hacc : Accounts board pc owner carrier) {pc' : Point τ}
    (howns : pc'.owns = (pc task).owns) (hwaits : (pc task).waits = false)
    (hwaits' : pc'.waits = false) (hcompetes : pc'.competes = (pc task).competes)
    (hpop : pc' = .unlock .pop ↔ pc task = .unlock .pop)
    (hpoint : PointInv (word board).waking (inbox board) (queue board) pc') :
    Accounts ((((board.setStore (FutexStore.renew board.store task 0)).setOwner task
      ()).setStage task (.fresh ())).setAwake task false)
      (Function.update pc task pc') owner carrier := by
  refine hacc.keep rfl rfl rfl howns hpop ?_ (fun other hother => ?_) hpoint ?_
  · simp [Woken, hwaits, hwaits', hcompetes]
  · simp [Woken, Board.setAwake, Board.setStage, Board.setOwner, Board.setStore,
      Function.update_of_ne hother]
  · intro other
    simp only [Board.setAwake, Board.setStage, Board.setOwner, Board.setStore,
      Function.update_apply]
    split
    · simp
    · exact hacc.undropped other

/-- The first loop of `lock` takes the lock. -/
theorem acquire (hacc : Accounts board pc owner carrier) {current : FutexAtom τ ℕ}
    (hpc : pc task = .lockLoop current) (hlocked : (word board).locked = false)
    (hbound : (word board).waiters < 2 ^ 62) :
    Accounts (board.setAtom () { word board with locked := true : Atom }.encode)
      (Function.update pc task .guard) (some task) carrier := by
  have hnone : owner = none := by
    have hsome := hacc.locked
    rw [hlocked] at hsome
    simpa using hsome.symm
  have hword : word (board.setAtom () { word board with locked := true : Atom }.encode) =
      { word board with locked := true : Atom } := word_setAtom board hbound
  refine of_update (by simp [Point.owns]) ?_ ?_ trivial (fun other hother => ?_) ?_ ?_ ?_ ?_
    hacc.undropped
  · have hpops := hacc.pops task
    rw [hpc] at hpops
    simpa using hpops
  · have hwoken := hacc.woken task
    rw [hpc] at hwoken
    simpa [Woken, Point.competes, Point.waits, Board.setAtom] using hwoken
  · refine ⟨?_, hacc.pops other, hacc.woken other, ?_⟩
    · rw [hacc.owns, hnone]
      simp [Ne.symm hother]
    · rw [hword]
      exact hacc.points other
  · rw [hword]
    rfl
  · rw [hword]
    exact hacc.waking
  · rw [hword]
    exact hacc.waiters
  · rw [hword]
    simp

/-- A woken task takes the lock, and its wakeup is over. -/
theorem acquireAgain (hacc : Accounts board pc owner carrier) {current : FutexAtom τ ℕ}
    (hpc : pc task = .againLoop current) (hlocked : (word board).locked = false)
    (hbound : (word board).waiters < 2 ^ 62) :
    Accounts (board.setAtom () (Atom.mk true false ((word board).waiters - 1)).encode)
      (Function.update pc task .guard) (some task) .none := by
  have hnone : owner = none := by
    have hsome := hacc.locked
    rw [hlocked] at hsome
    simpa using hsome.symm
  have hcarrier : carrier = .woken task := by
    apply (hacc.woken task).mp
    rw [hpc]
    exact Or.inl rfl
  subst hcarrier
  have hwaking : (word board).waking = true := hacc.waking
  have hword : word (board.setAtom ()
      (Atom.mk true false ((word board).waiters - 1)).encode) =
        ⟨true, false, (word board).waiters - 1⟩ :=
    word_setAtom board (Nat.lt_of_le_of_lt (Nat.sub_le _ _) hbound)
  refine of_update (by simp [Point.owns]) (by simp) ?_ trivial (fun other hother => ?_) ?_ ?_ ?_
    ?_ hacc.undropped
  · simp [Woken, Point.competes, Point.waits]
  · refine ⟨?_, ?_, ?_, ?_⟩
    · rw [hacc.owns, hnone]
      simp [Ne.symm hother]
    · simp [hacc.pops]
    · refine iff_of_false ?_ (by simp)
      apply hacc.not_woken_of_carrier
      simp [Ne.symm hother]
    · have hpoint := hacc.points other
      rw [hwaking] at hpoint
      apply hpoint.of_waking
      simp [hacc.pops]
  · rw [hword]
    rfl
  · rw [hword]
    rfl
  · have hwaiters := hacc.waiters
    rw [hword]
    simp only [Carrier.waiters, List.length_singleton, List.length_nil] at hwaiters ⊢
    simp only [inbox, queue, Board.setAtom] at hwaiters ⊢
    omega
  · rw [hword]
    simp

section Coherent

variable (hco : (client : Client τ Unit _ _ _ _ _).Coherent holds board pc)
include hco

/-- The waiter of a task that sleeps has not been popped. -/
theorem not_woken_of_fresh {point : Point τ}
    (hslot : (holds (pc task)).slot = .fresh () 0) (hcompetes : point.competes = false) :
    ¬ Woken board.handle board.awake task point := by
  have hunused : (holds (pc task)).slot.Unused := by
    rw [hslot]
    trivial
  rintro (h | ⟨-, ⟨other, hhandle⟩ | hawake⟩)
  · simp [hcompetes] at h
  · exact (hco.unlisted_of_unused hunused).2 (Or.inl ⟨other, hhandle⟩)
  · rw [hco.awake_of_fresh hslot] at hawake
    cases hawake

/-- The board after a task put its waiter on the inbox. -/
abbrev pushed (board : MutexBoard τ) (task : τ) (atom : Atom) : MutexBoard τ :=
  ((board.setAtom () atom.encode).setStore
    (FutexStore.push board.store () task)).setStage task .entered

omit hco in
theorem undropped_pushed (hacc : Accounts board pc owner carrier) (atom : Atom) (other : τ) :
    (pushed board task atom).stage other ≠ .dropping := by
  simp only [pushed, Board.setStage, Board.setStore, Board.setAtom, Function.update_apply]
  split
  · simp
  · exact hacc.undropped other

/-- The first loop of `lock` puts its waiter on the inbox. -/
theorem sleep (hacc : Accounts board pc owner carrier) {current : FutexAtom τ ℕ}
    (hpc : pc task = .lockLoop current) (hcurrent : (atomOf current).locked = true)
    (hlocked : (word board).locked = true) (hbound : (word board).waiters + 1 < 2 ^ 62) :
    Accounts (pushed board task { word board with waiters := (word board).waiters + 1 })
      (Function.update pc task (.entered current)) owner carrier := by
  have hword : word (pushed board task
      { word board with waiters := (word board).waiters + 1 }) =
        { word board with waiters := (word board).waiters + 1 } :=
    word_setAtom board hbound
  have hinbox : inbox (pushed board task
      { word board with waiters := (word board).waiters + 1 }) = task :: inbox board := by
    simp [inbox, Board.setStage, Board.setStore, FutexStore.push]
  have hslot : (holds (pc task)).slot = .fresh () 0 := by
    rw [hpc]
    rfl
  have howns := hacc.owns task
  have hpops := hacc.pops task
  have hwoken := hacc.woken task
  rw [hpc] at howns hpops hwoken
  refine of_update ?_ ?_ ?_ hcurrent (fun other hother => ?_) ?_ ?_ ?_ ?_
    (undropped_pushed hacc _)
  · simpa [Point.owns] using howns
  · simpa using hpops
  · refine iff_of_false (not_woken_of_fresh hco hslot rfl) ?_
    rw [← hwoken]
    simp [Woken, Point.competes, Point.waits]
  · refine ⟨hacc.owns other, hacc.pops other, hacc.woken other, ?_⟩
    rw [hword, hinbox]
    exact (hacc.points other).mono (by simp)
  · rw [hword]
    exact hacc.locked
  · rw [hword]
    exact hacc.waking
  · have hwaiters := hacc.waiters
    rw [hword, hinbox, List.length_cons]
    simp only [queue, Board.setStage, Board.setStore, FutexStore.push] at hwaiters ⊢
    omega
  · rw [hword]
    simp [hlocked]

/-- A woken task sleeps again, and its wakeup is over. -/
theorem sleepAgain (hacc : Accounts board pc owner carrier) {current : FutexAtom τ ℕ}
    (hpc : pc task = .againLoop current) (hcurrent : (atomOf current).locked = true)
    (hlocked : (word board).locked = true) (hbound : (word board).waiters < 2 ^ 62) :
    Accounts (pushed board task { word board with waking := false })
      (Function.update pc task (.entered current)) owner .none := by
  have hcarrier : carrier = .woken task := by
    apply (hacc.woken task).mp
    rw [hpc]
    exact Or.inl rfl
  subst hcarrier
  have hwaking : (word board).waking = true := hacc.waking
  have hword : word (pushed board task { word board with waking := false }) =
      { word board with waking := false } := word_setAtom board hbound
  have hinbox : inbox (pushed board task { word board with waking := false }) =
      task :: inbox board := by
    simp [inbox, Board.setStage, Board.setStore, FutexStore.push]
  have hslot : (holds (pc task)).slot = .fresh () 0 := by
    rw [hpc]
    rfl
  have howns := hacc.owns task
  rw [hpc] at howns
  refine of_update ?_ (by simp) ?_ hcurrent (fun other hother => ?_) ?_ ?_ ?_ ?_
    (undropped_pushed hacc _)
  · simpa [Point.owns] using howns
  · exact iff_of_false (not_woken_of_fresh hco hslot rfl) (by simp)
  · refine ⟨hacc.owns other, ?_, ?_, ?_⟩
    · simp [hacc.pops]
    · refine iff_of_false (hacc.not_woken_of_carrier ?_) (by simp)
      simp [Ne.symm hother]
    · have hpoint := hacc.points other
      rw [hwaking] at hpoint
      apply hpoint.of_waking
      simp [hacc.pops]
  · rw [hword]
    exact hacc.locked
  · rw [hword]
    rfl
  · have hwaiters := hacc.waiters
    rw [hword, hinbox, List.length_cons]
    simp only [Carrier.waiters, List.length_singleton, List.length_nil] at hwaiters ⊢
    simp only [queue, Board.setStage, Board.setStore, FutexStore.push] at hwaiters ⊢
    omega
  · rw [hword]
    simp [hlocked]

end Coherent

/-! ## Releasing the lock -/

/-- The fast path of `unlock` frees the lock and wakes nobody. -/
theorem free_fast (hacc : Accounts board pc owner carrier) (howns : (pc task).owns = true)
    (hfast : (word board).waking = true ∨ (word board).waiters = 0)
    (hbound : (word board).waiters < 2 ^ 62) :
    Accounts (board.setAtom () { word board with locked := false : Atom }.encode)
      (Function.update pc task .idle) none carrier := by
  have hword : word (board.setAtom () { word board with locked := false : Atom }.encode) =
      { word board with locked := false : Atom } := word_setAtom board hbound
  have hpops := hacc.pops task
  have hwoken := hacc.woken task
  refine of_update (by simp [Point.owns]) ?_ ?_ trivial (fun other hother => ?_) ?_ ?_ ?_ ?_
    hacc.undropped
  · refine iff_of_false (by simp) ?_
    rw [← hpops]
    rintro hpc
    rw [hpc] at howns
    cases howns
  · refine iff_of_false (by simp [Woken, Point.competes, Point.waits]) ?_
    rw [← hwoken]
    cases hpc : pc task <;> simp_all [Woken, Point.competes, Point.waits, Point.owns]
  · refine ⟨?_, hacc.pops other, hacc.woken other, ?_⟩
    · simp [hacc.not_owns howns hother]
    · rw [hword]
      exact hacc.points other
  · rw [hword]
    rfl
  · rw [hword]
    exact hacc.waking
  · rw [hword]
    exact hacc.waiters
  · rw [hword]
    intro _ hwaking
    rcases hfast with hfast | hfast
    · exact absurd (hwaking.symm.trans hfast) (by simp)
    · exact hfast

/-- The slow path of `unlock` frees the lock and has a waiter to wake. -/
theorem free_slow (hacc : Accounts board pc owner carrier) {hadWaiters : Bool}
    {current : FutexAtom τ ℕ} (hpc : pc task = .unlock (.loop hadWaiters current))
    (hword : word board' = { word board with locked := false, waking := true : Atom })
    (hcount : (inbox board').length + (queue board').length =
      (inbox board).length + (queue board).length)
    (hqueue : queue board' ≠ []) (hhandle : board'.handle = board.handle)
    (hawake : board'.awake = board.awake) (hstage : board'.stage = board.stage) :
    Accounts board' (Function.update pc task (.unlock .pop)) none (.unlock task) := by
  have howns : (pc task).owns = true := by
    rw [hpc]
    rfl
  have hwaking : (word board).waking = false := by
    have hpoint := hacc.points task
    rw [hpc] at hpoint
    exact hpoint.1
  have hcarrier := hacc.carrier_eq_none hwaking
  subst hcarrier
  refine of_update (by simp [Point.owns, Unlock.owns]) (by simp) ?_ hqueue
    (fun other hother => ?_) ?_ ?_ ?_ ?_ (by rw [hstage]; exact hacc.undropped)
  · simp [Woken, Point.competes, Point.waits]
  · have hidle := hacc.not_owns howns hother
    refine ⟨by simp [hidle], ?_, ?_, ?_⟩
    · simp [hacc.pops, Ne.symm hother]
    · rw [hhandle, hawake]
      exact iff_of_false (hacc.not_woken_of_carrier (by simp)) (by simp)
    · apply (hacc.points other).of_idle hidle
      simp [hacc.pops]
  · rw [hword]
    rfl
  · rw [hword]
    rfl
  · have hwaiters := hacc.waiters
    rw [hword, hcount]
    exact hwaiters
  · rw [hword]
    simp

section Coherent

variable (hco : (client : Client τ Unit _ _ _ _ _).Coherent holds board pc)
include hco

/-- Whoever is in some list waits. -/
theorem waits_of_listed (hlisted : board.Listed task ∨ board.Popped task) :
    (pc task).waits = true := by
  by_contra hwaits
  have hunused : (holds (pc task)).slot.Unused := by
    cases hpc : pc task with
    | unlock point => cases point <;> trivial
    | _ => simp_all [Point.waits, holds, Slot.Unused]
  obtain ⟨hunlisted, hunpopped⟩ := hco.unlisted_of_unused hunused
  rcases hlisted with hlisted | hpopped
  · exact hunlisted hlisted
  · exact hunpopped hpopped

/-- The carrier pops a waiter, which carries the wakeup from now on. -/
theorem popped (hacc : Accounts board pc owner carrier) (hpc : pc task = .unlock .pop)
    {waiter : τ} {rest : List τ} (hqueue : queue board = waiter :: rest) :
    Accounts ((board.setStore (board.store.setQueue () 0 rest)).setHandle task (some waiter))
      (Function.update pc task (.unlock .release)) owner (.woken waiter) := by
  have hcarrier : carrier = .unlock task := (hacc.pops task).mp hpc
  subst hcarrier
  have hlisted : board.Listed waiter := by
    refine Or.inr ⟨(), 0, ?_⟩
    have hmem : waiter ∈ queue board := by simp [hqueue]
    exact hmem
  have hwaits := waits_of_listed hco (Or.inl hlisted)
  have hwaiter : waiter ≠ task := by
    rintro rfl
    rw [hpc] at hwaits
    cases hwaits
  have hwaking : (word board).waking = true := hacc.waking
  have hnone : board.handle task = none := (hco.fits task).handle_eq_none (by rw [hpc]; rfl)
  -- nobody but the popped waiter is woken
  have hwoken (other : τ) (hother : other ≠ task) :
      Woken (Function.update board.handle task (some waiter)) board.awake other (pc other) ↔
        waiter = other := by
    have hnot : ¬ Woken board.handle board.awake other (pc other) :=
      hacc.not_woken_of_carrier (by simp)
    constructor
    · rintro (h | ⟨h, ⟨third, hthird⟩ | hawake⟩)
      · exact absurd (Or.inl h) hnot
      · rw [Function.update_apply] at hthird
        split at hthird
        · exact Option.some.inj hthird
        · exact absurd (Or.inr ⟨h, Or.inl ⟨third, hthird⟩⟩) hnot
      · exact absurd (Or.inr ⟨h, Or.inr hawake⟩) hnot
    · rintro rfl
      exact Or.inr ⟨hwaits, Or.inl ⟨task, Function.update_self _ _ _⟩⟩
  have howns := hacc.owns task
  rw [hpc] at howns
  refine of_update ?_ (by simp) ?_ trivial (fun other hother => ?_) hacc.locked ?_ ?_ ?_
    hacc.undropped
  · simpa [Point.owns, Unlock.owns] using howns
  · simp [Woken, Point.competes, Point.waits, hwaiter]
  · refine ⟨hacc.owns other, ?_, ?_, ?_⟩
    · simp [hacc.pops, Ne.symm hother]
    · simpa [Board.setHandle, Board.setStore] using hwoken other hother
    · have hpoint := hacc.points other
      rw [hwaking] at hpoint
      apply hpoint.of_waking
      simp [hacc.pops, Ne.symm hother]
  · exact hacc.waking
  · have hwaiters := hacc.waiters
    simp only [hqueue, Carrier.waiters, List.length_nil, List.length_cons] at hwaiters
    simp only [word, inbox, queue, Board.setHandle, Board.setStore, ListStore.setQueue,
      Function.update_self, Carrier.waiters, List.length_singleton] at hwaiters ⊢
    omega
  · exact hacc.free

/-- The swap of `Waiter::wake`. -/
theorem wake (hacc : Accounts board pc owner carrier) {waiter : τ}
    (hhandle : board.handle task = some waiter) :
    Accounts (((board.setAwake waiter true).setHandle task none).setActivity task .waking) pc
      owner carrier := by
  have hwaits := waits_of_listed hco (Or.inr (Or.inl ⟨task, hhandle⟩))
  refine ⟨hacc.owns, hacc.pops, fun other => ?_, hacc.locked, hacc.waking, hacc.waiters,
    hacc.free, hacc.points, hacc.undropped⟩
  rw [← hacc.woken]
  by_cases hother : other = waiter
  · subst hother
    apply iff_of_true
    · exact Or.inr ⟨hwaits, Or.inr (by simp [Board.setHandle, Board.setAwake,
        Board.setActivity])⟩
    · exact Or.inr ⟨hwaits, Or.inl ⟨task, hhandle⟩⟩
  · have hsame : (∃ third, Function.update board.handle task none third = some other) ↔
        ∃ third, board.handle third = some other := by
      apply exists_congr
      intro third
      rw [Function.update_apply]
      split
      case isTrue heq => simp [heq, hhandle, Ne.symm hother]
      case isFalse => rfl
    simp only [Woken, Board.setActivity, Board.setHandle, Board.setAwake, hsame,
      Function.update_of_ne hother]

variable [Fintype τ]

/-- Every counted waiter is a task that waits or was woken. -/
theorem waiters_le (hacc : Accounts board pc owner carrier) :
    (word board).waiters ≤ crowd pc := by
  have hsubset : (carrier.waiters ++ (inbox board ++ queue board)).toFinset ⊆
      Finset.univ.filter fun waiter => (pc waiter).counted := by
    intro waiter hmem
    refine Finset.mem_filter.mpr ⟨Finset.mem_univ _, Bool.or_eq_true_iff.mpr ?_⟩
    rw [List.mem_toFinset, List.mem_append, List.mem_append] at hmem
    rcases hmem with hcarried | hinbox | hqueue
    · cases carrier with
      | woken other =>
          obtain rfl : waiter = other := List.mem_singleton.mp hcarried
          exact ((hacc.woken waiter).mpr rfl).symm.imp_left And.left
      | _ => cases hcarried
    · exact Or.inl (waits_of_listed hco (Or.inl (Or.inl ⟨(), hinbox⟩)))
    · exact Or.inl (waits_of_listed hco (Or.inl (Or.inr ⟨(), 0, hqueue⟩)))
  rw [waiters_eq hacc, ← List.toFinset_card_of_nodup (nodup hco hacc)]
  exact Finset.card_le_card hsubset

end Coherent

end Accounts

end FastMutex

end AsyncMutex
