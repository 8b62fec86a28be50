import AsyncMutex.MpscLayout

/-!
# The invariant of the channel

At any time at most one task receives.  Its point and the slots agree, a sender
that waits has lost its message exactly if it was woken or is just being woken,
and whoever fills the slot for which the receiver waits comes upon its waker.
-/

namespace AsyncMutex

namespace Mpsc

variable {τ V ω : Type}

abbrev ChannelBoard (τ : Type) := Board τ Unit (Fin 1) SendState

/-- Only one task receives at a time. -/
def usage [DecidableEq τ] [Fintype τ] : Usage τ (Point τ V ω) where
  within pc := decide (∀ task other, (pc task).receives = true →
    (pc other).receives = true → task = other)

/-- Neither the slots nor the waiter in hand are at stake. -/
def Point.apart : Point τ V ω → Bool
  | .write _ => false
  | .fill _ => false
  | .receive _ _ _ => false
  | _ => true

def ReceiveInv (cap : ℕ) (board : ChannelBoard τ) (task : τ) : Receive τ → Prop
  | .load waiter => board.handle task = some waiter ∧ (board.atom ()).size = cap
  | .advance waiter _ => board.handle task = some waiter ∧ (board.atom ()).size = cap
  | .loadEmpty => board.store.queues () 0 = []
  | .enqueue _ => board.store.queues () 0 = []
  | .backfill waiter => board.handle task = some waiter
  | _ => True

def PointInv (cap : ℕ) (board : ChannelBoard τ) (inner : Inner τ V ω) (task : τ) :
    Point τ V ω → Prop
  | .waiter => inner.message task ≠ none
  | .sendLoad => inner.message task ≠ none
  | .reserve current => inner.message task ≠ none ∧ current.atom.size < cap
  | .wait current => inner.message task ≠ none ∧ cap ≤ current.atom.size
  | .cancelWoken => inner.message task = none
  | .register waker => ∀ last, inner.lastWaker = some last → last = waker
  | .unregister => (inner.buckets inner.recvHead).filled = true
  | .take => (inner.buckets inner.recvHead).filled = true
  | .receive point _ _ => ReceiveInv cap board task point
  | _ => True

/-- `recv` wakes the waiter in its hand. -/
def Handing (board : ChannelBoard τ) (receiver : τ) (point : Point τ V ω) (task : τ) : Prop :=
  (∃ head result, point = .receive .wake head result) ∧ board.handle receiver = some task

def queued (board : ChannelBoard τ) : Bool :=
  !(board.store.queues () 0).isEmpty

structure Core (cap : ℕ) (receiver : τ) (ledger : Ledger τ V) (board : ChannelBoard τ)
    (inner : Inner τ V ω) (pc : τ → Point τ V ω) : Prop where
  receives : ∀ task, (pc task).receives = true → task = receiver
  layout : Layout cap (board.atom ()) inner pc
    ((pc receiver).transit (queued board)) ledger
  head : ∀ point head result, pc receiver = .receive point head result →
    head = Ring.slot cap ledger.base (cap - 1)
  full : board.store.inbox () ≠ [] ∨ board.store.queues () 0 ≠ [] →
    (board.atom ()).size = cap
  points : ∀ task, PointInv cap board inner task (pc task)
  cell : ∀ task, (pc task).pends = true →
    (inner.message task = none ↔
      board.awake task = true ∨ Handing board receiver (pc receiver) task)
  /-- Whoever filled the slot for which the receiver waits has still to look for
  its waker. -/
  signal : pc receiver = .blocked → inner.recvState ≠ none →
    (inner.buckets inner.recvHead).filled = true → ∃ task, pc task = .swap
  last : pc receiver = .recheck ∨ pc receiver = .blocked → ∀ waker,
    inner.lastWaker = some waker →
      inner.recvState = some waker ∨ ∃ task, pc task = .wakeRecv waker

/-- A program point sees only part of the board and of the memory. -/
theorem PointInv.mono {cap : ℕ} {board board' : ChannelBoard τ} {inner inner' : Inner τ V ω}
    {task : τ} {point : Point τ V ω} (hpoint : PointInv cap board inner task point)
    (hmessage : point.pends = false → inner'.message task = inner.message task)
    (hhead : point.receives = true → inner'.recvHead = inner.recvHead)
    (hfilled : point.receives = true → ∀ index, (inner.buckets index).filled = true →
      (inner'.buckets index).filled = true)
    (hlast : point.receives = true → ∀ waker, inner'.lastWaker = some waker →
      inner.lastWaker = some waker)
    (hhandle : point.receives = true → board'.handle task = board.handle task)
    (hsize : point.receives = true → (board.atom ()).size = cap →
      (board'.atom ()).size = cap)
    (hqueue : () ∈ (holds point).reads →
      board'.store.queues () 0 = board.store.queues () 0) :
    PointInv cap board' inner' task point := by
  cases point with
  | receive point head result =>
      cases point with
      | load waiter => exact ⟨(hhandle rfl).trans hpoint.1, hsize rfl hpoint.2⟩
      | advance waiter current => exact ⟨(hhandle rfl).trans hpoint.1, hsize rfl hpoint.2⟩
      | loadEmpty => exact (hqueue (by simp [holds, receiveHolds])).trans hpoint
      | enqueue current => exact (hqueue (by simp [holds, receiveHolds])).trans hpoint
      | backfill waiter => exact (hhandle rfl).trans hpoint
      | _ => trivial
  | waiter => exact fun hnone => hpoint (by rw [← hmessage rfl, hnone])
  | sendLoad => exact fun hnone => hpoint (by rw [← hmessage rfl, hnone])
  | reserve current =>
      exact ⟨fun hnone => hpoint.1 (by rw [← hmessage rfl, hnone]), hpoint.2⟩
  | wait current =>
      exact ⟨fun hnone => hpoint.1 (by rw [← hmessage rfl, hnone]), hpoint.2⟩
  | cancelWoken => exact (hmessage rfl).trans hpoint
  | register waker => exact fun last hsome => hpoint last (hlast rfl last hsome)
  | unregister =>
      have hbefore : (inner.buckets inner.recvHead).filled = true := hpoint
      have hafter := hfilled rfl _ hbefore
      rwa [← hhead rfl] at hafter
  | take =>
      have hbefore : (inner.buckets inner.recvHead).filled = true := hpoint
      have hafter := hfilled rfl _ hbefore
      rwa [← hhead rfl] at hafter
  | _ => trivial

variable [DecidableEq τ] {cap : ℕ} {receiver : τ} {ledger ledger' : Ledger τ V}
  {board board' : ChannelBoard τ} {inner inner' : Inner τ V ω} {pc : τ → Point τ V ω}
  {task : τ} {point : Point τ V ω}

/-- A task that does not receive stays apart from the receiver. -/
theorem receiver_same (hbefore : (pc task).receives = false) (hafter : point.receives = false)
    (receiver : τ) (other : Point τ V ω) (hother : other.receives = true) :
    Function.update pc task point receiver = other ↔ pc receiver = other := by
  by_cases hsame : receiver = task
  · subst hsame
    rw [Function.update_self]
    constructor
    · rintro rfl
      rw [hafter] at hother
      cases hother
    · rintro rfl
      rw [hbefore] at hother
      cases hother
  · rw [Function.update_of_ne hsame]

omit [DecidableEq τ] in
theorem transit_of_not_receives (hpoint : point.receives = false) (queued : Bool) :
    point.transit queued = .none := by
  cases point <;> first | rfl | cases hpoint

theorem transit_same (hbefore : (pc task).receives = false) (hafter : point.receives = false)
    (receiver : τ) (queued : Bool) :
    (Function.update pc task point receiver).transit queued =
      (pc receiver).transit queued := by
  by_cases hsame : receiver = task
  · subst hsame
    rw [Function.update_self, transit_of_not_receives hafter,
      transit_of_not_receives hbefore]
  · rw [Function.update_of_ne hsame]

theorem handing_same (hbefore : (pc task).receives = false) (hafter : point.receives = false)
    (hhandle : board'.handle = board.handle) (receiver other : τ) :
    Handing board' receiver (Function.update pc task point receiver) other ↔
      Handing board receiver (pc receiver) other := by
  unfold Handing
  rw [hhandle]
  simp only [receiver_same hbefore hafter receiver (.receive .wake _ _) rfl]

/-- Another task stays where it is. -/
theorem exists_update {other : Point τ V ω} (hexists : ∃ task, pc task = other)
    (hne : pc task ≠ other) : ∃ task', Function.update pc task point task' = other := by
  obtain ⟨task', htask⟩ := hexists
  refine ⟨task', ?_⟩
  have hother : task' ≠ task := by
    rintro rfl
    exact hne htask
  rw [Function.update_of_ne hother, htask]

namespace Core

/-- A step of a sender. -/
theorem send (hcore : Core cap receiver ledger board inner pc)
    (hbefore : (pc task).receives = false) (hafter : point.receives = false)
    (hlayout : Layout cap (board'.atom ()) inner' (Function.update pc task point)
      ((pc receiver).transit (queued board)) ledger')
    (hbase : ledger'.base = ledger.base)
    (hqueues : board'.store.queues () 0 = board.store.queues () 0)
    (hfull : board'.store.inbox () ≠ [] → board.store.inbox () ≠ [] ∨
      (board'.atom ()).size = cap)
    (hsize : (board.atom ()).size = cap → (board'.atom ()).size = cap)
    (hhandle : board'.handle = board.handle)
    (hawake : ∀ other, other ≠ task → board'.awake other = board.awake other)
    (hmessage : ∀ other, other ≠ task → inner'.message other = inner.message other)
    (hhead : inner'.recvHead = inner.recvHead)
    (hfilled : ∀ index, (inner.buckets index).filled = true →
      (inner'.buckets index).filled = true)
    (hlast : ∀ waker, inner'.lastWaker = some waker → inner.lastWaker = some waker)
    (hpoint : PointInv cap board' inner' task point)
    (hcell : point.pends = true → (inner'.message task = none ↔
      board'.awake task = true ∨ Handing board receiver (pc receiver) task))
    (hsignal : pc receiver = .blocked → inner'.recvState ≠ none →
      (inner'.buckets inner.recvHead).filled = true →
        ∃ other, Function.update pc task point other = .swap)
    (hwaker : pc receiver = .recheck ∨ pc receiver = .blocked → ∀ waker,
      inner'.lastWaker = some waker → inner'.recvState = some waker ∨
        ∃ other, Function.update pc task point other = .wakeRecv waker) :
    Core cap receiver ledger' board' inner' (Function.update pc task point) := by
  have hsame := receiver_same hbefore hafter receiver
  have hqueued : queued board' = queued board := by
    unfold queued
    rw [hqueues]
  constructor
  case receives =>
    refine (Function.forall_update_iff pc fun other point =>
      point.receives = true → other = receiver).mpr ⟨?_, fun other _ => hcore.receives other⟩
    rw [hafter]
    intro h
    cases h
  case layout =>
    rw [transit_same hbefore hafter, hqueued]
    exact hlayout
  case head =>
    intro receive head result hreceive
    rw [hsame _ rfl] at hreceive
    rw [hbase]
    exact hcore.head receive head result hreceive
  case full =>
    intro hwaits
    rw [hqueues] at hwaits
    rcases hwaits with hinbox | hqueue
    · exact (hfull hinbox).elim (fun hold => hsize (hcore.full (Or.inl hold))) id
    · exact hsize (hcore.full (Or.inr hqueue))
  case points =>
    refine (Function.forall_update_iff pc fun other point =>
      PointInv cap board' inner' other point).mpr ⟨hpoint, fun other hother => ?_⟩
    exact (hcore.points other).mono (fun _ => hmessage other hother) (fun _ => hhead)
      (fun _ => hfilled) (fun _ => hlast) (fun _ => by rw [hhandle]) (fun _ => hsize)
      fun _ => hqueues
  case cell =>
    intro other hpends
    rw [handing_same hbefore hafter hhandle]
    by_cases hother : other = task
    · subst hother
      rw [Function.update_self] at hpends
      exact hcell hpends
    · rw [Function.update_of_ne hother] at hpends
      rw [hmessage other hother, hawake other hother]
      exact hcore.cell other hpends
  case signal =>
    intro hblocked hstate hfill
    rw [hsame _ rfl] at hblocked
    rw [hhead] at hfill
    exact hsignal hblocked hstate hfill
  case last =>
    intro hwaits
    rw [hsame _ rfl, hsame _ rfl] at hwaits
    exact hwaker hwaits

/-- A sender goes on, and only its own message changes. -/
theorem sendOn (hcore : Core cap receiver ledger board inner pc) {message : Option V}
    (hbefore : (pc task).receives = false) (hafter : point.receives = false)
    (hwrites : (pc task).writes = none) (hwrites' : point.writes = none)
    (hswap : pc task ≠ .swap) (hwake : ∀ waker, pc task ≠ .wakeRecv waker)
    (hatom : board'.atom = board.atom) (hinbox : board'.store.inbox = board.store.inbox)
    (hqueues : board'.store.queues = board.store.queues)
    (hhandle : board'.handle = board.handle)
    (hawake : ∀ other, other ≠ task → board'.awake other = board.awake other)
    (hpoint : PointInv cap board' (inner.setMessage task message) task point)
    (hcell : point.pends = true → (message = none ↔
      board'.awake task = true ∨ Handing board receiver (pc receiver) task)) :
    Core cap receiver ledger board' (inner.setMessage task message)
      (Function.update pc task point) := by
  have hmessage (other : τ) (hother : other ≠ task) :
      (inner.setMessage task message).message other = inner.message other :=
    Function.update_of_ne hother _ _
  refine hcore.send hbefore hafter ?_ rfl (by rw [hqueues]) ?_ ?_ hhandle hawake hmessage rfl
    (fun _ => id) (fun _ => id) hpoint ?_ ?_ ?_
  · rw [hatom]
    refine hcore.layout.goOn rfl rfl (fun other selected written hother => ?_) hwrites hwrites'
    apply hmessage
    rintro rfl
    rw [hwrites] at hother
    cases hother
  · rw [hinbox]
    exact Or.inl
  · rw [hatom]
    exact id
  · intro hpends
    rw [← hcell hpends]
    simp [Inner.setMessage]
  · intro hblocked hstate hfill
    exact exists_update (hcore.signal hblocked hstate hfill) hswap
  · intro hwaits waker hwaker
    exact (hcore.last hwaits waker hwaker).imp_right fun hexists =>
      exists_update hexists (hwake waker)

/-- A sender goes on, and no message changes. -/
theorem sendSame (hcore : Core cap receiver ledger board inner pc)
    (hbefore : (pc task).receives = false) (hafter : point.receives = false)
    (hwrites : (pc task).writes = none) (hwrites' : point.writes = none)
    (hswap : pc task ≠ .swap) (hwake : ∀ waker, pc task ≠ .wakeRecv waker)
    (hatom : board'.atom = board.atom) (hinbox : board'.store.inbox = board.store.inbox)
    (hqueues : board'.store.queues = board.store.queues)
    (hhandle : board'.handle = board.handle)
    (hawake : ∀ other, other ≠ task → board'.awake other = board.awake other)
    (hpoint : PointInv cap board' inner task point)
    (hcell : point.pends = true → (inner.message task = none ↔
      board'.awake task = true ∨ Handing board receiver (pc receiver) task)) :
    Core cap receiver ledger board' inner (Function.update pc task point) := by
  have hself : inner.setMessage task (inner.message task) = inner := by
    simp [Inner.setMessage]
  have hkeep : Core cap receiver ledger board' (inner.setMessage task (inner.message task))
      (Function.update pc task point) :=
    hcore.sendOn hbefore hafter hwrites hwrites' hswap hwake hatom hinbox hqueues hhandle
      hawake (by rwa [hself]) hcell
  rwa [hself] at hkeep

/-- A step of the receiver. -/
theorem receive (hcore : Core cap receiver ledger board inner pc)
    (hlayout : Layout cap (board'.atom ()) inner' (Function.update pc receiver point)
      (point.transit (queued board')) ledger')
    (hhead : ∀ receive head result, point = .receive receive head result →
      head = Ring.slot cap ledger'.base (cap - 1))
    (hfull : board'.store.inbox () ≠ [] ∨ board'.store.queues () 0 ≠ [] →
      (board'.atom ()).size = cap)
    (hmessage : ∀ other, (pc other).pends = false →
      inner'.message other = inner.message other)
    (hpends : point.pends = false) (hpoint : PointInv cap board' inner' receiver point)
    (hcell : ∀ other, (pc other).pends = true → (inner'.message other = none ↔
      board'.awake other = true ∨ Handing board' receiver point other))
    (hsignal : point = .blocked → inner'.recvState ≠ none →
      (inner'.buckets inner'.recvHead).filled = true →
        ∃ other, Function.update pc receiver point other = .swap)
    (hlast : point = .recheck ∨ point = .blocked → ∀ waker,
      inner'.lastWaker = some waker → inner'.recvState = some waker ∨
        ∃ other, Function.update pc receiver point other = .wakeRecv waker) :
    Core cap receiver ledger' board' inner' (Function.update pc receiver point) := by
  have hself : Function.update pc receiver point receiver = point :=
    Function.update_self _ _ _
  constructor
  case receives =>
    exact (Function.forall_update_iff pc fun other point =>
      point.receives = true → other = receiver).mpr
        ⟨fun _ => rfl, fun other _ => hcore.receives other⟩
  case layout =>
    rw [hself]
    exact hlayout
  case head =>
    rw [hself]
    exact hhead
  case full => exact hfull
  case points =>
    refine (Function.forall_update_iff pc fun other point =>
      PointInv cap board' inner' other point).mpr ⟨hpoint, fun other hother => ?_⟩
    have hnot (hreceives : (pc other).receives = true) : False :=
      hother (hcore.receives other hreceives)
    have hreads : () ∈ (holds (pc other)).reads → False := by
      cases hpc : pc other with
      | receive point head result => exact fun _ => hnot (by rw [hpc]; rfl)
      | _ => simp [holds]
    exact (hcore.points other).mono (hmessage other) (fun h => (hnot h).elim)
      (fun h => (hnot h).elim) (fun h => (hnot h).elim) (fun h => (hnot h).elim)
      (fun h => (hnot h).elim) fun h => (hreads h).elim
  case cell =>
    rw [hself]
    refine (Function.forall_update_iff pc fun other point' => point'.pends = true →
      (inner'.message other = none ↔
        board'.awake other = true ∨ Handing board' receiver point other)).mpr
          ⟨?_, fun other _ => hcell other⟩
    rw [hpends]
    intro h
    cases h
  case signal =>
    rw [hself]
    exact hsignal
  case last =>
    rw [hself]
    exact hlast

/-- The receiver goes on with the slot in its hand. -/
theorem receiveOn (hcore : Core cap receiver ledger board inner pc) {before after : Receive τ}
    {head : ℕ} {result : V} (hpc : pc receiver = .receive before head result)
    (hwake : before = .wake → board.handle receiver = none) (hafter : after ≠ .wake)
    (htransit : after.transit (queued board') = before.transit (queued board))
    (hatom : board'.atom = board.atom)
    (hlines : board'.store.inbox () ≠ [] ∨ board'.store.queues () 0 ≠ [] →
      board.store.inbox () ≠ [] ∨ board.store.queues () 0 ≠ [])
    (hawake : board'.awake = board.awake) (hpoint : ReceiveInv cap board' receiver after) :
    Core cap receiver ledger board' inner
      (Function.update pc receiver (.receive after head result)) := by
  refine hcore.receive ?_ ?_ ?_ (fun _ _ => rfl) rfl hpoint ?_ (fun h => by cases h) (by simp)
  · have hlayout := hcore.layout
    rw [hpc] at hlayout
    rw [hatom, Point.transit, htransit]
    exact hlayout.goOn rfl rfl (fun _ _ _ _ => rfl) (by rw [hpc]; rfl) rfl
  · intro receive head' result' heq
    cases heq
    exact hcore.head before head result hpc
  · rw [hatom]
    exact fun hwaits => hcore.full (hlines hwaits)
  · intro other hpends
    rw [hcore.cell other hpends, hawake, hpc]
    refine or_congr_right (iff_of_false ?_ ?_)
    · rintro ⟨⟨head', result', heq⟩, hhandle⟩
      cases heq
      rw [hwake rfl] at hhandle
      cases hhandle
    · rintro ⟨⟨head', result', heq⟩, -⟩
      cases heq
      exact hafter rfl

/-- The receiver goes on with no slot in its hand. -/
theorem turn (hcore : Core cap receiver ledger board inner pc)
    (htransit : ∀ queued, (pc receiver).transit queued = .none)
    (hwrites : (pc receiver).writes = none) (hwrites' : point.writes = none)
    (hhanding : ∀ other, ¬ Handing board receiver (pc receiver) other)
    (hpends : point.pends = false)
    (hafter : ∀ receive head result, point ≠ .receive receive head result)
    (hatom : board'.atom = board.atom) (hinbox : board'.store.inbox = board.store.inbox)
    (hqueues : board'.store.queues = board.store.queues)
    (hawake : board'.awake = board.awake) (hbuckets : inner'.buckets = inner.buckets)
    (hhead : inner'.recvHead = inner.recvHead) (hmessage : inner'.message = inner.message)
    (hpoint : PointInv cap board' inner' receiver point)
    (hsignal : point = .blocked → inner'.recvState ≠ none →
      (inner'.buckets inner'.recvHead).filled = true →
        ∃ other, Function.update pc receiver point other = .swap)
    (hlast : point = .recheck ∨ point = .blocked → ∀ waker,
      inner'.lastWaker = some waker → inner'.recvState = some waker ∨
        ∃ other, Function.update pc receiver point other = .wakeRecv waker) :
    Core cap receiver ledger board' inner' (Function.update pc receiver point) := by
  have hnone (queued : Bool) : point.transit queued = .none := by
    cases point with
    | receive receive head result => exact absurd rfl (hafter _ _ _)
    | _ => rfl
  refine hcore.receive ?_ (fun _ _ _ heq => absurd heq (hafter _ _ _)) ?_
    (fun other _ => by rw [hmessage]) hpends hpoint ?_ hsignal hlast
  · have hlayout := hcore.layout
    rw [htransit] at hlayout
    rw [hatom, hnone]
    exact hlayout.goOn hbuckets hhead (fun _ _ _ _ => by rw [hmessage]) hwrites hwrites'
  · rw [hatom, hinbox, hqueues]
    exact hcore.full
  · intro other hother
    rw [hmessage, hawake, hcore.cell other hother]
    refine or_congr_right (iff_of_false (hhanding other) ?_)
    rintro ⟨⟨head', result', heq⟩, -⟩
    exact hafter _ _ _ heq

/-- The receiver goes on outside the slots. -/
theorem turnApart (hcore : Core cap receiver ledger board inner pc)
    (hbefore : (pc receiver).apart = true) (hafter : point.apart = true)
    (hpends : point.pends = false)
    (hnot : ∀ receive head result, point ≠ .receive receive head result)
    (hbuckets : inner'.buckets = inner.buckets) (hhead : inner'.recvHead = inner.recvHead)
    (hmessage : inner'.message = inner.message)
    (hpoint : PointInv cap board inner' receiver point)
    (hsignal : point = .blocked → inner'.recvState ≠ none →
      (inner'.buckets inner'.recvHead).filled = true →
        ∃ other, Function.update pc receiver point other = .swap)
    (hlast : point = .recheck ∨ point = .blocked → ∀ waker,
      inner'.lastWaker = some waker → inner'.recvState = some waker ∨
        ∃ other, Function.update pc receiver point other = .wakeRecv waker) :
    Core cap receiver ledger board inner' (Function.update pc receiver point) := by
  have hapart {other : Point τ V ω} (hother : other.apart = true) :
      (∀ queued, other.transit queued = .none) ∧ other.writes = none := by
    cases other <;> first | exact ⟨fun _ => rfl, rfl⟩ | cases hother
  refine hcore.turn (hapart hbefore).1 (hapart hbefore).2 (hapart hafter).2 ?_ hpends hnot
    rfl rfl rfl rfl hbuckets hhead hmessage hpoint hsignal hlast
  rintro other ⟨⟨head, result, hpc⟩, -⟩
  rw [hpc] at hbefore
  cases hbefore

/-! ## The steps of `send` -/

theorem reserve (hcore : Core cap receiver ledger board inner pc)
    (hpc : pc task = .reserve (board.word ())) :
    ∃ value, inner.message task = some value ∧
      Core cap receiver { ledger with line := ledger.line ++ [.writing task value] }
        (board.setAtom () (reserved cap (board.atom ()))) inner
        (Function.update pc task (.write (board.atom ()).writeHead)) := by
  have hpoint := hcore.points task
  rw [hpc] at hpoint
  obtain ⟨hmessage, hroom⟩ := hpoint
  obtain ⟨value, hvalue⟩ := Option.ne_none_iff_exists'.mp hmessage
  have hroom' : (board.atom ()).size < cap := hroom
  have hfull : (board.atom ()).size ≠ cap := Nat.ne_of_lt hroom'
  have hatom : (board.setAtom () (reserved cap (board.atom ()))).atom () =
      reserved cap (board.atom ()) := by
    simp [Board.setAtom]
  refine ⟨value, hvalue, hcore.send (by rw [hpc]; rfl) rfl ?_ rfl rfl Or.inl
    (fun hsize => absurd hsize hfull) rfl (fun _ _ => rfl) (fun _ _ => rfl) rfl
    (fun _ => id) (fun _ => id) trivial (fun h => by cases h) ?_ ?_⟩
  · rw [hatom]
    exact hcore.layout.reserve hroom' hvalue (by rw [hpc]; rfl)
  · intro hblocked hstate hfill
    exact exists_update (hcore.signal hblocked hstate hfill) (by simp [hpc])
  · intro hwaits waker hwaker
    exact (hcore.last hwaits waker hwaker).imp_right fun hexists =>
      exists_update hexists (by simp [hpc])

/-- A sender goes to sleep only while all slots are in use. -/
theorem wait (hcore : Core cap receiver ledger board inner pc)
    (hpc : pc task = .wait (board.word ())) (hasleep : board.awake task = false)
    (hhand : board.handle receiver ≠ some task) :
    Core cap receiver ledger
      (((board.setAtom () (board.atom ())).setStore
        (FutexStore.push board.store () task)).setStage task .entered) inner
      (Function.update pc task .entered) := by
  have hpoint := hcore.points task
  rw [hpc] at hpoint
  obtain ⟨hmessage, hroom⟩ := hpoint
  have hatom : (((board.setAtom () (board.atom ())).setStore
      (FutexStore.push board.store () task)).setStage task .entered).atom () =
        board.atom () := by
    simp [Board.setAtom, Board.setStore, Board.setStage]
  have hfull : (board.atom ()).size = cap := Nat.le_antisymm hcore.layout.size_le hroom
  refine hcore.send (by rw [hpc]; rfl) rfl ?_ rfl rfl ?_ ?_ rfl (fun _ _ => rfl)
    (fun _ _ => rfl) rfl (fun _ => id) (fun _ => id) trivial ?_ ?_ ?_
  · rw [hatom]
    exact hcore.layout.goOn rfl rfl (fun _ _ _ _ => rfl) (by rw [hpc]; rfl) rfl
  · rw [hatom]
    exact fun _ => Or.inr hfull
  · rw [hatom]
    exact id
  · intro _
    refine iff_of_false hmessage ?_
    rintro (hawake | ⟨-, hhandle⟩)
    · have hawake' : board.awake task = true := hawake
      rw [hasleep] at hawake'
      cases hawake'
    · exact hhand hhandle
  · intro hblocked hstate hfill
    exact exists_update (hcore.signal hblocked hstate hfill) (by simp [hpc])
  · intro hwaits waker hwaker
    exact (hcore.last hwaits waker hwaker).imp_right fun hexists =>
      exists_update hexists (by simp [hpc])

theorem write (hcore : Core cap receiver ledger board inner pc) {selected : ℕ}
    (hpc : pc task = .write selected) :
    ∃ value, inner.message task = some value ∧
      Core cap receiver ledger board
        ((inner.setMessage task none).setData selected (some value))
        (Function.update pc task (.fill selected)) := by
  obtain ⟨value, hvalue, hlayout⟩ := hcore.layout.write hpc
  have hfilled (index : ℕ) :
      (((inner.setMessage task none).setData selected (some value)).buckets index).filled =
        (inner.buckets index).filled := by
    by_cases hindex : index = selected
    · subst hindex
      simp [Inner.setData, Inner.setMessage]
    · simp [Inner.setData, Inner.setMessage, hindex]
  refine ⟨value, hvalue, hcore.send (by rw [hpc]; rfl) rfl hlayout rfl rfl Or.inl id rfl
    (fun _ _ => rfl) (fun other hother => Function.update_of_ne hother _ _) rfl
    (fun index hindex => by rw [hfilled, hindex]) (fun _ => id) trivial (fun h => by cases h) ?_ ?_⟩
  · intro hblocked hstate hfill
    rw [hfilled] at hfill
    exact exists_update (hcore.signal hblocked hstate hfill) (by simp [hpc])
  · intro hwaits waker hwaker
    exact (hcore.last hwaits waker hwaker).imp_right fun hexists =>
      exists_update hexists (by simp [hpc])

theorem fill (hcore : Core cap receiver ledger board inner pc) {selected : ℕ}
    (hpc : pc task = .fill selected) :
    ∃ offset value, ledger.line[offset]? = some (.writing task value) ∧
      Core cap receiver { ledger with line := ledger.line.set offset (.stored value) } board
        (inner.setFilled selected true) (Function.update pc task .swap) := by
  obtain ⟨offset, value, hentry, hlayout⟩ := hcore.layout.fill hpc
  refine ⟨offset, value, hentry, hcore.send (by rw [hpc]; rfl) rfl hlayout rfl rfl Or.inl id
    rfl (fun _ _ => rfl) (fun _ _ => rfl) rfl (fun index hindex => ?_) (fun _ => id) trivial
    (fun h => by cases h) (fun _ _ _ => ⟨task, Function.update_self _ _ _⟩) ?_⟩
  · by_cases hselected : index = selected
    · subst hselected
      simp [Inner.setFilled]
    · simpa [Inner.setFilled, hselected] using hindex
  · intro hwaits waker hwaker
    exact (hcore.last hwaits waker hwaker).imp_right fun hexists =>
      exists_update hexists (by simp [hpc])

/-- The sender finds no waker. -/
theorem swapDirty (hcore : Core cap receiver ledger board inner pc) (hpc : pc task = .swap)
    (hstate : inner.recvState = none) :
    Core cap receiver ledger board inner (Function.update pc task (.ended .sent)) := by
  refine hcore.send (by rw [hpc]; rfl) rfl ?_ rfl rfl Or.inl id rfl (fun _ _ => rfl)
    (fun _ _ => rfl) rfl (fun _ => id) (fun _ => id) trivial (fun h => by cases h)
    (fun _ hsome => absurd hstate hsome) ?_
  · exact hcore.layout.goOn rfl rfl (fun _ _ _ _ => rfl) (by rw [hpc]; rfl) rfl
  · intro hwaits waker hwaker
    exact (hcore.last hwaits waker hwaker).imp_right fun hexists =>
      exists_update hexists (by simp [hpc])

/-- The sender takes the waker of the receiver. -/
theorem swapWaiting (hcore : Core cap receiver ledger board inner pc) (hpc : pc task = .swap)
    {waker : ω} (hstate : inner.recvState = some waker) :
    Core cap receiver ledger board { inner with recvState := none }
      (Function.update pc task (.wakeRecv waker)) := by
  refine hcore.send (by rw [hpc]; rfl) rfl ?_ rfl rfl Or.inl id rfl (fun _ _ => rfl)
    (fun _ _ => rfl) rfl (fun _ => id) (fun _ => id) trivial (fun h => by cases h)
    (fun _ hsome => absurd rfl hsome) ?_
  · exact hcore.layout.goOn rfl rfl (fun _ _ _ _ => rfl) (by rw [hpc]; rfl) rfl
  · intro hwaits waker' hwaker
    refine Or.inr ?_
    rcases hcore.last hwaits waker' hwaker with hsame | hexists
    · rw [hstate] at hsame
      cases hsame
      exact ⟨task, Function.update_self _ _ _⟩
    · exact exists_update hexists (by simp [hpc])

theorem wakeRecv [DecidableEq ω] (hcore : Core cap receiver ledger board inner pc) {waker : ω}
    (hpc : pc task = .wakeRecv waker) :
    Core cap receiver ledger board
      { inner with
        lastWaker := if inner.lastWaker = some waker then none else inner.lastWaker }
      (Function.update pc task (.ended .sent)) := by
  have hlast (waker' : ω)
      (hsome : (if inner.lastWaker = some waker then none else inner.lastWaker) =
        some waker') : inner.lastWaker = some waker' ∧ waker ≠ waker' := by
    split at hsome
    case isTrue => cases hsome
    case isFalse hne => exact ⟨hsome, fun heq => hne (heq ▸ hsome)⟩
  refine hcore.send (by rw [hpc]; rfl) rfl ?_ rfl rfl Or.inl id rfl (fun _ _ => rfl)
    (fun _ _ => rfl) rfl (fun _ => id) (fun waker' hsome => (hlast waker' hsome).1) trivial
    (fun h => by cases h) ?_ ?_
  · exact hcore.layout.goOn rfl rfl (fun _ _ _ _ => rfl) (by rw [hpc]; rfl) rfl
  · intro hblocked hstate hfill
    exact exists_update (hcore.signal hblocked hstate hfill) (by simp [hpc])
  · intro hwaits waker' hsome
    obtain ⟨hsome, hne⟩ := hlast waker' hsome
    refine (hcore.last hwaits waker' hsome).imp_right fun hexists =>
      exists_update hexists ?_
    rw [hpc]
    rintro heq
    cases heq
    exact hne rfl

/-! ## The steps of `recv` -/

theorem take (hcore : Core cap receiver ledger board inner pc) (hcap : 0 < cap)
    (hpc : pc receiver = .take) :
    ∃ value rest, ledger.line = .stored value :: rest ∧
      (inner.buckets inner.recvHead).data = some value ∧
      Core cap receiver ⟨ledger.base + 1, rest⟩ board
        { (inner.setFilled inner.recvHead false).setData inner.recvHead none with
          recvHead := (inner.recvHead + 1) % cap }
        (Function.update pc receiver (.receive .lock inner.recvHead value)) := by
  have hlayout := hcore.layout
  rw [hpc] at hlayout
  have hfilled : (inner.buckets inner.recvHead).filled = true := by
    have hpoint := hcore.points receiver
    rw [hpc] at hpoint
    exact hpoint
  have hlock (value : V) :
      (.receive .lock inner.recvHead value : Point τ V ω).writes = none := rfl
  have hidle : (.idle : Point τ V ω).writes = none := rfl
  obtain ⟨value, rest, hline, hdata, -⟩ := hlayout.take hcap hfilled (by rw [hpc]; rfl) hidle
  obtain ⟨value', rest', hline', hdata', htaken⟩ := hlayout.take hcap hfilled
    (by rw [hpc]; rfl) (hlock value)
  rw [hline] at hline'
  cases hline'
  refine ⟨value, rest, hline, hdata, hcore.receive htaken ?_ hcore.full (fun _ _ => rfl) rfl
    trivial ?_ (fun h => by cases h) (by simp)⟩
  · intro receive head result heq
    cases heq
    rw [hlayout.recvHead, Ring.slot_succ, Nat.sub_add_cancel hcap, Ring.slot_cap]
  · intro other hpends
    have hbefore := hcore.cell other hpends
    rw [hpc] at hbefore
    refine hbefore.trans (or_congr_right (iff_of_false ?_ ?_))
    · rintro ⟨⟨head', result', heq⟩, -⟩
      cases heq
    · rintro ⟨⟨head', result', heq⟩, -⟩
      cases heq

/-- The slot goes to the waiter in hand. -/
theorem advance (hcore : Core cap receiver ledger board inner pc) {waiter : τ} {head : ℕ}
    {result : V} (hpc : pc receiver = .receive (.advance waiter (board.word ())) head result) :
    Core cap receiver ledger (board.setAtom () (advanced cap (board.atom ()))) inner
      (Function.update pc receiver (.receive (.backfill waiter) head result)) := by
  have hpoint := hcore.points receiver
  have hlayout := hcore.layout
  rw [hpc] at hpoint hlayout
  obtain ⟨hhandle, hsize⟩ := hpoint
  have hatom : (board.setAtom () (advanced cap (board.atom ()))).atom () =
      advanced cap (board.atom ()) := by
    simp [Board.setAtom]
  refine hcore.receive ?_ ?_ ?_ (fun _ _ => rfl) rfl hhandle ?_ (fun h => by cases h) (by simp)
  · rw [hatom]
    exact (hlayout.grant hsize).goOn rfl rfl (fun _ _ _ _ => rfl) (by rw [hpc]; rfl) rfl
  · intro receive head' result' heq
    cases heq
    exact hcore.head _ _ _ hpc
  · rw [hatom]
    exact fun _ => hsize
  · intro other hpends
    have hbefore := hcore.cell other hpends
    rw [hpc] at hbefore
    refine hbefore.trans (or_congr_right (iff_of_false ?_ ?_))
    · rintro ⟨⟨head', result', heq⟩, -⟩
      cases heq
    · rintro ⟨⟨head', result', heq⟩, -⟩
      cases heq

/-- The inbox goes to the queue, and the slot to its first waiter, if any. -/
theorem enqueue (hcore : Core cap receiver ledger board inner pc) {head : ℕ} {result : V}
    (hpc : pc receiver = .receive (.enqueue (board.word ())) head result) :
    Core cap receiver ledger
      ((board.flip ()).setAtom () (enqueued cap (board.word ()))) inner
      (Function.update pc receiver (.receive .popAgain head result)) := by
  have hempty : board.store.queues () 0 = [] := by
    have hpoint := hcore.points receiver
    rw [hpc] at hpoint
    exact hpoint
  have hlayout := hcore.layout
  rw [hpc] at hlayout
  have hqueue : ((board.flip ()).setAtom () (enqueued cap (board.word ()))).store.queues () 0 =
      (board.store.inbox ()).reverse := by
    have hzero (waiter : τ) : board.store.queue waiter = 0 := Subsingleton.elim _ _
    simp [Board.setAtom, Board.flip, Board.setStore, ListStore.arrivals, hempty, hzero]
  have hinbox : ((board.flip ()).setAtom () (enqueued cap (board.word ()))).store.inbox () =
      [] := by
    simp [Board.setAtom, Board.flip, Board.setStore]
  have hatom : ((board.flip ()).setAtom () (enqueued cap (board.word ()))).atom () =
      enqueued cap (board.word ()) := by
    simp [Board.setAtom]
  have hcell (other : τ) (hpends : (pc other).pends = true) :
      inner.message other = none ↔ board.awake other = true ∨ Handing
        ((board.flip ()).setAtom () (enqueued cap (board.word ()))) receiver
        (.receive .popAgain head result : Point τ V ω) other := by
    have hbefore := hcore.cell other hpends
    rw [hpc] at hbefore
    refine hbefore.trans (or_congr_right (iff_of_false ?_ ?_))
    · rintro ⟨⟨head', result', heq⟩, -⟩
      cases heq
    · rintro ⟨⟨head', result', heq⟩, -⟩
      cases heq
  have hhead : ∀ receive head' result',
      (.receive .popAgain head result : Point τ V ω) = .receive receive head' result' →
        head' = Ring.slot cap ledger.base (cap - 1) := by
    intro receive head' result' heq
    cases heq
    exact hcore.head _ _ _ hpc
  refine hcore.receive ?_ hhead ?_ (fun _ _ => rfl) rfl trivial hcell (fun h => by cases h)
    (by simp)
  · rw [hatom, queued, hqueue]
    cases hcase : board.store.inbox () with
    | nil =>
        have hnew : (board.word ()).hasNewWaiters = false := by
          simp [Board.word, FutexAtom.hasNewWaiters, hcase]
        rw [enqueued, if_neg (by simp [hnew])]
        exact hlayout.vacate.goOn rfl rfl (fun _ _ _ _ => rfl) (by rw [hpc]; rfl) rfl
    | cons waiter rest =>
        have hnew : (board.word ()).hasNewWaiters = true := by
          simp [Board.word, FutexAtom.hasNewWaiters, hcase]
        have hsize : (board.atom ()).size = cap := hcore.full (Or.inl (by simp [hcase]))
        rw [enqueued, if_pos hnew]
        have hqueued : (!(waiter :: rest).reverse.isEmpty) = true := by simp
        rw [hqueued]
        exact (hlayout.grant hsize).goOn rfl rfl (fun _ _ _ _ => rfl) (by rw [hpc]; rfl) rfl
  · rw [hinbox, hqueue, hatom]
    rintro (hne | hne)
    · exact absurd rfl hne
    · have hinbox' : board.store.inbox () ≠ [] := by simpa using hne
      have hnew : (board.word ()).hasNewWaiters = true := by
        cases hcase : board.store.inbox () with
        | nil => exact absurd hcase hinbox'
        | cons waiter rest => simp [Board.word, FutexAtom.hasNewWaiters, hcase]
      rw [enqueued, if_pos hnew]
      exact hcore.full (Or.inl hinbox')

/-- The message of the waiter in hand goes to the slot. -/
theorem backfill (hcore : Core cap receiver ledger board inner pc) {waiter : τ} {head : ℕ}
    {result : V} (hpc : pc receiver = .receive (.backfill waiter) head result)
    (hwaiter : (pc waiter).pends = true) (hasleep : board.awake waiter = false) :
    ∃ value, inner.message waiter = some value ∧
      Core cap receiver { ledger with line := ledger.line ++ [.stored value] } board
        (((inner.setMessage waiter none).setData head (some value)).setFilled head true)
        (Function.update pc receiver (.receive .wake head result)) := by
  have hhandle : board.handle receiver = some waiter := by
    have hpoint := hcore.points receiver
    rw [hpc] at hpoint
    exact hpoint
  have hlayout := hcore.layout
  rw [hpc] at hlayout
  have hmessage : inner.message waiter ≠ none := by
    rw [Ne, hcore.cell waiter hwaiter, hpc, hasleep]
    rintro (hawake | ⟨⟨head', result', heq⟩, -⟩)
    · cases hawake
    · cases heq
  obtain ⟨value, hvalue⟩ := Option.ne_none_iff_exists'.mp hmessage
  have hhead := hcore.head _ _ _ hpc
  have hwrites : (pc waiter).writes = none := by
    cases hcase : pc waiter <;> first | rfl | (rw [hcase] at hwaiter; cases hwaiter)
  refine ⟨value, hvalue, hcore.receive ?_ ?_ hcore.full ?_ rfl trivial ?_ (fun h => by cases h)
    (by simp)⟩
  · exact hlayout.backfill hhead hwrites (by rw [hpc]; rfl) rfl
  · intro receive head' result' heq
    cases heq
    exact hhead
  · intro other hpends
    refine Function.update_of_ne ?_ _ _
    rintro rfl
    rw [hwaiter] at hpends
    cases hpends
  · intro other hpends
    by_cases hother : other = waiter
    · subst hother
      refine iff_of_true ?_ (Or.inr ⟨⟨head, result, rfl⟩, hhandle⟩)
      simp [Inner.setFilled, Inner.setData, Inner.setMessage]
    · have hmessage' : (((inner.setMessage waiter none).setData head
          (some value)).setFilled head true).message other = inner.message other :=
        Function.update_of_ne hother _ _
      rw [hmessage', hcore.cell other hpends, hpc]
      refine or_congr_right (iff_of_false ?_ ?_)
      · rintro ⟨⟨head', result', heq⟩, -⟩
        cases heq
      · rintro ⟨-, hhandle'⟩
        rw [hhandle] at hhandle'
        exact hother (Option.some.inj hhandle').symm

omit [DecidableEq τ] in
theorem enqueueAt_word (hcore : Core cap receiver ledger board inner pc)
    (hsize : (board.atom ()).size = ledger.line.length + 1) :
    enqueueAt cap (board.word ()) = some (.enqueue (board.word ())) := by
  unfold enqueueAt
  split
  case isTrue hnew =>
    have hinbox : board.store.inbox () ≠ [] := by
      intro hnil
      simp [Board.word, FutexAtom.hasNewWaiters, hnil] at hnew
    exact if_pos (hcore.full (Or.inl hinbox))
  case isFalse =>
    have hpos : 0 < (board.word ()).atom.size := by
      change 0 < (board.atom ()).size
      omega
    exact if_pos hpos

/-! ## Steps that no program point sees -/

theorem wake (hcore : Core cap receiver ledger board inner pc) {waiter : τ} {head : ℕ}
    {result : V} (hpc : pc receiver = .receive .wake head result)
    (hhandle : board.handle receiver = some waiter) :
    Core cap receiver ledger
      (((board.setAwake waiter true).setHandle receiver none).setActivity receiver .waking)
      inner pc := by
  refine { hcore with points := fun other => ?_, cell := fun other hpends => ?_ }
  · by_cases hother : other = receiver
    · rw [hother, hpc]
      trivial
    · have hnot (hreceives : (pc other).receives = true) : False :=
        hother (hcore.receives other hreceives)
      exact (hcore.points other).mono (fun _ => rfl) (fun _ => rfl) (fun _ _ => id)
        (fun _ _ => id) (fun h => (hnot h).elim) (fun _ => id) fun _ => rfl
  · have hbefore := hcore.cell other hpends
    rw [hbefore]
    by_cases hother : other = waiter
    · subst hother
      refine iff_of_true (Or.inr ⟨⟨head, result, hpc⟩, hhandle⟩) (Or.inl ?_)
      simp [Board.setAwake, Board.setHandle, Board.setActivity]
    · have hawake : (((board.setAwake waiter true).setHandle receiver none).setActivity
          receiver .waking).awake other = board.awake other :=
        Function.update_of_ne hother _ _
      rw [hawake]
      refine or_congr_right (iff_of_false ?_ ?_)
      · rintro ⟨-, hhandle'⟩
        rw [hhandle] at hhandle'
        exact hother (Option.some.inj hhandle').symm
      · rintro ⟨-, hhandle'⟩
        simp [Board.setHandle, Board.setActivity] at hhandle'

omit [DecidableEq τ] in
/-- The waiters move while the receiver does not read. -/
theorem still (hcore : Core cap receiver ledger board inner pc)
    (hatom : board'.atom = board.atom)
    (hlines : board'.store.inbox () ≠ [] ∨ board'.store.queues () 0 ≠ [] →
      board.store.inbox () ≠ [] ∨ board.store.queues () 0 ≠ [])
    (hqueue : () ∈ (holds (pc receiver)).reads →
      board'.store.queues () 0 = board.store.queues () 0)
    (hhandle : board'.handle = board.handle) (hawake : board'.awake = board.awake) :
    Core cap receiver ledger board' inner pc := by
  have htransit : (pc receiver).transit (queued board') =
      (pc receiver).transit (queued board) := by
    cases hpc : pc receiver with
    | receive point head result =>
        cases point with
        | popAgain =>
            have hsame : board'.store.queues () 0 = board.store.queues () 0 :=
              hqueue (by rw [hpc]; simp [holds, receiveHolds])
            rw [queued, queued, hsame]
        | _ => rfl
    | _ => rfl
  refine { hcore with layout := ?_, full := ?_, points := fun other => ?_, cell := ?_ }
  · rw [hatom, htransit]
    exact hcore.layout
  · rw [hatom]
    exact fun hwaits => hcore.full (hlines hwaits)
  · refine (hcore.points other).mono (fun _ => rfl) (fun _ => rfl) (fun _ _ => id)
      (fun _ _ => id) (fun _ => by rw [hhandle]) (fun _ => by rw [hatom]; exact id) ?_
    intro hreads
    have hother : other = receiver := by
      apply hcore.receives
      cases hpc : pc other with
      | receive point head result => rfl
      | _ => simp [hpc, holds] at hreads
    exact hqueue (hother ▸ hreads)
  · unfold Handing
    rw [hhandle, hawake]
    exact hcore.cell

/-- While nobody else receives, a task may begin to. -/
theorem adopt (hcore : Core cap receiver ledger board inner pc)
    (halone : ∀ other, (pc other).receives = true → other = task) :
    Core cap task ledger board inner pc := by
  by_cases hsame : task = receiver
  · rw [hsame]
    exact hcore
  have hold : (pc receiver).receives = false := by
    by_contra hnot
    exact hsame (halone receiver (by simpa using hnot)).symm
  have hnew : (pc task).receives = false := by
    by_contra hnot
    exact hsame (hcore.receives task (by simpa using hnot))
  have hreceive {other : Point τ V ω} (hother : pc task = other)
      (hreceives : other.receives = true) : False := by
    rw [← hother, hnew] at hreceives
    cases hreceives
  refine ⟨halone, ?_, ?_, hcore.full, hcore.points, ?_, ?_, ?_⟩
  · rw [transit_of_not_receives hnew, ← transit_of_not_receives hold (queued board)]
    exact hcore.layout
  · exact fun receive head result hpc => (hreceive hpc rfl).elim
  · intro other hpends
    rw [hcore.cell other hpends]
    refine or_congr_right (iff_of_false ?_ ?_)
    · rintro ⟨⟨head, result, hpc⟩, -⟩
      rw [hpc] at hold
      cases hold
    · rintro ⟨⟨head, result, hpc⟩, -⟩
      exact hreceive hpc rfl
  · exact fun hpc => (hreceive hpc rfl).elim
  · exact fun hpc => (hpc.elim (fun h => hreceive h rfl) fun h => hreceive h rfl).elim

end Core

end Mpsc

end AsyncMutex
