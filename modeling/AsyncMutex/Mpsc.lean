import AsyncMutex.MpscSteps
import AsyncMutex.Wakers

/-!
# The channel

The pointers of the source run the code of `Inner::send` and `Inner::recv`.
When nothing runs by itself any more, a receiver waits only in front of an
empty channel and a sender only in front of a full one.
-/

namespace AsyncMutex

namespace Mpsc

variable {τ V ω : Type} [DecidableEq τ] [DecidableEq ω] [Fintype τ]

abbrev ChannelMark (τ V ω : Type) := Mark τ Unit SendState ω (Point τ V ω) (Call V ω)

abbrev ListChannel (τ V ω : Type) :=
  ListSystem τ Unit (Fin 1) SendState ω (Inner τ V ω) (Point τ V ω)

abbrev HeapChannel (τ V ω : Type) :=
  HeapSystem τ Unit (Fin 1) SendState ω (Inner τ V ω) (Point τ V ω)

/-- The runs of any number of senders and a receiver, from `Inner::new`. -/
def machine (cap : ℕ) (inner : Inner τ V ω) :
    Machine (HeapChannel τ V ω) (τ × Label (Call V ω) ω) (ChannelMark τ V ω) :=
  System.machine (client cap) usage (HeapStore.empty 0) (fun _ => ⟨0, 0⟩) () inner

abbrev lists (cap : ℕ) (inner : Inner τ V ω) :
    Machine (ListChannel τ V ω) (τ × Label (Call V ω) ω) (ChannelMark τ V ω) :=
  System.machine (client cap) usage (ListStore.empty 0) (fun _ => ⟨0, 0⟩) () inner

abbrev Sound (cap : ℕ) (sys : ListChannel τ V ω) : Prop :=
  sys.Verified (client cap) holds (Inv cap)

variable {cap : ℕ} {inner : Inner τ V ω}

omit [DecidableEq τ] [DecidableEq ω] [Fintype τ] in
theorem new_spec (hnew : Inner.new cap = some inner) :
    0 < cap ∧ cap < SendState.half ∧
      inner = ⟨fun _ => ⟨false, none⟩, none, 0, fun _ => none, none⟩ := by
  unfold Inner.new at hnew
  split at hnew <;> cases hnew
  case isTrue.refl hcap => exact ⟨hcap.1, hcap.2, rfl⟩

omit [DecidableEq τ] [DecidableEq ω] [Fintype τ] in
/-- An empty channel, with any task in the place of the receiver. -/
theorem core_initial (hnew : Inner.new cap = some inner) (receiver : τ) :
    Core cap receiver ⟨0, []⟩
      (World.initial (ListStore.empty 0) (fun _ => ⟨0, 0⟩) () :
        ListWorld τ Unit (Fin 1) SendState ω).board inner fun _ => .idle := by
  obtain ⟨hcap, -, rfl⟩ := new_spec hnew
  have hslot : 0 = Ring.slot cap 0 0 := (Nat.zero_mod cap).symm
  constructor
  case receives => exact fun _ h => by cases h
  case layout =>
    refine ⟨hslot, rfl, Nat.zero_le cap, fun h => (by cases h), hslot,
      ⟨Nat.zero_le cap, by simp, ?_⟩, ?_⟩
    · exact fun _ _ _ => rfl
    · exact fun _ _ _ h => by cases h
  case head => exact fun _ _ _ h => by cases h
  case full => simp [World.initial, World.board, ListStore.empty]
  case points => exact fun _ => trivial
  case cell => exact fun _ h => by cases h
  case signal => exact fun h => by cases h
  case last => simp

theorem sound_of_reachable (hnew : Inner.new cap = some inner) {sys : ListChannel τ V ω}
    (hreach : (lists cap inner).Reachable sys) : Sound cap sys := by
  obtain ⟨hcap, -⟩ := new_spec hnew
  exact System.Verified.of_reachable (typed cap) (invariant hcap)
    (fun ⟨task⟩ => ⟨task, _, core_initial hnew task⟩) hreach

/-- The fields of the send state fit into their halves of the word. -/
theorem decode_encode_of_reachable (hnew : Inner.new cap = some inner) [Nonempty τ]
    {sys : ListChannel τ V ω} (hreach : (lists cap inner).Reachable sys) :
    SendState.decode (SendState.encode (sys.world.atom ())) = sys.world.atom () := by
  obtain ⟨hcap, hhalf, -⟩ := new_spec hnew
  obtain ⟨receiver, ledger, hcore⟩ := (sound_of_reachable hnew hreach).inv inferInstance
  have hsize : (sys.world.atom ()).size ≤ cap := hcore.layout.size_le
  have hhead : (sys.world.atom ()).writeHead < cap := by
    rw [show (sys.world.atom ()).writeHead = _ from hcore.layout.writeHead]
    exact Ring.slot_lt hcap _
  exact SendState.decode_encode (Nat.lt_trans hhead hhalf) (Nat.lt_of_le_of_lt hsize hhalf)

/-! ## When nothing runs -/

/-- No poll and no drop is in progress, and nobody was woken since the last
poll. -/
structure Quiet (cap : ℕ) (sys : HeapChannel τ V ω) : Prop where
  rests : ∀ task, code cap (sys.pc task) = .rest
  still : ∀ task, sys.world.phase task = .idle ∨ sys.world.phase task = .enter ∨
    sys.world.phase task = .pending
  sender : ∀ task, sys.pc task = .waiting → sys.world.lastWaker task ≠ none
  receiver : ∀ task, sys.pc task = .blocked → sys.memory.lastWaker ≠ none

omit [DecidableEq τ] [DecidableEq ω] [Fintype τ] in
/-- All slots in use are filled. -/
theorem Layout.stored {atom : SendState} {inner : Inner τ V ω} {pc : τ → Point τ V ω}
    {transit : Transit} {ledger : Ledger τ V}
    (hlayout : Layout cap atom inner pc transit ledger)
    (hidle : ∀ task, (pc task).writes = none) {offset : ℕ}
    (hoffset : offset < ledger.line.length) :
    (inner.buckets (Ring.slot cap ledger.base offset)).filled = true := by
  have hfits := hlayout.window.entry offset _ (List.getElem?_eq_getElem hoffset)
  cases hticket : ledger.line[offset] with
  | writing task value =>
      rw [hticket] at hfits
      rcases hfits.2 with ⟨hwrites, -⟩ | ⟨hwrites, -⟩
      · rw [hidle] at hwrites
        cases hwrites
      · rw [hidle] at hwrites
        cases hwrites
  | stored value =>
      rw [hticket] at hfits
      exact hfits.1

omit [Fintype τ] in
/-- While no notifier is under way, whoever waits and is asleep is in the inbox
or in the queue. -/
theorem waits_of_asleep {sys : ListChannel τ V ω} (hsys : Sound cap sys)
    (hrests : ∀ task, code cap (sys.pc task) = .rest) {task : τ}
    (hstage : sys.world.board.stage task = .waiting)
    (hasleep : sys.world.board.awake task = false) :
    sys.world.store.inbox () ≠ [] ∨ sys.world.store.queues () 0 ≠ [] := by
  have hholds (other : τ) :
      (holds (sys.pc other)).hand = false ∧ (holds (sys.pc other)).list = false := by
    have hrest := hrests other
    cases hpc : sys.pc other with
    | receive point head result =>
        rw [hpc] at hrest
        cases point <;> cases hrest
    | _ => exact ⟨rfl, rfl⟩
  obtain ⟨place, hplaced⟩ := hsys.coherent.placed
  have hplace := hplaced.somewhere task (Or.inr hstage) hasleep
  cases hcase : place task with
  | nowhere => exact absurd hcase hplace
  | inbox futex => exact Or.inl (List.ne_nil_of_mem ((hplaced.places.inbox futex task).mpr hcase))
  | queue futex queue =>
      have hmem := (hplaced.places.queues futex queue task).mpr hcase
      rw [Subsingleton.elim queue 0] at hmem
      exact Or.inr (List.ne_nil_of_mem hmem)
  | hand other =>
      have hhandle := (hplaced.places.hand other task).mpr hcase
      rw [(hsys.fits other).handle_eq_none (hholds other).1] at hhandle
      cases hhandle
  | list other =>
      have hmem := (hplaced.places.list other task).mpr hcase
      rw [(hsys.fits other).list (hholds other).2] at hmem
      cases hmem

section Quiet

variable {sys : HeapChannel τ V ω} (hquiet : Quiet cap sys)
include hquiet

omit [DecidableEq τ] [DecidableEq ω] [Fintype τ] in
theorem Quiet.writes_eq_none (task : τ) : (sys.pc task).writes = none := by
  have hrest := hquiet.rests task
  cases hpc : sys.pc task <;> first | rfl | (rw [hpc] at hrest; cases hrest)

variable (hsound : Sound cap sys.lists)
include hsound

/-- The books of the slots, where no receive is in progress. -/
theorem Quiet.core (task : τ) : ∃ receiver ledger,
    Core cap receiver ledger sys.lists.world.board sys.memory sys.pc ∧
      (sys.world.atom ()).size = ledger.line.length := by
  obtain ⟨receiver, ledger, hcore⟩ := hsound.inv ⟨task⟩
  refine ⟨receiver, ledger, hcore, ?_⟩
  have hsize := hcore.layout.size
  have htransit (queued : Bool) : (sys.pc receiver).transit queued = .none := by
    have hrest := hquiet.rests receiver
    cases hpc : sys.pc receiver with
    | receive point head result =>
        rw [hpc] at hrest
        cases point <;> cases hrest
    | _ => rfl
  rw [show sys.lists.pc receiver = sys.pc receiver from rfl, htransit] at hsize
  exact hsize

variable (hreach : (machine cap inner).Reachable sys)
include hreach

theorem Quiet.waits {task : τ} (hpc : sys.pc task = .waiting) :
    sys.lists.world.store.inbox () ≠ [] ∨ sys.lists.world.store.queues () 0 ≠ [] := by
  have hslot := (hsound.fits task).slot
  rw [show sys.lists.pc task = .waiting from hpc] at hslot
  have hphase : sys.world.phase task = .pending := by
    have hstage := hslot.1
    simp only [World.board, System.lists, World.lists, World.withStore] at hstage
    rcases hquiet.still task with h | h | h
    · simp [h, Phase.stage] at hstage
    · simp [h, Phase.stage] at hstage
    · exact h
  have hidle (other : τ) : sys.world.busy other = .none :=
    hsound.busy_of_rest (hquiet.rests other)
  have hasleep := System.asleep_of_lastWaker hreach hphase (hquiet.sender task hpc) hidle
  have hstage : sys.lists.world.board.stage task = .waiting := by
    simp [World.board, System.lists, World.lists, World.withStore, hphase, Phase.stage]
  exact waits_of_asleep hsound hquiet.rests hstage hasleep

/-- A sender waits only while the channel is full. -/
theorem Quiet.full {task : τ} (hpc : sys.pc task = .waiting) :
    (sys.world.atom ()).size = cap ∧ ∀ index < cap, (sys.memory.buckets index).filled = true := by
  obtain ⟨receiver, ledger, hcore, hsize⟩ := hquiet.core hsound task
  have hfull : (sys.world.atom ()).size = cap := hcore.full (hquiet.waits hsound hreach hpc)
  refine ⟨hfull, fun index hindex => ?_⟩
  obtain ⟨offset, hoffset, rfl⟩ := Ring.exists_offset ledger.base hindex
  exact hcore.layout.stored hquiet.writes_eq_none (by omega)

/-- A receiver waits only while the channel is empty and no sender waits. -/
theorem Quiet.empty (hcap : 0 < cap) {task : τ} (hpc : sys.pc task = .blocked) :
    (sys.memory.buckets sys.memory.recvHead).filled = false ∧
      (sys.world.atom ()).size = 0 ∧ ∀ other, sys.pc other ≠ .waiting := by
  obtain ⟨receiver, ledger, hcore, hsize⟩ := hquiet.core hsound task
  obtain rfl : task = receiver := hcore.receives task (by rw [hpc]; rfl)
  obtain ⟨waker, hwaker⟩ := Option.ne_none_iff_exists'.mp (hquiet.receiver task hpc)
  have hstate : sys.memory.recvState ≠ none := by
    rcases hcore.last (Or.inr hpc) waker hwaker with hsome | ⟨other, hother⟩
    · simp [hsome]
    · have hrest := hquiet.rests other
      rw [hother] at hrest
      cases hrest
  have hempty : (sys.memory.buckets sys.memory.recvHead).filled = false := by
    by_contra hfilled
    obtain ⟨other, hother⟩ := hcore.signal hpc hstate (by simpa using hfilled)
    have hrest := hquiet.rests other
    rw [hother] at hrest
    cases hrest
  have hline : ledger.line.length = 0 := by
    by_contra hne
    have hfilled := hcore.layout.stored hquiet.writes_eq_none (Nat.pos_of_ne_zero hne)
    rw [← hcore.layout.recvHead, hempty] at hfilled
    cases hfilled
  refine ⟨hempty, hsize.trans hline, fun other hother => ?_⟩
  have hfull := (hquiet.full hsound hreach hother).1
  rw [hsize, hline] at hfull
  exact Nat.ne_of_lt hcap hfull

end Quiet

/-- A receiver waits only while the channel is empty and no sender waits, and a
sender only while the channel is full. -/
theorem settled_of_quiet (hnew : Inner.new cap = some inner) {sys : HeapChannel τ V ω}
    (hreach : (machine cap inner).Reachable sys) (hquiet : Quiet cap sys) :
    (∀ task, sys.pc task = .blocked →
      (sys.memory.buckets sys.memory.recvHead).filled = false ∧
        (sys.world.atom ()).size = 0 ∧ ∀ other, sys.pc other ≠ .waiting) ∧
      ∀ task, sys.pc task = .waiting → (sys.world.atom ()).size = cap ∧
        ∀ index < cap, (sys.memory.buckets index).filled = true := by
  obtain ⟨hcap, -⟩ := new_spec hnew
  have hsound := sound_of_reachable hnew (System.lists_of_reachable hreach).1
  exact ⟨fun _ => hquiet.empty hsound hreach hcap, fun _ => hquiet.full hsound hreach⟩

/-- One task fills the channel and waits to send once more; the other one has
received nothing yet. -/
theorem settled_of_full :
    ∃ sys : HeapChannel (Fin 2) ℕ Unit, sys.pc 0 = .waiting ∧ Quiet 1 sys ∧
      ((∀ task, sys.pc task = .blocked →
        (sys.memory.buckets sys.memory.recvHead).filled = false ∧
          (sys.world.atom ()).size = 0 ∧ ∀ other, sys.pc other ≠ .waiting) ∧
        ∀ task, sys.pc task = .waiting → (sys.world.atom ()).size = 1 ∧
          ∀ index < 1, (sys.memory.buckets index).filled = true) := by
  let send (msg count : ℕ) : List (Fin 2 × Label (Call ℕ Unit) Unit) :=
    [(0, .start (.send msg)), (0, .own)] ++ List.replicate count (0, .call false ())
  have hnew : Inner.new 1 = some (⟨fun _ => ⟨false, none⟩, none, 0, fun _ => none, none⟩ :
    Inner (Fin 2) ℕ Unit) := rfl
  have htrace : (machine 1 (⟨fun _ => ⟨false, none⟩, none, 0, fun _ => none, none⟩ :
      Inner (Fin 2) ℕ Unit)).Trace _ _ :=
    ⟨send 5 3 ++ [(0, .own), (0, .own), (0, .own)] ++ send 6 4, rfl⟩
  refine ⟨_, rfl, ?quiet, settled_of_quiet hnew htrace.reachable ?quiet⟩
  exact ⟨Fin.forall_fin_two.mpr ⟨rfl, rfl⟩,
    Fin.forall_fin_two.mpr ⟨Or.inr (Or.inr rfl), Or.inl rfl⟩,
    Fin.forall_fin_two.mpr ⟨fun _ h => (by cases h), fun h => by cases h⟩,
    Fin.forall_fin_two.mpr ⟨fun h => (by cases h), fun h => by cases h⟩⟩

end Mpsc

end AsyncMutex
