import Mathlib.Data.List.Nodup
import Mathlib.Logic.Function.Basic

/-!
# Doubly linked segments in a heap of cells

A heap gives every node a next link, a prev link and some payload.  A segment
is a list of nodes whose links follow the list in both directions; a stack is
a list of nodes linked by prev pointers only.  The lemmas say how segments are
cut, glued and framed when single links are overwritten.
-/

namespace AsyncMutex.DoublyLinked

structure Cell (ν β : Type*) where
  next : Option ν
  prev : Option ν
  data : β
deriving DecidableEq

abbrev Heap (ν β : Type*) := ν → Cell ν β

variable {ν β : Type*} [DecidableEq ν]

namespace Heap

def setNext (heap : Heap ν β) (node : ν) (link : Option ν) : Heap ν β :=
  Function.update heap node { heap node with next := link }

def setPrev (heap : Heap ν β) (node : ν) (link : Option ν) : Heap ν β :=
  Function.update heap node { heap node with prev := link }

@[simp] theorem setNext_self (heap : Heap ν β) (node : ν) (link : Option ν) :
    heap.setNext node link node = { heap node with next := link } := by
  simp [setNext]

@[simp] theorem setPrev_self (heap : Heap ν β) (node : ν) (link : Option ν) :
    heap.setPrev node link node = { heap node with prev := link } := by
  simp [setPrev]

theorem setNext_of_ne (heap : Heap ν β) {node other : ν} (link : Option ν)
    (hne : other ≠ node) : heap.setNext node link other = heap other := by
  simp [setNext, hne]

theorem setPrev_of_ne (heap : Heap ν β) {node other : ν} (link : Option ν)
    (hne : other ≠ node) : heap.setPrev node link other = heap other := by
  simp [setPrev, hne]

@[simp] theorem setNext_prev (heap : Heap ν β) (node other : ν)
    (link : Option ν) : (heap.setNext node link other).prev = (heap other).prev := by
  by_cases heq : other = node
  · subst other
    simp
  · simp [setNext_of_ne heap link heq]

@[simp] theorem setPrev_next (heap : Heap ν β) (node other : ν)
    (link : Option ν) : (heap.setPrev node link other).next = (heap other).next := by
  by_cases heq : other = node
  · subst other
    simp
  · simp [setPrev_of_ne heap link heq]

@[simp] theorem setNext_data (heap : Heap ν β) (node other : ν)
    (link : Option ν) : (heap.setNext node link other).data = (heap other).data := by
  by_cases heq : other = node
  · subst other
    simp
  · simp [setNext_of_ne heap link heq]

@[simp] theorem setPrev_data (heap : Heap ν β) (node other : ν)
    (link : Option ν) : (heap.setPrev node link other).data = (heap other).data := by
  by_cases heq : other = node
  · subst other
    simp
  · simp [setPrev_of_ne heap link heq]

end Heap

/-! ## Segments -/

/-- The nodes follow each other in both directions, the first one has
`before` as its prev link and the last one has `after` as its next link. -/
def Segment (heap : Heap ν β) : Option ν → List ν → Option ν → Prop
  | _, [], _ => True
  | before, node :: rest, after =>
      (heap node).prev = before ∧ (heap node).next = rest.head?.or after ∧
        Segment heap (some node) rest after

omit [DecidableEq ν] in
@[simp] theorem segment_nil (heap : Heap ν β) (before after : Option ν) :
    Segment heap before [] after := trivial

omit [DecidableEq ν] in
theorem segment_cons (heap : Heap ν β) (before after : Option ν) (node : ν)
    (rest : List ν) :
    Segment heap before (node :: rest) after ↔
      (heap node).prev = before ∧ (heap node).next = rest.head?.or after ∧
        Segment heap (some node) rest after := Iff.rfl

omit [DecidableEq ν] in
theorem segment_append (heap : Heap ν β) (before after : Option ν)
    (first second : List ν) :
    Segment heap before (first ++ second) after ↔
      Segment heap before first (second.head?.or after) ∧
        Segment heap (first.getLast?.or before) second after := by
  induction first generalizing before with
  | nil => simp
  | cons node rest ih =>
      have hlast : (node :: rest).getLast?.or before =
          rest.getLast?.or (some node) := by
        rw [List.getLast?_cons]
        cases rest.getLast? <;> rfl
      have hhead : (rest ++ second).head?.or after =
          rest.head?.or (second.head?.or after) := by
        cases rest <;> simp
      simp only [List.cons_append, segment_cons, ih, hlast, hhead, and_assoc]

omit [DecidableEq ν] in
/-- A segment depends only on the links of its own nodes. -/
theorem Segment.congr {heap heap' : Heap ν β} {before after : Option ν}
    {nodes : List ν} (hseg : Segment heap before nodes after)
    (hsame : ∀ node ∈ nodes, (heap' node).next = (heap node).next ∧
      (heap' node).prev = (heap node).prev) :
    Segment heap' before nodes after := by
  induction nodes generalizing before with
  | nil => trivial
  | cons node rest ih =>
      obtain ⟨hprev, hnext, hrest⟩ := hseg
      obtain ⟨hnext', hprev'⟩ := hsame node List.mem_cons_self
      refine ⟨hprev'.trans hprev, hnext'.trans hnext, ih hrest ?_⟩
      intro other hother
      exact hsame other (List.mem_cons_of_mem node hother)

theorem Segment.setNext_of_notMem {heap : Heap ν β} {before after : Option ν}
    {nodes : List ν} (hseg : Segment heap before nodes after) {node : ν}
    (hmem : node ∉ nodes) (link : Option ν) :
    Segment (heap.setNext node link) before nodes after := by
  refine hseg.congr fun other hother => ?_
  have hne : other ≠ node := fun heq => hmem (heq ▸ hother)
  simp [Heap.setNext_of_ne heap link hne]

theorem Segment.setPrev_of_notMem {heap : Heap ν β} {before after : Option ν}
    {nodes : List ν} (hseg : Segment heap before nodes after) {node : ν}
    (hmem : node ∉ nodes) (link : Option ν) :
    Segment (heap.setPrev node link) before nodes after := by
  refine hseg.congr fun other hother => ?_
  have hne : other ≠ node := fun heq => hmem (heq ▸ hother)
  simp [Heap.setPrev_of_ne heap link hne]

/-- Overwriting the prev link of the first node changes what the segment
starts from. -/
theorem Segment.setPrev_head {heap : Heap ν β} {before after : Option ν}
    {node : ν} {rest : List ν}
    (hseg : Segment heap before (node :: rest) after) (hmem : node ∉ rest)
    (link : Option ν) :
    Segment (heap.setPrev node link) link (node :: rest) after := by
  obtain ⟨-, hnext, hrest⟩ := hseg
  exact ⟨by simp, by simpa using hnext, hrest.setPrev_of_notMem hmem link⟩

/-- Overwriting the next link of the last node changes what the segment ends
in. -/
theorem Segment.setNext_last {heap : Heap ν β} {before after : Option ν}
    {node : ν} {init : List ν}
    (hseg : Segment heap before (init ++ [node]) after) (hmem : node ∉ init)
    (link : Option ν) :
    Segment (heap.setNext node link) before (init ++ [node]) link := by
  rw [segment_append] at hseg ⊢
  obtain ⟨hinit, hprev, -, -⟩ := hseg
  exact ⟨by simpa using hinit.setNext_of_notMem hmem link, by simpa using hprev,
    by simp, trivial⟩

/-- The head and tail pointers `first` and `last` hold the list `nodes`. -/
structure Holds (heap : Heap ν β) (first last : Option ν)
    (nodes : List ν) : Prop where
  first_eq : first = nodes.head?
  last_eq : last = nodes.getLast?
  segment : Segment heap none nodes none
  nodup : nodes.Nodup

omit [DecidableEq ν] in
theorem holds_nil (heap : Heap ν β) : Holds heap none none [] :=
  ⟨rfl, rfl, trivial, List.nodup_nil⟩

omit [DecidableEq ν] in
theorem Holds.congr {heap heap' : Heap ν β} {first last : Option ν}
    {nodes : List ν} (hold : Holds heap first last nodes)
    (hsame : ∀ node ∈ nodes, (heap' node).next = (heap node).next ∧
      (heap' node).prev = (heap node).prev) :
    Holds heap' first last nodes :=
  ⟨hold.first_eq, hold.last_eq, hold.segment.congr hsame, hold.nodup⟩

/-! ## Stacks -/

/-- The prev links lead from every node to the one below it, and from the
bottom to nothing.  Next links are not constrained. -/
def Stack (heap : Heap ν β) : List ν → Prop
  | [] => True
  | node :: below => (heap node).prev = below.head? ∧ Stack heap below

omit [DecidableEq ν] in
@[simp] theorem stack_nil (heap : Heap ν β) : Stack heap [] := trivial

omit [DecidableEq ν] in
theorem Stack.congr {heap heap' : Heap ν β} {nodes : List ν}
    (hstack : Stack heap nodes)
    (hsame : ∀ node ∈ nodes, (heap' node).prev = (heap node).prev) :
    Stack heap' nodes := by
  induction nodes with
  | nil => trivial
  | cons node below ih =>
      refine ⟨(hsame node List.mem_cons_self).trans hstack.1, ih hstack.2 ?_⟩
      intro other hother
      exact hsame other (List.mem_cons_of_mem node hother)

omit [DecidableEq ν] in
/-- A segment read from its last node is a stack on top of whatever its first
node points back to. -/
theorem Segment.stack_append {heap : Heap ν β} {after : Option ν}
    {nodes below : List ν}
    (hseg : Segment heap below.head? nodes after) (hbelow : Stack heap below) :
    Stack heap (nodes.reverse ++ below) := by
  induction nodes generalizing below with
  | nil => simpa using hbelow
  | cons node rest ih =>
      obtain ⟨hprev, -, hrest⟩ := hseg
      have hstack : Stack heap (node :: below) := ⟨hprev, hbelow⟩
      have hrest' : Segment heap (node :: below).head? rest after := by
        simpa using hrest
      simpa using ih hrest' hstack

/-! ## Walks -/

/-- A walk that begins at the pointer `start` and goes on along `link` visits
the node. -/
inductive Visits (link : ν → Option ν) : Option ν → ν → Prop
  | here (node : ν) : Visits link (some node) node
  | there {node other : ν} (hvisits : Visits link (link node) other) :
      Visits link (some node) other

omit [DecidableEq ν] in
theorem Visits.mem_of_segment {heap : Heap ν β} {before : Option ν} {nodes : List ν}
    (hseg : Segment heap before nodes none) {node : ν}
    (hvisits : Visits (fun node => (heap node).next) nodes.head? node) :
    node ∈ nodes := by
  induction nodes generalizing before with
  | nil => cases hvisits
  | cons first rest ih =>
      obtain ⟨-, hnext, hrest⟩ := hseg
      cases hvisits with
      | here => exact List.mem_cons_self
      | there hvisits =>
          rw [hnext, Option.or_none] at hvisits
          exact List.mem_cons_of_mem first (ih hrest hvisits)

omit [DecidableEq ν] in
theorem Visits.mem_of_stack {heap : Heap ν β} {nodes : List ν}
    (hstack : Stack heap nodes) {node : ν}
    (hvisits : Visits (fun node => (heap node).prev) nodes.head? node) :
    node ∈ nodes := by
  induction nodes with
  | nil => cases hvisits
  | cons first below ih =>
      obtain ⟨hprev, hbelow⟩ := hstack
      cases hvisits with
      | here => exact List.mem_cons_self
      | there hvisits =>
          rw [hprev] at hvisits
          exact List.mem_cons_of_mem first (ih hbelow hvisits)

omit [DecidableEq ν] in
/-- The walk back from the tail of a list. -/
theorem Visits.mem_of_segment_back {heap : Heap ν β} {after : Option ν} {nodes : List ν}
    (hseg : Segment heap none nodes after) {node : ν}
    (hvisits : Visits (fun node => (heap node).prev) nodes.getLast? node) :
    node ∈ nodes := by
  have hstack : Stack heap (nodes.reverse ++ []) :=
    Segment.stack_append hseg (stack_nil heap)
  rw [List.append_nil] at hstack
  rw [← List.head?_reverse] at hvisits
  exact List.mem_reverse.mp (Visits.mem_of_stack hstack hvisits)

end AsyncMutex.DoublyLinked
