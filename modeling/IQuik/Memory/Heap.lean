import IQuik.Data.Errors
import IQuik.Program.Outcome
import Mathlib.Algebra.Ring.Nat
import Mathlib.Data.List.Perm.Basic

namespace IQuik.Memory

open IQuik.Data IQuik.Program

/-! # The heap of `malloc.c` -/

def mallocBase : Nat := 0x500000
def mallocSize : Nat := 0x300000

/-- The pointer `(void *) -1`. -/
def noAddress : Nat := 0xFFFFFFFF

/-- The globals of `malloc.c`, and the words stored in front of the blocks. -/
structure Heap where
  mallocPtr : Nat
  mallocEnd : Nat
  lastAlloc : Nat
  sizes : Nat → Nat

/-- `promClaim` is the answer to `prom_claim (virt, size)`. -/
def mallocInit (promClaim : Nat → Nat → Nat) : Prog QuikErr Heap Unit := do
  let claimed := promClaim mallocBase mallocSize
  Prog.update fun heap => { heap with mallocPtr := claimed }
  if claimed = noAddress then Prog.fail .mallocInit else
    Prog.update fun heap => { heap with mallocEnd := (heap.mallocPtr + mallocSize) % 2 ^ 32 }

/-- The room test of `malloc` fails. Pointers are 32 bits wide. -/
def Heap.full (heap : Heap) (size : Nat) : Prop :=
  heap.mallocEnd ≤ (heap.mallocPtr + size + 4) % 2 ^ 32

instance (heap : Heap) (size : Nat) : Decidable (heap.full size) :=
  inferInstanceAs (Decidable (_ ≤ _))

/-- `(x + 3) & ~3`. -/
def roundUp (x : Nat) : Nat := (x + 3) % 2 ^ 32 / 4 * 4

/-- The block returned, with `0` for `NULL`, and the heap after the call. -/
def malloc (size : Nat) (heap : Heap) : Nat × Heap :=
  if heap.full size then (0, heap) else
    let caddr := (heap.mallocPtr + 4) % 2 ^ 32
    (caddr,
      { heap with
        sizes := Function.update heap.sizes heap.mallocPtr size
        lastAlloc := caddr
        mallocPtr := roundUp ((heap.mallocPtr + (size + 4) % 2 ^ 32) % 2 ^ 32) })

def free (m : Nat) (heap : Heap) : Heap :=
  if m = heap.lastAlloc then { heap with mallocPtr := (heap.lastAlloc + 2 ^ 32 - 4) % 2 ^ 32 }
  else heap

/-! # Calls in any order -/

/-- What a caller got from `malloc`. -/
structure Block where
  address : Nat
  size : Nat
deriving DecidableEq

/-- The first byte after the block. -/
def Block.limit (block : Block) : Nat := block.address + block.size

/-- No byte, of the header or of the contents, belongs to both blocks. -/
def Block.Apart (first second : Block) : Prop :=
  first.limit + 4 ≤ second.address ∨ second.limit + 4 ≤ first.address

/-- The size header and the bytes lie in the heap, and the address is aligned. -/
structure Block.Placed (block : Block) (heap : Heap) : Prop where
  aligned : block.address % 4 = 0
  above : mallocBase ≤ block.address - 4 ∧ 4 ≤ block.address
  below : block.limit ≤ heap.mallocEnd

/-- The heap and the blocks that were returned and not freed since. -/
structure Session where
  heap : Heap
  allocated : List Block

inductive Call where
  | malloc (size : UInt32)
  | free (block : Block)

namespace Session

variable (session : Session)

/-- Only blocks returned earlier and not yet freed are freed. -/
def Allows : Call → Prop
  | .malloc _ => True
  | .free block => block ∈ session.allocated

/-- The block a call hands out. -/
def returned : Call → Option Block
  | .malloc size =>
      let block := (Memory.malloc size.toNat session.heap).1
      if block = 0 then none else some { address := block, size := size.toNat }
  | .free _ => none

def after : Call → Session
  | .malloc size =>
      { heap := (Memory.malloc size.toNat session.heap).2
        allocated := (session.returned (.malloc size)).toList ++ session.allocated }
  | .free block =>
      { heap := Memory.free block.address session.heap
        allocated := session.allocated.erase block }

def InRange : Prop :=
  mallocBase ≤ session.heap.mallocPtr ∧ session.heap.mallocPtr ≤ session.heap.mallocEnd

/-- What is promised of a call: what it returns lies in the heap, apart from
all the blocks in use. -/
def ReturnsFresh (call : Call) : Prop :=
  ∀ block ∈ session.returned call,
    block.Placed session.heap ∧ ∀ other ∈ session.allocated, block.Apart other

/-- The wrapped sum of the room test is not mistaken for room. -/
def NoWrap : Call → Prop
  | .malloc size =>
      session.heap.mallocPtr + size.toNat + 4 < 2 ^ 32 ∨ session.heap.full size.toNat
  | .free _ => True

end Session

def Legal : Session → List Call → Prop
  | _, [] => True
  | session, call :: rest => session.Allows call ∧ Legal (session.after call) rest

/-- The promise holds of every call, and `malloc_ptr` is in the heap before and
after each. -/
def Obeys : Session → List Call → Prop
  | session, [] => session.InRange
  | session, call :: rest =>
      session.InRange ∧ session.ReturnsFresh call ∧ Obeys (session.after call) rest

def NeverWraps : Session → List Call → Prop
  | _, [] => True
  | session, call :: rest => session.NoWrap call ∧ NeverWraps (session.after call) rest

/-! # The invariant -/

/-- What holds between two calls. `lastAlloc` may be stale: then its block was
freed, and `malloc_ptr` is back at its header. -/
structure Session.Ordered (session : Session) : Prop where
  limit : session.heap.mallocEnd = mallocBase + mallocSize
  inRange : session.InRange
  aligned : session.heap.mallocPtr % 4 = 0
  last : session.allocated = [] ∨
    (mallocBase + 4 ≤ session.heap.lastAlloc ∧ session.heap.lastAlloc ≤ session.heap.mallocEnd ∧
      session.heap.lastAlloc % 4 = 0)
  below : ∀ block ∈ session.allocated, block.limit ≤ session.heap.mallocPtr
  before : ∀ block ∈ session.allocated,
    block.address = session.heap.lastAlloc ∨ block.limit + 4 ≤ session.heap.lastAlloc
  apart : session.allocated.Pairwise Block.Apart

variable {session : Session} {size : Nat}

theorem roundUp_eq {x : Nat} (small : x + 3 < 2 ^ 32) :
    x ≤ roundUp x ∧ roundUp x < x + 4 ∧ roundUp x % 4 = 0 := by
  simp only [roundUp, Nat.mod_eq_of_lt small]
  omega

/-- A call of `malloc` whose sum does not wrap: either there is no room, or the
block lies between `malloc_ptr` and its new value. -/
theorem malloc_cases {heap : Heap} (exact : heap.mallocPtr + size + 4 < 2 ^ 32) :
    malloc size heap = (0, heap) ∨
    (heap.mallocPtr + size + 4 < heap.mallocEnd ∧ malloc size heap =
      (heap.mallocPtr + 4,
        { heap with
          sizes := Function.update heap.sizes heap.mallocPtr size
          lastAlloc := heap.mallocPtr + 4
          mallocPtr := roundUp (heap.mallocPtr + size + 4) })) := by
  by_cases full : heap.full size
  · exact .inl (if_pos full)
  · right
    have room : heap.mallocPtr + size + 4 < heap.mallocEnd := by
      simpa only [Heap.full, Nat.mod_eq_of_lt exact, Nat.not_le] using full
    have address : (heap.mallocPtr + 4) % 2 ^ 32 = heap.mallocPtr + 4 := Nat.mod_eq_of_lt (by omega)
    have increment : (size + 4) % 2 ^ 32 = size + 4 := Nat.mod_eq_of_lt (by omega)
    have next : (heap.mallocPtr + (size + 4)) % 2 ^ 32 = heap.mallocPtr + size + 4 := by
      rw [← Nat.add_assoc, Nat.mod_eq_of_lt exact]
    refine ⟨room, ?_⟩
    simp only [malloc, if_neg full, address, increment, next]

/-- A call with no room changes nothing. -/
theorem malloc_full {heap : Heap} (full : heap.full size) : malloc size heap = (0, heap) := if_pos full

theorem malloc_address {heap : Heap} (inHeap : heap.mallocPtr ≤ heap.mallocEnd)
    (limit : heap.mallocEnd = mallocBase + mallocSize)
    (room : ¬ heap.full size) :
    (malloc size heap).1 = heap.mallocPtr + 4 := by
  have small : heap.mallocPtr + 4 < 2 ^ 32 := by
    have constants : mallocBase + mallocSize < 2 ^ 31 := by decide
    omega
  simp only [malloc, if_neg room, Nat.mod_eq_of_lt small]

theorem Block.Apart.symm {first second : Block} (apart : first.Apart second) : second.Apart first :=
  Or.symm apart

/-- What `malloc` does to a session when the sum does not wrap, or when there
is no room. -/
theorem Session.after_malloc {size : UInt32}
    (noWrap : session.NoWrap (.malloc size)) :
    (session.returned (.malloc size) = none ∧ session.after (.malloc size) = session) ∨
    (session.heap.mallocPtr + size.toNat + 4 < session.heap.mallocEnd ∧
      session.returned (.malloc size) =
        some { address := session.heap.mallocPtr + 4, size := size.toNat } ∧
      session.after (.malloc size) =
        { heap :=
            { session.heap with
              sizes := Function.update session.heap.sizes session.heap.mallocPtr size.toNat
              lastAlloc := session.heap.mallocPtr + 4
              mallocPtr := roundUp (session.heap.mallocPtr + size.toNat + 4) }
          allocated := { address := session.heap.mallocPtr + 4, size := size.toNat } :: session.allocated }) := by
  have refused (none : Memory.malloc size.toNat session.heap = (0, session.heap)) :
      session.returned (.malloc size) = .none ∧ session.after (.malloc size) = session := by
    simp [Session.returned, Session.after, none]
  rcases noWrap with exact | full
  · rcases malloc_cases exact with none | ⟨room, block⟩
    · exact .inl (refused none)
    · right
      refine ⟨room, ?_, ?_⟩
      · simp [Session.returned, block]
      · simp [Session.after, Session.returned, block]
  · exact .inl (refused (malloc_full full))

/-- A request is refused when there is no room; then nothing changes. -/
theorem Session.refused_iff {size : UInt32} (below : session.heap.mallocPtr + 4 < 2 ^ 32) :
    session.returned (.malloc size) = none ↔ session.heap.full size.toNat := by
  have address : (session.heap.mallocPtr + 4) % 2 ^ 32 ≠ 0 := by
    rw [Nat.mod_eq_of_lt below]
    exact Nat.succ_ne_zero _
  by_cases full : session.heap.full size.toNat
  · exact iff_of_true (by simp [Session.returned, malloc_full full]) full
  · refine iff_of_false ?_ full
    simp only [Session.returned, Memory.malloc, if_neg full, if_neg address]
    exact nofun

/-- The block is among those in use. -/
theorem Session.after_granted {size : UInt32} {block : Block}
    (granted : session.returned (.malloc size) = some block) :
    (session.after (.malloc size)).allocated = block :: session.allocated := by
  rw [Session.after, granted]
  rfl

theorem Session.after_freed (block : Block) :
    (session.after (.free block)).allocated = session.allocated.erase block := rfl

theorem Session.after_mallocEnd (size : UInt32) :
    (session.after (.malloc size)).heap.mallocEnd = session.heap.mallocEnd := by
  simp only [Session.after, Memory.malloc]
  split
  · rfl
  · rfl

theorem Session.after_refused {size : UInt32} (full : session.heap.full size.toNat) :
    session.after (.malloc size) = session := by
  simp [Session.after, Session.returned, malloc_full full]

/-- A block that is freed right after its `malloc` is given back whole. -/
theorem Session.freed_again {size : UInt32} {block : Block} (below : session.heap.mallocPtr + 4 < 2 ^ 32)
    (granted : session.returned (.malloc size) = some block) :
    ((session.after (.malloc size)).after (.free block)).heap.mallocPtr = session.heap.mallocPtr ∧
    ((session.after (.malloc size)).after (.free block)).heap.mallocEnd = session.heap.mallocEnd ∧
    ((session.after (.malloc size)).after (.free block)).allocated = session.allocated := by
  have room : ¬session.heap.full size.toNat := by
    intro full
    rw [(Session.refused_iff below).mpr full] at granted
    cases granted
  have address : (session.heap.mallocPtr + 4) % 2 ^ 32 = session.heap.mallocPtr + 4 := Nat.mod_eq_of_lt below
  have back : (session.heap.mallocPtr + 4 + 2 ^ 32 - 4) % 2 ^ 32 = session.heap.mallocPtr := by omega
  have block' : block = { address := session.heap.mallocPtr + 4, size := size.toNat } := by
    simp only [Session.returned, Memory.malloc, if_neg room, address] at granted
    rw [if_neg (Nat.succ_ne_zero _)] at granted
    exact (Option.some.inj granted).symm
  subst block'
  simp only [Session.after, granted, Memory.malloc, if_neg room, Memory.free, address, if_true, back]
  exact ⟨trivial, trivial, List.erase_cons_head ..⟩

/-! ## Blocks one above the other -/

section Stacking

variable {blocks : List Block} {block : Block} {top last : Nat}

theorem stacked_below (below : ∀ block ∈ blocks, block.limit ≤ top) {next : Nat} (room : top + size + 4 ≤ next) :
    ∀ block ∈ { address := top + 4, size := size } :: blocks, block.limit ≤ next := by
  intro block member
  rcases List.mem_cons.mp member with rfl | old
  · simp only [Block.limit]
    omega
  · have := below block old
    omega

theorem stacked_before (below : ∀ block ∈ blocks, block.limit ≤ top) :
    ∀ block ∈ { address := top + 4, size := size } :: blocks,
      block.address = top + 4 ∨ block.limit + 4 ≤ top + 4 := by
  intro block member
  rcases List.mem_cons.mp member with rfl | old
  · exact .inl rfl
  · exact .inr (Nat.add_le_add_right (below block old) 4)

theorem stacked_apart (below : ∀ block ∈ blocks, block.limit ≤ top) (apart : blocks.Pairwise Block.Apart) :
    ({ address := top + 4, size := size } :: blocks).Pairwise Block.Apart :=
  List.pairwise_cons.mpr ⟨fun block old => .inr (Nat.add_le_add_right (below block old) 4), apart⟩

/-- All other blocks are in front of the last one. -/
theorem beneath_last (apart : blocks.Pairwise Block.Apart)
    (before : ∀ block ∈ blocks, block.address = last ∨ block.limit + 4 ≤ last) (member : block ∈ blocks)
    (newest : block.address = last) : ∀ other ∈ blocks.erase block, other.limit + 4 ≤ last := by
  intro other old
  have separate := (List.pairwise_cons.mp
    (((List.perm_cons_erase member).pairwise_iff fun apart => apart.symm).mp apart)).1 other old
  rcases before other (List.mem_of_mem_erase old) with same | lower
  · simp only [Block.Apart, Block.limit] at separate
    omega
  · exact lower

end Stacking

theorem Session.Ordered.after_malloc (ordered : session.Ordered) {size : UInt32}
    (noWrap : session.NoWrap (.malloc size)) : (session.after (.malloc size)).Ordered := by
  rcases Session.after_malloc noWrap with ⟨-, same⟩ | ⟨room, -, block⟩
  · rw [same]
    exact ordered
  · have limit := ordered.limit
    have above := ordered.inRange.1
    have aligned := ordered.aligned
    have constants : mallocBase + mallocSize = 0x800000 := by decide
    have rounded := roundUp_eq (x := session.heap.mallocPtr + size.toNat + 4) (by omega)
    rw [block]
    constructor
    · exact limit
    · constructor
      · simp only
        omega
      · simp only
        omega
    · exact rounded.2.2
    · right
      simp only
      omega
    · exact stacked_below ordered.below rounded.1
    · exact stacked_before ordered.below
    · exact stacked_apart ordered.below ordered.apart

theorem Session.Ordered.after_free (ordered : session.Ordered) {block : Block}
    (member : block ∈ session.allocated) : (session.after (.free block)).Ordered := by
  have limit := ordered.limit
  have kept : ∀ other ∈ session.allocated.erase block, other ∈ session.allocated :=
    fun other old => List.mem_of_mem_erase old
  have apart := ordered.apart.sublist (List.erase_sublist (a := block))
  have last := ordered.last.resolve_left (List.ne_nil_of_mem member)
  by_cases newest : block.address = session.heap.lastAlloc
  · have back : (session.heap.lastAlloc + 2 ^ 32 - 4) % 2 ^ 32 = session.heap.lastAlloc - 4 := by
      have constants : mallocBase + mallocSize = 0x800000 := by decide
      omega
    have below := beneath_last ordered.apart ordered.before member newest
    simp only [Session.after, Memory.free, if_pos newest, back]
    constructor
    · exact limit
    · constructor
      · simp only
        omega
      · simp only
        omega
    · simp only
      omega
    · exact .inr last
    · exact fun other old => Nat.le_sub_of_add_le (below other old)
    · exact fun other old => .inr (below other old)
    · exact apart
  · simp only [Session.after, Memory.free, if_neg newest]
    constructor
    · exact limit
    · exact ordered.inRange
    · exact ordered.aligned
    · exact .inr last
    · exact fun other old => ordered.below other (kept other old)
    · exact fun other old => ordered.before other (kept other old)
    · exact apart

theorem Session.Ordered.after (ordered : session.Ordered) {call : Call}
    (allowed : session.Allows call) (noWrap : session.NoWrap call) : (session.after call).Ordered := by
  cases call with
  | malloc size => exact ordered.after_malloc noWrap
  | free block => exact ordered.after_free allowed

/-- A call keeps the promise exactly when its sum is not mistaken for room. -/
theorem Session.Ordered.returnsFresh_iff (ordered : session.Ordered) (call : Call) :
    session.ReturnsFresh call ↔ session.NoWrap call := by
  cases call with
  | free block => simp [Session.ReturnsFresh, Session.returned, Session.NoWrap]
  | malloc size =>
      have limit := ordered.limit
      have above := ordered.inRange.1
      have aligned := ordered.aligned
      have constants : mallocBase = 0x500000 ∧ mallocSize = 0x300000 := by decide
      constructor
      · intro fresh
        by_contra wraps
        obtain ⟨wrapped, room⟩ := not_or.mp wraps
        have address := malloc_address ordered.inRange.2 limit room
        have returned : { address := session.heap.mallocPtr + 4, size := size.toNat } ∈
            session.returned (.malloc size) := by
          simp [Session.returned, address]
        have below := (fresh _ returned).1.below
        simp only [Block.limit] at below
        omega
      · intro noWrap block returned
        rcases Session.after_malloc noWrap with ⟨none, -⟩ | ⟨room, some, -⟩
        · rw [none] at returned
          cases returned
        · rw [some] at returned
          cases returned
          refine ⟨⟨?_, ?_, ?_⟩, fun other old => .inr ?_⟩
          · simp only
            omega
          · simp only
            omega
          · simp only [Block.limit]
            omega
          · have := ordered.below other old
            simp only
            omega

theorem obeys_iff (ordered : session.Ordered) {calls : List Call} (legal : Legal session calls) :
    Obeys session calls ↔ NeverWraps session calls := by
  induction calls generalizing session with
  | nil => simp [Obeys, NeverWraps, ordered.inRange]
  | cons call rest ih =>
      obtain ⟨allowed, legalRest⟩ := legal
      simp only [Obeys, NeverWraps, ordered.inRange, ordered.returnsFresh_iff, true_and]
      apply and_congr_right
      intro noWrap
      exact ih (ordered.after allowed noWrap) legalRest

/-- The firmware claims the range at the address it was asked for, or refuses. -/
def ClaimsExactly (promClaim : Nat → Nat → Nat) : Prop :=
  ∀ virt size, promClaim virt size = virt ∨ promClaim virt size = noAddress

/-- The heap as `malloc_init` leaves it. -/
theorem mallocInit_ordered {promClaim : Nat → Nat → Nat} (exact : ClaimsExactly promClaim)
    {before heap : Heap} (ready : mallocInit promClaim before = .ok () heap) :
    Session.Ordered { heap, allocated := [] } := by
  rcases exact mallocBase mallocSize with granted | refused
  · have accepted : ¬ mallocBase = noAddress := by decide
    have run : mallocInit promClaim before =
        .ok () { before with mallocPtr := mallocBase, mallocEnd := (mallocBase + mallocSize) % 2 ^ 32 } := by
      simp only [mallocInit, granted, if_neg accepted]
      rfl
    have start : heap.mallocPtr = mallocBase ∧ heap.mallocEnd = mallocBase + mallocSize := by
      rw [run] at ready
      cases ready
      exact ⟨rfl, rfl⟩
    refine ⟨start.2, ⟨Nat.le_of_eq start.1.symm, ?_⟩, ?_, .inl rfl, ?_, ?_, .nil⟩
    · rw [start.1, start.2]
      exact Nat.le_add_right _ _
    · simp only [start.1]
      decide
    · simp
    · simp
  · have run : mallocInit promClaim before = .error .mallocInit { before with mallocPtr := noAddress } := by
      simp only [mallocInit, refused]
      rfl
    rw [run] at ready
    cases ready

/-- From `malloc_init` on, the heap keeps its promise over a run exactly when
the sum `malloc_ptr + size + 4` never wraps around to less than `malloc_end`. -/
theorem heap_obeys_iff {promClaim : Nat → Nat → Nat} (exact : ClaimsExactly promClaim)
    {before heap : Heap} (ready : mallocInit promClaim before = .ok () heap)
    {calls : List Call} (legal : Legal { heap, allocated := [] } calls) :
    Obeys { heap, allocated := [] } calls ↔ NeverWraps { heap, allocated := [] } calls :=
  obeys_iff (mallocInit_ordered exact ready) legal

def grantingClaim (virt _size : Nat) : Nat := virt

/-- Before `malloc_init`. -/
def noHeap : Heap := { mallocPtr := 0, mallocEnd := 0, lastAlloc := 0, sizes := fun _ => 0 }

/-- What `malloc_init` leaves when the firmware grants the claim. -/
def freshHeap : Heap := { noHeap with mallocPtr := 0x500000, mallocEnd := 0x800000 }

def sampleCalls : List Call := [.malloc 5, .malloc 0x300000, .free { address := 0x500004, size := 5 }]

theorem heap_obeys_sample : Obeys { heap := freshHeap, allocated := [] } sampleCalls := by
  have ready : mallocInit grantingClaim noHeap = .ok () freshHeap := rfl
  have legal : Legal { heap := freshHeap, allocated := [] } sampleCalls :=
    ⟨trivial, trivial, .head _, trivial⟩
  have neverWraps : NeverWraps { heap := freshHeap, allocated := [] } sampleCalls :=
    ⟨.inl (by decide), .inr (by decide), trivial, trivial⟩
  exact (heap_obeys_iff (fun _ _ => .inl rfl) ready legal).mpr neverWraps

/-- The first request is for `0xFFFFFFF8` bytes: the block starts in the heap,
and `malloc_ptr` goes below it. -/
theorem heap_not_obeys :
    mallocInit grantingClaim noHeap = .ok () freshHeap ∧
    Legal { heap := freshHeap, allocated := [] } [.malloc 0xFFFFFFF8] ∧
    ¬ Obeys { heap := freshHeap, allocated := [] } [.malloc 0xFFFFFFF8] := by
  refine ⟨rfl, ⟨trivial, trivial⟩, fun obeys => ?_⟩
  have low : (Session.after { heap := freshHeap, allocated := [] } (.malloc 0xFFFFFFF8)).heap.mallocPtr
      = 0x4FFFFC := by decide
  have above := obeys.2.2.1
  rw [low] at above
  revert above
  decide

end IQuik.Memory
