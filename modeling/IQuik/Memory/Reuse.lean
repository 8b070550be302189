import IQuik.Memory.Realloc

namespace IQuik.Memory

open IQuik.Data IQuik.Program IQuik.PowerPC

/-! # Blocks that are resized

A program asks for blocks, has them resized and gives them back, in any order,
and writes to memory in between.
-/

/-- Memory, and the blocks that were handed out and not taken back since. -/
structure Use where
  store : Store
  live : List Block

inductive Request where
  | malloc (size : UInt32)
  | realloc (ptr : Option Block) (size : UInt32)
  | free (ptr : Option Block)

/-- A block's address, or `NULL`. -/
def pointer : Option Block → Nat
  | none => 0
  | some block => block.address

/-- The pointer returned, and `0` for `free`, which returns nothing. -/
def call : Request → Prog QuikErr Store Nat
  | .malloc size => mallocStored size.toNat
  | .realloc ptr size => realloc (pointer ptr) size.toNat
  | .free ptr => do
      freeStored (pointer ptr)
      pure 0

namespace Use

variable (use : Use)

/-- Only a block in use, or `NULL`, is resized or freed. -/
def Allows : Request → Prop
  | .malloc _ => True
  | .realloc ptr _ => ∀ block ∈ ptr, block ∈ use.live
  | .free ptr => ∀ block ∈ ptr, block ∈ use.live

def others : Option Block → List Block
  | none => use.live
  | some block => use.live.erase block

/-- The blocks in use after a request that returned `got`. -/
def handed (got : Nat) : Request → List Block
  | .malloc size => if got = 0 then use.live else { address := got, size := size.toNat } :: use.live
  | .realloc ptr size =>
      if got = 0 then use.live else { address := got, size := size.toNat } :: use.others ptr
  | .free ptr => use.others ptr

/-- What is promised of `realloc (ptr, size)`. -/
def Keeps (ptr : Option Block) (size : UInt32) : Prop :=
  ∃ got after, realloc (pointer ptr) size.toNat use.store = .ok got after ∧
    (got = 0 ∨
      Block.Placed { address := got, size := size.toNat } after.heap ∧
        (∀ other ∈ use.others ptr, Block.Apart { address := got, size := size.toNat } other) ∧
        ∀ block ∈ ptr, ∀ j < min block.size size.toNat,
          after.byte (got + j) = use.store.byte (block.address + j)) ∧
    ∀ other ∈ use.others ptr, ∀ j < other.size,
      after.byte (other.address + j) = use.store.byte (other.address + j)

/-- The wrapped sum of the room test is not mistaken for room. -/
def Exact (size : Nat) : Prop := use.store.heap.full size ∨ use.store.heap.mallocPtr + size + 4 < 2 ^ 32

/-- The request leaves `malloc_ptr` in the heap, behind every block in use. -/
def Safe : Request → Prop
  | .malloc size => use.Exact size.toNat
  | .realloc ptr size =>
      if pointer ptr = use.store.heap.lastAlloc then
        ptr ≠ none ∧ use.store.heap.lastAlloc + size.toNat ≤ use.store.heap.mallocEnd
      else use.Exact size.toNat
  | .free ptr => pointer ptr = use.store.heap.lastAlloc → ptr ≠ none

/-- A block that stays where it is has to be aligned and to find room there, and
another one needs a place that is. Before the first block `NULL` stays `NULL`. -/
def Resizes (ptr : Option Block) (size : UInt32) : Prop :=
  if pointer ptr = use.store.heap.lastAlloc then
    ptr = none ∨ (use.store.heap.lastAlloc % 4 = 0 ∧
      use.store.heap.lastAlloc + size.toNat ≤ use.store.heap.mallocEnd)
  else use.store.heap.full size.toNat ∨
    (use.store.heap.mallocPtr + size.toNat + 4 < 2 ^ 32 ∧ use.store.heap.mallocPtr % 4 = 0)

end Use

/-- What is reached from `malloc_init` on by requests that all meet `Meets`. In
between the program may write anywhere but to the words in front of its blocks. -/
inductive Reached (promClaim : Nat → Nat → Nat) (Meets : Use → Request → Prop) : Use → Prop where
  | init {heap : Heap} (bytes : PowerPC.Memory) (ready : mallocInit promClaim noHeap = .ok () heap) :
      Reached promClaim Meets { store := { heap, bytes }, live := [] }
  | request {use : Use} {request : Request} {got : Nat} {after : Store} (reached : Reached promClaim Meets use)
      (allowed : use.Allows request) (meets : Meets use request) (ran : call request use.store = .ok got after) :
      Reached promClaim Meets { store := after, live := use.handed got request }
  | writes {use : Use} {bytes : PowerPC.Memory} (reached : Reached promClaim Meets use)
      (headers : ∀ block ∈ use.live,
        { use.store with bytes : Store }.header block.address = use.store.header block.address) :
      Reached promClaim Meets { use with store := { use.store with bytes } }

/-! # The invariant -/

/-- What holds between two requests. `last_alloc` may be stale, and is `NULL`
before the first block. -/
structure Use.Sound (use : Use) : Prop where
  limit : use.store.heap.mallocEnd = mallocBase + mallocSize
  inRange : mallocBase ≤ use.store.heap.mallocPtr ∧ use.store.heap.mallocPtr ≤ use.store.heap.mallocEnd
  last : use.store.heap.lastAlloc = 0 ∧ use.live = [] ∨
    (mallocBase + 4 ≤ use.store.heap.lastAlloc ∧ use.store.heap.lastAlloc ≤ use.store.heap.mallocEnd)
  above : ∀ block ∈ use.live, mallocBase + 4 ≤ block.address
  below : ∀ block ∈ use.live, block.limit ≤ use.store.heap.mallocPtr
  before : ∀ block ∈ use.live,
    block.address = use.store.heap.lastAlloc ∨ block.limit + 4 ≤ use.store.heap.lastAlloc
  apart : use.live.Pairwise Block.Apart
  header : ∀ block ∈ use.live, use.store.header block.address = block.size

namespace Use.Sound

variable {use : Use} {size : Nat} {ptr : Option Block}

theorem pointer_small (sound : use.Sound) : use.store.heap.mallocPtr ≤ 0x800000 :=
  sound.inRange.2.trans (Nat.le_of_eq sound.limit)

/-- Memory that keeps the words in front of the blocks. -/
theorem writes (sound : use.Sound) {bytes : PowerPC.Memory}
    (headers : ∀ block ∈ use.live,
      { use.store with bytes : Store }.header block.address = use.store.header block.address) :
    Use.Sound { use with store := { use.store with bytes } } where
  limit := sound.limit
  inRange := sound.inRange
  last := sound.last
  above := sound.above
  below := sound.below
  before := sound.before
  apart := sound.apart
  header := fun block member => (headers block member).trans (sound.header block member)

/-- Fewer blocks are in use. -/
theorem forget (sound : use.Sound) {live : List Block} (fewer : live.Sublist use.live) :
    Use.Sound { use with live } where
  limit := sound.limit
  inRange := sound.inRange
  last := by
    rcases sound.last with ⟨never, empty⟩ | last
    · rw [empty] at fewer
      exact .inl ⟨never, List.sublist_nil.mp fewer⟩
    · exact .inr last
  above := fun block member => sound.above block (fewer.subset member)
  below := fun block member => sound.below block (fewer.subset member)
  before := fun block member => sound.before block (fewer.subset member)
  apart := sound.apart.sublist fewer
  header := fun block member => sound.header block (fewer.subset member)

/-- `malloc` writes behind all blocks in use. -/
theorem granted_byte (sound : use.Sound) (size : Nat) :
    ∀ address < use.store.heap.mallocPtr, (use.store.granted size).byte address = use.store.byte address := by
  intro address below
  have small := sound.pointer_small
  exact Store.store_byte (by omega) (by omega) (.inl below)

theorem granted_header (use : Use) (size : UInt32) :
    (use.store.granted size.toNat).header (use.store.heap.mallocPtr + 4) = size.toNat := by
  have front : UInt32.ofNat (use.store.heap.mallocPtr + 4) - 4 = UInt32.ofNat use.store.heap.mallocPtr := by
    rw [UInt32.ofNat_add]
    exact add_sub_cancel_right ..
  rw [Store.header, front, Store.granted, word_store, UInt32.ofNat_toNat]

theorem malloc (sound : use.Sound) {size : UInt32}
    (fits : use.store.heap.mallocPtr + size.toNat + 4 < use.store.heap.mallocEnd) :
    Use.Sound
      { store := use.store.granted size.toNat
        live := { address := use.store.heap.mallocPtr + 4, size := size.toNat } :: use.live } := by
  have limit := sound.limit
  have above := sound.inRange.1
  have constants : mallocBase = 0x500000 ∧ mallocSize = 0x300000 := by decide
  have rounded := roundUp_eq (x := use.store.heap.mallocPtr + size.toNat + 4) (by omega)
  constructor
  · exact limit
  · simp only [Store.granted]
    omega
  · simp only [Store.granted]
    omega
  · intro block member
    rcases List.mem_cons.mp member with rfl | member
    · simp only
      omega
    · exact sound.above block member
  · exact stacked_below sound.below rounded.1
  · exact stacked_before sound.below
  · exact stacked_apart sound.below sound.apart
  · intro block member
    rcases List.mem_cons.mp member with rfl | member
    · exact granted_header use size
    · have behind := sound.above block member
      rw [(Store.block_below (sound.granted_byte size.toNat) (by omega) (sound.below block member)).1]
      exact sound.header block member

/-! ## Resizing in place -/

/-- After the last block was resized. -/
def resized (use : Use) (block : Block) (size : Nat) : Store where
  heap :=
    { use.store.heap with
      sizes := Function.update use.store.heap.sizes ((block.address + 2 ^ 32 - 4) % 2 ^ 32) size
      mallocPtr := (block.address + size) % 2 ^ 32 }
  bytes := use.store.bytes.store (UInt32.ofNat block.address - 4) (UInt32.ofNat size)

variable {block : Block}

theorem resized_byte (sound : use.Sound) (member : block ∈ use.live) (size : Nat) {address : Nat}
    (small : address < 2 ^ 32) (outside : address < block.address - 4 ∨ block.address ≤ address) :
    (resized use block size).byte address = use.store.byte address := by
  have above := sound.above block member
  have below := sound.below block member
  have limit := sound.pointer_small
  rw [Block.limit] at below
  have front : UInt32.ofNat block.address - 4 = UInt32.ofNat (block.address - 4) :=
    (UInt32.ofNat_sub (b := 4) (by omega)).symm
  rw [Store.byte, resized, front]
  exact Store.store_byte (by omega) small (by omega)

theorem resized_others (sound : use.Sound) (member : block ∈ use.live)
    (newest : block.address = use.store.heap.lastAlloc) (size : Nat) :
    ∀ other ∈ use.live.erase block,
      (resized use block size).header other.address = use.store.header other.address ∧
        ∀ j < other.size, (resized use block size).byte (other.address + j) = use.store.byte (other.address + j) := by
  intro other old
  have lower := beneath_last sound.apart sound.before member newest other old
  have above := sound.above other (List.mem_of_mem_erase old)
  have small := sound.pointer_small
  have below := sound.below block member
  rw [Block.limit] at below
  refine Store.block_below ?_ (by omega) (show other.limit ≤ block.address - 4 by omega)
  exact fun address low => sound.resized_byte member size (by omega) (.inl low)

theorem resize (sound : use.Sound) (member : block ∈ use.live)
    (newest : block.address = use.store.heap.lastAlloc) {size : UInt32}
    (fits : use.store.heap.lastAlloc + size.toNat ≤ use.store.heap.mallocEnd) :
    Use.Sound
      { store := resized use block size.toNat
        live := { address := block.address, size := size.toNat } :: use.live.erase block } := by
  have limit := sound.limit
  have constants : mallocBase = 0x500000 ∧ mallocSize = 0x300000 := by decide
  have above := sound.above block member
  have lower := beneath_last sound.apart sound.before member newest
  have kept {other : Block} (old : other ∈ use.live.erase block) : other ∈ use.live := List.mem_of_mem_erase old
  have pointer : (resized use block size.toNat).heap.mallocPtr = block.address + size.toNat :=
    Nat.mod_eq_of_lt (by omega)
  constructor
  · exact limit
  · simp only [pointer]
    simp only [resized]
    omega
  · have last := sound.last
    simp only [resized]
    omega
  · intro other among
    rcases List.mem_cons.mp among with rfl | old
    · exact above
    · exact sound.above other (kept old)
  · intro other among
    simp only [pointer]
    rcases List.mem_cons.mp among with rfl | old
    · exact Nat.le_refl _
    · have := lower other old
      omega
  · intro other among
    rcases List.mem_cons.mp among with rfl | old
    · exact .inl newest
    · exact .inr (lower other old)
  · refine List.pairwise_cons.mpr ⟨fun other old => .inr ?_, sound.apart.sublist (List.erase_sublist ..)⟩
    have := lower other old
    simp only
    omega
  · intro other among
    rcases List.mem_cons.mp among with rfl | old
    · simp only [Store.header, resized]
      rw [word_store, UInt32.ofNat_toNat]
    · rw [(sound.resized_others member newest size.toNat other old).1]
      exact sound.header other (kept old)

/-! ## Resizing elsewhere -/

/-- The size of the block at a pointer. -/
def extent : Option Block → Nat
  | none => 0
  | some block => block.size

/-- After a block was copied to a new one. -/
def replaced (use : Use) (ptr : Option Block) (size : Nat) : Store :=
  { use.store.granted size with
    bytes := (use.store.granted size).bytes.moved (UInt32.ofNat (use.store.heap.mallocPtr + 4))
      (UInt32.ofNat (pointer ptr)) 0 (extent ptr) }

/-- The old block ends before the new one starts. -/
theorem canCopy (sound : use.Sound) (allowed : ∀ block ∈ ptr, block ∈ use.live) :
    CanCopy (use.store.heap.mallocPtr + 4) (pointer ptr) (extent ptr) := by
  have small := sound.pointer_small
  cases ptr with
  | none => simp only [CanCopy, pointer, extent]; omega
  | some block =>
      have below := sound.below block (allowed block rfl)
      simp only [CanCopy, pointer, extent, Block.limit] at *
      omega

theorem realloc_replaced (sound : use.Sound) (allowed : ∀ block ∈ ptr, block ∈ use.live)
    (other : pointer ptr ≠ use.store.heap.lastAlloc) (room : ¬ use.store.heap.full size)
    (exact : use.store.heap.mallocPtr + size + 4 < 2 ^ 32) :
    realloc (pointer ptr) size use.store = .ok (use.store.heap.mallocPtr + 4) (replaced use ptr size) := by
  rw [realloc_other other (mallocStored_granted room exact).2]
  cases ptr with
  | none =>
      rw [if_neg fun copies => copies.2 rfl, replaced, moved_nothing (show extent none ≤ 0 from Nat.le_refl 0)]
  | some block =>
      have above := sound.above block (allowed block rfl)
      have below := sound.below block (allowed block rfl)
      have header : (use.store.granted size).header block.address = block.size :=
        (Store.block_below (sound.granted_byte size) (by omega) below).1.trans
          (sound.header block (allowed block rfl))
      have pointers : use.store.heap.mallocPtr + 4 ≠ 0 ∧ pointer (some block) ≠ 0 := by
        simp only [pointer]
        omega
      have can : CanCopy (use.store.heap.mallocPtr + 4) block.address block.size := sound.canCopy allowed
      rw [if_pos pointers]
      simp only [pointer, header]
      rw [Prog.bind_run_ok (memcpy_ok can)]
      rfl

/-- Nothing changes in front of the new block. -/
theorem replaced_byte (sound : use.Sound) (allowed : ∀ block ∈ ptr, block ∈ use.live) (size : Nat) :
    ∀ address < use.store.heap.mallocPtr + 4,
      (replaced use ptr size).byte address = (use.store.granted size).byte address := by
  intro address low
  have can := sound.canCopy allowed
  have small := sound.pointer_small
  exact Store.moved_byte can.1 (by omega) (.inl low)

theorem replaced_contents (sound : use.Sound) (allowed : block ∈ use.live) (size : Nat) :
    ∀ j < block.size, (replaced use (some block) size).byte (use.store.heap.mallocPtr + 4 + j) =
      use.store.byte (block.address + j) := by
  intro j inside
  have small := sound.pointer_small
  have below := sound.below block allowed
  rw [Block.limit] at below
  rw [← sound.granted_byte size (block.address + j) (by omega)]
  simp only [Store.byte, replaced, UInt32.ofNat_add]
  exact moved_inside (by omega) (Nat.zero_le j) inside

theorem replace (sound : use.Sound) (allowed : ∀ block ∈ ptr, block ∈ use.live) {size : UInt32}
    (fits : use.store.heap.mallocPtr + size.toNat + 4 < use.store.heap.mallocEnd) :
    Use.Sound
      { store := replaced use ptr size.toNat
        live := { address := use.store.heap.mallocPtr + 4, size := size.toNat } :: use.others ptr } := by
  have grown := sound.malloc fits
  have copied : Use.Sound
      { store := replaced use ptr size.toNat
        live := { address := use.store.heap.mallocPtr + 4, size := size.toNat } :: use.live } := by
    refine grown.writes fun block member => ?_
    refine Store.header_congr ?_ fun i few => sound.replaced_byte allowed size.toNat _ ?_
    · have := grown.above block member
      omega
    · rcases List.mem_cons.mp member with rfl | old
      · simp only
        omega
      · have := sound.below block old
        have := sound.above block old
        rw [Block.limit] at *
        omega
  refine copied.forget (List.Sublist.cons_cons _ ?_)
  cases ptr with
  | none => exact List.Sublist.refl _
  | some block => exact List.erase_sublist ..

theorem free (sound : use.Sound) (member : block ∈ use.live) : Use.Sound
    { store := { use.store with heap := Memory.free block.address use.store.heap }
      live := use.live.erase block } := by
  have fewer := sound.forget (List.erase_sublist (a := block) (l := use.live))
  by_cases newest : block.address = use.store.heap.lastAlloc
  · have lower := beneath_last sound.apart sound.before member newest
    have above := sound.above block member
    have last := sound.last
    have inRange := sound.inRange
    have limit := sound.limit
    have constants : mallocBase = 0x500000 ∧ mallocSize = 0x300000 := by decide
    have back : (use.store.heap.lastAlloc + 2 ^ 32 - 4) % 2 ^ 32 = use.store.heap.lastAlloc - 4 := by omega
    simp only [Memory.free, if_pos newest, back]
    refine ⟨limit, ?_, fewer.last, fewer.above, ?_, fewer.before, fewer.apart, fewer.header⟩
    · simp only
      omega
    · intro other old
      have := lower other old
      simp only
      omega
  · simp only [Memory.free, if_neg newest]
    exact fewer

end Use.Sound

/-! # Runs -/

section Runs

variable {promClaim : Nat → Nat → Nat} {use : Use} {ptr : Option Block} {size : UInt32}

theorem mallocInit_lastAlloc {before heap : Heap} (ready : mallocInit promClaim before = .ok () heap) :
    heap.lastAlloc = before.lastAlloc := by
  by_cases refused : promClaim mallocBase mallocSize = noAddress
  · have run : mallocInit promClaim before = .error .mallocInit { before with mallocPtr := promClaim mallocBase mallocSize } := by
      simp only [mallocInit, if_pos refused]
      rfl
    rw [run] at ready
    cases ready
  · have run : mallocInit promClaim before = .ok ()
        { before with
          mallocPtr := promClaim mallocBase mallocSize
          mallocEnd := (promClaim mallocBase mallocSize + mallocSize) % 2 ^ 32 } := by
      simp only [mallocInit, if_neg refused]
      rfl
    rw [run] at ready
    cases ready
    rfl

theorem realloc_refused (other : pointer ptr ≠ use.store.heap.lastAlloc) (full : use.store.heap.full size.toNat) :
    realloc (pointer ptr) size.toNat use.store = .ok 0 use.store := by
  rw [realloc_other other (mallocStored_full full), if_neg fun copies => copies.1 rfl]

/-- A pointer to a block in use is not `NULL`. -/
theorem Use.Sound.some_of_last (sound : use.Sound) (allowed : ∀ block ∈ ptr, block ∈ use.live)
    (last : pointer ptr = use.store.heap.lastAlloc) :
    (ptr = none ∧ use.store.heap.lastAlloc = 0 ∧ use.live = []) ∨
      ∃ block, ptr = some block ∧ block ∈ use.live ∧ block.address = use.store.heap.lastAlloc := by
  cases ptr with
  | some block => exact .inr ⟨block, rfl, allowed block rfl, last⟩
  | none =>
      rcases sound.last with start | high
      · exact .inl ⟨rfl, start⟩
      · simp only [pointer] at last
        omega

theorem Use.Sound.request (sound : use.Sound) {request : Request} (allowed : use.Allows request)
    (safe : use.Safe request) {got : Nat} {after : Store} (ran : call request use.store = .ok got after) :
    Use.Sound { store := after, live := use.handed got request } := by
  cases request with
  | malloc size =>
      by_cases full : use.store.heap.full size.toNat
      · rw [call, mallocStored_full full] at ran
        cases ran
        exact sound
      · obtain ⟨fits, granted⟩ := mallocStored_granted full (safe.resolve_left full)
        rw [call, granted] at ran
        cases ran
        exact sound.malloc fits
  | realloc ptr size =>
      by_cases last : pointer ptr = use.store.heap.lastAlloc
      · rw [Use.Safe, if_pos last] at safe
        rcases sound.some_of_last allowed last with ⟨rfl, -⟩ | ⟨block, rfl, member, newest⟩
        · exact absurd rfl safe.1
        · rw [call, realloc_last last] at ran
          cases ran
          have above := sound.above block member
          have address : pointer (some block) ≠ 0 := by
            simp only [pointer]
            omega
          rw [Use.handed, if_neg address]
          exact sound.resize member newest safe.2
      · rw [Use.Safe, if_neg last] at safe
        by_cases full : use.store.heap.full size.toNat
        · rw [call, realloc_refused last full] at ran
          cases ran
          exact sound
        · have exact := safe.resolve_left full
          rw [call, sound.realloc_replaced allowed last full exact] at ran
          cases ran
          exact sound.replace allowed (mallocStored_granted full exact).1
  | free ptr =>
      have freed : call (.free ptr) use.store =
          .ok 0 { use.store with heap := Memory.free (pointer ptr) use.store.heap } := rfl
      rw [freed] at ran
      cases ran
      cases ptr with
      | some block => exact sound.free (allowed block rfl)
      | none =>
          have other : pointer none ≠ use.store.heap.lastAlloc := fun last => safe last rfl
          rw [Memory.free, if_neg other]
          exact sound

/-- The invariant holds over whole runs. -/
theorem Reached.sound (exact : ClaimsExactly promClaim) (reached : Reached promClaim Use.Safe use) : use.Sound := by
  induction reached with
  | init bytes ready =>
      have ordered := mallocInit_ordered exact ready
      exact ⟨ordered.limit, ordered.inRange, .inl ⟨mallocInit_lastAlloc ready, rfl⟩, List.forall_mem_nil _,
        List.forall_mem_nil _, List.forall_mem_nil _, .nil, List.forall_mem_nil _⟩
  | request _ allowed safe ran sound => exact sound.request allowed safe ran
  | writes _ headers sound => exact sound.writes headers

/-! # What `realloc` keeps -/

theorem Use.keeps_null (start : use.store.heap.lastAlloc = 0) (empty : use.live = []) :
    use.Keeps none size := by
  refine ⟨0, _, realloc_last start.symm, .inl rfl, ?_⟩
  rw [Use.others, empty]
  exact List.forall_mem_nil _

/-- A block is resized in place. -/
theorem Use.Sound.keeps_last_iff (sound : use.Sound) {block : Block} (member : block ∈ use.live)
    (newest : block.address = use.store.heap.lastAlloc) :
    use.Keeps (some block) size ↔ use.store.heap.lastAlloc % 4 = 0 ∧
      use.store.heap.lastAlloc + size.toNat ≤ use.store.heap.mallocEnd := by
  have above := sound.above block member
  have ran : realloc (pointer (some block)) size.toNat use.store =
      .ok block.address (Use.Sound.resized use block size.toNat) := realloc_last newest
  rw [← newest]
  constructor
  · rintro ⟨got, after, kept, promise, -⟩
    rw [ran] at kept
    cases kept
    have placed := (promise.resolve_left (by omega)).1
    exact ⟨placed.aligned, placed.below⟩
  · rintro ⟨aligned, fits⟩
    have others := sound.resized_others member newest size.toNat
    refine ⟨_, _, ran, .inr ⟨⟨aligned, by simp only; omega, fits⟩, fun other old => .inr ?_, ?_⟩,
      fun other old => (others other old).2⟩
    · have := beneath_last sound.apart sound.before member newest other old
      simp only
      omega
    · intro same known j within
      cases known
      have below := sound.below block member
      have small := sound.pointer_small
      rw [Block.limit] at below
      exact sound.resized_byte member size.toNat (by omega) (.inr (Nat.le_add_right ..))

theorem Use.keeps_full (other : pointer ptr ≠ use.store.heap.lastAlloc)
    (full : use.store.heap.full size.toNat) : use.Keeps ptr size :=
  ⟨0, use.store, realloc_refused other full, .inl rfl, fun _ _ _ _ => rfl⟩

/-- A block is moved to a new place. -/
theorem Use.Sound.keeps_other_iff (sound : use.Sound) (allowed : ∀ block ∈ ptr, block ∈ use.live)
    (other : pointer ptr ≠ use.store.heap.lastAlloc) (room : ¬ use.store.heap.full size.toNat) :
    use.Keeps ptr size ↔
      use.store.heap.mallocPtr + size.toNat + 4 < 2 ^ 32 ∧ use.store.heap.mallocPtr % 4 = 0 := by
  have small := sound.pointer_small
  have limit := sound.limit
  have constants : mallocBase = 0x500000 ∧ mallocSize = 0x300000 := by decide
  have kept {block : Block} (among : block ∈ use.others ptr) : block ∈ use.live := by
    cases ptr with
    | none => exact among
    | some old => exact List.mem_of_mem_erase among
  constructor
  · rintro ⟨got, after, ran, promise, -⟩
    obtain ⟨rfl, heap⟩ := realloc_other_ok other room ran
    have address := malloc_address sound.inRange.2 limit room
    have placed := (promise.resolve_left (by omega)).1
    have aligned := placed.aligned
    have below := placed.below
    have same : after.heap.mallocEnd = use.store.heap.mallocEnd := by
      rw [heap, Memory.malloc, if_neg room]
    simp only [Block.limit] at below aligned
    omega
  · rintro ⟨exact, aligned⟩
    have ran := sound.realloc_replaced allowed other room exact
    have fits := (mallocStored_granted room exact).1
    have inRange := sound.inRange
    refine ⟨_, _, ran, .inr ⟨⟨?_, ?_, ?_⟩, fun block among => .inr ?_, ?_⟩, fun block among j within => ?_⟩
    · simp only
      omega
    · simp only
      omega
    · simp only [Block.limit, Use.Sound.replaced, Store.granted]
      omega
    · have := sound.below block (kept among)
      simp only
      omega
    · intro block known j within
      cases known
      exact sound.replaced_contents (allowed block rfl) size.toNat j (by omega)
    · have below := sound.below block (kept among)
      rw [Block.limit] at below
      rw [sound.replaced_byte allowed size.toNat _ (by omega)]
      exact sound.granted_byte size.toNat _ (by omega)

/-- In every state that is reached by safe requests, `realloc` keeps its promise
exactly when the block finds room and an aligned place. -/
theorem realloc_keeps_iff (exact : ClaimsExactly promClaim) (reached : Reached promClaim Use.Safe use)
    (allowed : use.Allows (.realloc ptr size)) : use.Keeps ptr size ↔ use.Resizes ptr size := by
  have sound := reached.sound exact
  by_cases last : pointer ptr = use.store.heap.lastAlloc
  · rw [Use.Resizes, if_pos last]
    rcases sound.some_of_last allowed last with ⟨rfl, start, empty⟩ | ⟨block, rfl, member, newest⟩
    · exact iff_of_true (Use.keeps_null start empty) (.inl rfl)
    · rw [sound.keeps_last_iff member newest, or_iff_right (Option.some_ne_none block)]
  · rw [Use.Resizes, if_neg last]
    by_cases full : use.store.heap.full size.toNat
    · exact iff_of_true (Use.keeps_full last full) (.inl full)
    · rw [sound.keeps_other_iff allowed last full, or_iff_right full]

/-- One block of eight bytes is in use. -/
def oneBlock : Use where
  store := Store.granted { heap := freshHeap, bytes := fun _ => 0 } 8
  live := [{ address := 0x500004, size := 8 }]

theorem reached_oneBlock {Meets : Use → Request → Prop}
    (meets : Meets { store := { heap := freshHeap, bytes := fun _ => 0 }, live := [] } (.malloc 8)) :
    Reached grantingClaim Meets oneBlock := by
  have start : Reached grantingClaim Meets { store := { heap := freshHeap, bytes := fun _ => 0 }, live := [] } :=
    .init (fun _ => 0) rfl
  have allowed : Use.Allows { store := { heap := freshHeap, bytes := fun _ => 0 }, live := [] } (.malloc 8) := trivial
  exact .request start allowed meets (mallocStored_granted (by decide) (by decide)).2

theorem oneBlock_allows (size : UInt32) : oneBlock.Allows (.realloc (some { address := 0x500004, size := 8 }) size) := by
  rintro block ⟨⟩
  exact .head _

theorem realloc_keeps_oneBlock : oneBlock.Keeps (some { address := 0x500004, size := 8 }) 100 :=
  (realloc_keeps_iff (fun _ _ => .inl rfl) (reached_oneBlock (.inr (by decide))) (oneBlock_allows 100)).mpr
    (.inr ⟨by decide, by decide⟩)

/-- The block grows to the size of the whole heap, beyond its end. -/
theorem not_realloc_keeps : ¬ ∀ (promClaim : Nat → Nat → Nat) (use : Use) (ptr : Option Block) (size : UInt32),
    ClaimsExactly promClaim → Reached promClaim (fun _ _ => True) use → use.Allows (.realloc ptr size) →
      use.Keeps ptr size := by
  intro claimed
  have keeps := claimed grantingClaim oneBlock _ 0x300000 (fun _ _ => .inl rfl) (reached_oneBlock trivial)
    (oneBlock_allows 0x300000)
  have sound := (reached_oneBlock (.inr (by decide))).sound fun _ _ => .inl rfl
  have fits := ((sound.keeps_last_iff (.head _) rfl).mp keeps).2
  revert fits
  decide

end Runs

end IQuik.Memory
