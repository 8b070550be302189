import IQuik.Memory.Heap
import IQuik.PowerPC.Copies

namespace IQuik.Memory

open IQuik.Data IQuik.Program IQuik.PowerPC

/-! # `realloc`, over the bytes of memory -/

/-- The globals of `malloc.c`, and memory. -/
structure Store where
  heap : Heap
  bytes : PowerPC.Memory

namespace Store

variable (store : Store)

def byte (address : Nat) : UInt8 := store.bytes (UInt32.ofNat address)

/-- `*(int *) (ptr - sizeof (int))`. -/
def header (ptr : Nat) : Nat := (store.bytes.word (UInt32.ofNat ptr - 4)).toNat

def putWord (address : Word) (value : Nat) : Store :=
  { store with bytes := store.bytes.store address (UInt32.ofNat value) }

end Store

/-- `malloc`, with the size stored in front of the block. -/
def mallocStored (size : Nat) : Prog QuikErr Store Nat := do
  let heap ← Prog.view Store.heap
  if heap.full size then pure 0 else do
    Prog.update fun store => store.putWord (UInt32.ofNat heap.mallocPtr) size
    Prog.update fun store => { store with heap := (malloc size heap).2 }
    pure (malloc size heap).1

/-- A copy of which no byte is overwritten before it is read. -/
def CanCopy (dest src count : Nat) : Prop :=
  dest + count ≤ 2 ^ 32 ∧ src + count ≤ 2 ^ 32 ∧ (dest ≤ src ∨ src + count ≤ dest)

instance (dest src count : Nat) : Decidable (CanCopy dest src count) := inferInstanceAs (Decidable (_ ∧ _ ∧ _))

/-- `memcpy`. The language demands even more of the two ranges. -/
def memcpy (dest src count : Nat) : Prog QuikErr Store Unit := do
  Prog.demand (CanCopy dest src count)
  Prog.update fun store =>
    { store with bytes := store.bytes.moved (UInt32.ofNat dest) (UInt32.ofNat src) 0 count }

def realloc (ptr size : Nat) : Prog QuikErr Store Nat := do
  let heap ← Prog.view Store.heap
  if ptr = heap.lastAlloc then do
    Prog.update fun store => store.putWord (UInt32.ofNat ptr - 4) size
    Prog.update fun store =>
      { store with
        heap :=
          { heap with
            sizes := Function.update heap.sizes ((ptr + 2 ^ 32 - 4) % 2 ^ 32) size
            mallocPtr := (ptr + size) % 2 ^ 32 } }
    pure ptr
  else do
    let caddr ← mallocStored size
    if caddr ≠ 0 ∧ ptr ≠ 0 then do
      let count ← Prog.view fun store => store.header ptr
      memcpy caddr ptr count
      pure caddr
    else pure caddr

def freeStored (ptr : Nat) : Prog QuikErr Store Unit :=
  Prog.update fun store => { store with heap := free ptr store.heap }

/-! ## `memcpy` is that of `string.S` -/

section Copying

variable {store after : Store} {dest src count : Nat}

theorem memcpy_ok (can : CanCopy dest src count) : memcpy dest src count store =
    .ok ⟨⟩ { store with bytes := store.bytes.moved (UInt32.ofNat dest) (UInt32.ofNat src) 0 count } := by
  rw [memcpy, Prog.demand_pos can]
  rfl

theorem memcpy_undefined (cannot : ¬ CanCopy dest src count) : memcpy dest src count store = .undefined := by
  rw [memcpy, Prog.demand_neg cannot]
  rfl

theorem memcpy_heap {value : Unit} (copied : memcpy dest src count store = .ok value after) :
    after.heap = store.heap := by
  by_cases can : CanCopy dest src count
  · rw [memcpy_ok can] at copied
    cases copied
    rfl
  · rw [memcpy_undefined can] at copied
    cases copied

/-- Where `memcpy` is defined, the assembly does the same. -/
theorem memcpy_refines (copied : memcpy dest src count store = .ok ⟨⟩ after) (core : Core)
    (same : core.mem = store.bytes) (small : dest < 2 ^ 32 ∧ src < 2 ^ 32 ∧ count < 2 ^ 32) :
    ∃ final,
      copies.Returns .memcpy (callCopy (UInt32.ofNat dest) (UInt32.ofNat src) (UInt32.ofNat count) core) final ∧
        final.mem = after.bytes := by
  by_cases can : CanCopy dest src count
  · rw [memcpy_ok can] at copied
    cases copied
    obtain ⟨target, source, direction⟩ := can
    have ascending : Ascending (UInt32.ofNat dest) (UInt32.ofNat src) count := by
      have dest' := UInt32.toNat_ofNat_of_lt' small.1
      have src' := UInt32.toNat_ofNat_of_lt' small.2.1
      exact ⟨⟨by rwa [dest'], by rwa [src']⟩, by rwa [dest', src']⟩
    apply Listing.returns_of_eventually
    exact memcpy_run ascending rfl rfl same rfl small.2.2
  · rw [memcpy_undefined can] at copied
    cases copied

end Copying

/-! ## Bytes at addresses below `2 ^ 32` -/

namespace Store

variable {before after : Store} {address bound : Nat}

theorem store_byte {bytes : PowerPC.Memory} {at' : Nat} {value : Word} (fits : at' + 4 ≤ 2 ^ 32)
    (small : address < 2 ^ 32) (outside : address < at' ∨ at' + 4 ≤ address) :
    bytes.store (UInt32.ofNat at') value (UInt32.ofNat address) = bytes (UInt32.ofNat address) := by
  apply store_frame
  intro i few same
  have offset := congrArg UInt32.toNat same
  rw [UInt32.toNat_add, UInt32.toNat_ofNat_of_lt' small,
    UInt32.toNat_ofNat_of_lt' (show at' < 2 ^ 32 by omega)] at offset
  have small' : i.toNat < 4 := UInt32.lt_iff_toNat_lt.mp few
  omega

theorem moved_byte {bytes : PowerPC.Memory} {dest src count : Nat} (fits : dest + count ≤ 2 ^ 32)
    (small : address < 2 ^ 32) (outside : address < dest ∨ dest + count ≤ address) :
    bytes.moved (UInt32.ofNat dest) (UInt32.ofNat src) 0 count (UInt32.ofNat address) = bytes (UInt32.ofNat address) := by
  apply moved_outside
  intro k _ below same
  have offset := congrArg UInt32.toNat same
  rw [place, ← UInt32.ofNat_add, UInt32.toNat_ofNat_of_lt' small,
    UInt32.toNat_ofNat_of_lt' (show dest + k < 2 ^ 32 by omega)] at offset
  omega

/-- The word in front of a block is made of four bytes. -/
theorem header_congr (behind : 4 ≤ address)
    (same : ∀ i < 4, after.byte (address - 4 + i) = before.byte (address - 4 + i)) :
    after.header address = before.header address := by
  have start : UInt32.ofNat address - 4 = UInt32.ofNat (address - 4) := (UInt32.ofNat_sub behind).symm
  rw [header, header, start]
  refine congrArg UInt32.toNat (word_congr fun i few => ?_)
  rw [place, ← UInt32.ofNat_add]
  exact same i few

/-- Bytes below `bound` are the same, so a block there is the same. -/
theorem block_below (same : ∀ address < bound, after.byte address = before.byte address) {block : Block}
    (behind : 4 ≤ block.address) (inside : block.limit ≤ bound) :
    after.header block.address = before.header block.address ∧
      ∀ j < block.size, after.byte (block.address + j) = before.byte (block.address + j) := by
  rw [Block.limit] at inside
  exact ⟨header_congr behind fun i few => same _ (by omega), fun j within => same _ (by omega)⟩

end Store

/-! ## What the calls do -/

section Calls

variable {store : Store} {ptr size : Nat}

/-- After a block of `size` bytes was handed out. -/
def Store.granted (store : Store) (size : Nat) : Store where
  heap :=
    { store.heap with
      sizes := Function.update store.heap.sizes store.heap.mallocPtr size
      lastAlloc := store.heap.mallocPtr + 4
      mallocPtr := roundUp (store.heap.mallocPtr + size + 4) }
  bytes := store.bytes.store (UInt32.ofNat store.heap.mallocPtr) (UInt32.ofNat size)

theorem mallocStored_full (full : store.heap.full size) : mallocStored size store = .ok 0 store := by
  rw [mallocStored, Prog.bind_run_ok (Prog.view_run _), if_pos full]
  rfl

theorem mallocStored_room (room : ¬ store.heap.full size) : mallocStored size store =
    .ok (malloc size store.heap).1
      { heap := (malloc size store.heap).2
        bytes := store.bytes.store (UInt32.ofNat store.heap.mallocPtr) (UInt32.ofNat size) } := by
  rw [mallocStored, Prog.bind_run_ok (Prog.view_run _), if_neg room]
  rfl

theorem mallocStored_granted (room : ¬ store.heap.full size) (exact : store.heap.mallocPtr + size + 4 < 2 ^ 32) :
    store.heap.mallocPtr + size + 4 < store.heap.mallocEnd ∧
      mallocStored size store = .ok (store.heap.mallocPtr + 4) (store.granted size) := by
  rcases malloc_cases exact with refused | ⟨fits, granted⟩
  · rw [malloc, if_neg room, Nat.mod_eq_of_lt (by omega)] at refused
    cases congrArg Prod.fst refused
  · exact ⟨fits, by rw [mallocStored_room room, granted]; rfl⟩

/-- The block allocated last is resized where it is. -/
theorem realloc_last (last : ptr = store.heap.lastAlloc) : realloc ptr size store =
    .ok ptr
      { heap :=
          { store.heap with
            sizes := Function.update store.heap.sizes ((ptr + 2 ^ 32 - 4) % 2 ^ 32) size
            mallocPtr := (ptr + size) % 2 ^ 32 }
        bytes := store.bytes.store (UInt32.ofNat ptr - 4) (UInt32.ofNat size) } := by
  rw [realloc, Prog.bind_run_ok (Prog.view_run _), if_pos last]
  rfl

/-- Any other block is not given back. -/
theorem realloc_other (other : ptr ≠ store.heap.lastAlloc) {caddr : Nat} {middle : Store}
    (granted : mallocStored size store = .ok caddr middle) :
    realloc ptr size store =
      if caddr ≠ 0 ∧ ptr ≠ 0 then (memcpy caddr ptr (middle.header ptr) >>= fun _ => pure caddr) middle
      else .ok caddr middle := by
  rw [realloc, Prog.bind_run_ok (Prog.view_run _), if_neg other, Prog.bind_run_ok granted]
  split <;> rfl

/-- The pointer returned is that of `malloc`, and so are the globals. -/
theorem realloc_other_ok (other : ptr ≠ store.heap.lastAlloc) (room : ¬ store.heap.full size) {got : Nat} {after : Store}
    (ran : realloc ptr size store = .ok got after) :
    got = (malloc size store.heap).1 ∧ after.heap = (malloc size store.heap).2 := by
  rw [realloc_other other (mallocStored_room room)] at ran
  split at ran
  · obtain ⟨_, middle, copied, ran⟩ := Prog.bind_eq_ok.mp ran
    cases ran
    exact ⟨rfl, memcpy_heap copied⟩
  · cases ran
    exact ⟨rfl, rfl⟩

end Calls

end IQuik.Memory
