import IQuik.Loader.Granted

namespace IQuik.Loader

open IQuik.Data IQuik.Program

/-! # Moving a kernel to where it runs -/

def iquikBase : Nat := 0x3E0000
def iquikSize : Nat := 0x20000
def mallocBase : Nat := 0x500000
def mallocSize : Nat := 0x300000

/-- `memmove`, the source of which may wrap. -/
def memmove (memory : Image) (dest src count : Nat) : Image := fun address =>
  if dest ≤ address ∧ address < dest + count then memory (wrap (src + (address - dest))) else memory address

/-- `elf_relo`, which returns the image and leaves the memory. `flush_cache`
changes neither. -/
def elfRelo (around : Surroundings) (pre24 : Bool) (memory : Image) (image : LoadState) :
    LoadProg (LoadState × Image) :=
  if pre24 then
    if iquikBase < image.textLen then Prog.fail .kernelOldBig
    else do
      promEnsureClaimed around image.linkedBase image.textLen
      pure (image, memmove memory image.linkedBase (wrap (image.buf + image.textOffset)) image.textLen)
  else
    let linkedBase := wrap (image.buf + image.textOffset)
    pure ({ image with
              linkedBase := linkedBase
              entry := wrap (wrap (image.entry + (0x100000000 - image.linkedBase)) + linkedBase) }, memory)

section Moving

variable {around : Surroundings} {memory : Image} {image : LoadState} {claims : Claims}

theorem elfRelo_new : elfRelo around false memory image claims =
    .ok ({ image with
            linkedBase := wrap (image.buf + image.textOffset)
            entry := wrap (wrap (image.entry + (0x100000000 - image.linkedBase)) +
              wrap (image.buf + image.textOffset)) }, memory) claims := rfl

theorem elfRelo_big (big : iquikBase < image.textLen) :
    elfRelo around true memory image claims = .error .kernelOldBig claims := by
  rw [elfRelo, if_pos rfl, if_pos big]
  rfl

variable (around memory claims) in
theorem elfRelo_old (small : image.textLen ≤ iquikBase) (masked : image.linkedBase < 0x10000000)
    (enough : (image.textLen + 4095) / 4096 < around.fuel) :
    ∃ after, elfRelo around true memory image claims =
      .ok (image, memmove memory image.linkedBase (wrap (image.buf + image.textOffset)) image.textLen) after := by
  have known : image.textLen ≤ 0x3E0000 := small
  obtain ⟨after, claimed⟩ := claimEach_ok around (pageRow ((image.textLen + 4095) / 4096) image.linkedBase) claims
  refine ⟨after, ?_⟩
  rw [elfRelo, if_pos rfl, if_neg (Nat.not_lt.mpr small)]
  exact Prog.bind_run_ok ((promEnsureClaimed_row (by omega) enough claims).trans claimed)

/-- Of two addresses that hold the same byte in every memory, one is the other. -/
theorem eq_of_same_byte {left right : Nat} (same : ∀ memory : Image, memory left = memory right) : left = right := by
  by_contra differ
  have marked := same fun address => if address = left then 1 else 0
  rw [if_pos rfl, if_neg (Ne.symm differ)] at marked
  exact absurd marked (by decide)

end Moving

/-- `elf_relo` returns, and does what `Done` says unless it takes the kernel for
too big. -/
def Relocates (pre24 : Bool) (image : LoadState) (Done : Image → LoadState × Image → Prop) : Prop :=
  ∃ fuel, ∀ around : Surroundings, fuel ≤ around.fuel → ∀ memory claims,
    elfRelo around pre24 memory image claims = .error .kernelOldBig claims ∨
      ∃ result after, elfRelo around pre24 memory image claims = .ok result after ∧ Done memory result

section Strategies

variable {image : LoadState} {Done : Image → LoadState × Image → Prop}

theorem relocates_new : Relocates false image Done ↔
    ∀ memory, Done memory ({ image with
      linkedBase := wrap (image.buf + image.textOffset)
      entry := wrap (wrap (image.entry + (0x100000000 - image.linkedBase)) +
        wrap (image.buf + image.textOffset)) }, memory) := by
  constructor
  · rintro ⟨fuel, relocates⟩ memory
    obtain refused | ⟨result, after, run, done⟩ :=
      relocates (grantless memory fuel) (Nat.le_refl fuel) memory (Claims.start [])
    · rw [elfRelo_new] at refused
      cases refused
    · rw [elfRelo_new] at run
      cases run
      exact done
  · exact fun done => ⟨0, fun around _ memory claims => .inr ⟨_, _, elfRelo_new, done memory⟩⟩

theorem relocates_old (masked : image.linkedBase < 0x10000000) : Relocates true image Done ↔
    iquikBase < image.textLen ∨ ∀ memory, Done memory
      (image, memmove memory image.linkedBase (wrap (image.buf + image.textOffset)) image.textLen) := by
  by_cases big : iquikBase < image.textLen
  · exact iff_of_true ⟨0, fun around _ memory claims => .inl (elfRelo_big big)⟩ (.inl big)
  have small : image.textLen ≤ iquikBase := Nat.le_of_not_lt big
  rw [or_iff_right big]
  constructor
  · rintro ⟨fuel, relocates⟩ memory
    let around : Surroundings := grantless memory (fuel + ((image.textLen + 4095) / 4096 + 1))
    obtain ⟨other, moved⟩ := elfRelo_old around memory (Claims.start []) small masked
      (show (image.textLen + 4095) / 4096 < fuel + ((image.textLen + 4095) / 4096 + 1) by omega)
    obtain refused | ⟨result, after, run, done⟩ := relocates around (Nat.le_add_right ..) memory (Claims.start [])
    · cases moved.symm.trans refused
    · cases moved.symm.trans run
      exact done
  · intro done
    refine ⟨(image.textLen + 4095) / 4096 + 1, fun around enough memory claims => .inr ?_⟩
    obtain ⟨after, run⟩ := elfRelo_old around memory claims small masked enough
    exact ⟨_, after, run, done memory⟩

end Strategies

/-! ## Where the kernel is moved to -/

def loaderRange : Range := (iquikBase, iquikSize)
def heapRange : Range := (mallocBase, mallocSize)

def LoadState.moved (image : LoadState) : Range := (image.linkedBase, image.textLen)

/-- Below the loader, between it and its heap, or above the heap. -/
def LoadState.OutOfTheWay (image : LoadState) : Prop :=
  image.linkedBase + image.textLen ≤ iquikBase ∨
    (iquikBase + iquikSize ≤ image.linkedBase ∧ image.linkedBase + image.textLen ≤ mallocBase) ∨
    mallocBase + mallocSize ≤ image.linkedBase

section Destination

variable {around : Surroundings} {loadBuf loadBufLen : Nat} {claims after : Claims} {image : LoadState}

theorem outOfTheWay_iff (some' : 0 < image.textLen) :
    image.moved.Apart loaderRange ∧ image.moved.Apart heapRange ↔ image.OutOfTheWay := by
  rw [LoadState.OutOfTheWay, iquikBase, iquikSize, mallocBase, mallocSize]
  constructor
  · rintro ⟨loader, heap⟩
    by_contra inside
    by_cases low : image.linkedBase < 0x400000
    · apply loader (max image.linkedBase 0x3E0000)
      · exact ⟨Nat.le_max_left .., show max image.linkedBase 0x3E0000 < image.linkedBase + image.textLen by omega⟩
      · exact ⟨Nat.le_max_right .., show max image.linkedBase 0x3E0000 < 0x3E0000 + 0x20000 by omega⟩
    · apply heap (max image.linkedBase 0x500000)
      · exact ⟨Nat.le_max_left .., show max image.linkedBase 0x500000 < image.linkedBase + image.textLen by omega⟩
      · exact ⟨Nat.le_max_right .., show max image.linkedBase 0x500000 < 0x500000 + 0x300000 by omega⟩
  · intro outside
    refine ⟨fun byte held inside => ?_, fun byte held inside => ?_⟩
    · have lower : image.linkedBase ≤ byte := held.1
      have upper : byte < image.linkedBase + image.textLen := held.2
      have loaderLower : 0x3E0000 ≤ byte := inside.1
      have loaderUpper : byte < 0x3E0000 + 0x20000 := inside.2
      omega
    · have lower : image.linkedBase ≤ byte := held.1
      have upper : byte < image.linkedBase + image.textLen := held.2
      have heapLower : 0x500000 ≤ byte := inside.1
      have heapUpper : byte < 0x500000 + 0x300000 := inside.2
      omega

theorem addrMask_lt (addr : Nat) : addrMask addr < 0x10000000 := Nat.mod_lt _ (by decide)

/-- The only guard of `elf_relo` is on the length, so an image that it moves
misses the loader and its heap exactly when it was linked out of their way. -/
theorem moved_apart_iff (accepted : elfParse around loadBuf loadBufLen claims = .ok image after) :
    Relocates true image (fun _ result => result.1.moved.Apart loaderRange ∧ result.1.moved.Apart heapRange) ↔
      iquikBase < image.textLen ∨ image.OutOfTheWay := by
  obtain ⟨extent, header, rfl, -⟩ := elfParse_ok accepted
  obtain ⟨first, last, -, -, -, reaches⟩ := elfExtent_reaches header
  have masked : extent.linkedBase < 0x10000000 := reaches.linkedBase ▸ addrMask_lt first.vaddr
  rw [relocates_old masked]
  dsimp only
  rw [forall_const, outOfTheWay_iff (Nat.pos_of_ne_zero (elfExtent_ok header).2)]

def linkedAt (vaddr : Nat) : Surroundings :=
  kernelOnly vaddr [{ offset := 0x100, vaddr, filesz := 0x40, memsz := 0x40 }]

theorem linkedAt_zero_run :
    elfParse (linkedAt 0xC0000000) 0x800000 0x1000 (Claims.start []) =
      .ok ⟨0x800000, 0, 0x100, 0x40, 0⟩ (Claims.start []) := by
  have run : (elfParse (linkedAt 0xC0000000) 0x800000 0x1000 (Claims.start [])).result? =
      some (⟨0x800000, 0, 0x100, 0x40, 0⟩, Claims.start []) := by decide +kernel
  exact Outcome.result?_eq_some.mp run

theorem moved_apart_zero :
    Relocates true ⟨0x800000, 0, 0x100, 0x40, 0⟩
        (fun _ result => result.1.moved.Apart loaderRange ∧ result.1.moved.Apart heapRange) ↔
      iquikBase < 0x40 ∨ LoadState.OutOfTheWay ⟨0x800000, 0, 0x100, 0x40, 0⟩ :=
  moved_apart_iff linkedAt_zero_run

/-- A kernel of 64 bytes that is linked where the loader is. -/
theorem moved_onto_loader :
    ∃ image, elfParse (linkedAt 0xC03E0000) 0x800000 0x1000 (Claims.start []) = .ok image (Claims.start []) ∧
      ∃ around result after, elfRelo around true (linkedAt 0xC03E0000).memory image (Claims.start []) =
          .ok result after ∧
        ¬result.1.moved.Apart loaderRange := by
  have run : (elfParse (linkedAt 0xC03E0000) 0x800000 0x1000 (Claims.start [])).result? =
      some (⟨0x800000, 0x3E0000, 0x100, 0x40, 0x3E0000⟩, Claims.start []) := by decide +kernel
  let image : LoadState := ⟨0x800000, 0x3E0000, 0x100, 0x40, 0x3E0000⟩
  obtain ⟨after, moved⟩ := elfRelo_old { linkedAt 0xC03E0000 with fuel := 2 } (linkedAt 0xC03E0000).memory
    (Claims.start []) (show image.textLen ≤ iquikBase by decide) (by decide) (by decide)
  refine ⟨_, Outcome.result?_eq_some.mp run, _, _, after, moved, fun apart => ?_⟩
  exact apart 0x3E0000 ⟨by decide, by decide⟩ ⟨by decide, by decide⟩

end Destination

/-! ## Where the kernel is entered -/

/-- A kernel with its segments one behind the other, which is entered in the
first of them. -/
structure Entered (memory : Image) (loadBuf : Nat) (first : Segment) (entry : Nat) : Prop where
  head : (segments memory loadBuf).head? = some first
  increasing : (segments memory loadBuf).Pairwise fun before behind => before.offset + before.filesz ≤ behind.offset
  enters : memory.be32 (loadBuf + 24) = entry
  lower : first.vaddr ≤ entry
  upper : entry < first.vaddr + first.filesz
  within : addrMask first.vaddr + first.filesz ≤ 0x10000000

/-- From the entry on, the memory holds what the first segment of the file held
from there on. -/
def Enters (loadBuf : Nat) (first : Segment) (entry : Nat) (before : Image) (result : LoadState × Image) : Prop :=
  ∀ k, entry - first.vaddr + k < first.filesz →
    result.2 (wrap (result.1.entry + k)) = before (wrap (loadBuf + (first.offset + (entry - first.vaddr) + k)))

/-- The first segment, which ends behind what is moved only where it stays, lies
to the one that the code counts from, `start`, as it was linked. -/
structure Alike (loadBuf : Nat) (first : Segment) (entry : Nat) (start last : Segment) : Prop where
  congruent : wrap (first.offset + addrMask start.vaddr) = wrap (start.offset + addrMask first.vaddr)
  moved : iquikBase < start.upTo last ∨
    (addrMask start.vaddr ≤ addrMask entry ∧
      addrMask first.vaddr + first.filesz ≤ addrMask start.vaddr + start.upTo last) ∨
    addrMask first.vaddr = wrap (loadBuf + first.offset)

section Entry

variable {around : Surroundings} {loadBuf loadBufLen entry : Nat} {claims after : Claims} {image : LoadState}
  {first start last : Segment}

theorem addrMask_entry (lower : first.vaddr ≤ entry) (upper : entry < first.vaddr + first.filesz)
    (within : addrMask first.vaddr + first.filesz ≤ 0x10000000) :
    addrMask entry = addrMask first.vaddr + (entry - first.vaddr) := by
  rw [addrMask, addrMask] at *
  omega

theorem enters_new_iff (lower : first.vaddr ≤ entry) (upper : entry < first.vaddr + first.filesz)
    (within : addrMask first.vaddr + first.filesz ≤ 0x10000000) :
    (∀ memory, Enters loadBuf first entry memory
        ({ buf := loadBuf
           linkedBase := wrap (loadBuf + start.offset)
           textOffset := start.offset
           textLen := start.upTo last
           entry := wrap (wrap (addrMask entry + (0x100000000 - addrMask start.vaddr)) +
             wrap (loadBuf + start.offset)) }, memory)) ↔
      wrap (first.offset + addrMask start.vaddr) = wrap (start.offset + addrMask first.vaddr) := by
  have place := addrMask_entry lower upper within
  have masked := addrMask_lt start.vaddr
  constructor
  · intro enters
    have same : wrap (wrap (wrap (addrMask entry + (0x100000000 - addrMask start.vaddr)) +
        wrap (loadBuf + start.offset)) + 0) =
        wrap (loadBuf + (first.offset + (entry - first.vaddr) + 0)) :=
      eq_of_same_byte fun memory => enters memory 0 (by omega)
    rw [place] at same
    rw [wrap, wrap, wrap, wrap, wrap] at same
    rw [wrap, wrap]
    omega
  · intro congruent memory k _
    have same : wrap (wrap (wrap (addrMask entry + (0x100000000 - addrMask start.vaddr)) +
        wrap (loadBuf + start.offset)) + k) =
        wrap (loadBuf + (first.offset + (entry - first.vaddr) + k)) := by
      rw [place]
      rw [wrap, wrap] at congruent
      rw [wrap, wrap, wrap, wrap, wrap]
      omega
    exact congrArg memory same

theorem enters_old_iff (lower : first.vaddr ≤ entry) (upper : entry < first.vaddr + first.filesz)
    (within : addrMask first.vaddr + first.filesz ≤ 0x10000000)
    (congruent : wrap (first.offset + addrMask start.vaddr) = wrap (start.offset + addrMask first.vaddr)) :
    (∀ memory, Enters loadBuf first entry memory
        ({ buf := loadBuf, linkedBase := addrMask start.vaddr, textOffset := start.offset,
           textLen := start.upTo last, entry := addrMask entry },
          memmove memory (addrMask start.vaddr) (wrap (loadBuf + start.offset)) (start.upTo last))) ↔
      (addrMask start.vaddr ≤ addrMask entry ∧
        addrMask first.vaddr + first.filesz ≤ addrMask start.vaddr + start.upTo last) ∨
      addrMask first.vaddr = wrap (loadBuf + first.offset) := by
  have place := addrMask_entry lower upper within
  have masked := addrMask_lt start.vaddr
  have here (k : Nat) (inside : entry - first.vaddr + k < first.filesz) :
      wrap (addrMask entry + k) = addrMask entry + k := Nat.mod_eq_of_lt (by omega)
  -- A byte that is not moved is the right one only where the segment stays.
  have stays (k : Nat) (inside : entry - first.vaddr + k < first.filesz) :
      addrMask entry + k = wrap (loadBuf + (first.offset + (entry - first.vaddr) + k)) ↔
        addrMask first.vaddr = wrap (loadBuf + first.offset) := by
    rw [place, wrap, wrap]
    omega
  constructor
  · intro enters
    by_contra neither
    obtain ⟨outside, moves⟩ := not_or.mp neither
    -- The first byte, or else the last one, is not moved.
    obtain ⟨k, inside, missed⟩ : ∃ k, entry - first.vaddr + k < first.filesz ∧
        ¬(addrMask start.vaddr ≤ addrMask entry + k ∧
          addrMask entry + k < addrMask start.vaddr + start.upTo last) := by
      by_cases early : addrMask start.vaddr ≤ addrMask entry
      · exact ⟨first.filesz - 1 - (entry - first.vaddr), by omega, by omega⟩
      · exact ⟨0, by omega, by omega⟩
    have same : addrMask entry + k = wrap (loadBuf + (first.offset + (entry - first.vaddr) + k)) := by
      apply eq_of_same_byte
      intro memory
      have byte := enters memory k inside
      dsimp only at byte
      rwa [here k inside, memmove, if_neg missed] at byte
    exact moves ((stays k inside).mp same)
  · intro moved memory k inside
    dsimp only
    rw [here k inside, memmove]
    split
    · have same : wrap (wrap (loadBuf + start.offset) + (addrMask entry + k - addrMask start.vaddr)) =
          wrap (loadBuf + (first.offset + (entry - first.vaddr) + k)) := by
        rw [wrap, wrap] at congruent
        rw [place, wrap, wrap, wrap]
        omega
      exact congrArg memory same
    · obtain within | stay := moved
      · omega
      · exact congrArg memory ((stays k inside).mpr stay)

/-- Both paths enter the code of the file where the first segment is `Alike`, and
only there. -/
theorem same_code_iff (accepted : elfParse around loadBuf loadBufLen claims = .ok image after)
    (entered : Entered around.memory loadBuf first entry) :
    (∀ pre24, Relocates pre24 image (Enters loadBuf first entry)) ↔
      ∃ start last, anchor (segments around.memory loadBuf) = some start ∧
        (segments around.memory loadBuf).getLast? = some last ∧ Alike loadBuf first entry start last := by
  obtain ⟨extent, header, rfl, -⟩ := elfParse_ok accepted
  obtain ⟨start, last, anchored, -, ends, reaches⟩ := elfExtent_reaches header
  obtain ⟨off, len, linkedBase⟩ := extent
  obtain ⟨rfl, rfl, rfl⟩ := reaches
  have enters := entered.enters
  rw [enters]
  constructor
  · intro both
    have congruent := (enters_new_iff entered.lower entered.upper entered.within).mp (relocates_new.mp (both false))
    have old := (relocates_old (addrMask_lt start.vaddr)).mp (both true)
    exact ⟨start, last, anchored, ends, congruent,
      old.imp_right (enters_old_iff entered.lower entered.upper entered.within congruent).mp⟩
  · rintro ⟨start', last', anchored', ends', alike⟩ pre24
    obtain rfl : start = start' := Option.some.inj (anchored.symm.trans anchored')
    obtain rfl : last = last' := Option.some.inj (ends.symm.trans ends')
    cases pre24 with
    | false =>
        apply relocates_new.mpr
        exact (enters_new_iff entered.lower entered.upper entered.within).mpr alike.congruent
    | true =>
        apply (relocates_old (addrMask_lt start.vaddr)).mpr
        exact alike.moved.imp_right
          (enters_old_iff entered.lower entered.upper entered.within alike.congruent).mpr

theorem entered_inOrder : Entered inOrder.memory 0x800000 textSegment 0xC0000000 := by
  constructor <;> decide +kernel

theorem same_code_inOrder :
    (∀ pre24, Relocates pre24 ⟨0x800000, 0, 0x100, 0x180, 0⟩ (Enters 0x800000 textSegment 0xC0000000)) ↔
      ∃ start last, anchor (segments inOrder.memory 0x800000) = some start ∧
        (segments inOrder.memory 0x800000).getLast? = some last ∧
        Alike 0x800000 textSegment 0xC0000000 start last :=
  same_code_iff inOrder_run entered_inOrder

/-- A segment of zeros, which takes no bytes of the file, wherever that is. -/
def farSegment : Segment where
  offset := 0xFFFFFF00
  vaddr := 0xC0001000
  filesz := 0
  memsz := 0x204

/-- A kernel with one instruction in its text, and `farSegment`. -/
def farBss : Surroundings :=
  grantless (fun address =>
    if address = 0x800104 then 0x60 else kernelFile 0xC0000000 [textSegment, farSegment] address) 2

/-- The length of the code wraps to four bytes, and what is behind them is not
moved. -/
theorem far_bss_not_moved :
    ∃ image, elfParse farBss 0x800000 0x1000 (Claims.start []) = .ok image (Claims.start []) ∧
      Entered farBss.memory 0x800000 textSegment 0xC0000000 ∧
      ∃ result after, elfRelo farBss true farBss.memory image (Claims.start []) = .ok result after ∧
        ¬Enters 0x800000 textSegment 0xC0000000 farBss.memory result := by
  let image : LoadState := ⟨0x800000, 0, 0x100, 4, 0⟩
  have run : (elfParse farBss 0x800000 0x1000 (Claims.start [])).result? = some (image, Claims.start []) := by
    decide +kernel
  have entered : Entered farBss.memory 0x800000 textSegment 0xC0000000 := by
    constructor <;> decide +kernel
  obtain ⟨after, moved⟩ := elfRelo_old farBss farBss.memory (Claims.start [])
    (show image.textLen ≤ iquikBase by decide) (by decide) (by decide)
  refine ⟨image, Outcome.result?_eq_some.mp run, entered, _, after, moved, fun enters => ?_⟩
  exact absurd (enters 4 (by decide)) (by decide +kernel)

end Entry

end IQuik.Loader
