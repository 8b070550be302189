import IQuik.Loader.Pages
import IQuik.Loader.Release
import Mathlib.Data.List.Induction

namespace IQuik.Loader

open IQuik.Data IQuik.Program

/-! # The segments of a kernel file -/

/-- The fields of a program header that say where a segment is. -/
structure Segment where
  offset : Nat
  vaddr : Nat
  filesz : Nat
  memsz : Nat
deriving DecidableEq

def Segment.read (memory : Image) (p : Nat) : Segment where
  offset := memory.be32 (p + 4)
  vaddr := memory.be32 (p + 8)
  filesz := memory.be32 (p + 16)
  memsz := memory.be32 (p + 20)

/-- Behind the segment, counted from where the file is. -/
def Segment.finish (segment : Segment) : Nat := segment.offset + segment.memsz

/-- How far it is from `first` to the end of `last`, modulo the address space. -/
def Segment.upTo (first last : Segment) : Nat := (last.finish + (0x100000000 - first.offset)) % 0x100000000

/-- The `PT_LOAD` headers with an offset among the `count` headers from `p` on. -/
def segmentsAt (memory : Image) : (count : Nat) → (p : Nat) → List Segment
  | 0, _ => []
  | count + 1, p =>
      if memory.be32 p ≠ 1 ∨ memory.be32 (p + 4) = 0 then segmentsAt memory count (wrap (p + 32))
      else Segment.read memory p :: segmentsAt memory count (wrap (p + 32))

/-- Those of the file at `loadBuf`. -/
def segments (memory : Image) (loadBuf : Nat) : List Segment :=
  segmentsAt memory (memory.be16 (loadBuf + 44)) (wrap (loadBuf + memory.be32 (loadBuf + 28)))

/-! ## The loop over them -/

def Extent.none : Extent where
  off := 0
  len := 0
  linkedBase := 0

/-- What one segment makes of the extent so far. -/
def Extent.add (extent : Extent) (segment : Segment) : Extent :=
  if extent.len = 0 then { off := segment.offset, len := segment.memsz, linkedBase := addrMask segment.vaddr }
  else { extent with len := wrap (segment.offset + segment.memsz + (0x100000000 - extent.off)) }

theorem programHeaders_eq (memory : Image) (count p : Nat) (extent : Extent) :
    programHeaders memory count p extent = (segmentsAt memory count p).foldl Extent.add extent := by
  induction count generalizing p extent with
  | zero => rfl
  | succ count ih =>
      rw [programHeaders, ih, segmentsAt]
      split
      · rfl
      · rfl

/-- What `elf_parse` takes the kernel for when it accepts the file. -/
theorem elfExtent_ok {memory : Image} {loadBuf : Nat} {extent : Extent}
    (header : elfExtent memory loadBuf = .ok extent) :
    extent = (segments memory loadBuf).foldl Extent.add Extent.none ∧ extent.len ≠ 0 := by
  rw [elfExtent] at header
  split at header
  · split at header
    · dsimp only at header
      rw [programHeaders_eq] at header
      split at header
      · cases header
      · cases header
        exact ⟨rfl, ‹_›⟩
    · cases header
  · cases header

/-! ## Where the loop counts from -/

/-- The loop counts from the first segment that is not empty, and starts again
behind one that ends where it counts from. -/
def countFrom : Option Segment → Segment → Option Segment
  | .none, segment => if segment.memsz = 0 then .none else some segment
  | some anchor, segment => if wrap segment.finish = anchor.offset then .none else some anchor

def anchor (list : List Segment) : Option Segment := list.foldl countFrom .none

structure Segment.Fits (segment : Segment) : Prop where
  offset : segment.offset < 0x100000000
  memsz : segment.memsz < 0x100000000

theorem segmentsAt_fits {memory : Image} {count p : Nat} {segment : Segment}
    (mem : segment ∈ segmentsAt memory count p) : segment.Fits := by
  induction count generalizing p with
  | zero => cases mem
  | succ count ih =>
      rw [segmentsAt] at mem
      split at mem
      · exact ih mem
      · obtain rfl | mem := List.mem_cons.mp mem
        · exact ⟨memory.be32_lt (p + 4), memory.be32_lt (p + 20)⟩
        · exact ih mem

/-- The extent reaches from `first` to the end of `last`. -/
structure Extent.Reaches (extent : Extent) (first last : Segment) : Prop where
  off : extent.off = first.offset
  linkedBase : extent.linkedBase = addrMask first.vaddr
  len : extent.len = first.upTo last

/-- An extent and the segments it comes from. -/
inductive Counted (list : List Segment) (extent : Extent) : Prop
  | nothing (anchored : anchor list = .none) (len : extent.len = 0)
  | since (first last : Segment) (anchored : anchor list = some first) (mem : first ∈ list)
      (ends : list.getLast? = some last) (reaches : extent.Reaches first last) (len : extent.len ≠ 0)

theorem anchor_append (list : List Segment) (segment : Segment) :
    anchor (list ++ [segment]) = countFrom (anchor list) segment :=
  List.foldl_concat ..

theorem Counted.add {list : List Segment} {extent : Extent} {segment : Segment} (counted : Counted list extent)
    (fits : segment.Fits) (all : ∀ other ∈ list, other.Fits) : Counted (list ++ [segment]) (extent.add segment) := by
  have mem : segment ∈ list ++ [segment] := List.mem_append_right _ (List.mem_singleton_self _)
  have ends : (list ++ [segment]).getLast? = some segment := List.getLast?_concat
  cases counted with
  | nothing anchored len =>
      rw [Extent.add, if_pos len]
      by_cases empty : segment.memsz = 0
      · apply Counted.nothing
        · rw [anchor_append, anchored, countFrom, if_pos empty]
        · exact empty
      · apply Counted.since segment segment _ mem ends _ empty
        · rw [anchor_append, anchored, countFrom, if_neg empty]
        · refine ⟨rfl, rfl, ?_⟩
          have offset := fits.offset
          have memsz := fits.memsz
          have length : segment.memsz =
              (segment.offset + segment.memsz + (0x100000000 - segment.offset)) % 0x100000000 := by omega
          exact length
  | since first last anchored known before reaches len =>
      have offset := (all first known).offset
      rw [Extent.add, if_neg len]
      have length : wrap (segment.offset + segment.memsz + (0x100000000 - extent.off)) =
          first.upTo segment := by
        rw [reaches.off]
        rfl
      have closes : first.upTo segment = 0 ↔ wrap segment.finish = first.offset := by
        rw [Segment.upTo, wrap]
        omega
      by_cases again : wrap segment.finish = first.offset
      · apply Counted.nothing
        · rw [anchor_append, anchored, countFrom, if_pos again]
        · rw [length]
          exact closes.mpr again
      · apply Counted.since first segment _ (List.mem_append_left _ known) ends
        · exact ⟨reaches.off, reaches.linkedBase, length⟩
        · rw [length]
          exact fun closed => again (closes.mp closed)
        · rw [anchor_append, anchored, countFrom, if_neg again]

theorem counted {list : List Segment} (fits : ∀ segment ∈ list, segment.Fits) :
    Counted list (list.foldl Extent.add Extent.none) := by
  induction list using List.reverseRecOn with
  | nil => exact .nothing rfl rfl
  | append_singleton list segment ih =>
      rw [List.foldl_concat]
      have before (other : Segment) (mem : other ∈ list) : other.Fits := fits other (List.mem_append_left _ mem)
      exact (ih before).add (fits segment (List.mem_append_right _ (List.mem_singleton_self _))) before

/-- The segments of a file that `elf_parse` accepts. -/
theorem elfExtent_reaches {memory : Image} {loadBuf : Nat} {extent : Extent}
    (header : elfExtent memory loadBuf = .ok extent) :
    ∃ first last, anchor (segments memory loadBuf) = some first ∧ first ∈ segments memory loadBuf ∧
      (segments memory loadBuf).getLast? = some last ∧ extent.Reaches first last := by
  obtain ⟨rfl, some'⟩ := elfExtent_ok header
  cases counted fun segment mem => segmentsAt_fits (show segment ∈ segments memory loadBuf from mem) with
  | nothing anchored len => exact absurd len some'
  | since first last anchored mem ends reaches len => exact ⟨first, last, anchored, mem, ends, reaches⟩

/-! ## Segments inside the image -/

structure LoadState.Covers (image : LoadState) (segment : Segment) : Prop where
  lower : image.textOffset ≤ segment.offset
  upper : segment.finish ≤ image.textOffset + image.textLen

/-- The segment that the loop counts from comes first in the file, and the last
one ends last. -/
structure Ordered (list : List Segment) (first last : Segment) : Prop where
  anchored : anchor list = some first
  ends : list.getLast? = some last
  lowest : ∀ segment ∈ list, first.offset ≤ segment.offset
  highest : ∀ segment ∈ list, segment.finish ≤ last.finish
  inside : last.finish < first.offset + 0x100000000

/-- The image of an accepted file holds all of its segments exactly when they
are ordered. -/
theorem covers_iff {around : Surroundings} {loadBuf loadBufLen : Nat} {claims after : Claims} {image : LoadState}
    (run : elfParse around loadBuf loadBufLen claims = .ok image after) :
    (∀ segment ∈ segments around.memory loadBuf, image.Covers segment) ↔
      ∃ first last, Ordered (segments around.memory loadBuf) first last := by
  obtain ⟨extent, header, rfl, -⟩ := elfParse_ok run
  obtain ⟨first, last, anchored, mem, ends, reaches⟩ := elfExtent_reaches header
  have fits : first.Fits := segmentsAt_fits mem
  have offset := fits.offset
  have off := reaches.off
  have len : extent.len = (last.finish + (0x100000000 - first.offset)) % 0x100000000 := reaches.len
  have known : last ∈ segments around.memory loadBuf := List.mem_of_getLast? ends
  constructor
  · intro covers
    have upper := (covers last known).upper
    have lower := (covers last known).lower
    dsimp only at upper lower
    have start : last.offset ≤ last.finish := Nat.le_add_right ..
    have inside : last.finish < first.offset + 0x100000000 := by omega
    refine ⟨first, last, anchored, ends, fun segment mem => ?_, fun segment mem => ?_, inside⟩
    · have low := (covers segment mem).lower
      rwa [← off]
    · have high := (covers segment mem).upper
      dsimp only at high
      omega
  · rintro ⟨first', last', ordered⟩ segment mem
    obtain rfl : first = first' := Option.some.inj (anchored.symm.trans ordered.anchored)
    obtain rfl : last = last' := Option.some.inj (ends.symm.trans ordered.ends)
    have lowest := ordered.lowest segment mem
    have highest := ordered.highest segment mem
    have inside := ordered.inside
    have start := ordered.lowest last known
    have behind : last.offset ≤ last.finish := Nat.le_add_right ..
    constructor
    · exact off ▸ lowest
    · dsimp only
      omega

/-! ## Small files -/

def wordBytes (n : Nat) : List UInt8 :=
  [UInt8.ofNat (n / 0x1000000), UInt8.ofNat (n / 0x10000), UInt8.ofNat (n / 0x100), UInt8.ofNat n]

def Segment.bytes (segment : Segment) : List UInt8 :=
  wordBytes 1 ++ wordBytes segment.offset ++ wordBytes segment.vaddr ++ wordBytes 0 ++
    wordBytes segment.filesz ++ wordBytes segment.memsz ++ wordBytes 0 ++ wordBytes 0

/-- The headers of a kernel at `LOAD_BASE`. -/
def kernelFile (entry : Nat) (list : List Segment) : Image :=
  .ofRuns [(0x800000, [0x7F, 69, 76, 70, 1, 2]), (0x800018, wordBytes entry), (0x80001C, wordBytes 52),
    (0x80002D, [UInt8.ofNat list.length]), (0x800034, list.flatMap Segment.bytes)]

def kernelOnly (entry : Nat) (list : List Segment) : Surroundings := grantless (kernelFile entry list) 1

def textSegment : Segment where
  offset := 0x100
  vaddr := 0xC0000000
  filesz := 0x40
  memsz := 0x40

def dataSegment : Segment where
  offset := 0x200
  vaddr := 0xC0001000
  filesz := 0x40
  memsz := 0x80

def inOrder : Surroundings := kernelOnly 0xC0000000 [textSegment, dataSegment]

theorem inOrder_run :
    elfParse inOrder 0x800000 0x1000 (Claims.start []) =
      .ok { buf := 0x800000, linkedBase := 0, textOffset := 0x100, textLen := 0x180, entry := 0 }
        (Claims.start []) := by
  have run : (elfParse inOrder 0x800000 0x1000 (Claims.start [])).result? =
      some (⟨0x800000, 0, 0x100, 0x180, 0⟩, Claims.start []) := by decide +kernel
  exact Outcome.result?_eq_some.mp run

theorem covers_inOrder :
    (∀ segment ∈ segments inOrder.memory 0x800000, LoadState.Covers ⟨0x800000, 0, 0x100, 0x180, 0⟩ segment) ↔
      ∃ first last, Ordered (segments inOrder.memory 0x800000) first last :=
  covers_iff inOrder_run

/-- With its headers the other way round, the image of the same kernel leaves the
text out. -/
theorem covers_reversed :
    ∃ image after,
      elfParse (kernelOnly 0xC0000000 [dataSegment, textSegment]) 0x800000 0x1000 (Claims.start []) =
        .ok image after ∧
      textSegment ∈ segments (kernelFile 0xC0000000 [dataSegment, textSegment]) 0x800000 ∧
      ¬image.Covers textSegment := by
  have run : (elfParse (kernelOnly 0xC0000000 [dataSegment, textSegment]) 0x800000 0x1000
      (Claims.start [])).result? = some (⟨0x800000, 0x1000, 0x200, 0xFFFFFF40, 0⟩, Claims.start []) := by
    decide +kernel
  refine ⟨_, _, Outcome.result?_eq_some.mp run, by decide +kernel, fun covers => ?_⟩
  exact absurd covers.lower (by decide)

end IQuik.Loader
