import IQuik.Ext2.Frames
import IQuik.Ext2.Twins
import IQuik.Ext2.Volumes

namespace IQuik.Ext2

open IQuik.Data IQuik.Program IQuik.Storage

/-! # Two runs on one partition

Two calls of one function, from states that have the same partition open and
coherent caches, do the same. The caches, the numbers of the calls and the part
of the state that `keep` leaves open may differ.
-/

structure Paired (image : Nat → Image) (part : Part) (keep : Fs → Fs → Prop) (left right : Fs) :
    Prop where
  openLeft : left.part = part
  openRight : right.part = part
  warmLeft : Warm image left left
  warmRight : Warm image right right
  keep : keep left right

/-- Two calls of `program` agree; either may stop short if `short`. -/
abbrev Repeats (image : Nat → Image) (part : Part) (keep : Fs → Fs → Prop) (short : Prop)
    {α : Type} (holds : α → Prop) (program : FsProg α) : Prop :=
  RunsAlike short short (Paired image part keep) holds program program

/-- The same for a program that fills a buffer. -/
abbrev RepeatsFill (image : Nat → Image) (part : Part) (keep : Fs → Fs → Prop) (short : Prop)
    (program : FillProg Unit) : Prop :=
  RunsAlike short short (Prog.Beside (ρ := Buffer) (Paired image part keep)) (fun _ => True) program program

/-- A volume whose blocks do not start at the number that marks an empty cache; where
calls may stop short, any volume. -/
def Usable (short : Prop) (data : Ext2Data) : Prop := short ∨ data.log2Ext2BlockSize ≠ 0

/-- A node of such a volume. -/
def OfUsable (short : Prop) (node : Node) : Prop := Usable short node.data

variable {machine : Machine} {image : Nat → Image} {part : Part} {keep : Fs → Fs → Prop}
  {short : Prop}

theorem Known.settled {blanked : Prop} {start fs : Fs} (known : Known blanked image start fs) :
    Known blanked image fs fs where
  near := .refl fs
  indir1 := known.near.part ▸ known.indir1
  indir2 := known.near.part ▸ known.indir2

theorem Known.unchanged {blanked : Prop} {fs after : Fs} (known : Known blanked image fs fs)
    (same : SameWorld fs after) : Known blanked image after after := by
  refine ⟨.refl _, ?_, ?_⟩
  · rw [same.part, same.indir1]
    exact known.indir1
  · rw [same.part, same.indir2]
    exact known.indir2

theorem Warm.settled {start fs : Fs} (warm : Warm image start fs) : Warm image fs fs :=
  known_false.mp (known_false.mpr warm).settled

theorem Warm.unchanged {fs after : Fs} (warm : Warm image fs fs) (same : SameWorld fs after) :
    Warm image after after :=
  known_false.mp ((known_false.mpr warm).unchanged same)

theorem Paired.near {left left' right right' : Fs} (stable : Stable keep)
    (paired : Paired image part keep left right) (nearLeft : Warm image left left')
    (nearRight : Warm image right right') : Paired image part keep left' right' where
  openLeft := nearLeft.near.part.trans paired.openLeft
  openRight := nearRight.near.part.trans paired.openRight
  warmLeft := nearLeft.settled
  warmRight := nearRight.settled
  keep := stable _ _ _ _ nearLeft.near nearRight.near paired.keep

/-- A change of the globals that are neither the partition nor a cache nor a number of a call. -/
theorem Paired.change {keep' : Fs → Fs → Prop} {left left' right right' : Fs} (paired : Paired image part keep left right)
    (sameLeft : SameWorld left left') (sameRight : SameWorld right right') (kept : keep' left' right') :
    Paired image part keep' left' right' where
  openLeft := sameLeft.part.trans paired.openLeft
  openRight := sameRight.part.trans paired.openRight
  warmLeft := paired.warmLeft.unchanged sameLeft
  warmRight := paired.warmRight.unchanged sameRight
  keep := kept

/-- What agrees with a program that has no state does the same in two runs. -/
theorem repeats_of_agrees {α : Type} {holds : α → Prop} {program : FsProg α}
    (reference : Prog QuikErr Unit α) (stable : Stable keep)
    (agree : ∀ start : Fs, start.part = part →
      RunsAlike short False (fun fs _ => Warm image start fs) holds program reference) :
    Repeats image part keep short holds program :=
  runsAlike_of_agrees (fun paired => ⟨paired.warmLeft, paired.warmRight⟩)
    (fun paired => paired.near stable) reference
    fun paired => ⟨agree _ paired.openLeft, agree _ paired.openRight⟩

theorem repeatsFill_of_agrees {program : FillProg Unit} {reference : WalkProg Unit}
    (stable : Stable keep)
    (agree : ∀ start : Fs, start.part = part →
      RunsAlike short False (WarmBeside image start) (fun _ => True) program reference) :
    RepeatsFill image part keep short program :=
  fillsAlike_of_agrees (fun paired => ⟨paired.warmLeft, paired.warmRight⟩)
    (fun paired => paired.near stable) reference
    fun paired => ⟨agree _ paired.openLeft, agree _ paired.openRight⟩

section Runs

variable (fixed : machine.Fixed image) (reliable : short ∨ machine.Reliable)
include fixed reliable

omit fixed in
theorem malloc_repeats (stable : Stable keep) (size : Nat) :
    Repeats image part keep short (fun _ => True) (malloc machine size) := by
  refine repeats_of_agrees (pure ()) stable fun start _ fs _ warm => ?_
  unfold malloc
  by_cases granted : machine.grants fs.mallocs size = true
  · rw [if_pos granted]
    exact ⟨rfl, trivial, ((warm.atSlot .indir1).mallocs _).warm⟩
  · rw [if_neg granted]
    exact reliable.resolve_right fun reliable => granted (reliable.granted _ _)

/-- Two runs on one partition are twins. -/
theorem Twins.repeats : Twins machine machine short short (Usable short) (Paired image part) where
  keeps paired := paired.keep
  change := Paired.change
  mallocs stable size := malloc_repeats reliable stable size
  reads stable sector byteOffset byteLen place := repeatsFill_of_agrees stable fun _ opened =>
    opened ▸ partRead_agrees fixed reliable sector byteOffset byteLen place
  blocks stable _ volume fileblock := repeats_of_agrees _ stable fun _ opened =>
    opened ▸ readBlock_agrees fixed reliable volume fileblock

end Runs

/-- A structure that was read has the bytes of the partition. -/
theorem readStruct_bytes (fixed : machine.Fixed image) {sector byteOffset width : Nat} {fs after : Fs} {bytes : Image}
    (returned : readStruct machine sector byteOffset width fs = .ok bytes after) {index : Nat} (inside : index < width) :
    bytes index = sectorImage image fs.part sector byteOffset index := by
  obtain ⟨buffer, middle, read, same⟩ := Prog.bind_eq_ok.mp returned
  obtain ⟨rfl, rfl⟩ := Prog.pure_eq_ok.mp same
  obtain ⟨-, stored⟩ := partRead_eq_ok fixed (Prog.scratch_eq_ok.mp read)
  have byte := Buffer.store_holds .blank 0 width (sectorImage image fs.part sector byteOffset) index inside
  rw [← stored, Nat.zero_add] at byte
  exact congrArg (Option.getD · 0) byte

section Structures

variable (fixed : machine.Fixed image) (reliable : short ∨ machine.Reliable) (stable : Stable keep)
include fixed reliable stable

/-- The bytes of the partition that a structure is read from. -/
theorem readStruct_repeats (sector byteOffset width : Nat) :
    Repeats image part keep short
      (fun bytes => ∀ index, index < width → bytes index = sectorImage image part sector byteOffset index)
      (readStruct machine sector byteOffset width) := by
  have read : Repeats image part keep short (fun _ => True) (readStruct machine sector byteOffset width) :=
    (Twins.repeats fixed reliable).readStruct stable sector byteOffset width
  have spec : ∀ left right, Paired image part keep left right → ∀ bytes after,
      readStruct machine sector byteOffset width left = .ok bytes after →
      ∀ index, index < width → bytes index = sectorImage image part sector byteOffset index := by
    intro left right paired bytes after returned index inside
    rw [readStruct_bytes fixed returned inside, paired.openLeft]
  exact (read.such spec).conseq same_related same_related same_related fun _ known => known.2

theorem readLocal_repeats {node : Node} (usable : OfUsable short node) (room pos len : Nat) :
    Repeats image part keep short (fun _ => True) (readLocal machine room node pos len) :=
  (Twins.repeats fixed reliable).readLocal stable usable room pos len

variable (sizes : SameSizes keep)
include sizes

theorem readInode_repeats (data : Ext2Data) (ino : Nat) :
    Repeats image part keep short (fun _ => True) (ext2fsReadInode machine data ino) :=
  (Twins.repeats fixed reliable).readInode stable sizes data ino

theorem nodeInode_repeats (node : Node) :
    Repeats image part keep short (fun _ => True) (nodeInode machine node) :=
  (Twins.repeats fixed reliable).nodeInode stable sizes node

theorem direntAt_repeats {dir : Node} (usable : OfUsable short dir) (fpos : Nat) :
    Repeats image part keep short
      (fun entry => ∀ dirent, entry.2 = some dirent → OfUsable short dirent.node)
      (direntAt machine dir fpos) :=
  (Twins.repeats fixed reliable).direntAt stable sizes usable fpos

theorem iterateDir_repeats {dir : Node} (usable : OfUsable short dir) (fuel : Nat)
    (name : Option Str) :
    Repeats image part keep short (fun entry => OfUsable short entry.1)
      (ext2fsIterateDir machine fuel dir name) :=
  (Twins.repeats fixed reliable).iterateDir stable sizes usable fuel name

theorem readSymlink_repeats {node : Node} (usable : OfUsable short node) :
    Repeats image part keep short (fun _ => True) (ext2fsReadSymlink machine node) :=
  (Twins.repeats fixed reliable).readSymlink stable sizes usable

end Structures

section Later

variable {start fs : Fs}

/-- The inodes have one size in both states. -/
def EqualSizes (left right : Fs) : Prop := left.inodeSize = right.inodeSize

theorem EqualSizes.stable : Stable EqualSizes := by
  rintro left left' right right' ⟨_, _, _, _, rfl⟩ ⟨_, _, _, _, rfl⟩ same
  exact same

theorem EqualSizes.sizes : SameSizes EqualSizes := fun _ _ same => same

/-- A state that reads on the volume of `start` come to. -/
abbrev Later (image : Nat → Image) (start fs : Fs) : Prop :=
  Paired image start.part EqualSizes start fs

theorem Later.refl (warm : Warm image start start) : Later image start start :=
  ⟨rfl, rfl, warm, warm, rfl⟩

variable {α : Type} {holds : α → Prop} {program : FsProg α}
  (repeats : Repeats image start.part EqualSizes False holds program) (near : KeepsNear program)
include repeats near

/-- What a program does at the start it does later. -/
theorem Repeats.later_ok (later : Later image start fs) {value : α} {first : Fs}
    (returned : program start = .ok value first) :
    ∃ after, program fs = .ok value after ∧ Later image start after ∧ holds value := by
  have agree := repeats start fs later
  rw [returned] at agree
  obtain ⟨after, run, property, paired⟩ := agree.of_ok
  have size := (near fs after (by rw [run]; rfl)).inodeSize
  have same : start.inodeSize = fs.inodeSize := later.keep
  exact ⟨after, run, ⟨rfl, paired.openRight, later.warmLeft, paired.warmRight, same.trans size.symm⟩, property⟩

omit near in
theorem Repeats.later_error (later : Later image start fs) {code : QuikErr} {first : Fs}
    (failed : program start = .error code first) : ∃ after, program fs = .error code after := by
  have agree := repeats start fs later
  rw [failed] at agree
  obtain ⟨after, run, -⟩ := agree.of_error
  exact ⟨after, run⟩

omit near in
theorem Repeats.later_stopped (later : Later image start fs) (stopped : (program start).state? = none) :
    (program fs).state? = none := (repeats start fs later).of_stopped stopped

end Later

end IQuik.Ext2
