import IQuik.Ext2.Repeats
import IQuik.Storage.Tables

namespace IQuik.Ext2

open IQuik.Data IQuik.Program IQuik.Storage

/-! # Mounting and opening in two runs -/

variable {machine : Machine} {image : Nat → Image} {part : Part} {short : Prop}

/-- Two states with the same partition open. -/
abbrev PairedOpen (image : Nat → Image) (part : Part) : Fs → Fs → Prop :=
  Paired image part fun _ _ => True

/-- The block size in the superblock of a partition is not 512, which only the
number -1 for its logarithm gives. -/
def OrdinaryBlocks (image : Nat → Image) (part : Part) : Prop :=
  (sectorImage image part 2 0).le32 24 ≠ 0xFFFFFFFF

instance (image : Nat → Image) (part : Part) : Decidable (OrdinaryBlocks image part) :=
  inferInstanceAs (Decidable (_ ≠ _))

theorem log2Ext2BlockSize_ne_zero {data : Ext2Data}
    (bytes : ∀ index, index < 204 → data.sblock index = sectorImage image part 2 0 index)
    (ordinary : OrdinaryBlocks image part) : data.log2Ext2BlockSize ≠ 0 := by
  have same : data.sblock.le32 24 = (sectorImage image part 2 0).le32 24 :=
    Image.le32_congr fun index _ upper => bytes index (by omega)
  have bound := (sectorImage image part 2 0).le32_lt 24
  unfold OrdinaryBlocks at ordinary
  unfold Ext2Data.log2Ext2BlockSize Ext2Data.log2BlockSize
  omega

section Volume

variable (fixed : machine.Fixed image) (reliable : short ∨ machine.Reliable)
include fixed reliable

theorem mount_repeats (ordinary : short ∨ OrdinaryBlocks image part) :
    Prog.Agrees short short (PairedOpen image part)
      (Paired image part (Rooted (Usable short) fun _ _ => True)) (PairedOpen image part) (fun _ => True)
      (ext2fsMount machine) (ext2fsMount machine) :=
  (Twins.repeats fixed reliable).mount <| (readStruct_repeats fixed reliable stable_true 2 0 204).conseq same_related
    same_related same_related fun _ bytes _ => ordinary.imp_right (log2Ext2BlockSize_ne_zero bytes)

/-- `ext2fs_open`: both runs open the same file. -/
theorem open_repeats {files : Option Node → Option Node → Prop} (fuel : Nat) (filename : Str) :
    Prog.Agrees short short (Paired image part (Rooted (Usable short) files))
      (Paired image part (Rooted (Usable short) (SameFile (Usable short)))) (PairedOpen image part) (fun _ => True)
      (ext2fsOpen machine fuel filename) (ext2fsOpen machine fuel filename) :=
  (Twins.repeats fixed reliable).openFile fuel filename

end Volume

/-- Nothing ever marks a partition as mounted, so every call mounts it anew. -/
theorem openExt2_unmounted {fs : Fs} (unmounted : fs.part.mounted = false) (fuel : Nat)
    (device : Str) (partno : Nat) :
    openExt2 machine fuel device partno fs =
      (partOpen machine fuel device partno >>= fun _ => ext2fsMount machine) fs := by
  unfold openExt2
  rw [Prog.view_bind, unmounted]
  cases run : partOpen machine fuel device partno fs with
  | ok value after =>
      obtain ⟨-, still, -⟩ := partOpen_eq_ok run
      rw [Prog.bind_run_ok run, Prog.bind_run_ok run, Prog.view_bind, still unmounted]
      rfl
  | error code after => rw [Prog.bind_run_error run, Prog.bind_run_error run]
  | fault => rw [Prog.bind_run_fault run, Prog.bind_run_fault run]
  | undefined => rw [Prog.bind_run_undefined run, Prog.bind_run_undefined run]
  | unfinished => rw [Prog.bind_run_unfinished run, Prog.bind_run_unfinished run]

end IQuik.Ext2
