import IQuik.Ext2.Mounts
import IQuik.Ext2.Stale

namespace IQuik.Ext2

open IQuik.Data IQuik.Program IQuik.Storage

/-! # Loads that do not depend on the calls before them

Any calls leave the record of the open partition and the two caches behind. The
record says what the same names lead to at start-up, and a load that uses no stale
block stores what it stores as the first call.
-/

variable {machine other : Machine} {image image' : Nat → Image} {part part' : Part} {keep : Fs → Fs → Prop}
  {fuel : Nat}

/-! ## One volume on two machines -/

/-- Two partitions that lie on their disks with the same length and the same bytes. -/
structure SameVolume (image image' : Nat → Image) (part part' : Part) : Prop where
  len : part.len = part'.len
  bytes : volume image part = volume image' part'

theorem SameVolume.sectorImage (same : SameVolume image image' part part') (sector byteOffset : Nat) :
    sectorImage image part sector byteOffset = sectorImage image' part' sector byteOffset := by
  funext index
  simp only [Storage.sectorImage, same.bytes]

theorem SameVolume.walkRead (same : SameVolume image image' part part') (sector byteOffset byteLen place : Nat) :
    walkRead image part sector byteOffset byteLen place = walkRead image' part' sector byteOffset byteLen place := by
  simp only [Ext2.walkRead, same.len, same.sectorImage]

theorem SameVolume.walkBlock (same : SameVolume image image' part part') (node : Node) (fileblock : Nat) :
    walkBlock image part node fileblock = walkBlock image' part' node fileblock := by
  simp only [Ext2.walkBlock, walkEntry, same.len, same.sectorImage]

/-- The two runs have the same volume open. Of the caches of the first one it may be
unknown what they hold. -/
structure Mirrored (image image' : Nat → Image) (part part' : Part) (keep : Fs → Fs → Prop) (left right : Fs) :
    Prop where
  openLeft : left.part = part
  openRight : right.part = part'
  known : Known True image left left
  warm : Warm image' right right
  keep : keep left right

theorem Mirrored.near {left left' right right' : Fs} (stable : Stable keep)
    (mirrored : Mirrored image image' part part' keep left right) (nearLeft : Known True image left left')
    (nearRight : Warm image' right right') : Mirrored image image' part part' keep left' right' where
  openLeft := nearLeft.near.part.trans mirrored.openLeft
  openRight := nearRight.near.part.trans mirrored.openRight
  known := nearLeft.settled
  warm := nearRight.settled
  keep := stable _ _ _ _ nearLeft.near nearRight.near mirrored.keep

/-- Two runs on one volume are twins. The first one may come to bytes that are not known. -/
theorem Twins.mirrored (fixed : machine.Fixed image) (reliable : machine.Reliable) (fixed' : other.Fixed image')
    (reliable' : other.Reliable) (same : SameVolume image image' part part') :
    Twins machine other True False (fun data => data.log2Ext2BlockSize ≠ 0) (Mirrored image image' part part') where
  keeps mirrored := mirrored.keep
  change mirrored left right kept := ⟨left.part.trans mirrored.openLeft, right.part.trans mirrored.openRight,
    mirrored.known.unchanged left, mirrored.warm.unchanged right, kept⟩
  mallocs stable size := by
    intro left right mirrored
    have asked := mirrored.near stable ((mirrored.known.atSlot .indir1).mallocs (left.mallocs + 1)).known
      ((mirrored.warm.atSlot .indir1).mallocs (right.mallocs + 1)).warm
    unfold malloc
    rw [if_pos (reliable.granted _ _), if_pos (reliable'.granted _ _)]
    exact ⟨rfl, trivial, asked⟩
  reads stable sector byteOffset byteLen place :=
    fillsAlike_of_agrees (fun mirrored => ⟨mirrored.known, mirrored.warm⟩) (fun mirrored => mirrored.near stable)
      (walkRead image part sector byteOffset byteLen place) fun mirrored =>
        ⟨mirrored.openLeft ▸ partRead_known fixed (.inr reliable) _ _ _ _, by
          rw [same.walkRead, ← mirrored.openRight]
          exact partRead_agrees fixed' (.inr reliable') _ _ _ _⟩
  blocks stable node volume fileblock :=
    runsAlike_of_agrees (fun mirrored => ⟨mirrored.known, mirrored.warm⟩) (fun mirrored => mirrored.near stable)
      (walkBlock image part node fileblock) fun mirrored =>
        ⟨mirrored.openLeft ▸ readBlock_known fixed (.inr reliable) id (.inr volume) fileblock, by
          rw [same.walkBlock, ← mirrored.openRight]
          exact readBlock_agrees fixed' (.inr reliable') (.inr volume) fileblock⟩

/-! ## The record of the open partition -/

/-- A firmware that serves a call: it has the disks, and a handle that is still open
delivers the disk that it was opened for. -/
structure Served (disks : Str → Option Image) (whole : Bool) (machine : Machine) (image : Nat → Image) (fs : Fs) : Prop
    extends Serves disks machine image where
  flag : machine.nwFullDisk = whole
  held : fs.part.valid = true → fs.part.devname.length < 512 →
    disks (machine.diskName fs.part.devname) = some (image fs.part.dev)

/-- The states that the loader comes to by any calls that return. Each call may find
other handles, for the same disks. -/
inductive DiskHistory (disks : Str → Option Image) (whole : Bool) (fuel : Nat) : Fs → Prop
  | startUp : DiskHistory disks whole fuel .startUp
  | call {fs after : Fs} {machine : Machine} {image : Nat → Image} (op : FileOp)
      (history : DiskHistory disks whole fuel fs) (served : Served disks whole machine image fs)
      (returned : op.run machine fuel fs = some after) : DiskHistory disks whole fuel after

variable {disks : Str → Option Image} {whole : Bool}

/-- What `part_open` leaves at start-up on another machine: a partition in the same
place of the same disk, and empty caches. -/
structure Reopened (disks : Str → Option Image) (name : Str) (image : Nat → Image) (part : Part) (first : Fs) : Prop where
  start : first.part.start = part.start
  len : first.part.len = part.len
  disk : disks name = some (image first.part.dev)
  indir1 : first.indir1 = .empty
  indir2 : first.indir2 = .empty

/-- What every call leaves in the partition record: it was never marked as
mounted, and an open partition is the one that the same names open first. -/
structure PartKept (disks : Str → Option Image) (whole : Bool) (fuel : Nat) (part : Part) : Prop where
  unmounted : part.mounted = false
  reopens : part.valid = true → part.devname.length < 512 → ∀ {other : Machine} {image' : Nat → Image},
    Served disks whole other image' .startUp → ∃ first,
      partOpen other fuel part.devname part.partno .startUp = .ok () first ∧
        Reopened disks (other.diskName part.devname) image' part first

theorem Served.diskName {fs fs' : Fs} (served : Served disks whole machine image fs)
    (served' : Served disks whole other image' fs') (device : Str) :
    machine.diskName device = other.diskName device := by
  unfold Machine.diskName
  rw [served.flag, served'.flag]

section Opening

variable {fs : Fs} {device : Str} {partno : Nat} (served : Served disks whole machine image fs)
include served

/-- A partition that is looked for is found at start-up too, on any machine with the same disks. -/
theorem partFind_first {after : Fs} (served' : Served disks whole other image' .startUp)
    (found : partFind machine fuel device partno (closed fs) = .ok () after) :
    ∃ first, partOpen other fuel device partno .startUp = .ok () first ∧
      Reopened disks (other.diskName device) image' after.part first ∧
      disks (other.diskName device) = some (image after.part.dev) := by
  have flag := served.flag.trans served'.flag.symm
  have alike := partFind_alike (Opening.around served.toServes served'.toServes flag (closed fs) .startUp)
    (fun left right => Reopened disks (other.diskName device) image' left.part right ∧
      disks (other.diskName device) = some (image left.part.dev)) fuel device partno
    (by
      rintro dev dev' extent _ _ ⟨disk, disk'⟩ ⟨⟨_, _, _, rfl⟩, ⟨_, _, _, rfl⟩⟩
      rw [served.diskName served'] at disk disk'
      exact ⟨⟨rfl, rfl, disk', rfl, rfl⟩, disk⟩) (closed fs) .startUp ⟨.refl _, .refl _⟩
  rw [found] at alike
  obtain ⟨first, run, -, reopened, disk⟩ := alike.of_ok
  exact ⟨first, (partOpen_startUp ..).trans run, reopened, disk⟩

omit served in
/-- A search that fails leaves the record as it was. -/
theorem partFind_failed {before after : Fs} {code : QuikErr}
    (failed : partFind machine fuel device partno before = .error code after) : after.part = before.part := by
  have alike := partFind_alike (Opening.alone machine before) (fun _ _ => True) fuel device partno
    (fun _ _ _ _ _ _ _ => trivial) before before ⟨rfl, .refl _⟩
  rw [failed] at alike
  obtain ⟨-, -, ⟨_, _, _, rfl⟩⟩ := alike.resolve_left (not_or.mpr ⟨id, id⟩)
  rfl

/-- `part_open` keeps the record, also when it fails. -/
theorem partOpen_kept {after : Fs} (kept : PartKept disks whole fuel fs.part)
    (returned : (partOpen machine fuel device partno fs).state? = some after) :
    PartKept disks whole fuel after.part := by
  rcases partOpen_cases machine fuel device partno fs with ⟨run, -⟩ | run | run
  · rw [run] at returned
    cases returned
    exact kept
  · have unmounted := (closed_part fs).2 kept.unmounted
    cases found : partFind machine fuel device partno (closed fs) with
    | ok value final =>
        obtain ⟨opened, still, -⟩ := partOpen_eq_ok (run.trans found)
        rw [run, found] at returned
        cases returned
        refine ⟨still kept.unmounted, fun _ ends other image' served' => ?_⟩
        have short : device.take 512 = device := by
          rw [opened.devname, List.length_take] at ends
          exact List.take_of_length_le (by omega)
        obtain ⟨first, reopens, reopened, -⟩ := partFind_first served served' found
        rw [opened.devname, opened.partno, short]
        exact ⟨first, reopens, reopened⟩
    | error code final =>
        have same := partFind_failed found
        rw [run, found] at returned
        cases returned
        rw [same]
        exact ⟨unmounted, fun valid => absurd valid (by simp [(closed_part fs).1])⟩
    | fault => rw [run, found] at returned; cases returned
    | undefined => rw [run, found] at returned; cases returned
    | unfinished => rw [run, found] at returned; cases returned
  · rw [run] at returned
    cases returned

/-- The partition that a call opens is the one that the same call opens first. -/
theorem partOpen_first {opened : Fs} (kept : PartKept disks whole fuel fs.part)
    (served' : Served disks whole other image' .startUp)
    (opens : partOpen machine fuel device partno fs = .ok () opened) :
    ∃ first, partOpen other fuel device partno .startUp = .ok () first ∧
      SameVolume image image' opened.part first.part ∧ first.indir1 = .empty ∧ first.indir2 = .empty := by
  have volume : ∀ {first : Fs}, Reopened disks (other.diskName device) image' opened.part first →
      disks (other.diskName device) = some (image opened.part.dev) → SameVolume image image' opened.part first.part := by
    intro first reopened disk
    have contents : image opened.part.dev = image' first.part.dev := Option.some.inj (disk.symm.trans reopened.disk)
    refine ⟨reopened.len.symm, ?_⟩
    funext offset
    simp only [Storage.volume, contents, reopened.start]
  rcases partOpen_cases machine fuel device partno fs with ⟨run, valid, rfl, rfl, ends⟩ | run | run
  · rw [run] at opens
    cases opens
    obtain ⟨first, reopens, reopened⟩ := kept.reopens valid ends served'
    have disk := served.held valid ends
    rw [served.diskName served'] at disk
    exact ⟨first, reopens, volume reopened disk, reopened.indir1, reopened.indir2⟩
  · obtain ⟨first, reopens, reopened, disk⟩ := partFind_first served served' (run.symm.trans opens)
    exact ⟨first, reopens, volume reopened disk, reopened.indir1, reopened.indir2⟩
  · rw [run] at opens
    cases opens

theorem openExt2_kept {after : Fs} (kept : PartKept disks whole fuel fs.part)
    (returned : (openExt2 machine fuel device partno fs).state? = some after) :
    PartKept disks whole fuel after.part := by
  rw [openExt2_unmounted kept.unmounted] at returned
  obtain ⟨code, failed⟩ | ⟨_, opened, run, rest⟩ := Prog.bind_state?.mp returned
  · exact partOpen_kept served kept (by rw [failed]; rfl)
  · rw [(mount_cases rest).1]
    exact partOpen_kept served kept (by rw [run]; rfl)

/-- A call that returns leaves a kept partition, also when it fails. -/
theorem PartKept.step {after : Fs} {op : FileOp} (kept : PartKept disks whole fuel fs.part)
    (returned : op.run machine fuel fs = some after) : PartKept disks whole fuel after.part := by
  rcases FileOp.run_cases returned with ⟨code, failed⟩ | ⟨opened, opens, same⟩
  · exact openExt2_kept served kept (by rw [failed]; rfl)
  · rw [(Prod.mk.inj same).1]
    exact openExt2_kept served kept (by rw [opens]; rfl)

end Opening

/-- Every state of a history keeps its partition. -/
theorem DiskHistory.partKept {fs : Fs} (history : DiskHistory disks whole fuel fs) :
    PartKept disks whole fuel fs.part := by
  induction history with
  | startUp => exact ⟨rfl, nofun⟩
  | call op history served returned ih => exact ih.step served returned

/-! ## Loads -/

/-- The rest of `file_load`, once the partition is open. -/
def openedLoad (machine : Machine) (fuel : Nat) (filename : Str) : FillProg Unit := do
  let size ← Prog.onFirst (mountOpen machine fuel filename)
  ext2fsRead machine size

theorem fileLoad_opened {fs : Fs} (unmounted : fs.part.mounted = false) (path : Path) (buffer : Buffer) :
    fileLoad machine fuel path (fs, buffer) =
      (Prog.onFirst (partOpen machine fuel path.device path.part) >>= fun _ =>
        openedLoad machine fuel path.path) (fs, buffer) := by
  have lookup : Prog.onFirst (fileLen machine fuel path) (fs, buffer) =
      (Prog.onFirst (partOpen machine fuel path.device path.part) >>= fun _ =>
        Prog.onFirst (mountOpen machine fuel path.path)) (fs, buffer) := by
    rw [← Prog.onFirst_bind]
    unfold Prog.onFirst
    rw [fileLen_unmounted unmounted]
  unfold openedLoad
  rw [fileLoad_eq, ← Prog.bind_assoc]
  exact Prog.bind_run_congr lookup

theorem Twins.openedLoad {shortLeft shortRight : Prop} {usable : Ext2Data → Prop}
    {joined : (Fs → Fs → Prop) → Fs → Fs → Prop} (twins : Twins machine other shortLeft shortRight usable joined)
    (fuel : Nat) (filename : Str)
    (supers : SupersAlike machine other shortLeft shortRight usable joined) :
    Prog.Agrees shortLeft shortRight (Prog.Beside (ρ := Buffer) (joined fun _ _ => True))
      (Prog.Beside (joined (Rooted usable (SameFile usable)))) (Prog.Beside (joined fun _ _ => True)) (fun _ => True)
      (openedLoad machine fuel filename) (Ext2.openedLoad other fuel filename) := by
  refine .bind (.onFirst (.bind (twins.mount supers) fun _ _ => twins.openFile fuel filename)) fun size _ => ?_
  exact (twins.readOpen size).conseq same_related same_related (fun _ _ states => states.imp_left twins.states)
    fun _ same => same

/-- What is left of a load without the stale bytes stores what the load stores. -/
theorem trusted_stores {opened : Fs} {buffer : Buffer} {filename : Str} {after final : Fs × Buffer}
    (loaded : openedLoad machine fuel filename (opened, buffer) = .ok () after)
    (trustedLoad : openedLoad machine fuel filename (trusted image opened, buffer) = .ok () final) :
    after.2 = final.2 := by
  have twins := Twins.thinned machine
  have thinned : Thinned (fun _ _ => True) opened (trusted image opened) :=
    ⟨rfl, rfl, rfl, trustedCache_within _, trustedCache_within _, trivial⟩
  have alike := twins.openedLoad fuel filename ((twins.readStruct stable_true 2 0 204).conseq same_related same_related
    same_related fun _ _ _ => trivial) (opened, buffer) (trusted image opened, buffer) ⟨thinned, rfl⟩
  rw [loaded, trustedLoad] at alike
  exact alike.2.2.2

/-- A load on a volume is a load on the same volume elsewhere. -/
theorem openedLoad_first (fixed : machine.Fixed image) (reliable : machine.Reliable) (fixed' : other.Fixed image')
    (reliable' : other.Reliable) (same : SameVolume image image' part part') (ordinary : OrdinaryBlocks image part)
    {left right : Fs} (mirrored : Mirrored image image' part part' (fun _ _ => True) left right) {buffer : Buffer}
    {filename : Str} {after : Fs × Buffer} (loaded : openedLoad machine fuel filename (left, buffer) = .ok () after) :
    ∃ first, openedLoad other fuel filename (right, buffer) = .ok () first ∧ first.2 = after.2 := by
  have twins := Twins.mirrored fixed reliable fixed' reliable' same
  have spec : ∀ left right, Mirrored image image' part part' (fun _ _ => True) left right →
      ∀ sblock after, readStruct machine 2 0 204 left = .ok sblock after →
      ∀ rootInode, ({ sblock, rootInode } : Ext2Data).log2Ext2BlockSize ≠ 0 := by
    intro left right states sblock after returned rootInode
    have bytes : ∀ index, index < 204 → sblock index = sectorImage image part 2 0 index := fun index inside => by
      rw [readStruct_bytes fixed returned inside, states.openLeft]
    exact log2Ext2BlockSize_ne_zero bytes ordinary
  have alike := twins.openedLoad fuel filename (((twins.readStruct stable_true 2 0 204).such spec).conseq same_related
    same_related same_related fun _ known => known.2) (left, buffer) (right, buffer) ⟨mirrored, rfl⟩
  rw [loaded] at alike
  obtain ⟨first, run, -, -, stored⟩ := alike.of_ok
  exact ⟨first, run, stored.symm⟩

/-- Once its partition is open, a load uses no stale byte: it succeeds also when they
are unknown. And no block has the number that marks an empty cache. -/
def UsesFresh (machine : Machine) (image : Nat → Image) (fuel : Nat) (path : Path) (state : Fs × Buffer) : Prop :=
  ∀ opened, partOpen machine fuel path.device path.part state.1 = .ok () opened →
    OrdinaryBlocks image opened.part ∧
      (openedLoad machine fuel path.path (trusted image opened, state.2)).success?.isSome = true

instance (path : Path) (state : Fs × Buffer) : Decidable (UsesFresh machine image fuel path state) :=
  match opens : partOpen machine fuel path.device path.part state.1 with
  | .ok _ opened =>
      decidable_of_iff (OrdinaryBlocks image opened.part ∧
        (openedLoad machine fuel path.path (trusted image opened, state.2)).success?.isSome = true)
        ⟨fun fresh _ returned => by rw [opens] at returned; cases returned; exact fresh, fun fresh => fresh opened opens⟩
  | .error _ _ => isTrue fun _ returned => by rw [opens] at returned; cases returned
  | .fault => isTrue fun _ returned => by rw [opens] at returned; cases returned
  | .undefined => isTrue fun _ returned => by rw [opens] at returned; cases returned
  | .unfinished => isTrue fun _ returned => by rw [opens] at returned; cases returned

/-- After any calls, a load that uses no stale byte and succeeds stores what it
stores as the first call after start-up, on any machine with the same disks. -/
theorem load_as_first {fs : Fs} (history : DiskHistory disks whole fuel fs)
    (served : Served disks whole machine image fs) {path : Path} {buffer : Buffer} {after : Fs × Buffer}
    (fresh : UsesFresh machine image fuel path (fs, buffer))
    (loaded : fileLoad machine fuel path (fs, buffer) = .ok () after)
    (served' : Served disks whole other image' .startUp) :
    ∃ first, fileLoad other fuel path (.startUp, buffer) = .ok () first ∧ first.2 = after.2 := by
  have kept := history.partKept
  rw [fileLoad_opened kept.unmounted] at loaded
  obtain ⟨_, ⟨opened, kept'⟩, opens, loaded⟩ := Prog.bind_eq_ok.mp loaded
  obtain ⟨opens, same⟩ := Prog.onFirst_eq_ok.mp opens
  cases same
  obtain ⟨ordinary, succeeds⟩ := fresh opened opens
  obtain ⟨final, trustedLoad⟩ := Option.isSome_iff_exists.mp succeeds
  obtain ⟨_, trustedLoad⟩ := Outcome.success?_eq_some.mp trustedLoad
  have buffers : after.2 = final.2 := trusted_stores loaded trustedLoad
  -- what is left in the caches the first call reads from the same volume
  obtain ⟨start, opensFirst, volume, indir1, indir2⟩ := partOpen_first served kept served' opens
  have mirrored : Mirrored image image' opened.part start.part (fun _ _ => True) (trusted image opened) start := by
    refine ⟨rfl, rfl, ⟨.refl _, trustedCache_known _, trustedCache_known _⟩, ⟨.refl _, ?_, ?_⟩, trivial⟩
    · rw [indir1]
      exact .unallocated 0
    · rw [indir2]
      exact .unallocated 0
  obtain ⟨first, run, stored⟩ := openedLoad_first served.fixed served.reliable served'.fixed served'.reliable volume
    ordinary mirrored trustedLoad
  have opening : Prog.onFirst (partOpen other fuel path.device path.part) (Fs.startUp, buffer) = .ok () (start, buffer) :=
    Prog.onFirst_eq_ok.mpr ⟨opensFirst, rfl⟩
  refine ⟨first, ?_, stored.trans buffers.symm⟩
  rw [fileLoad_opened rfl, Prog.bind_run_ok opening]
  exact run

/-- A firmware with one disk that gives another handle for each `open`. -/
def renumbering (disk : Image) : Machine := { diskMachine disk with openDevice := fun call _ => some (call + 1) }

theorem diskMachine_served (disk : Image) (fs : Fs) :
    Served (fun _ => some disk) false (diskMachine disk) (fun _ => disk) fs where
  fixed := (diskMachine_steady disk).fixed
  reliable := (diskMachine_steady disk).reliable
  opens _ _ := rfl
  flag := rfl
  held _ _ := rfl

theorem renumbering_served (disk : Image) (fs : Fs) :
    Served (fun _ => some disk) false (renumbering disk) (fun _ => disk) fs where
  fixed := ⟨fun _ _ _ _ _ => rfl⟩
  reliable := ⟨fun _ _ _ _ => rfl, fun _ _ => rfl⟩
  opens _ _ := rfl
  flag := rfl
  held _ _ := rfl

/-- Two partitions with a file of one indirect block, block 5 on both of them. -/
def volumesWith (first second : List UInt8) : Image :=
  let volume base pointers := sampleVolume base oneFile
    [(256, [0, 0x80, 0, 0, 1, 0x30, 0, 0]), (344, [5, 0, 0, 0])]
    [(5, pointers), (6, [60]), (7, [70])]
  sampleDisk (volume 32768 first) (volume 65536 second)

/-- The blocks of pointers differ, but not in the pointer that the file needs. -/
def samePointer : Image := volumesWith [6, 0, 0, 0, 8] [6, 0, 0, 0, 9]

/-- The first file after the second one and a call that fails: the block of the second
one is still cached, and its first pointer is right. -/
theorem load_as_first_sample : ∃ fs after first,
    DiskHistory (fun _ => some samePointer) false 20 fs ∧
      fs.indir1.blkno = 10 ∧ (fs.indir1.block.bind fun block => block 4) = some 9 ∧
      fileLoad (renumbering samePointer) 20 (sampleFile 1) (fs, .blank) = .ok () after ∧
      fileLoad (diskMachine samePointer) 20 (sampleFile 1) (.startUp, .blank) = .ok () first ∧
      first.2 = after.2 := by
  have run : ((FileOp.load (sampleFile 2) .blank).run (renumbering samePointer) 20 .startUp).any (fun second =>
      ((FileOp.len (sampleFile 7)).run (renumbering samePointer) 20 second).any fun fs =>
        fs.indir1.blkno == 10 && (fs.indir1.block.bind fun block => block 4) == some 9 &&
        decide (UsesFresh (renumbering samePointer) (fun _ => samePointer) 20 (sampleFile 1) (fs, .blank)) &&
        (fileLoad (renumbering samePointer) 20 (sampleFile 1) (fs, .blank)).success?.isSome) = true := by
    decide +kernel
  obtain ⟨second, loads, run⟩ := (Option.any_eq_true _ _).mp run
  obtain ⟨fs, fails, run⟩ := (Option.any_eq_true _ _).mp run
  simp only [Bool.and_eq_true, beq_iff_eq, decide_eq_true_eq] at run
  obtain ⟨⟨⟨cached, stale⟩, fresh⟩, succeeds⟩ := run
  obtain ⟨after, returned⟩ := Option.isSome_iff_exists.mp succeeds
  obtain ⟨_, loaded⟩ := Outcome.success?_eq_some.mp returned
  have history : DiskHistory (fun _ => some samePointer) false 20 fs :=
    .call _ (.call _ .startUp (renumbering_served _ _) loads) (renumbering_served _ _) fails
  obtain ⟨first, firstLoad, same⟩ := load_as_first history (renumbering_served _ _) fresh loaded
    (diskMachine_served _ _)
  exact ⟨fs, after, first, history, cached, stale, loaded, firstLoad, same⟩

/-- The block pointer of the file is 6 on the first partition, 7 on the second. -/
def twoVolumes : Image := volumesWith [6, 0, 0, 0] [7, 0, 0, 0]

/-- The file of the first partition is loaded with the block of the second one. -/
theorem load_not_as_first :
    ¬∀ (machine : Machine) (image : Nat → Image) (fuel : Nat), Steady machine image →
      ∀ fs, History machine fuel fs → ∀ (path : Path) (buffer : Buffer) (after : Fs × Buffer),
        fileLoad machine fuel path (fs, buffer) = .ok () after →
        ∃ first, fileLoad machine fuel path (.startUp, buffer) = .ok () first ∧
          first.2 = after.2 := by
  intro independent
  have stale : ((FileOp.load (sampleFile 2) .blank).run (diskMachine twoVolumes) 20 .startUp).bind
      (fun fs => (fileLoad (diskMachine twoVolumes) 20 (sampleFile 1) (fs, .blank)).success?.bind
        fun after => after.2 12288) = some 70 := by decide +kernel
  have fresh : (fileLoad (diskMachine twoVolumes) 20 (sampleFile 1)
      (.startUp, .blank)).success?.bind (fun after => after.2 12288) = some 60 := by decide +kernel
  obtain ⟨fs, returned, stale⟩ := Option.bind_eq_some_iff.mp stale
  obtain ⟨after, loaded, stale⟩ := Option.bind_eq_some_iff.mp stale
  obtain ⟨_, loaded⟩ := Outcome.success?_eq_some.mp loaded
  obtain ⟨first, loads, same⟩ := independent (diskMachine twoVolumes) (fun _ => twoVolumes) 20
    (diskMachine_steady _) fs (.call _ .startUp returned) (sampleFile 1) .blank after loaded
  rw [Outcome.success?_eq_some.mpr ⟨(), loads⟩, Option.bind_some, same, stale] at fresh
  exact absurd fresh (by decide)

end IQuik.Ext2
