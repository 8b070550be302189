import IQuik.Ext2.TreeFiles
import IQuik.Loader.LastTurn

namespace IQuik.Loader

open IQuik.Data IQuik.Program IQuik.Config

/-! # The file that is booted -/

/-- The memory holds a file at `place`. -/
structure HeldAt (memory content : Data.Image) (place size : Nat) : Prop where
  fits : place + size ≤ 0x100000000
  bytes : ∀ j, j < size → memory (place + j) = content j

/-- A kernel that starts with a nop, in the first segment. -/
structure StartsWithNop (content : Data.Image) (size : Nat) (first last : Segment) : Prop where
  header : 52 ≤ size
  headers : content.be32 28 + 32 * content.be16 44 ≤ size
  anchored : anchor (segments content 0) = some first
  ends : (segments content 0).getLast? = some last
  code : 4 ≤ first.filesz
  inFile : first.offset + first.filesz ≤ size
  covered : first.filesz ≤ first.upTo last
  entered : content.be32 24 = first.vaddr
  within : addrMask first.vaddr + first.filesz ≤ 0x10000000
  nop : content.be32 first.offset = 0x60000000

section Held

variable {memory content : Data.Image} {place size : Nat}

theorem HeldAt.be16 (held : HeldAt memory content place size) {offset : Nat} (inside : offset + 2 ≤ size) :
    memory.be16 (place + offset) = content.be16 offset := by
  have second : memory (place + offset + 1) = content (offset + 1) := held.bytes (offset + 1) (by omega)
  rw [Data.Image.be16, Data.Image.be16, held.bytes offset (by omega), second]

theorem HeldAt.be32 (held : HeldAt memory content place size) {offset : Nat} (inside : offset + 4 ≤ size) :
    memory.be32 (place + offset) = content.be32 offset := by
  have second : memory.be16 (place + offset + 2) = content.be16 (offset + 2) := held.be16 (by omega)
  rw [Data.Image.be32, Data.Image.be32, held.be16 (by omega), second]

theorem HeldAt.headers_same (held : HeldAt memory content place size) {count p : Nat} (inside : p + 32 * count ≤ size) :
    segmentsAt memory count (place + p) = segmentsAt content count p := by
  have fits := held.fits
  induction count generalizing p with
  | zero => rfl
  | succ count ih =>
      have rest : segmentsAt memory count (wrap (place + p + 32)) = segmentsAt content count (wrap (p + 32)) := by
        cases count with
        | zero => rfl
        | succ count =>
            have here : wrap (p + 32) = p + 32 := Nat.mod_eq_of_lt (by omega)
            have there : wrap (place + p + 32) = place + (p + 32) := Nat.mod_eq_of_lt (by omega)
            rw [here, there]
            exact ih (by omega)
      have field {index : Nat} (below : index + 4 ≤ 32) : memory.be32 (place + p + index) = content.be32 (p + index) := by
        rw [Nat.add_assoc]
        exact held.be32 (by omega)
      have type : memory.be32 (place + p) = content.be32 p := held.be32 (by omega)
      have segment : Segment.read memory (place + p) = Segment.read content p := by
        rw [Segment.read, Segment.read, field (by decide), field (by decide), field (by decide), field (by decide)]
      rw [segmentsAt, segmentsAt, type, field (by decide), segment, rest]

theorem HeldAt.segments_same (held : HeldAt memory content place size) (header : 52 ≤ size)
    (headers : content.be32 28 + 32 * content.be16 44 ≤ size) : segments memory place = segments content 0 := by
  have fits := held.fits
  have count : memory.be16 (place + 44) = content.be16 44 := held.be16 (by omega)
  have start : memory.be32 (place + 28) = content.be32 28 := held.be32 (by omega)
  rw [segments, segments, count, start, Nat.zero_add, Nat.zero_add]
  cases none : content.be16 44 with
  | zero => rfl
  | succ others =>
      rw [none] at headers
      have here : wrap (content.be32 28) = content.be32 28 := Nat.mod_eq_of_lt (by omega)
      have there : wrap (place + content.be32 28) = place + content.be32 28 := Nat.mod_eq_of_lt (by omega)
      rw [here, there]
      exact held.headers_same headers

end Held

section Entering

variable {around : Surroundings} {pre24 : Bool} {memory content : Data.Image} {place size : Nat}
  {first last : Segment} {extent : Extent} {claims after : Claims} {moved : LoadState × Data.Image}

/-- With the new boot strategy the kernel is called where its code starts. -/
theorem elfStart_nop {image : LoadState} (nop : memory.be32 image.entry = 0x60000000) :
    elfStart memory image = image.linkedBase := by
  rw [elfStart, if_pos nop]

/-- However it is relocated, the code that is called is that of the file. -/
theorem starts_in_file (starts : StartsWithNop content size first last) (held : HeldAt memory content place size)
    (header : elfExtent memory place = .ok extent)
    (relocates : elfRelo around pre24 memory (parsedImage memory place extent) claims = .ok moved after) {k : Nat}
    (inside : k < first.filesz) :
    moved.2 (wrap (elfStart moved.2 moved.1 + k)) = content (first.offset + k) := by
  have fits := held.fits
  have inFile := starts.inFile
  have code := starts.code
  have within := starts.within
  have same := held.segments_same starts.header starts.headers
  obtain ⟨first', last', anchored, -, ends, reaches⟩ := elfExtent_reaches header
  obtain rfl : first = first' := Option.some.inj (starts.anchored.symm.trans (same ▸ anchored))
  obtain rfl : last = last' := Option.some.inj (starts.ends.symm.trans (same ▸ ends))
  obtain ⟨off, len, linkedBase⟩ := extent
  obtain ⟨rfl, rfl, rfl⟩ := reaches
  have entry : memory.be32 (place + 24) = first.vaddr := by
    have header := starts.header
    rw [held.be32 (by omega), starts.entered]
  rw [parsedImage, entry] at relocates
  have source : wrap (place + first.offset) = place + first.offset := Nat.mod_eq_of_lt (by omega)
  cases pre24 with
  | false =>
      rw [elfRelo_new] at relocates
      cases relocates
      dsimp only
      have start : wrap (wrap (addrMask first.vaddr + (0x100000000 - addrMask first.vaddr)) +
          wrap (place + first.offset)) = place + first.offset := by
        rw [source, wrap, wrap]
        omega
      have nop : memory.be32 (place + first.offset) = 0x60000000 := by rw [held.be32 (by omega), starts.nop]
      rw [start, source, elfStart_nop nop]
      have here : wrap (place + first.offset + k) = place + (first.offset + k) := by
        rw [wrap]
        omega
      rw [here, held.bytes _ (by omega)]
  | true =>
      have covered := starts.covered
      have moves (j : Nat) (below : j < first.filesz) :
          memmove memory (addrMask first.vaddr) (wrap (place + first.offset)) (first.upTo last)
            (addrMask first.vaddr + j) = content (first.offset + j) := by
        have from' : wrap (place + first.offset + (addrMask first.vaddr + j - addrMask first.vaddr)) =
            place + (first.offset + j) := by
          rw [wrap]
          omega
        rw [memmove, if_pos ⟨by omega, by omega⟩, source, from', held.bytes _ (by omega)]
      rw [elfRelo, if_pos rfl] at relocates
      split at relocates
      · cases relocates
      obtain ⟨_, middle, -, relocates⟩ := Prog.bind_eq_ok.mp relocates
      cases relocates
      dsimp only
      have nop : (memmove memory (addrMask first.vaddr) (wrap (place + first.offset)) (first.upTo last)).be32
          (addrMask first.vaddr) = 0x60000000 := by
        have copy : HeldAt (memmove memory (addrMask first.vaddr) (wrap (place + first.offset)) (first.upTo last))
            (fun j => content (first.offset + j)) (addrMask first.vaddr) first.filesz := ⟨by omega, moves⟩
        have word := copy.be32 (show 0 + 4 ≤ first.filesz from code)
        have shifted : Data.Image.be32 (fun j => content (first.offset + j)) 0 = content.be32 first.offset := by
          rw [Data.Image.be32, Data.Image.be32, Data.Image.be16, Data.Image.be16, Data.Image.be16, Data.Image.be16]
          rfl
        rw [Nat.add_zero] at word
        rw [word, shifted, starts.nop]
      rw [elfStart_nop nop]
      have here : wrap (addrMask first.vaddr + k) = addrMask first.vaddr + k := Nat.mod_eq_of_lt (by omega)
      rw [here]
      exact moves k inside

end Entering

/-! ## Files from a disk -/

/-- The file at a path was read from a disk, and its bytes were stored from `place` on. -/
def FromDisk (around : Surroundings) (path : FsPath) (place size : Nat) (content : Data.Image) : Prop :=
  ∃ (machine : Storage.Machine) (image : Nat → Data.Image) (fuel : Nat) (fs : Storage.Fs) (stored : Ext2.Path)
    (file : Ext2.StoredFile machine image fuel stored fs) (opened : Storage.Fs) (mallocs : Nat)
    (after : Storage.Fs × Buffer) (len : Nat),
    path = { device := some stored.device, part := stored.part, path := stored.path } ∧
    machine.Fixed image ∧ machine.Reliable ∧ fs.part.mounted = false ∧
    Ext2.CachesWarm machine image fuel stored fs ∧ file.size = size ∧ file.content = content ∧
    Ext2.fileLen machine fuel stored fs = .ok len opened ∧ (around.files path).len = .ok (UInt32.ofNat len) ∧
    Ext2.fileLoad machine fuel stored ({ opened with mallocs := mallocs }, .blank) = .ok () after ∧
    ∀ j byte, after.2 j = some byte → around.memory (place + j) = byte

theorem FromDisk.held {around : Surroundings} {path : FsPath} {place size : Nat} {content : Data.Image}
    (disk : FromDisk around path place size content) (fits : place + size ≤ 0x100000000) :
    HeldAt around.memory content place size := by
  obtain ⟨machine, image, fuel, fs, stored, file, opened, mallocs, after, len, -, fixed, reliable, unmounted, caches,
    rfl, rfl, length, -, load, bytes⟩ := disk
  obtain ⟨-, known⟩ := file.loaded fixed reliable unmounted caches length load
  exact ⟨fits, fun j below => bytes j _ (known j below)⟩

section Booted

variable {startup : Startup} {turns : List Turn} {used : List Range} {entry : Entry} {after : Booting}

/-- Without the work-around, the kernel that is entered is the file on the disk that its own turn has
named: the code that is called is that of the file, and a new kernel finds the initrd that was named,
too. -/
theorem booted_from_disk (plain : ∀ turn ∈ turns, turn.around.workAround = none)
    (run : iquikMain startup turns (.start used) = .ok entry after) :
    ∃ turn ∈ turns, ∃ paths place, (∃ config globals next, turnPaths config turn globals = .ok paths next) ∧
      entry.bootargs = paths.params ∧
      (∀ size content first last, FromDisk turn.around paths.kernel place size content → place + size ≤ 0x100000000 →
        StartsWithNop content size first last →
        ∀ k, k < first.filesz → entry.memory (wrap (entry.start + k)) = content (first.offset + k)) ∧
      (after.bi.bootPre24 = false → ∀ path size content, paths.initrd = some path →
        FromDisk turn.around path entry.initrdBase size content → entry.initrdBase + size ≤ 0x100000000 →
        ∀ j, j < size → entry.memory (entry.initrdBase + j) = content j) := by
  obtain ⟨turn, member, paths, middle, -, -, -, -, hands⟩ :=
    iquikMain_handsOver (fun _ => True) plain (fun _ _ _ _ _ => id) (fun _ _ => trivial) run
  obtain ⟨place, len, extent, -, header, claims, moved, final, relocates, memory, start⟩ := hands.kernel
  refine ⟨turn, member, paths, place, hands.prompt, hands.bootargs, ?_, ?_⟩
  · intro size content first last disk fits starts k inside
    rw [memory, start]
    exact starts_in_file starts (disk.held fits) header relocates inside
  · intro new path size content _ disk fits j below
    rw [new, elfRelo_new] at relocates
    cases relocates
    rw [memory]
    exact (disk.held fits).bytes j below

end Booted

/-! The kernel of a sample disk, which is loaded to `LOAD_BASE`. -/

def kernelOpened : Storage.Fs :=
  ((Ext2.fileLen Ext2.kernelMachine (Ext2.entryBound + 1) (Ext2.sampleFile 1) Ext2.kernelOpened).state?).getD .startUp

def kernelBytes : Buffer :=
  (((Ext2.fileLoad Ext2.kernelMachine (Ext2.entryBound + 1) (Ext2.sampleFile 1) (kernelOpened, .blank)).state?).map
    Prod.snd).getD .blank

def kernelAround : Surroundings where
  grant _ _ := true
  workAround := none
  files _ := { len := .ok 320, load := .ok () }
  memory address := if address < loadBase then 0 else (kernelBytes (address - loadBase)).getD 0
  fuel := 2

def kernelSegment : Segment where
  offset := 0x100
  vaddr := 0xC0000000
  filesz := 0x40
  memsz := 0x40

theorem kernel_fromDisk :
    FromDisk kernelAround { device := some (str "hd"), part := 1, path := str "/f" } loadBase 320
      Ext2.kernelStored.content := by
  have steady := Ext2.kernelMachine_steady
  have length : (Ext2.fileLen Ext2.kernelMachine (Ext2.entryBound + 1) (Ext2.sampleFile 1) Ext2.kernelOpened).value? =
      some 320 := by decide +kernel
  have load : ((Ext2.fileLoad Ext2.kernelMachine (Ext2.entryBound + 1) (Ext2.sampleFile 1)
      (kernelOpened, .blank)).success?).isSome = true := by decide +kernel
  obtain ⟨opened, length⟩ := Outcome.value?_eq_some.mp length
  obtain ⟨after, success⟩ := Option.isSome_iff_exists.mp load
  obtain ⟨_, load⟩ := Outcome.success?_eq_some.mp success
  have same : kernelOpened = opened := by
    rw [kernelOpened, length]
    rfl
  have stored : kernelBytes = after.2 := by
    rw [kernelBytes, load]
    rfl
  refine ⟨_, _, _, _, _, Ext2.kernelStored, opened, opened.mallocs, after, 320, rfl, steady.fixed, steady.reliable,
    Ext2.kernelOpened_run.2.2, Ext2.kernelOpened_caches _, by decide +kernel, rfl, length, rfl, same ▸ load,
    fun j byte known => ?_⟩
  have behind : ¬loadBase + j < loadBase := by omega
  have index : loadBase + j - loadBase = j := Nat.add_sub_cancel_left ..
  change (if loadBase + j < loadBase then 0 else (kernelBytes (loadBase + j - loadBase)).getD 0) = byte
  rw [if_neg behind, index, stored, known, Option.getD_some]

theorem kernel_startsWithNop : StartsWithNop Ext2.kernelStored.content 320 kernelSegment kernelSegment where
  header := by decide
  headers := by decide +kernel
  anchored := by decide +kernel
  ends := by decide +kernel
  code := by decide
  inFile := by decide
  covered := by decide
  entered := by decide +kernel
  within := by decide
  nop := by decide +kernel

/-- The kernel of the disk is typed. -/
theorem booted_from_disk_typed : ∃ entry after,
    iquikMain typedStartup [typedTurn kernelAround "/f"] (.start []) = .ok entry after ∧
    ∃ turn ∈ [typedTurn kernelAround "/f"], ∃ paths place,
      (∃ config globals next, turnPaths config turn globals = .ok paths next) ∧ entry.bootargs = paths.params ∧
      (∀ size content first last, FromDisk turn.around paths.kernel place size content → place + size ≤ 0x100000000 →
        StartsWithNop content size first last →
        ∀ k, k < first.filesz → entry.memory (wrap (entry.start + k)) = content (first.offset + k)) ∧
      (after.bi.bootPre24 = false → ∀ path size content, paths.initrd = some path →
        FromDisk turn.around path entry.initrdBase size content → entry.initrdBase + size ≤ 0x100000000 →
        ∀ j, j < size → entry.memory (entry.initrdBase + j) = content j) := by
  have returns : (iquikMain typedStartup [typedTurn kernelAround "/f"] (.start [])).value?.isSome = true := by
    decide +kernel
  obtain ⟨entry, value⟩ := Option.isSome_iff_exists.mp returns
  obtain ⟨after, run⟩ := Outcome.value?_eq_some.mp value
  refine ⟨entry, after, run, booted_from_disk (fun turn member => ?_) run⟩
  obtain rfl := List.mem_singleton.mp member
  rfl

end IQuik.Loader
