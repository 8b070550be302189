import IQuik.Storage.Reads

namespace IQuik.Storage

open IQuik.Data IQuik.Program

/-! # Opening one partition in two runs -/

/-- Nothing but the open handles and the numbers of the calls has changed. -/
def Aside (start fs : Fs) : Prop :=
  ∃ calls mallocs handles, fs = { start with calls, mallocs, handles }

/-- Two states that two runs have come to while they opened a partition. -/
def Around (left right left' right' : Fs) : Prop := Aside left left' ∧ Aside right right'

/-- The surroundings of a history that is not disturbed: fixed disks, complete
reads, a heap with room, and a firmware that opens the same devices each time. -/
structure Steady (machine : Machine) (image : Nat → Image) : Prop where
  fixed : machine.Fixed image
  reliable : machine.Reliable
  opens : ∀ call call' device, machine.openDevice call device = machine.openDevice call' device

variable {machine other : Machine} {image image' : Nat → Image} {dev dev' : Nat}

theorem Aside.refl (fs : Fs) : Aside fs fs := ⟨fs.calls, fs.mallocs, fs.handles, rfl⟩

theorem Aside.calls {start fs : Fs} (aside : Aside start fs) (calls : Nat) :
    Aside start { fs with calls } := by
  obtain ⟨_, _, _, rfl⟩ := aside
  exact ⟨_, _, _, rfl⟩

/-- Two runs agree, in related states. -/
abbrev Alike (related : Fs → Fs → Prop) {α : Type} (left right : FsProg α) : Prop :=
  Prog.Agrees False False related related related (fun _ => True) left right

/-- The sectors of the two devices are read alike. -/
def SectorsAlike (machine other : Machine) (related : Fs → Fs → Prop) (dev dev' : Nat) : Prop :=
  ∀ offset, Alike related (readSector machine dev offset) (readSector other dev' offset)

/-- The path that `prom_open` opens a disk by. -/
def Machine.diskName (machine : Machine) (device : Str) : Str :=
  if machine.nwFullDisk then device ++ str ":0" else device

/-- What `open` of the two firmwares does with one device: both refuse it, or both
give a handle, and then the two handles are `same`. -/
def OpensAlike (machine other : Machine) (related : Fs → Fs → Prop) (same : Nat → Nat → Prop) (device : Str) : Prop :=
  ∀ before after, related before after →
    (∃ dev dev' before' after', openCall machine device before = .ok dev before' ∧
      openCall other device after = .ok dev' after' ∧ same dev dev' ∧ related before' after') ∨
    ∃ before' after', openCall machine device before = .error .ofOpen before' ∧
      openCall other device after = .error .ofOpen after' ∧ related before' after'

/-- What two runs that open a partition have to do alike. -/
structure Opening (machine other : Machine) (related : Fs → Fs → Prop) (same : Str → Nat → Nat → Prop) : Prop where
  flag : machine.nwFullDisk = other.nwFullDisk
  mallocs : ∀ size, Alike related (malloc machine size) (malloc other size)
  opens : ∀ device, OpensAlike machine other related (same device) device
  sectors : ∀ {device dev dev'}, same device dev dev' → SectorsAlike machine other related dev dev'
  closes : ∀ {device dev dev'}, same device dev dev' → ∀ left right, related left right →
    related (diskClosed dev left) (diskClosed dev' right)

section Tables

variable {related : Fs → Fs → Prop} (sectors : SectorsAlike machine other related dev dev')
include sectors

theorem readMacEntries_alike (part secsize fuel i blocks : Nat) :
    Alike related (readMacEntries machine dev part secsize fuel i blocks)
      (readMacEntries other dev' part secsize fuel i blocks) := by
  induction fuel generalizing i blocks with
  | zero => exact .unfinished
  | succ fuel ih =>
      unfold readMacEntries
      refine .ite (fun _ => ?_) fun _ => .fail _ fun _ _ states => states
      refine .bind (sectors _) fun entry _ => ?_
      refine .ite (fun _ => .fail _ fun _ _ states => states) fun _ => ?_
      exact .ite (fun _ => .pure trivial) fun _ => ih _ _

theorem readMacPartition_alike (fuel part : Nat) :
    Alike related (readMacPartition machine fuel dev part) (readMacPartition other fuel dev' part) := by
  unfold readMacPartition
  refine .bind (sectors 0) fun block _ => ?_
  refine .ite (fun _ => .fail _ fun _ _ states => states) fun _ => ?_
  exact readMacEntries_alike sectors _ _ _ _ _

theorem readDosPartition_alike (part : Nat) :
    Alike related (readDosPartition machine dev part) (readDosPartition other dev' part) := by
  unfold readDosPartition
  refine .bind (sectors 0) fun block _ => ?_
  refine .ite (fun _ => .fail _ fun _ _ states => states) fun _ => ?_
  exact .ite (fun _ => .fail _ fun _ _ states => states) fun _ => .pure trivial

theorem readTable_alike (fuel part : Nat) :
    Alike related (readTable machine fuel dev part) (readTable other fuel dev' part) := by
  unfold readTable
  refine .bind (.attempt ⟨id, id⟩ (readMacPartition_alike sectors fuel part)
    fun _ _ states => states) fun result _ => ?_
  split
  · exact .pure trivial
  · exact .mapError _ (readDosPartition_alike sectors part)
  · exact .fail _ fun _ _ states => states

end Tables

section Finding

variable {related : Fs → Fs → Prop} {same : Str → Nat → Nat → Prop} (opening : Opening machine other related same)
include opening

/-- `disk_open` in both runs, with what comes after it. -/
theorem diskOpen_alike {α : Type} {final : Fs → Fs → Prop} {holds : α → Prop} (device : Str)
    {next next' : Nat → FsProg α}
    (goes : ∀ dev dev', same (machine.diskName device) dev dev' →
      Prog.Agrees False False related final related holds (next dev) (next' dev')) :
    Prog.Agrees False False related final related holds (diskOpen machine device >>= next)
      (diskOpen other device >>= next') := by
  have opened : Prog.Agrees False False related final related holds
      (openCall machine (machine.diskName device) >>= next) (openCall other (machine.diskName device) >>= next') := by
    intro before after states
    obtain ⟨dev, dev', before', after', run, run', alike, states⟩ | ⟨before', after', run, run', states⟩ :=
      opening.opens (machine.diskName device) before after states
    · rw [Prog.bind_run_ok run, Prog.bind_run_ok run']
      exact goes dev dev' alike before' after' states
    · rw [Prog.bind_run_error run, Prog.bind_run_error run']
      exact .inr ⟨rfl, states⟩
  unfold diskOpen
  unfold Machine.diskName at opened
  by_cases whole : machine.nwFullDisk = true
  · rw [if_pos whole] at opened
    rw [if_pos whole, if_pos (opening.flag ▸ whole), Prog.bind_assoc, Prog.bind_assoc]
    exact .bind (opening.mallocs _) fun _ _ => opened
  · rw [if_neg whole] at opened
    rw [if_neg whole, if_neg (opening.flag ▸ whole)]
    exact opened

/-- Two runs that find a partition find the same one. -/
theorem partFind_alike (final : Fs → Fs → Prop) (fuel : Nat) (device : Str) (partno : Nat)
    (found : ∀ dev dev' extent left right, same (machine.diskName device) dev dev' → related left right →
      final { left with part := left.part.found device partno dev extent }
        { right with part := right.part.found device partno dev' extent }) :
    Prog.Agrees False False related final related (fun _ => True)
      (partFind machine fuel device partno) (partFind other fuel device partno) := by
  refine diskOpen_alike opening device fun dev dev' alike => ?_
  exact .bind (.onError (readTable_alike (opening.sectors alike) fuel partno) (opening.closes alike))
    fun extent _ => .update fun _ _ states => found dev dev' extent _ _ alike states

end Finding

/-- The sectors of handles with the same contents. -/
theorem sectors_alike (fixed : machine.Fixed image) (reliable : machine.Reliable) (fixed' : other.Fixed image')
    (reliable' : other.Reliable) (contents : image dev = image' dev') (left right : Fs) :
    SectorsAlike machine other (Around left right) dev dev' := by
  rintro offset before after ⟨asideLeft, asideRight⟩
  obtain ⟨calls, answer, run, -, complete, bytes⟩ := diskRead_cases fixed before dev 512 offset
  obtain ⟨calls', answer', run', -, complete', bytes'⟩ := diskRead_cases fixed' after dev' 512 offset
  have same : answer.bytes = answer'.bytes := by
    rw [bytes (by omega), bytes' (by omega), contents]
  unfold readSector
  rw [Prog.bind_run_ok run, Prog.bind_run_ok run', if_pos (complete reliable), if_pos (complete' reliable')]
  exact ⟨same, trivial, asideLeft.calls calls, asideRight.calls calls'⟩

/-- Disks by their paths, and a firmware that has them: a device that can be opened
can be opened by every call, and its handle delivers its contents. The handles may be
others each time. -/
structure Serves (disks : Str → Option Image) (machine : Machine) (image : Nat → Image) : Prop where
  fixed : machine.Fixed image
  reliable : machine.Reliable
  opens : ∀ call device, (machine.openDevice call device).map image = disks device

/-- Two firmwares with the same disks serve two runs alike. -/
theorem Opening.around {disks : Str → Option Image} (serves : Serves disks machine image)
    (serves' : Serves disks other image') (flag : machine.nwFullDisk = other.nwFullDisk) (left right : Fs) :
    Opening machine other (Around left right) fun device dev dev' =>
      disks device = some (image dev) ∧ disks device = some (image' dev') where
  flag := flag
  mallocs size := by
    rintro _ _ ⟨⟨_, _, _, rfl⟩, ⟨_, _, _, rfl⟩⟩
    unfold malloc
    rw [if_pos (serves.reliable.granted _ _), if_pos (serves'.reliable.granted _ _)]
    exact ⟨rfl, trivial, ⟨_, _, _, rfl⟩, ⟨_, _, _, rfl⟩⟩
  opens device := by
    rintro _ _ ⟨⟨calls, _, _, rfl⟩, ⟨calls', _, _, rfl⟩⟩
    have opened := serves.opens calls device
    have opened' := serves'.opens calls' device
    unfold openCall
    rw [Prog.view_bind, Prog.view_bind, Prog.update_bind, Prog.update_bind]
    cases first : machine.openDevice calls device <;> cases second : other.openDevice calls' device <;>
      rw [first] at opened <;> rw [second] at opened'
    case none.none => exact .inr ⟨_, _, rfl, rfl, ⟨_, _, _, rfl⟩, ⟨_, _, _, rfl⟩⟩
    case some.some dev dev' =>
        exact .inl ⟨_, _, _, _, rfl, rfl, ⟨opened.symm, opened'.symm⟩, ⟨_, _, _, rfl⟩, ⟨_, _, _, rfl⟩⟩
    case none.some => cases opened.trans opened'.symm
    case some.none => cases opened.trans opened'.symm
  sectors alike := sectors_alike serves.fixed serves.reliable serves'.fixed serves'.reliable
    (Option.some.inj (alike.1.symm.trans alike.2)) left right
  closes := by
    rintro _ dev dev' - _ _ ⟨⟨_, _, _, rfl⟩, ⟨_, _, _, rfl⟩⟩
    exact ⟨⟨_, _, _, rfl⟩, ⟨_, _, _, rfl⟩⟩

/-- One run next to itself, in whatever surroundings. -/
theorem Opening.alone (machine : Machine) (start : Fs) :
    Opening machine machine (fun left right => left = right ∧ Aside start left) (fun _ dev dev' => dev = dev') where
  flag := rfl
  mallocs size := by
    rintro _ _ ⟨rfl, ⟨_, _, _, rfl⟩⟩
    unfold malloc
    split
    · exact ⟨rfl, trivial, rfl, _, _, _, rfl⟩
    · exact .inr ⟨rfl, rfl, _, _, _, rfl⟩
  opens device := by
    rintro _ _ ⟨rfl, ⟨calls, _, _, rfl⟩⟩
    unfold openCall
    rw [Prog.view_bind, Prog.update_bind]
    cases machine.openDevice calls device with
    | none => exact .inr ⟨_, _, rfl, rfl, rfl, _, _, _, rfl⟩
    | some handle => exact .inl ⟨_, _, _, _, rfl, rfl, rfl, rfl, _, _, _, rfl⟩
  sectors := by
    rintro device dev _ rfl offset
    unfold readSector
    refine .bindVia (fun left right => left = right ∧ Aside start left) (fun _ => True) ?_
      fun answer _ => ?_
    · rintro _ _ ⟨rfl, ⟨_, _, _, rfl⟩⟩
      exact ⟨rfl, trivial, rfl, _, _, _, rfl⟩
    · exact .ite (fun _ => .pure trivial) fun _ => .fail _ fun _ _ states => states
  closes := by
    rintro device dev _ rfl _ _ ⟨rfl, ⟨_, _, _, rfl⟩⟩
    exact ⟨rfl, _, _, _, rfl⟩

/-- The record of a partition that `part_open` has opened under these names. -/
structure OpenedAs (device : Str) (partno : Nat) (part : Part) : Prop where
  valid : part.valid = true
  partno : part.partno = partno
  devname : part.devname = device.take 512

theorem alreadyOpen_cases (device : Str) (partno : Nat) (part : Part) :
    (alreadyOpen device partno part = pure true ∧ part.valid = true ∧ part.partno = partno ∧
      part.devname = device ∧ device.length < 512) ∨
    alreadyOpen device partno part = pure false ∨
    alreadyOpen device partno part = Prog.undefined := by
  unfold alreadyOpen sameDevice
  by_cases open' : part.valid ∧ part.partno = partno
  · rw [if_pos open']
    by_cases ends : part.devname.length < 512
    · rw [if_pos ends]
      by_cases same : device = part.devname
      · exact .inl ⟨by rw [same, beq_self_eq_true]; rfl, open'.1, open'.2, same.symm, same ▸ ends⟩
      · exact .inr (.inl (by rw [beq_eq_false_iff_ne.mpr same]; rfl))
    · rw [if_neg ends]
      by_cases same : device.take 512 = part.devname
      · exact .inr (.inr (by rw [if_pos same]; rfl))
      · exact .inr (.inl (by rw [if_neg same]; rfl))
  · exact .inr (.inl (if_neg open'))

/-- The state in which `part_open` looks for a partition. -/
def closed (fs : Fs) : Fs :=
  if fs.part.valid then { diskClosed fs.part.dev fs with part := .zero } else fs

theorem closed_part (fs : Fs) : (closed fs).part.valid = false ∧
    (fs.part.mounted = false → (closed fs).part.mounted = false) := by
  unfold closed
  by_cases valid : fs.part.valid = true
  · rw [if_pos valid]
    exact ⟨rfl, fun _ => rfl⟩
  · rw [if_neg valid]
    exact ⟨Bool.eq_false_iff.mpr valid, id⟩

/-- Everything `part_open` does: nothing, when the partition is open already, or
it looks for the partition with none open. -/
theorem partOpen_cases (machine : Machine) (fuel : Nat) (device : Str) (partno : Nat) (fs : Fs) :
    (partOpen machine fuel device partno fs = .ok () fs ∧ fs.part.valid = true ∧
      fs.part.partno = partno ∧ fs.part.devname = device ∧ device.length < 512) ∨
    partOpen machine fuel device partno fs = partFind machine fuel device partno (closed fs) ∨
    partOpen machine fuel device partno fs = .undefined := by
  unfold partOpen
  rw [Prog.view_bind]
  rcases alreadyOpen_cases device partno fs.part with ⟨already, known⟩ | fresh | unknown
  · rw [already]
    exact .inl ⟨rfl, known⟩
  · rw [fresh, Prog.pure_bind]
    refine .inr (.inl ?_)
    unfold closed
    by_cases valid : fs.part.valid = true
    · rw [if_neg Bool.false_ne_true, if_pos valid, if_pos valid]
      rfl
    · rw [if_neg Bool.false_ne_true, if_neg valid, if_neg valid]
  · rw [unknown]
    exact .inr (.inr rfl)

theorem partOpen_startUp (machine : Machine) (fuel : Nat) (device : Str) (partno : Nat) :
    partOpen machine fuel device partno .startUp = partFind machine fuel device partno .startUp :=
  rfl

/-- What `part_open` leaves when it succeeds: the caches are as they were, and
the record has the names. -/
theorem partOpen_eq_ok {fuel partno : Nat} {device : Str} {fs after : Fs}
    (returned : partOpen machine fuel device partno fs = .ok () after) :
    OpenedAs device partno after.part ∧
      (fs.part.mounted = false → after.part.mounted = false) ∧
      after.indir1 = fs.indir1 ∧ after.indir2 = fs.indir2 := by
  rcases partOpen_cases machine fuel device partno fs with
    ⟨run, valid, rfl, rfl, ends⟩ | run | run
  · rw [run] at returned
    cases returned
    exact ⟨⟨valid, rfl, (List.take_of_length_le (Nat.le_of_lt ends)).symm⟩, id, rfl, rfl⟩
  · have found := (partFind_alike (Opening.alone machine (closed fs))
      (fun left _ => OpenedAs device partno left.part ∧
        left.part.mounted = (closed fs).part.mounted ∧
        left.indir1 = (closed fs).indir1 ∧ left.indir2 = (closed fs).indir2) fuel device partno
      (by
        rintro dev _ extent _ _ rfl ⟨rfl, ⟨_, _, _, rfl⟩⟩
        exact ⟨⟨rfl, rfl, rfl⟩, rfl, rfl, rfl⟩)).self ⟨rfl, .refl _⟩ (run ▸ returned)
    obtain ⟨-, opened, mounted, indir1, indir2⟩ := found
    have same : (closed fs).indir1 = fs.indir1 ∧ (closed fs).indir2 = fs.indir2 := by
      unfold closed
      split <;> exact ⟨rfl, rfl⟩
    exact ⟨opened, fun unmounted => mounted.trans ((closed_part fs).2 unmounted),
      indir1.trans same.1, indir2.trans same.2⟩
  · rw [run] at returned
    cases returned

/-- A second call with the same names does nothing. -/
theorem partOpen_same (machine : Machine) {device : Str} {partno : Nat} {fs : Fs}
    (opened : OpenedAs device partno fs.part) (ends : device.length < 512) (fuel : Nat) :
    partOpen machine fuel device partno fs = .ok () fs := by
  have whole : fs.part.devname = device := by rw [opened.devname, List.take_of_length_le (Nat.le_of_lt ends)]
  unfold partOpen
  rw [Prog.view_bind, alreadyOpen, if_pos ⟨opened.valid, opened.partno⟩, sameDevice, whole, if_pos ends,
    beq_self_eq_true]
  rfl

/-- A second call with the same names does nothing, unless it compares with a
name that is too long. -/
theorem partOpen_again (machine : Machine) {device : Str} {partno : Nat} {fs : Fs}
    (opened : OpenedAs device partno fs.part) (fuel : Nat) :
    partOpen machine fuel device partno fs = .ok () fs ∨
      partOpen machine fuel device partno fs = .undefined := by
  by_cases ends : device.length < 512
  · exact .inl (partOpen_same machine opened ends fuel)
  · have full : ¬fs.part.devname.length < 512 := by
      rw [opened.devname, List.length_take]
      omega
    unfold partOpen
    rw [Prog.view_bind, alreadyOpen, if_pos ⟨opened.valid, opened.partno⟩, sameDevice, if_neg full,
      if_pos opened.devname.symm]
    exact .inr rfl

end IQuik.Storage
