import IQuik.Program.Frames
import IQuik.Storage.Tables

namespace IQuik.Storage

open IQuik.Data IQuik.Program

/-! # Device handles over any calls of `part_open` -/

variable {machine : Machine}

/-- Neither the partition record nor the open handles change. -/
abbrev KeepsOpen {α : Type} (program : FsProg α) : Prop :=
  Prog.Keeps (fun before after => (after.part, after.handles) = (before.part, before.handles)) program

theorem frameOpen : Prog.Frame fun before after : Fs =>
    (after.part, after.handles) = (before.part, before.handles) :=
  .of_same fun fs : Fs => (fs.part, fs.handles)

theorem readSector_keeps (dev offset : Nat) : KeepsOpen (readSector machine dev offset) := by
  unfold readSector
  refine .bind frameOpen (fun before after returned => ?_) fun answer => ?_
  · simp only [diskRead] at returned
    split at returned <;> cases returned <;> rfl
  · exact .ite (.pure frameOpen _) (.fail frameOpen _)

theorem readMacEntries_keeps (dev part secsize fuel i blocks : Nat) :
    KeepsOpen (readMacEntries machine dev part secsize fuel i blocks) := by
  induction fuel generalizing i blocks with
  | zero => exact .unfinished
  | succ fuel ih =>
      unfold readMacEntries
      refine .ite (.bind frameOpen (readSector_keeps dev _) fun entry => ?_) (.fail frameOpen _)
      exact .ite (.fail frameOpen _) (.ite (.pure frameOpen _) (ih _ _))

theorem readTable_keeps (machine : Machine) (fuel dev part : Nat) : KeepsOpen (readTable machine fuel dev part) := by
  have mac : KeepsOpen (readMacPartition machine fuel dev part) := by
    refine .bind frameOpen (readSector_keeps dev 0) fun block => ?_
    exact .ite (.fail frameOpen _) (readMacEntries_keeps _ _ _ _ _ _)
  have dos : KeepsOpen (readDosPartition machine dev part) := by
    refine .bind frameOpen (readSector_keeps dev 0) fun block => ?_
    exact .ite (.fail frameOpen _) (.ite (.fail frameOpen _) (.pure frameOpen _))
  refine .bind frameOpen (.attempt mac) fun result => ?_
  split
  · exact .pure frameOpen _
  · exact .mapError _ dos
  · exact .fail frameOpen _

/-- What `disk_open` does: one more handle, or an error and none. -/
theorem diskOpen_cases (machine : Machine) (device : Str) (fs : Fs) :
    (∃ dev after, diskOpen machine device fs = .ok dev after ∧ after.part = fs.part ∧
      after.handles = dev :: fs.handles) ∨
    ∃ code after, diskOpen machine device fs = .error code after ∧ after.part = fs.part ∧
      after.handles = fs.handles := by
  have call : ∀ (name : Str) (fs : Fs),
      (∃ dev after, openCall machine name fs = .ok dev after ∧ after.part = fs.part ∧
        after.handles = dev :: fs.handles) ∨
      ∃ code after, openCall machine name fs = .error code after ∧ after.part = fs.part ∧
        after.handles = fs.handles := by
    intro name fs
    simp only [openCall, Prog.view_bind, Prog.update_bind]
    cases machine.openDevice fs.calls name with
    | none => exact .inr ⟨_, _, rfl, rfl, rfl⟩
    | some handle => exact .inl ⟨_, _, rfl, rfl, rfl⟩
  unfold diskOpen
  split
  · by_cases granted : machine.grants fs.mallocs (device.length + 3) = true
    · have room : malloc machine (device.length + 3) fs =
          .ok () { fs with mallocs := fs.mallocs + 1 } := if_pos granted
      rw [Prog.bind_run_ok room]
      exact call _ _
    · have full : malloc machine (device.length + 3) fs =
          .error .noMem { fs with mallocs := fs.mallocs + 1 } := if_neg granted
      exact .inr ⟨_, _, Prog.bind_run_error full, rfl, rfl⟩
  · exact call _ _

/-- The extent that a call reads from the partition table of its device. -/
def tableExtent (machine : Machine) (fuel : Nat) (device : Str) (partno : Nat) : FsProg Extent := do
  let dev ← diskOpen machine device
  readTable machine fuel dev partno

/-- Everything `partFind` does with no handle open. -/
theorem partFind_cases (machine : Machine) (fuel partno : Nat) (device : Str) {fs : Fs} (none' : fs.handles = []) :
    (∃ dev extent after, partFind machine fuel device partno fs = .ok () after ∧
      (tableExtent machine fuel device partno fs).value? = some extent ∧
      after.part = fs.part.found device partno dev extent ∧ after.handles = [dev]) ∨
    (∃ code after, partFind machine fuel device partno fs = .error code after ∧
      after.part = fs.part ∧ after.handles = []) ∨
    (partFind machine fuel device partno fs).state? = none := by
  unfold partFind tableExtent
  rcases diskOpen_cases machine device fs with
    ⟨dev, opened, run, part, handles⟩ | ⟨code, after, run, part, handles⟩
  · rw [Prog.bind_run_ok run, Prog.bind_run_ok run]
    rw [none'] at handles
    have kept := readTable_keeps machine fuel dev partno opened
    cases table : readTable machine fuel dev partno opened with
    | ok extent after =>
        rw [table] at kept
        obtain ⟨same, open'⟩ := Prod.mk.inj (kept after rfl)
        have guarded : Prog.onError (diskClosed dev) (readTable machine fuel dev partno) opened =
            .ok extent after := by simp only [Prog.onError, table]
        rw [Prog.bind_run_ok guarded]
        refine .inl ⟨dev, extent, _, rfl, rfl, ?_, open'.trans handles⟩
        exact congrArg (Part.found · device partno dev extent) (same.trans part)
    | error code after =>
        rw [table] at kept
        obtain ⟨same, open'⟩ := Prod.mk.inj (kept after rfl)
        have guarded : Prog.onError (diskClosed dev) (readTable machine fuel dev partno) opened =
            .error code (diskClosed dev after) := by simp only [Prog.onError, table]
        rw [Prog.bind_run_error guarded]
        refine .inr (.inl ⟨code, _, rfl, same.trans part, ?_⟩)
        simp [diskClosed, open', handles]
    | fault =>
        have guarded : Prog.onError (diskClosed dev) (readTable machine fuel dev partno) opened =
            .fault := by simp only [Prog.onError, table]
        exact .inr (.inr (by rw [Prog.bind_run_fault guarded]; rfl))
    | undefined =>
        have guarded : Prog.onError (diskClosed dev) (readTable machine fuel dev partno) opened =
            .undefined := by simp only [Prog.onError, table]
        exact .inr (.inr (by rw [Prog.bind_run_undefined guarded]; rfl))
    | unfinished =>
        have guarded : Prog.onError (diskClosed dev) (readTable machine fuel dev partno) opened =
            .unfinished := by simp only [Prog.onError, table]
        exact .inr (.inr (by rw [Prog.bind_run_unfinished guarded]; rfl))
  · rw [Prog.bind_run_error run]
    exact .inr (.inl ⟨code, after, rfl, part, handles.trans none'⟩)

/-- What a call of `part_open` that succeeded has opened. -/
structure Opened where
  device : Str
  partno : Nat
  extent : Extent

/-- What a call opens that succeeds: what the last one opened, if that is still
open under the same names, or else what it finds in the partition table. -/
def openedBy (machine : Machine) (fuel : Nat) (device : Str) (partno : Nat) (last : Option Opened)
    (fs : Fs) : Option Opened :=
  match last.filter fun opened =>
      fs.part.valid && opened.device == device && opened.partno == partno with
  | some opened => some opened
  | none => (tableExtent machine fuel device partno (closed fs)).value?.map fun extent =>
      { device, partno, extent }

/-- Any calls of `part_open` on a record that starts as zeros, and what the last
one of them opened that succeeded. -/
inductive PartHistory (machine : Machine) : Option Opened → Fs → Prop
  | start {fs : Fs} (zero : fs.part = .zero) (none' : fs.handles = []) : PartHistory machine none fs
  | success {last : Option Opened} {fs after : Fs} {fuel partno : Nat} {device : Str}
      (history : PartHistory machine last fs) (short : device.length < 512)
      (returned : partOpen machine fuel device partno fs = .ok () after) :
      PartHistory machine (openedBy machine fuel device partno last fs) after
  | failure {last : Option Opened} {fs after : Fs} {fuel partno : Nat} {device : Str} {code : QuikErr}
      (history : PartHistory machine last fs) (short : device.length < 512)
      (returned : partOpen machine fuel device partno fs = .error code after) :
      PartHistory machine last after

/-- The handle that is open is that of a valid record, and the record is what the
last call opened that succeeded. -/
structure PartInvariant (last : Option Opened) (fs : Fs) : Prop where
  handles : fs.handles = if fs.part.valid then [fs.part.dev] else []
  opened : fs.part.valid = true → ∃ opened, last = some opened ∧ fs.part.devname = opened.device ∧
    fs.part.partno = opened.partno ∧ fs.part.start = opened.extent.start ∧
    fs.part.len = opened.extent.len

theorem PartInvariant.noHandle {last : Option Opened} {fs : Fs} (kept : PartInvariant last fs) :
    (closed fs).handles = [] := by
  have handles := kept.handles
  unfold closed
  by_cases valid : fs.part.valid = true
  · rw [if_pos valid] at handles ⊢
    simp [diskClosed, handles]
  · rw [if_neg valid] at handles ⊢
    exact handles

/-- A call with the names of the open partition changes nothing. -/
theorem PartInvariant.reuse {last : Option Opened} {fs : Fs} (kept : PartInvariant last fs)
    (machine : Machine) (fuel : Nat) (valid : fs.part.valid = true) (short : fs.part.devname.length < 512) :
    partOpen machine fuel fs.part.devname fs.part.partno fs = .ok () fs ∧
      openedBy machine fuel fs.part.devname fs.part.partno last fs = last := by
  constructor
  · simp [partOpen, alreadyOpen, sameDevice, valid, short]
  · obtain ⟨opened, rfl, device, partno, -⟩ := kept.opened valid
    simp [openedBy, Option.filter, valid, device, partno]

/-- Any other call looks for the partition with no handle open. -/
theorem PartInvariant.fresh {last : Option Opened} {fs : Fs} (kept : PartInvariant last fs)
    (machine : Machine) (fuel : Nat) {partno : Nat} {device : Str}
    (other : ¬(fs.part.valid = true ∧ fs.part.partno = partno ∧ fs.part.devname = device)) :
    (partOpen machine fuel device partno fs = partFind machine fuel device partno (closed fs) ∨
      partOpen machine fuel device partno fs = .undefined) ∧
    openedBy machine fuel device partno last fs =
      (tableExtent machine fuel device partno (closed fs)).value?.map fun extent =>
        { device, partno, extent } := by
  constructor
  · rcases partOpen_cases machine fuel device partno fs with ⟨-, valid, same, name, -⟩ | run | run
    · exact absurd ⟨valid, same, name⟩ other
    · exact .inl run
    · exact .inr run
  · have different : last.filter (fun opened =>
        fs.part.valid && opened.device == device && opened.partno == partno) = none := by
      rw [Option.filter_eq_none_iff]
      intro opened same
      by_cases valid : fs.part.valid = true
      · obtain ⟨opened', same', device', partno', -⟩ := kept.opened valid
        obtain rfl := Option.some.inj (same.symm.trans same')
        intro names
        simp only [valid, Bool.true_and, Bool.and_eq_true, beq_iff_eq] at names
        exact other ⟨valid, partno'.trans names.2, device'.trans names.1⟩
      · simp [Bool.eq_false_iff.mpr valid]
    simp only [openedBy, different]

/-- Everything a call does that returns. -/
theorem PartInvariant.call {last : Option Opened} {fs after : Fs} (kept : PartInvariant last fs)
    {machine : Machine} {fuel partno : Nat} {device : Str} (short : device.length < 512)
    (returned : (partOpen machine fuel device partno fs).state? = some after) :
    (partOpen machine fuel device partno fs = .ok () after ∧
      PartInvariant (openedBy machine fuel device partno last fs) after) ∨
    ∃ code, partOpen machine fuel device partno fs = .error code after ∧
      after.part.valid = false ∧ after.handles = [] := by
  by_cases same : fs.part.valid = true ∧ fs.part.partno = partno ∧ fs.part.devname = device
  · obtain ⟨valid, rfl, rfl⟩ := same
    obtain ⟨run, opens⟩ := kept.reuse machine fuel valid short
    rw [run] at returned
    cases returned
    exact .inl ⟨run, opens.symm ▸ kept⟩
  · obtain ⟨run | run, opens⟩ := kept.fresh machine fuel same
    · rw [run] at returned ⊢
      rcases partFind_cases machine fuel partno device kept.noHandle with ⟨dev, extent, found, find, table, part, handles⟩ |
          ⟨code, found, find, part, handles⟩ | find
      · rw [find] at returned ⊢
        cases returned
        refine .inl ⟨rfl, ?_, fun _ => ⟨{ device, partno, extent }, ?_, ?_⟩⟩
        · simp [part, handles, Part.found]
        · rw [opens, table]
          rfl
        · simp [part, Part.found, List.take_of_length_le (Nat.le_of_lt short)]
      · rw [find] at returned ⊢
        cases returned
        exact .inr ⟨code, rfl, part ▸ (closed_part fs).1, handles⟩
      · rw [find] at returned
        cases returned
    · rw [run] at returned
      cases returned

theorem PartHistory.invariant {last : Option Opened} {fs : Fs} (history : PartHistory machine last fs) :
    PartInvariant last fs := by
  induction history with
  | start zero none' =>
      refine ⟨by simp [zero, none', Part.zero], fun valid => ?_⟩
      rw [zero] at valid
      cases valid
  | success history short returned kept =>
      rcases kept.call short (by rw [returned]; rfl) with
        ⟨-, kept⟩ | ⟨code, failed, -⟩
      · exact kept
      · rw [returned] at failed
        cases failed
  | failure history short returned kept =>
      rcases kept.call short (by rw [returned]; rfl) with
        ⟨run, -⟩ | ⟨code, -, invalid, handles⟩
      · rw [returned] at run
        cases run
      · exact ⟨by simp [invalid, handles], fun valid => by simp [invalid] at valid⟩

/-- Over any calls the handles that are open are that of the valid record, the
record is what the last call opened that succeeded, and a call that fails leaves
no valid record. -/
theorem partOpen_history {last : Option Opened} {fs : Fs} (history : PartHistory machine last fs) :
    PartInvariant last fs ∧ ∀ fuel device partno code after, device.length < 512 →
      partOpen machine fuel device partno fs = .error code after → after.part.valid = false := by
  have kept := history.invariant
  refine ⟨kept, fun fuel device partno code after short failed => ?_⟩
  rcases kept.call short (by rw [failed]; rfl) with
    ⟨run, -⟩ | ⟨_, -, invalid, -⟩
  · rw [failed] at run
    cases run
  · exact invalid

/-- A firmware with one disk, which has two partitions. Every open gives another handle. -/
def twoPartitions : Machine where
  openDevice call _ := some (call + 1)
  read _ _ offset nbytes :=
    { count := nbytes, bytes := fun index =>
        Image.ofRuns [(0, [0x45, 0x52, 2, 0]),
          (512, [0x50, 0x4d, 0, 0, 0, 0, 0, 2, 0, 0, 0, 64, 0, 0, 0, 64]),
          (1024, [0x50, 0x4d, 0, 0, 0, 0, 0, 2, 0, 0, 0, 128, 0, 0, 0, 64])] (offset + index) }
  grants _ _ := true
  nwFullDisk := false

/-- The other partition is opened, one that does not exist is asked for, and then the first one again. -/
theorem partOpen_history_sample : ∃ first second failed final last code,
    partOpen twoPartitions 4 (str "hd") 1 .startUp = .ok () first ∧
    partOpen twoPartitions 4 (str "hd") 2 first = .ok () second ∧
    partOpen twoPartitions 4 (str "hd") 9 second = .error code failed ∧ failed.part.valid = false ∧
    partOpen twoPartitions 4 (str "hd") 1 failed = .ok () final ∧ PartInvariant last final := by
  let opens (partno : Nat) (fs : Fs) := partOpen twoPartitions 4 (str "hd") partno fs
  have run : ((opens 1 .startUp).success?.bind fun first => (opens 2 first).success?.bind fun second =>
      (opens 9 second).code?.bind fun _ => (opens 9 second).state?.bind fun failed =>
        (opens 1 failed).success?).isSome = true := by
    decide +kernel
  obtain ⟨final, run⟩ := Option.isSome_iff_exists.mp run
  obtain ⟨first, opens1, run⟩ := Option.bind_eq_some_iff.mp run
  obtain ⟨second, opens2, run⟩ := Option.bind_eq_some_iff.mp run
  obtain ⟨code, fails, run⟩ := Option.bind_eq_some_iff.mp run
  obtain ⟨failed, stopped, again⟩ := Option.bind_eq_some_iff.mp run
  obtain ⟨_, opens1⟩ := Outcome.success?_eq_some.mp opens1
  obtain ⟨_, opens2⟩ := Outcome.success?_eq_some.mp opens2
  obtain ⟨_, again⟩ := Outcome.success?_eq_some.mp again
  have fails := Outcome.eq_error fails stopped
  have short : (str "hd").length < 512 := by decide
  have changed := (PartHistory.start rfl rfl).success short opens1 |>.success short opens2
  have invalid := (partOpen_history changed).2 _ _ _ _ _ short fails
  have kept := (partOpen_history ((changed.failure short fails).success short again)).1
  exact ⟨first, second, failed, final, _, code, opens1, opens2, fails, invalid, again, kept⟩

end IQuik.Storage
