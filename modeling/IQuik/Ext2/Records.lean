import IQuik.Ext2.Repeats
import IQuik.Ext2.Transfers

namespace IQuik.Ext2

open IQuik.Data IQuik.Program IQuik.Storage

/-! # The records of a directory

What the bytes of a directory say at a position, as far as `ext2fs_read_file` stores
them in the local variables of a scan. Records may overlap, and be cut off.
-/

variable {machine : Machine} {image : Nat → Image} {part : Part} {start fs : Fs} {dir : Node}
  {room pos len fpos direntlen : Nat}

section Bytes

/-- What `ext2fs_read_file` stores of a file in a local variable of `room` bytes. -/
abbrev Stored (image : Nat → Image) (part : Part) (room : Nat) (dir : Node) (pos len : Nat) (buffer : Buffer) : Prop :=
  walkLocal image part room dir pos len () = .ok buffer ()

/-- It returns an error. -/
abbrev ReadFails (image : Nat → Image) (part : Part) (room : Nat) (dir : Node) (pos len : Nat) : Prop :=
  ∃ code, walkLocal image part room dir pos len () = .error code ()

variable {buffer : Buffer}

/-- The bytes are stored one behind the other, and none of them behind the variable. -/
theorem Stored.piece (stored : Stored image part room dir pos len buffer) :
    ∃ count ≤ room, ∀ index, (buffer index).isSome ↔ index < count := by
  obtain ⟨walk, inside⟩ := Prog.confine_eq_ok.mp (Prog.scratch_eq_ok.mp stored)
  obtain ⟨_, _, size, -⟩ := Prog.bind_eq_ok.mp walk
  have log : dir.data.log2Bytes < 31 := (ext2BlockSizeInt_eq_ok.mp (Prog.onFirst_eq_ok.mp size).1).1
  obtain ⟨count, written, -⟩ := walkFile_transfers log walk
  have behind : (buffer room).isSome ↔ room < count := written room
  rw [show buffer room = none from inside] at behind
  exact ⟨count, Nat.not_lt.mp fun more => absurd (behind.mpr more) (by simp), written⟩

theorem Stored.le16 (stored : Stored image part room dir pos len buffer) {offset last : Nat}
    (known : (buffer last).isSome) (inside : offset + 1 ≤ last) : ∃ value, buffer.le16? offset = some value := by
  obtain ⟨count, -, written⟩ := stored.piece
  have reaches := (written last).mp known
  obtain ⟨low, lowKnown⟩ := Option.isSome_iff_exists.mp ((written offset).mpr (by omega))
  obtain ⟨high, highKnown⟩ := Option.isSome_iff_exists.mp ((written (offset + 1)).mpr (by omega))
  exact ⟨_, by rw [Buffer.le16?, lowKnown, highKnown]⟩

theorem Stored.le32 (stored : Stored image part room dir pos len buffer) {offset last : Nat}
    (known : (buffer last).isSome) (inside : offset + 3 ≤ last) : ∃ value, buffer.le32? offset = some value := by
  obtain ⟨low, lowKnown⟩ := stored.le16 known (show offset + 1 ≤ last by omega)
  obtain ⟨high, highKnown⟩ := stored.le16 known (show offset + 2 + 1 ≤ last by omega)
  exact ⟨_, by rw [Buffer.le32?, lowKnown, highKnown]⟩

/-- What a scan keeps of an entry that has a name. -/
structure NamedEntry where
  inode : Nat
  filetype : UInt8
  namelen : UInt8
  filename : Buffer

/-- The entry at a position, with the length of its record. -/
inductive RecordAt (image : Nat → Image) (part : Part) (dir : Node) (fpos : Nat) : Nat → Option NamedEntry → Prop
  | unnamed {header : Buffer} {direntlen : Nat} (stored : Stored image part 8 dir fpos 8 header)
      (namelen : header 6 = some 0) (length : header.le16? 4 = some direntlen) :
      RecordAt image part dir fpos direntlen none
  | named {header : Buffer} {direntlen : Nat} {entry : NamedEntry} (stored : Stored image part 8 dir fpos 8 header)
      (namelen : header 6 = some entry.namelen) (some' : entry.namelen ≠ 0)
      (length : header.le16? 4 = some direntlen) (inode : header.le32? 0 = some entry.inode)
      (filetype : header 7 = some entry.filetype)
      (filename : Stored image part (entry.namelen.toNat + 1) dir ((fpos + 8) % 2 ^ 32) entry.namelen.toNat
        entry.filename) :
      RecordAt image part dir fpos direntlen (some entry)

/-- The header of the entry at a position or its name cannot be read. -/
inductive Unreadable (image : Nat → Image) (part : Part) (dir : Node) (fpos : Nat) : Prop
  | header (refused : ReadFails image part 8 dir fpos 8)
  | filename {header : Buffer} {namelen : UInt8} (stored : Stored image part 8 dir fpos 8 header)
      (known : header 6 = some namelen) (some' : namelen ≠ 0)
      (refused : ReadFails image part (namelen.toNat + 1) dir ((fpos + 8) % 2 ^ 32) namelen.toNat)

end Bytes

section Later

/-- What is left of the volume's state after a read of a file. -/
theorem Later.step (later : Later image start fs) {after : Fs} (warm : Warm image fs after) :
    Later image start after where
  openLeft := rfl
  openRight := warm.near.part.trans later.openRight
  warmLeft := later.warmLeft
  warmRight := warm.settled
  keep := by
    have same : start.inodeSize = fs.inodeSize := later.keep
    exact same.trans warm.near.inodeSize.symm

section Reads

variable (fixed : machine.Fixed image) (reliable : machine.Reliable) (usable : dir.data.log2Ext2BlockSize ≠ 0)
include fixed reliable usable

theorem readLocal_agree (later : Later image start fs) (room pos len : Nat) :
    (readLocal machine room dir pos len fs).Agree False False (fun after _ => Warm image fs after)
      (fun after _ => Warm image fs after) (fun _ => True) (walkLocal image start.part room dir pos len ()) := by
  rw [← later.openRight]
  exact readLocal_agrees fixed (.inr reliable) dir (.inr usable) room pos len fs () later.warmRight

theorem Stored.run {buffer : Buffer} (stored : Stored image start.part room dir pos len buffer)
    (later : Later image start fs) :
    ∃ after, readLocal machine room dir pos len fs = .ok buffer after ∧ Later image start after := by
  have agree := readLocal_agree fixed reliable usable later room pos len
  rw [stored] at agree
  obtain ⟨after, run, -, warm⟩ := agree.of_ok_right
  exact ⟨after, run, later.step warm⟩

theorem ReadFails.run (refused : ReadFails image start.part room dir pos len) (later : Later image start fs) :
    ∃ code after, readLocal machine room dir pos len fs = .error code after := by
  obtain ⟨code, refused⟩ := refused
  have agree := readLocal_agree fixed reliable usable later room pos len
  rw [refused] at agree
  obtain ⟨after, run, -⟩ := agree.of_error_right
  exact ⟨code, after, run⟩

/-- A read that returns stores bytes or returns an error. -/
theorem readLocal_cases (later : Later image start fs)
    (returned : (readLocal machine room dir pos len fs).state?.isSome) :
    (∃ buffer, Stored image start.part room dir pos len buffer) ∨ ReadFails image start.part room dir pos len := by
  have agree := readLocal_agree fixed reliable usable later room pos len
  cases walk : walkLocal image start.part room dir pos len () with
  | ok buffer after => exact .inl ⟨buffer, walk⟩
  | error code after => exact .inr ⟨code, walk⟩
  | fault | undefined | unfinished =>
      rw [walk] at agree
      rw [agree.of_stopped_right rfl] at returned
      cases returned

theorem direntAt_unnamed (record : RecordAt image start.part dir fpos direntlen none)
    (later : Later image start fs) :
    ∃ after, Later image start after ∧ direntAt machine dir fpos fs = .ok (direntlen, none) after := by
  cases record with
  | unnamed stored namelen length =>
      obtain ⟨after, run, later⟩ := stored.run fixed reliable usable later
      unfold direntAt
      rw [Prog.bind_run_ok run, namelen, Prog.defined_some, Prog.pure_bind, if_neg (not_not.mpr rfl), length]
      exact ⟨after, later, rfl⟩

/-- The inode of an entry with a name is read where its type is not stated. -/
theorem direntAt_named {entry : NamedEntry} (record : RecordAt image start.part dir fpos direntlen (some entry))
    (later : Later image start fs) :
    ∃ middle, Later image start middle ∧ direntAt machine dir fpos fs =
      (direntNode machine dir.data entry.inode entry.filetype >>= fun node => pure (direntlen, some
        { namelen := entry.namelen.toNat, filename := entry.filename, node := node.1, type := node.2 })) middle := by
  cases record with
  | named stored namelen some' length inode filetype filename =>
      obtain ⟨middle, first, later⟩ := stored.run fixed reliable usable later
      obtain ⟨after, second, later⟩ := filename.run fixed reliable usable later
      unfold direntAt
      rw [Prog.bind_run_ok first, namelen, Prog.defined_some, Prog.pure_bind, if_pos some',
        Prog.bind_run_ok second, inode, filetype, length]
      exact ⟨after, later, rfl⟩

theorem direntAt_unreadable (unreadable : Unreadable image start.part dir fpos) (later : Later image start fs) :
    ∃ code after, direntAt machine dir fpos fs = .error code after := by
  unfold direntAt
  cases unreadable with
  | header refused =>
      obtain ⟨code, after, run⟩ := refused.run fixed reliable usable later
      exact ⟨code, after, Prog.bind_run_error run⟩
  | filename stored known some' refused =>
      obtain ⟨middle, first, later⟩ := stored.run fixed reliable usable later
      obtain ⟨code, after, second⟩ := refused.run fixed reliable usable later
      rw [Prog.bind_run_ok first, known, Prog.defined_some, Prog.pure_bind, if_pos some']
      exact ⟨code, after, Prog.bind_run_error second⟩

/-- There is no other way for an iteration to go on or to fail. -/
theorem direntAt_cases (later : Later image start fs) (returned : (direntAt machine dir fpos fs).state?.isSome) :
    Unreadable image start.part dir fpos ∨ ∃ direntlen entry, RecordAt image start.part dir fpos direntlen entry := by
  unfold direntAt at returned
  have begins := Prog.state?_of_bind returned
  obtain ⟨header, stored⟩ | refused := readLocal_cases fixed reliable usable later begins
  swap
  · exact .inl (.header refused)
  obtain ⟨middle, run, later⟩ := stored.run fixed reliable usable later
  rw [Prog.bind_run_ok run] at returned
  cases namelen : header 6 with
  | none =>
      rw [namelen] at returned
      cases returned
  | some count =>
      have known : (header 6).isSome := by rw [namelen]; rfl
      obtain ⟨direntlen, length⟩ := stored.le16 known (show 4 + 1 ≤ 6 by decide)
      obtain ⟨inode, number⟩ := stored.le32 known (show 0 + 3 ≤ 6 by decide)
      by_cases unnamed : count = 0
      · subst unnamed
        exact .inr ⟨direntlen, none, .unnamed stored namelen length⟩
      rw [namelen, Prog.defined_some, Prog.pure_bind, if_pos unnamed] at returned
      obtain ⟨filename, second⟩ | refused := readLocal_cases fixed reliable usable later (Prog.state?_of_bind returned)
      swap
      · exact .inl (.filename stored namelen unnamed refused)
      obtain ⟨after, run, -⟩ := second.run fixed reliable usable later
      rw [Prog.bind_run_ok run, number, Prog.defined_some, Prog.pure_bind] at returned
      cases type : header 7 with
      | none =>
          rw [type] at returned
          cases returned
      | some filetype =>
          exact .inr ⟨direntlen, some { inode, filetype, namelen := count, filename },
            .named stored namelen unnamed length number type second⟩

end Reads

variable (reliable : machine.Reliable) {data : Ext2Data} {ino : Nat} {filetype : UInt8}
include reliable

/-- The node of an entry that states its type. -/
theorem direntNode_stated (later : Later image start fs) (states : filetype ≠ 0) :
    ∃ after, direntNode machine data ino filetype fs =
      .ok ({ data, ino, inode := { raw := fun _ => 0 }, inodeRead := false }, .ofDirent filetype) after ∧
      Later image start after := by
  have granted : malloc machine 140 fs = .ok () { fs with mallocs := fs.mallocs + 1 } :=
    if_pos (reliable.granted _ _)
  have ready := later.step ((later.warmRight.atSlot .indir1).mallocs (fs.mallocs + 1)).warm
  unfold direntNode
  rw [Prog.bind_run_ok granted, if_pos states]
  exact ⟨_, rfl, ready⟩

/-- The inode of every other entry is read. -/
theorem direntNode_reads (later : Later image start fs) :
    ∃ ready, Later image start ready ∧ direntNode machine data ino 0 fs =
      (ext2fsReadInode machine data ino >>= fun inode =>
        pure ({ data, ino, inode, inodeRead := true }, .ofMode inode.mode)) ready := by
  have granted : malloc machine 140 fs = .ok () { fs with mallocs := fs.mallocs + 1 } :=
    if_pos (reliable.granted _ _)
  have ready := later.step ((later.warmRight.atSlot .indir1).mallocs (fs.mallocs + 1)).warm
  unfold direntNode
  rw [Prog.bind_run_ok granted, if_neg (not_not.mpr rfl)]
  exact ⟨_, ready, rfl⟩

end Later

end IQuik.Ext2
