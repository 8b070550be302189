import IQuik.Ext2.Caches

namespace IQuik.Ext2

open IQuik.Data IQuik.Program IQuik.Storage

/-! # Block lookups without caches -/

/-- Entry `index` of the pointer block at `sector`. -/
def walkEntry (image : Nat → Image) (part : Part) (blksz sector index : Nat) :
    Prog QuikErr Unit Nat :=
  if part.len ≤ sector * 512 + blksz then Prog.fail .partBeyond
  else pure ((sectorImage image part sector 0).le32 (4 * index))

theorem walkEntry_bind {α : Type} (image : Nat → Image) (part : Part) (blksz sector index : Nat)
    (next : Nat → Prog QuikErr Unit α) :
    walkEntry image part blksz sector index >>= next =
      if part.len ≤ sector * 512 + blksz then Prog.fail .partBeyond
      else next ((sectorImage image part sector 0).le32 (4 * index)) := by
  unfold walkEntry
  split <;> rfl

/-- What `ext2fs_read_block` finds on a partition, whatever its caches hold. -/
def walkBlock (image : Nat → Image) (part : Part) (node : Node) (fileblock : Nat) :
    Prog QuikErr Unit Nat := do
  let blksz ← ext2BlockSizeInt node.data
  let log2Blksz := node.data.log2Ext2BlockSize
  Prog.demand (fileblock < 2 ^ 31)
  if fileblock < 12 then pure (node.inode.dirBlock fileblock)
  else if fileblock < 12 + blksz / 4 then do
    let sector ← shl32 node.inode.indirBlock log2Blksz
    walkEntry image part blksz sector (fileblock - 12)
  else do
    Prog.demand (12 + blksz / 4 * (blksz / 4 + 1) < 2 ^ 31)
    if fileblock < 12 + blksz / 4 * (blksz / 4 + 1) then do
      let perblock := blksz / 4
      let rblock := fileblock - (12 + blksz / 4)
      let sector ← shl32 node.inode.doubleIndirBlock log2Blksz
      let entry ← walkEntry image part blksz sector (rblock / perblock)
      let sector ← shl32 entry log2Blksz
      walkEntry image part blksz sector (rblock % perblock)
    else Prog.fail .fsCorrupt

variable {machine : Machine} {image : Nat → Image} {start : Fs} {slot : Slot}
  {others : IndirCache → Prop} {short blanked : Prop} {blksz log2Blksz entry : Nat}

/-- A block of the shape `2 ^ k` sectors does not start at an odd sector. -/
theorem shifted_ne_noBlkno {sector : Nat} (shift : log2Blksz ≠ 0)
    (shifted : sector = entry * 2 ^ log2Blksz % 2 ^ 32) : sector ≠ noBlkno := by
  obtain ⟨less, rfl⟩ := Nat.exists_eq_succ_of_ne_zero shift
  have even : entry * 2 ^ less.succ = 2 * (entry * 2 ^ less) := by
    rw [Nat.pow_succ, ← Nat.mul_assoc, Nat.mul_comm]
  unfold noBlkno
  omega

variable (slot others) in
/-- A cached lookup of the block `pointer` names, and what comes after it. -/
theorem loadIndir_agrees {α : Type} (final broken : Fs → Unit → Prop) (holds : α → Prop)
    {pointer : FsProg Nat} {rest : FsProg α} {next : Nat → Prog QuikErr Unit α}
    (fixed : machine.Fixed image) (reliable : short ∨ machine.Reliable)
    (allowed : blanked → short) (unmarked : short ∨ log2Blksz ≠ 0)
    (points : ∀ fs, AtSlot start slot (Prepared blanked image start.part blksz) others fs →
      pointer fs = .ok entry fs ∨ blanked ∧ (pointer fs).value? = none)
    (breaks : ∀ fs, AtSlot start slot (CacheKnown blanked image start.part) others fs → broken fs ())
    (found : ∀ sector, sector * 512 + blksz < start.part.len →
      Prog.Agrees short False
        (fun fs _ => AtSlot start slot (Loaded blanked image start.part blksz sector) others fs)
        final broken holds rest (next sector))
    (unread : ∀ fs, AtSlot start slot (fun cache => cache.block = some .blank) others fs →
      (rest fs).value? = none) :
    Prog.Agrees short False
      (fun fs _ => AtSlot start slot (CacheKnown blanked image start.part) others fs) final broken holds
      (loadIndir machine slot blksz log2Blksz pointer >>= fun _ => rest)
      (do
        let sector ← shl32 entry log2Blksz
        if start.part.len ≤ sector * 512 + blksz then Prog.fail .partBeyond else next sector) := by
  unfold loadIndir
  rw [Prog.bind_assoc, ← Prog.pure_bind () fun _ => (shl32 entry log2Blksz >>= _)]
  refine .bind (ensureIndir_agrees reliable) fun _ _ => ?_
  rw [Prog.bind_assoc, ← Prog.pure_bind entry fun entry => (shl32 entry log2Blksz >>= _)]
  refine .bindVia (fun fs _ => AtSlot start slot (Prepared blanked image start.part blksz) others fs)
    (fun value => value = entry) ?_ ?_
  · intro fs _ ready
    rcases points fs ready with run | ⟨unread, run⟩
    · rw [run]
      exact ⟨rfl, rfl, ready⟩
    · exact .of_short_left (allowed unread) run
  rintro _ rfl
  rw [Prog.bind_assoc]
  refine .bind (shl32_agrees _ _) fun sector ⟨_, shifted⟩ => ?_
  exact refreshIndir_agrees fixed reliable allowed (unmarked.imp_right (shifted_ne_noBlkno · shifted))
    breaks (found sector) unread

variable (slot) in
theorem loadIndir_unread {own : IndirCache → Prop} {pointer : FsProg Nat} {fs : Fs}
    (reliable : short ∨ machine.Reliable)
    (states : AtSlot start slot (CacheKnown blanked image start.part) own fs)
    (unread : ∀ after, AtSlot start slot (Prepared blanked image start.part blksz) own after →
      (pointer after).value? = none) :
    (loadIndir machine slot blksz log2Blksz pointer fs).value? = none := by
  unfold loadIndir
  rcases ensureIndir_cases reliable blksz states with
    ⟨after, run, ready⟩ | ⟨-, run⟩
  · rw [Prog.bind_run_ok run]
    exact Prog.bind_value?_none (unread after ready)
  · exact Prog.bind_value?_none run

variable (slot others) in
/-- A cached lookup of one entry of the block `pointer` names. -/
theorem loadEntry_agrees {pointer : FsProg Nat} {index : Nat} (fixed : machine.Fixed image)
    (reliable : short ∨ machine.Reliable) (allowed : blanked → short) (unmarked : short ∨ log2Blksz ≠ 0)
    (bound : 4 * index + 4 ≤ blksz)
    (points : ∀ fs, AtSlot start slot (Prepared blanked image start.part blksz) others fs →
      pointer fs = .ok entry fs ∨ blanked ∧ (pointer fs).value? = none) :
    Prog.Agrees short False
      (fun fs _ => AtSlot start slot (CacheKnown blanked image start.part) others fs)
      (fun fs _ => AtSlot start slot (CacheKnown blanked image start.part) others fs)
      (fun fs _ => AtSlot start slot (CacheKnown blanked image start.part) others fs) (fun _ => True)
      (loadIndir machine slot blksz log2Blksz pointer >>= fun _ => indirEntry slot index)
      (do
        let sector ← shl32 entry log2Blksz
        walkEntry image start.part blksz sector index) := by
  refine loadIndir_agrees slot others _ _ _ fixed reliable allowed unmarked points (fun _ states => states) ?_
    fun _ blank => indirEntry_blank blank
  intro sector _ fs _ loaded
  rcases indirEntry_loaded bound loaded with run | ⟨unread, run⟩
  · rw [run]
    exact ⟨rfl, trivial, loaded.mono (fun _ own => own.known) fun _ kept => kept⟩
  · exact .of_short_left (allowed unread) run

theorem ext2BlockSize_agrees {σ τ : Type} {shortLeft shortRight : Prop}
    {related broken : σ → τ → Prop} (data : Ext2Data) :
    Prog.Agrees shortLeft shortRight related related broken (fun blksz => blksz = 2 ^ data.log2Bytes)
      (ext2BlockSize data) (ext2BlockSize data) := by
  unfold ext2BlockSize shiftOne
  exact .bind (.arith _) fun _ _ => .pure rfl

theorem ext2BlockSizeInt_agrees {σ τ : Type} {shortLeft shortRight : Prop}
    {related broken : σ → τ → Prop} (data : Ext2Data) :
    Prog.Agrees shortLeft shortRight related related broken (fun blksz => blksz = 2 ^ data.log2Bytes)
      (ext2BlockSizeInt data) (ext2BlockSizeInt data) :=
  .bind (ext2BlockSize_agrees data) fun _ size => .bind (.demand _) fun _ _ => .pure size

/-- A cached lookup of an entry of the block that an entry of another block names. -/
theorem loadTwice_agrees {row column : Nat} (fixed : machine.Fixed image)
    (reliable : short ∨ machine.Reliable) (allowed : blanked → short) (unmarked : short ∨ log2Blksz ≠ 0)
    (rowBound : 4 * row + 4 ≤ blksz) (columnBound : 4 * column + 4 ≤ blksz) :
    Prog.Agrees short False (fun fs _ => Known blanked image start fs) (fun fs _ => Known blanked image start fs)
      (fun fs _ => Known blanked image start fs) (fun _ => True)
      (do
        loadIndir machine .indir1 blksz log2Blksz (pure entry)
        loadIndir machine .indir2 blksz log2Blksz (indirEntry .indir1 row)
        indirEntry .indir2 column)
      (do
        let sector ← shl32 entry log2Blksz
        let entry ← walkEntry image start.part blksz sector row
        let sector ← shl32 entry log2Blksz
        walkEntry image start.part blksz sector column) := by
  simp only [walkEntry_bind]
  refine .conseq (loadIndir_agrees .indir1 (CacheKnown blanked image start.part) (fun fs _ => Known blanked image start fs)
    (fun fs _ => Known blanked image start fs) (fun _ => True) fixed reliable allowed unmarked
    (fun _ _ => .inl rfl) (fun _ states => states.known) ?_ ?_)
    (fun _ _ known => known.atSlot .indir1) (fun _ _ known => known) (fun _ _ known => known)
    fun _ _ => trivial
  · intro sector inside
    refine .conseq (loadEntry_agrees .indir2
      (Loaded blanked image start.part blksz sector) fixed reliable allowed unmarked columnBound ?_)
      (fun _ _ loaded => loaded.swap) (fun _ _ states => ?_) (fun _ _ states => ?_)
      fun _ _ => trivial
    · intro fs ready
      exact indirEntry_loaded rowBound ready.swap
    · exact (states.mono (fun _ own => own) fun _ kept => kept.known).known
    · exact (states.mono (fun _ own => own) fun _ kept => kept.known).known
  · intro fs blank
    refine Prog.bind_value?_none ?_
    exact loadIndir_unread .indir2 reliable blank.swap
      fun _ ready => indirEntry_blank ready.swap

/-- `ext2fs_read_block` finds the block that the walk without caches finds. -/
theorem readBlock_known (fixed : machine.Fixed image) (reliable : short ∨ machine.Reliable)
    (allowed : blanked → short) {node : Node} (unmarked : short ∨ node.data.log2Ext2BlockSize ≠ 0) (fileblock : Nat) :
    Prog.Agrees short False (fun fs _ => Known blanked image start fs) (fun fs _ => Known blanked image start fs)
      (fun fs _ => Known blanked image start fs) (fun _ => True) (ext2fsReadBlock machine node fileblock)
      (walkBlock image start.part node fileblock) := by
  unfold ext2fsReadBlock walkBlock
  refine .bind (ext2BlockSizeInt_agrees _) fun blksz _ => ?_
  refine .bind (.demand _) fun _ _ => ?_
  refine .ite (fun _ => .pure trivial) fun _ => ?_
  refine .ite (fun single => ?_) fun _ => ?_
  · exact .conseq (loadEntry_agrees .indir1 _ fixed reliable allowed unmarked (by omega)
      fun _ _ => .inl rfl) (fun _ _ known => known.atSlot .indir1) (fun _ _ states => states.known)
      (fun _ _ states => states.known) fun _ _ => trivial
  refine .bind (.demand _) fun _ _ => ?_
  refine .ite (fun double => ?_) fun _ => .fail _ fun _ _ known => known
  have expand : blksz / 4 * (blksz / 4 + 1) = blksz / 4 * (blksz / 4) + blksz / 4 :=
    Nat.mul_succ _ _
  have positive : 0 < blksz / 4 := by
    rcases Nat.eq_zero_or_pos (blksz / 4) with none | some
    · rw [none] at double
      omega
    · exact some
  have row : (fileblock - (12 + blksz / 4)) / (blksz / 4) < blksz / 4 :=
    Nat.div_lt_of_lt_mul (by omega)
  have column : (fileblock - (12 + blksz / 4)) % (blksz / 4) < blksz / 4 := Nat.mod_lt _ positive
  exact loadTwice_agrees fixed reliable allowed unmarked (by omega) (by omega)

theorem readBlock_agrees (fixed : machine.Fixed image) (reliable : short ∨ machine.Reliable)
    {node : Node} (unmarked : short ∨ node.data.log2Ext2BlockSize ≠ 0) (fileblock : Nat) :
    Prog.Agrees short False (fun fs _ => Warm image start fs) (fun fs _ => Warm image start fs)
      (fun fs _ => Warm image start fs) (fun _ => True) (ext2fsReadBlock machine node fileblock)
      (walkBlock image start.part node fileblock) :=
  (readBlock_known fixed reliable False.elim unmarked fileblock).conseq (fun _ _ => known_false.mpr)
    (fun _ _ => known_false.mp) (fun _ _ => known_false.mp) fun _ same => same

section Files

variable (image : Nat → Image) (part : Part)

abbrev WalkProg := Prog QuikErr (Unit × Buffer)

/-- What `part_read` stores when the device delivers all of it. -/
def walkRead (sector byteOffset byteLen place : Nat) : WalkProg Unit :=
  if part.len ≤ sector * 512 + byteOffset + byteLen then Prog.fail .partBeyond
  else Prog.update fun state =>
    (state.1, state.2.store place byteLen (sectorImage image part sector byteOffset))

def walkZero (place count : Nat) : WalkProg Unit :=
  Prog.update fun state => (state.1, state.2.store place count fun _ => 0)

def walkSector (node : Node) (i : Nat) : Prog QuikErr Unit Nat := do
  let blknr ← walkBlock image part node i
  shl32 blknr node.data.log2Ext2BlockSize

def walkStore (range : Range) (i place sector : Nat) : WalkProg Unit :=
  let skipfirst := range.skipfirst i
  let count := (range.blockend i + 2 ^ 32 - skipfirst) % 2 ^ 32
  if sector ≠ 0 then walkRead image part sector skipfirst count place
  else walkZero place (range.blocksize - skipfirst)

def walkFileBlock (range : Range) (i place : Nat) : WalkProg Unit := do
  let sector ← Prog.onFirst (walkSector image part range.node i)
  walkStore image part range i place sector

def walkFileBlocks (range : Range) (count i place : Nat) : WalkProg Unit :=
  eachBlock (walkFileBlock image part range) (fun i => range.blocksize - range.skipfirst i) count i
    place

/-- What `ext2fs_read_file` stores, whatever the caches hold. -/
def walkFile (node : Node) (pos len : Nat) : WalkProg Unit := do
  let blocksize ← Prog.onFirst (ext2BlockSizeInt node.data)
  let range := fileRange node pos len blocksize
  walkFileBlocks image part range (range.blockcnt - pos / blocksize) (pos / blocksize) 0

/-- What `ext2fs_read_file` leaves in a local variable of `room` bytes, whatever the
caches hold. -/
def walkLocal (room : Nat) (node : Node) (pos len : Nat) : Prog QuikErr Unit Buffer :=
  Prog.scratch Buffer.blank (Prog.confine (fun state => state.2 room = none) (walkFile image part node pos len))

end Files

/-- Beside an equal buffer. -/
abbrev KnownBeside (blanked : Prop) (image : Nat → Image) (start : Fs) : Fs × Buffer → Unit × Buffer → Prop :=
  Prog.Beside fun fs _ => Known blanked image start fs

abbrev WarmBeside (image : Nat → Image) (start : Fs) : Fs × Buffer → Unit × Buffer → Prop :=
  Prog.Beside fun fs _ => Warm image start fs

theorem partRead_known (fixed : machine.Fixed image) (reliable : short ∨ machine.Reliable)
    (sector byteOffset byteLen place : Nat) :
    Prog.Agrees short False (KnownBeside blanked image start) (KnownBeside blanked image start)
      (KnownBeside blanked image start) (fun _ => True)
      (partRead machine sector byteOffset byteLen place)
      (walkRead image start.part sector byteOffset byteLen place) := by
  rintro ⟨fs, buffer⟩ ⟨_, _⟩ ⟨known, same⟩
  cases same
  have part := known.near.part
  unfold walkRead
  rcases partRead_cases fixed fs buffer sector byteOffset byteLen place with
    ⟨beyond, run⟩ | ⟨inside, calls, run⟩ | ⟨-, unreliable, calls, count, -, run⟩
  · rw [if_pos (part ▸ beyond), run]
    exact .inr ⟨rfl, known, rfl⟩
  · rw [if_neg (Nat.not_le_of_lt (part ▸ inside)), run]
    exact ⟨rfl, trivial, ((known.atSlot .indir1).calls calls).known, by rw [← part]⟩
  · refine .of_short_left (reliable.resolve_right unreliable) ?_
    rw [run]
    rfl

theorem partRead_agrees (fixed : machine.Fixed image) (reliable : short ∨ machine.Reliable)
    (sector byteOffset byteLen place : Nat) :
    Prog.Agrees short False (WarmBeside image start) (WarmBeside image start)
      (WarmBeside image start) (fun _ => True)
      (partRead machine sector byteOffset byteLen place)
      (walkRead image start.part sector byteOffset byteLen place) :=
  (partRead_known fixed reliable sector byteOffset byteLen place).conseq
    (fun _ _ states => states.imp_left known_false.mpr) (fun _ _ states => states.imp_left known_false.mp)
    (fun _ _ states => states.imp_left known_false.mp) fun _ same => same

theorem fileSector_agrees (fixed : machine.Fixed image) (reliable : short ∨ machine.Reliable)
    (node : Node) (unmarked : short ∨ node.data.log2Ext2BlockSize ≠ 0) (i : Nat) :
    Prog.Agrees short False (fun fs _ => Warm image start fs) (fun fs _ => Warm image start fs)
      (fun fs _ => Warm image start fs) (fun _ => True) (fileSector machine node i)
      (walkSector image start.part node i) :=
  .bind (readBlock_agrees fixed reliable unmarked i) fun blknr _ =>
    (shl32_agrees blknr _).conseq (fun _ _ warm => warm) (fun _ _ warm => warm)
      (fun _ _ warm => warm) fun _ _ => trivial

theorem readFileBlock_agrees (fixed : machine.Fixed image) (reliable : short ∨ machine.Reliable)
    (range : Range) (unmarked : short ∨ range.node.data.log2Ext2BlockSize ≠ 0) (i place : Nat) :
    Prog.Agrees short False (WarmBeside image start) (WarmBeside image start)
      (WarmBeside image start) (fun _ => True)
      (readFileBlock machine range i place) (walkFileBlock image start.part range i place) := by
  unfold readFileBlock walkFileBlock
  refine .bind (.onFirst (fileSector_agrees fixed reliable range.node unmarked i)) fun sector _ => ?_
  refine .ite (fun _ => partRead_agrees fixed reliable _ _ _ _) fun _ => ?_
  exact .update fun _ _ states => ⟨states.1, by rw [states.2]⟩

theorem eachBlock_agrees {σ τ : Type} {shortLeft shortRight : Prop} {related broken : σ → τ → Prop}
    {left : Nat → Nat → Prog QuikErr σ Unit} {right : Nat → Nat → Prog QuikErr τ Unit}
    (width : Nat → Nat)
    (agree : ∀ i place, Prog.Agrees shortLeft shortRight related related broken (fun _ => True)
      (left i place) (right i place)) (count i place : Nat) :
    Prog.Agrees shortLeft shortRight related related broken (fun _ => True)
      (eachBlock left width count i place) (eachBlock right width count i place) := by
  induction count generalizing i place with
  | zero => exact .pure trivial
  | succ count ih => exact .bind (agree i place) fun _ _ => ih _ _

theorem readFile_agrees (fixed : machine.Fixed image) (reliable : short ∨ machine.Reliable)
    (node : Node) (unmarked : short ∨ node.data.log2Ext2BlockSize ≠ 0) (pos len : Nat) :
    Prog.Agrees short False (WarmBeside image start) (WarmBeside image start)
      (WarmBeside image start) (fun _ => True)
      (ext2fsReadFile machine node pos len) (walkFile image start.part node pos len) :=
  .bind (.onFirst (ext2BlockSizeInt_agrees _))
    fun blocksize _ => eachBlock_agrees _
      (readFileBlock_agrees fixed reliable (fileRange node pos len blocksize) unmarked) _ _ _

theorem readLocal_agrees (fixed : machine.Fixed image) (reliable : short ∨ machine.Reliable)
    (node : Node) (unmarked : short ∨ node.data.log2Ext2BlockSize ≠ 0) (room pos len : Nat) :
    Prog.Agrees short False (fun fs _ => Warm image start fs) (fun fs _ => Warm image start fs)
      (fun fs _ => Warm image start fs) (fun _ => True) (readLocal machine room node pos len)
      (walkLocal image start.part room node pos len) :=
  have beside (left : Fs × Buffer) (right : Unit × Buffer) (states : WarmBeside image start left right) :
      left.2 room = none ↔ right.2 room = none := by rw [states.2]
  .scratch (.confine (readFile_agrees fixed reliable node unmarked pos len) beside beside)

end IQuik.Ext2
