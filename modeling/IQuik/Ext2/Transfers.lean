import IQuik.Ext2.Ranges

namespace IQuik.Ext2

open IQuik.Data IQuik.Program IQuik.Storage

/-! # How much a read of a part of a file stores

The length is cut to the size of the file, not to what is left of it behind the
position.
-/

variable {machine : Machine} {image : Nat → Image} {part : Part} {node : Node} {fs : Fs}

section Extent

variable {range : Range}

/-- How many bytes block `i` is given, which starts at `sector`. -/
def Range.stored (range : Range) (i sector : Nat) : Nat :=
  if sector = 0 then range.blocksize - range.skipfirst i
  else (range.blockend i + 2 ^ 32 - range.skipfirst i) % 2 ^ 32

theorem walkFileBlock_stores {i place : Nat} {buffer : Buffer} {after : Unit × Buffer}
    (returned : walkFileBlock image part range i place ((), buffer) = .ok () after) :
    ∃ sector bytes, walkSector image part range.node i () = .ok sector () ∧
      after.2 = buffer.store place (range.stored i sector) bytes := by
  obtain ⟨sector, ⟨_, same⟩, found, rest⟩ := Prog.bind_eq_ok.mp returned
  obtain ⟨found, rfl⟩ := Prog.onFirst_eq_ok.mp found
  unfold walkStore at rest
  by_cases hole : sector = 0
  · rw [if_neg (not_not.mpr hole)] at rest
    cases rest
    exact ⟨sector, fun _ => 0, found, by rw [Range.stored, if_pos hole]⟩
  · rw [if_pos hole] at rest
    unfold walkRead at rest
    split at rest
    · cases rest
    · cases rest
      exact ⟨sector, _, found, by rw [Range.stored, if_neg hole]⟩

theorem store_isSome {buffer : Buffer} {place count index : Nat} {bytes : Image} :
    (buffer.store place count bytes index).isSome ↔
      (buffer index).isSome ∨ place ≤ index ∧ index < place + count := by
  by_cases inside : place ≤ index ∧ index < place + count
  · rw [Buffer.store_inside inside.1 inside.2]
    simp [inside]
  · rw [Buffer.store_outside (by omega)]
    simp [inside]

/-- Every block but the last one gets what is left of it behind the skipped bytes. -/
theorem Range.stored_inner (positive : 0 < range.blocksize) (small : range.blocksize < 2 ^ 32)
    {i : Nat} (inner : i ≠ range.blockcnt - 1) (sector : Nat) :
    range.stored i sector = range.blocksize - range.skipfirst i := by
  have skip := Range.skipfirst_lt positive i
  have ends : range.blockend i = range.blocksize := if_neg inner
  unfold Range.stored
  rw [ends]
  split
  · rfl
  · omega

/-- A loop stores one piece, up to where its last block ends. -/
theorem walkFileBlocks_extent (positive : 0 < range.blocksize) (small : range.blocksize < 2 ^ 32)
    {count i place : Nat} {buffer : Buffer} {after : Unit × Buffer} (rest : i + count + 1 = range.blockcnt)
    (first : range.pos / range.blocksize ≤ i) (at' : range.At i place)
    (returned : walkFileBlocks image part range (count + 1) i place ((), buffer) = .ok () after) :
    ∃ sector, walkSector image part range.node (range.blockcnt - 1) () = .ok sector () ∧
      ∀ index, (after.2 index).isSome ↔ (buffer index).isSome ∨ place ≤ index ∧
        index + range.pos < (range.blockcnt - 1) * range.blocksize +
          range.skipfirst (range.blockcnt - 1) + range.stored (range.blockcnt - 1) sector := by
  unfold walkFileBlocks at returned
  induction count generalizing i place buffer with
  | zero =>
      obtain ⟨_, ⟨_, middle⟩, block, returned⟩ := Prog.bind_eq_ok.mp returned
      cases returned
      obtain ⟨sector, bytes, found, stored⟩ := walkFileBlock_stores block
      have last : range.blockcnt - 1 = i := by omega
      rw [last]
      refine ⟨sector, found, fun index => ?_⟩
      change middle = _ at stored
      unfold Range.At at at'
      rw [stored, store_isSome]
      have bound : index < place + range.stored i sector ↔
          index + range.pos < i * range.blocksize + range.skipfirst i + range.stored i sector := by omega
      rw [bound]
  | succ count ih =>
      obtain ⟨_, ⟨_, middle⟩, block, returned⟩ := Prog.bind_eq_ok.mp returned
      obtain ⟨sector, bytes, -, stored⟩ := walkFileBlock_stores block
      change middle = _ at stored
      have next := at'.next positive first
      obtain ⟨last, found, pieces⟩ := ih (by omega) (by omega) next returned
      refine ⟨last, found, fun index => ?_⟩
      have inner : i ≠ range.blockcnt - 1 := by omega
      have later : range.skipfirst (i + 1) = 0 := if_neg (by omega)
      have reaches : (i + 1) * range.blocksize ≤ (range.blockcnt - 1) * range.blocksize :=
        Nat.mul_le_mul_right _ (by omega)
      unfold Range.At at next
      rw [pieces, stored, store_isSome, Range.stored_inner positive small inner, or_assoc]
      have joined : (place ≤ index ∧ index < place + (range.blocksize - range.skipfirst i) ∨
          place + (range.blocksize - range.skipfirst i) ≤ index ∧
            index + range.pos < (range.blockcnt - 1) * range.blocksize +
              range.skipfirst (range.blockcnt - 1) + range.stored (range.blockcnt - 1) last) ↔
          place ≤ index ∧ index + range.pos < (range.blockcnt - 1) * range.blocksize +
              range.skipfirst (range.blockcnt - 1) + range.stored (range.blockcnt - 1) last := by omega
      rw [joined]

end Extent

section Ends

/-- The bytes that are asked for end inside the file, and a last block that they
take only a part of is no hole. Where the end of that block has no 32-bit
number, no byte is asked for. -/
def StaysInside (image : Nat → Image) (part : Part) (node : Node) (pos len : Nat) : Prop :=
  let stop := pos + min len node.inode.size
  2 ^ 32 < stop + node.data.blockBytes ∧ len = 0 ∨
    stop + node.data.blockBytes ≤ 2 ^ 32 ∧ stop ≤ node.inode.size ∧
      (stop % node.data.blockBytes = 0 ∨
        walkSector image part node (stop / node.data.blockBytes) () ≠ .ok 0 ())

/-- A read comes to block `k` of the file and looks it up. -/
def LooksUp (machine : Machine) (node : Node) (pos len : Nat) (state : Fs × Buffer) (k : Nat) : Prop :=
  let range := fileRange node pos len node.data.blockBytes
  pos / node.data.blockBytes ≤ k ∧ k < range.blockcnt ∧ ∃ after,
    (do
      let blocksize ← Prog.onFirst (ext2BlockSizeInt node.data)
      readFileBlocks machine range (k - pos / blocksize) (pos / blocksize) 0) state = .ok () after

/-- A block from the first one on starts, behind the skipped bytes, at `pos` or
later. -/
theorem Range.skipfirst_reaches (range : Range) (positive : 0 < range.blocksize) {i : Nat}
    (first : range.pos / range.blocksize ≤ i) : range.pos ≤ i * range.blocksize + range.skipfirst i := by
  have split := Nat.div_add_mod' range.pos range.blocksize
  have rest := Nat.mod_lt range.pos positive
  unfold Range.skipfirst
  split
  · rename_i same
    rw [same]
    omega
  · have next : (range.pos / range.blocksize + 1) * range.blocksize ≤ i * range.blocksize :=
      Nat.mul_le_mul_right _ (by omega)
    rw [Nat.succ_mul] at next
    omega

section Transfers

variable {pos len : Nat}

/-- How many bytes a read stores that succeeds. -/
theorem walkFile_transfers {after : Unit × Buffer} (log : node.data.log2Bytes < 31)
    (stored : walkFile image part node pos len ((), .blank) = .ok () after) :
    ∃ count, (∀ index, (after.2 index).isSome ↔ index < count) ∧
      ((fileRange node pos len node.data.blockBytes).blockcnt ≤ pos / node.data.blockBytes ∧ count = 0 ∨
        ∃ last sector, (fileRange node pos len node.data.blockBytes).blockcnt = last + 1 ∧
          pos / node.data.blockBytes ≤ last ∧ walkSector image part node last () = .ok sector () ∧
          count + pos = last * node.data.blockBytes +
            (fileRange node pos len node.data.blockBytes).skipfirst last +
              (fileRange node pos len node.data.blockBytes).stored last sector) := by
  have positive := node.data.blockBytes_pos
  have small : node.data.blockBytes < 2 ^ 32 := Nat.pow_lt_pow_right (by decide) (by omega)
  have blocks := walkFile_blocks stored
  rcases Nat.lt_or_ge (pos / node.data.blockBytes) (fileRange node pos len node.data.blockBytes).blockcnt with
    some | none
  · obtain ⟨more, rest⟩ := Nat.exists_eq_add_of_lt some
    have count : (fileRange node pos len node.data.blockBytes).blockcnt - pos / node.data.blockBytes =
        more + 1 := by omega
    rw [count] at blocks
    obtain ⟨sector, found, pieces⟩ := walkFileBlocks_extent positive small rest.symm (Nat.le_refl _)
      (fileRange_at pos len _) blocks
    have reaches := (fileRange node pos len node.data.blockBytes).skipfirst_reaches positive
      (Nat.le_add_right (pos / node.data.blockBytes) more)
    rw [rest, Nat.add_sub_cancel] at found pieces
    refine ⟨_, fun index => (pieces index).trans ?_, .inr ⟨_, sector, rest, Nat.le_add_right _ _, found,
      Nat.sub_add_cancel (Nat.le_trans reaches (Nat.le_add_right _ _))⟩⟩
    simp only [Buffer.blank, Option.isSome_none, Bool.false_eq_true, false_or, Nat.zero_le, true_and]
    exact (Nat.lt_sub_iff_add_lt).symm
  · rw [Nat.sub_eq_zero_of_le none] at blocks
    cases blocks
    exact ⟨0, fun index => by simp [Buffer.blank], .inl ⟨none, rfl⟩⟩

/-- Two lengths of a stored piece. -/
theorem extent_eq {count other : Nat} : (∀ index, index < count ↔ index < other) ↔ count = other := by
  refine ⟨fun same => ?_, fun same index => by rw [same]⟩
  have below := same other
  have above := same count
  omega

section Fits

variable (exact' : (fileRange node pos len node.data.blockBytes).Exact)
include exact'

/-- What the last block is given when the end of the range has a 32-bit number. -/
theorem fileRange_last {last : Nat}
    (count : (fileRange node pos len node.data.blockBytes).blockcnt = last + 1) (sector : Nat) :
    last * node.data.blockBytes < pos + min len node.inode.size ∧
      pos + min len node.inode.size ≤ (last + 1) * node.data.blockBytes ∧
      last * node.data.blockBytes + (fileRange node pos len node.data.blockBytes).skipfirst last +
          (fileRange node pos len node.data.blockBytes).stored last sector =
        if sector = 0 then (last + 1) * node.data.blockBytes else pos + min len node.inode.size := by
  have bound := exact'.bound
  have inside : last < (fileRange node pos len node.data.blockBytes).blockcnt := by omega
  have starts := exact'.lt_blockcnt.mp inside
  have ends : ¬last + 1 < (fileRange node pos len node.data.blockBytes).blockcnt := by omega
  rw [exact'.lt_blockcnt] at ends
  have blockend := exact'.blockend_eq inside
  have skipped := exact'.skipfirst_le inside
  have skip := Range.skipfirst_lt exact'.positive last
  unfold Range.stored
  simp only [fileRange] at starts ends bound blockend skipped skip ⊢
  rw [Nat.succ_mul] at ends ⊢
  refine ⟨starts, by omega, ?_⟩
  split <;> omega

end Fits

/-- Where a range stops in its last block. -/
theorem stop_cases {stop last blocksize : Nat} (lower : last * blocksize < stop)
    (upper : stop ≤ (last + 1) * blocksize) :
    stop % blocksize = 0 ∧ stop = (last + 1) * blocksize ∨
      stop % blocksize ≠ 0 ∧ stop / blocksize = last ∧ stop < (last + 1) * blocksize := by
  rcases Nat.eq_or_lt_of_le upper with whole | part
  · exact .inl ⟨by rw [whole, Nat.mul_mod_left], whole⟩
  · have block : stop / blocksize = last := Nat.div_eq_of_lt_le (Nat.le_of_lt lower) part
    have split := Nat.div_add_mod' stop blocksize
    rw [block] at split
    exact .inr ⟨by omega, block, part⟩

section Wraps

variable (log : node.data.log2Bytes < 31) (below : pos < node.inode.size)
  (wraps : 2 ^ 32 < pos + min len node.inode.size + node.data.blockBytes)
include log below wraps

/-- Where the number of that end wraps around, the loop has at most one block, and
the range leaves it behind the first bytes, those before `pos`. -/
theorem fileRange_wraps {last : Nat}
    (count : (fileRange node pos len node.data.blockBytes).blockcnt = last + 1)
    (first : pos / node.data.blockBytes ≤ last) :
    last = pos / node.data.blockBytes ∧ 2 ^ 32 < pos % node.data.blockBytes + min len node.inode.size ∧
      (fileRange node pos len node.data.blockBytes).blockend last =
        pos % node.data.blockBytes + min len node.inode.size - 2 ^ 32 := by
  have positive := node.data.blockBytes_pos
  have word : node.inode.size < 2 ^ 32 := Image.le32_lt _ _
  have split := Nat.div_add_mod' pos node.data.blockBytes
  have skip := Nat.mod_lt pos positive
  have reach : (pos / node.data.blockBytes + 1) * node.data.blockBytes ≤
      (min len node.inode.size + pos + node.data.blockBytes - 1) % 2 ^ 32 := by
    rw [← Nat.le_div_iff_mul_le positive]
    have visits : (min len node.inode.size + pos + node.data.blockBytes - 1) % 2 ^ 32 /
        node.data.blockBytes = last + 1 := count
    omega
  rw [Nat.succ_mul] at reach
  have more : 2 ^ 32 < pos % node.data.blockBytes + min len node.inode.size := by omega
  have small : node.data.blockBytes ≤ 2 ^ 30 := Nat.pow_le_pow_right (by decide) (by omega)
  obtain ⟨rest, restEq⟩ : ∃ rest, rest = pos % node.data.blockBytes + min len node.inode.size - 2 ^ 32 := ⟨_, rfl⟩
  have part : rest - 1 < node.data.blockBytes := by omega
  have wrapped : (min len node.inode.size + pos + node.data.blockBytes - 1) % 2 ^ 32 =
      node.data.blockBytes * (pos / node.data.blockBytes + 1) + (rest - 1) := by
    rw [Nat.mul_comm, Nat.succ_mul]
    omega
  have once : last = pos / node.data.blockBytes := by
    have visits : (min len node.inode.size + pos + node.data.blockBytes - 1) % 2 ^ 32 /
        node.data.blockBytes = last + 1 := count
    rw [wrapped, Nat.mul_add_div positive, Nat.div_eq_of_lt part] at visits
    omega
  refine ⟨once, more, ?_⟩
  have stop : (min len node.inode.size + pos) % 2 ^ 32 =
      node.data.blockBytes * (pos / node.data.blockBytes) + rest := by
    rw [Nat.mul_comm]
    omega
  have ends : ((fileRange node pos len node.data.blockBytes).len +
      (fileRange node pos len node.data.blockBytes).pos) % 2 ^ 32 % node.data.blockBytes = rest := by
    rw [show ((fileRange node pos len node.data.blockBytes).len +
      (fileRange node pos len node.data.blockBytes).pos) % 2 ^ 32 = _ from stop,
      Nat.mul_add_mod, Nat.mod_eq_of_lt (by omega)]
  unfold Range.blockend
  rw [if_pos (by omega)]
  simp only
  rw [show (fileRange node pos len node.data.blockBytes).blocksize = node.data.blockBytes from rfl, ends,
    if_neg (by omega), restEq]

/-- What the block is given then is never what the file has of it. -/
theorem fileRange_overruns {last sector stored : Nat}
    (count : (fileRange node pos len node.data.blockBytes).blockcnt = last + 1)
    (first : pos / node.data.blockBytes ≤ last)
    (piece : stored + pos = last * node.data.blockBytes +
      (fileRange node pos len node.data.blockBytes).skipfirst last +
        (fileRange node pos len node.data.blockBytes).stored last sector) :
    len ≠ 0 ∧ stored ≠ min len (node.inode.size - pos) := by
  obtain ⟨rfl, more, ends⟩ := fileRange_wraps log below wraps count first
  have word : node.inode.size < 2 ^ 32 := Image.le32_lt _ _
  have split := Nat.div_add_mod' pos node.data.blockBytes
  have skip := Nat.mod_lt pos node.data.blockBytes_pos
  have skipped : (fileRange node pos len node.data.blockBytes).skipfirst (pos / node.data.blockBytes) =
      pos % node.data.blockBytes := if_pos rfl
  refine ⟨by omega, fun same => ?_⟩
  unfold Range.stored at piece
  rw [skipped, ends] at piece
  by_cases hole : sector = 0
  · rw [if_pos hole] at piece
    -- the file would end at the end of a block, in the last one that has a 32-bit number
    have whole : node.inode.size = node.data.blockBytes * (pos / node.data.blockBytes + 1) := by
      rw [Nat.mul_succ, Nat.mul_comm]
      simp only [fileRange] at piece
      omega
    obtain ⟨blocks, all⟩ : node.data.blockBytes ∣ 2 ^ 32 := Nat.pow_dvd_pow 2 (by omega)
    have lower : node.data.blockBytes * (pos / node.data.blockBytes + 1) < node.data.blockBytes * blocks := by
      omega
    have upper : node.data.blockBytes * blocks <
        node.data.blockBytes * (pos / node.data.blockBytes + 1 + 1) := by
      rw [Nat.mul_succ]
      omega
    have fewer := Nat.lt_of_mul_lt_mul_left lower
    have most := Nat.lt_of_mul_lt_mul_left upper
    omega
  · rw [if_neg hole] at piece
    omega

end Wraps

/-- A read that succeeds stores what the file has from `pos` on if the range stays
inside the file, and only then. -/
theorem walkFile_transfers_iff {after : Unit × Buffer} (below : pos < node.inode.size)
    (log : node.data.log2Bytes < 31)
    (stored : walkFile image part node pos len ((), .blank) = .ok () after) :
    (∀ index, (after.2 index).isSome ↔ index < min len (node.inode.size - pos)) ↔
      StaysInside image part node pos len := by
  have positive := node.data.blockBytes_pos
  have word : node.inode.size < 2 ^ 32 := Image.le32_lt _ _
  obtain ⟨count, pieces, extent⟩ := walkFile_transfers log stored
  simp only [pieces, extent_eq, StaysInside]
  by_cases wraps : 2 ^ 32 < pos + min len node.inode.size + node.data.blockBytes
  · have unfit : ¬pos + min len node.inode.size + node.data.blockBytes ≤ 2 ^ 32 := by omega
    simp only [wraps, unfit, true_and, false_and, or_false]
    obtain ⟨-, none⟩ | ⟨last, sector, blocks, first, -, piece⟩ := extent
    · omega
    · obtain ⟨some, other⟩ := fileRange_overruns log below wraps blocks first piece
      simp only [some, other]
  · have fits : pos + min len node.inode.size + node.data.blockBytes ≤ 2 ^ 32 := by omega
    have exact' := fileRange_exact fits
    simp only [wraps, fits, true_and, false_and, false_or]
    obtain ⟨blocks, none⟩ | ⟨last, sector, blocks, first, found, piece⟩ := extent
    · have stops : ¬pos / node.data.blockBytes * node.data.blockBytes < pos + min len node.inode.size :=
        fun starts => Nat.not_lt.mpr blocks (exact'.lt_blockcnt.mpr starts)
      have split := Nat.div_add_mod' pos node.data.blockBytes
      obtain rfl : len = 0 := by omega
      have aligned : (pos + min 0 node.inode.size) % node.data.blockBytes = 0 := by
        rw [Nat.zero_min, Nat.add_zero]
        omega
      simp only [aligned, true_or, and_true]
      omega
    · obtain ⟨starts, ends, reaches⟩ := fileRange_last exact' blocks sector
      rw [reaches] at piece
      rcases stop_cases starts ends with ⟨aligned, whole⟩ | ⟨inner, block, before⟩
      · simp only [aligned, true_or, and_true]
        split at piece <;> omega
      · simp only [inner, block, found, false_or]
        by_cases hole : sector = 0
        · rw [if_pos hole] at piece
          simp only [hole, ne_eq, not_true_eq_false, and_false, iff_false]
          omega
        · rw [if_neg hole] at piece
          have solid : (.ok sector () : Outcome QuikErr Unit Nat) ≠ .ok 0 () := fun same => by
            cases same
            exact hole rfl
          simp only [ne_eq, solid, not_false_eq_true, and_true]
          omega

end Transfers

theorem LooksUp.lt_blockcnt {pos len k : Nat} {state : Fs × Buffer} (looks : LooksUp machine node pos len state k) :
    node.data.log2Bytes < 31 ∧ pos / node.data.blockBytes ≤ k ∧
      k < (fileRange node pos len node.data.blockBytes).blockcnt := by
  obtain ⟨first, inside, after, run⟩ := looks
  obtain ⟨blocksize, _, size, -⟩ := Prog.bind_eq_ok.mp run
  obtain ⟨size, -⟩ := Prog.onFirst_eq_ok.mp size
  exact ⟨(ext2BlockSizeInt_eq_ok.mp size).1, first, inside⟩

/-- A range that stays inside the file has its blocks there. -/
theorem StaysInside.lookups {pos len k : Nat} {state : Fs × Buffer} (below : pos < node.inode.size)
    (stays : StaysInside image part node pos len) (looks : LooksUp machine node pos len state k) :
    k < (node.inode.size + node.data.blockBytes - 1) / node.data.blockBytes := by
  have positive := node.data.blockBytes_pos
  obtain ⟨log, first, inside⟩ := looks.lt_blockcnt
  rcases stays with ⟨wraps, rfl⟩ | ⟨fits, ends, -⟩
  · have word : node.inode.size < 2 ^ 32 := Image.le32_lt _ _
    obtain ⟨last, count⟩ := Nat.exists_eq_add_of_le' (Nat.lt_of_le_of_lt (Nat.zero_le k) inside)
    obtain ⟨-, more, -⟩ := fileRange_wraps log below wraps count (by omega)
    have skip := Nat.mod_le pos node.data.blockBytes
    omega
  · have starts := (fileRange_exact fits).lt_blockcnt.mp inside
    simp only [fileRange] at starts
    rw [← Nat.succ_le_iff, Nat.le_div_iff_mul_le positive, Nat.succ_mul]
    omega

/-- A read that succeeds stores what the file has from `pos` on, and looks up
blocks of the file only, if the range stays inside the file, and only then. No
read of such a range looks up another block. -/
theorem readFile_transfers_iff (fixed : machine.Fixed image)
    (sound : CachesSound image node.data.log2Ext2BlockSize fs) {pos len : Nat}
    (below : pos < node.inode.size) :
    (∀ after, ext2fsReadFile machine node pos len (fs, .blank) = .ok () after →
      ((∀ index, (after.2 index).isSome ↔ index < min len (node.inode.size - pos)) ∧
          (∀ k, LooksUp machine node pos len (fs, .blank) k →
            k < (node.inode.size + node.data.blockBytes - 1) / node.data.blockBytes) ↔
        StaysInside image fs.part node pos len)) ∧
    (StaysInside image fs.part node pos len → ∀ buffer k,
      LooksUp machine node pos len (fs, buffer) k →
        k < (node.inode.size + node.data.blockBytes - 1) / node.data.blockBytes) := by
  refine ⟨fun after stored => ?_, fun stays _ k looks => stays.lookups below looks⟩
  obtain ⟨walk, -⟩ := readFile_walks fixed sound stored
  have log : node.data.log2Bytes < 31 := by
    obtain ⟨_, _, size, -⟩ := Prog.bind_eq_ok.mp walk
    exact (ext2BlockSizeInt_eq_ok.mp (Prog.onFirst_eq_ok.mp size).1).1
  rw [walkFile_transfers_iff below log walk]
  exact ⟨fun both => both.1, fun stays => ⟨stays, fun k looks => stays.lookups below looks⟩⟩

/-- Two bytes from position 2 on. -/
theorem readFile_transfers_sample : ∃ after,
    ext2fsReadFile (diskMachine fourBytes) fourNode 2 2 (zeroDisk, .blank) = .ok () after ∧
    (∀ index, (after.2 index).isSome ↔ index < 2) ∧
    ∀ k, LooksUp (diskMachine fourBytes) fourNode 2 2 (zeroDisk, .blank) k → k < 1 := by
  have run : (ext2fsReadFile (diskMachine fourBytes) fourNode 2 2 (zeroDisk, .blank)).success?.isSome := by
    decide +kernel
  obtain ⟨after, run⟩ := Option.isSome_iff_exists.mp run
  obtain ⟨_, run⟩ := Outcome.success?_eq_some.mp run
  have size : fourNode.inode.size = 4 := by decide +kernel
  have blockBytes : fourNode.data.blockBytes = 1024 := by decide +kernel
  have sector : (walkSector (fun _ => fourBytes) zeroDisk.part fourNode 0 ()).value? = some 10 := by
    decide +kernel
  have stays : StaysInside (fun _ => fourBytes) zeroDisk.part fourNode 2 2 := by
    unfold StaysInside
    rw [size, blockBytes]
    refine .inr ⟨by decide, by decide, .inr fun hole => ?_⟩
    rw [show (2 + min 2 4) / 1024 = 0 from rfl] at hole
    rw [hole] at sector
    cases sector
  have both := ((readFile_transfers_iff (diskMachine_steady fourBytes).fixed
    (zeroDisk_sound (fun _ => fourBytes) fourNode.data.log2Ext2BlockSize)
    (by rw [size]; decide : 2 < fourNode.inode.size)).1 after run).mpr stays
  rw [size, blockBytes] at both
  exact ⟨after, run, both⟩

/-- Four bytes from position 2 on of a file of four. -/
theorem readFile_overruns :
    ¬∀ (machine : Machine) (image : Nat → Image) (fs : Fs) (node : Node) (pos len : Nat) (after : Fs × Buffer),
      machine.Fixed image → CachesSound image node.data.log2Ext2BlockSize fs → pos < node.inode.size →
      ext2fsReadFile machine node pos len (fs, .blank) = .ok () after →
      (∀ index, (after.2 index).isSome ↔ index < min len (node.inode.size - pos)) ∧
        ∀ k, LooksUp machine node pos len (fs, .blank) k →
          k < (node.inode.size + node.data.blockBytes - 1) / node.data.blockBytes := by
  intro inside
  have run : (ext2fsReadFile (diskMachine fourBytes) fourNode 2 4 (zeroDisk, .blank)).success?.any
      fun after => (after.2 3).isSome := by
    decide +kernel
  obtain ⟨after, run, beyond⟩ := (Option.any_eq_true _ _).mp run
  obtain ⟨_, run⟩ := Outcome.success?_eq_some.mp run
  have size : fourNode.inode.size = 4 := by decide +kernel
  obtain ⟨exact', -⟩ := inside _ (fun _ => fourBytes) _ _ 2 4 after (diskMachine_steady fourBytes).fixed
    (zeroDisk_sound _ _) (by rw [size]; decide) run
  rw [size] at exact'
  exact absurd ((exact' 3).mp beyond) (by decide)

end Ends

end IQuik.Ext2
