import IQuik.Ext2.Loads

namespace IQuik.Ext2

open IQuik.Data IQuik.Program IQuik.Storage

/-! # Where `file_load` stores -/

variable {machine : Machine} {image : Nat → Image} {fuel : Nat}

/-- A call on a fresh buffer has stored nothing at index `len` or behind it. -/
def StoresInside (len : Nat) (outcome : Outcome QuikErr (Fs × Buffer) Unit) : Prop :=
  ∀ state, outcome.state? = some state → ∀ index, len ≤ index → state.2 index = none

/-- A loop whose blocks all have one width ends with its last block. -/
theorem eachBlock_last {σ : Type} {body : Nat → Nat → Prog QuikErr σ Unit} {width : Nat → Nat}
    (bytes : Nat) (constant : ∀ i, width i = bytes) (count i place : Nat) :
    eachBlock body width (count + 1) i place =
      (eachBlock body width count i place >>= fun _ => body (i + count) (place + count * bytes)) := by
  induction count generalizing i place with
  | zero =>
      rw [Nat.zero_mul, Nat.add_zero, Nat.add_zero]
      exact Prog.bind_pure (body i place)
  | succ count ih =>
      have rest := ih (i + 1) (place + width i)
      change (body i place >>= fun _ => eachBlock body width (count + 1) (i + 1) (place + width i)) =
        (body i place >>= fun _ => eachBlock body width count (i + 1) (place + width i)) >>= _
      rw [rest, Prog.bind_assoc, constant, Nat.succ_mul]
      congr 1
      funext _
      congr 1
      funext _
      congr 1 <;> omega

/-- Storing a block touches the bytes it is given, and all the bytes of the
block for a hole. -/
theorem storeBlock_stores {range : Range} {i place sector : Nat} {state after : Fs × Buffer}
    (returned : (storeBlock machine range i place sector state).state? = some after) :
    ∃ count bytes, after.2 = state.2.store place count bytes ∧
      (sector = 0 → count = range.blocksize - range.skipfirst i) ∧
      (sector ≠ 0 → count ≤ (range.blockend i + 2 ^ 32 - range.skipfirst i) % 2 ^ 32) := by
  unfold storeBlock at returned
  by_cases hole : sector = 0
  · rw [if_neg (not_not.mpr hole)] at returned
    cases returned
    exact ⟨_, fun _ => 0, rfl, fun _ => rfl, fun some => absurd hole some⟩
  · rw [if_pos hole] at returned
    obtain ⟨count, bytes, bound, stored⟩ := partRead_stores returned
    exact ⟨count, bytes, stored, fun none => absurd none hole, fun _ => bound⟩

/-- Reading a hole fills its place with zeros. -/
theorem readFileBlock_hole (range : Range) (place : Nat) (buffer : Buffer) {i : Nat}
    {fs after : Fs} (found : fileSector machine range.node i fs = .ok 0 after) :
    readFileBlock machine range i place (fs, buffer) =
      .ok () (after, buffer.store place (range.blocksize - range.skipfirst i) fun _ => 0) := by
  have lookup : Prog.onFirst (fileSector machine range.node i) (fs, buffer) =
      .ok 0 (after, buffer) := Prog.onFirst_eq_ok.mpr ⟨found, rfl⟩
  unfold readFileBlock
  rw [Prog.bind_run_ok lookup]
  rfl

/-- Reading a block touches no byte before it, and no byte behind it unless it is
a hole that ends the range. -/
theorem readFileBlock_outside {range : Range} {i place : Nat} {state after : Fs × Buffer}
    (count : Nat) (returned : (readFileBlock machine range i place state).state? = some after)
    (hole : ∀ fs, fileSector machine range.node i state.1 = .ok 0 fs →
      range.blocksize - range.skipfirst i ≤ count)
    (block : (range.blockend i + 2 ^ 32 - range.skipfirst i) % 2 ^ 32 ≤ count) {index : Nat}
    (outside : index < place ∨ place + count ≤ index) : after.2 index = state.2 index := by
  obtain ⟨code, failed⟩ | ⟨sector, middle, found, stored⟩ := Prog.bind_state?.mp returned
  · rw [(Prog.onFirst_eq_error.mp failed).2]
  · obtain ⟨found, same⟩ := Prog.onFirst_eq_ok.mp found
    obtain ⟨bytes, source, stored, zero, nonzero⟩ := storeBlock_stores stored
    rw [stored, same]
    refine Buffer.store_outside (outside.imp_right fun behind => ?_)
    by_cases none : sector = 0
    · have bound := hole _ (none ▸ found)
      have exactly := zero none
      omega
    · have bound := nonzero none
      omega

theorem Range.skipfirst_start {range : Range} (start : range.pos = 0) (i : Nat) :
    range.skipfirst i = 0 := by
  unfold Range.skipfirst
  rw [start, Nat.zero_mod]
  split <;> rfl

theorem Range.blockend_le {range : Range} (positive : 0 < range.blocksize) (i : Nat) :
    range.blockend i ≤ range.blocksize := by
  have rest := Nat.mod_lt ((range.len + range.pos) % 2 ^ 32) positive
  unfold Range.blockend
  simp only
  split
  · split <;> omega
  · exact Nat.le_refl _

/-- The first `count` blocks are stored before the place of the next one. -/
theorem readFileBlocks_outside (range : Range) (positive : 0 < range.blocksize)
    (start : range.pos = 0) {count : Nat} {state after : Fs × Buffer}
    (returned : (readFileBlocks machine range count 0 0 state).state? = some after)
    {index : Nat} (behind : count * range.blocksize ≤ index) :
    after.2 index = state.2 index := by
  have width : ∀ i, range.blocksize - range.skipfirst i = range.blocksize := fun i => by
    rw [Range.skipfirst_start start, Nat.sub_zero]
  unfold readFileBlocks at returned
  induction count generalizing after with
  | zero =>
      cases returned
      rfl
  | succ count ih =>
      rw [Nat.succ_mul] at behind
      rw [eachBlock_last _ width, Nat.zero_add, Nat.zero_add] at returned
      obtain ⟨code, failed⟩ | ⟨_, middle, before, block⟩ := Prog.bind_state?.mp returned
      · exact ih (by rw [failed]; rfl) (by omega)
      · have ends := Range.blockend_le positive count
        have skip := Range.skipfirst_start start count
        rw [readFileBlock_outside range.blocksize block (fun _ _ => by omega) (by omega)
          (.inr (by omega))]
        exact ih (by rw [before]; rfl) (by omega)

/-- The file ends inside a block, and that block is a hole. -/
structure LastBlockHole (image : Nat → Image) (part : Part) (node : Node) : Prop where
  incomplete : node.inode.size % node.data.blockBytes ≠ 0
  bound : node.inode.size + node.data.blockBytes ≤ 2 ^ 32
  hole : walkSector image part node (node.inode.size / node.data.blockBytes) () = .ok 0 ()

/-- `ext2fs_read_file` up to the lookup of the block that the file ends in. -/
def readToLast (machine : Machine) (node : Node) : FillProg Nat := do
  let blocksize ← Prog.onFirst (ext2BlockSizeInt node.data)
  readFileBlocks machine (fileRange node 0 node.inode.size blocksize) (node.inode.size / blocksize) 0 0
  Prog.onFirst (fileSector machine node (node.inode.size / blocksize))

/-- The range of a whole file. -/
abbrev wholeFile (node : Node) : Range := fileRange node 0 node.inode.size node.data.blockBytes

theorem wholeFile_exact {node : Node}
    (bound : node.inode.size + node.data.blockBytes ≤ 2 ^ 32) : (wholeFile node).Exact :=
  fileRange_exact (by rw [Nat.min_self, Nat.zero_add]; exact bound)

theorem wholeFile_blockcnt {node : Node} :
    (wholeFile node).blockcnt =
      (node.inode.size + node.data.blockBytes - 1) % 2 ^ 32 / node.data.blockBytes := by
  simp only [wholeFile, fileRange, Nat.min_self, Nat.add_zero]

/-- The blocks of a file that does not end inside one of them, or whose size
wraps around. -/
theorem wholeFile_complete {node : Node}
    (complete : node.inode.size % node.data.blockBytes = 0 ∨
      2 ^ 32 < node.inode.size + node.data.blockBytes) :
    (wholeFile node).blockcnt * node.data.blockBytes ≤ node.inode.size := by
  have positive := node.data.blockBytes_pos
  by_cases bound : node.inode.size + node.data.blockBytes ≤ 2 ^ 32
  · have whole := Nat.div_mul_cancel
      (Nat.dvd_of_mod_eq_zero (complete.resolve_right (Nat.not_lt_of_le bound)))
    have ends : ¬node.inode.size / node.data.blockBytes < (wholeFile node).blockcnt := by
      rw [(wholeFile_exact bound).lt_blockcnt]
      simp only [wholeFile, fileRange, Nat.min_self, whole, Nat.zero_add, Nat.lt_irrefl,
        not_false_eq_true]
    have blocks := Nat.mul_le_mul_right node.data.blockBytes (Nat.le_of_not_lt ends)
    omega
  · have small : node.inode.size < 2 ^ 32 := Image.le32_lt _ _
    rw [wholeFile_blockcnt, Nat.div_eq_of_lt (by omega), Nat.zero_mul]
    exact Nat.zero_le _

/-- The last block of a file that ends inside one. -/
theorem wholeFile_incomplete {node : Node}
    (incomplete : node.inode.size % node.data.blockBytes ≠ 0)
    (bound : node.inode.size + node.data.blockBytes ≤ 2 ^ 32) :
    (wholeFile node).blockcnt = node.inode.size / node.data.blockBytes + 1 := by
  have positive := node.data.blockBytes_pos
  have split := Nat.div_add_mod' node.inode.size node.data.blockBytes
  have rest := Nat.mod_lt node.inode.size positive
  have exact' := wholeFile_exact bound
  have starts : node.inode.size / node.data.blockBytes < (wholeFile node).blockcnt := by
    rw [exact'.lt_blockcnt]
    simp only [wholeFile, fileRange, Nat.min_self]
    omega
  have ends : ¬node.inode.size / node.data.blockBytes + 1 < (wholeFile node).blockcnt := by
    rw [exact'.lt_blockcnt, Nat.succ_mul]
    simp only [wholeFile, fileRange, Nat.min_self]
    omega
  omega

/-- On a block size that C can shift to, reading a whole file is the loop. -/
theorem readFile_whole {node : Node} (size : node.data.log2Bytes < 31) (state : Fs × Buffer) :
    ext2fsReadFile machine node 0 node.inode.size state =
      readFileBlocks machine (wholeFile node) (wholeFile node).blockcnt 0 0 state := by
  unfold ext2fsReadFile
  rw [Prog.bind_run_ok (Prog.onFirst_eq_ok.mpr ⟨ext2BlockSizeInt_eq_ok.mpr ⟨size, rfl, rfl⟩, rfl⟩),
    Nat.zero_div, Nat.sub_zero]

theorem readFileBlocks_last {node : Node} (count : Nat) :
    readFileBlocks machine (wholeFile node) (count + 1) 0 0 =
      (readFileBlocks machine (wholeFile node) count 0 0 >>= fun _ =>
        readFileBlock machine (wholeFile node) count (count * node.data.blockBytes)) := by
  unfold readFileBlocks
  rw [eachBlock_last node.data.blockBytes, Nat.zero_add, Nat.zero_add]
  intro i
  rw [Range.skipfirst_start rfl, Nat.sub_zero]
  rfl

theorem readToLast_eq_ok {node : Node} (size : node.data.log2Bytes < 31) {state : Fs × Buffer}
    {sector : Nat} {after : Fs} {buffer : Buffer} :
    readToLast machine node state = .ok sector (after, buffer) ↔
      ∃ before, readFileBlocks machine (wholeFile node) (node.inode.size / node.data.blockBytes) 0 0
          state = .ok () (before, buffer) ∧
        fileSector machine node (node.inode.size / node.data.blockBytes) before =
          .ok sector after := by
  unfold readToLast
  rw [Prog.bind_run_ok (Prog.onFirst_eq_ok.mpr ⟨ext2BlockSizeInt_eq_ok.mpr ⟨size, rfl, rfl⟩, rfl⟩),
    Prog.bind_eq_ok]
  constructor
  · rintro ⟨_, ⟨before, buffer'⟩, blocks, found⟩
    obtain ⟨found, same⟩ := Prog.onFirst_eq_ok.mp found
    change buffer = buffer' at same
    exact ⟨before, same ▸ blocks, found⟩
  · rintro ⟨before, blocks, found⟩
    exact ⟨(), (before, buffer), blocks, Prog.onFirst_eq_ok.mpr ⟨found, rfl⟩⟩

theorem readToLast_sized {node : Node} {state after : Fs × Buffer} {sector : Nat}
    (found : readToLast machine node state = .ok sector after) : node.data.log2Bytes < 31 := by
  by_contra large
  have stops : (readToLast machine node state).state? = none :=
    Prog.bind_state?_none (Prog.onFirst_state?_none (ext2BlockSizeInt_stops large state.1))
  rw [found] at stops
  cases stops

/-- The blocks in front of the last one end inside the file. -/
theorem readFileBlocks_front {node : Node} {fs : Fs} {after : Fs × Buffer} {index : Nat}
    (behind : node.inode.size ≤ index)
    (returned : (readFileBlocks machine (wholeFile node) (node.inode.size / node.data.blockBytes) 0 0
      (fs, .blank)).state? = some after) : after.2 index = none :=
  readFileBlocks_outside (wholeFile node) node.data.blockBytes_pos rfl returned
    (Nat.le_trans (Nat.div_mul_le_self _ _) behind)

section Last

variable (fixed : machine.Fixed image) {fs : Fs} (warm : Warm image fs fs)
include fixed warm

/-- A block that the code finds after other blocks is the one the walk finds. -/
theorem fileSector_after {node : Node} {range : Range} {count : Nat} {state : Fs × Buffer} {sector : Nat}
    {after : Fs} {i : Nat}
    (before : readFileBlocks machine range count 0 0 (fs, .blank) = .ok () state)
    (found : fileSector machine node i state.1 = .ok sector after) :
    walkSector image fs.part node i () = .ok sector () := by
  have blocks := eachBlock_agrees (fun i => range.blocksize - range.skipfirst i)
    (readFileBlock_agrees fixed (.inl trivial) range (.inl trivial)) count 0 0 (fs, .blank) ((), .blank)
    ⟨warm, rfl⟩
  change Outcome.Agree _ _ _ _ _ (readFileBlocks machine range count 0 0 (fs, .blank)) _ at blocks
  rw [before] at blocks
  obtain ⟨_, -, -, states, -⟩ := blocks.of_ok
  have lookup := fileSector_agrees fixed (.inl trivial) node (.inl trivial) i state.1 () states
  rw [found] at lookup
  obtain ⟨_, walk, -, -⟩ := lookup.of_ok
  exact walk

/-- A read that comes to a last block that is a hole fills the whole block. -/
theorem readFile_fills {node : Node} (last : LastBlockHole image fs.part node) {sector : Nat}
    {reached : Fs} {buffer : Buffer} (found : readToLast machine node (fs, .blank) = .ok sector (reached, buffer)) :
    ext2fsReadFile machine node 0 node.inode.size (fs, .blank) = .ok () (reached,
      buffer.store (node.inode.size / node.data.blockBytes * node.data.blockBytes) node.data.blockBytes fun _ => 0) := by
  have size := readToLast_sized found
  obtain ⟨before, blocks, found⟩ := (readToLast_eq_ok size).mp found
  obtain rfl : sector = 0 := by
    have walk := fileSector_after fixed warm blocks found
    rw [last.hole] at walk
    cases walk
    rfl
  have stored := readFileBlock_hole (wholeFile node) (node.inode.size / node.data.blockBytes *
    node.data.blockBytes) buffer found
  rw [readFile_whole size, wholeFile_incomplete last.incomplete last.bound, readFileBlocks_last,
    Prog.bind_run_ok blocks, stored, Range.skipfirst_start rfl, Nat.sub_zero]
  rfl

/-- A file that ends inside of a block is read up to its end, unless that block is a hole. -/
theorem readFile_incomplete {node : Node} (size : node.data.log2Bytes < 31)
    (incomplete : node.inode.size % node.data.blockBytes ≠ 0) (bound : node.inode.size + node.data.blockBytes ≤ 2 ^ 32)
    (safe : ¬(LastBlockHole image fs.part node ∧
      ∃ sector state, readToLast machine node (fs, .blank) = .ok sector state)) :
    StoresInside node.inode.size (ext2fsReadFile machine node 0 node.inode.size (fs, .blank)) := by
  intro after returned index behind
  have split := Nat.div_add_mod' node.inode.size node.data.blockBytes
  have rest := Nat.mod_lt node.inode.size node.data.blockBytes_pos
  rw [readFile_whole size, wholeFile_incomplete incomplete bound, readFileBlocks_last] at returned
  obtain ⟨code, failed⟩ | ⟨_, state, before, block⟩ := Prog.bind_state?.mp returned
  · exact readFileBlocks_front behind (by rw [failed]; rfl)
  · have ends := (wholeFile_exact bound).blockend_eq (i := node.inode.size / node.data.blockBytes)
      (by rw [wholeFile_incomplete incomplete bound]; exact Nat.lt_succ_self _)
    change _ = min node.data.blockBytes (0 + min node.inode.size node.inode.size -
      node.inode.size / node.data.blockBytes * node.data.blockBytes) at ends
    rw [Nat.min_self, Nat.zero_add] at ends
    have bytes : ((wholeFile node).blockend (node.inode.size / node.data.blockBytes) + 2 ^ 32 -
        (wholeFile node).skipfirst (node.inode.size / node.data.blockBytes)) % 2 ^ 32 ≤
        node.inode.size % node.data.blockBytes := by
      rw [Range.skipfirst_start rfl]
      omega
    rw [readFileBlock_outside _ block (fun fs' hole => ?_) bytes (.inr (by omega))]
    · exact readFileBlocks_front behind (by rw [before]; rfl)
    · refine absurd ⟨⟨incomplete, bound, fileSector_after fixed warm before hole⟩, 0, (fs', state.2), ?_⟩ safe
      exact (readToLast_eq_ok size).mpr ⟨state.1, before, hole⟩

/-- `ext2fs_read_file` of a whole file stores behind its end exactly when it
gets to a last block that is a hole and that the file does not fill. -/
theorem readFile_inside_iff (node : Node) :
    StoresInside node.inode.size (ext2fsReadFile machine node 0 node.inode.size (fs, .blank)) ↔
      ¬(LastBlockHole image fs.part node ∧
        ∃ sector state, readToLast machine node (fs, .blank) = .ok sector state) := by
  constructor
  · rintro inside ⟨last, sector, ⟨reached, buffer⟩, found⟩
    have run := readFile_fills fixed warm last found
    have none' := inside _ (by rw [run]; rfl) node.inode.size (Nat.le_refl _)
    have split := Nat.div_add_mod' node.inode.size node.data.blockBytes
    have rest := Nat.mod_lt node.inode.size node.data.blockBytes_pos
    have byte : buffer.store (node.inode.size / node.data.blockBytes * node.data.blockBytes)
        node.data.blockBytes (fun _ => 0) node.inode.size = some 0 :=
      Buffer.store_inside (by omega) (by omega)
    exact absurd (byte.symm.trans none') (by simp)
  · intro safe
    by_cases size : node.data.log2Bytes < 31
    swap
    · intro after returned
      have stops : (ext2fsReadFile machine node 0 node.inode.size (fs, .blank)).state? = none :=
        Prog.bind_state?_none (Prog.onFirst_state?_none (ext2BlockSizeInt_stops size fs))
      rw [stops] at returned
      cases returned
    by_cases complete : node.inode.size % node.data.blockBytes = 0 ∨
        2 ^ 32 < node.inode.size + node.data.blockBytes
    · intro after returned index behind
      rw [readFile_whole size] at returned
      exact readFileBlocks_outside _ node.data.blockBytes_pos rfl returned
        (Nat.le_trans (wholeFile_complete complete) behind)
    · obtain ⟨incomplete, bound⟩ := not_or.mp complete
      exact readFile_incomplete fixed warm size incomplete (Nat.le_of_not_lt bound) safe

/-- A read that fails stores nothing behind the end of the file. -/
theorem readFile_failed_inside {node : Node} {code : QuikErr} {after : Fs × Buffer}
    (failed : ext2fsReadFile machine node 0 node.inode.size (fs, .blank) = .error code after) :
    ∀ index, node.inode.size ≤ index → after.2 index = none := by
  have inside : StoresInside node.inode.size (ext2fsReadFile machine node 0 node.inode.size (fs, .blank)) := by
    refine (readFile_inside_iff fixed warm node).mpr ?_
    rintro ⟨last, sector, ⟨reached, buffer⟩, found⟩
    rw [readFile_fills fixed warm last found] at failed
    cases failed
  exact inside after (by rw [failed]; rfl)

end Last

/-- A load that fails stores nothing behind the end of a buffer of the size that `file_len` has
returned; the buffer was asked of the heap in between. -/
theorem load_failed_inside (fixed : machine.Fixed image) {path : Path} {fs opened : Fs} {len : Nat}
    (unmounted : fs.part.mounted = false) (warm : CachesWarm machine image fuel path fs)
    (length : fileLen machine fuel path fs = .ok len opened) {mallocs : Nat} {code : QuikErr} {after : Fs × Buffer}
    (failed : fileLoad machine fuel path ({ opened with mallocs := mallocs }, .blank) = .error code after) :
    ∀ index, len ≤ index → after.2 index = none := by
  obtain ⟨node, known⟩ := fileLen_eq_ok fixed unmounted warm length
  rw [fileLoad_eq] at failed
  obtain failed | ⟨size, ⟨again, buffer⟩, opens, failed⟩ := Prog.bind_eq_error.mp failed
  · intro index _
    rw [(Prog.onFirst_eq_error.mp failed).2]
    rfl
  · obtain ⟨second, same⟩ := Prog.onFirst_eq_ok.mp opens
    obtain rfl : buffer = .blank := same
    obtain ⟨rfl, part, reopened⟩ := fileLen_again fixed unmounted warm length mallocs second known
    cases root : again.root with
    | none =>
        have globals : Prog.onFirst (Prog.view fun fs : Fs => (fs.root, fs.file)) (again, Buffer.blank) =
            (.ok (none, some node) (again, .blank) : Outcome QuikErr (Fs × Buffer) _) := by
          rw [← reopened.file, ← root]
          rfl
        unfold ext2fsRead at failed
        rw [Prog.bind_run_ok globals] at failed
        cases failed
        exact fun _ _ => rfl
    | some root' =>
        rw [ext2fsRead_file root reopened.file, ← reopened.size] at failed
        rw [← reopened.size]
        exact readFile_failed_inside fixed reopened.warm failed

/-- `file_load` up to the lookup of the block that the file ends in. -/
def loadToLast (machine : Machine) (fuel : Nat) (path : Path) : FillProg Nat := do
  let _ ← Prog.onFirst (fileLen machine fuel path)
  match ← Prog.onFirst (Prog.view fun fs : Fs => (fs.root, fs.file)) with
  | (some _, some file) => readToLast machine file
  | _ => Prog.fail .fsNotFound

/-- A load into a buffer of the size that `file_len` has returned stores behind
its end exactly when it gets to a last block that is a hole and that the file
does not fill. -/
theorem load_inside_iff (fixed : machine.Fixed image) {path : Path} {fs opened : Fs} {len : Nat}
    (unmounted : fs.part.mounted = false) (warm : CachesWarm machine image fuel path fs)
    (length : fileLen machine fuel path fs = .ok len opened) :
    StoresInside len (fileLoad machine fuel path (opened, .blank)) ↔
      ¬∃ node, opened.file = some node ∧ LastBlockHole image opened.part node ∧
        ∃ sector state, loadToLast machine fuel path (opened, .blank) = .ok sector state := by
  obtain ⟨node, known⟩ := fileLen_eq_ok fixed unmounted warm length
  by_cases second : ∃ size again, fileLen machine fuel path opened = .ok size again
  swap
  · refine iff_of_true (fun after returned index _ => ?_) ?_
    · rw [fileLoad_eq] at returned
      obtain ⟨code, failed⟩ | ⟨size, again, opens, -⟩ := Prog.bind_state?.mp returned
      · rw [(Prog.onFirst_eq_error.mp failed).2]
        rfl
      · exact absurd ⟨size, _, (Prog.onFirst_eq_ok.mp opens).1⟩ second
    · rintro ⟨_, -, -, sector, state, reached⟩
      obtain ⟨size, again, opens, -⟩ := Prog.bind_eq_ok.mp reached
      exact second ⟨size, _, (Prog.onFirst_eq_ok.mp opens).1⟩
  obtain ⟨size, again, second⟩ := second
  have lookup : Prog.onFirst (fileLen machine fuel path) (opened, Buffer.blank) =
      .ok size (again, .blank) := Prog.onFirst_eq_ok.mpr ⟨second, rfl⟩
  obtain ⟨rfl, part, reopened⟩ := fileLen_again fixed unmounted warm length opened.mallocs second known
  rw [fileLoad_eq, Prog.bind_run_ok lookup]
  unfold loadToLast
  rw [Prog.bind_run_ok lookup]
  have globals : Prog.onFirst (Prog.view fun fs : Fs => (fs.root, fs.file)) (again, Buffer.blank) =
      (.ok (again.root, some node) (again, .blank) : Outcome QuikErr (Fs × Buffer) _) := by
    rw [← reopened.file]
    rfl
  rw [Prog.bind_run_ok globals]
  cases root : again.root with
  | none =>
      refine iff_of_true (fun after returned index _ => ?_) ?_
      · unfold ext2fsRead at returned
        rw [Prog.bind_run_ok globals, root] at returned
        cases returned
        rfl
      · rintro ⟨_, -, -, sector, state, reached⟩
        cases reached
  | some root' =>
      have inside := readFile_inside_iff fixed reopened.warm node
      rw [reopened.size, part] at inside
      rw [ext2fsRead_file root reopened.file, inside, known.file]
      simp

/-- The file is one byte of a hole. -/
def holeFile : Image :=
  sampleDisk (sampleVolume 32768 oneFile [(256, [0, 0x80, 0, 0, 1])] []) []

/-- What a load stores at an index of a buffer when `file_len` was asked before. -/
def storedAfterLen (disk : Image) (index : Nat) : Option (Nat × Option UInt8) :=
  (fileLen (diskMachine disk) 20 (sampleFile 1) .startUp).result?.bind fun opened =>
    (fileLoad (diskMachine disk) 20 (sampleFile 1) (opened.2, .blank)).state?.map fun after =>
      (opened.1, after.2 index)

/-- A hole of one byte fills its whole block with zeros. -/
theorem load_not_inside :
    ¬∀ (machine : Machine) (image : Nat → Image) (fuel : Nat), Steady machine image →
      ∀ (path : Path) (len : Nat) (opened : Fs),
        fileLen machine fuel path .startUp = .ok len opened →
        StoresInside len (fileLoad machine fuel path (opened, .blank)) := by
  intro inside
  have stored : storedAfterLen holeFile 1023 = some (1, some 0) := by decide +kernel
  obtain ⟨opened, length, stored⟩ := Option.bind_eq_some_iff.mp stored
  obtain ⟨after, returned, bytes⟩ := Option.map_eq_some_iff.mp stored
  obtain ⟨one, byte⟩ := Prod.mk.inj bytes
  have untouched := inside (diskMachine holeFile) (fun _ => holeFile) 20 (diskMachine_steady _)
    (sampleFile 1) _ _ (Outcome.result?_eq_some.mp length) after returned 1023 (by omega)
  rw [untouched] at byte
  cases byte

/-- The short file is loaded into its one byte. -/
theorem load_inside_sample : ∃ opened,
    fileLen (diskMachine shortFile) 20 (sampleFile 1) .startUp = .ok 1 opened ∧
      StoresInside 1 (fileLoad (diskMachine shortFile) 20 (sampleFile 1) (opened, .blank)) := by
  have run : (fileLen (diskMachine shortFile) 20 (sampleFile 1) .startUp).result?.any (fun opened =>
      opened.1 == 1 && opened.2.file.any fun node =>
        (walkSector (fun _ => shortFile) opened.2.part node 0 ()).value? == some 12 &&
          node.data.blockBytes == 1024 && node.inode.size == 1) = true := by decide +kernel
  obtain ⟨⟨len, opened⟩, length, facts⟩ := (Option.any_eq_true _ _).mp run
  have length := Outcome.result?_eq_some.mp length
  rw [Bool.and_eq_true, beq_iff_eq] at facts
  obtain ⟨rfl, facts⟩ := facts
  obtain ⟨node, file, facts⟩ := (Option.any_eq_true _ _).mp facts
  refine ⟨opened, length, (load_inside_iff (diskMachine_steady shortFile).fixed rfl
    (.of_empty rfl rfl) length).mpr ?_⟩
  rintro ⟨node', same, last, -⟩
  obtain rfl : node' = node := Option.some.inj (same.symm.trans file)
  simp only [Bool.and_eq_true, beq_iff_eq] at facts
  obtain ⟨⟨walk, bytes⟩, size⟩ := facts
  have hole := last.hole
  rw [bytes, size, show 1 / 1024 = 0 from rfl] at hole
  rw [hole] at walk
  cases walk

end IQuik.Ext2
