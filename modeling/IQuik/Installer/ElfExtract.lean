import IQuik.Installer.Stage

namespace IQuik.Installer

open IQuik.Data IQuik.Program

/-! # Extracting the boot code: `elfextract.c`

On the 64-bit host `unsigned long` has 64 bits. -/

def iquikSize : Nat := 0x20000

/-- The calls of `exit (1)`. -/
inductive Exit where
  | cantOpen
  | shortFile
  | notElf
  | noSegment
  | grew
  | cantCreate
  | writeError
deriving DecidableEq

/-- Where `fi` stands, and what has been written to `fo`. -/
structure Streams where
  position : Nat
  written : List UInt8

abbrev ExtractProg := Prog Exit Streams

/-- `phoffset`, `phsize` and `prevaddr`. -/
structure Sizes where
  phoffset : Nat
  phsize : Nat
  prevaddr : Nat
deriving DecidableEq

/-- What a program header changes. Neither `phoffset` nor `prevaddr` is read before it is
written. -/
def Sizes.add (sizes : Sizes) (ph : Image) : Sizes :=
  if ph.be32 0 ≠ 1 then sizes
  else if sizes.phsize = 0 ∨ sizes.prevaddr = 0 then
    { phoffset := ph.be32 4, phsize := ph.be32 16, prevaddr := ph.be32 8 }
  else
    { sizes with
      phsize := ((ph.be32 4 + ph.be32 16) % 2 ^ 32 + 2 ^ 64 - sizes.phoffset) % 2 ^ 64, prevaddr := ph.be32 8 }

section Extract

variable (elf : File)

def rd (len : Nat) : ExtractProg Image := fun streams =>
  if len ≤ elf.bytes.length - streams.position then
    .ok (fun index => listImage elf.bytes (streams.position + index))
      { streams with position := streams.position + len }
  else .error .shortFile streams

def fseek (position : Nat) : ExtractProg Unit := Prog.update fun streams => { streams with position }

/-- The loop over the program headers. -/
def readHeaders : (count : Nat) → Sizes → ExtractProg Sizes
  | 0, sizes => pure sizes
  | count + 1, sizes => do
      let ph ← rd elf 32
      readHeaders count (sizes.add ph)

/-- `fwrite`; `accepts` tells whether it takes all that it is given, by offset and length. -/
def fwrite (accepts : Nat → Nat → Bool) (nb : Nat) (buf : Image) : ExtractProg Unit := fun streams =>
  if accepts streams.written.length nb then .ok () { streams with written := streams.written ++ buf.list 0 nb }
  else .error .writeError streams

/-- The loop that copies `len` bytes. -/
def copyBytes (accepts : Nat → Nat → Bool) : (fuel len : Nat) → ExtractProg Unit
  | 0, _ => Prog.unfinished
  | fuel + 1, len =>
      if len = 0 then pure ()
      else do
        let nb := min len 65536
        let buf ← rd elf nb
        fwrite accepts nb buf
        copyBytes accepts fuel (len - nb)

/-- The sizes, from the headers of the file. -/
def elfSizes : ExtractProg Sizes := do
  let eh ← rd elf 52
  if eh.list 0 4 ≠ [0x7F, 69, 76, 70] then Prog.fail .notElf
  else do
    fseek (eh.be32 28)
    readHeaders elf (eh.be16 44) { phoffset := 0, phsize := 0, prevaddr := 0 }

end Extract

/-- `main` of `elfextract.c`, when it was given both names; `creates` tells whether the image file
can be opened. -/
def elfextract (fuel : Nat) (elf : Option File) (creates : Bool) (accepts : Nat → Nat → Bool) : ExtractProg Unit :=
  match elf with
  | none => Prog.fail .cantOpen
  | some elf => do
      let sizes ← elfSizes elf
      if sizes.phsize = 0 then Prog.fail .noSegment
      else if iquikSize < sizes.phsize then Prog.fail .grew
      else if ¬creates then Prog.fail .cantCreate
      else do
        fseek sizes.phoffset
        copyBytes elf accepts fuel sizes.phsize

/-! ## What is copied -/

section Copies

variable {elf : File} {streams after : Streams} {accepts : Nat → Nat → Bool} {fuel len : Nat}

theorem rd_eq_ok {buf : Image} : rd elf len streams = .ok buf after ↔
    len ≤ elf.bytes.length - streams.position ∧
      buf = (fun index => listImage elf.bytes (streams.position + index)) ∧
      after = { streams with position := streams.position + len } := by
  rw [rd]
  split
  · rename_i inside
    rw [Outcome.ok.injEq]
    exact ⟨fun same => ⟨inside, same.1.symm, same.2.symm⟩, fun same => ⟨same.2.1.symm, same.2.2.symm⟩⟩
  · rename_i short
    exact ⟨nofun, fun same => absurd same.1 short⟩

theorem fwrite_eq_ok {nb : Nat} {buf : Image} (run : fwrite accepts nb buf streams = .ok () after) :
    after = { streams with written := streams.written ++ buf.list 0 nb } := by
  rw [fwrite] at run
  split at run
  · cases run
    rfl
  · cases run

/-- The bytes of a file from an offset on. -/
theorem list_of_file {position count : Nat} (inside : count ≤ elf.bytes.length - position) :
    Image.list (fun index => listImage elf.bytes (position + index)) 0 count =
      (elf.bytes.drop position).take count := by
  have length : ((elf.bytes.drop position).take count).length = count := by
    rw [List.length_take, List.length_drop]
    omega
  have same : Image.list (fun index => listImage elf.bytes (position + index)) 0
      ((elf.bytes.drop position).take count).length = (elf.bytes.drop position).take count := by
    refine image_list_eq fun i below => ?_
    rw [length] at below
    simp [listImage, List.getD_eq_getElem?_getD, below]
  rwa [length] at same

theorem copyBytes_eq_ok (run : copyBytes elf accepts fuel len streams = .ok () after) :
    len ≤ elf.bytes.length - streams.position ∧
      after.written = streams.written ++ (elf.bytes.drop streams.position).take len := by
  induction fuel generalizing len streams with
  | zero => cases run
  | succ fuel ih =>
      rw [copyBytes] at run
      split at run
      · obtain ⟨-, rfl⟩ := Prog.pure_eq_ok.mp run
        rename_i none'
        rw [none', List.take_zero, List.append_nil]
        exact ⟨Nat.zero_le _, rfl⟩
      · obtain ⟨buf, middle, reads, run⟩ := Prog.bind_eq_ok.mp run
        obtain ⟨inside, rfl, rfl⟩ := rd_eq_ok.mp reads
        obtain ⟨_, later, writes, run⟩ := Prog.bind_eq_ok.mp run
        obtain rfl := fwrite_eq_ok writes
        obtain ⟨rest, written⟩ := ih run
        dsimp only at rest written
        refine ⟨by omega, ?_⟩
        rw [written, list_of_file inside, List.append_assoc, ← List.drop_drop, ← List.take_add]
        congr 2
        omega

end Copies

/-! ## What is loaded -/

/-- What elfextract reads of a `PT_LOAD` header. -/
structure Segment where
  offset : Nat
  vaddr : Nat
  filesz : Nat
deriving DecidableEq

def Segment.last (segment : Segment) : Nat := segment.offset + segment.filesz

/-- `count` program headers, from a position on. -/
def headersAt (elf : File) : (count position : Nat) → List Image
  | 0, _ => []
  | count + 1, position =>
      (fun index => listImage elf.bytes (position + index)) :: headersAt elf count (position + 32)

/-- The segment of a program header, if it has one. -/
def segmentOf (ph : Image) : Option Segment :=
  if ph.be32 0 ≠ 1 then none else some { offset := ph.be32 4, vaddr := ph.be32 8, filesz := ph.be32 16 }

/-- The segments of a file. -/
def segments (elf : File) : List Segment :=
  (headersAt elf ((listImage elf.bytes).be16 44) ((listImage elf.bytes).be32 28)).filterMap segmentOf

/-- What a segment changes. -/
def Sizes.addSegment (sizes : Sizes) (segment : Segment) : Sizes :=
  if sizes.phsize = 0 ∨ sizes.prevaddr = 0 then
    { phoffset := segment.offset, phsize := segment.filesz, prevaddr := segment.vaddr }
  else
    { sizes with
      phsize := (segment.last % 2 ^ 32 + 2 ^ 64 - sizes.phoffset) % 2 ^ 64, prevaddr := segment.vaddr }

section Headers

variable {elf : File} {streams after : Streams} {sizes found : Sizes}

theorem Sizes.add_eq (sizes : Sizes) (ph : Image) :
    sizes.add ph = (segmentOf ph).elim sizes sizes.addSegment := by
  unfold Sizes.add segmentOf
  split
  · rfl
  · rfl

theorem foldl_add (headers : List Image) (sizes : Sizes) :
    headers.foldl Sizes.add sizes = (headers.filterMap segmentOf).foldl Sizes.addSegment sizes := by
  induction headers generalizing sizes with
  | nil => rfl
  | cons ph rest ih =>
      rw [List.foldl_cons, ih, Sizes.add_eq]
      cases known : segmentOf ph with
      | none => rw [List.filterMap_cons_none known, Option.elim_none]
      | some segment => rw [List.filterMap_cons_some known, Option.elim_some, List.foldl_cons]

theorem readHeaders_eq_ok {count : Nat} : readHeaders elf count sizes streams = .ok found after ↔
    32 * count ≤ elf.bytes.length - streams.position ∧
      found = (headersAt elf count streams.position).foldl Sizes.add sizes ∧
      after = { streams with position := streams.position + 32 * count } := by
  induction count generalizing sizes streams with
  | zero => simp [readHeaders, headersAt, eq_comm]
  | succ count ih =>
      rw [readHeaders, Prog.bind_eq_ok]
      constructor
      · rintro ⟨ph, middle, reads, rest⟩
        obtain ⟨inside, rfl, rfl⟩ := rd_eq_ok.mp reads
        obtain ⟨later, rfl, rfl⟩ := ih.mp rest
        dsimp only at later
        refine ⟨by omega, rfl, ?_⟩
        congr 1
        dsimp only
        omega
      · rintro ⟨inside, rfl, rfl⟩
        refine ⟨_, _, rd_eq_ok.mpr ⟨by omega, rfl, rfl⟩, ih.mpr ⟨?_, rfl, ?_⟩⟩
        · dsimp only
          omega
        · congr 1
          dsimp only
          omega

end Headers

/-! ## When an image is written -/

section Written

variable {elf : File} {streams after : Streams} {accepts : Nat → Nat → Bool} {creates : Bool} {fuel : Nat}

def imageSizes (elf : File) : Sizes :=
  (segments elf).foldl Sizes.addSegment { phoffset := 0, phsize := 0, prevaddr := 0 }

/-- The image that is to be written. -/
def imageOf (elf : File) : List UInt8 := (elf.bytes.drop (imageSizes elf).phoffset).take (imageSizes elf).phsize

/-- An ELF file that has all its headers. -/
structure HasHeaders (elf : File) : Prop where
  header : 52 ≤ elf.bytes.length
  magic : (listImage elf.bytes).list 0 4 = [0x7F, 69, 76, 70]
  table : 32 * (listImage elf.bytes).be16 44 ≤ elf.bytes.length - (listImage elf.bytes).be32 28

/-- The headers are in the file, and so is what they ask for, which is not too much. -/
structure Extractable (elf : File) : Prop extends HasHeaders elf where
  some' : (imageSizes elf).phsize ≠ 0
  small : (imageSizes elf).phsize ≤ iquikSize
  inside : (imageSizes elf).phsize ≤ elf.bytes.length - (imageSizes elf).phoffset

def Streams.start : Streams := { position := 0, written := [] }

theorem rd_start {eh : Image} : rd elf 52 .start = .ok eh after ↔
    52 ≤ elf.bytes.length ∧ eh = listImage elf.bytes ∧ after = { position := 52, written := [] } := by
  have whole : (fun index => listImage elf.bytes (0 + index)) = listImage elf.bytes := by
    funext index
    rw [Nat.zero_add]
  exact whole ▸ rd_eq_ok

theorem elfSizes_eq_ok {found : Sizes} : elfSizes elf .start = .ok found after ↔
    52 ≤ elf.bytes.length ∧ (listImage elf.bytes).list 0 4 = [0x7F, 69, 76, 70] ∧
      32 * (listImage elf.bytes).be16 44 ≤ elf.bytes.length - (listImage elf.bytes).be32 28 ∧
      found = imageSizes elf ∧ after =
        { position := (listImage elf.bytes).be32 28 + 32 * (listImage elf.bytes).be16 44, written := [] } := by
  have sizes : (headersAt elf ((listImage elf.bytes).be16 44) ((listImage elf.bytes).be32 28)).foldl Sizes.add
      { phoffset := 0, phsize := 0, prevaddr := 0 } = imageSizes elf := foldl_add _ _
  rw [elfSizes, Prog.bind_eq_ok]
  constructor
  · rintro ⟨eh, middle, reads, run⟩
    obtain ⟨header, rfl, rfl⟩ := rd_start.mp reads
    split at run
    · cases run
    · rename_i magic
      obtain ⟨_, second, seeks, run⟩ := Prog.bind_eq_ok.mp run
      cases seeks
      obtain ⟨table, rfl, rfl⟩ := readHeaders_eq_ok.mp run
      exact ⟨header, not_not.mp magic, table, sizes, rfl⟩
  · rintro ⟨header, magic, table, rfl, rfl⟩
    refine ⟨_, _, rd_start.mpr ⟨header, rfl, rfl⟩, ?_⟩
    rw [if_neg (not_not.mpr magic)]
    exact Prog.bind_eq_ok.mpr ⟨⟨⟩, _, rfl, readHeaders_eq_ok.mpr ⟨table, sizes.symm, rfl⟩⟩

theorem copyBytes_run {len : Nat} (all : ∀ offset nb, accepts offset nb = true)
    (inside : len ≤ elf.bytes.length - streams.position) (enough : len < fuel) :
    ∃ after, copyBytes elf accepts fuel len streams = .ok () after := by
  induction fuel generalizing len streams with
  | zero => exact absurd enough (Nat.not_lt_zero _)
  | succ fuel ih =>
      rw [copyBytes]
      split
      · exact ⟨streams, rfl⟩
      · rename_i more
        let nb := min len 65536
        have reads := rd_eq_ok.mpr ⟨show nb ≤ elf.bytes.length - streams.position by omega, rfl, rfl⟩
        rw [Prog.bind_run_ok reads]
        have writes : fwrite accepts nb (fun index => listImage elf.bytes (streams.position + index))
            { streams with position := streams.position + nb } = .ok () _ := if_pos (all _ _)
        rw [Prog.bind_run_ok writes]
        exact ih (show len - nb ≤ elf.bytes.length - (streams.position + nb) by omega) (by omega)

/-- An image that is written is that of the file, which has all of it. -/
theorem elfextract_eq_ok (run : elfextract fuel (some elf) creates accepts .start = .ok () after) :
    Extractable elf ∧ after.written = imageOf elf := by
  obtain ⟨sizes, middle, reads, run⟩ := Prog.bind_eq_ok.mp run
  obtain ⟨header, magic, table, rfl, rfl⟩ := elfSizes_eq_ok.mp reads
  split at run
  · cases run
  rename_i some'
  split at run
  · cases run
  rename_i small
  split at run
  · cases run
  obtain ⟨_, second, seeks, copies⟩ := Prog.bind_eq_ok.mp run
  cases seeks
  obtain ⟨inside, written⟩ := copyBytes_eq_ok copies
  exact ⟨⟨⟨header, magic, table⟩, some', Nat.not_lt.mp small, inside⟩, written⟩

/-- With an output that takes everything, the image is written for exactly these files. -/
theorem elfextract_iff (all : ∀ offset nb, accepts offset nb = true) (enough : iquikSize < fuel) :
    (∃ after, elfextract fuel (some elf) true accepts .start = .ok () after) ↔ Extractable elf := by
  refine ⟨fun ⟨_, run⟩ => (elfextract_eq_ok run).1, fun able => ?_⟩
  have reads := elfSizes_eq_ok.mpr ⟨able.header, able.magic, able.table, rfl, rfl⟩
  have bound : (imageSizes elf).phsize < fuel := Nat.lt_of_le_of_lt able.small enough
  obtain ⟨after, copies⟩ : ∃ after, copyBytes elf accepts fuel (imageSizes elf).phsize
      ⟨(imageSizes elf).phoffset, []⟩ = .ok () after := copyBytes_run all able.inside bound
  refine ⟨after, ?_⟩
  unfold elfextract
  dsimp only
  rw [Prog.bind_run_ok reads, if_neg able.some', if_neg (Nat.not_lt.mpr able.small), if_neg (not_not.mpr rfl)]
  exact copies

end Written

/-! ## The image in memory -/

section Linked

variable {elf : File} {after : Streams} {accepts : Nat → Nat → Bool} {creates : Bool} {fuel : Nat}
  {first segment : Segment} {rest : List Segment}

/-- The segments of boot code that is linked at the address of the first one: in the file they are as
far apart as in memory, and none ends behind the last one. -/
structure Linked (first : Segment) (rest : List Segment) : Prop where
  placed : ∀ segment ∈ first :: rest, segment.vaddr ≠ 0 ∧ segment.filesz ≠ 0 ∧ segment.last < 2 ^ 32
  congruent : ∀ segment ∈ first :: rest,
    first.vaddr ≤ segment.vaddr ∧ segment.offset = first.offset + (segment.vaddr - first.vaddr)
  ends : ∀ segment ∈ first :: rest, segment.last ≤ (rest.getLastD first).last

/-- The sizes from an offset up to the end of a segment. -/
def Sizes.upTo (offset : Nat) (segment : Segment) : Sizes :=
  { phoffset := offset, phsize := segment.last - offset, prevaddr := segment.vaddr }

theorem foldl_upTo {offset : Nat} (started : first.vaddr ≠ 0 ∧ offset < first.last)
    (placed : ∀ segment ∈ rest, segment.vaddr ≠ 0 ∧ offset < segment.last ∧ segment.last < 2 ^ 32) :
    rest.foldl Sizes.addSegment (.upTo offset first) = .upTo offset (rest.getLastD first) := by
  induction rest generalizing first with
  | nil => rfl
  | cons second rest ih =>
      obtain ⟨nonzero, behind, small⟩ := placed second List.mem_cons_self
      have covers : (Sizes.upTo offset first).phsize ≠ 0 := Nat.sub_ne_zero_of_lt started.2
      have step : (Sizes.upTo offset first).addSegment second = .upTo offset second := by
        have size : (second.last % 2 ^ 32 + 2 ^ 64 - offset) % 2 ^ 64 = second.last - offset := by omega
        have goesOn : ¬((Sizes.upTo offset first).phsize = 0 ∨ (Sizes.upTo offset first).prevaddr = 0) :=
          not_or.mpr ⟨covers, started.1⟩
        rw [Sizes.addSegment, if_neg goesOn]
        exact congrArg (fun phsize => Sizes.mk offset phsize second.vaddr) size
      rw [List.foldl_cons, step, List.getLastD_cons]
      exact ih ⟨nonzero, behind⟩ fun segment member => placed segment (List.mem_cons_of_mem _ member)

/-- The image of linked boot code reaches from the first segment to the end of the last one. -/
theorem imageSizes_linked (known : segments elf = first :: rest) (linked : Linked first rest) :
    imageSizes elf = .upTo first.offset (rest.getLastD first) := by
  have behind (segment : Segment) (member : segment ∈ first :: rest) : first.offset < segment.last := by
    obtain ⟨-, some', -⟩ := linked.placed segment member
    obtain ⟨-, place⟩ := linked.congruent segment member
    unfold Segment.last
    omega
  have start : Sizes.addSegment { phoffset := 0, phsize := 0, prevaddr := 0 } first = .upTo first.offset first := by
    rw [Sizes.addSegment, if_pos (.inl rfl), Sizes.upTo, Segment.last, Nat.add_sub_cancel_left]
  rw [imageSizes, known, List.foldl_cons, start]
  refine foldl_upTo ⟨(linked.placed first List.mem_cons_self).1, behind first List.mem_cons_self⟩
    fun segment member => ?_
  have later := List.mem_cons_of_mem first member
  exact ⟨(linked.placed segment later).1, behind segment later, (linked.placed segment later).2.2⟩

/-- The segments of linked boot code begin in front of its end. -/
theorem Linked.positive (linked : Linked first rest) : first.offset < (rest.getLastD first).last := by
  obtain ⟨-, some', -⟩ := linked.placed first List.mem_cons_self
  have ends := linked.ends first List.mem_cons_self
  rw [Segment.last] at ends
  omega

/-- What is written for linked boot code, loaded at the address of the first segment, has every
segment at its address. -/
theorem segments_extracted (known : segments elf = first :: rest) (linked : Linked first rest)
    (run : elfextract fuel (some elf) creates accepts .start = .ok () after) :
    after.written.length = (rest.getLastD first).last - first.offset ∧
      ∀ segment ∈ first :: rest, segment.vaddr - first.vaddr + segment.filesz ≤ after.written.length ∧
        ∀ j < segment.filesz,
          after.written[segment.vaddr - first.vaddr + j]? = elf.bytes[segment.offset + j]? := by
  obtain ⟨able, written⟩ := elfextract_eq_ok run
  have sizes := imageSizes_linked known linked
  have inside := able.inside
  rw [sizes] at inside
  have length : after.written.length = (rest.getLastD first).last - first.offset := by
    rw [written, imageOf, sizes, List.length_take, List.length_drop]
    exact Nat.min_eq_left inside
  refine ⟨length, fun segment member => ?_⟩
  obtain ⟨-, place⟩ := linked.congruent segment member
  have ends := linked.ends segment member
  rw [Segment.last] at ends
  refine ⟨by omega, fun j below => ?_⟩
  rw [written, imageOf, sizes, List.getElem?_take_of_lt, List.getElem?_drop, place]
  · congr 1
    dsimp only [Sizes.upTo]
    omega
  · dsimp only [Sizes.upTo]
    omega

/-- The image of linked boot code is written if and only if the file has its headers and all that is to be
loaded, which is not too large; and what is written is what is to be loaded. -/
theorem boot_code_extracted (fuel : Nat) (known : segments elf = first :: rest) (linked : Linked first rest) :
    (iquikSize < fuel → ((∃ after, elfextract fuel (some elf) true (fun _ _ => true) .start = .ok () after) ↔
      HasHeaders elf ∧ (rest.getLastD first).last - first.offset ≤ iquikSize ∧
        (rest.getLastD first).last ≤ elf.bytes.length)) ∧
    ∀ creates accepts after, elfextract fuel (some elf) creates accepts .start = .ok () after →
      after.written.length = (rest.getLastD first).last - first.offset ∧
        ∀ segment ∈ first :: rest, ∀ j < segment.filesz,
          after.written[segment.vaddr - first.vaddr + j]? = elf.bytes[segment.offset + j]? := by
  have sizes := imageSizes_linked known linked
  have positive := linked.positive
  refine ⟨fun enough => ?_, fun creates accepts after run => ?_⟩
  · rw [elfextract_iff (fun _ _ => rfl) enough]
    constructor
    · intro able
      have small := able.small
      have inside := able.inside
      rw [sizes] at small inside
      dsimp only [Sizes.upTo] at small inside
      exact ⟨able.toHasHeaders, small, by omega⟩
    · rintro ⟨headers, small, reaches⟩
      refine ⟨headers, ?_, ?_, ?_⟩
      all_goals
        rw [sizes]
        dsimp only [Sizes.upTo]
        omega
  · obtain ⟨length, bytes⟩ := segments_extracted known linked run
    exact ⟨length, fun segment member => (bytes segment member).2⟩

/-- Boot code of three words, of which the last one is BSS, with the signature and ELF headers. -/
def sampleBody : List UInt8 := [0x48, 0, 0, 0, 1, 2, 3, 4, 0, 0, 0, 0]

def sampleElf : File where
  bytes := [0x7F, 69, 76, 70] ++ List.replicate 24 0 ++ [0, 0, 0, 52] ++ List.replicate 12 0 ++ [0, 1] ++
    List.replicate 6 0 ++ [0, 0, 0, 1] ++ [0, 0, 0, 84] ++ [0, 0x3e, 0, 0] ++ [0, 0, 0, 0] ++ [0, 0, 0, 16] ++
    List.replicate 12 0 ++ sampleBody ++ prebootMagic
  small := by decide

def sampleSegment : Segment := { offset := 84, vaddr := 0x3e0000, filesz := 16 }

theorem sampleElf_segments : segments sampleElf = [sampleSegment] := by decide +kernel

theorem sampleSegment_linked : Linked sampleSegment [] := by
  refine ⟨?_, ?_, ?_⟩
  all_goals decide

theorem boot_code_extracted_sample :
    ∃ after, elfextract 0x20001 (some sampleElf) true (fun _ _ => true) .start = .ok () after ∧
      after.written.length = 16 := by
  obtain ⟨exactly, written⟩ := boot_code_extracted 0x20001 sampleElf_segments sampleSegment_linked
  have headers : HasHeaders sampleElf := by
    refine ⟨by decide +kernel, by decide +kernel, by decide +kernel⟩
  obtain ⟨after, run⟩ := (exactly (by decide)).mpr ⟨headers, by decide, by decide +kernel⟩
  exact ⟨after, run, (written true _ after run).1⟩

end Linked

end IQuik.Installer
