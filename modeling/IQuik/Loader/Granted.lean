import IQuik.Loader.Pages
import IQuik.Loader.Segments

namespace IQuik.Loader

open IQuik.Data IQuik.Program

/-! # The memory of a loaded kernel and its initrd -/

def Range.Holds (range : Range) (byte : Nat) : Prop := range.1 ≤ byte ∧ byte < range.1 + range.2

def Range.Apart (left right : Range) : Prop := ∀ byte, left.Holds byte → ¬right.Holds byte

def Covered (ranges : List Range) (byte : Nat) : Prop := ∃ range ∈ ranges, range.Holds byte

/-- A firmware that grants no range overlapping one in use. -/
def Careful (grant : List Range → Range → Bool) : Prop :=
  ∀ used range, grant used range = true → ∀ other ∈ used, range.Apart other

/-- The kernel with its zeroed tail. -/
def LoadState.range (image : LoadState) : Range := (image.buf, image.textOffset + image.textLen)

def Claims.initrd (claims : Claims) : Range := (claims.initrdBase, claims.initrdLen)

structure Backed (image : LoadState) (after : Claims) : Prop where
  kernel : ∀ byte, image.range.Holds byte → Covered after.granted byte
  initrd : ∀ byte, after.initrd.Holds byte → Covered after.granted byte
  apart : image.range.Apart after.initrd

section Covering

variable {ranges : List Range} {range : Range} {byte : Nat}

theorem covered_cons : Covered (range :: ranges) byte ↔ range.Holds byte ∨ Covered ranges byte := by
  simp [Covered]

theorem covered_append {more : List Range} :
    Covered (ranges ++ more) byte ↔ Covered ranges byte ∨ Covered more byte := by
  induction ranges with
  | nil => simp [Covered]
  | cons range ranges ih => rw [List.cons_append, covered_cons, covered_cons, ih, or_assoc]

end Covering

/-! ## The tail -/

section Tail

variable {around : Surroundings} {claims after : Claims} {limit fuel addr : Nat}

/-- The firmware grants `count` pages from `addr` on, one after the other. -/
def GrantsPages (grant : List Range → Range → Bool) : (count : Nat) → (used : List Range) → (addr : Nat) → Prop
  | 0, _, _ => True
  | count + 1, used, addr =>
      grant used (addr, size4K) = true ∧
        GrantsPages grant count ((addr, size4K) :: used) (addr + size4K)

theorem ensureFrom_endless (fits : addr < 0x100000000) (last : 0xFFFFF000 + addr % 4096 < limit) :
    ensureFrom around limit fuel addr claims ≠ .ok ⟨⟩ after := by
  intro run
  rw [ensureFrom_asks, pagesAsked_endless fits last] at run
  cases run

/-- One page of a loop that ends, which does not go round the address space. -/
theorem page_cases (plain : around.workAround = none) (fits : addr < 0x100000000) (below : addr < limit)
    (run : ensureFrom around limit (fuel + 1) addr claims = .ok ⟨⟩ after) :
    addr + 4096 < 0x100000000 ∧
      ((around.grant claims.inUse (addr, size4K) = true ∧
          ensureFrom around limit fuel (addr + 4096) (claims.claim (addr, size4K)) = .ok ⟨⟩ after ∧
          pagesGranted around limit (fuel + 1) claims.inUse addr = (addr, size4K) ::
            pagesGranted around limit fuel (claims.claim (addr, size4K)).inUse (addr + 4096)) ∨
        (around.grant claims.inUse (addr, size4K) = false ∧
          ensureFrom around limit fuel (addr + 4096) claims = .ok ⟨⟩ after ∧
          pagesGranted around limit (fuel + 1) claims.inUse addr =
            pagesGranted around limit fuel claims.inUse (addr + 4096))) := by
  have inside : addr + 4096 < 0x100000000 := by
    apply Nat.lt_of_not_le
    intro outside
    exact ensureFrom_endless fits (by omega) run
  have next : wrap (addr + size4K) = addr + 4096 := Nat.mod_eq_of_lt inside
  refine ⟨inside, ?_⟩
  rw [ensureFrom, if_pos below, next] at run
  rw [pagesGranted, if_pos below, next]
  cases granted : around.grant claims.inUse (addr, size4K) with
  | true =>
      rw [Prog.bind_run_ok ((promClaim_run plain addr size4K claims).trans (if_pos granted))] at run
      exact .inl ⟨rfl, run, rfl⟩
  | false =>
      rw [Prog.bind_run_ok ((promClaim_run plain addr size4K claims).trans (if_neg (by simp [granted])))] at run
      exact .inr ⟨rfl, run, rfl⟩

theorem pagesGranted_mem {used : List Range} {page : Range}
    (mem : page ∈ pagesGranted around limit fuel used addr) : page.1 < limit ∧ page.2 = size4K := by
  induction fuel generalizing used addr with
  | zero => cases mem
  | succ fuel ih =>
      rw [pagesGranted] at mem
      split at mem
      · split at mem
        · obtain rfl | mem := List.mem_cons.mp mem
          · exact ⟨‹_›, rfl⟩
          · exact ih mem
        · exact ih mem
      · cases mem

theorem pagesGranted_above {page : Range} (plain : around.workAround = none) (fits : addr < 0x100000000)
    (run : ensureFrom around limit fuel addr claims = .ok ⟨⟩ after)
    (mem : page ∈ pagesGranted around limit fuel claims.inUse addr) : addr ≤ page.1 := by
  induction fuel generalizing addr claims with
  | zero => cases mem
  | succ fuel ih =>
      by_cases below : addr < limit
      · obtain ⟨inside, ⟨-, rest, pages⟩ | ⟨-, rest, pages⟩⟩ := page_cases plain fits below run
        · rw [pages] at mem
          obtain rfl | mem := List.mem_cons.mp mem
          · exact Nat.le_refl _
          · have above := ih inside rest mem
            omega
        · rw [pages] at mem
          have above := ih inside rest mem
          omega
      · rw [pagesGranted, if_neg below] at mem
        cases mem

/-- The pages of a loop that ends cover its range when each of them is granted. -/
theorem pages_cover_iff (plain : around.workAround = none) (fits : addr < 0x100000000)
    (run : ensureFrom around limit fuel addr claims = .ok ⟨⟩ after) :
    (∀ byte, addr ≤ byte → byte < limit → Covered (pagesGranted around limit fuel claims.inUse addr) byte) ↔
      GrantsPages around.grant ((limit - addr + 4095) / 4096) claims.inUse addr := by
  induction fuel generalizing addr claims with
  | zero => cases run
  | succ fuel ih =>
      by_cases below : addr < limit
      · have count : (limit - addr + 4095) / 4096 = (limit - (addr + 4096) + 4095) / 4096 + 1 := by omega
        rw [count, GrantsPages]
        obtain ⟨inside, ⟨granted, rest, pages⟩ | ⟨refused, rest, pages⟩⟩ := page_cases plain fits below run
        · rw [pages, and_iff_right granted, show addr + size4K = addr + 4096 from rfl, ← show
            (claims.claim (addr, size4K)).inUse = (addr, size4K) :: claims.inUse from rfl, ← ih inside rest]
          constructor
          · intro covered byte lower upper
            obtain held | found := covered_cons.mp (covered byte (by omega) upper)
            · have held : byte < addr + 4096 := held.2
              omega
            · exact found
          · intro covered byte lower upper
            apply covered_cons.mpr
            by_cases here : byte < addr + 4096
            · exact .inl ⟨lower, here⟩
            · exact .inr (covered byte (by omega) upper)
        · rw [pages, refused]
          refine iff_of_false (fun covered => ?_) (by simp)
          obtain ⟨page, mem, held⟩ := covered addr (Nat.le_refl _) below
          have above := pagesGranted_above plain inside rest mem
          have lower : page.1 ≤ addr := held.1
          omega
      · rw [show (limit - addr + 4095) / 4096 = 0 by omega]
        exact iff_of_true (fun byte lower upper => by omega) trivial

/-- The kernel ends in its file, or below the end of the address space with a
page granted for each page behind the file. -/
def KernelHeld (grant : List Range → Range → Bool) (used : List Range) (place len : Nat) (extent : Extent) : Prop :=
  extent.off + extent.len ≤ len ∨
    (place + (extent.off + extent.len) < 0x100000000 ∧
      GrantsPages grant ((extent.off + extent.len - len + 4095) / 4096) used (place + len))

/-- A kernel that leaves the address space is not covered. -/
theorem tail_outside {used : List Range} {place len : Nat} {extent : Extent}
    (longer : len < extent.off + extent.len) (outside : 0x100000000 ≤ place + (extent.off + extent.len)) :
    ¬Covered ((place, len) :: tailGranted around used place len extent)
      (place + (extent.off + extent.len) - 1) := by
  rw [covered_cons]
  rintro (⟨-, held⟩ | ⟨page, mem, -, held⟩)
  · have held : place + (extent.off + extent.len) - 1 < place + len := held
    omega
  · rw [tailGranted] at mem
    split at mem
    · obtain ⟨below, width⟩ := pagesGranted_mem mem
      rw [width] at held
      have held : place + (extent.off + extent.len) - 1 < page.1 + 4096 := held
      have below : page.1 < (place + (extent.len + extent.off)) % 0x100000000 := below
      omega
    · cases mem

theorem kernelHeld_iff {place len : Nat} {extent : Extent} (plain : around.workAround = none)
    (run : ClaimsTail around place len extent claims after) :
    (∀ byte, Range.Holds (place, extent.off + extent.len) byte →
        Covered ((place, len) :: tailGranted around claims.inUse place len extent) byte) ↔
      KernelHeld around.grant claims.inUse place len extent := by
  by_cases short : extent.off + extent.len ≤ len
  · refine iff_of_true (fun byte held => covered_cons.mpr (.inl ⟨held.1, ?_⟩)) (.inl short)
    have upper : byte < place + (extent.off + extent.len) := held.2
    exact show byte < place + len by omega
  have longer : len < extent.off + extent.len := Nat.lt_of_not_le short
  rw [KernelHeld, or_iff_right short]
  by_cases inside : place + (extent.off + extent.len) < 0x100000000
  · have start : wrap (place + len) = place + len := Nat.mod_eq_of_lt (by omega)
    have limit : wrap (place + (extent.off + extent.len)) = place + (extent.off + extent.len) :=
      Nat.mod_eq_of_lt inside
    rw [ClaimsTail, Nat.add_comm extent.len, start, limit] at run
    obtain ⟨short, -⟩ | ⟨-, claimed⟩ := run
    · omega
    have pages := pages_cover_iff plain (by omega) claimed
    rw [and_iff_right inside, tailGranted, Nat.add_comm extent.len, if_pos longer, start, limit]
    rw [show place + (extent.off + extent.len) - (place + len) = extent.off + extent.len - len by omega] at pages
    rw [← pages]
    constructor
    · intro covered byte lower upper
      obtain ⟨-, held⟩ | found := covered_cons.mp (covered byte ⟨show place ≤ byte by omega, upper⟩)
      · have held : byte < place + len := held
        omega
      · exact found
    · intro covered byte held
      by_cases here : byte < place + len
      · exact covered_cons.mpr (.inl ⟨held.1, here⟩)
      · exact covered_cons.mpr (.inr (covered byte (Nat.le_of_not_lt here) held.2))
  · refine iff_of_false (fun covered => ?_) fun held => inside held.1
    have last : Range.Holds (place, extent.off + extent.len) (place + (extent.off + extent.len) - 1) :=
      ⟨show place ≤ place + (extent.off + extent.len) - 1 by omega,
        show place + (extent.off + extent.len) - 1 < place + (extent.off + extent.len) by omega⟩
    exact tail_outside longer (Nat.le_of_not_lt inside) (covered _ last)

end Tail

/-! ## One attempt -/

/-- The kernel of the attempt holds when it gets to its place. -/
def Furnished (around : Surroundings) (used : List Range) (paths : LoadPaths) : Prop :=
  ∀ len place extent, (around.files paths.kernel).len = .ok len →
    firstGranted around used len.toNat around.fuel (alignUp loadBase size1M) = some place →
    elfExtent around.memory place = .ok extent →
    KernelHeld around.grant ((place, len.toNat) :: used) place len.toNat extent

section Attempt

variable {around : Surroundings} {used : List Range}

/-- A kernel that is covered by what was granted before the initrd stays apart
from that. -/
theorem covered_apart {claims : Claims} {kernel initrd : Range} (careful : Careful around.grant)
    (known : ∀ range ∈ claims.granted, range ∈ claims.inUse)
    (granted : around.grant claims.inUse initrd = true)
    (covered : ∀ byte, kernel.Holds byte → Covered claims.granted byte) : kernel.Apart initrd := by
  intro byte held inside
  obtain ⟨range, mem, found⟩ := covered byte held
  exact careful _ _ granted range (known range mem) byte inside found

theorem loadFails_ne_ok {kernel : Loaded} {reason : QuikErr} {claims after : Claims} {image : LoadState} :
    loadFails around kernel reason claims ≠ .ok image after := by
  intro run
  rw [loadFails] at run
  split at run
  · obtain ⟨_, middle, -, rest⟩ := Prog.bind_eq_ok.mp run
    cases rest
  · cases run

theorem loadInitrd_image {kernel : Loaded} {image result : LoadState} {initrd : Option FsPath}
    {claims after : Claims} (run : loadInitrd around kernel image initrd claims = .ok result after) :
    result = image := by
  cases initrd with
  | none => exact (Prog.pure_eq_ok.mp run).1
  | some path =>
      obtain ⟨loaded, middle, -, rest⟩ := Prog.bind_eq_ok.mp run
      cases fine : loaded.result with
      | error code =>
          rw [fine] at rest
          exact absurd rest loadFails_ne_ok
      | ok value =>
          rw [fine] at rest
          exact (Prog.pure_eq_ok.mp rest).1

/-- The initrd adds its own range, which the kernel is apart from. -/
theorem loadInitrd_backed_iff {kernel : Loaded} {image result : LoadState} {initrd : Option FsPath}
    {claims after : Claims} (plain : around.workAround = none) (careful : Careful around.grant)
    (known : ∀ range ∈ claims.granted, range ∈ claims.inUse)
    (run : loadInitrd around kernel image initrd claims = .ok result after) :
    Backed result after ↔ ∀ byte, image.range.Holds byte → Covered claims.granted byte := by
  cases initrd with
  | none =>
      obtain ⟨rfl, rfl⟩ := Prog.pure_eq_ok.mp run
      have empty (byte : Nat) : ¬Range.Holds (0, 0) byte := fun held => absurd held.2 (Nat.not_lt_zero byte)
      exact ⟨Backed.kernel, fun covered =>
        ⟨covered, fun byte held => absurd held (empty byte), fun byte _ held => empty byte held⟩⟩
  | some path =>
      obtain ⟨loaded, middle, loads, rest⟩ := Prog.bind_eq_ok.mp run
      cases loadImage_cases plain loads with
      | noLength len => exact absurd rest loadFails_ne_ok
      | noPlace known none => exact absurd rest loadFails_ne_ok
      | noLoad known found above load => exact absurd rest loadFails_ne_ok
      | @loaded len place length found above granted load =>
          obtain ⟨rfl, rfl⟩ := Prog.pure_eq_ok.mp rest
          constructor
          · intro backed byte held
            obtain found | ⟨range, mem, found⟩ := covered_append.mp (backed.kernel byte held)
            · exact found
            · obtain rfl := List.mem_singleton.mp mem
              exact absurd found (backed.apart byte held)
          · intro covered
            refine ⟨fun byte held => covered_append.mpr (.inl (covered byte held)), fun byte held => ?_,
              covered_apart careful known granted covered⟩
            exact covered_append.mpr (.inr ⟨_, List.mem_singleton_self _, held⟩)

/-- Without the work-around a call that succeeds has its kernel and its initrd in
memory of its own exactly when no page of the tail is refused. -/
theorem backed_plain {paths : LoadPaths} {image : LoadState} {after : Claims} (plain : around.workAround = none)
    (careful : Careful around.grant) (run : loadPaths around (.ok paths) (Claims.start used) = .ok image after) :
    Backed image after ↔ Furnished around used paths := by
  rw [loadPaths] at run
  obtain ⟨kernel, middle, loads, rest⟩ := Prog.bind_eq_ok.mp run
  cases loadImage_cases plain loads with
  | noLength len => exact absurd rest loadFails_ne_ok
  | noPlace known none => exact absurd rest loadFails_ne_ok
  | noLoad known found above load => exact absurd rest loadFails_ne_ok
  | @loaded len place known found above granted load =>
      obtain ⟨result, state, attempted, rest⟩ := Prog.bind_eq_ok.mp rest
      obtain ⟨unmoved, rfl, parsed⟩ | ⟨code, rfl, refused⟩ := Prog.attempt_eq_ok.mp attempted
      · obtain ⟨extent, header, rfl, tail⟩ := elfParse_ok parsed
        have held := kernelHeld_iff plain tail
        have state_eq := tail.claimAll plain
        have granted : state.granted = (place, len.toNat) ::
            tailGranted around ((place, len.toNat) :: used) place len.toNat extent := by
          rw [state_eq, claimAll_granted]
          rfl
        have inUse (range : Range) (mem : range ∈ state.granted) : range ∈ state.inUse := by
          rw [granted] at mem
          rw [state_eq, claimAll_inUse]
          obtain rfl | mem := List.mem_cons.mp mem
          · exact List.mem_append_right _ List.mem_cons_self
          · exact List.mem_append_left _ (List.mem_reverse.mpr mem)
        rw [loadInitrd_backed_iff plain careful inUse rest, granted]
        apply held.trans
        constructor
        · intro holds length other extent' known' found' header'
          obtain rfl : len = length := Except.ok.inj (known.symm.trans known')
          obtain rfl : place = other := Option.some.inj (found.symm.trans found')
          obtain rfl : extent = extent' := Except.ok.inj (header.symm.trans header')
          exact holds
        · exact fun furnished => furnished len place extent known found header
      · exact absurd rest loadFails_ne_ok

/-- A kernel that is loaded is one that `elf_parse` accepts. -/
theorem loadPaths_image {paths : LoadPaths} {image : LoadState} {claims after : Claims}
    (run : loadPaths around (.ok paths) claims = .ok image after) : image.textLen ≠ 0 := by
  obtain ⟨kernel, first, -, run⟩ := Prog.bind_eq_ok.mp run
  cases fine : kernel.result with
  | error code =>
      rw [fine] at run
      exact absurd run loadFails_ne_ok
  | ok value =>
      rw [fine] at run
      obtain ⟨parsed, second, parses, run⟩ := Prog.bind_eq_ok.mp run
      obtain ⟨unmoved, rfl, parsed⟩ | ⟨code, rfl, refused⟩ := Prog.attempt_eq_ok.mp parses
      · obtain ⟨extent, header, rfl, -⟩ := elfParse_ok parsed
        obtain rfl := loadInitrd_image run
        exact (elfExtent_ok header).2
      · exact absurd run loadFails_ne_ok

/-- Under a firmware that grants only what is free, a call that succeeds has its
kernel and its initrd in memory of its own exactly when the work-around is off and no
page of the tail is refused. -/
theorem backed_iff {paths : LoadPaths} {image : LoadState} {after : Claims} (careful : Careful around.grant)
    (run : loadPaths around (.ok paths) (Claims.start used) = .ok image after) :
    Backed image after ↔ around.workAround = none ∧ Furnished around used paths := by
  cases flag : around.workAround with
  | none =>
      rw [and_iff_right rfl]
      exact backed_plain flag careful run
  | some calls =>
      refine iff_of_false (fun backed => ?_) (fun furnished => absurd furnished.1 nofun)
      have unclaimed := loadPaths_unclaimed flag (.ok paths) (Claims.start used) after (congrArg Outcome.state? run)
      have granted : after.granted = [] := unclaimed
      have some' : 0 < image.textLen := Nat.pos_of_ne_zero (loadPaths_image run)
      have first : image.range.Holds image.buf :=
        ⟨Nat.le_refl _, Nat.lt_add_of_pos_right (Nat.lt_of_lt_of_le some' (Nat.le_add_left ..))⟩
      obtain ⟨range, mem, -⟩ := backed.kernel _ first
      rw [granted] at mem
      cases mem

end Attempt

/-- A firmware that grants whatever is free. -/
def grantFree (used : List Range) (range : Range) : Bool :=
  used.all fun other => decide (range.1 + range.2 ≤ other.1 ∨ other.1 + other.2 ≤ range.1)

theorem careful_grantFree : Careful grantFree := by
  intro used range granted other mem byte held inside
  have free := List.all_eq_true.mp granted other mem
  rw [decide_eq_true_eq] at free
  have lower : range.1 ≤ byte := held.1
  have upper : byte < range.1 + range.2 := held.2
  have otherLower : other.1 ≤ byte := inside.1
  have otherUpper : byte < other.1 + other.2 := inside.2
  omega

/-- A kernel of 84 bytes, its headers, with a tail of two pages. -/
def headersOnly : Surroundings where
  grant := grantFree
  workAround := none
  files := fun _ => { len := .ok 84, load := .ok () }
  memory := .ofRuns [(0x800000, [0x7F, 69, 76, 70, 1, 2]), (0x80001F, [52]), (0x80002D, [1]), (0x800037, [1]),
    (0x80003B, [84]), (0x80004A, [32])]
  fuel := 3

def tailImage : LoadState where
  buf := 0x800000
  linkedBase := 0
  textOffset := 84
  textLen := 0x2000
  entry := 0

def tailClaims : Claims :=
  (((Claims.start []).claim (0x800000, 84)).claim (0x800054, 0x1000)).claim (0x801054, 0x1000)

theorem headersOnly_run : loadPaths headersOnly (.ok linuxPaths) (Claims.start []) = .ok tailImage tailClaims := by
  have run : (loadPaths headersOnly (.ok linuxPaths) (Claims.start [])).result? = some (tailImage, tailClaims) := by
    decide +kernel
  exact Outcome.result?_eq_some.mp run

theorem backed_iff_headersOnly :
    Backed tailImage tailClaims ↔ headersOnly.workAround = none ∧ Furnished headersOnly [] linuxPaths :=
  backed_iff careful_grantFree headersOnly_run

/-- A page in use behind the kernel is not looked at, and the call succeeds. -/
theorem tail_not_granted :
    ∃ used after, Careful headersOnly.grant ∧
      loadPaths headersOnly (.ok linuxPaths) (Claims.start used) = .ok tailImage after ∧
      tailImage.range.Holds 0x800054 ∧ ¬Covered after.granted 0x800054 ∧ ¬Backed tailImage after := by
  have run : (loadPaths headersOnly (.ok linuxPaths) (Claims.start [(0x801000, 0x1000)])).result? =
      some (tailImage, (Claims.start [(0x801000, 0x1000)]).claim (0x800000, 84)) := by decide +kernel
  have held : tailImage.range.Holds 0x800054 := ⟨by decide, by decide⟩
  have missing : ¬Covered [(0x800000, 84)] 0x800054 := by
    rintro ⟨range, mem, inside⟩
    obtain rfl := List.mem_singleton.mp mem
    exact absurd inside.2 (by decide)
  exact ⟨_, _, careful_grantFree, Outcome.result?_eq_some.mp run, held, missing,
    fun backed => missing (backed.kernel _ held)⟩

end IQuik.Loader
