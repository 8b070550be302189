import IQuik.Loader.WorkAround
import Mathlib.Data.List.Perm.Basic

namespace IQuik.Loader

open IQuik.Data IQuik.Program

/-! # What a failed attempt gives back -/

section Claiming

variable {around : Surroundings}

/-- `prom_claim` without the work-around. -/
theorem promClaim_run (plain : around.workAround = none) (virt size : Nat) (claims : Claims) :
    promClaim around virt size claims =
      if around.grant claims.inUse (virt, size) then .ok virt (claims.claim (virt, size))
      else .ok badAddress claims := by
  rw [promClaim, Prog.view_bind, plain]
  dsimp only
  split <;> rfl

theorem promRelease_run (plain : around.workAround = none) (virt size : Nat) (claims : Claims) :
    promRelease around virt size claims = .ok ⟨⟩ (claims.release (virt, size)) := by
  rw [promRelease, if_neg (by rw [plain]; decide)]
  rfl

variable (around) in
/-- The first place from `addr` on that is granted, in steps of a megabyte. -/
def firstGranted (used : List Range) (size : Nat) : (fuel : Nat) → (addr : Nat) → Option Nat
  | 0, _ => none
  | fuel + 1, addr =>
      if addr ≤ promClaimMaxAddr then
        if around.grant used (addr, size) then some addr
        else firstGranted used size fuel (wrap (addr + size1M))
      else none

/-- What `prom_claim_chunk` can do. -/
theorem claimFrom_cases {size fuel addr place : Nat} {claims after : Claims} (plain : around.workAround = none)
    (run : claimFrom around size fuel addr claims = .ok place after) :
    (firstGranted around claims.inUse size fuel addr = none ∧ place = badAddress ∧ after = claims) ∨
      (firstGranted around claims.inUse size fuel addr = some place ∧ addr ≤ place ∧
        place ≤ promClaimMaxAddr ∧ around.grant claims.inUse (place, size) = true ∧
        after = claims.claim (place, size)) := by
  induction fuel generalizing addr with
  | zero => cases run
  | succ fuel ih =>
      rw [claimFrom] at run
      rw [firstGranted]
      by_cases inside : addr ≤ promClaimMaxAddr
      · have known : addr ≤ 0x10000000 := inside
        rw [if_pos inside] at run ⊢
        by_cases granted : around.grant claims.inUse (addr, size) = true
        · have good : addr ≠ badAddress := by
            intro same
            rw [same] at known
            exact absurd known (by decide)
          rw [Prog.bind_run_ok ((promClaim_run plain addr size claims).trans (if_pos granted)), if_pos good] at run
          obtain ⟨rfl, rfl⟩ := Prog.pure_eq_ok.mp run
          rw [if_pos granted]
          exact .inr ⟨rfl, Nat.le_refl _, inside, granted, rfl⟩
        · rw [Prog.bind_run_ok ((promClaim_run plain addr size claims).trans (if_neg granted)),
            if_neg (by simp)] at run
          rw [if_neg granted]
          have next : wrap (addr + size1M) = addr + 0x100000 :=
            Nat.mod_eq_of_lt (show addr + 0x100000 < 0x100000000 by omega)
          obtain none' | ⟨found, above, rest⟩ := ih run
          · exact .inl none'
          · rw [next] at above
            exact .inr ⟨found, by omega, rest⟩
      · rw [if_neg inside] at run ⊢
        obtain ⟨rfl, rfl⟩ := Prog.pure_eq_ok.mp run
        exact .inl ⟨rfl, rfl, rfl⟩

variable (around) in
/-- The pages that a loop of `prom_ensure_claimed` is granted. -/
def pagesGranted (limit : Nat) : (fuel : Nat) → (used : List Range) → (addr : Nat) → List Range
  | 0, _, _ => []
  | fuel + 1, used, addr =>
      if addr < limit then
        if around.grant used (addr, size4K) then
          (addr, size4K) :: pagesGranted limit fuel ((addr, size4K) :: used) (wrap (addr + size4K))
        else pagesGranted limit fuel used (wrap (addr + size4K))
      else []

def Claims.claimAll (claims : Claims) (ranges : List Range) : Claims := ranges.foldl Claims.claim claims

theorem ensureFrom_cases {limit fuel addr : Nat} {claims after : Claims} (plain : around.workAround = none)
    (run : ensureFrom around limit fuel addr claims = .ok ⟨⟩ after) :
    after = claims.claimAll (pagesGranted around limit fuel claims.inUse addr) := by
  induction fuel generalizing addr claims with
  | zero => cases run
  | succ fuel ih =>
      rw [ensureFrom] at run
      rw [pagesGranted]
      split at run
      · rw [if_pos ‹_›]
        by_cases granted : around.grant claims.inUse (addr, size4K) = true
        · rw [Prog.bind_run_ok ((promClaim_run plain addr size4K claims).trans (if_pos granted))] at run
          rw [if_pos granted]
          exact ih run
        · rw [Prog.bind_run_ok ((promClaim_run plain addr size4K claims).trans (if_neg granted))] at run
          rw [if_neg granted]
          exact ih run
      · rw [if_neg ‹_›]
        exact (Prog.pure_eq_ok.mp run).2

theorem ensureFrom_not_error {limit fuel addr : Nat} {claims after : Claims} {code : QuikErr} :
    ensureFrom around limit fuel addr claims ≠ .error code after := by
  induction fuel generalizing addr claims with
  | zero =>
      intro run
      cases run
  | succ fuel ih =>
      intro run
      rw [ensureFrom] at run
      split at run
      · obtain ⟨found, middle, claimed⟩ := promClaim_ok around addr size4K claims
        rw [Prog.bind_run_ok claimed] at run
        exact ih run
      · cases run

theorem claimAll_inUse (claims : Claims) (ranges : List Range) :
    (claims.claimAll ranges).inUse = ranges.reverse ++ claims.inUse := by
  induction ranges generalizing claims with
  | nil => rfl
  | cons range ranges ih =>
      rw [Claims.claimAll, List.foldl_cons, ← Claims.claimAll, ih]
      simp [Claims.claim]

theorem claimAll_granted (claims : Claims) (ranges : List Range) :
    (claims.claimAll ranges).granted = claims.granted ++ ranges := by
  induction ranges generalizing claims with
  | nil => simp [Claims.claimAll]
  | cons range ranges ih =>
      rw [Claims.claimAll, List.foldl_cons, ← Claims.claimAll, ih]
      simp [Claims.claim]

theorem claimAll_released (claims : Claims) (ranges : List Range) :
    (claims.claimAll ranges).released = claims.released := by
  induction ranges generalizing claims with
  | nil => rfl
  | cons range ranges ih =>
      rw [Claims.claimAll, List.foldl_cons, ← Claims.claimAll, ih]
      rfl

variable (around) in
/-- The pages granted behind a kernel of `len` bytes at `place`. -/
def tailGranted (used : List Range) (place len : Nat) (extent : Extent) : List Range :=
  if len < extent.len + extent.off then
    pagesGranted around (wrap (place + (extent.len + extent.off))) around.fuel used (wrap (place + len))
  else []

variable (around) in
/-- The claims behind a kernel of `len` bytes at `place`, when there are any. -/
def ClaimsTail (place len : Nat) (extent : Extent) (claims after : Claims) : Prop :=
  (extent.len + extent.off ≤ len ∧ after = claims) ∨
    (len < extent.len + extent.off ∧
      ensureFrom around (wrap (place + (extent.len + extent.off))) around.fuel (wrap (place + len)) claims =
        .ok ⟨⟩ after)

/-- The pages end where the image does, however large it is. -/
theorem promEnsureClaimed_tail {place len needed : Nat} (longer : len < needed) :
    promEnsureClaimed around (wrap (place + len)) (wrap (needed - len)) =
      ensureFrom around (wrap (place + needed)) around.fuel (wrap (place + len)) := by
  have limit : wrap (wrap (place + len) + wrap (needed - len)) = wrap (place + needed) := by
    rw [wrap, wrap, wrap, wrap]
    omega
  rw [promEnsureClaimed, limit]

theorem ClaimsTail.claimAll {place len : Nat} {extent : Extent} {claims after : Claims}
    (plain : around.workAround = none) (tail : ClaimsTail around place len extent claims after) :
    after = claims.claimAll (tailGranted around claims.inUse place len extent) := by
  rw [tailGranted]
  obtain ⟨short, rfl⟩ | ⟨long, claimed⟩ := tail
  · rw [if_neg (Nat.not_lt.mpr short)]
    rfl
  · rw [if_pos long]
    exact ensureFrom_cases plain claimed

/-- `elf_parse` when it likes the header. -/
theorem elfParse_ok {place len : Nat} {claims after : Claims} {image : LoadState}
    (run : elfParse around place len claims = .ok image after) :
    ∃ extent, elfExtent around.memory place = .ok extent ∧
      image = { buf := place, linkedBase := extent.linkedBase, textOffset := extent.off,
                textLen := extent.len, entry := addrMask (around.memory.be32 (place + 24)) } ∧
      ClaimsTail around place len extent claims after := by
  rw [elfParse] at run
  cases header : elfExtent around.memory place with
  | error code =>
      rw [header] at run
      cases run
  | ok extent =>
      rw [header] at run
      dsimp only at run
      refine ⟨extent, rfl, ?_⟩
      by_cases more : len < extent.len + extent.off
      · rw [if_pos more, promEnsureClaimed_tail more] at run
        obtain ⟨_, middle, claimed, rest⟩ := Prog.bind_eq_ok.mp run
        obtain ⟨rfl, rfl⟩ := Prog.pure_eq_ok.mp rest
        exact ⟨rfl, .inr ⟨more, claimed⟩⟩
      · rw [if_neg more] at run
        obtain ⟨rfl, rfl⟩ := Prog.pure_eq_ok.mp run
        exact ⟨rfl, .inl ⟨Nat.le_of_not_lt more, rfl⟩⟩

theorem elfParse_error {place len : Nat} {claims after : Claims} {code : QuikErr}
    (run : elfParse around place len claims = .error code after) :
    elfExtent around.memory place = .error code ∧ after = claims := by
  rw [elfParse] at run
  cases header : elfExtent around.memory place with
  | error reason =>
      rw [header] at run
      cases run
      exact ⟨rfl, rfl⟩
  | ok extent =>
      rw [header] at run
      dsimp only at run
      split at run
      · obtain failed | ⟨_, middle, -, rest⟩ := Prog.bind_eq_error.mp run
        · exact absurd failed ensureFrom_not_error
        · cases rest
      · cases run

/-- What `elf_parse` can do. -/
theorem elfParse_cases {place len : Nat} {claims after : Claims} (plain : around.workAround = none)
    {result : Except QuikErr LoadState}
    (run : Prog.attempt (elfParse around place len) claims = .ok result after) :
    (∃ code, elfExtent around.memory place = .error code ∧ result = .error code ∧ after = claims) ∨
      ∃ extent, elfExtent around.memory place = .ok extent ∧
        result = .ok { buf := place, linkedBase := extent.linkedBase, textOffset := extent.off,
                       textLen := extent.len,
                       entry := addrMask (around.memory.be32 (place + 24)) } ∧
        after = claims.claimAll (tailGranted around claims.inUse place len extent) := by
  obtain ⟨image, rfl, parsed⟩ | ⟨code, rfl, refused⟩ := Prog.attempt_eq_ok.mp run
  · obtain ⟨extent, header, rfl, tail⟩ := elfParse_ok parsed
    exact .inr ⟨extent, header, rfl, tail.claimAll plain⟩
  · obtain ⟨header, rfl⟩ := elfParse_error refused
    exact .inl ⟨code, header, rfl, rfl⟩

/-- What `load_image` can do without the work-around. -/
inductive Loads (around : Surroundings) (file : File) (start : Nat) (claims : Claims) : Loaded → Claims → Prop
  | noLength {code : QuikErr} (len : file.len = .error code) :
      Loads around file start claims { result := .error code, place := start, len := 0 } claims
  | noPlace {len : UInt32} (known : file.len = .ok len)
      (none : firstGranted around claims.inUse len.toNat around.fuel (alignUp start size1M) = none) :
      Loads around file start claims { result := .error .noMem, place := badAddress, len := len.toNat } claims
  | noLoad {len : UInt32} {place : Nat} {code : QuikErr} (known : file.len = .ok len)
      (found : firstGranted around claims.inUse len.toNat around.fuel (alignUp start size1M) = some place)
      (above : alignUp start size1M ≤ place) (load : file.load = .error code) :
      Loads around file start claims { result := .error code, place := place, len := len.toNat }
        ((claims.claim (place, len.toNat)).release (place, len.toNat))
  | loaded {len : UInt32} {place : Nat} (known : file.len = .ok len)
      (found : firstGranted around claims.inUse len.toNat around.fuel (alignUp start size1M) = some place)
      (above : alignUp start size1M ≤ place) (granted : around.grant claims.inUse (place, len.toNat) = true)
      (load : file.load = .ok ()) :
      Loads around file start claims { result := .ok (), place := place, len := len.toNat }
        (claims.claim (place, len.toNat))

theorem loadImage_cases {file : File} {start : Nat} {claims after : Claims} {loaded : Loaded}
    (plain : around.workAround = none) (run : loadImage around file start claims = .ok loaded after) :
    Loads around file start claims loaded after := by
  rw [loadImage] at run
  cases known : file.len with
  | error code =>
      rw [known] at run
      obtain ⟨rfl, rfl⟩ := Prog.pure_eq_ok.mp run
      exact .noLength known
  | ok len =>
      rw [known] at run
      dsimp only at run
      obtain ⟨place, middle, claimed, rest⟩ := Prog.bind_eq_ok.mp run
      obtain ⟨none, rfl, rfl⟩ | ⟨found, above, inside, granted, rfl⟩ := claimFrom_cases plain claimed
      · rw [if_pos rfl] at rest
        obtain ⟨rfl, rfl⟩ := Prog.pure_eq_ok.mp rest
        exact .noPlace known none
      · have good : place ≠ badAddress := by
          rintro rfl
          exact absurd inside (by decide)
        rw [if_neg good] at rest
        cases load : file.load with
        | ok =>
            rw [load] at rest
            obtain ⟨rfl, rfl⟩ := Prog.pure_eq_ok.mp rest
            exact .loaded known found above granted load
        | error code =>
            rw [load] at rest
            dsimp only at rest
            rw [Prog.bind_run_ok (promRelease_run plain place len.toNat _)] at rest
            cases rest
            exact .noLoad known found above load

end Claiming

/-! ## Errors -/

/-- What was granted during a call was released, each range as often as it was
granted and nothing else, and the ranges in use are those before the call. -/
def Undone (used : List Range) (after : Claims) : Prop :=
  after.released.Perm after.granted ∧ after.inUse.Perm used

/-- No paths are found, or the kernel gets as far as `elf_parse` without the
work-around, and that refuses it or is granted no page behind it. -/
def GivesBack (around : Surroundings) (used : List Range) : Except QuikErr LoadPaths → Prop
  | .error _ => True
  | .ok paths => around.workAround = none ∧ ∃ len place, (around.files paths.kernel).len = .ok len ∧
      firstGranted around used len.toNat around.fuel (alignUp loadBase size1M) = some place ∧
      (around.files paths.kernel).load = .ok () ∧
      ∀ extent, elfExtent around.memory place = .ok extent →
        tailGranted around ((place, len.toNat) :: used) place len.toNat extent = []

section Errors

variable {around : Surroundings} {used : List Range} {claims after : Claims} {code : QuikErr}

theorem loadFails_run {kernel : Loaded} (plain : around.workAround = none) (place : kernel.place ≠ 0)
    {reason : QuikErr} (run : loadFails around kernel reason claims = .error code after) :
    after = claims.release (kernel.place, kernel.len) := by
  rw [loadFails, if_pos place, Prog.bind_run_ok (promRelease_run plain _ _ _)] at run
  cases run
  rfl

/-- With more pages granted than released the call is not undone. -/
theorem not_undone (more : after.granted.length ≠ after.released.length) : ¬Undone used after :=
  fun ⟨same, _⟩ => more same.length_eq.symm

/-- A kernel whose initrd fails. -/
theorem loadInitrd_undone_iff {kernel : Loaded} {image : LoadState} {tail : List Range} {initrd : Option FsPath}
    (plain : around.workAround = none) (place : kernel.place ≠ 0)
    (run : loadInitrd around kernel image initrd
      (((Claims.start used).claim (kernel.place, kernel.len)).claimAll tail) = .error code after) :
    Undone used after ↔ tail = [] := by
  cases initrd with
  | none => cases run
  | some path =>
      obtain failed | ⟨loaded, middle, loads, rest⟩ := Prog.bind_eq_error.mp run
      · exact absurd failed loadImage_not_error
      obtain ⟨granted, released, inUse⟩ :=
        And.intro (claimAll_granted ((Claims.start used).claim (kernel.place, kernel.len)) tail)
          (And.intro (claimAll_released ((Claims.start used).claim (kernel.place, kernel.len)) tail)
            (claimAll_inUse ((Claims.start used).claim (kernel.place, kernel.len)) tail))
      generalize ((Claims.start used).claim (kernel.place, kernel.len)).claimAll tail = claims at *
      have kernelOnly : after = claims.release (kernel.place, kernel.len) → (Undone used after ↔ tail = []) := by
        rintro rfl
        rw [Undone, Claims.release, released, granted, inUse]
        constructor
        · rintro ⟨same, -⟩
          have lengths := same.length_eq
          simp only [Claims.start, Claims.claim, List.nil_append, List.cons_append, List.length_cons,
            List.length_nil] at lengths
          exact List.length_eq_zero_iff.mp (by omega)
        · rintro rfl
          simp [Claims.start, Claims.claim]
      cases loadImage_cases plain loads with
      | noLength len => exact kernelOnly (loadFails_run plain place rest)
      | noPlace known none => exact kernelOnly (loadFails_run plain place rest)
      | loaded known found above granted load => cases rest
      | noLoad known found above load =>
          rw [loadFails_run plain place rest]
          simp only [Undone, Claims.release, Claims.claim, released, granted, inUse]
          constructor
          · rintro ⟨same, -⟩
            have lengths := same.length_eq
            simp only [Claims.start, List.nil_append, List.cons_append, List.length_cons,
              List.length_nil, List.length_append] at lengths
            exact List.length_eq_zero_iff.mp (by omega)
          · rintro rfl
            simp [Claims.start, List.Perm.swap]

/-- Among the calls that fail without the work-around, those are undone in which
nothing fails but `elf_parse` or, without a page granted behind the kernel, the
initrd. -/
theorem undone_plain {paths : LoadPaths} (plain : around.workAround = none)
    (run : loadPaths around (.ok paths) (Claims.start used) = .error code after) :
    Undone used after ↔ GivesBack around used (.ok paths) := by
  rw [GivesBack, and_iff_right plain]
  rw [loadPaths] at run
  obtain failed | ⟨kernel, middle, loads, rest⟩ := Prog.bind_eq_error.mp run
  · exact absurd failed loadImage_not_error
  cases loadImage_cases plain loads with
  | noLength len =>
      rw [loadFails_run plain (show loadBase ≠ 0 by decide) rest]
      refine iff_of_false (not_undone (by simp [Claims.release, Claims.start])) ?_
      rintro ⟨length, -, known, -⟩
      rw [len] at known
      cases known
  | noPlace known none =>
      rw [loadFails_run plain (show badAddress ≠ 0 by decide) rest]
      refine iff_of_false (not_undone (by simp [Claims.release, Claims.start])) ?_
      rintro ⟨length, place, known', found, -⟩
      rw [known] at known'
      cases known'
      exact absurd (none.symm.trans found) (by simp)
  | noLoad known found above load =>
      rw [loadFails_run plain (place_ne_zero above) rest]
      refine iff_of_false (not_undone (by simp [Claims.release, Claims.claim, Claims.start])) ?_
      rintro ⟨length, place, -, -, load', -⟩
      rw [load] at load'
      cases load'
  | @loaded len place known found above granted load =>
      obtain failed | ⟨image, state, parsed, rest⟩ := Prog.bind_eq_error.mp rest
      · exact absurd failed attempt_not_error
      have sameKernel : (∃ len place, (around.files paths.kernel).len = .ok len ∧
          firstGranted around used len.toNat around.fuel (alignUp loadBase size1M) = some place ∧
          (around.files paths.kernel).load = .ok () ∧
          ∀ extent, elfExtent around.memory place = .ok extent →
            tailGranted around ((place, len.toNat) :: used) place len.toNat extent = []) ↔ ∀ extent,
          elfExtent around.memory place = .ok extent →
            tailGranted around ((place, len.toNat) :: used) place len.toNat extent = [] := by
        constructor
        · rintro ⟨len', place', known', found', -, quiet⟩
          obtain rfl : len = len' := Except.ok.inj (known.symm.trans known')
          obtain rfl : place = place' := Option.some.inj (found.symm.trans found')
          exact quiet
        · exact fun quiet => ⟨len, place, known, found, load, quiet⟩
      rw [sameKernel]
      obtain ⟨code', header, rfl, rfl⟩ | ⟨extent, header, rfl, rfl⟩ := elfParse_cases plain parsed
      · rw [loadFails_run plain (place_ne_zero above) rest]
        refine iff_of_true ?_ fun extent found => ?_
        · simp [Undone, Claims.release, Claims.claim, Claims.start]
        · rw [header] at found
          cases found
      · rw [loadInitrd_undone_iff plain (place_ne_zero above) rest]
        constructor
        · intro empty other found
          obtain rfl : extent = other := Except.ok.inj (header.symm.trans found)
          exact empty
        · exact fun quiet => quiet extent header

/-- A call that fails is undone exactly where it gives back. -/
theorem undone_iff {paths : Except QuikErr LoadPaths}
    (run : loadPaths around paths (Claims.start used) = .error code after) :
    Undone used after ↔ GivesBack around used paths := by
  cases paths with
  | error reason =>
      cases run
      exact iff_of_true ⟨.refl _, .refl _⟩ trivial
  | ok paths =>
      cases flag : around.workAround with
      | none => exact undone_plain flag run
      | some calls =>
          refine iff_of_false (fun undone => ?_) fun gives => ?_
          · have unclaimed := loadPaths_unclaimed flag (.ok paths) (Claims.start used) after (congrArg Outcome.state? run)
            have granted : after.granted = [] := unclaimed
            exact loadPaths_releases flag run (List.perm_nil.mp (granted ▸ undone.1))
          · exact absurd (flag.symm.trans gives.1) nofun

end Errors

/-- Every range is granted, the kernel has five bytes and the memory is zero. -/
def zeroKernel (load : Except QuikErr Unit) : Surroundings where
  grant := fun _ _ => true
  workAround := none
  files := fun _ => { len := .ok 5, load := load }
  memory := fun _ => 0
  fuel := 1

theorem zeroKernel_run :
    loadPaths (zeroKernel (.ok ())) (.ok linuxPaths) (Claims.start []) =
      .error .elfNot (((Claims.start []).claim (loadBase, 5)).release (loadBase, 5)) :=
  Outcome.eq_error (by decide +kernel) (by decide +kernel)

theorem undone_iff_elfNot :
    Undone [] (((Claims.start []).claim (loadBase, 5)).release (loadBase, 5)) ↔
      GivesBack (zeroKernel (.ok ())) [] (.ok linuxPaths) :=
  undone_iff zeroKernel_run

/-- A kernel that is read short is released twice. -/
theorem released_twice :
    ∃ after, loadPaths (zeroKernel (.error .devShortRead)) (.ok linuxPaths) (Claims.start []) =
        .error .devShortRead after ∧
      after.granted = [(loadBase, 5)] ∧ after.released = [(loadBase, 5), (loadBase, 5)] ∧
      ¬Undone [] after := by
  refine ⟨(((Claims.start []).claim (loadBase, 5)).release (loadBase, 5)).release (loadBase, 5),
    Outcome.eq_error (by decide +kernel) (by decide +kernel), rfl, rfl, not_undone (by decide)⟩

end IQuik.Loader
