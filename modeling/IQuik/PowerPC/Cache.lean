import IQuik.PowerPC.Routines
import Mathlib.Data.UInt

namespace IQuik.PowerPC

open IQuik.Program Listing

/-! # `flush_cache` -/

inductive FlushLabel where
  | flushCache
  | line
deriving DecidableEq

/-- `cache.S`. -/
def flushCache : Listing FlushLabel :=
  [(.flushCache, [.addi 4 4 0x1f, .rlwinmRc 4 4 27 5 31, .mtctr 4, .beqlr]),
    (.line, [.dcbf 0 3, .icbi 0 3, .addi 3 3 0x20, .bdnz .line, .sync, .isync, .blr])]

/-- `flush_cache (addr, len)`. -/
def callFlushCache (addr len : Word) (core : Core) : Core := (core.set 3 addr).set 4 len

/-- The line of 32 bytes that an address is in. -/
def line (address : Nat) : Nat := address / 32

/-- A line with a byte of the range in it. -/
def InRange (addr len : Word) (number : Nat) : Prop :=
  ∃ byte, addr.toNat ≤ byte ∧ byte < addr.toNat + len.toNat ∧ line byte = number

/-- Both operations were issued for the line. -/
def Flushed (issued : List CacheOp) (number : Nat) : Prop :=
  (∃ address, .dcbf address ∈ issued ∧ line address.toNat = number) ∧
    ∃ address, .icbi address ∈ issued ∧ line address.toNat = number

/-- `flush_cache` comes back, and every line of the range has been flushed. -/
def Core.FlushesRange (core : Core) (addr len : Word) : Prop :=
  ∃ after issued, flushCache.Returns .flushCache (callFlushCache addr len core) after ∧
    after.cache = core.cache ++ issued ∧ ∀ number, InRange addr len number → Flushed issued number

/-! ## What is issued -/

def lineAt (addr : Word) (i : Nat) : Word := addr + UInt32.ofNat (32 * i)

/-- The operations of the first `count` rounds. -/
def issuedLines (addr : Word) : Nat → List CacheOp
  | 0 => []
  | count + 1 => issuedLines addr count ++ [.dcbf (lineAt addr count), .icbi (lineAt addr count)]

def issuedBy (addr len : Word) : List CacheOp :=
  issuedLines addr ((len.toNat + 31) / 32) ++ if len = 0 then [] else [.sync, .isync]

section Issued

variable {addr address : Word} {core : Core} {count : Nat}

theorem mem_issuedLines {op : CacheOp} : op ∈ issuedLines addr count ↔
    ∃ i < count, op = .dcbf (lineAt addr i) ∨ op = .icbi (lineAt addr i) := by
  induction count with
  | zero => simp [issuedLines]
  | succ count ih =>
      rw [issuedLines, List.mem_append, ih, Nat.exists_lt_succ_right]
      simp only [List.mem_cons, List.not_mem_nil, or_false]

/-- After `done` rounds of the loop. -/
structure LinesIssued (before : List CacheOp) (addr : Word) (done : Nat) (core : Core) : Prop where
  next : core.reg 3 = lineAt addr done
  cache : core.cache = before ++ issuedLines addr done

theorem lineAt_succ (i : Nat) : lineAt addr i + 0x20 = lineAt addr (i + 1) := by
  rw [lineAt, lineAt, Nat.mul_add, UInt32.ofNat_add, UInt32.add_assoc]
  rfl

theorem flushCache_loop {before : List CacheOp} (issued : LinesIssued before addr 0 core) (some' : 0 < count)
    (small : count < 2 ^ 32) (counts : core.ctr = UInt32.ofNat count) :
    Eventually flushCache.step
      (fun run => ∃ final, run = .returned final ∧
        final.cache = before ++ (issuedLines addr count ++ [.sync, .isync]))
      (.running (flushCache.codeAt .line) core) := by
  refine loop (LinesIssued before addr) ?_ ?_ some' counts small issued
  · intro done _ core holds
    obtain ⟨next, cache⟩ := holds
    refine straight rfl (straight rfl (straight rfl (.now ⟨_, rfl, rfl, ?_⟩)))
    constructor
    · exact (congrArg (· + 0x20) next).trans (lineAt_succ done)
    · have both : core.cache ++ [CacheOp.dcbf (0 + core.reg 3)] ++ [.icbi (0 + core.reg 3)] =
          before ++ issuedLines addr (done + 1) := by
        rw [UInt32.zero_add, next, cache]
        simp [issuedLines]
      exact both
  · intro core holds
    obtain ⟨next, cache⟩ := holds
    refine straight rfl (straight rfl (blr ⟨_, rfl, ?_⟩))
    simp [Core.back, Core.apply, Core.issue, cache]

/-- What the loop counts is the length in lines, whatever the address. -/
theorem rotateLeft_lines {len : Word} (small : len.toNat + 31 < 2 ^ 32) :
    rotateLeft (len + 0x1f) 27 &&& mask 5 31 = UInt32.ofNat ((len.toNat + 31) / 32) := by
  have rounded : len + 0x1f = UInt32.ofNat (len.toNat + 31) := by
    rw [UInt32.ofNat_add, UInt32.ofNat_toNat]
    rfl
  rw [rounded]
  exact rotateLeft_ofNat 5 (by decide) (by decide) small

variable (core addr) in
theorem flushCache_run {len : Word} (small : len.toNat + 31 < 2 ^ 32) :
    ∃ after, flushCache.Returns .flushCache (callFlushCache addr len core) after ∧
      after.cache = core.cache ++ issuedBy addr len := by
  apply returns_of_eventually
  let entered := (((callFlushCache addr len core).apply (.addi 4 4 0x1f : Op FlushLabel)).apply
    (.rlwinmRc 4 4 27 5 31 : Op FlushLabel)).apply (.mtctr 4 : Op FlushLabel)
  have counts : entered.ctr = UInt32.ofNat ((len.toNat + 31) / 32) := rotateLeft_lines small
  have equal : entered.eq = decide (UInt32.ofNat ((len.toNat + 31) / 32) = 0) := by
    rw [← rotateLeft_lines small]
    rfl
  have none : UInt32.ofNat ((len.toNat + 31) / 32) = 0 ↔ len = 0 := by
    simp only [← UInt32.toNat_inj, UInt32.toNat_ofNat', UInt32.reduceToNat]
    omega
  refine straight rfl (straight rfl (straight rfl ?_))
  by_cases empty : len = 0
  · refine beqlr_back (equal.trans (decide_eq_true (none.mpr empty))) ⟨_, rfl, ?_⟩
    subst empty
    exact (List.append_nil _).symm
  · refine beqlr_passed (equal.trans (decide_eq_false (mt none.mp empty))) ?_
    have some' : 0 < (len.toNat + 31) / 32 := by
      have positive : len.toNat ≠ 0 := fun zero => empty (UInt32.toNat_inj.mp zero)
      omega
    have first : LinesIssued core.cache addr 0 entered := ⟨(UInt32.add_zero _).symm, (List.append_nil _).symm⟩
    have loop := flushCache_loop first some' (by omega) counts
    simp only [issuedBy, if_neg empty]
    exact loop

end Issued

section Coverage

variable {addr len : Word}

theorem lineAt_line {i : Nat} (inside : addr.toNat + 32 * i < 2 ^ 32) :
    line (lineAt addr i).toNat = line addr.toNat + i := by
  rw [lineAt, UInt32.toNat_add, UInt32.toNat_ofNat']
  simp only [line]
  omega

theorem inRange_iff {number : Nat} : InRange addr len number ↔
    0 < len.toNat ∧ line addr.toNat ≤ number ∧ number ≤ line (addr.toNat + len.toNat - 1) := by
  simp only [InRange, line]
  constructor
  · rintro ⟨byte, low, high, rfl⟩
    omega
  · rintro ⟨some', low, high⟩
    exact ⟨max addr.toNat (32 * number), by omega, by omega, by omega⟩

/-- The lines from that of `addr` on reach as far as the range does. -/
theorem covered_iff (fits : addr.toNat + len.toNat < 2 ^ 32 - 32) :
    (∀ number, InRange addr len number →
      ∃ i < (len.toNat + 31) / 32, line (lineAt addr i).toNat = number) ↔
    len = 0 ∨ addr.toNat % 32 + (len.toNat - 1) % 32 < 32 := by
  have lines {i : Nat} (early : i < (len.toNat + 31) / 32) : line (lineAt addr i).toNat = line addr.toNat + i :=
    lineAt_line (by omega)
  have empty : len = 0 ↔ len.toNat = 0 := by simp [← UInt32.toNat_inj]
  rw [empty]
  constructor
  · intro covered
    by_contra short
    obtain ⟨i, early, last⟩ := covered (line (addr.toNat + len.toNat - 1))
      (inRange_iff.mpr (by simp only [line]; omega))
    rw [lines early] at last
    simp only [line] at last
    omega
  · intro reaches number inside
    obtain ⟨some', low, high⟩ := inRange_iff.mp inside
    have early : number - line addr.toNat < (len.toNat + 31) / 32 := by
      simp only [line] at *
      omega
    refine ⟨number - line addr.toNat, early, ?_⟩
    rw [lines early]
    omega

end Coverage

theorem flushesRange_lines (core : Core) {addr len : Word} (small : len.toNat + 31 < 2 ^ 32) :
    core.FlushesRange addr len ↔ ∀ number, InRange addr len number →
      ∃ i < (len.toNat + 31) / 32, line (lineAt addr i).toNat = number := by
  have flushed (number : Nat) : Flushed (issuedBy addr len) number ↔
      ∃ i < (len.toNat + 31) / 32, line (lineAt addr i).toNat = number := by
    simp only [Flushed, issuedBy, List.mem_append, mem_issuedLines]
    split <;> grind
  obtain ⟨after, returns, cache⟩ := flushCache_run addr core small
  constructor
  · rintro ⟨other, issued, returned, appended, covers⟩ number inside
    rw [← returns.unique returned, cache] at appended
    rw [← flushed, List.append_cancel_left appended]
    exact covers number inside
  · exact fun covers => ⟨after, issuedBy addr len, returns, cache, fun number inside =>
      (flushed number).mpr (covers number inside)⟩

/-- Every line of the range is flushed exactly when the range has no more lines
than its length alone accounts for. -/
theorem flushesRange_iff (core : Core) {addr len : Word} (fits : addr.toNat + len.toNat < 2 ^ 32 - 32) :
    core.FlushesRange addr len ↔ len = 0 ∨ addr.toNat % 32 + (len.toNat - 1) % 32 < 32 :=
  (flushesRange_lines core (by omega)).trans (covered_iff fits)

theorem flushesRange_aligned : Core.idle.FlushesRange 0x800100 0x64 :=
  (flushesRange_iff Core.idle (by decide)).mpr (.inr (by decide))

/-- A kernel of 32 bytes at the offset `0x54` of a file at `0x800000`: of its two
lines the second one is not flushed. -/
theorem not_flushesRange : ¬ ∀ (core : Core) (addr len : Word), addr.toNat + len.toNat < 2 ^ 32 - 32 →
    core.FlushesRange addr len := by
  intro claimed
  have covered := (flushesRange_lines Core.idle (by decide)).mp (claimed Core.idle 0x800054 0x20 (by decide))
  have reaches := (covered_iff (by decide)).mp covered
  revert reaches
  decide

end IQuik.PowerPC
