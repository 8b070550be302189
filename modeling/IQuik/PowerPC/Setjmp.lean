import IQuik.PowerPC.Movement
import Mathlib.Algebra.Ring.Nat

namespace IQuik.PowerPC

/-! # `setjmp` and `longjmp` -/

/-- `setjmp` of `setjmp.S`. -/
def setjmp : List Instr :=
  [.mflr 0, .stw 1 0 3, .stw 0 4 3, .stw 14 8 3, .stw 15 12 3, .stw 16 16 3, .stw 17 20 3,
    .stw 18 24 3, .stw 19 28 3, .stw 20 32 3, .stw 21 36 3, .stw 22 40 3, .stw 23 44 3,
    .stw 24 48 3, .stw 25 52 3, .stw 26 56 3, .stw 27 60 3, .stw 28 64 3, .stw 29 68 3,
    .stw 30 72 3, .stw 31 76 3, .li 3 0, .blr]

/-- `longjmp` of `setjmp.S`. -/
def longjmp : List Instr :=
  [.cmpwi 4 0, .bne 1, .li 4 1, .lwz 1 0 3, .lwz 0 4 3, .lwz 14 8 3, .lwz 15 12 3,
    .lwz 16 16 3, .lwz 17 20 3, .lwz 18 24 3, .lwz 19 28 3, .lwz 20 32 3, .lwz 21 36 3,
    .lwz 22 40 3, .lwz 23 44 3, .lwz 24 48 3, .lwz 25 52 3, .lwz 26 56 3, .lwz 27 60 3,
    .lwz 28 64 3, .lwz 29 68 3, .lwz 30 72 3, .lwz 31 86 3, .mtlr 0, .mr 3 4, .blr]

/-- `sizeof (jmp_buf)`. -/
def jmpBufSize : Word := 80

/-- The copy a caller makes of the struct at `source`. -/
def Memory.copyStruct (mem : Memory) (target source : Word) : Memory := fun at' =>
  if at' - target < jmpBufSize then mem (source + (at' - target)) else mem at'

/-- `setjmp (env)` in `cfg_parse`: the argument is a struct, so that `setjmp`
gets the address of a copy of it. -/
def callSetjmp (env copy ret : Word) (cpu : Cpu) : Option Cpu :=
  run 0 setjmp
    { cpu with
      reg := Function.update cpu.reg 3 copy
      lr := ret
      mem := cpu.mem.copyStruct copy env }

/-- `longjmp (env, val)` in `cfg_error`. -/
def callLongjmp (env copy ret val : Word) (cpu : Cpu) : Option Cpu :=
  run 0 longjmp
    { cpu with
      reg := Function.update (Function.update cpu.reg 3 copy) 4 val
      lr := ret
      mem := cpu.mem.copyStruct copy env }

/-- The slots in which `setjmp` and `longjmp` agree; the second one is that of
`lr`, by way of `r0`. -/
def slots : List (Reg × Word) :=
  [(1, 0), (0, 4), (14, 8), (15, 12), (16, 16), (17, 20), (18, 24), (19, 28), (20, 32),
    (21, 36), (22, 40), (23, 44), (24, 48), (25, 52), (26, 56), (27, 60), (28, 64),
    (29, 68), (30, 72)]

/-- `longjmp` reads `r31` from another offset than `setjmp` stored it at. -/
theorem longjmp_eq : longjmp =
    [.cmpwi 4 0, .bne 1, .li 4 1] ++ (loads (slots ++ [(31, 86)]) 3 ++ [.mtlr 0, .mr 3 4, .blr]) := rfl

/-! # What the calls do -/

variable {mem : Memory} {env copy ret val : Word} {cpu : Cpu}

theorem add_inside {d i : Word} (slot : d ≤ 76) (byte : i < 4) : d + i < jmpBufSize := by
  simp only [jmpBufSize, UInt32.lt_iff_toNat_lt, UInt32.le_iff_toNat_le, UInt32.toNat_add] at *
  have : (76 : Word).toNat = 76 ∧ (4 : Word).toNat = 4 ∧ (80 : Word).toNat = 80 := by decide
  omega

theorem copyStruct_inside {i : Word} (inside : i < jmpBufSize) :
    mem.copyStruct copy env (copy + i) = mem (env + i) := by
  have offset : copy + i - copy = i := by grind
  simp only [Memory.copyStruct, offset, if_pos inside]

theorem copyStruct_outside {i : Word} (outside : ¬ i < jmpBufSize) :
    mem.copyStruct copy env (copy + i) = mem (copy + i) := by
  have offset : copy + i - copy = i := by grind
  simp only [Memory.copyStruct, offset, if_neg outside]

theorem word_inside {d : Word} (slot : d ≤ 76) :
    (mem.copyStruct copy env).word (copy + d) = mem.word (env + d) := by
  apply word_congr
  intro c small
  rw [place, place, UInt32.add_assoc, UInt32.add_assoc]
  exact copyStruct_inside (add_inside slot ((ofNat_lt (by omega) (by decide)).mpr small))

/-- The bytes at offset 86 are not part of the copy. -/
theorem word_behind : (mem.copyStruct copy env).word (copy + 86) = mem.word (copy + 86) := by
  have outside : ∀ c < 4, ¬ 86 + UInt32.ofNat c < jmpBufSize := by decide
  apply word_congr
  intro c small
  rw [place, UInt32.add_assoc]
  exact copyStruct_outside (outside c small)

/-- The copy and the struct share no byte. -/
def Separate (copy env : Word) : Prop :=
  ∀ i j : Word, i < jmpBufSize → j < jmpBufSize → copy + i ≠ env + j

theorem copyStruct_separate (separate : Separate copy env) {j : Word} (inside : j < jmpBufSize) :
    mem.copyStruct copy env (env + j) = mem (env + j) := by
  have outside : ¬ env + j - copy < jmpBufSize := fun small =>
    separate (env + j - copy) j small inside (by grind)
  simp only [Memory.copyStruct, if_neg outside]

variable (ret cpu) in
/-- `setjmp` comes back, and has written to the copy only. -/
theorem callSetjmp_run (separate : Separate copy env) : ∃ back, callSetjmp env copy ret cpu = some back ∧
    back.pc = ret &&& 0xFFFFFFFC ∧
    ∀ j, j < jmpBufSize → back.mem (env + j) = cpu.mem (env + j) := by
  let entry : Cpu :=
    { cpu with
      reg := Function.update cpu.reg 3 copy
      lr := ret
      mem := cpu.mem.copyStruct copy env }
  let stored := entry.step (.mflr 0)
  have run : callSetjmp env copy ret cpu =
      run 0 (stores (slots ++ [(31, 76)]) 3 ++ [.li 3 0, .blr]) stored := rfl
  rw [run, run_stores]
  refine ⟨_, rfl, rfl, fun j inside => ?_⟩
  have place (d : Word) : stored.address d 3 = copy + d := rfl
  have outside : ∀ slot ∈ slots ++ [(31, 76)], ∀ i : Word, i < 4 →
      env + j ≠ stored.address slot.2 3 + i := by
    intro slot member i small
    have low : ∀ slot ∈ slots ++ [(31, 76)], slot.2 ≤ 76 := forall_of_all (by decide)
    rw [place, UInt32.add_assoc]
    exact (separate _ j (add_inside (low slot member) small) inside).symm
  exact (stores_frame outside).trans (copyStruct_separate separate inside)

variable (env copy ret val cpu) in
/-- `longjmp` comes back with what it found in the copy, and behind it. -/
theorem callLongjmp_run : ∃ final, callLongjmp env copy ret val cpu = some final ∧
    final.pc = cpu.mem.word (env + 4) &&& 0xFFFFFFFC ∧
    final.lr = cpu.mem.word (env + 4) ∧
    (∀ slot ∈ slots, slot.1 ≠ 0 → final.reg slot.1 = cpu.mem.word (env + slot.2)) ∧
    final.reg 31 = cpu.mem.word (copy + 86) ∧
    final.reg 3 = if val = 0 then 1 else val := by
  -- the registers when the loads start
  let ready : Cpu :=
    { cpu with
      reg := Function.update (Function.update cpu.reg 3 copy) 4 (if val = 0 then 1 else val)
      lr := ret
      eq := val = 0
      mem := cpu.mem.copyStruct copy env }
  have start : callLongjmp env copy ret val cpu =
      run 0 (loads (slots ++ [(31, 86)]) 3 ++ [.mtlr 0, .mr 3 4, .blr]) ready := by
    by_cases zero : val = 0
    · simp [callLongjmp, longjmp_eq, ready, zero, run, Cpu.step, Cpu.set]
    · simp [callLongjmp, longjmp_eq, ready, zero, run, Cpu.step]
  have place (d : Word) : ready.address d 3 = copy + d := rfl
  have nodup : ((slots ++ [(31, 86)]).map Prod.fst).Nodup := by decide
  have notBase : ∀ slot ∈ slots ++ [(31, 86)], slot.1 ≠ 3 := forall_of_all (by decide)
  have notCode : ∀ slot ∈ slots ++ [(31, 86)], slot.1 ≠ 4 := forall_of_all (by decide)
  obtain ⟨loaded, restored⟩ : ∃ loaded, loaded = ready.restored (slots ++ [(31, 86)]) 3 := ⟨_, rfl⟩
  have slot (r : Reg) (d : Word) (member : (r, d) ∈ slots ++ [(31, 86)]) :
      loaded.reg r = (cpu.mem.copyStruct copy env).word (copy + d) := by
    rw [restored]
    exact restored_slot ready nodup notBase member
  have common (r : Reg) (d : Word) (member : (r, d) ∈ slots) : loaded.reg r = cpu.mem.word (env + d) := by
    have low : ∀ slot ∈ slots, slot.2 ≤ 76 := forall_of_all (by decide)
    rw [slot r d (List.mem_append_left _ member)]
    exact word_inside (low _ member)
  have link := common 0 4 (by decide)
  have value : loaded.reg 4 = if val = 0 then 1 else val := by
    rw [restored]
    exact (restored_frame 3 ready 4 notCode).1
  rw [start, run_loads, ← restored]
  refine ⟨_, rfl, congrArg (· &&& 0xFFFFFFFC) link, link, ?_, ?_, ?_⟩
  · intro saved member notLink
    have high : ∀ slot ∈ slots, slot.1 ≠ 3 := forall_of_all (by decide)
    exact (Function.update_of_ne (high saved member) _ _).trans (common saved.1 saved.2 member)
  · exact (slot 31 86 (by decide)).trans word_behind
  · exact value

/-! # The error return of `cfg_parse` -/

/-- What is promised of `longjmp`, for the registers of the call of `setjmp`. -/
structure Resumes (atSetjmp back final : Cpu) (ret val : Word) : Prop where
  pc : final.pc = back.pc
  lr : final.lr = ret
  stack : final.reg 1 = atSetjmp.reg 1
  saved : ∀ r : Reg, 14 ≤ r → final.reg r = atSetjmp.reg r
  result : final.reg 3 = if val = 0 then 1 else val

/-- The struct `env` itself holds the registers before `setjmp` is called, and
what comes after the copy of `longjmp` at its offset 86 is the value of `r31`. -/
structure EnvHolds (env copy : Word) (atSetjmp atLongjmp : Cpu) (ret : Word) : Prop where
  lr : atSetjmp.mem.word (env + 4) = ret
  stack : atSetjmp.mem.word env = atSetjmp.reg 1
  saved : ∀ slot ∈ slots, 14 ≤ slot.1 → atSetjmp.mem.word (env + slot.2) = atSetjmp.reg slot.1
  behind : atLongjmp.mem.word (copy + 86) = atSetjmp.reg 31

/-- With nothing else written to `env`, the error return works exactly when
`env` held the registers all along: `setjmp` saves them in the copy that its
caller made, and `longjmp` gets another copy. -/
theorem longjmp_resumes_iff {env copy copy' ret ret' val : Word} {atSetjmp atLongjmp back : Cpu}
    (separate : Separate copy env) (called : callSetjmp env copy ret atSetjmp = some back)
    (unwritten : ∀ j, j < jmpBufSize → atLongjmp.mem (env + j) = back.mem (env + j)) :
    (∃ final, callLongjmp env copy' ret' val atLongjmp = some final ∧
      Resumes atSetjmp back final ret val) ↔ EnvHolds env copy' atSetjmp atLongjmp ret := by
  obtain ⟨back', run, pc, kept⟩ := callSetjmp_run ret atSetjmp separate
  cases called.symm.trans run
  obtain ⟨final, run', pc', lr, saved, behind, result⟩ :=
    callLongjmp_run env copy' ret' val atLongjmp
  have word (d : Word) (slot : d ≤ 76) : atLongjmp.mem.word (env + d) = atSetjmp.mem.word (env + d) := by
    have byte (i : Word) (small : i < 4) : atLongjmp.mem (env + d + i) = atSetjmp.mem (env + d + i) := by
      have inside := add_inside slot small
      rw [UInt32.add_assoc, unwritten _ inside, kept _ inside]
    have first := byte 0 (by decide)
    simp only [UInt32.add_zero] at first
    simp only [Memory.word, first, byte 1 (by decide), byte 2 (by decide), byte 3 (by decide)]
  have low : ∀ slot ∈ slots, slot.2 ≤ 76 := forall_of_all (by decide)
  have stack := (saved (1, 0) (by decide) (by decide)).trans (word 0 (by decide))
  rw [UInt32.add_zero] at stack
  rw [word 4 (by decide)] at lr pc'
  constructor
  · rintro ⟨other, same, resumes⟩
    cases run'.symm.trans same
    refine ⟨lr.symm.trans resumes.lr, stack.symm.trans resumes.stack, ?_, ?_⟩
    · intro slot member high
      have notLink : slot.1 ≠ 0 := by
        intro zero
        rw [zero] at high
        exact absurd high (by decide)
      rw [← word slot.2 (low slot member), ← saved slot member notLink]
      exact resumes.saved slot.1 high
    · exact behind.symm.trans (resumes.saved 31 (by decide))
  · intro holds
    refine ⟨final, run', ⟨?_, lr.trans holds.lr, stack.trans holds.stack, ?_, result⟩⟩
    · rw [pc', pc, holds.lr]
    · intro r high
      have listed : ∀ r : Reg, 14 ≤ r → r = 31 ∨ r ≠ 0 ∧ r ∈ slots.map Prod.fst := by decide
      rcases listed r high with rfl | ⟨notLink, named⟩
      · exact behind.trans holds.behind
      · obtain ⟨slot, member, rfl⟩ := List.mem_map.mp named
        rw [saved slot member notLink, word slot.2 (low slot member)]
        exact holds.saved slot member high

/-- All registers have the same value, and the memory is zero. -/
def uniformCpu (value : Word) : Cpu :=
  { reg := fun _ => value, lr := value, eq := false, pc := value, mem := fun _ => 0 }

theorem separate_sample : Separate 0x1000 0x100 := by
  intro i j first second same
  simp only [jmpBufSize, UInt32.lt_iff_toNat_lt] at first second
  have sum := congrArg UInt32.toNat same
  simp only [UInt32.toNat_add] at sum
  have : (80 : Word).toNat = 80 ∧ (0x1000 : Word).toNat = 0x1000 ∧ (0x100 : Word).toNat = 0x100 := by decide
  omega

/-- Every register holds another value. -/
def numbered (r : Reg) : Word := 0x3FF000 + 16 * UInt32.ofNat r.toNat

/-- The values of the registers are in the struct at `0x100`, with `0x3E0004` for
`lr`, and that of `r31` is 86 bytes behind `0x2000`. -/
def heldMemory : Memory :=
  let registers (mem : Memory) (slot : Reg × Word) : Memory :=
    mem.store (0x100 + slot.2) (if slot.1 = 0 then 0x3E0004 else numbered slot.1)
  Memory.store (slots.foldl registers fun _ => 0) (0x2000 + 86) (numbered 31)

def heldCpu : Cpu := { reg := numbered, lr := 0, eq := false, pc := 0x3E0000, mem := heldMemory }

/-- All registers have been overwritten since. -/
def overwritten : Cpu := { heldCpu with reg := fun _ => 0 }

/-- The registers come back from a struct that held them before `setjmp`. -/
theorem longjmp_resumes_sample : ∃ back final, callSetjmp 0x100 0x1000 0x3E0004 heldCpu = some back ∧
    callLongjmp 0x100 0x2000 0x3E0104 5 overwritten = some final ∧ Resumes heldCpu back final 0x3E0004 5 := by
  obtain ⟨back, called, -, kept⟩ := callSetjmp_run 0x3E0004 heldCpu separate_sample
  have unwritten : ∀ j, j < jmpBufSize → overwritten.mem (0x100 + j) = back.mem (0x100 + j) :=
    fun j inside => (kept j inside).symm
  have holds : EnvHolds 0x100 0x2000 heldCpu overwritten 0x3E0004 :=
    ⟨by decide +kernel, by decide +kernel, forall_of_all (by decide +kernel), by decide +kernel⟩
  obtain ⟨final, run, resumes⟩ :=
    (longjmp_resumes_iff separate_sample called unwritten).mpr holds
  exact ⟨back, final, called, run, resumes⟩

/-- All registers are `0x3FF000` at the call of `setjmp`, and `env` is zero: the
error return leaves no stack pointer. -/
theorem longjmp_not_resumes : ∃ back, callSetjmp 0x100 0x1000 0x3E0004 (uniformCpu 0x3FF000) = some back ∧
    ¬ ∃ final, callLongjmp 0x100 0x2000 0x3E0104 1 back = some final ∧
      Resumes (uniformCpu 0x3FF000) back final 0x3E0004 1 := by
  obtain ⟨back, called, -, kept⟩ :=
    callSetjmp_run 0x3E0004 (uniformCpu 0x3FF000) separate_sample
  refine ⟨back, called, ?_⟩
  rintro ⟨final, run, resumes⟩
  obtain ⟨found, run', -, lr, -⟩ :=
    callLongjmp_run 0x100 0x2000 0x3E0104 1 back
  cases run.symm.trans run'
  have byte (j : Word) (inside : j < jmpBufSize) : back.mem (0x100 + j) = 0 := kept j inside
  have zero : back.mem.word (0x100 + 4) = 0 := by
    have first := byte 4 (by decide)
    have second := byte 5 (by decide)
    have third := byte 6 (by decide)
    have fourth := byte 7 (by decide)
    simp_all [Memory.word]
  have wrong := resumes.lr
  rw [lr, zero] at wrong
  exact absurd wrong (by decide)

end IQuik.PowerPC
