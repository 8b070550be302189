import Mathlib.Data.List.Nodup
import Mathlib.Logic.Function.Basic

namespace IQuik.PowerPC

/-! # A few instructions of the 32-bit PowerPC

Straight code with forward branches, over byte-addressed memory that holds its
words most significant byte first.
-/

abbrev Reg := BitVec 5
abbrev Word := UInt32
abbrev Memory := Word → UInt8

structure Cpu where
  reg : Reg → Word
  lr : Word
  /-- The bit EQ of `cr0`. -/
  eq : Bool
  pc : Word
  mem : Memory

inductive Instr where
  | mflr (rD : Reg)
  | mtlr (rS : Reg)
  | stw (rS : Reg) (d : Word) (rA : Reg)
  | lwz (rD : Reg) (d : Word) (rA : Reg)
  | li (rD : Reg) (value : Word)
  | mr (rD rS : Reg)
  | cmpwi (rA : Reg) (value : Word)
  /-- A branch over the next instructions. -/
  | bne (skip : Nat)
  | blr

def Memory.word (mem : Memory) (address : Word) : Word :=
  (mem address).toUInt32 <<< 24 ||| (mem (address + 1)).toUInt32 <<< 16 |||
    (mem (address + 2)).toUInt32 <<< 8 ||| (mem (address + 3)).toUInt32

def Memory.store (mem : Memory) (address value : Word) : Memory := fun at' =>
  if at' = address then (value >>> 24).toUInt8
  else if at' = address + 1 then (value >>> 16).toUInt8
  else if at' = address + 2 then (value >>> 8).toUInt8
  else if at' = address + 3 then value.toUInt8
  else mem at'

namespace Cpu

variable (cpu : Cpu)

def set (register : Reg) (value : Word) : Cpu :=
  { cpu with reg := Function.update cpu.reg register value }

/-- `d(rA)`, where `r0` stands for zero. -/
def address (d : Word) (rA : Reg) : Word := (if rA = 0 then 0 else cpu.reg rA) + d

/-- An instruction that goes on to the next one. -/
def step : Instr → Cpu
  | .mflr rD => cpu.set rD cpu.lr
  | .mtlr rS => { cpu with lr := cpu.reg rS }
  | .stw rS d rA => { cpu with mem := cpu.mem.store (cpu.address d rA) (cpu.reg rS) }
  | .lwz rD d rA => cpu.set rD (cpu.mem.word (cpu.address d rA))
  | .li rD value => cpu.set rD value
  | .mr rD rS => cpu.set rD (cpu.reg rS)
  | .cmpwi rA value => { cpu with eq := cpu.reg rA = value }
  | .bne _ => cpu
  | .blr => cpu

end Cpu

/-- Runs the code up to its `blr`, over `skip` instructions first. -/
def run : Nat → List Instr → Cpu → Option Cpu
  | _, [], _ => none
  | skip + 1, _ :: rest, cpu => run skip rest cpu
  | 0, .blr :: _, cpu => some { cpu with pc := cpu.lr &&& 0xFFFFFFFC }
  | 0, .bne skip :: rest, cpu => run (if cpu.eq then 0 else skip) rest cpu
  | 0, instr :: rest, cpu => run 0 rest (cpu.step instr)

/-! # Saving and restoring a list of registers -/

/-- A property of each slot, by a test of the list. -/
theorem forall_of_all {p : Reg × Word → Prop} [DecidablePred p] {slots : List (Reg × Word)}
    (all : (slots.all fun slot => p slot) = true) : ∀ slot ∈ slots, p slot :=
  fun slot member => of_decide_eq_true (List.all_eq_true.mp all slot member)

def stores (slots : List (Reg × Word)) (base : Reg) : List Instr :=
  slots.map fun slot => .stw slot.1 slot.2 base

def loads (slots : List (Reg × Word)) (base : Reg) : List Instr :=
  slots.map fun slot => .lwz slot.1 slot.2 base

variable {slots : List (Reg × Word)} {base : Reg} {rest : List Instr} {cpu : Cpu}

theorem run_stores : run 0 (stores slots base ++ rest) cpu =
    run 0 rest { cpu with
      mem := slots.foldl (fun mem slot => mem.store (cpu.address slot.2 base) (cpu.reg slot.1)) cpu.mem } := by
  induction slots generalizing cpu with
  | nil => rfl
  | cons slot slots ih =>
      have first : run 0 (stores (slot :: slots) base ++ rest) cpu =
          run 0 (stores slots base ++ rest) (cpu.step (.stw slot.1 slot.2 base)) := rfl
      rw [first, ih]
      rfl

theorem store_frame {mem : Memory} {address value other : Word}
    (outside : ∀ i : Word, i < 4 → other ≠ address + i) : mem.store address value other = mem other := by
  have first : other ≠ address := by simpa using outside 0 (by decide)
  simp only [Memory.store, if_neg first, if_neg (outside 1 (by decide)), if_neg (outside 2 (by decide)),
    if_neg (outside 3 (by decide))]

/-- The stores leave every byte alone that is in none of the slots. -/
theorem stores_frame {mem : Memory} {place : Word → Word} {value : Reg → Word} {other : Word}
    (outside : ∀ slot ∈ slots, ∀ i : Word, i < 4 → other ≠ place slot.2 + i) :
    slots.foldl (fun mem slot => mem.store (place slot.2) (value slot.1)) mem other = mem other := by
  induction slots generalizing mem with
  | nil => rfl
  | cons slot slots ih =>
      simp only [List.foldl_cons]
      rw [ih fun later member => outside later (.tail _ member)]
      exact store_frame (outside slot (.head _))

/-- The registers after the loads. -/
def Cpu.restored (cpu : Cpu) (slots : List (Reg × Word)) (base : Reg) : Cpu :=
  slots.foldl (fun cpu slot => cpu.step (.lwz slot.1 slot.2 base)) cpu

theorem run_loads : run 0 (loads slots base ++ rest) cpu = run 0 rest (cpu.restored slots base) := by
  induction slots generalizing cpu with
  | nil => rfl
  | cons slot slots ih => exact ih

variable (cpu base) in
/-- Loads into other registers than the base leave everything else alone. -/
theorem restored_frame (other : Reg) (fresh : ∀ slot ∈ slots, slot.1 ≠ other) :
    (cpu.restored slots base).reg other = cpu.reg other ∧
      (cpu.restored slots base).mem = cpu.mem := by
  induction slots generalizing cpu with
  | nil => exact ⟨rfl, rfl⟩
  | cons slot slots ih =>
      have tail := ih (cpu.step (.lwz slot.1 slot.2 base)) fun later member => fresh later (.tail _ member)
      refine ⟨tail.1.trans ?_, tail.2⟩
      exact Function.update_of_ne (fresh slot (.head _)).symm _ _

theorem address_step (slot : Reg × Word) (apart : slot.1 ≠ base) (d : Word) :
    (cpu.step (.lwz slot.1 slot.2 base)).address d base = cpu.address d base := by
  have same : (cpu.step (.lwz slot.1 slot.2 base)).reg base = cpu.reg base :=
    Function.update_of_ne apart.symm _ _
  simp only [Cpu.address, same]

variable (cpu) in
/-- Each register of the list is loaded from its slot. -/
theorem restored_slot (nodup : (slots.map Prod.fst).Nodup) (fresh : ∀ slot ∈ slots, slot.1 ≠ base)
    {slot : Reg × Word} (member : slot ∈ slots) :
    (cpu.restored slots base).reg slot.1 = cpu.mem.word (cpu.address slot.2 base) := by
  induction slots generalizing cpu with
  | nil => cases member
  | cons first slots ih =>
      obtain ⟨unique, nodupRest⟩ := List.nodup_cons.mp nodup
      rcases List.mem_cons.mp member with rfl | later
      · have last : ∀ other ∈ slots, other.1 ≠ slot.1 :=
          fun other old same => unique (same ▸ List.mem_map_of_mem old)
        have kept := (restored_frame base (cpu.step (.lwz slot.1 slot.2 base)) slot.1 last).1
        exact kept.trans (Function.update_self ..)
      · have tail := ih (cpu.step (.lwz first.1 first.2 base)) nodupRest
          (fun other old => fresh other (.tail _ old)) later
        exact tail.trans (congrArg cpu.mem.word (address_step first (fresh first (.head _)) slot.2))

end IQuik.PowerPC
