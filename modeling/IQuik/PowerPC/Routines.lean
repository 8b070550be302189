import IQuik.PowerPC.Instructions
import IQuik.Program.Runs

namespace IQuik.PowerPC

open IQuik.Program StateTransition

/-! # Routines with labels and loops -/

/-- What is asked of the caches and of the pipeline. -/
inductive CacheOp where
  | dcbf (address : Word)
  | icbi (address : Word)
  | sync
  | isync
deriving DecidableEq

/-- The bits LT and GT of `cr0`, the count register, and the cache operations in
the order in which they were issued. -/
structure Core extends Cpu where
  lt : Bool
  gt : Bool
  ctr : Word
  cache : List CacheOp

def Core.idle : Core where
  reg := fun _ => 0
  lr := 0
  eq := false
  pc := 0
  mem := fun _ => 0
  lt := false
  gt := false
  ctr := 0
  cache := []

/-- The instructions ending in `Rc` are those with a dot: they compare the
result with zero. `subfic` also sets a carry, which nothing here reads. -/
inductive Op (Label : Type) where
  | addi (rD rA : Reg) (value : Word)
  | add (rD rA rB : Reg)
  | subf (rD rA rB : Reg)
  | subfic (rD rA : Reg) (value : Word)
  | andiRc (rA rS : Reg) (value : Word)
  | rlwinmRc (rA rS : Reg) (shift first last : Word)
  | cmplw (rA rB : Reg)
  | cmplwi (rA : Reg) (value : Word)
  | cmpwi (rA : Reg) (value : Word)
  | mtctr (rS : Reg)
  | lwz (rD : Reg) (d : Word) (rA : Reg)
  | lwzu (rD : Reg) (d : Word) (rA : Reg)
  | lbz (rD : Reg) (d : Word) (rA : Reg)
  | lbzu (rD : Reg) (d : Word) (rA : Reg)
  | stw (rS : Reg) (d : Word) (rA : Reg)
  | stwu (rS : Reg) (d : Word) (rA : Reg)
  | stb (rS : Reg) (d : Word) (rA : Reg)
  | stbu (rS : Reg) (d : Word) (rA : Reg)
  | dcbf (rA rB : Reg)
  | icbi (rA rB : Reg)
  | sync
  | isync
  | b (target : Label)
  | beq (target : Label)
  | bne (target : Label)
  | bgt (target : Label)
  | blt (target : Label)
  | bdnz (target : Label)
  | beqlr
  | blr

/-- `subi`, which the assembler writes as `addi`. -/
def Op.subi {Label : Type} (rD rA : Reg) (value : Word) : Op Label := .addi rD rA (-value)

def rotateLeft (value shift : Word) : Word := value <<< shift ||| value >>> (32 - shift)

/-- The bits from `first` to `last`, of which bit 0 is the most significant. -/
def mask (first last : Word) : Word :=
  if first ≤ last then 0xFFFFFFFF >>> first &&& 0xFFFFFFFF <<< (31 - last)
  else 0xFFFFFFFF >>> first ||| 0xFFFFFFFF <<< (31 - last)

def Memory.storeByte (mem : Memory) (address : Word) (value : UInt8) : Memory :=
  Function.update mem address value

namespace Core

variable (core : Core)

def set (register : Reg) (value : Word) : Core :=
  { core with reg := Function.update core.reg register value }

/-- The outcome of a comparison. -/
def compare (lt gt eq : Prop) [Decidable lt] [Decidable gt] [Decidable eq] : Core :=
  { core with lt := lt, gt := gt, eq := eq }

def compareSigned (left right : Word) : Core :=
  core.compare (left.toInt32 < right.toInt32) (right.toInt32 < left.toInt32) (left = right)

def compareUnsigned (left right : Word) : Core := core.compare (left < right) (right < left) (left = right)

def setRc (register : Reg) (value : Word) : Core := (core.set register value).compareSigned value 0

/-- The address `(rA, rB)`, where `r0` stands for zero as `rA`. -/
def indexed (rA rB : Reg) : Word := core.address (core.reg rB) rA

def store (address value : Word) : Core := { core with mem := core.mem.store address value }

def storeByte (address value : Word) : Core := { core with mem := core.mem.storeByte address value.toUInt8 }

def issue (op : CacheOp) : Core := { core with cache := core.cache ++ [op] }

/-- What an instruction does besides going on; a branch does no more than that. -/
def apply {Label : Type} : Op Label → Core
  | .addi rD rA value => core.set rD (core.address value rA)
  | .add rD rA rB => core.set rD (core.reg rA + core.reg rB)
  | .subf rD rA rB => core.set rD (core.reg rB - core.reg rA)
  | .subfic rD rA value => core.set rD (value - core.reg rA)
  | .andiRc rA rS value => core.setRc rA (core.reg rS &&& value)
  | .rlwinmRc rA rS shift first last => core.setRc rA (rotateLeft (core.reg rS) shift &&& mask first last)
  | .cmplw rA rB => core.compareUnsigned (core.reg rA) (core.reg rB)
  | .cmplwi rA value => core.compareUnsigned (core.reg rA) value
  | .cmpwi rA value => core.compareSigned (core.reg rA) value
  | .mtctr rS => { core with ctr := core.reg rS }
  | .lwz rD d rA => core.set rD (core.mem.word (core.address d rA))
  | .lwzu rD d rA => (core.set rD (core.mem.word (core.reg rA + d))).set rA (core.reg rA + d)
  | .lbz rD d rA => core.set rD (core.mem (core.address d rA)).toUInt32
  | .lbzu rD d rA => (core.set rD (core.mem (core.reg rA + d)).toUInt32).set rA (core.reg rA + d)
  | .stw rS d rA => core.store (core.address d rA) (core.reg rS)
  | .stwu rS d rA => (core.store (core.reg rA + d) (core.reg rS)).set rA (core.reg rA + d)
  | .stb rS d rA => core.storeByte (core.address d rA) (core.reg rS)
  | .stbu rS d rA => (core.storeByte (core.reg rA + d) (core.reg rS)).set rA (core.reg rA + d)
  | .dcbf rA rB => core.issue (.dcbf (core.indexed rA rB))
  | .icbi rA rB => core.issue (.icbi (core.indexed rA rB))
  | .sync => core.issue .sync
  | .isync => core.issue .isync
  | .bdnz _ => { core with ctr := core.ctr - 1 }
  | .b _ | .beq _ | .bne _ | .bgt _ | .blt _ | .beqlr | .blr => core

end Core

/-- Labels with the code behind each, in the order of the source. -/
abbrev Listing (Label : Type) := List (Label × List (Op Label))

/-- A routine is in front of the code it has still to run, or has returned. -/
inductive Run (Label : Type) where
  | running (code : List (Op Label)) (core : Core)
  | returned (core : Core)

section Running

variable {Label : Type} [DecidableEq Label]

/-- The code from a label on. -/
def Listing.codeAt (listing : Listing Label) (label : Label) : List (Op Label) :=
  (listing.dropWhile fun part => part.1 ≠ label).flatMap Prod.snd

variable (listing : Listing Label)

/-- Where a branch with this condition goes. -/
def Listing.branch (condition : Bool) (target : Label) (rest : List (Op Label)) : List (Op Label) :=
  if condition then listing.codeAt target else rest

def Core.back (core : Core) : Core := { core with pc := core.lr &&& 0xFFFFFFFC }

def Listing.step : Run Label → Option (Run Label)
  | .returned _ => none
  | .running [] _ => none
  | .running (op :: rest) core => some <|
      match op with
      | .b target => .running (listing.codeAt target) core
      | .beq target => .running (listing.branch core.eq target rest) core
      | .bne target => .running (listing.branch (!core.eq) target rest) core
      | .bgt target => .running (listing.branch core.gt target rest) core
      | .blt target => .running (listing.branch core.lt target rest) core
      | .bdnz target => .running (listing.branch (core.ctr - 1 ≠ 0) target rest) (core.apply op)
      | .beqlr => if core.eq then .returned core.back else .running rest core
      | .blr => .returned core.back
      | op => .running rest (core.apply op)

/-- A call of the code at `entry` comes back. -/
def Listing.Returns (entry : Label) (before after : Core) : Prop :=
  .returned after ∈ eval listing.step (.running (listing.codeAt entry) before)

variable {listing} {entry target : Label} {before after other core : Core} {condition : Bool}
  {op : Op Label} {rest : List (Op Label)} {Goal : Run Label → Prop}

theorem Listing.Returns.unique (first : listing.Returns entry before after)
    (second : listing.Returns entry before other) : after = other := by
  have same := Part.mem_unique first second
  cases same
  rfl

theorem Listing.returns_of_eventually {Good : Core → Prop}
    (eventually : Eventually listing.step (fun run => ∃ final, run = .returned final ∧ Good final)
      (.running (listing.codeAt entry) before)) :
    ∃ final, listing.Returns entry before final ∧ Good final := by
  obtain ⟨finish, ends, final, rfl, good⟩ := eventually.ends (by rintro _ ⟨final, rfl, -⟩; rfl)
  exact ⟨final, ends, good⟩

theorem branch_taken (yes : condition = true) : listing.branch condition target rest = listing.codeAt target :=
  if_pos yes

theorem branch_passed (no : condition = false) : listing.branch condition target rest = rest := by
  simp [Listing.branch, no]

/-! ## One rule for each kind of instruction -/

def Op.Straight : Op Label → Bool
  | .b _ | .beq _ | .bne _ | .bgt _ | .blt _ | .bdnz _ | .beqlr | .blr => false
  | _ => true

variable (listing) in
/-- Behind the first branch after a label. -/
def Listing.behind (label : Label) : List (Op Label) := ((listing.codeAt label).dropWhile Op.Straight).tail

namespace Listing

theorem straight (plain : op.Straight = true)
    (later : Eventually listing.step Goal (.running rest (core.apply op))) :
    Eventually listing.step Goal (.running (op :: rest) core) := by
  refine later.after ?_
  cases op <;> first | rfl | cases plain

theorem b (later : Eventually listing.step Goal (.running (listing.codeAt target) core)) :
    Eventually listing.step Goal (.running (.b target :: rest) core) := later.after rfl

/-- A conditional branch whose condition holds. -/
theorem taken
    (decides : listing.step (.running (op :: rest) core) = some (.running (listing.branch condition target rest) core))
    (yes : condition = true) (later : Eventually listing.step Goal (.running (listing.codeAt target) core)) :
    Eventually listing.step Goal (.running (op :: rest) core) := by
  rw [branch_taken yes] at decides
  exact later.after decides

/-- A conditional branch whose condition fails. -/
theorem passed
    (decides : listing.step (.running (op :: rest) core) = some (.running (listing.branch condition target rest) core))
    (no : condition = false) (later : Eventually listing.step Goal (.running rest core)) :
    Eventually listing.step Goal (.running (op :: rest) core) := by
  rw [branch_passed no] at decides
  exact later.after decides

theorem bdnz (later : Eventually listing.step Goal
      (.running (listing.branch (core.ctr - 1 ≠ 0) target rest) (core.apply (.bdnz target)))) :
    Eventually listing.step Goal (.running (.bdnz target :: rest) core) := later.after rfl

theorem blr (later : Goal (.returned core.back)) :
    Eventually listing.step Goal (.running (.blr :: rest) core) := (Eventually.now later).after rfl

theorem beqlr_back (equal : core.eq = true) (later : Goal (.returned core.back)) :
    Eventually listing.step Goal (.running (.beqlr :: rest) core) := by
  refine (Eventually.now later).after ?_
  simp [step, equal]

theorem beqlr_passed (differ : core.eq = false)
    (later : Eventually listing.step Goal (.running rest core)) :
    Eventually listing.step Goal (.running (.beqlr :: rest) core) := by
  refine later.after ?_
  simp [step, differ]

/-- A loop that ends in `bdnz`: `Inv done` holds after `done` rounds of it. -/
theorem loop (Inv : Nat → Core → Prop) {label : Label} {count : Nat}
    (round : ∀ done < count, ∀ core, Inv done core → Eventually listing.step
      (fun run => ∃ next, run = .running (.bdnz label :: listing.behind label) next ∧ next.ctr = core.ctr ∧
        Inv (done + 1) (next.apply (.bdnz label)))
      (.running (listing.codeAt label) core))
    (leave : ∀ core, Inv count core → Eventually listing.step Goal (.running (listing.behind label) core))
    (some' : 0 < count) (counts : core.ctr = UInt32.ofNat count) (small : count < 2 ^ 32)
    (first : Inv 0 core) : Eventually listing.step Goal (.running (listing.codeAt label) core) := by
  let Rounds (done : Nat) (run : Run Label) : Prop := ∃ core,
    run = .running (listing.branch (done < count) label (listing.behind label)) core ∧
      core.ctr = UInt32.ofNat (count - done) ∧ Inv done core
  have start : Rounds 0 (.running (listing.codeAt label) core) :=
    ⟨core, by rw [branch_taken (decide_eq_true some')], counts, first⟩
  refine (Eventually.rounds Rounds count ?_ start).bind ?_
  · rintro done early _ ⟨core, rfl, left, holds⟩
    rw [branch_taken (decide_eq_true early)]
    refine (round done early core holds).bind ?_
    rintro _ ⟨next, rfl, same, kept⟩
    have less : next.ctr - 1 = UInt32.ofNat (count - (done + 1)) := by
      rw [same, left, ← UInt32.toNat_inj, UInt32.toNat_sub_of_le]
      all_goals simp only [UInt32.le_iff_toNat_le, UInt32.toNat_ofNat', UInt32.reduceToNat]
      all_goals omega
    have more : decide (next.ctr - 1 ≠ 0) = decide (done + 1 < count) := by
      rw [less]
      simp only [ne_eq, ← UInt32.toNat_inj, UInt32.toNat_ofNat', UInt32.reduceToNat]
      grind
    refine bdnz (.now ⟨_, ?_, less, kept⟩)
    rw [more]
  · rintro _ ⟨core, rfl, -, holds⟩
    rw [branch_passed (decide_eq_false (Nat.lt_irrefl count))]
    exact leave core holds

end Listing

end Running

/-! ## Rotating and masking is shifting -/

section Shifts

variable {value : Word} {count : Nat}

theorem shiftRight_toNat (small : count < 32) :
    (value >>> UInt32.ofNat count).toNat = value.toNat / 2 ^ count := by
  have width : count % 32 = count := Nat.mod_eq_of_lt small
  simp [UInt32.toNat_shiftRight, Nat.shiftRight_eq_div_pow, width]

theorem mask_low (small : count < 32) : (mask (UInt32.ofNat count) 31).toBitVec = BitVec.allOnes 32 >>> count := by
  have below : UInt32.ofNat count ≤ 31 := by
    simp only [UInt32.le_iff_toNat_le, UInt32.toNat_ofNat', UInt32.reduceToNat]
    omega
  have width : count % 32 = count := Nat.mod_eq_of_lt small
  have all : ((0xFFFFFFFF : Word) <<< (31 - 31)).toBitVec = BitVec.allOnes 32 := rfl
  have ones : 4294967295#32 = BitVec.allOnes 32 := rfl
  have shifted : ((0xFFFFFFFF : Word) >>> UInt32.ofNat count).toBitVec = BitVec.allOnes 32 >>> count := by
    simp [width, ones]
  rw [mask, if_pos below, UInt32.toBitVec_and, all, BitVec.and_allOnes, shifted]

theorem rotateLeft_mask (some' : 0 < count) (small : count < 32) :
    rotateLeft value (UInt32.ofNat (32 - count)) &&& mask (UInt32.ofNat count) 31 =
      value >>> UInt32.ofNat count := by
  have width : count % 32 = count := Nat.mod_eq_of_lt small
  have left : (32 - count) % 32 = 32 - count := Nat.mod_eq_of_lt (by omega)
  have right : (4294967296 - (32 - count) % 4294967296) % 32 = count := by omega
  apply UInt32.toBitVec_inj.mp
  rw [UInt32.toBitVec_and, mask_low small]
  ext i inside
  by_cases within : count + i < 32
  · have one : (BitVec.allOnes 32 >>> count)[i] = true := by
      simp only [BitVec.getElem_ushiftRight, BitVec.getLsbD_allOnes, within, decide_true]
    have low : i < 32 - count := by omega
    rw [BitVec.getElem_and, one]
    simp [rotateLeft, width, left, right, low]
  · have beyond : 32 ≤ count + i := by omega
    simp [rotateLeft, width, left, right, BitVec.getLsbD_of_ge _ _ beyond]

/-- A shift to the right of a number divides it. -/
theorem rotateLeft_ofNat {number : Nat} (count : Nat) (some' : 0 < count) (small : count < 32) (fits : number < 2 ^ 32) :
    rotateLeft (UInt32.ofNat number) (UInt32.ofNat (32 - count)) &&& mask (UInt32.ofNat count) 31 =
      UInt32.ofNat (number / 2 ^ count) := by
  rw [rotateLeft_mask some' small, ← UInt32.toNat_inj, shiftRight_toNat small, UInt32.toNat_ofNat',
    UInt32.toNat_ofNat', Nat.mod_eq_of_lt fits]
  exact (Nat.mod_eq_of_lt (Nat.lt_of_le_of_lt (Nat.div_le_self ..) fits)).symm

theorem ofNat_and_low (number count : Nat) :
    UInt32.ofNat number &&& UInt32.ofNat (2 ^ count - 1) = UInt32.ofNat (number % 2 ^ count) := by
  rw [← UInt32.ofNat_and, Nat.and_two_pow_sub_one_eq_mod]

end Shifts

namespace Core

variable {core : Core} {register other : Reg} {value : Word}

@[simp] theorem set_reg : (core.set register value).reg other =
    if other = register then value else core.reg other := Function.update_apply ..

@[simp] theorem set_mem : (core.set register value).mem = core.mem := rfl

end Core

end IQuik.PowerPC
