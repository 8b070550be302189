import IQuik.PowerPC.Movement
import IQuik.PowerPC.Routines
import IQuik.Program.Listings

namespace IQuik.PowerPC

open IQuik.Program StateTransition

/-! # The rest of the instructions of `string.S`

Those of `memcpy` are taken over as they are; with a second condition field there
are the others.
-/

/-- The bit EQ of `cr1`; nothing reads the others. -/
structure Fields extends Core where
  eq1 : Bool

def Fields.idle : Fields := { Core.idle with eq1 := false }

inductive FieldOp (Label : Type) where
  /-- An instruction that knows of `cr0` only. -/
  | op (op : Op Label)
  | mr (rA rS : Reg)
  | li (rD : Reg) (value : Word)
  | subfRc (rD rA rB : Reg)
  | rlwinm (rA rS : Reg) (shift first last : Word)
  | rlwimi (rA rS : Reg) (shift first last : Word)
  | cmpw (rA rB : Reg)
  | cmpw1 (rA rB : Reg)
  | cmpwi1 (rA : Reg) (value : Word)
  | bne1 (target : Label)
  | beqlr1
  | blelr
  | bdz (target : Label)
  /-- `bdnzt 2`, which branches while CTR is not zero and `cr0` says equal. -/
  | bdnzt (target : Label)
  /-- `bdnzf 2`, which branches while CTR is not zero and `cr0` says different. -/
  | bdnzf (target : Label)

namespace Fields

variable (core : Fields)

/-- What an instruction of the smaller set does. -/
def on (change : Core) : Fields := { change with eq1 := core.eq1 }

def counted : Fields := core.on { core.toCore with ctr := core.ctr - 1 }

def back : Fields := core.on core.toCore.back

/-- The instructions of `Op` as `Listing.step` runs them. -/
def execOp {Label : Type} (op : Op Label) : Flow Label Fields :=
  let after := core.on (core.toCore.apply op)
  match op with
  | .b target => .jump target core
  | .beq target => .jumpIf core.eq target core
  | .bne target => .jumpIf (!core.eq) target core
  | .bgt target => .jumpIf core.gt target core
  | .blt target => .jumpIf core.lt target core
  | .bdnz target => .jumpIf (core.ctr - 1 ≠ 0) target after
  | .beqlr => .backIf core.eq core.back core
  | .blr => .back core.back
  | _ => .next after

/-- Where the mask is set, the rotated bits take the place of those of `rA`. -/
def inserted (rA rS : Reg) (shift first last : Word) : Word :=
  rotateLeft (core.reg rS) shift &&& mask first last ||| core.reg rA &&& ~~~mask first last

end Fields

def FieldOp.exec {Label : Type} : FieldOp Label → Fields → Flow Label Fields
  | .op plain, core => core.execOp plain
  | .mr rA rS, core => .next (core.on (core.set rA (core.reg rS)))
  | .li rD value, core => .next (core.on (core.set rD value))
  | .subfRc rD rA rB, core => .next (core.on (core.setRc rD (core.reg rB - core.reg rA)))
  | .rlwinm rA rS shift first last, core =>
      .next (core.on (core.set rA (rotateLeft (core.reg rS) shift &&& mask first last)))
  | .rlwimi rA rS shift first last, core => .next (core.on (core.set rA (core.inserted rA rS shift first last)))
  | .cmpw rA rB, core => .next (core.on (core.compareSigned (core.reg rA) (core.reg rB)))
  | .cmpw1 rA rB, core => .next { core with eq1 := core.reg rA = core.reg rB }
  | .cmpwi1 rA value, core => .next { core with eq1 := core.reg rA = value }
  | .bne1 target, core => .jumpIf (!core.eq1) target core
  | .beqlr1, core => .backIf core.eq1 core.back core
  | .blelr, core => .backIf (!core.gt) core.back core
  | .bdz target, core => .jumpIf (core.ctr - 1 = 0) target core.counted
  | .bdnzt target, core => .jumpIf (core.ctr - 1 ≠ 0 ∧ core.eq) target core.counted
  | .bdnzf target, core => .jumpIf (core.ctr - 1 ≠ 0 ∧ !core.eq) target core.counted

abbrev FieldCode (Label : Type) := Code Label (FieldOp Label)

section Running

variable {Label : Type} [DecidableEq Label]

/-- A call of the routine at `entry`. -/
abbrev FieldCode.Returns (code : FieldCode Label) (entry : Label) (before after : Fields) : Prop :=
  Code.Returns FieldOp.exec code entry before after

abbrev FieldCode.step (code : FieldCode Label) : Position (FieldOp Label) Fields → Option (Position (FieldOp Label) Fields) :=
  Code.step FieldOp.exec code

end Running

/-- How the count register goes down. -/
theorem counts_down {ctr : Word} {left : Nat} (counts : ctr = UInt32.ofNat left) (some' : 0 < left)
    (small : left < 2 ^ 32) : ctr - 1 = UInt32.ofNat (left - 1) ∧ (ctr - 1 ≠ 0 ↔ 1 < left) := by
  have less : ctr - 1 = UInt32.ofNat (left - 1) := by
    rw [counts]
    exact (UInt32.ofNat_sub (b := 1) some').symm
  refine ⟨less, ?_⟩
  rw [less, ne_eq, ofNat_eq_zero (by omega)]
  omega

theorem byte_eq_zero {byte : UInt8} : byte.toUInt32 = 0 ↔ byte = 0 := by
  rw [← UInt32.toNat_inj, ← UInt8.toNat_inj, UInt8.toNat_toUInt32]
  rfl

theorem byte_eq_byte {byte other : UInt8} : byte.toUInt32 = other.toUInt32 ↔ byte = other := by
  rw [← UInt32.toNat_inj, ← UInt8.toNat_inj, UInt8.toNat_toUInt32, UInt8.toNat_toUInt32]

end IQuik.PowerPC
