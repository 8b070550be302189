import IQuik.PowerPC.Strings

namespace IQuik.PowerPC

open IQuik.Data IQuik.Program

/-! # What a call of a string routine leaves alone -/

section Writes

variable {Label : Type}

/-- The registers that an instruction writes. -/
def Op.writes : Op Label → List Reg
  | .addi r _ _ | .add r _ _ | .subf r _ _ | .subfic r _ _ | .andiRc r _ _ | .rlwinmRc r _ _ _ _ => [r]
  | .lwz r _ _ | .lbz r _ _ => [r]
  | .lwzu r _ a | .lbzu r _ a => [r, a]
  | .stwu _ _ a | .stbu _ _ a => [a]
  | .cmplw _ _ | .cmplwi _ _ | .cmpwi _ _ | .mtctr _ | .stw _ _ _ | .stb _ _ _ => []
  | .dcbf _ _ | .icbi _ _ | .sync | .isync => []
  | .b _ | .beq _ | .bne _ | .bgt _ | .blt _ | .bdnz _ | .beqlr | .blr => []

def FieldOp.writes : FieldOp Label → List Reg
  | .op plain => plain.writes
  | .mr r _ | .li r _ | .subfRc r _ _ | .rlwinm r _ _ _ _ | .rlwimi r _ _ _ _ => [r]
  | .cmpw _ _ | .cmpw1 _ _ | .cmpwi1 _ _ | .bne1 _ | .beqlr1 | .blelr | .bdz _ | .bdnzt _ | .bdnzf _ => []

/-- The link register and the registers that are not written are as they were. -/
structure Frame (written : List Reg) (before after : Core) : Prop where
  lr : after.lr = before.lr
  reg : ∀ r, r ∉ written → after.reg r = before.reg r

theorem Frame.trans {written : List Reg} {first second third : Core} (one : Frame written first second)
    (two : Frame written second third) : Frame written first third where
  lr := two.lr.trans one.lr
  reg r fresh := (two.reg r fresh).trans (one.reg r fresh)

theorem Frame.mono {few many : List Reg} {first second : Core} (frame : Frame few first second)
    (more : ∀ r ∈ few, r ∈ many) : Frame many first second where
  lr := frame.lr
  reg r fresh := frame.reg r (mt (more r) fresh)

theorem Core.apply_frame (op : Op Label) (core : Core) : Frame op.writes core (core.apply op) := by
  refine ⟨?_, fun r fresh => ?_⟩
  · cases op <;> rfl
  · cases op <;> simp_all [Op.writes, Core.apply, Core.set, Core.setRc, Core.compareSigned, Core.compareUnsigned,
      Core.compare, Core.store, Core.storeByte, Core.issue]

theorem Frame.refl {written : List Reg} (core : Core) : Frame written core core := ⟨rfl, fun _ _ => rfl⟩

/-- A conditional return changes nothing. -/
theorem backIf_frame {written : List Reg} (condition : Bool) (core : Fields) :
    Frame written core.toCore (Flow.backIf condition core.back core : Flow Label Fields).state.toCore := by
  cases condition
  · exact .refl core.toCore
  · exact ⟨rfl, fun _ _ => rfl⟩

theorem jumpIf_frame {written : List Reg} {condition : Bool} {target : Label} {core next : Fields}
    (frame : Frame written core.toCore next.toCore) :
    Frame written core.toCore (Flow.jumpIf condition target next).state.toCore := by
  rwa [Flow.jumpIf_state]

theorem Fields.execOp_frame (op : Op Label) (core : Fields) :
    Frame op.writes core.toCore (core.execOp op).state.toCore := by
  have applied := Core.apply_frame op core.toCore
  cases op
  case beqlr => exact backIf_frame core.eq core
  case blr => exact ⟨rfl, fun _ _ => rfl⟩
  all_goals first
    | exact applied
    | exact jumpIf_frame applied

theorem FieldOp.exec_frame (instr : FieldOp Label) (core : Fields) :
    Frame instr.writes core.toCore (instr.exec core).state.toCore := by
  have unset {next : Fields} (register : Reg) (value : Word) (lr : next.lr = core.lr)
      (reg : next.reg = Function.update core.reg register value) : Frame [register] core.toCore next.toCore := by
    refine ⟨lr, fun r fresh => ?_⟩
    rw [reg]
    exact Function.update_of_ne (fun same => fresh (List.mem_singleton.mpr same)) ..
  cases instr
  case op plain => exact core.execOp_frame plain
  case beqlr1 => exact backIf_frame core.eq1 core
  case blelr => exact backIf_frame (!core.gt) core
  case bne1 | bdz | bdnzt | bdnzf => exact jumpIf_frame ⟨rfl, fun _ _ => rfl⟩
  case cmpw | cmpw1 | cmpwi1 => exact ⟨rfl, fun _ _ => rfl⟩
  all_goals exact unset _ _ rfl rfl

/-- An instruction that comes back has left the link register in the program counter. -/
theorem FieldOp.exec_back {instr : FieldOp Label} {core final : Fields} (comesBack : instr.exec core = .back final) :
    final.pc = final.lr &&& 0xFFFFFFFC := by
  have jumps {condition : Bool} {target : Label} {next : Fields} : Flow.jumpIf condition target next ≠ .back final := by
    cases condition <;> exact nofun
  have backs {condition : Bool} (back : (Flow.backIf condition core.back core : Flow Label Fields) = .back final) :
      final.pc = final.lr &&& 0xFFFFFFFC := by
    cases condition
    · cases back
    · cases back
      rfl
  cases instr
  case op plain =>
    cases plain
    case beqlr => exact backs comesBack
    case blr =>
      cases comesBack
      rfl
    all_goals first
      | exact absurd comesBack jumps
      | cases comesBack
  case beqlr1 | blelr => exact backs comesBack
  all_goals first
    | exact absurd comesBack jumps
    | cases comesBack

end Writes

/-- A call of a string routine that comes back comes back to its caller, and has written no other
registers than `r0` and `r3` to `r6`. -/
theorem strings_frame {routine : Routine} {before after : Fields} (returns : strings.Returns (.entry routine) before after) :
    after.pc = before.lr &&& 0xFFFFFFFC ∧ after.lr = before.lr ∧
      ∀ r : Reg, r ∉ [0, 3, 4, 5, 6] → after.reg r = before.reg r := by
  have written : ∀ part ∈ strings, ∀ instr ∈ part.2, ∀ r ∈ instr.writes, r ∈ ([0, 3, 4, 5, 6] : List Reg) := by decide
  let Kept (core : Fields) : Prop := Frame [0, 3, 4, 5, 6] before.toCore core.toCore
  have each : ∀ part ∈ strings, ∀ instr ∈ part.2, ∀ core, Kept core → Kept (instr.exec core).state :=
    fun part known instr member core kept => kept.trans ((instr.exec_frame core).mono (written part known instr member))
  have frame : Kept after := returns.keeps each (.refl _)
  have back : after.pc = after.lr &&& 0xFFFFFFFC := returns.at_back fun _ _ _ => FieldOp.exec_back
  exact ⟨back.trans (congrArg (· &&& 0xFFFFFFFC) frame.lr), frame.lr, frame.reg⟩

theorem strings_frame_sample : ∃ final, strings.Returns (.entry .strlen) (Fields.slashes.call 16 0 0) final ∧
    final.pc = Fields.slashes.lr &&& 0xFFFFFFFC ∧ final.lr = Fields.slashes.lr ∧
      ∀ r : Reg, r ∉ [0, 3, 4, 5, 6] → final.reg r = (Fields.slashes.call 16 0 0).reg r := by
  obtain ⟨final, returns, -⟩ := Code.returns_of_eventually (strlen_run Fields.slashes slashes_spell 0 0 rfl)
  exact ⟨final, returns, strings_frame returns⟩

end IQuik.PowerPC
