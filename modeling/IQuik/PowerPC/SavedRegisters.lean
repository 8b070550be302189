import IQuik.PowerPC.Movement
import Mathlib.Algebra.Ring.Nat

namespace IQuik.PowerPC

/-! # Registers saved around a function: `crtsavres.S` -/

/-- The registers with the offsets from `r11` at which they are kept. -/
def gprSlots : List (Reg × Word) :=
  [(14, -72), (15, -68), (16, -64), (17, -60), (18, -56), (19, -52), (20, -48), (21, -44), (22, -40), (23, -36),
    (24, -32), (25, -28), (26, -24), (27, -20), (28, -16), (29, -12), (30, -8), (31, -4)]

/-- The slots from that of `r14 + skipped` on. -/
def slotsFrom (skipped : Nat) : List (Reg × Word) := gprSlots.drop skipped

/-- `_savegpr_14` to `_savegpr_31`: each entry falls through to the next one. -/
def savegpr (skipped : Nat) : List Instr := stores (slotsFrom skipped) 11 ++ [.blr]

/-- `_restgpr_14` to `_restgpr_31`. -/
def restgpr (skipped : Nat) : List Instr := loads (slotsFrom skipped) 11 ++ [.blr]

/-- `_restgpr_14_x` to `_restgpr_31_x`, which leave the function that calls them: the
link register comes back before `r31`. -/
def restgprX (skipped : Nat) : List Instr :=
  loads (gprSlots.dropLast.drop skipped) 11 ++ [.lwz 0 4 11, .lwz 31 (-4) 11, .mtlr 0, .mr 1 11, .blr]

/-! ## Words that do not share a byte -/

theorem apart_words {base first second : Word} (aligned : first.toNat % 4 = 0) (aligned' : second.toNat % 4 = 0)
    (differ : first ≠ second) {i j : Word} (small : i < 4) (small' : j < 4) :
    base + first + i ≠ base + second + j := by
  intro same
  have cancelled : first + i = second + j := by grind
  have sum := congrArg UInt32.toNat cancelled
  rw [← UInt32.toNat_inj.ne] at differ
  have := first.toNat_lt
  have := second.toNat_lt
  simp only [UInt32.lt_iff_toNat_lt, UInt32.reduceToNat] at small small'
  simp only [UInt32.toNat_add] at sum
  omega

section Stored

variable {slots : List (Reg × Word)} {mem : Memory} {base : Word} {value : Reg → Word}

/-- Of several stores of words, each is read back. -/
theorem stores_slot (aligned : ∀ slot ∈ slots, slot.2.toNat % 4 = 0) (nodup : (slots.map Prod.snd).Nodup)
    {slot : Reg × Word} (member : slot ∈ slots) :
    (slots.foldl (fun mem slot => mem.store (base + slot.2) (value slot.1)) mem).word (base + slot.2) =
      value slot.1 := by
  induction slots generalizing mem with
  | nil => cases member
  | cons first slots ih =>
      obtain ⟨unique, nodupRest⟩ := List.nodup_cons.mp nodup
      rw [List.foldl_cons]
      rcases List.mem_cons.mp member with rfl | later
      · have differ : ∀ other ∈ slots, slot.2 ≠ other.2 :=
          fun other old same => unique (same ▸ List.mem_map_of_mem old)
        have frame (other : Word) (outside : ∀ later ∈ slots, ∀ i : Word, i < 4 → other ≠ base + later.2 + i)
            (mem : Memory) :
            slots.foldl (fun mem slot => mem.store (base + slot.2) (value slot.1)) mem other = mem other :=
          stores_frame outside
        refine (word_congr fun c small => ?_).trans (word_store mem (base + slot.2) (value slot.1))
        refine frame _ (fun other old i inside => ?_) _
        exact apart_words (aligned _ (.head _)) (aligned _ (.tail _ old)) (differ _ old)
          ((ofNat_lt (by omega) (by decide)).mpr small) inside
      · exact ih (fun other old => aligned other (.tail _ old)) nodupRest later

end Stored

/-! ## Saving, and restoring later -/

section Calls

variable {skipped : Nat} {cpu saved later : Cpu} {r : Reg}

/-- What a function keeps that has saved registers: the save area itself. -/
def KeepsSaved (skipped : Nat) (saved later : Cpu) : Prop :=
  later.reg 11 = saved.reg 11 ∧
    ∀ slot ∈ slotsFrom skipped, ∀ c < 4, later.mem (place (saved.reg 11 + slot.2) c) =
      saved.mem (place (saved.reg 11 + slot.2) c)

theorem gprSlots_aligned : ∀ slot ∈ gprSlots, slot.2.toNat % 4 = 0 := forall_of_all (by decide)

theorem slotsFrom_subset : slotsFrom skipped ⊆ gprSlots := (List.drop_suffix _ _).subset

theorem slotsFrom_nodup : ((slotsFrom skipped).map Prod.fst).Nodup ∧ ((slotsFrom skipped).map Prod.snd).Nodup := by
  have all : (gprSlots.map Prod.fst).Nodup ∧ (gprSlots.map Prod.snd).Nodup := by decide
  exact ⟨all.1.sublist ((List.drop_sublist _ _).map _), all.2.sublist ((List.drop_sublist _ _).map _)⟩

theorem gprSlots_base : ∀ slot ∈ gprSlots, slot.1 ≠ 11 ∧ 14 ≤ slot.1 := forall_of_all (by decide)

/-- The registers from `r14 + skipped` on are those with a slot. -/
theorem mem_slotsFrom (low : 14 + skipped ≤ r.toNat) : ∃ d, (r, d) ∈ slotsFrom skipped := by
  have listed : ∀ r : Reg, 14 ≤ r.toNat → ∃ slot ∈ slotsFrom (r.toNat - 14), slot.1 = r := by decide
  obtain ⟨⟨found, d⟩, member, same⟩ := listed r (by omega)
  subst same
  dsimp only at low
  have later : slotsFrom (found.toNat - 14) ⊆ slotsFrom skipped := by
    have split : slotsFrom (found.toNat - 14) = (slotsFrom skipped).drop (found.toNat - 14 - skipped) := by
      rw [slotsFrom, slotsFrom, List.drop_drop]
      congr 1
      omega
    rw [split]
    exact (List.drop_suffix _ _).subset
  exact ⟨d, later member⟩

theorem slotsFrom_low {slot : Reg × Word} (member : slot ∈ slotsFrom skipped) : 14 + skipped ≤ slot.1.toNat := by
  have order : ∀ i, (small : i < gprSlots.length) → (gprSlots[i]).1.toNat = 14 + i := by decide
  obtain ⟨i, small, rfl⟩ := List.getElem_of_mem member
  have inside : skipped + i < gprSlots.length := by
    rw [slotsFrom, List.length_drop] at small
    omega
  have same : (slotsFrom skipped)[i] = gprSlots[skipped + i] := List.getElem_drop ..
  rw [same, order _ inside]
  omega

theorem savegpr_run : run 0 (savegpr skipped) cpu = some
    { cpu with
      mem := (slotsFrom skipped).foldl (fun mem slot => mem.store (cpu.reg 11 + slot.2) (cpu.reg slot.1)) cpu.mem
      pc := cpu.lr &&& 0xFFFFFFFC } := by
  rw [savegpr, run_stores]
  rfl

/-- What stands in a slot later on. -/
theorem KeepsSaved.word (ran : run 0 (savegpr skipped) cpu = some saved) (keeps : KeepsSaved skipped saved later)
    {slot : Reg × Word} (member : slot ∈ slotsFrom skipped) :
    later.mem.word (later.reg 11 + slot.2) = cpu.reg slot.1 := by
  obtain ⟨base, kept⟩ := keeps
  rw [base, word_congr (kept slot member)]
  cases savegpr_run.symm.trans ran
  exact stores_slot (fun slot old => gprSlots_aligned slot (slotsFrom_subset old)) slotsFrom_nodup.2 member

theorem restored_lr (slots : List (Reg × Word)) (base : Reg) : (cpu.restored slots base).lr = cpu.lr := by
  induction slots generalizing cpu with
  | nil => rfl
  | cons slot slots ih => exact ih

/-- What the loads of the slots leave. -/
theorem restored_saved (ran : run 0 (savegpr skipped) cpu = some saved) (keeps : KeepsSaved skipped saved later) :
    (later.restored (slotsFrom skipped) 11).mem = later.mem ∧
      ∀ r : Reg, (later.restored (slotsFrom skipped) 11).reg r =
        if 14 + skipped ≤ r.toNat then cpu.reg r else later.reg r := by
  have fresh : ∀ slot ∈ slotsFrom skipped, slot.1 ≠ 11 := fun slot old => (gprSlots_base slot (slotsFrom_subset old)).1
  refine ⟨(restored_frame 11 later 11 fresh).2, fun r => ?_⟩
  by_cases low : 14 + skipped ≤ r.toNat
  · obtain ⟨d, member⟩ := mem_slotsFrom low
    rw [if_pos low, restored_slot later slotsFrom_nodup.1 fresh member]
    exact keeps.word ran member
  · rw [if_neg low]
    refine (restored_frame 11 later r fun slot member same => low ?_).1
    rw [← same]
    exact slotsFrom_low member

/-- Behind `_restgpr` the registers are back, and nothing else has changed. -/
theorem restgpr_run (ran : run 0 (savegpr skipped) cpu = some saved) (keeps : KeepsSaved skipped saved later) :
    ∃ final, run 0 (restgpr skipped) later = some final ∧ final.pc = later.lr &&& 0xFFFFFFFC ∧
      final.mem = later.mem ∧
      ∀ r : Reg, final.reg r = if 14 + skipped ≤ r.toNat then cpu.reg r else later.reg r := by
  obtain ⟨mem, reg⟩ := restored_saved ran keeps
  rw [restgpr, run_loads]
  exact ⟨_, rfl, congrArg (· &&& 0xFFFFFFFC) (restored_lr ..), mem, reg⟩

/-- The loads of `_restgpr_x`, that of the link register among them. -/
def slotsX (skipped : Nat) : List (Reg × Word) := gprSlots.dropLast.drop skipped ++ [(0, 4), (31, -4)]

theorem restgprX_eq : restgprX skipped = loads (slotsX skipped) 11 ++ [.mtlr 0, .mr 1 11, .blr] := by
  simp only [restgprX, slotsX, loads, List.map_append, List.append_assoc]
  rfl

theorem slotsX_facts (entry : skipped < 18) : ((slotsX skipped).map Prod.fst).Nodup ∧
    (∀ slot ∈ slotsX skipped, slot.1 ≠ 11 ∧ (slot.1 = 0 ∨ 14 + skipped ≤ slot.1.toNat)) ∧
    ∀ slot ∈ slotsFrom skipped, slot ∈ slotsX skipped := by
  have nodup : ∀ skipped < 18, ((slotsX skipped).map Prod.fst).Nodup := by decide
  -- `List.all` goes along the list, and not through all pairs of a register and a word
  have others : ∀ skipped < 18, (slotsX skipped).all (fun slot =>
      decide (slot.1 ≠ 11 ∧ (slot.1 = 0 ∨ 14 + skipped ≤ slot.1.toNat))) = true := by decide
  have all : ∀ skipped < 18, (slotsFrom skipped).all (fun slot => decide (slot ∈ slotsX skipped)) = true := by decide
  exact ⟨nodup skipped entry,
    fun slot member => of_decide_eq_true (List.all_eq_true.mp (others skipped entry) slot member),
    fun slot member => of_decide_eq_true (List.all_eq_true.mp (all skipped entry) slot member)⟩

theorem restgprX_run (entry : skipped < 18) (ran : run 0 (savegpr skipped) cpu = some saved)
    (keeps : KeepsSaved skipped saved later) :
    ∃ final, run 0 (restgprX skipped) later = some final ∧ final.lr = later.mem.word (later.reg 11 + 4) ∧
      final.pc = final.lr &&& 0xFFFFFFFC ∧ final.mem = later.mem ∧ final.reg 1 = later.reg 11 ∧
      ∀ r : Reg, r ≠ 0 → r ≠ 1 → final.reg r = if 14 + skipped ≤ r.toNat then cpu.reg r else later.reg r := by
  obtain ⟨nodup, others, all⟩ := slotsX_facts entry
  have fresh : ∀ slot ∈ slotsX skipped, slot.1 ≠ 11 := fun slot member => (others slot member).1
  have link : (later.restored (slotsX skipped) 11).reg 0 = later.mem.word (later.reg 11 + 4) :=
    restored_slot later nodup fresh (List.mem_append_right _ (.head _))
  have frame (other : Reg) (differ : ∀ slot ∈ slotsX skipped, slot.1 ≠ other) := restored_frame 11 later other differ
  rw [restgprX_eq, run_loads]
  refine ⟨_, rfl, link, rfl, (frame 11 fresh).2, (frame 11 fresh).1, fun r notLink notStack => ?_⟩
  have unmoved : ((later.restored (slotsX skipped) 11).set 1 ((later.restored (slotsX skipped) 11).reg 11)).reg r =
      (later.restored (slotsX skipped) 11).reg r := Function.update_of_ne notStack _ _
  refine unmoved.trans ?_
  by_cases low : 14 + skipped ≤ r.toNat
  · obtain ⟨d, member⟩ := mem_slotsFrom low
    rw [if_pos low, restored_slot later nodup fresh (all _ member)]
    exact keeps.word ran member
  · rw [if_neg low]
    refine (frame r fun slot member same => ?_).1
    rcases (others slot member).2 with zero | high
    · exact notLink (same.symm.trans zero)
    · exact low (same ▸ high)

/-- What `_restgpr` and `_restgpr_x` leave, of a function entered in `cpu`, whose body
has come to `later`. -/
structure Restores (skipped : Nat) (cpu later : Cpu) : Prop where
  stays : ∃ final, run 0 (restgpr skipped) later = some final ∧ final.pc = later.lr &&& 0xFFFFFFFC ∧
    final.mem = later.mem ∧ ∀ r : Reg, final.reg r = if 14 + skipped ≤ r.toNat then cpu.reg r else later.reg r
  leaves : ∃ final, run 0 (restgprX skipped) later = some final ∧ final.lr = later.mem.word (later.reg 11 + 4) ∧
    final.pc = final.lr &&& 0xFFFFFFFC ∧ final.mem = later.mem ∧ final.reg 1 = later.reg 11 ∧
    ∀ r : Reg, r ≠ 0 → r ≠ 1 → final.reg r = if 14 + skipped ≤ r.toNat then cpu.reg r else later.reg r

/-- A function that saves registers on entry and keeps its save area gets them back, at
every pair of entries; `_restgpr_x` returns to its caller as well, with the stack of `r11`. -/
theorem registers_restored {skipped : Nat} {cpu saved later : Cpu} (entry : skipped < 18)
    (ran : run 0 (savegpr skipped) cpu = some saved) (keeps : KeepsSaved skipped saved later) :
    Restores skipped cpu later :=
  ⟨restgpr_run ran keeps, restgprX_run entry ran keeps⟩

/-- Every register is `0x500`. -/
def callerCpu : Cpu := { reg := fun _ => 0x500, lr := 0, eq := false, pc := 0, mem := fun _ => 0 }

/-- A body that has cleared every register but `r11`, and no memory. -/
theorem registers_restored_sample : ∃ saved, run 0 (savegpr 14) callerCpu = some saved ∧
    Restores 14 callerCpu { saved with reg := Function.update (fun _ => 0) 11 0x500 } :=
  ⟨_, savegpr_run, registers_restored (by decide) savegpr_run ⟨rfl, fun _ _ _ _ => rfl⟩⟩

end Calls

end IQuik.PowerPC
