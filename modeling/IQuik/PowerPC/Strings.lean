import IQuik.Data.Strings
import IQuik.PowerPC.Fields

namespace IQuik.PowerPC

open IQuik.Data IQuik.Program Code

/-! # Strings in memory: `string.S` -/

inductive Routine where
  | strcpy
  | strncpy
  | strcat
  | strcmp
  | strncmp
  | strlen
  | strchr
  | strrchr
  | memset
  | memcmp
  | bzero
deriving DecidableEq

/-- A routine and the numbered labels in it; the second `1:` of `strcat` is its
number 2. -/
inductive StringLabel where
  | entry (routine : Routine)
  | inside (routine : Routine) (number : Nat)
deriving DecidableEq

/-- `string.S` but for `bcopy` and the three routines behind it. -/
def strings : FieldCode StringLabel :=
  [(.entry .strcpy, [.op (.addi 5 3 (-1)), .op (.addi 4 4 (-1))]),
    (.inside .strcpy 1,
      [.op (.lbzu 0 1 4), .op (.cmpwi 0 0), .op (.stbu 0 1 5), .op (.bne (.inside .strcpy 1)), .op .blr]),
    (.entry .strncpy,
      [.op (.cmpwi 5 0), .op .beqlr, .op (.mtctr 5), .op (.addi 6 3 (-1)), .op (.addi 4 4 (-1))]),
    (.inside .strncpy 1,
      [.op (.lbzu 0 1 4), .op (.cmpwi 0 0), .op (.stbu 0 1 6), .bdnzf (.inside .strncpy 1), .op .blr]),
    (.entry .strcat, [.op (.addi 5 3 (-1)), .op (.addi 4 4 (-1))]),
    (.inside .strcat 1,
      [.op (.lbzu 0 1 5), .op (.cmpwi 0 0), .op (.bne (.inside .strcat 1)), .op (.addi 5 5 (-1))]),
    (.inside .strcat 2,
      [.op (.lbzu 0 1 4), .op (.cmpwi 0 0), .op (.stbu 0 1 5), .op (.bne (.inside .strcat 2)), .op .blr]),
    (.entry .strcmp, [.op (.addi 5 3 (-1)), .op (.addi 4 4 (-1))]),
    (.inside .strcmp 1,
      [.op (.lbzu 3 1 5), .cmpwi1 3 0, .op (.lbzu 0 1 4), .subfRc 3 0 3, .beqlr1,
        .op (.beq (.inside .strcmp 1)), .op .blr]),
    (.entry .strncmp,
      [.op (.cmpwi 5 0), .op (.addi 6 3 (-1)), .op (.addi 4 4 (-1)), .op .beqlr, .op (.mtctr 5)]),
    (.inside .strncmp 1,
      [.op (.lbzu 3 1 6), .cmpwi1 3 0, .op (.lbzu 0 1 4), .subfRc 3 0 3, .beqlr1,
        .bdnzt (.inside .strncmp 1), .op .blr]),
    (.entry .strlen, [.op (.addi 4 3 (-1))]),
    (.inside .strlen 1,
      [.op (.lbzu 0 1 4), .op (.cmpwi 0 0), .op (.bne (.inside .strlen 1)), .op (.subf 3 3 4), .op .blr]),
    (.entry .strchr, [.op (.addi 3 3 (-1))]),
    (.inside .strchr 1,
      [.op (.lbzu 0 1 3), .cmpw 0 4, .cmpwi1 0 0, .op .beqlr, .bne1 (.inside .strchr 1), .li 3 0, .op .blr]),
    (.entry .strrchr, [.op (.addi 5 3 (-1)), .li 3 0]),
    (.inside .strrchr 1,
      [.op (.lbzu 0 1 5), .op (.cmpwi 0 0), .cmpw1 0 4, .op .beqlr, .bne1 (.inside .strrchr 1), .mr 3 5,
        .op (.b (.inside .strrchr 1))]),
    (.entry .memset,
      [.rlwimi 4 4 8 16 23, .rlwimi 4 4 16 0 15, .op (.addi 6 3 (-4)), .op (.cmplwi 5 4),
        .op (.blt (.inside .memset 7)), .op (.stwu 4 4 6), .op .beqlr, .op (.andiRc 0 6 3), .op (.add 5 0 5),
        .op (.subf 6 0 6), .rlwinm 0 5 30 2 31, .op (.mtctr 0), .bdz (.inside .memset 6)]),
    (.inside .memset 1, [.op (.stwu 4 4 6), .op (.bdnz (.inside .memset 1))]),
    (.inside .memset 6, [.op (.andiRc 5 5 3)]),
    (.inside .memset 7, [.op (.cmpwi 5 0), .op .beqlr, .op (.mtctr 5), .op (.addi 6 6 3)]),
    (.inside .memset 8, [.op (.stbu 4 1 6), .op (.bdnz (.inside .memset 8)), .op .blr]),
    (.entry .memcmp, [.op (.cmpwi 5 0), .blelr, .op (.mtctr 5), .op (.addi 6 3 (-1)), .op (.addi 4 4 (-1))]),
    (.inside .memcmp 1,
      [.op (.lbzu 3 1 6), .op (.lbzu 0 1 4), .subfRc 3 0 3, .bdnzt (.inside .memcmp 1), .op .blr]),
    (.entry .bzero, [.mr 5 4, .li 4 0, .op (.b (.entry .memset))])]

/-- The arguments of a call. -/
def Fields.call (core : Fields) (first second third : Word) : Fields :=
  core.on (((core.set 3 first).set 4 second).set 5 third)

/-- The string `s` stands at an address, with a NUL behind it. -/
def Memory.Spells (mem : Memory) : Word → Str → Prop
  | address, [] => mem address = 0
  | address, c :: s => mem address = c ∧ c ≠ 0 ∧ Memory.Spells mem (address + 1) s

section Spelling

variable {mem : Memory} {address : Word} {s : Str}

theorem place_succ (address : Word) (i : Nat) : place (address + 1) i = place address (i + 1) := by
  rw [show address + 1 = place address 1 from rfl, place_place, Nat.add_comm]

theorem Memory.Spells.head (spells : mem.Spells address s) : mem address = s.headD 0 := by
  cases s with
  | nil => exact spells
  | cons c s => exact spells.1

theorem Memory.Spells.tail (spells : mem.Spells address s) (goesOn : s.headD 0 ≠ 0) :
    mem.Spells (address + 1) s.tail := by
  cases s with
  | nil => exact absurd rfl goesOn
  | cons c s => exact spells.2.2

theorem Memory.Spells.zero_notMem (spells : mem.Spells address s) : 0 ∉ s := by
  induction s generalizing address with
  | nil => exact List.not_mem_nil
  | cons c s ih =>
      obtain ⟨-, some', rest⟩ := spells
      exact fun member => (List.mem_cons.mp member).elim some'.symm (ih rest)

theorem Memory.Spells.get (spells : mem.Spells address s) {i : Nat} (inside : i < s.length) :
    mem (place address i) = s[i] := by
  induction s generalizing address i with
  | nil => cases inside
  | cons c s ih =>
      obtain ⟨first, -, rest⟩ := spells
      cases i with
      | zero => exact (congrArg mem (place_zero address)).trans first
      | succ i =>
          have later := ih rest (Nat.lt_of_succ_lt_succ inside)
          rwa [place_succ] at later

theorem Memory.Spells.end (spells : mem.Spells address s) : mem (place address s.length) = 0 := by
  induction s generalizing address with
  | nil => exact (congrArg mem (place_zero address)).trans spells
  | cons c s ih =>
      have later := ih spells.2.2
      rwa [place_succ] at later

/-- A string is shorter than the address space. -/
theorem Memory.Spells.small (spells : mem.Spells address s) : s.length < 2 ^ 32 := by
  by_contra large
  have around : place address s.length = place address (s.length - 2 ^ 32) := by
    rw [place, place, ← UInt32.toNat_inj, UInt32.toNat_add, UInt32.toNat_add, UInt32.toNat_ofNat', UInt32.toNat_ofNat']
    omega
  have inside : s.length - 2 ^ 32 < s.length := by omega
  have same := spells.get inside
  rw [← around, spells.end] at same
  exact spells.zero_notMem (same ▸ List.getElem_mem inside)

theorem spells_of_get (all : ∀ i, (inside : i < s.length) → mem (place address i) = s[i]) (noNul : 0 ∉ s)
    (ends : mem (place address s.length) = 0) : mem.Spells address s := by
  induction s generalizing address with
  | nil => exact (congrArg mem (place_zero address)).symm.trans ends
  | cons c s ih =>
      have some' : c ≠ 0 := fun zero => noNul (zero ▸ List.mem_cons_self)
      have rest : 0 ∉ s := fun later => noNul (.tail _ later)
      refine ⟨(congrArg mem (place_zero address)).symm.trans (all 0 (Nat.succ_pos _)), some', ih ?_ rest ?_⟩
      · intro i inside
        rw [place_succ]
        exact all (i + 1) (Nat.succ_lt_succ inside)
      · rw [place_succ]
        exact ends

end Spelling

/-! ## Looking for a character -/

section Searching

variable {mem : Memory} {address c : Word} {s : Str} {core : Fields}

/-- A string routine comes back with this in `r3`, and with the memory as it was. -/
def ComesBackWith (mem : Memory) (value : Word) (position : Position (FieldOp StringLabel) Fields) : Prop :=
  ∃ final, position = .returned final ∧ final.reg 3 = value ∧ final.mem = mem

/-- The code at a label comes back with a value. -/
abbrev Yields (mem : Memory) (value : Word) (label : StringLabel) (core : Fields) : Prop :=
  Eventually strings.step (ComesBackWith mem value) (.running (strings.from' label) core)

theorem strlen_loop {start : Word} (spells : mem.Spells address s) (here : core.reg 4 + 1 = address)
    (began : core.reg 3 = start) (memory : core.mem = mem) :
    Yields mem (place address s.length - start) (.inside .strlen 1) core := by
  induction s generalizing address core with
  | nil =>
      have nul : (core.mem (core.reg 4 + 1)).toUInt32 = 0 := by
        rw [memory, here]
        exact byte_eq_zero.mpr spells
      refine straight rfl (straight rfl (passed rfl ?_ (straight rfl (back rfl ⟨_, rfl, ?_, memory⟩))))
      · exact congrArg not (decide_eq_true nul)
      · show core.reg 4 + 1 - core.reg 3 = _
        rw [here, began, List.length_nil, place_zero]
  | cons b s ih =>
      obtain ⟨first, some', rest⟩ := spells
      have other : (core.mem (core.reg 4 + 1)).toUInt32 ≠ 0 := by
        rw [memory, here, first, ne_eq, byte_eq_zero]
        exact some'
      rw [List.length_cons, ← place_succ]
      refine straight rfl (straight rfl (taken rfl ?_ ?_))
      · exact congrArg not (decide_eq_false other)
      · exact ih rest (congrArg (· + 1) here) began memory

theorem strlen_run (core : Fields) (spells : mem.Spells address s) (second third : Word) (memory : core.mem = mem) :
    Yields mem (UInt32.ofNat s.length) (.entry .strlen) (core.call address second third) := by
  have value : place address s.length - address = UInt32.ofNat s.length := by
    rw [place]
    exact add_sub_cancel_left ..
  rw [← value]
  exact straight rfl (strlen_loop spells (neg_add_cancel_right address 1) rfl memory)

/-- A character as the routines compare it: as a word. -/
def isByte (c : Word) (b : UInt8) : Bool := b.toUInt32 = c

/-- Where a character comes up first in a string, the NUL included, or NULL. -/
def firstPlace (c : Word) (address : Word) (s : Str) : Word :=
  ((s ++ [0]).findIdx? (isByte c)).elim 0 (place address)

theorem firstPlace_nil : firstPlace c address [] = if 0 = c then address else 0 := by
  have nul : isByte c 0 = decide (0 = c) := rfl
  by_cases same : 0 = c
  · rw [firstPlace, List.nil_append, List.findIdx?_cons, nul, decide_eq_true same, if_pos rfl, if_pos same]
    exact place_zero address
  · rw [firstPlace, List.nil_append, List.findIdx?_cons, nul, decide_eq_false same, if_neg same]
    rfl

theorem firstPlace_cons (b : UInt8) :
    firstPlace c address (b :: s) = if b.toUInt32 = c then address else firstPlace c (address + 1) s := by
  have here : isByte c b = decide (b.toUInt32 = c) := rfl
  by_cases same : b.toUInt32 = c
  · rw [firstPlace, List.cons_append, List.findIdx?_cons, here, decide_eq_true same, if_pos rfl, if_pos same]
    exact place_zero address
  · rw [firstPlace, List.cons_append, List.findIdx?_cons, here, decide_eq_false same, if_neg Bool.false_ne_true,
      if_neg same, firstPlace]
    cases (s ++ [0]).findIdx? (isByte c) with
    | none => rfl
    | some i => exact (place_succ address i).symm

theorem strchr_loop (spells : mem.Spells address s) (here : core.reg 3 + 1 = address) (wanted : core.reg 4 = c)
    (memory : core.mem = mem) : Yields mem (firstPlace c address s) (.inside .strchr 1) core := by
  induction s generalizing address core with
  | nil =>
      have nul : (core.mem (core.reg 3 + 1)).toUInt32 = 0 := by
        rw [memory, here]
        exact byte_eq_zero.mpr spells
      rw [firstPlace_nil]
      refine straight rfl (straight rfl (straight rfl ?_))
      by_cases same : 0 = c
      · rw [if_pos same]
        refine comesBack rfl (decide_eq_true ?_) ⟨_, rfl, here, memory⟩
        exact nul.trans (same.trans wanted.symm)
      · rw [if_neg same]
        refine stays rfl (decide_eq_false fun equal => ?_) (passed rfl ?_ ?_)
        · exact same (nul.symm.trans (equal.trans wanted))
        · exact congrArg not (decide_eq_true nul)
        · exact straight rfl (back rfl ⟨_, rfl, rfl, memory⟩)
  | cons b s ih =>
      obtain ⟨first, some', rest⟩ := spells
      have found : (core.mem (core.reg 3 + 1)).toUInt32 = b.toUInt32 := by rw [memory, here, first]
      rw [firstPlace_cons]
      refine straight rfl (straight rfl (straight rfl ?_))
      by_cases same : b.toUInt32 = c
      · rw [if_pos same]
        refine comesBack rfl (decide_eq_true ?_) ⟨_, rfl, here, memory⟩
        exact found.trans (same.trans wanted.symm)
      · rw [if_neg same]
        refine stays rfl (decide_eq_false fun equal => ?_) (taken rfl ?_ ?_)
        · exact same (found.symm.trans (equal.trans wanted))
        · refine congrArg not (decide_eq_false fun zero => some' ?_)
          exact byte_eq_zero.mp (found.symm.trans zero)
        · exact ih rest (congrArg (· + 1) here) wanted memory

theorem strchr_run (core : Fields) (spells : mem.Spells address s) (c third : Word) (memory : core.mem = mem) :
    Yields mem (firstPlace c address s) (.entry .strchr) (core.call address c third) :=
  straight rfl (strchr_loop spells (neg_add_cancel_right address 1) rfl memory)

/-- Where a character comes up last in a string, without the NUL. -/
def lastPlace? (c : Word) (address : Word) (s : Str) : Option Word :=
  (s.reverse.findIdx? (isByte c)).map fun k => place address (s.length - 1 - k)

theorem lastPlace?_cons (b : UInt8) : lastPlace? c address (b :: s) =
    (lastPlace? c (address + 1) s).or (if b.toUInt32 = c then some address else none) := by
  have here : isByte c b = decide (b.toUInt32 = c) := rfl
  rw [lastPlace?, List.reverse_cons, List.findIdx?_append, List.findIdx?_singleton, here, lastPlace?]
  cases later : s.reverse.findIdx? (isByte c) with
  | some k =>
      obtain ⟨inside, -⟩ := List.findIdx?_eq_some_iff_getElem.mp later
      rw [List.length_reverse] at inside
      refine congrArg some ?_
      show place address (s.length + 1 - 1 - k) = place (address + 1) (s.length - 1 - k)
      rw [place_succ]
      congr 1
      omega
  | none =>
      by_cases same : b.toUInt32 = c
      · rw [decide_eq_true same, if_pos same]
        refine congrArg some ?_
        rw [List.length_reverse, List.length_cons]
        show place address (s.length + 1 - 1 - (0 + s.length)) = address
        rw [show s.length + 1 - 1 - (0 + s.length) = 0 by omega]
        exact place_zero address
      · rw [decide_eq_false same, if_neg same]
        rfl

theorem strrchr_loop {found : Word} (spells : mem.Spells address s) (here : core.reg 5 + 1 = address)
    (last : core.reg 3 = found) (wanted : core.reg 4 = c) (memory : core.mem = mem) :
    Yields mem ((lastPlace? c address s).getD found) (.inside .strrchr 1) core := by
  induction s generalizing address core found with
  | nil =>
      have nul : (core.mem (core.reg 5 + 1)).toUInt32 = 0 := by
        rw [memory, here]
        exact byte_eq_zero.mpr spells
      refine straight rfl (straight rfl (straight rfl (comesBack rfl (decide_eq_true nul) ⟨_, rfl, ?_, memory⟩)))
      exact last
  | cons b s ih =>
      obtain ⟨first, some', rest⟩ := spells
      have read : (core.mem (core.reg 5 + 1)).toUInt32 = b.toUInt32 := by rw [memory, here, first]
      have goesOn : ¬(core.mem (core.reg 5 + 1)).toUInt32 = 0 := by
        rw [read, byte_eq_zero]
        exact some'
      rw [lastPlace?_cons]
      refine straight rfl (straight rfl (straight rfl (stays rfl (decide_eq_false goesOn) ?_)))
      by_cases same : b.toUInt32 = c
      · rw [if_pos same]
        refine passed rfl (congrArg not (decide_eq_true (read.trans (same.trans wanted.symm)))) ?_
        have value (later : Option Word) : (later.or (some address)).getD found = later.getD address := by
          cases later <;> rfl
        rw [value]
        exact straight rfl (jump rfl (ih rest (congrArg (· + 1) here) here wanted memory))
      · rw [if_neg same]
        refine taken rfl (congrArg not (decide_eq_false fun equal => same ?_)) ?_
        · exact read.symm.trans (equal.trans wanted)
        · rw [Option.or_none]
          exact ih rest (congrArg (· + 1) here) last wanted memory

theorem strrchr_run (core : Fields) (spells : mem.Spells address s) (c third : Word) (memory : core.mem = mem) :
    Yields mem ((lastPlace? c address s).getD 0) (.entry .strrchr) (core.call address c third) :=
  straight rfl (straight rfl (strrchr_loop spells (neg_add_cancel_right address 1) rfl rfl memory))

end Searching

/-! ## Comparing -/

/-- What the routines return: the difference of the first two bytes that differ, where
a string ends with a NUL. -/
def difference : Str → Str → Word
  | [], [] => 0
  | [], b :: _ => 0 - b.toUInt32
  | a :: _, [] => a.toUInt32 - 0
  | a :: s, b :: t => if a = b then difference s t else a.toUInt32 - b.toUInt32

theorem difference_sign (a b : UInt8) :
    (a.toUInt32 - b.toUInt32 = 0 ↔ a = b) ∧ ((a.toUInt32 - b.toUInt32).toInt32 < 0 ↔ a < b) := by
  have value : (a.toUInt32 - b.toUInt32).toInt32.toInt = (a.toNat : Int) - b.toNat := by
    have small := a.toNat_lt
    have small' := b.toNat_lt
    have number : (a.toUInt32 - b.toUInt32).toBitVec.toNat = (2 ^ 32 - b.toNat + a.toNat) % 2 ^ 32 :=
      UInt32.toNat_sub ..
    show (a.toUInt32 - b.toUInt32).toBitVec.toInt = _
    rw [BitVec.toInt_eq_toNat_cond, number]
    split <;> omega
  refine ⟨sub_eq_zero.trans byte_eq_byte, ?_⟩
  rw [Int32.lt_iff_toInt_lt, value, UInt8.lt_iff_toNat_lt]
  show (a.toNat : Int) - b.toNat < 0 ↔ _
  omega

/-- The result tells how the bytes compare, if no NUL is among them or none of the two
ends before the other. -/
theorem difference_compares {s t : Str} (fair : (0 ∉ s ∧ 0 ∉ t) ∨ s.length = t.length) :
    (difference s t = 0 ↔ s = t) ∧ ((difference s t).toInt32 < 0 ↔ s < t) := by
  induction s generalizing t with
  | nil =>
      cases t with
      | nil => decide
      | cons b t =>
          have some' : b ≠ 0 := by
            rcases fair with ⟨-, noNul⟩ | same
            · exact fun zero => noNul (zero ▸ List.mem_cons_self)
            · cases same
          obtain ⟨equal, less⟩ := difference_sign 0 b
          refine ⟨equal.trans (iff_of_false some'.symm (List.cons_ne_nil b t).symm), less.trans ?_⟩
          exact iff_of_true (UInt8.pos_iff_ne_zero.mpr some') (List.nil_lt_cons b t)
  | cons a s ih =>
      cases t with
      | nil =>
          have some' : a ≠ 0 := by
            rcases fair with ⟨noNul, -⟩ | same
            · exact fun zero => noNul (zero ▸ List.mem_cons_self)
            · cases same
          obtain ⟨equal, less⟩ := difference_sign a 0
          refine ⟨equal.trans (iff_of_false some' (List.cons_ne_nil a s)), less.trans ?_⟩
          exact iff_of_false UInt8.not_lt_zero (List.not_lt_nil _)
      | cons b t =>
          by_cases same : a = b
          · subst same
            have rest := ih (fair.imp (fun noNul => ⟨fun later => noNul.1 (.tail _ later),
              fun later => noNul.2 (.tail _ later)⟩) Nat.succ.inj)
            rw [difference, if_pos rfl, List.cons_lt_cons_iff, List.cons.injEq]
            have irrefl : ¬a < a := UInt8.lt_irrefl a
            simpa only [irrefl, false_or, true_and] using rest
          · obtain ⟨equal, less⟩ := difference_sign a b
            rw [difference, if_neg same, List.cons_lt_cons_iff, List.cons.injEq]
            simpa only [same, false_and, or_false] using And.intro (equal.trans (iff_false_intro same)) less

section Comparing

variable {mem : Memory} {address address' : Word} {s t : Str} {core : Fields}

theorem difference_nil : difference [] t = 0 - (t.headD 0).toUInt32 := by cases t <;> rfl

theorem difference_cons {a : UInt8} (some' : a ≠ 0) : difference (a :: s) t =
    if a = t.headD 0 then difference s t.tail else a.toUInt32 - (t.headD 0).toUInt32 := by
  cases t with
  | nil => exact (if_neg some').symm
  | cons b t => rfl

/-- What a round reads at its two pointers. -/
theorem heads_read {place place' : Word} (spells : mem.Spells address s) (spells' : mem.Spells address' t)
    (here : place = address) (here' : place' = address') (memory : core.mem = mem) :
    ((core.mem place).toUInt32 = 0 ↔ s.headD 0 = 0) ∧
      (core.mem place).toUInt32 - (core.mem place').toUInt32 = (s.headD 0).toUInt32 - (t.headD 0).toUInt32 := by
  rw [memory, here, here', spells.head, spells'.head]
  exact ⟨byte_eq_zero, rfl⟩

theorem strcmp_loop (spells : mem.Spells address s) (spells' : mem.Spells address' t) (here : core.reg 5 + 1 = address)
    (here' : core.reg 4 + 1 = address') (memory : core.mem = mem) :
    Yields mem (difference s t) (.inside .strcmp 1) core := by
  induction s generalizing address address' t core with
  | nil =>
      obtain ⟨ended, result⟩ := heads_read spells spells' here here' memory
      refine straight rfl (straight rfl (straight rfl (straight rfl ?_)))
      exact comesBack rfl (decide_eq_true (ended.mpr rfl)) ⟨_, rfl, result.trans difference_nil.symm, memory⟩
  | cons a s ih =>
      obtain ⟨ended, result⟩ := heads_read spells spells' here here' memory
      have some' : a ≠ 0 := spells.2.1
      refine straight rfl (straight rfl (straight rfl (straight rfl (stays rfl (decide_eq_false (mt ended.mp some')) ?_))))
      rw [difference_cons some']
      by_cases same : a = t.headD 0
      · rw [if_pos same]
        refine taken rfl (decide_eq_true (result.trans ((difference_sign _ _).1.mpr same))) ?_
        exact ih spells.2.2 (spells'.tail (same ▸ some')) (congrArg (· + 1) here) (congrArg (· + 1) here') memory
      · rw [if_neg same]
        refine passed rfl (decide_eq_false fun zero => same ?_) (back rfl ⟨_, rfl, result, memory⟩)
        exact (difference_sign _ _).1.mp (result.symm.trans zero)

theorem strcmp_run (core : Fields) (spells : mem.Spells address s) (spells' : mem.Spells address' t) (third : Word)
    (memory : core.mem = mem) :
    Yields mem (difference s t) (.entry .strcmp) (core.call address address' third) :=
  straight rfl (straight rfl (strcmp_loop spells spells' (neg_add_cancel_right address 1)
    (neg_add_cancel_right address' 1) memory))

/-- With at least one byte to compare. -/
theorem strncmp_loop {left : Nat} (spells : mem.Spells address s) (spells' : mem.Spells address' t)
    (here : core.reg 6 + 1 = address) (here' : core.reg 4 + 1 = address') (memory : core.mem = mem)
    (counts : core.ctr = UInt32.ofNat (left + 1)) (small : left + 1 < 2 ^ 32) :
    Yields mem (difference (s.take (left + 1)) (t.take (left + 1))) (.inside .strncmp 1) core := by
  have first (t : Str) (left : Nat) : (t.take (left + 1)).headD 0 = t.headD 0 := by cases t <;> rfl
  have behind (t : Str) (left : Nat) : (t.take (left + 1)).tail = t.tail.take left := by cases t <;> simp
  induction s generalizing address address' t core left with
  | nil =>
      obtain ⟨ended, result⟩ := heads_read spells spells' here here' memory
      rw [List.take_nil, difference_nil, first]
      refine straight rfl (straight rfl (straight rfl (straight rfl ?_)))
      exact comesBack rfl (decide_eq_true (ended.mpr rfl)) ⟨_, rfl, result, memory⟩
  | cons a s ih =>
      obtain ⟨ended, result⟩ := heads_read spells spells' here here' memory
      obtain ⟨counted, more⟩ := counts_down counts (Nat.succ_pos left) small
      have some' : a ≠ 0 := spells.2.1
      refine straight rfl (straight rfl (straight rfl (straight rfl (stays rfl (decide_eq_false (mt ended.mp some')) ?_))))
      rw [List.take_succ_cons, difference_cons some', first, behind]
      by_cases same : a = t.headD 0
      · rw [if_pos same]
        have zero := result.trans ((difference_sign _ _).1.mpr same)
        cases left with
        | zero =>
            refine passed rfl (decide_eq_false fun goesOn => ?_) (back rfl ⟨_, rfl, zero, memory⟩)
            exact Nat.lt_irrefl 1 (more.mp goesOn.1)
        | succ left =>
            refine taken rfl (decide_eq_true ⟨more.mpr (by omega), decide_eq_true zero⟩) ?_
            exact ih spells.2.2 (spells'.tail (same ▸ some')) (congrArg (· + 1) here) (congrArg (· + 1) here') memory
              counted (by omega)
      · rw [if_neg same]
        refine passed rfl (decide_eq_false fun goesOn => same ?_) (back rfl ⟨_, rfl, result, memory⟩)
        exact (difference_sign _ _).1.mp (result.symm.trans (of_decide_eq_true goesOn.2))

/-- Without a byte to compare, the first argument comes back. -/
theorem strncmp_run (core : Fields) (spells : mem.Spells address s) (spells' : mem.Spells address' t) (n : Word)
    (memory : core.mem = mem) :
    Yields mem (if n = 0 then address else difference (s.take n.toNat) (t.take n.toNat)) (.entry .strncmp)
      (core.call address address' n) := by
  refine straight rfl (straight rfl (straight rfl ?_))
  by_cases none : n = 0
  · rw [if_pos none]
    exact comesBack rfl (decide_eq_true none) ⟨_, rfl, rfl, memory⟩
  · rw [if_neg none]
    have some' : n.toNat ≠ 0 := fun zero => none (UInt32.toNat_inj.mp zero)
    obtain ⟨left, count⟩ := Nat.exists_eq_succ_of_ne_zero some'
    rw [count]
    refine stays rfl (decide_eq_false none) (straight rfl ?_)
    have counts : n = UInt32.ofNat (left + 1) := by rw [← Nat.succ_eq_add_one, ← count, UInt32.ofNat_toNat]
    exact strncmp_loop spells spells' (neg_add_cancel_right address 1) (neg_add_cancel_right address' 1) memory counts
      (count.symm.trans_lt n.toNat_lt)

/-- Bytes in memory, of which any may be zero. -/
def Memory.HasBytes (mem : Memory) : Word → List UInt8 → Prop
  | _, [] => True
  | address, b :: bytes => mem address = b ∧ Memory.HasBytes mem (address + 1) bytes

theorem memcmp_loop {a b : UInt8} (holds : mem.HasBytes address (a :: s)) (holds' : mem.HasBytes address' (b :: t))
    (same : s.length = t.length) (here : core.reg 6 + 1 = address) (here' : core.reg 4 + 1 = address')
    (memory : core.mem = mem) (counts : core.ctr = UInt32.ofNat (s.length + 1)) (small : s.length + 1 < 2 ^ 32) :
    Yields mem (difference (a :: s) (b :: t)) (.inside .memcmp 1) core := by
  induction s generalizing a b t address address' core with
  | nil =>
      obtain ⟨-, more⟩ := counts_down counts (Nat.succ_pos _) small
      have result : (core.mem (core.reg 6 + 1)).toUInt32 - (core.mem (core.reg 4 + 1)).toUInt32 =
          a.toUInt32 - b.toUInt32 := by rw [memory, here, here', holds.1, holds'.1]
      cases List.eq_nil_of_length_eq_zero same.symm
      refine straight rfl (straight rfl (straight rfl (passed rfl (decide_eq_false fun goesOn => ?_) (back rfl
        ⟨_, rfl, ?_, memory⟩))))
      · exact Nat.lt_irrefl 1 (more.mp goesOn.1)
      · refine result.trans ?_
        by_cases equal : a = b
        · rw [difference, if_pos equal, (difference_sign a b).1.mpr equal]
          rfl
        · rw [difference, if_neg equal]
  | cons a' s ih =>
      obtain ⟨counted, more⟩ := counts_down counts (Nat.succ_pos _) small
      have result : (core.mem (core.reg 6 + 1)).toUInt32 - (core.mem (core.reg 4 + 1)).toUInt32 =
          a.toUInt32 - b.toUInt32 := by rw [memory, here, here', holds.1, holds'.1]
      obtain ⟨b', t, rfl⟩ := List.exists_cons_of_length_eq_add_one same.symm
      refine straight rfl (straight rfl (straight rfl ?_))
      by_cases equal : a = b
      · rw [difference, if_pos equal]
        have zero := result.trans ((difference_sign a b).1.mpr equal)
        refine taken rfl (decide_eq_true ⟨more.mpr (by simp), decide_eq_true zero⟩) ?_
        exact ih holds.2 holds'.2 (Nat.succ.inj same) (congrArg (· + 1) here) (congrArg (· + 1) here') memory counted
          (Nat.lt_of_succ_lt small)
      · rw [difference, if_neg equal]
        refine passed rfl (decide_eq_false fun goesOn => equal ?_) (back rfl ⟨_, rfl, result, memory⟩)
        exact (difference_sign a b).1.mp (result.symm.trans (of_decide_eq_true goesOn.2))

/-- With a count that is not positive, the first argument comes back. -/
theorem memcmp_run (core : Fields) {n : Word} (holds : mem.HasBytes address s) (holds' : mem.HasBytes address' t)
    (length : s.length = n.toNat) (length' : t.length = n.toNat) (memory : core.mem = mem) :
    Yields mem (if 0 < n.toInt32 then difference s t else address) (.entry .memcmp)
      (core.call address address' n) := by
  refine straight rfl ?_
  by_cases positive : 0 < n.toInt32
  · rw [if_pos positive]
    refine stays rfl (congrArg not (decide_eq_true positive)) ?_
    have some' : n.toNat ≠ 0 := by
      intro zero
      rw [show n = 0 from UInt32.toNat_inj.mp zero] at positive
      exact absurd positive (by decide)
    obtain ⟨left, count⟩ := Nat.exists_eq_succ_of_ne_zero some'
    obtain ⟨a, s, rfl⟩ := List.exists_cons_of_length_eq_add_one (length.trans count)
    obtain ⟨b, t, rfl⟩ := List.exists_cons_of_length_eq_add_one (length'.trans count)
    have counts : n = UInt32.ofNat (s.length + 1) := by rw [← List.length_cons, length, UInt32.ofNat_toNat]
    refine straight rfl (straight rfl (straight rfl ?_))
    exact memcmp_loop holds holds' (Nat.succ.inj (length.trans length'.symm)) (neg_add_cancel_right address 1)
      (neg_add_cancel_right address' 1) memory counts (length.trans_lt n.toNat_lt)
  · rw [if_neg positive]
    exact comesBack rfl (congrArg not (decide_eq_false positive)) ⟨_, rfl, rfl, memory⟩

end Comparing

/-! ## What the calls give -/

section Calls

variable {address address' c x y n : Word} {s t : Str} {core : Fields}

/-- A call comes back with this in `r3` and leaves the memory alone. -/
def Gives (routine : Routine) (before : Fields) (value : Word → Prop) : Prop :=
  ∃ final, strings.Returns (.entry routine) before final ∧ value (final.reg 3) ∧ final.mem = before.mem

theorem Gives.of_yields {routine : Routine} {before : Fields} {value : Word} {Good : Word → Prop}
    (yields : Yields before.mem value (.entry routine) before) (good : Good value) : Gives routine before Good := by
  obtain ⟨final, returns, same, memory⟩ := returns_of_eventually yields
  exact ⟨final, returns, same.symm ▸ good, memory⟩

/-- `strlen`, `strchr` and `strrchr`, for every string in memory: the length; the first place of
a character, where a NUL stands behind the string and the result is NULL without one; and the last
place, where the NUL does not count. -/
theorem strings_searched (spells : core.mem.Spells address s) :
    Gives .strlen (core.call address x y) (· = UInt32.ofNat s.length) ∧
      Gives .strchr (core.call address c y) (· = firstPlace c address s) ∧
      Gives .strrchr (core.call address c y) (· = (lastPlace? c address s).getD 0) :=
  ⟨.of_yields (strlen_run core spells x y rfl) rfl, .of_yields (strchr_run core spells c y rfl) rfl,
    .of_yields (strrchr_run core spells c y rfl) rfl⟩

/-- The string `a/b/` at address 16. -/
def Fields.slashes : Fields where
  toCore := { Core.idle with mem := fun place =>
    if place = 16 then 97 else if place = 17 ∨ place = 19 then 47 else if place = 18 then 98 else 0 }
  eq1 := false

theorem slashes_spell : Fields.slashes.mem.Spells 16 (str "a/b/") :=
  ⟨by decide, by decide, by decide, by decide, by decide, by decide, by decide, by decide, rfl⟩

theorem strings_searched_sample : Gives .strlen (Fields.slashes.call 16 47 0) (· = 4) ∧
    Gives .strchr (Fields.slashes.call 16 47 0) (· = 17) ∧ Gives .strrchr (Fields.slashes.call 16 47 0) (· = 19) := by
  have first : firstPlace 47 16 (str "a/b/") = 17 := by decide
  have last : (lastPlace? 47 16 (str "a/b/")).getD 0 = 19 := by decide
  have found := strings_searched (c := 47) (x := 47) (y := 0) slashes_spell
  rw [first, last] at found
  exact found

/-- How a result tells that one string equals another, or comes before it. -/
def Tells (s t : Str) (result : Word) : Prop := (result = 0 ↔ s = t) ∧ (result.toInt32 < 0 ↔ s < t)

/-- `strcmp`, `strncmp` and `memcmp` compare as they should, unless there is nothing to
compare: then the two with a count return their first argument. -/
structure Compares (core : Fields) (address address' n : Word) : Prop where
  strcmp : ∀ {s t : Str}, core.mem.Spells address s → core.mem.Spells address' t →
    Gives .strcmp (core.call address address' n) (Tells s t)
  strncmp : ∀ {s t : Str}, core.mem.Spells address s → core.mem.Spells address' t →
    Gives .strncmp (core.call address address' n)
      fun result => if n = 0 then result = address else Tells (s.take n.toNat) (t.take n.toNat) result
  memcmp : ∀ {s t : Str}, core.mem.HasBytes address s → core.mem.HasBytes address' t → s.length = n.toNat →
    t.length = n.toNat → Gives .memcmp (core.call address address' n)
      fun result => if 0 < n.toInt32 then Tells s t result else result = address

theorem strings_compared (core : Fields) (address address' n : Word) : Compares core address address' n where
  strcmp spells spells' := by
    refine .of_yields (strcmp_run core spells spells' n rfl) ?_
    exact difference_compares (.inl ⟨spells.zero_notMem, spells'.zero_notMem⟩)
  strncmp {s t} spells spells' := by
    refine .of_yields (strncmp_run core spells spells' n rfl) ?_
    by_cases none : n = 0
    · rw [if_pos none, if_pos none]
    · rw [if_neg none, if_neg none]
      have within (s : Str) (noNul : 0 ∉ s) : 0 ∉ s.take n.toNat := fun member => noNul (List.mem_of_mem_take member)
      exact difference_compares (.inl ⟨within s spells.zero_notMem, within t spells'.zero_notMem⟩)
  memcmp holds holds' length length' := by
    refine .of_yields (memcmp_run core holds holds' length length' rfl) ?_
    split
    · exact difference_compares (.inr (length.trans length'.symm))
    · rfl

end Calls

end IQuik.PowerPC
