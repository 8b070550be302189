import IQuik.PowerPC.Copies
import IQuik.PowerPC.Strings
import Mathlib.Tactic.IntervalCases

namespace IQuik.PowerPC

open IQuik.Data IQuik.Program Code

/-! # Copying strings: `strcpy`, `strncpy` and `strcat` -/

section Copying

variable {mem : Memory} {dst src : Word} {s t : Str} {n done : Nat} {core : Fields}

/-- A string routine comes back, with the first `count` bytes of the source at the target. -/
def Delivered (mem : Memory) (result dst src : Word) (count : Nat) (position : Position (FieldOp StringLabel) Fields) :
    Prop :=
  ∃ final, position = .returned final ∧ final.reg 3 = result ∧ final.mem = mem.moved dst src 0 count

abbrev Delivers (mem : Memory) (result dst src : Word) (count : Nat) (label : StringLabel) (core : Fields) : Prop :=
  Eventually strings.step (Delivered mem result dst src count) (.running (strings.from' label) core)

/-- `done` bytes have been copied, with `target` behind the last of them. -/
structure Copying (mem : Memory) (result dst src : Word) (target : Reg) (done : Nat) (core : Fields) : Prop where
  read : core.reg 4 + 1 = place src done
  write : core.reg target + 1 = place dst done
  result : core.reg 3 = result
  moved : core.mem = mem.moved dst src 0 done

/-- The bytes of a string and the NUL behind it. -/
theorem Memory.Spells.byte (spells : mem.Spells src s) (inside : done ≤ s.length) :
    mem (place src done) = 0 ↔ done = s.length := by
  rcases Nat.lt_or_eq_of_le inside with before | rfl
  · rw [spells.get before]
    refine iff_of_false (fun zero => spells.zero_notMem ?_) (Nat.ne_of_lt before)
    exact zero ▸ List.getElem_mem before
  · exact iff_of_true spells.end rfl

/-- One byte goes over. -/
theorem Copying.step {result : Word} {target : Reg} {before after : Fields} (copying : Copying mem result dst src target done before)
    (ascending : Ascending dst src n) (inside : done < n) (read : after.reg 4 = before.reg 4 + 1)
    (write : after.reg target = before.reg target + 1) (same : after.reg 3 = before.reg 3)
    (stored : after.mem = before.mem.storeByte (before.reg target + 1)
      (before.mem (before.reg 4 + 1)).toUInt32.toUInt8) :
    Copying mem result dst src target (done + 1) after where
  read := by rw [read]; exact place_step copying.read 1
  write := by rw [write]; exact place_step copying.write 1
  result := same.trans copying.result
  moved := stored.trans (ascending.storeByte copying.read copying.write copying.moved inside)

/-- What a round reads: the byte of the source, whatever has been copied. -/
theorem Copying.reads {result : Word} {target : Reg} (copying : Copying mem result dst src target done core)
    (ascending : Ascending dst src n) (inside : done < n) : core.mem (core.reg 4 + 1) = mem (place src done) := by
  rw [copying.read, copying.moved, ascending.byte inside]

theorem delivered_of_copying {result : Word} (target : Reg) (copying : Copying mem result dst src target done core) :
    Delivered mem result dst src done (.returned core.back) :=
  ⟨core.back, rfl, copying.result, copying.moved⟩

/-- The loop of `strcpy`, and the second one of `strcat`. -/
theorem copy_loop {result : Word} {rest : List (FieldOp StringLabel)} (label : StringLabel) (spells : mem.Spells src s)
    (ascending : Ascending dst src (s.length + 1))
    (listing : strings.from' label = .op (.lbzu 0 1 4) :: .op (.cmpwi 0 0) :: .op (.stbu 0 1 5) ::
      .op (.bne label) :: .op .blr :: rest)
    (start : Copying mem result dst src 5 0 core) : Delivers mem result dst src (s.length + 1) label core := by
  have enter {Goal : Position (FieldOp StringLabel) Fields → Prop} {state : Fields}
      (later : Eventually strings.step Goal (.running (.op (.lbzu 0 1 4) :: .op (.cmpwi 0 0) :: .op (.stbu 0 1 5) ::
        .op (.bne label) :: .op .blr :: rest) state)) :
      Eventually strings.step Goal (.running (strings.from' label) state) := by
    rwa [listing]
  refine loop (fun done => Copying mem result dst src 5 done) s.length ?_ ?_ start
  · intro done early state copying
    have inside : done < s.length + 1 := Nat.lt_succ_of_lt early
    have goesOn : ¬(state.mem (state.reg 4 + 1)).toUInt32 = 0 := by
      rw [copying.reads ascending inside, byte_eq_zero, spells.byte (Nat.le_of_lt early)]
      exact Nat.ne_of_lt early
    refine enter (straight rfl (straight rfl (straight rfl (taken rfl (congrArg not (decide_eq_false goesOn))
      (.now ⟨_, rfl, ?_⟩)))))
    exact copying.step ascending inside rfl rfl rfl rfl
  · intro state copying
    have inside : s.length < s.length + 1 := Nat.lt_succ_self _
    have nul : (state.mem (state.reg 4 + 1)).toUInt32 = 0 := by
      rw [copying.reads ascending inside, byte_eq_zero, spells.byte (Nat.le_refl _)]
    refine enter (straight rfl (straight rfl (straight rfl (passed rfl (congrArg not (decide_eq_true nul)) ?_))))
    refine back rfl (delivered_of_copying 5 ?_)
    exact copying.step ascending inside rfl rfl rfl rfl

theorem strcpy_run (core : Fields) (third : Word) (spells : mem.Spells src s)
    (ascending : Ascending dst src (s.length + 1)) (memory : core.mem = mem) :
    Delivers mem dst dst src (s.length + 1) (.entry .strcpy) (core.call dst src third) := by
  refine straight rfl (straight rfl (copy_loop (.inside .strcpy 1) spells ascending rfl ⟨?_, ?_, rfl, ?_⟩))
  · exact (neg_add_cancel_right src 1).trans (place_zero src).symm
  · exact (neg_add_cancel_right dst 1).trans (place_zero dst).symm
  · exact memory.trans (moved_nothing (Nat.le_refl 0)).symm

/-- `1:` of `strcat`, which finds the end of the string in front. -/
theorem strcat_find {result here : Word} (spells : mem.Spells here t) (at' : core.reg 5 + 1 = here)
    (source : core.reg 4 + 1 = src) (began : core.reg 3 = result) (memory : core.mem = mem)
    {Goal : Position (FieldOp StringLabel) Fields → Prop}
    (later : ∀ state : Fields, Copying mem result (place here t.length) src 5 0 state →
      Eventually strings.step Goal (.running (strings.from' (.inside .strcat 2)) state)) :
    Eventually strings.step Goal (.running (strings.from' (.inside .strcat 1)) core) := by
  induction t generalizing here core with
  | nil =>
      have nul : (core.mem (core.reg 5 + 1)).toUInt32 = 0 := by
        rw [memory, at']
        exact byte_eq_zero.mpr spells
      refine straight rfl (straight rfl (passed rfl (congrArg not (decide_eq_true nul)) (straight rfl (later _ ?_))))
      refine ⟨source.trans (place_zero src).symm, ?_, began, memory.trans (moved_nothing (Nat.le_refl 0)).symm⟩
      rw [List.length_nil, place_zero, place_zero]
      exact (neg_add_cancel_right (core.reg 5 + 1) 1).trans at'
  | cons b t ih =>
      obtain ⟨first, some', rest⟩ := spells
      have goesOn : ¬(core.mem (core.reg 5 + 1)).toUInt32 = 0 := by
        rw [memory, at', first, byte_eq_zero]
        exact some'
      rw [List.length_cons, ← place_succ] at later
      refine straight rfl (straight rfl (taken rfl (congrArg not (decide_eq_false goesOn)) ?_))
      exact ih rest (congrArg (· + 1) at') source began memory later

theorem strcat_run (core : Fields) (third : Word) (front : mem.Spells dst t) (spells : mem.Spells src s)
    (ascending : Ascending (place dst t.length) src (s.length + 1)) (memory : core.mem = mem) :
    Delivers mem dst (place dst t.length) src (s.length + 1) (.entry .strcat) (core.call dst src third) := by
  have copies (state : Fields) (copying : Copying mem dst (place dst t.length) src 5 0 state) :=
    copy_loop (.inside .strcat 2) spells ascending rfl copying
  refine straight rfl (straight rfl (strcat_find front ?_ ?_ ?_ ?_ copies))
  · exact neg_add_cancel_right dst 1
  · exact neg_add_cancel_right src 1
  · rfl
  · exact memory

/-- The loop of `strncpy`, with `left + 1` bytes of room. -/
theorem strncpy_loop {result : Word} {left : Nat} (spells : mem.Spells src s)
    (ascending : Ascending dst src (min (left + 1) (s.length + 1))) (small : left + 1 < 2 ^ 32)
    (counts : core.ctr = UInt32.ofNat (left + 1)) (start : Copying mem result dst src 6 0 core) :
    Delivers mem result dst src (min (left + 1) (s.length + 1)) (.inside .strncpy 1) core := by
  refine loop (fun done state => Copying mem result dst src 6 done state ∧
    state.ctr = UInt32.ofNat (left + 1 - done)) (min left s.length) ?_ ?_ ⟨start, counts⟩
  · rintro done early state ⟨copying, counts⟩
    have inside : done < min (left + 1) (s.length + 1) := by omega
    obtain ⟨counted, more⟩ := counts_down counts (by omega) (by omega)
    have goesOn : ¬(state.mem (state.reg 4 + 1)).toUInt32 = 0 := by
      rw [copying.reads ascending inside, byte_eq_zero, spells.byte (by omega)]
      omega
    refine straight rfl (straight rfl (straight rfl (taken rfl (decide_eq_true ⟨more.mpr (by omega), ?_⟩)
      (.now ⟨_, rfl, copying.step ascending inside rfl rfl rfl rfl, ?_⟩))))
    · exact congrArg not (decide_eq_false goesOn)
    · exact counted.trans (congrArg UInt32.ofNat (by omega))
  · rintro state ⟨copying, counts⟩
    have inside : min left s.length < min (left + 1) (s.length + 1) := by omega
    obtain ⟨counted, more⟩ := counts_down counts (by omega) (by omega)
    have nul : (state.mem (state.reg 4 + 1)).toUInt32 = 0 ↔ min left s.length = s.length := by
      rw [copying.reads ascending inside, byte_eq_zero, spells.byte (by omega)]
    have last : min (left + 1) (s.length + 1) = min left s.length + 1 := by omega
    rw [last]
    refine straight rfl (straight rfl (straight rfl (passed rfl (decide_eq_false fun goesOn => ?_) (back rfl
      (delivered_of_copying 6 ?_)))))
    · have room := more.mp goesOn.1
      have stop : ¬(state.mem (state.reg 4 + 1)).toUInt32 = 0 :=
        of_decide_eq_false (Eq.mp (Bool.not_eq_true' _) goesOn.2)
      rw [nul] at stop
      omega
    · exact copying.step ascending inside rfl rfl rfl rfl

/-- With no room, `strncpy` only returns the target. -/
theorem strncpy_run (core : Fields) {n : Word} (spells : mem.Spells src s)
    (ascending : Ascending dst src (min n.toNat (s.length + 1))) (memory : core.mem = mem) :
    Delivers mem dst dst src (min n.toNat (s.length + 1)) (.entry .strncpy) (core.call dst src n) := by
  refine straight rfl ?_
  by_cases none : n = 0
  · refine comesBack rfl (decide_eq_true none) ⟨_, rfl, rfl, ?_⟩
    rw [none]
    exact memory.trans (moved_nothing (Nat.min_le_left _ _)).symm
  · have some' : n.toNat ≠ 0 := fun zero => none (UInt32.toNat_inj.mp zero)
    obtain ⟨left, count⟩ := Nat.exists_eq_succ_of_ne_zero some'
    have counts : n = UInt32.ofNat (left + 1) := by rw [← Nat.succ_eq_add_one, ← count, UInt32.ofNat_toNat]
    rw [count] at ascending ⊢
    refine stays rfl (decide_eq_false none) (straight rfl (straight rfl (straight rfl ?_)))
    refine strncpy_loop spells ascending (count.symm.trans_lt n.toNat_lt) counts ⟨?_, ?_, rfl, ?_⟩
    · exact (neg_add_cancel_right src 1).trans (place_zero src).symm
    · exact (neg_add_cancel_right dst 1).trans (place_zero dst).symm
    · exact memory.trans (moved_nothing (Nat.le_refl 0)).symm

end Copying

/-! ## Filling -/

section Filling

variable {mem : Memory} {dst value : Word} {n done count left : Nat} {core : Fields}

/-- The first `count` bytes behind `dst` are all `byte`. -/
def Memory.filled (mem : Memory) (dst : Word) (byte : UInt8) (count : Nat) : Memory := fun address =>
  if (address - dst).toNat < count then byte else mem address

/-- The two `rlwimi` at the start of `memset`. -/
def spread (value : Word) : Word :=
  let twice := rotateLeft value 8 &&& mask 16 23 ||| value &&& ~~~mask 16 23
  rotateLeft twice 16 &&& mask 0 15 ||| twice &&& ~~~mask 0 15

theorem spread_bytes (value : Word) : (spread value >>> 24).toUInt8 = value.toUInt8 ∧
    (spread value >>> 16).toUInt8 = value.toUInt8 ∧ (spread value >>> 8).toUInt8 = value.toUInt8 ∧
    (spread value).toUInt8 = value.toUInt8 := by
  have low : mask 16 23 = 0xFF00 := by decide
  have high : mask 0 15 = 0xFFFF0000 := by decide
  simp only [spread, rotateLeft, low, high]
  refine ⟨?_, ?_, ?_, ?_⟩
  all_goals
    apply UInt8.toBitVec_inj.mp
    ext i inside
    interval_cases i <;> simp

theorem filled_byte {mem : Memory} {byte : UInt8} {i : Nat} (reached : i ≤ count) (bound : i < 2 ^ 32) :
    (mem.filled dst byte count).storeByte (place dst i) byte = mem.filled dst byte (max count (i + 1)) := by
  funext address
  rw [Memory.storeByte, Function.update_apply]
  have offset : address = place dst i ↔ (address - dst).toNat = i := by
    rw [← offset_eq bound, place, sub_eq_iff_eq_add, UInt32.add_comm]
  by_cases here : address = place dst i
  · rw [if_pos here, Memory.filled, if_pos (by have := offset.mp here; omega)]
  · rw [if_neg here, Memory.filled, Memory.filled]
    have other := mt offset.mpr here
    exact if_congr (by omega) rfl rfl

/-- The four bytes of such a word, in the order of their addresses. -/
theorem store_spread (mem : Memory) (address value : Word) : mem.store address (spread value) =
    (((mem.storeByte address value.toUInt8).storeByte (place address 1) value.toUInt8).storeByte
      (place address 2) value.toUInt8).storeByte (place address 3) value.toUInt8 := by
  obtain ⟨first, second, third, fourth⟩ := spread_bytes value
  funext here
  simp only [Memory.store, Memory.storeByte, Function.update_apply, first, second, third, fourth]
  show _ = if here = address + 3 then _ else if here = address + 2 then _ else if here = address + 1 then _ else _
  grind

theorem filled_word {mem : Memory} {i : Nat} (reached : i ≤ count) (bound : i + 4 ≤ 2 ^ 32) :
    (mem.filled dst value.toUInt8 count).store (place dst i) (spread value) =
      mem.filled dst value.toUInt8 (max count (i + 4)) := by
  rw [store_spread, place_place, place_place, place_place, filled_byte reached (by omega),
    filled_byte (by omega) (by omega), filled_byte (by omega) (by omega), filled_byte (by omega) (by omega)]
  congr 1
  omega

/-- The first `reach` bytes are filled, and the pointer is `ahead` bytes before byte `at'`. -/
structure Filling (mem : Memory) (dst value ahead : Word) (at' reach : Nat) (core : Fields) : Prop where
  pointer : core.reg 6 + ahead = place dst at'
  word : core.reg 4 = spread value
  result : core.reg 3 = dst
  filled : core.mem = mem.filled dst value.toUInt8 reach

/-- `memset` comes back with its target filled. -/
def Filled (mem : Memory) (dst value : Word) (n : Nat) (position : Position (FieldOp StringLabel) Fields) : Prop :=
  ∃ final, position = .returned final ∧ final.reg 3 = dst ∧ final.mem = mem.filled dst value.toUInt8 n

abbrev Fills (mem : Memory) (dst value : Word) (n : Nat) (label : StringLabel) (core : Fields) : Prop :=
  Eventually strings.step (Filled mem dst value n) (.running (strings.from' label) core)

/-- `8:`, one byte in each round. -/
theorem memset8 {at' reach : Nat} (at8 : Filling mem dst value 1 at' reach core) (counts : core.ctr = UInt32.ofNat left)
    (some' : 0 < left) (all : at' + left = n) (reached : at' ≤ reach) (within : reach ≤ n) (small : n < 2 ^ 32) :
    Fills mem dst value n (.inside .memset 8) core := by
  refine rounds (fun done state => Filling mem dst value 1 (at' + done) (max reach (at' + done)) state ∧
    state.ctr = UInt32.ofNat (left - done)) ((strings.from' (.inside .memset 8)).drop 2) some' ?_ ?_ ⟨?_, counts⟩
  · rintro done early state ⟨filling, counts⟩
    obtain ⟨counted, more⟩ := counts_down counts (by omega) (by omega)
    have pointer := place_step filling.pointer 1
    refine straight rfl (branches rfl ?_ ⟨⟨pointer, filling.word, filling.result, ?_⟩, ?_⟩)
    · exact more.trans (by omega)
    · show state.mem.storeByte (state.reg 6 + 1) (state.reg 4).toUInt8 = _
      rw [filling.pointer, filling.word, (spread_bytes value).2.2.2, filling.filled, filled_byte (by omega) (by omega)]
      congr 1
      omega
    · exact counted.trans (congrArg UInt32.ofNat (by omega))
  · rintro state ⟨filling, counts⟩
    refine back rfl ⟨_, rfl, filling.result, filling.filled.trans ?_⟩
    rw [show max reach (at' + left) = n by omega]
  · rw [show max reach (at' + 0) = reach by omega]
    exact at8

/-- `7:`, the last three bytes at most, or all of a short target. -/
theorem memset7 {at' reach : Nat} (at7 : Filling mem dst value 4 at' reach core)
    (rest : core.reg 5 = UInt32.ofNat left) (all : at' + left = n) (reached : at' ≤ reach) (within : reach ≤ n)
    (small : n < 2 ^ 32) : Fills mem dst value n (.inside .memset 7) core := by
  refine straight rfl ?_
  have none : core.reg 5 = 0 ↔ left = 0 := by rw [rest, ofNat_eq_zero (by omega)]
  by_cases finished : left = 0
  · refine comesBack rfl (decide_eq_true (none.mpr finished)) ⟨_, rfl, at7.result, at7.filled.trans ?_⟩
    rw [show reach = n by omega]
  · refine stays rfl (decide_eq_false (mt none.mp finished)) (straight rfl (straight rfl ?_))
    have pointer : core.reg 6 + 3 + 1 = place dst at' := (UInt32.add_assoc ..).trans at7.pointer
    exact memset8 ⟨pointer, at7.word, at7.result, at7.filled⟩ rest (by omega) all reached within small

/-- `6:`, what is left behind the words. -/
theorem memset6 {at' reach total : Nat} (at6 : Filling mem dst value 4 at' reach core)
    (rest : core.reg 5 = UInt32.ofNat total) (all : at' + total % 4 = n) (reached : at' ≤ reach) (within : reach ≤ n)
    (small : n < 2 ^ 32) : Fills mem dst value n (.inside .memset 6) core := by
  have remaining : core.reg 5 &&& 3 = UInt32.ofNat (total % 4) := by
    rw [rest]
    exact ofNat_and_low total 2
  exact straight rfl (memset7 ⟨at6.pointer, at6.word, at6.result, at6.filled⟩ remaining all reached within small)

/-- The whole words behind the first one, and then what is left. The pointer goes
from the word of the target's first byte to the next; `total` counts from there. -/
theorem memset1 {odd total : Nat} (at1 : Filling mem dst value 4 (4 - odd) 4 core) (few : odd < 4)
    (counts : core.ctr = UInt32.ofNat (total / 4 - 1)) (some' : 1 < total / 4) (rest : core.reg 5 = UInt32.ofNat total)
    (all : total = n + odd) (small : total < 2 ^ 32) : Fills mem dst value n (.inside .memset 1) core := by
  have goes : 0 < total / 4 - 1 := by omega
  refine rounds (fun done state => Filling mem dst value 4 (4 - odd + 4 * done) (max 4 (4 - odd + 4 * done)) state ∧
    state.ctr = UInt32.ofNat (total / 4 - 1 - done) ∧ state.reg 5 = UInt32.ofNat total)
    ((strings.from' (.inside .memset 1)).drop 2) goes ?_ ?_ ⟨?_, counts, rest⟩
  · rintro done early state ⟨filling, counts, rest⟩
    obtain ⟨counted, more⟩ := counts_down counts (by omega) (by omega)
    have pointer := place_step filling.pointer 4
    refine straight rfl (branches rfl ?_ ⟨⟨pointer, filling.word, filling.result, ?_⟩, ?_, rest⟩)
    · exact more.trans (by omega)
    · show state.mem.store (state.reg 6 + 4) (state.reg 4) = _
      rw [filling.pointer, filling.word, filling.filled, filled_word (by omega) (by omega)]
      congr 1
      omega
    · exact counted.trans (congrArg UInt32.ofNat (by omega))
  · rintro state ⟨filling, -, rest⟩
    exact memset6 filling rest (by omega) (by omega) (by omega) (by omega)
  · rw [show max 4 (4 - odd + 4 * 0) = 4 by omega]
    exact at1

theorem memset_run (core : Fields) (memory : core.mem = mem) (fits : dst.toNat + n < 2 ^ 32) :
    Fills mem dst value n (.entry .memset) (core.call dst value (UInt32.ofNat n)) := by
  have few : UInt32.ofNat n < 4 ↔ n < 4 := ofNat_lt (by omega) (by decide)
  have word : UInt32.ofNat n = 4 ↔ n = 4 := by
    rw [← UInt32.toNat_inj, UInt32.toNat_ofNat', Nat.mod_eq_of_lt (by omega)]
    rfl
  have nothing : mem.filled dst value.toUInt8 0 = mem := funext fun _ => if_neg (Nat.not_lt_zero _)
  have here : dst + -4 + 4 = place dst 0 := (neg_add_cancel_right dst 4).trans (place_zero dst).symm
  refine straight rfl (straight rfl (straight rfl (straight rfl ?_)))
  by_cases short : n < 4
  · refine taken rfl (decide_eq_true (few.mpr short)) ?_
    refine memset7 ⟨here, rfl, rfl, memory.trans nothing.symm⟩ rfl (Nat.zero_add n) (Nat.le_refl 0) (Nat.zero_le n) ?_
    omega
  · refine passed rfl (decide_eq_false (mt few.mp short)) (straight rfl ?_)
    have stored : (core.mem.store (dst + -4 + 4) (spread value)) = mem.filled dst value.toUInt8 4 := by
      rw [here, memory, ← nothing]
      exact (filled_word (Nat.le_refl 0) (by decide)).trans (congrArg (mem.filled dst value.toUInt8) rfl)
    by_cases four : n = 4
    · refine comesBack rfl (decide_eq_true (word.mpr four)) ⟨_, rfl, rfl, ?_⟩
      rw [four]
      exact stored
    · refine stays rfl (decide_eq_false (mt word.mp four)) (straight rfl (straight rfl (straight rfl (straight rfl
        (straight rfl ?_)))))
      have odd : (dst + -4 + 4) &&& 3 = UInt32.ofNat (dst.toNat % 4) := by
        rw [neg_add_cancel_right, odd_bytes]
      have total : ((dst + -4 + 4) &&& 3) + UInt32.ofNat n = UInt32.ofNat (dst.toNat % 4 + n) := by
        rw [odd, UInt32.ofNat_add]
      have words : rotateLeft (((dst + -4 + 4) &&& 3) + UInt32.ofNat n) 30 &&& mask 2 31 =
          UInt32.ofNat ((dst.toNat % 4 + n) / 4) := by
        rw [total]
        exact rotateLeft_ofNat 2 (by decide) (by decide) (by omega)
      obtain ⟨counted, more⟩ := counts_down words (by omega) (by omega)
      have pointer : dst + -4 + 4 - ((dst + -4 + 4) &&& 3) + 4 = place dst (4 - dst.toNat % 4) := by
        rw [odd, neg_add_cancel_right, place, UInt32.ofNat_sub (a := 4) (by omega)]
        exact (sub_add_eq_add_sub ..).trans (add_sub_assoc ..)
      by_cases single : (dst.toNat % 4 + n) / 4 = 1
      · refine taken rfl (decide_eq_true ?_) (memset6 ⟨pointer, rfl, rfl, stored⟩ total ?_ ?_ ?_ ?_)
        · exact not_not.mp (mt more.mp (by omega))
        all_goals omega
      · refine passed rfl (decide_eq_false ?_) (memset1 ⟨pointer, rfl, rfl, stored⟩ ?_ counted ?_ total ?_ ?_)
        · exact more.mpr (by omega)
        all_goals omega

/-- `bzero` calls `memset` for zeros. -/
theorem bzero_run (core : Fields) (third : Word) (memory : core.mem = mem) (fits : dst.toNat + n < 2 ^ 32) :
    Fills mem dst 0 n (.entry .bzero) (core.call dst (UInt32.ofNat n) third) := by
  have regs : Function.update (Function.update ((core.call dst (UInt32.ofNat n) third).reg) 5 (UInt32.ofNat n)) 4 0 =
      (core.call dst 0 (UInt32.ofNat n)).reg := by
    funext r
    simp only [Fields.call, Fields.on, Core.set, Function.update_apply]
    grind
  have called : Fills mem dst 0 n (.entry .memset) (core.call dst 0 (UInt32.ofNat n)) := memset_run core memory fits
  refine straight rfl (straight rfl (jump rfl ?_))
  rw [show core.call dst 0 (UInt32.ofNat n) = { core.call dst (UInt32.ofNat n) third with
    reg := (core.call dst 0 (UInt32.ofNat n)).reg } from rfl, ← regs] at called
  exact called

theorem filled_inside {byte : UInt8} {j : Nat} (bound : j < 2 ^ 32) (inside : j < count) :
    mem.filled dst byte count (place dst j) = byte := by
  have offset : place dst j - dst = UInt32.ofNat j := add_sub_cancel_left ..
  refine if_pos ?_
  rwa [offset, (offset_eq bound).mp rfl]

theorem filled_outside {byte : UInt8} {address : Word} (outside : ∀ j < count, address ≠ place dst j) :
    mem.filled dst byte count address = mem address := by
  refine if_neg fun inside => outside _ inside ?_
  rw [place, UInt32.ofNat_toNat, add_sub_cancel]

end Filling

/-! ## What the calls leave -/

section Calls

variable {mem : Memory} {dst src : Word} {s t : Str} {core : Fields}

/-- A copied string stands at the target. -/
theorem spells_moved (spells : mem.Spells src s) (ascending : Ascending dst src (s.length + 1)) :
    (mem.moved dst src 0 (s.length + 1)).Spells dst s := by
  have bound := ascending.target
  have byte (j : Nat) (inside : j < s.length + 1) :
      mem.moved dst src 0 (s.length + 1) (place dst j) = mem (place src j) :=
    moved_inside (by have := spells.small; omega) (Nat.zero_le j) inside
  refine spells_of_get (fun i inside => ?_) spells.zero_notMem ?_
  · rw [byte i (Nat.lt_succ_of_lt inside)]
    exact spells.get inside
  · rw [byte _ (Nat.lt_succ_self _)]
    exact spells.end

/-- A string that is copied behind another makes one string with it. -/
theorem spells_append (front : mem.Spells dst t) (spells : mem.Spells src s)
    (ascending : Ascending (place dst t.length) src (s.length + 1))
    (fits : dst.toNat + t.length + s.length < 2 ^ 32) :
    (mem.moved (place dst t.length) src 0 (s.length + 1)).Spells dst (t ++ s) := by
  have copied := spells_moved spells ascending
  refine spells_of_get (fun i inside => ?_) ?_ ?_
  · rcases Nat.lt_or_ge i t.length with early | late
    · rw [List.getElem_append_left early, ← front.get early]
      refine moved_outside fun k _ below same => ?_
      rw [place_place] at same
      have here : (place dst i).toNat = dst.toNat + i := place_toNat (by omega)
      rw [same, place_toNat (by omega)] at here
      omega
    · rw [List.length_append] at inside
      have byte := copied.get (i := i - t.length) (by omega)
      rw [place_place, Nat.add_sub_cancel' late] at byte
      rw [List.getElem_append_right late]
      exact byte
  · exact fun member => (List.mem_append.mp member).elim front.zero_notMem spells.zero_notMem
  · rw [List.length_append, ← place_place]
    exact copied.end

/-- A call comes back with its first argument, and with this memory. -/
def Leaves (routine : Routine) (before : Fields) (holds : Memory → Prop) : Prop :=
  ∃ final, strings.Returns (.entry routine) before final ∧ final.reg 3 = before.reg 3 ∧ holds final.mem

/-- Bytes outside of a range are as they were. -/
def SameOutside (dst : Word) (count : Nat) (before after : Memory) : Prop :=
  ∀ address, (∀ j < count, address ≠ place dst j) → after address = before address

theorem moved_sameOutside {count : Nat} : SameOutside dst count mem (mem.moved dst src 0 count) :=
  fun _ outside => moved_outside fun j _ below => outside j below

theorem filled_sameOutside {byte : UInt8} {count : Nat} : SameOutside dst count mem (mem.filled dst byte count) :=
  fun _ outside => filled_outside outside

theorem SameOutside.nothing {after : Memory} (same : SameOutside dst 0 mem after) : after = mem :=
  funext fun address => same address fun _ inside => absurd inside (Nat.not_lt_zero _)

theorem SameOutside.widen {after : Memory} {low count more : Nat} (same : SameOutside (place dst low) count mem after)
    (inside : low + count ≤ more) : SameOutside dst more mem after := by
  refine fun address outside => same address fun j below => ?_
  rw [place_place]
  exact outside (low + j) (by omega)

theorem SameOutside.trans {after later : Memory} {count : Nat} (first : SameOutside dst count mem after)
    (second : SameOutside dst count after later) : SameOutside dst count mem later :=
  fun address outside => (second address outside).trans (first address outside)

theorem SameOutside.at_place {after : Memory} {low count i : Nat} (same : SameOutside (place dst low) count mem after)
    (bound : low + count ≤ 2 ^ 32) (before : i < low ∨ low + count ≤ i ∧ i < 2 ^ 32) :
    after (place dst i) = mem (place dst i) := by
  refine same _ fun j below => ?_
  rw [place_place, Ne, place_inj (by omega) (by omega)]
  omega

theorem Delivers.leaves {routine : Routine} {result target : Word} {count : Nat} {before : Fields}
    {holds : Memory → Prop} (delivers : Delivers before.mem result target src count (.entry routine) before)
    (same : before.reg 3 = result) (good : holds (before.mem.moved target src 0 count)) :
    Leaves routine before holds := by
  obtain ⟨final, returns, value, memory⟩ := returns_of_eventually delivers
  exact ⟨final, returns, value.trans same.symm, memory ▸ good⟩

theorem Fills.leaves {routine : Routine} {value : Word} {count : Nat} {before : Fields}
    (fills : Fills before.mem dst value count (.entry routine) before) (same : before.reg 3 = dst)
    (small : count < 2 ^ 32) :
    Leaves routine before fun mem =>
      (∀ j < count, mem (place dst j) = value.toUInt8) ∧ SameOutside dst count before.mem mem := by
  obtain ⟨final, returns, result, memory⟩ := returns_of_eventually fills
  rw [Leaves, same]
  refine ⟨final, returns, result, fun j inside => ?_, fun _ outside => ?_⟩
  · rw [memory]
    exact filled_inside (Nat.lt_trans inside small) inside
  · rw [memory]
    exact filled_outside outside

theorem hasBytes_of_get {bytes : List UInt8} (all : ∀ i, (inside : i < bytes.length) → mem (place dst i) = bytes[i]) :
    mem.HasBytes dst bytes := by
  induction bytes generalizing dst with
  | nil => trivial
  | cons b bytes ih =>
      refine ⟨(congrArg mem (place_zero dst)).symm.trans (all 0 (Nat.succ_pos _)), ih fun i inside => ?_⟩
      rw [place_succ]
      exact all (i + 1) (Nat.succ_lt_succ inside)

theorem Memory.Spells.get_nul (spells : mem.Spells src s) {i : Nat} (inside : i < (s ++ [0]).length) :
    mem (place src i) = (s ++ [0])[i] := by
  rw [List.length_append, List.length_singleton] at inside
  rcases Nat.lt_succ_iff_lt_or_eq.mp inside with early | rfl
  · rw [List.getElem_append_left early]
    exact spells.get early
  · rw [List.getElem_append_right (Nat.le_refl _)]
    simp only [Nat.sub_self, List.getElem_cons_zero]
    exact spells.end

/-- The three routines that copy strings, where no byte of the source is overwritten before it
is read. `strncpy` neither pads the target nor ends a string that does not fit. -/
structure CopiesStrings (core : Fields) (dst src n : Word) : Prop where
  strcpy : ∀ {s : Str}, core.mem.Spells src s → Ascending dst src (s.length + 1) →
    Leaves .strcpy (core.call dst src n) fun mem =>
      mem.Spells dst s ∧ SameOutside dst (s.length + 1) core.mem mem
  strncpy : ∀ {s : Str}, core.mem.Spells src s → Ascending dst src (min n.toNat (s.length + 1)) →
    Leaves .strncpy (core.call dst src n) fun mem =>
      mem.HasBytes dst ((s ++ [0]).take n.toNat) ∧ SameOutside dst (min n.toNat (s.length + 1)) core.mem mem
  strcat : ∀ {s t : Str}, core.mem.Spells dst t → core.mem.Spells src s →
    Ascending (place dst t.length) src (s.length + 1) → dst.toNat + t.length + s.length < 2 ^ 32 →
    Leaves .strcat (core.call dst src n) fun mem =>
      mem.Spells dst (t ++ s) ∧ SameOutside (place dst t.length) (s.length + 1) core.mem mem

theorem strings_copied (core : Fields) (dst src n : Word) : CopiesStrings core dst src n where
  strcpy spells ascending :=
    (strcpy_run core n spells ascending rfl).leaves rfl ⟨spells_moved spells ascending, moved_sameOutside⟩
  strncpy {s} spells ascending := by
    refine (strncpy_run core spells ascending rfl).leaves rfl ⟨hasBytes_of_get fun i inside => ?_, moved_sameOutside⟩
    have bound := ascending.target
    rw [List.length_take, List.length_append, List.length_singleton] at inside
    have small := n.toNat_lt
    rw [List.getElem_take, ← spells.get_nul]
    exact moved_inside (by omega) (Nat.zero_le i) inside
  strcat front spells ascending fits :=
    (strcat_run core n front spells ascending rfl).leaves rfl ⟨spells_append front spells ascending fits,
      moved_sameOutside⟩

/-- `memset` and `bzero` fill their target up to its last byte, whatever its alignment, and write
no other. -/
theorem memory_filled (core : Fields) (dst value n third : Word) (fits : dst.toNat + n.toNat < 2 ^ 32) :
    Leaves .memset (core.call dst value n) (fun mem =>
        (∀ j < n.toNat, mem (place dst j) = value.toUInt8) ∧ SameOutside dst n.toNat core.mem mem) ∧
      Leaves .bzero (core.call dst n third) fun mem =>
        (∀ j < n.toNat, mem (place dst j) = 0) ∧ SameOutside dst n.toNat core.mem mem := by
  have set : Fills core.mem dst value n.toNat _ _ := memset_run core rfl fits
  have zero := bzero_run core third rfl fits
  rw [UInt32.ofNat_toNat] at set zero
  exact ⟨set.leaves rfl n.toNat_lt, zero.leaves rfl n.toNat_lt⟩

/-- Seven bytes from an odd address on: a word, another over its end, and two bytes. -/
theorem memory_filled_sample :
    Leaves .memset (Fields.idle.call 0x1003 0x12AB 7) (fun mem =>
        (∀ j < (7 : Word).toNat, mem (place 0x1003 j) = (0x12AB : Word).toUInt8) ∧
          SameOutside 0x1003 (7 : Word).toNat Fields.idle.mem mem) ∧
      Leaves .bzero (Fields.idle.call 0x1003 7 0) fun mem =>
        (∀ j < (7 : Word).toNat, mem (place 0x1003 j) = 0) ∧
          SameOutside 0x1003 (7 : Word).toNat Fields.idle.mem mem :=
  memory_filled Fields.idle 0x1003 0x12AB 7 0 (by decide)

end Calls

end IQuik.PowerPC
