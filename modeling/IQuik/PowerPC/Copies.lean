import IQuik.PowerPC.Movement
import IQuik.PowerPC.Routines

namespace IQuik.PowerPC

open IQuik.Program Listing

/-! # `memmove`, `memcpy` and `backwards_memcpy` -/

/-- The labels of `string.S`, with the numbered ones of `memcpy` and of
`backwards_memcpy` kept apart. -/
inductive CopyLabel where
  | memmove
  | memcpy
  | forward (number : Nat)
  | backwardsMemcpy
  | backward (number : Nat)
deriving DecidableEq

/-- `string.S` from `memmove` to the end of `backwards_memcpy`. -/
def copies : Listing CopyLabel :=
  [(.memmove, [.cmplw 3 4, .bgt .backwardsMemcpy]),
    (.memcpy,
      [.rlwinmRc 7 5 29 3 31, .addi 6 3 (-4), .addi 4 4 (-4), .beq (.forward 2), .andiRc 0 6 3, .mtctr 7,
        .bne (.forward 5)]),
    (.forward 1,
      [.lwz 7 4 4, .lwzu 8 8 4, .stw 7 4 6, .stwu 8 8 6, .bdnz (.forward 1), .andiRc 5 5 7]),
    (.forward 2, [.cmplwi 5 4, .blt (.forward 3), .lwzu 0 4 4, .addi 5 5 (-4), .stwu 0 4 6]),
    (.forward 3, [.cmpwi 5 0, .beqlr, .mtctr 5, .addi 4 4 3, .addi 6 6 3]),
    (.forward 4, [.lbzu 0 1 4, .stbu 0 1 6, .bdnz (.forward 4), .blr]),
    (.forward 5, [.subfic 0 0 4, .mtctr 0]),
    (.forward 6,
      [.lbz 7 4 4, .addi 4 4 1, .stb 7 4 6, .addi 6 6 1, .bdnz (.forward 6), .subf 5 0 5,
        .rlwinmRc 7 5 29 3 31, .beq (.forward 2), .mtctr 7, .b (.forward 1)]),
    (.backwardsMemcpy,
      [.rlwinmRc 7 5 29 3 31, .add 6 3 5, .add 4 4 5, .beq (.backward 2), .andiRc 0 6 3, .mtctr 7,
        .bne (.backward 5)]),
    (.backward 1,
      [.lwz 7 (-4) 4, .lwzu 8 (-8) 4, .stw 7 (-4) 6, .stwu 8 (-8) 6, .bdnz (.backward 1), .andiRc 5 5 7]),
    (.backward 2, [.cmplwi 5 4, .blt (.backward 3), .lwzu 0 (-4) 4, .subi 5 5 4, .stwu 0 (-4) 6]),
    (.backward 3, [.cmpwi 5 0, .beqlr, .mtctr 5]),
    (.backward 4, [.lbzu 0 (-1) 4, .stbu 0 (-1) 6, .bdnz (.backward 4), .blr]),
    (.backward 5, [.mtctr 0]),
    (.backward 6,
      [.lbzu 7 (-1) 4, .stbu 7 (-1) 6, .bdnz (.backward 6), .subf 5 0 5, .rlwinmRc 7 5 29 3 31,
        .beq (.backward 2), .mtctr 7, .b (.backward 1)])]

/-- `memmove (dest, src, n)`, and the same for the other two. -/
def callCopy (dest src n : Word) (core : Core) : Core := ((core.set 3 dest).set 4 src).set 5 n

/-! ## How the bytes are counted -/

section Counting

variable {register : Word} {left : Nat}

theorem eighths (rest : register = UInt32.ofNat left) (small : left < 2 ^ 32) :
    rotateLeft register 29 &&& mask 3 31 = UInt32.ofNat (left / 8) := by
  rw [rest]
  exact rotateLeft_ofNat 3 (by decide) (by decide) small

theorem eighths_eq_zero (rest : register = UInt32.ofNat left) (small : left < 2 ^ 32) :
    rotateLeft register 29 &&& mask 3 31 = 0 ↔ left < 8 := by
  rw [eighths rest small, ofNat_eq_zero (by omega)]
  omega

/-- The bytes of an address behind the last word. -/
theorem odd_bytes (address : Word) : address &&& 3 = UInt32.ofNat (address.toNat % 4) := by
  have low := ofNat_and_low address.toNat 2
  rwa [UInt32.ofNat_toNat] at low

theorem odd_bytes_eq_zero (address : Word) : address &&& 3 = 0 ↔ address.toNat % 4 = 0 := by
  rw [odd_bytes, ofNat_eq_zero (by omega)]

theorem below_eight (rest : register = UInt32.ofNat left) : register &&& 7 = UInt32.ofNat (left % 8) := by
  rw [rest]
  exact ofNat_and_low left 3

end Counting

/-! # Forwards -/

section Forwards

variable {mem : Memory} {dst src ahead : Word} {n done left : Nat} {core : Core}

/-- The bytes up to `done` have been moved, and both pointers are `ahead` bytes
before the next one. -/
structure Forward (mem : Memory) (dst src ahead : Word) (done : Nat) (core : Core) : Prop where
  source : core.reg 4 + ahead = place src done
  target : core.reg 6 + ahead = place dst done
  moved : core.mem = mem.moved dst src 0 done

/-- All bytes have been moved. -/
def Copied (mem : Memory) (dst src : Word) (n : Nat) (run : Run CopyLabel) : Prop :=
  ∃ final, run = .returned final ∧ final.mem = mem.moved dst src 0 n

/-- The code at a label moves what is left. -/
abbrev Completes (mem : Memory) (dst src : Word) (n : Nat) (label : CopyLabel) (core : Core) : Prop :=
  Eventually copies.step (Copied mem dst src n) (.running (copies.codeAt label) core)

/-- Bytes can be moved from the first one on. -/
structure Ascending (dst src : Word) (n : Nat) : Prop extends Ranges dst src n where
  direction : dst.toNat ≤ src.toNat ∨ src.toNat + n ≤ dst.toNat

theorem Ascending.byte (ascending : Ascending dst src n) (inside : done < n) :
    mem.moved dst src 0 done (place src done) = mem (place src done) := by
  have direction := ascending.direction
  exact moved_unread ascending.toRanges (Nat.le_of_lt inside) inside fun k _ below => by omega

theorem Ascending.word (ascending : Ascending dst src n) {next : Nat} (later : done ≤ next) (inside : next + 4 ≤ n) :
    (mem.moved dst src 0 done).word (place src next) = mem.word (place src next) := by
  have direction := ascending.direction
  exact moved_unread_word ascending.toRanges (by omega) inside fun k c small _ below => by omega

theorem Ascending.storeByte (ascending : Ascending dst src n) {read written : Word} {now : Memory}
    (source : read = place src done) (target : written = place dst done) (moved : now = mem.moved dst src 0 done)
    (inside : done < n) :
    now.storeByte written (now read).toUInt32.toUInt8 = mem.moved dst src 0 (done + 1) := by
  have bound := ascending.target
  rw [source, target, moved, ascending.byte inside, UInt8.toUInt8_toUInt32]
  exact moved_byte (by omega) fun k => by omega

theorem Ascending.store (ascending : Ascending dst src n) {read written : Word} {now : Memory}
    (source : read = place src done) (target : written = place dst done) (moved : now = mem.moved dst src 0 done)
    (inside : done + 4 ≤ n) :
    now.store written (now.word read) = mem.moved dst src 0 (done + 4) := by
  have bound := ascending.target
  rw [source, target, moved, ascending.word (Nat.le_refl done) inside]
  exact moved_word (by omega) fun k => by omega

/-- Two words are loaded before the first of them is stored. -/
theorem Ascending.storeTwo (ascending : Ascending dst src n) {read written read' written' : Word} {now : Memory}
    (source : read = place src done) (source' : read' = place src (done + 4))
    (target : written = place dst done) (target' : written' = place dst (done + 4))
    (moved : now = mem.moved dst src 0 done) (inside : done + 4 + 4 ≤ n) :
    (now.store written (now.word read)).store written' (now.word read') = mem.moved dst src 0 (done + 8) := by
  have bound := ascending.target
  rw [ascending.store source target moved (by omega), source', target', moved,
    ascending.word (Nat.le_add_right done 4) inside]
  exact moved_word (by omega) fun k => by omega

/-- `4:`, one byte in each round. -/
theorem forward4 (ascending : Ascending dst src n) (at' : Forward mem dst src 1 done core)
    (counts : core.ctr = UInt32.ofNat left) (some' : 0 < left) (all : done + left = n) (small : n < 2 ^ 32) :
    Completes mem dst src n (.forward 4) core := by
  refine loop (fun round => Forward mem dst src 1 (done + round)) ?_ ?_ some' counts (by omega) at'
  · intro round early core holds
    obtain ⟨source, target, moved⟩ := holds
    have inside : done + round < n := by omega
    refine straight rfl (straight rfl (.now ⟨_, rfl, rfl, ?_, ?_, ?_⟩))
    · exact place_step source 1
    · exact place_step target 1
    · exact ascending.storeByte source target moved inside
  · intro core holds
    obtain ⟨source, target, moved⟩ := holds
    rw [all] at moved
    exact blr ⟨_, rfl, moved⟩

/-- `3:`, the last three bytes at most. -/
theorem forward3 (ascending : Ascending dst src n) (at' : Forward mem dst src 4 done core)
    (rest : core.reg 5 = UInt32.ofNat left) (all : done + left = n) (small : n < 2 ^ 32) :
    Completes mem dst src n (.forward 3) core := by
  refine straight rfl ?_
  have none : core.reg 5 = 0 ↔ left = 0 := by rw [rest, ofNat_eq_zero (by omega)]
  by_cases finished : left = 0
  · have moved := at'.moved
    rw [show done = n by omega] at moved
    exact beqlr_back (decide_eq_true (none.mpr finished)) ⟨_, rfl, moved⟩
  · refine beqlr_passed (decide_eq_false (mt none.mp finished)) ?_
    refine straight rfl (straight rfl (straight rfl ?_))
    refine forward4 ascending ⟨?_, ?_, at'.moved⟩ rest (by omega) all small
    · exact (UInt32.add_assoc ..).trans at'.source
    · exact (UInt32.add_assoc ..).trans at'.target

/-- `2:`, one more word if there is one. -/
theorem forward2 (ascending : Ascending dst src n) (at' : Forward mem dst src 4 done core)
    (rest : core.reg 5 = UInt32.ofNat left) (all : done + left = n) (small : n < 2 ^ 32) :
    Completes mem dst src n (.forward 2) core := by
  refine straight rfl ?_
  have few : core.reg 5 < 4 ↔ left < 4 := by
    rw [rest]
    exact ofNat_lt (by omega) (by decide)
  by_cases word : left < 4
  · refine taken rfl (decide_eq_true (few.mpr word)) ?_
    exact forward3 ascending ⟨at'.source, at'.target, at'.moved⟩ rest all small
  · refine passed rfl (decide_eq_false (mt few.mp word)) ?_
    refine straight rfl (straight rfl (straight rfl ?_))
    refine forward3 ascending ⟨?_, ?_, ?_⟩ ?_ (show done + 4 + (left - 4) = n by omega) small
    · exact place_step at'.source 4
    · exact place_step at'.target 4
    · exact ascending.store at'.source at'.target at'.moved (by omega)
    · have less : core.reg 5 - 4 = UInt32.ofNat (left - 4) := by
        rw [rest]
        exact (UInt32.ofNat_sub (b := 4) (by omega)).symm
      exact (UInt32.sub_eq_add_neg ..).symm.trans less

/-- `1:`, two words in each round. -/
theorem forward1 (ascending : Ascending dst src n) (at' : Forward mem dst src 4 done core)
    (rest : core.reg 5 = UInt32.ofNat left) (counts : core.ctr = UInt32.ofNat (left / 8)) (some' : 8 ≤ left)
    (all : done + left = n) (small : n < 2 ^ 32) :
    Completes mem dst src n (.forward 1) core := by
  refine loop (fun round core => Forward mem dst src 4 (done + 8 * round) core ∧
    core.reg 5 = UInt32.ofNat left) ?_ ?_ (by omega) counts (by omega) ⟨at', rest⟩
  · intro round early core holds
    obtain ⟨⟨source, target, moved⟩, rest⟩ := holds
    have inside : done + 8 * round + 4 + 4 ≤ n := by omega
    refine straight rfl (straight rfl (straight rfl (straight rfl (.now ⟨_, rfl, rfl, ⟨?_, ?_, ?_⟩, rest⟩))))
    · exact place_advance source 8
    · exact place_advance target 8
    · exact ascending.storeTwo source ((UInt32.add_assoc ..).symm.trans (place_step source 4)) target
        ((UInt32.add_assoc ..).symm.trans (place_step target 4)) moved inside
  · intro core holds
    obtain ⟨at', rest⟩ := holds
    refine straight rfl ?_
    exact forward2 ascending ⟨at'.source, at'.target, at'.moved⟩ (below_eight rest) (by omega) small

/-- `6:`, the bytes in front of a word of the target. -/
theorem forward6 {few : Nat} (ascending : Ascending dst src n) (at' : Forward mem dst src 4 done core)
    (rest : core.reg 5 = UInt32.ofNat left) (bytes : core.reg 0 = UInt32.ofNat few)
    (counts : core.ctr = UInt32.ofNat few) (some' : 0 < few) (enough : few ≤ left)
    (all : done + left = n) (small : n < 2 ^ 32) :
    Completes mem dst src n (.forward 6) core := by
  refine loop (fun round core => Forward mem dst src 4 (done + round) core ∧
    core.reg 5 = UInt32.ofNat left ∧ core.reg 0 = UInt32.ofNat few) ?_ ?_ some' counts (by omega) ⟨at', rest, bytes⟩
  · intro round early core holds
    obtain ⟨⟨source, target, moved⟩, rest, bytes⟩ := holds
    have inside : done + round < n := by omega
    refine straight rfl (straight rfl (straight rfl (straight rfl
      (.now ⟨_, rfl, rfl, ⟨?_, ?_, ?_⟩, rest, bytes⟩))))
    · exact place_advance source 1
    · exact place_advance target 1
    · exact ascending.storeByte source target moved inside
  · intro core holds
    obtain ⟨at', rest, bytes⟩ := holds
    refine straight rfl (straight rfl ?_)
    have less : core.reg 5 - core.reg 0 = UInt32.ofNat (left - few) := by
      rw [rest, bytes, UInt32.ofNat_sub enough]
    have words := eighths less (by omega)
    have none := eighths_eq_zero less (by omega)
    by_cases short : left - few < 8
    · refine taken rfl (decide_eq_true (none.mpr short)) ?_
      exact forward2 ascending ⟨at'.source, at'.target, at'.moved⟩ less (by omega) small
    · refine passed rfl (decide_eq_false (mt none.mp short)) ?_
      refine straight rfl (b ?_)
      exact forward1 ascending ⟨at'.source, at'.target, at'.moved⟩ less words (by omega) (by omega) small

/-- `5:`, where the target does not start at a word. -/
theorem forward5 {odd : Nat} (ascending : Ascending dst src n) (at' : Forward mem dst src 4 0 core)
    (rest : core.reg 5 = UInt32.ofNat n) (bytes : core.reg 0 = UInt32.ofNat odd) (some' : 0 < odd) (few : odd < 4)
    (enough : 8 ≤ n) (small : n < 2 ^ 32) :
    Completes mem dst src n (.forward 5) core := by
  have missing : 4 - core.reg 0 = UInt32.ofNat (4 - odd) := by
    rw [bytes]
    exact (UInt32.ofNat_sub (a := 4) (by omega)).symm
  refine straight rfl (straight rfl ?_)
  exact forward6 ascending ⟨at'.source, at'.target, at'.moved⟩ rest missing missing (by omega) (by omega) (by omega)
    small

theorem memcpy_run (ascending : Ascending dst src n) (source : core.reg 4 = src) (target : core.reg 3 = dst)
    (memory : core.mem = mem) (rest : core.reg 5 = UInt32.ofNat n) (small : n < 2 ^ 32) :
    Completes mem dst src n .memcpy core := by
  have words := eighths rest small
  have none := eighths_eq_zero rest small
  have start (next : Core) (source' : next.reg 4 = core.reg 4 + -4) (target' : next.reg 6 = core.reg 3 + -4)
      (memory' : next.mem = core.mem) : Forward mem dst src 4 0 next := by
    refine ⟨?_, ?_, ?_⟩
    · rw [source', source, place_zero]
      grind
    · rw [target', target, place_zero]
      grind
    · rw [memory', memory, moved_nothing (Nat.le_refl 0)]
  have odd := odd_bytes (core.reg 3 + -4)
  have aligned := odd_bytes_eq_zero (core.reg 3 + -4)
  refine straight rfl (straight rfl (straight rfl ?_))
  by_cases short : n < 8
  · refine taken rfl (decide_eq_true (none.mpr short)) ?_
    exact forward2 ascending (start _ rfl rfl rfl) rest (by omega) small
  · refine passed rfl (decide_eq_false (mt none.mp short)) ?_
    refine straight rfl (straight rfl ?_)
    by_cases even : (core.reg 3 + -4).toNat % 4 = 0
    · refine passed rfl (congrArg not (decide_eq_true (aligned.mpr even))) ?_
      exact forward1 ascending (start _ rfl rfl rfl) rest words (by omega) (by omega) small
    · refine taken rfl (congrArg not (decide_eq_false (mt aligned.mp even))) ?_
      exact forward5 ascending (start _ rfl rfl rfl) rest odd (by omega) (by omega) (by omega) small

end Forwards

/-! # Backwards -/

section Backwards

variable {mem : Memory} {dst src : Word} {n left next : Nat} {core : Core}

/-- The bytes from `left` on have been moved, and both pointers are behind the
next one. -/
structure Backward (mem : Memory) (dst src : Word) (n left : Nat) (core : Core) : Prop where
  source : core.reg 4 = place src left
  target : core.reg 6 = place dst left
  moved : core.mem = mem.moved dst src left n

/-- Bytes can be moved from the last one on. -/
structure Descending (dst src : Word) (n : Nat) : Prop extends Ranges dst src n where
  direction : src.toNat ≤ dst.toNat

section Pieces

variable {read written read' written' : Word} {now : Memory}

theorem Descending.byte (descending : Descending dst src n) (inside : next < n) :
    mem.moved dst src (next + 1) n (place src next) = mem (place src next) := by
  have direction := descending.direction
  exact moved_unread descending.toRanges (Nat.le_refl n) inside fun k above _ => by omega

theorem Descending.word (descending : Descending dst src n) (earlier : next + 4 ≤ left) (inside : left ≤ n) :
    (mem.moved dst src left n).word (place src next) = mem.word (place src next) := by
  have direction := descending.direction
  exact moved_unread_word descending.toRanges (Nat.le_refl n) (by omega) fun k c small above _ => by omega

theorem Descending.storeByte (descending : Descending dst src n) (source : read = place src next)
    (target : written = place dst next) (moved : now = mem.moved dst src (next + 1) n) (inside : next < n) :
    now.storeByte written (now read).toUInt32.toUInt8 = mem.moved dst src next n := by
  have bound := descending.target
  rw [source, target, moved, descending.byte inside, UInt8.toUInt8_toUInt32]
  exact moved_byte (by omega) fun k => by omega

theorem Descending.store (descending : Descending dst src n) (source : read = place src next)
    (target : written = place dst next) (moved : now = mem.moved dst src (next + 4) n) (inside : next + 4 ≤ n) :
    now.store written (now.word read) = mem.moved dst src next n := by
  have bound := descending.target
  rw [source, target, moved, descending.word (Nat.le_refl _) inside]
  exact moved_word (by omega) fun k => by omega

/-- Two words are loaded before the first of them is stored. -/
theorem Descending.storeTwo (descending : Descending dst src n) (source : read = place src (next + 4))
    (source' : read' = place src next) (target : written = place dst (next + 4))
    (target' : written' = place dst next) (moved : now = mem.moved dst src (next + 4 + 4) n)
    (inside : next + 4 + 4 ≤ n) :
    (now.store written (now.word read)).store written' (now.word read') = mem.moved dst src next n := by
  have bound := descending.target
  rw [descending.store source target moved inside, source', target', moved,
    descending.word (Nat.le_add_right (next + 4) 4) inside]
  exact moved_word (by omega) fun k => by omega

end Pieces

/-- `4:`, one byte in each round. -/
theorem backward4 (descending : Descending dst src n) (at' : Backward mem dst src n left core)
    (counts : core.ctr = UInt32.ofNat left) (some' : 0 < left) (inside : left ≤ n) (small : n < 2 ^ 32) :
    Completes mem dst src n (.backward 4) core := by
  refine loop (fun round => Backward mem dst src n (left - round)) ?_ ?_ some' counts (by omega) at'
  · intro round early core holds
    obtain ⟨source, target, moved⟩ := holds
    have before : left - round = left - (round + 1) + 1 := by omega
    rw [before] at source target moved
    have read := place_retreat 1 source
    have written := place_retreat 1 target
    refine straight rfl (straight rfl (.now ⟨_, rfl, rfl, read, written, ?_⟩))
    have stored := descending.storeByte read written moved (by omega)
    simpa [Core.apply, Core.storeByte] using stored
  · intro core holds
    obtain ⟨source, target, moved⟩ := holds
    rw [Nat.sub_self] at moved
    exact blr ⟨_, rfl, moved⟩

/-- `3:`, the last three bytes at most. -/
theorem backward3 (descending : Descending dst src n) (at' : Backward mem dst src n left core)
    (rest : core.reg 5 = UInt32.ofNat left) (inside : left ≤ n) (small : n < 2 ^ 32) :
    Completes mem dst src n (.backward 3) core := by
  refine straight rfl ?_
  have none : core.reg 5 = 0 ↔ left = 0 := by rw [rest, ofNat_eq_zero (by omega)]
  by_cases finished : left = 0
  · subst finished
    exact beqlr_back (decide_eq_true (none.mpr rfl)) ⟨_, rfl, at'.moved⟩
  · refine beqlr_passed (decide_eq_false (mt none.mp finished)) (straight rfl ?_)
    exact backward4 descending ⟨at'.source, at'.target, at'.moved⟩ rest (by omega) inside small

/-- `2:`, one more word if there is one. -/
theorem backward2 (descending : Descending dst src n) (at' : Backward mem dst src n left core)
    (rest : core.reg 5 = UInt32.ofNat left) (inside : left ≤ n) (small : n < 2 ^ 32) :
    Completes mem dst src n (.backward 2) core := by
  refine straight rfl ?_
  have few : core.reg 5 < 4 ↔ left < 4 := by
    rw [rest]
    exact ofNat_lt (by omega) (by decide)
  by_cases word : left < 4
  · refine taken rfl (decide_eq_true (few.mpr word)) ?_
    exact backward3 descending ⟨at'.source, at'.target, at'.moved⟩ rest inside small
  · refine passed rfl (decide_eq_false (mt few.mp word)) ?_
    obtain ⟨next, rfl⟩ := Nat.exists_eq_add_of_le' (Nat.le_of_not_lt word)
    have less : core.reg 5 + -4 = UInt32.ofNat next := by
      rw [rest, UInt32.ofNat_add]
      exact add_neg_cancel_right ..
    have read := place_retreat 4 at'.source
    have written := place_retreat 4 at'.target
    refine straight rfl (straight rfl (straight rfl ?_))
    exact backward3 descending ⟨read, written, descending.store read written at'.moved inside⟩ less (by omega) small

/-- `1:`, two words in each round. -/
theorem backward1 (descending : Descending dst src n) (at' : Backward mem dst src n left core)
    (rest : core.reg 5 = UInt32.ofNat left) (counts : core.ctr = UInt32.ofNat (left / 8)) (some' : 8 ≤ left)
    (inside : left ≤ n) (small : n < 2 ^ 32) :
    Completes mem dst src n (.backward 1) core := by
  refine loop (fun round core => Backward mem dst src n (left - 8 * round) core ∧
    core.reg 5 = UInt32.ofNat left) ?_ ?_ (by omega) counts (by omega) ⟨at', rest⟩
  · intro round early core holds
    obtain ⟨⟨source, target, moved⟩, rest⟩ := holds
    have before : left - 8 * round = left - 8 * (round + 1) + 8 := by omega
    rw [before] at source target moved
    have stored := descending.storeTwo (place_retreat 4 source) (place_retreat 8 source) (place_retreat 4 target)
      (place_retreat 8 target) moved (by omega)
    refine straight rfl (straight rfl (straight rfl (straight rfl (.now ⟨_, rfl, rfl, ⟨?_, ?_, ?_⟩, rest⟩))))
    · exact place_retreat 8 source
    · exact place_retreat 8 target
    · simpa [Core.apply, Core.store, Cpu.address] using stored
  · intro core holds
    obtain ⟨at', rest⟩ := holds
    have remaining : left - 8 * (left / 8) = left % 8 := by omega
    rw [remaining] at at'
    refine straight rfl ?_
    exact backward2 descending ⟨at'.source, at'.target, at'.moved⟩ (below_eight rest) (by omega) small

/-- `6:`, the bytes behind the last word of the target. -/
theorem backward6 {few : Nat} (descending : Descending dst src n) (at' : Backward mem dst src n n core)
    (rest : core.reg 5 = UInt32.ofNat n) (bytes : core.reg 0 = UInt32.ofNat few)
    (counts : core.ctr = UInt32.ofNat few) (some' : 0 < few) (enough : few ≤ n) (small : n < 2 ^ 32) :
    Completes mem dst src n (.backward 6) core := by
  refine loop (fun round core => Backward mem dst src n (n - round) core ∧
    core.reg 5 = UInt32.ofNat n ∧ core.reg 0 = UInt32.ofNat few) ?_ ?_ some' counts (by omega) ⟨at', rest, bytes⟩
  · intro round early core holds
    obtain ⟨⟨source, target, moved⟩, rest, bytes⟩ := holds
    have before : n - round = n - (round + 1) + 1 := by omega
    rw [before] at source target moved
    have read := place_retreat 1 source
    have written := place_retreat 1 target
    have stored := descending.storeByte read written moved (by omega)
    refine straight rfl (straight rfl (.now ⟨_, rfl, rfl, ⟨read, written, ?_⟩, rest, bytes⟩))
    simpa [Core.apply, Core.storeByte] using stored
  · intro core holds
    obtain ⟨at', rest, bytes⟩ := holds
    have less : core.reg 5 - core.reg 0 = UInt32.ofNat (n - few) := by
      rw [rest, bytes, UInt32.ofNat_sub enough]
    have words := eighths less (by omega)
    have none := eighths_eq_zero less (by omega)
    refine straight rfl (straight rfl ?_)
    by_cases short : n - few < 8
    · refine taken rfl (decide_eq_true (none.mpr short)) ?_
      exact backward2 descending ⟨at'.source, at'.target, at'.moved⟩ less (by omega) small
    · refine passed rfl (decide_eq_false (mt none.mp short)) (straight rfl (b ?_))
      exact backward1 descending ⟨at'.source, at'.target, at'.moved⟩ less words (by omega) (by omega) small

theorem backwardsMemcpy_run (descending : Descending dst src n) (source : core.reg 4 = src)
    (target : core.reg 3 = dst) (memory : core.mem = mem) (rest : core.reg 5 = UInt32.ofNat n) (small : n < 2 ^ 32) :
    Completes mem dst src n .backwardsMemcpy core := by
  have words := eighths rest small
  have none := eighths_eq_zero rest small
  have start (next : Core) (source' : next.reg 4 = core.reg 4 + core.reg 5)
      (target' : next.reg 6 = core.reg 3 + core.reg 5) (memory' : next.mem = core.mem) :
      Backward mem dst src n n next := by
    refine ⟨?_, ?_, ?_⟩
    · rw [source', source, rest, place]
    · rw [target', target, rest, place]
    · rw [memory', memory, moved_nothing (Nat.le_refl n)]
  have odd := odd_bytes (core.reg 3 + core.reg 5)
  have aligned := odd_bytes_eq_zero (core.reg 3 + core.reg 5)
  refine straight rfl (straight rfl (straight rfl ?_))
  by_cases short : n < 8
  · refine taken rfl (decide_eq_true (none.mpr short)) ?_
    exact backward2 descending (start _ rfl rfl rfl) rest (Nat.le_refl n) small
  · refine passed rfl (decide_eq_false (mt none.mp short)) ?_
    refine straight rfl (straight rfl ?_)
    by_cases even : (core.reg 3 + core.reg 5).toNat % 4 = 0
    · refine passed rfl (congrArg not (decide_eq_true (aligned.mpr even))) ?_
      exact backward1 descending (start _ rfl rfl rfl) rest words (by omega) (Nat.le_refl n) small
    · refine taken rfl (congrArg not (decide_eq_false (mt aligned.mp even))) (straight rfl ?_)
      exact backward6 descending (start _ rfl rfl rfl) rest odd odd (by omega) (by omega) small

end Backwards

/-! # `memmove` -/

theorem ascending_or_descending {dst src : Word} {n : Nat} (ranges : Ranges dst src n) :
    if src < dst then Descending dst src n else Ascending dst src n := by
  split
  · next above => exact ⟨ranges, Nat.le_of_lt (UInt32.lt_iff_toNat_lt.mp above)⟩
  · next notAbove => exact ⟨ranges, .inl (Nat.le_of_not_lt (mt UInt32.lt_iff_toNat_lt.mpr notAbove))⟩

/-- Wherever the two ranges lie, `memmove` comes back with the bytes moved. -/
theorem memmove_run (core : Core) {dst src n : Word} (ranges : Ranges dst src n.toNat) :
    ∃ final, copies.Returns .memmove (callCopy dst src n core) final ∧
      final.mem = core.mem.moved dst src 0 n.toNat := by
  have rest : (callCopy dst src n core).reg 5 = UInt32.ofNat n.toNat := UInt32.ofNat_toNat.symm
  have direction := ascending_or_descending ranges
  apply returns_of_eventually
  refine straight rfl ?_
  by_cases above : src < dst
  · rw [if_pos above] at direction
    refine taken rfl (decide_eq_true above) ?_
    exact backwardsMemcpy_run direction rfl rfl rfl rest n.toNat_lt
  · rw [if_neg above] at direction
    refine passed rfl (decide_eq_false above) ?_
    exact memcpy_run direction rfl rfl rfl rest n.toNat_lt

/-- `memmove (dest, src, n)` leaves every byte of the source at its place in the
target, and no other byte changes. -/
theorem memmove_moves (core : Core) (dest src n : Word) (target : dest.toNat + n.toNat ≤ 2 ^ 32)
    (source : src.toNat + n.toNat ≤ 2 ^ 32) :
    ∃ final, copies.Returns .memmove (callCopy dest src n core) final ∧
      (∀ j < n.toNat, final.mem (place dest j) = core.mem (place src j)) ∧
      ∀ address, (∀ j < n.toNat, address ≠ place dest j) → final.mem address = core.mem address := by
  obtain ⟨final, returns, moved⟩ := memmove_run core (n := n) ⟨target, source⟩
  refine ⟨final, returns, fun j inside => ?_, fun address outside => ?_⟩
  · rw [moved]
    exact moved_inside (by omega) (Nat.zero_le j) inside
  · rw [moved]
    exact moved_outside fun j _ inside => outside j inside

/-- Each byte of memory is the last one of its address. -/
def Core.numbered : Core := { Core.idle with mem := UInt32.toUInt8 }

theorem memmove_overlapping : ∃ final, copies.Returns .memmove (callCopy 0x1002 0x1001 13 Core.numbered) final ∧
    final.mem 0x1005 = 0x04 ∧ final.mem 0x1001 = 0x01 := by
  obtain ⟨final, returns, moved, kept⟩ := memmove_moves Core.numbered 0x1002 0x1001 13 (by decide) (by decide)
  exact ⟨final, returns, moved 3 (by decide), kept 0x1001 (by decide)⟩

end IQuik.PowerPC
