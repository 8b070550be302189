import IQuik.PowerPC.Cache
import IQuik.PowerPC.StringCopies

namespace IQuik.PowerPC

open IQuik.Program Code

/-! # The start-up code: `crt0.S` -/

inductive StartLabel where
  | start
  | line
  | clear
deriving DecidableEq

/-- The instructions of `crt0.S` that no other routine has. -/
inductive StartOp where
  | field (op : FieldOp StartLabel)
  | lis (rD : Reg) (value : Word)
  | ori (rA rS : Reg) (value : Word)
  /-- `b iquik_main`. -/
  | enter

def StartOp.exec : StartOp → Fields → Flow StartLabel Fields
  | .field op, core => op.exec core
  | .lis rD value, core => .next (core.on (core.set rD (value <<< 16)))
  | .ori rA rS value, core => .next (core.on (core.set rA (core.reg rS ||| value)))
  | .enter, core => .back core

/-- The symbols of `ld.script`. -/
structure Symbols where
  start : Word
  finish : Word
  bssStart : Word
  bssEnd : Word
  stackTop : Word

/-- The two halves of a symbol. -/
def loadSymbol (register : Reg) (symbol : Word) : List StartOp :=
  [.lis register (symbol >>> 16), .ori register register (symbol &&& 0xFFFF)]

def StartOp.plain (op : Op StartLabel) : StartOp := .field (.op op)

def crt0 (symbols : Symbols) : Code StartLabel StartOp :=
  [(.start, loadSymbol 10 symbols.start ++ loadSymbol 11 symbols.finish),
    (.line,
      [.plain (.dcbf 0 10), .plain (.icbi 0 10), .plain (.addi 10 10 4), .field (.cmpw 10 11), .plain (.bne .line),
        .plain .sync, .plain .isync] ++ loadSymbol 10 symbols.bssStart ++ loadSymbol 11 symbols.bssEnd ++
      [.plain (.subi 10 10 4), .plain (.subi 11 11 4), .field (.li 0 0)]),
    (.clear,
      [.plain (.stwu 0 4 10), .field (.cmpw 10 11), .plain (.bne .clear)] ++ loadSymbol 1 symbols.stackTop ++
      [.plain (.addi 1 1 (-16)), .enter])]

theorem halves_or (symbol : Word) : symbol >>> 16 <<< 16 ||| symbol &&& 0xFFFF = symbol := by
  have below := symbol.toNat_lt
  apply UInt32.toNat_inj.mp
  simp only [UInt32.toNat_or, UInt32.toNat_shiftLeft, UInt32.toNat_shiftRight, UInt32.toNat_and, UInt32.reduceToNat]
  have low : symbol.toNat &&& 65535 = symbol.toNat % 2 ^ 16 := Nat.and_two_pow_sub_one_eq_mod _ 16
  have high : symbol.toNat >>> (16 % 32) <<< (16 % 32) % 2 ^ 32 = 2 ^ 16 * (symbol.toNat / 2 ^ 16) := by
    rw [Nat.shiftRight_eq_div_pow, Nat.shiftLeft_eq, Nat.mul_comm]
    exact Nat.mod_eq_of_lt (Nat.lt_of_le_of_lt (Nat.mul_div_le _ _) below)
  rw [low, high, ← Nat.two_pow_add_eq_or_of_lt (Nat.mod_lt _ (by decide)), Nat.div_add_mod]

section Rounds

variable {symbols : Symbols} {before core : Fields} {Goal : Position StartOp Fields → Prop} {register : Reg}
  {symbol : Word} {rest : List StartOp}

abbrev Symbols.step (symbols : Symbols) : Position StartOp Fields → Option (Position StartOp Fields) :=
  Code.step StartOp.exec (crt0 symbols)

/-- Both instructions together. -/
theorem loadSymbol_run
    (later : ∀ next : Fields, next.reg register = symbol → (∀ other, other ≠ register → next.reg other = core.reg other) →
      next.mem = core.mem → next.cache = core.cache → Eventually symbols.step Goal (.running rest next)) :
    Eventually symbols.step Goal (.running (loadSymbol register symbol ++ rest) core) := by
  refine straight rfl (straight rfl (later _ ?_ (fun other differs => ?_) rfl rfl))
  · simp only [Fields.on, Core.set, Function.update_self]
    exact halves_or symbol
  · simp only [Fields.on, Core.set, Function.update_of_ne differs]

/-- The operations of the first `count` rounds. -/
def issuedWords (start : Word) : Nat → List CacheOp
  | 0 => []
  | count + 1 => issuedWords start count ++ [.dcbf (place start (4 * count)), .icbi (place start (4 * count))]

structure Flushing (symbols : Symbols) (before : Fields) (done : Nat) (core : Fields) : Prop where
  next : core.reg 10 = place symbols.start (4 * done)
  last : core.reg 11 = symbols.finish
  cache : core.cache = before.cache ++ issuedWords symbols.start done
  mem : core.mem = before.mem

/-- Behind the branch of the first loop. -/
def behindFlush (symbols : Symbols) : List StartOp := ((crt0 symbols).from' .line).drop 5

theorem flush_loop {count : Nat} (finish : symbols.finish = place symbols.start (4 * count)) (some' : 0 < count)
    (small : 4 * count < 2 ^ 32)
    (leave : ∀ core, Flushing symbols before count core →
      Eventually symbols.step Goal (.running (behindFlush symbols) core))
    (first : Flushing symbols before 0 core) :
    Eventually symbols.step Goal (.running ((crt0 symbols).from' .line) core) := by
  refine rounds (Flushing symbols before) (behindFlush symbols) some' ?_ leave first
  intro done early state flushing
  have next : state.reg 10 + 4 = place symbols.start (4 * (done + 1)) := place_step flushing.next 4
  have ends : state.reg 10 + 4 = state.reg 11 ↔ ¬done + 1 < count := by
    rw [next, flushing.last, finish, place_inj (by omega) small]
    omega
  have cache : state.cache ++ [.dcbf (0 + state.reg 10)] ++ [.icbi (0 + state.reg 10)] =
      before.cache ++ issuedWords symbols.start (done + 1) := by
    rw [UInt32.zero_add, flushing.next, flushing.cache]
    simp [issuedWords]
  refine straight rfl (straight rfl (straight rfl (straight rfl ?_)))
  by_cases more : done + 1 < count
  · rw [if_pos more]
    exact taken rfl (congrArg not (decide_eq_false (mt ends.mp (not_not.mpr more))))
      (.now ⟨_, rfl, next, flushing.last, cache, flushing.mem⟩)
  · rw [if_neg more]
    exact passed rfl (congrArg not (decide_eq_true (ends.mpr more)))
      (.now ⟨_, rfl, next, flushing.last, cache, flushing.mem⟩)

/-- `done` words of BSS have been cleared, and `r10` is at the last of them. -/
structure Clearing (symbols : Symbols) (mem : Memory) (cache : List CacheOp) (done : Nat) (core : Fields) : Prop where
  next : core.reg 10 + 4 = place symbols.bssStart (4 * done)
  last : core.reg 11 + 4 = symbols.bssEnd
  zero : core.reg 0 = 0
  mem : core.mem = mem.filled symbols.bssStart 0 (4 * done)
  cache : core.cache = cache

/-- Behind the branch of the second loop. -/
def behindClear (symbols : Symbols) : List StartOp := ((crt0 symbols).from' .clear).drop 3

theorem clear_loop {mem : Memory} {cache : List CacheOp} {count : Nat}
    (finish : symbols.bssEnd = place symbols.bssStart (4 * count)) (some' : 0 < count) (small : 4 * count < 2 ^ 32)
    (leave : ∀ core, Clearing symbols mem cache count core →
      Eventually symbols.step Goal (.running (behindClear symbols) core))
    (first : Clearing symbols mem cache 0 core) :
    Eventually symbols.step Goal (.running ((crt0 symbols).from' .clear) core) := by
  refine rounds (Clearing symbols mem cache) (behindClear symbols) some' ?_ leave first
  intro done early state clearing
  have next : state.reg 10 + 4 + 4 = place symbols.bssStart (4 * (done + 1)) := place_step clearing.next 4
  have ends : state.reg 10 + 4 = state.reg 11 ↔ ¬done + 1 < count := by
    rw [← UInt32.add_left_inj 4, next, clearing.last, finish, place_inj (by omega) small]
    omega
  have stored : state.mem.store (state.reg 10 + 4) (state.reg 0) = mem.filled symbols.bssStart 0 (4 * (done + 1)) := by
    have word : (mem.filled symbols.bssStart (0 : Word).toUInt8 (4 * done)).store
        (place symbols.bssStart (4 * done)) (spread 0) =
        mem.filled symbols.bssStart (0 : Word).toUInt8 (max (4 * done) (4 * done + 4)) :=
      filled_word (Nat.le_refl _) (by omega)
    rw [clearing.zero, clearing.next, clearing.mem]
    refine word.trans (congrArg (mem.filled symbols.bssStart 0) ?_)
    omega
  refine straight rfl (straight rfl ?_)
  by_cases more : done + 1 < count
  · rw [if_pos more]
    exact taken rfl (congrArg not (decide_eq_false (mt ends.mp (not_not.mpr more))))
      (.now ⟨_, rfl, next, clearing.last, clearing.zero, stored, clearing.cache⟩)
  · rw [if_neg more]
    exact passed rfl (congrArg not (decide_eq_true (ends.mpr more)))
      (.now ⟨_, rfl, next, clearing.last, clearing.zero, stored, clearing.cache⟩)

end Rounds

/-! ## What `iquik_main` finds -/

section Started

variable {symbols : Symbols} {before : Fields}

/-- What `ld.script` makes of the symbols: the image and BSS in it consist of whole words. -/
structure Symbols.Linked (symbols : Symbols) : Prop where
  aligned : symbols.start.toNat % 4 = 0
  image : symbols.start < symbols.finish
  imageWords : (symbols.finish.toNat - symbols.start.toNat) % 4 = 0
  bss : symbols.bssStart < symbols.bssEnd
  bssWords : (symbols.bssEnd.toNat - symbols.bssStart.toNat) % 4 = 0

theorem place_words {first last : Word} (before : first < last) (whole : (last.toNat - first.toNat) % 4 = 0) :
    ∃ count, last = place first (4 * count) ∧ 0 < count ∧ first.toNat + 4 * count = last.toNat := by
  have below := last.toNat_lt
  have order : first.toNat < last.toNat := before
  refine ⟨(last.toNat - first.toNat) / 4, ?_, by omega, by omega⟩
  rw [← UInt32.toNat_inj, place_toNat (by omega)]
  omega

/-- Behind the loops. -/
def Done (symbols : Symbols) (before : Fields) (words : Nat) (after : Fields) : Prop :=
  after.cache = before.cache ++ (issuedWords symbols.start words ++ [.sync, .isync]) ∧
    after.mem = before.mem.filled symbols.bssStart 0 (symbols.bssEnd.toNat - symbols.bssStart.toNat) ∧
    after.reg 1 = symbols.stackTop - 16

abbrev Arrives (symbols : Symbols) (before : Fields) (words : Nat) (code : List StartOp) (core : Fields) : Prop :=
  Eventually symbols.step (fun position => ∃ final, position = .returned final ∧ Done symbols before words final)
    (.running code core)

/-- From the end of the second loop on. -/
theorem entered_run {words count : Nat} {core : Fields} (size : 4 * count = symbols.bssEnd.toNat - symbols.bssStart.toNat)
    (cleared : Clearing symbols before.mem (before.cache ++ (issuedWords symbols.start words ++ [.sync, .isync])) count
      core) : Arrives symbols before words (behindClear symbols) core := by
  refine loadSymbol_run fun last stack same mem cache => ?_
  refine straight rfl (back rfl ⟨_, rfl, cache.trans cleared.cache, ?_, ?_⟩)
  · exact (mem.trans cleared.mem).trans (congrArg (before.mem.filled symbols.bssStart 0) size)
  · show last.reg 1 + -16 = _
    rw [stack, sub_eq_add_neg]

/-- From the end of the first loop on. -/
theorem cleared_run (linked : symbols.Linked) {words : Nat} {core : Fields}
    (flushed : Flushing symbols before words core) :
    Arrives symbols before words (behindFlush symbols) core := by
  obtain ⟨count, bssEnd, positive, size⟩ := place_words linked.bss linked.bssWords
  have below := symbols.bssEnd.toNat_lt
  refine straight rfl (straight rfl ?_)
  refine loadSymbol_run fun first bssStart same mem cache => ?_
  refine loadSymbol_run fun second bssEnd' same' mem' cache' => ?_
  have start : second.reg 10 = symbols.bssStart := (same' 10 (by decide)).trans bssStart
  have nothing : before.mem.filled symbols.bssStart 0 0 = before.mem := funext fun _ => if_neg (Nat.not_lt_zero _)
  have issued : second.cache = before.cache ++ (issuedWords symbols.start words ++ [.sync, .isync]) := by
    rw [cache', cache]
    show core.cache ++ [.sync] ++ [.isync] = _
    rw [flushed.cache]
    simp
  have memory : second.mem = before.mem := (mem'.trans mem).trans flushed.mem
  have leave (core : Fields) (cleared : Clearing symbols before.mem
      (before.cache ++ (issuedWords symbols.start words ++ [.sync, .isync])) count core) :
      Arrives symbols before words (behindClear symbols) core := entered_run (by omega) cleared
  refine straight rfl (straight rfl (straight rfl (clear_loop bssEnd positive (by omega) leave ⟨?_, ?_, rfl, ?_, issued⟩)))
  · show second.reg 10 + -4 + 4 = _
    rw [start, neg_add_cancel_right]
    exact (place_zero _).symm
  · show second.reg 11 + -4 + 4 = _
    rw [bssEnd', neg_add_cancel_right]
  · exact memory.trans nothing.symm

theorem crt0_run (linked : symbols.Linked) (before : Fields) :
    ∃ after words, (crt0 symbols).Returns StartOp.exec .start before after ∧
      symbols.start.toNat + 4 * words = symbols.finish.toNat ∧ Done symbols before words after := by
  obtain ⟨words, finish, some', total⟩ := place_words linked.image linked.imageWords
  have below := symbols.finish.toNat_lt
  have arrives : Arrives symbols before words ((crt0 symbols).from' .start) before := by
    refine loadSymbol_run fun first start same mem cache => ?_
    refine loadSymbol_run fun second last same' mem' cache' => ?_
    refine flush_loop finish some' (by omega) (fun core flushed => cleared_run linked flushed) ⟨?_, last, ?_, ?_⟩
    · exact ((same' 10 (by decide)).trans start).trans (place_zero _).symm
    · exact (cache'.trans cache).trans (List.append_nil _).symm
    · exact mem'.trans mem
  obtain ⟨after, returns, done⟩ := returns_of_eventually arrives
  exact ⟨after, words, returns, total, done⟩

theorem mem_issuedWords {start : Word} {count : Nat} {op : CacheOp} : op ∈ issuedWords start count ↔
    ∃ i < count, op = .dcbf (place start (4 * i)) ∨ op = .icbi (place start (4 * i)) := by
  induction count with
  | zero => simp [issuedWords]
  | succ count ih =>
      rw [issuedWords, List.mem_append, ih, Nat.exists_lt_succ_right]
      simp only [List.mem_cons, List.not_mem_nil, or_false]

/-- The line of a byte is that of the word with the byte. -/
theorem issuedWords_flushed {start : Word} {count byte : Nat} (aligned : start.toNat % 4 = 0)
    (small : start.toNat + 4 * count < 2 ^ 32) (low : start.toNat ≤ byte) (high : byte < start.toNat + 4 * count) :
    Flushed (issuedWords start count) (line byte) := by
  have inside : (byte - start.toNat) / 4 < count := by omega
  have here : (place start (4 * ((byte - start.toNat) / 4))).toNat = start.toNat + 4 * ((byte - start.toNat) / 4) :=
    place_toNat (by omega)
  have same : line (place start (4 * ((byte - start.toNat) / 4))).toNat = line byte := by
    rw [here, line, line]
    omega
  exact ⟨⟨_, mem_issuedWords.mpr ⟨_, inside, .inl rfl⟩, same⟩, ⟨_, mem_issuedWords.mpr ⟨_, inside, .inr rfl⟩, same⟩⟩

/-- What `iquik_main` finds: BSS cleared and nothing else changed, the lines of the image out of the
data cache and invalid in the instruction cache, and its stack. -/
structure Started (symbols : Symbols) (before after : Fields) : Prop where
  bss : ∀ address, symbols.bssStart ≤ address → address < symbols.bssEnd → after.mem address = 0
  rest : ∀ address, address < symbols.bssStart ∨ symbols.bssEnd ≤ address → after.mem address = before.mem address
  caches : ∃ issued, after.cache = before.cache ++ (issued ++ [.sync, .isync]) ∧
    ∀ byte, symbols.start.toNat ≤ byte → byte < symbols.finish.toNat → Flushed issued (line byte)
  stack : after.reg 1 = symbols.stackTop - 16

theorem Done.started (linked : symbols.Linked) {words : Nat} {after : Fields}
    (total : symbols.start.toNat + 4 * words = symbols.finish.toNat) (done : Done symbols before words after) :
    Started symbols before after := by
  obtain ⟨cache, mem, stack⟩ := done
  have below := symbols.bssEnd.toNat_lt
  have image := symbols.finish.toNat_lt
  have order : symbols.bssStart.toNat < symbols.bssEnd.toNat := linked.bss
  refine ⟨fun address low high => ?_, fun address outside => ?_, ⟨_, cache, fun byte low high => ?_⟩, stack⟩
  · have low' : symbols.bssStart.toNat ≤ address.toNat := low
    have high' : address.toNat < symbols.bssEnd.toNat := high
    have here : address = place symbols.bssStart (address.toNat - symbols.bssStart.toNat) := by
      rw [← UInt32.toNat_inj, place_toNat (by omega)]
      omega
    rw [mem, here]
    exact filled_inside (by omega) (by omega)
  · have apart : address.toNat < symbols.bssStart.toNat ∨ symbols.bssEnd.toNat ≤ address.toNat := outside
    rw [mem]
    refine filled_outside fun j inside same => ?_
    have here := congrArg UInt32.toNat same
    rw [place_toNat (by omega)] at here
    omega
  · exact issuedWords_flushed linked.aligned (by omega) low (by omega)

/-- The start-up code gets to `iquik_main`, from every state. -/
theorem crt0_starts (linked : symbols.Linked) (before : Fields) :
    ∃ after, (crt0 symbols).Returns StartOp.exec .start before after ∧ Started symbols before after := by
  obtain ⟨after, words, returns, total, done⟩ := crt0_run linked before
  exact ⟨after, returns, done.started linked total⟩

/-- The layout of a loader that is linked at 0x3e0000. -/
def sampleSymbols : Symbols where
  start := 0x3e0000
  finish := 0x3f5014
  bssStart := 0x3f2000
  bssEnd := 0x3f3f04
  stackTop := 0x3f5010

theorem crt0_starts_sample : ∃ after, (crt0 sampleSymbols).Returns StartOp.exec .start .idle after ∧
    Started sampleSymbols .idle after :=
  crt0_starts ⟨by decide, by decide, by decide, by decide, by decide⟩ .idle

end Started

end IQuik.PowerPC
