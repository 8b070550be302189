import IQuik.Prom.Calls

namespace IQuik.Prom

open IQuik.Data IQuik.Program

/-! # What stands between the kernel and the firmware -/

/-- What `prom_shim` finds in the globals. -/
structure ShimSetup where
  smpFix : Bool
  shallowSetprop : Bool
  hideMediabayAta : Bool
  debugBeforeBoot : Bool
  promChosen : Nat
  initrdBase : Nat
  initrdLen : Nat
  mediabayAta : Nat
  cpuCount : Nat
  cpu : Nat

/-- The call that is served, the words stored through pointers of the caller, and
how often the user was asked to go on. -/
structure ShimState where
  call : PromArgs
  stores : List (Nat × Nat)
  pauses : Nat

abbrev ShimProg := Prog QuikErr ShimState

def low32 (n : Nat) : Nat := n % 0x100000000

/-- `*place = value`. -/
def storeWord (place value : Nat) : ShimProg PUnit :=
  Prog.update fun shim => { shim with stores := shim.stores ++ [(place, value)] }

/-- `args->args[index] = value`. -/
def storeCell (index : Nat) (value : Cell) : ShimProg PUnit :=
  Prog.update fun shim =>
    { shim with call := { shim.call with args := fun i => if i = index then value else shim.call.args i } }

def Cell.number? : Cell → Option Nat
  | .word n => some n
  | _ => none

def Cell.text? : Cell → Option Str
  | .text s => some s
  | _ => none

/-- The loop that fakes `reg`. It counts `size` down by four, modulo 2^32. -/
def fakeReg : (fuel : Nat) → (index place size : Nat) → ShimProg PUnit
  | 0, _, _, _ => Prog.unfinished
  | fuel + 1, index, place, size =>
      if size ≠ 0 then do
        storeWord place index
        fakeReg fuel (index + 1) (low32 (place + 4)) (low32 (size + 0xFFFFFFFC))
      else pure ⟨⟩

/-- The values of `linux,initrd-start` and `linux,initrd-end`, after a zero word if
the caller has room for eight bytes. -/
def fakeInitrd (place size value : Nat) : ShimProg PUnit :=
  if size = 8 then do
    storeWord place 0
    storeWord (low32 (place + 4)) value
  else storeWord place value

section Shim

variable (setup : ShimSetup) (firmware : PromArgs → PromArgs) (fuel : Nat)

/-- `prom_entry (args)`. -/
def promEntry : ShimProg PUnit := Prog.update fun shim => { shim with call := firmware shim.call }

def promPause : ShimProg PUnit := Prog.update fun shim => { shim with pauses := shim.pauses + 1 }

/-- `prom_shim` on `getprop`. -/
def shimGetprop (rest : ShimProg PUnit) : ShimProg PUnit := do
  let args ← Prog.view fun shim => shim.call.args
  let ph := args 0
  let name ← Prog.defined (args 1).text?
  let place ← Prog.defined (args 2).number?
  let size ← Prog.defined (args 3).number?
  if setup.smpFix ∧ ph = .word setup.cpu then
    if name ≠ str "reg" then promEntry firmware
    else do
      let size := min setup.cpuCount size
      storeCell 4 (.word size)
      fakeReg fuel 0 place size
  else if setup.shallowSetprop ∧ ph = .word setup.promChosen then
    if name = str "linux,initrd-start" then do
      fakeInitrd place size (low32 setup.initrdBase)
      storeCell 4 (.word size)
    else if name = str "linux,initrd-end" then do
      fakeInitrd place size (low32 (setup.initrdBase + setup.initrdLen))
      storeCell 4 (.word size)
    else promEntry firmware
  else rest

/-- `prom_shim` behind its block for `getprop`. -/
def shimOthers (service : Str) : ShimProg PUnit :=
  if setup.hideMediabayAta ∧ (service = str "child" ∨ service = str "peer" ∨ service = str "parent") then do
    promEntry firmware
    let call ← Prog.view ShimState.call
    if call.args call.nargs = .word setup.mediabayAta then storeCell call.nargs (.word 0) else pure ⟨⟩
  else if setup.debugBeforeBoot ∧ service = str "quiesce" then do
    promPause
    promEntry firmware
  else promEntry firmware

def promShim : ShimProg PUnit := do
  let service ← Prog.view fun shim => shim.call.service
  if service = str "getprop" then shimGetprop setup firmware fuel (shimOthers setup firmware service)
  else shimOthers setup firmware service

end Shim

/-- A kernel's call of `getprop`. -/
def getprop (ph : Nat) (name : Str) (place size : Nat) : PromArgs where
  service := str "getprop"
  nargs := 4
  nret := 1
  args := fun i =>
    if i = 0 then .word ph else if i = 1 then .text name else if i = 2 then .word place
    else if i = 3 then .word size else .word 0

def ShimState.start (call : PromArgs) : ShimState where
  call := call
  stores := []
  pauses := 0

/-- Each byte of each stored word is one of the `size` bytes at `place`. -/
def StoresInside (place size : Nat) (stores : List (Nat × Nat)) : Prop :=
  ∀ store ∈ stores, ∀ k < 4, ∃ j < size, low32 (store.1 + k) = low32 (place + j)

/-- The call returns, and the shim stores only to the buffer. -/
def RespectsBuffer (setup : ShimSetup) (ph : Nat) (name : Str) (place size : Nat) : Prop :=
  ∃ fuel, ∀ firmware : PromArgs → PromArgs, ∀ more, fuel ≤ more → ∃ after,
    promShim setup firmware more (.start (getprop ph name place size)) = .ok ⟨⟩ after ∧
      StoresInside place size after.stores

/-! ## The faked `reg` -/

/-- The words that the loop stores. -/
def regWords : (count : Nat) → (index place : Nat) → List (Nat × Nat)
  | 0, _, _ => []
  | count + 1, index, place => (place, index) :: regWords count (index + 1) (low32 (place + 4))

section Reg

variable {shim : ShimState} {place size index fuel : Nat}

theorem fakeReg_run {count : Nat} (fits : 4 * count < 0x100000000) (enough : count < fuel) :
    fakeReg fuel index place (4 * count) shim =
      .ok ⟨⟩ { shim with stores := shim.stores ++ regWords count index place } := by
  induction count generalizing fuel index place shim with
  | zero =>
      obtain ⟨fuel, rfl⟩ : ∃ less, fuel = less + 1 := ⟨fuel - 1, by omega⟩
      rw [fakeReg, if_neg (by omega), regWords, List.append_nil]
      rfl
  | succ count ih =>
      obtain ⟨fuel, rfl⟩ : ∃ less, fuel = less + 1 := ⟨fuel - 1, by omega⟩
      have next : low32 (4 * (count + 1) + 0xFFFFFFFC) = 4 * count := by
        rw [low32]
        omega
      have stored : storeWord place index shim =
        .ok ⟨⟩ { shim with stores := shim.stores ++ [(place, index)] } := rfl
      rw [fakeReg, if_pos (by omega), Prog.bind_run_ok stored, next, ih (by omega) (by omega), regWords]
      simp

/-- Counted down by four, a size that is not a multiple of four is never zero. -/
theorem fakeReg_endless (odd : size % 4 ≠ 0) : fakeReg fuel index place size shim = .unfinished := by
  induction fuel generalizing index place size shim with
  | zero => rfl
  | succ fuel ih =>
      have next : low32 (size + 0xFFFFFFFC) % 4 ≠ 0 := by
        rw [low32]
        omega
      have stored : storeWord place index shim =
        .ok ⟨⟩ { shim with stores := shim.stores ++ [(place, index)] } := rfl
      rw [fakeReg, if_pos (by omega), Prog.bind_run_ok stored, ih next]

theorem regWords_inside {count buffer offset : Nat} (here : low32 place = low32 (buffer + offset)) :
    StoresInside buffer (offset + 4 * count) (regWords count index place) := by
  induction count generalizing index place offset with
  | zero => exact fun store mem => nomatch mem
  | succ count ih =>
      rw [low32, low32] at here
      intro store mem k below
      rw [regWords] at mem
      obtain rfl | mem := List.mem_cons.mp mem
      · refine ⟨offset + k, by omega, ?_⟩
        rw [low32, low32]
        omega
      · have next : low32 (low32 (place + 4)) = low32 (buffer + (offset + 4)) := by
          rw [low32, low32, low32]
          omega
        obtain ⟨j, inside, same⟩ := ih next store mem k below
        exact ⟨j, by omega, same⟩

theorem StoresInside.mono {buffer more : Nat} {stores : List (Nat × Nat)} (inside : StoresInside buffer size stores)
    (longer : size ≤ more) : StoresInside buffer more stores := by
  intro store mem k below
  obtain ⟨j, known, same⟩ := inside store mem k below
  exact ⟨j, Nat.lt_of_lt_of_le known longer, same⟩

end Reg

/-! ## The faked properties of `/chosen` -/

section Initrd

variable {shim : ShimState} {place size value : Nat}

def initrdWords (place size value : Nat) : List (Nat × Nat) :=
  if size = 8 then [(place, 0), (low32 (place + 4), value)] else [(place, value)]

theorem fakeInitrd_run : fakeInitrd place size value shim =
    .ok ⟨⟩ { shim with stores := shim.stores ++ initrdWords place size value } := by
  rw [fakeInitrd, initrdWords]
  split
  · have stored : storeWord place 0 shim = .ok ⟨⟩ { shim with stores := shim.stores ++ [(place, 0)] } := rfl
    rw [Prog.bind_run_ok stored]
    simp [storeWord]
  · rfl

theorem initrdWords_inside_iff : StoresInside place size (initrdWords place size value) ↔ 4 ≤ size := by
  rw [initrdWords]
  constructor
  · intro inside
    by_contra short
    rw [if_neg (by omega)] at inside
    obtain ⟨j, known, same⟩ := inside (place, value) (List.mem_singleton_self _) size (Nat.lt_of_not_le short)
    rw [low32, low32] at same
    omega
  · intro enough store mem k below
    split at mem
    · obtain rfl | rfl : store = (place, 0) ∨ store = (low32 (place + 4), value) := by simpa using mem
      · exact ⟨k, by omega, rfl⟩
      · refine ⟨4 + k, by omega, ?_⟩
        rw [low32, low32, low32]
        omega
    · obtain rfl := List.mem_singleton.mp mem
      exact ⟨k, by omega, rfl⟩

end Initrd

/-! ## Calls of `getprop` -/

/-- The `reg` of the faked processor is asked for. -/
def FakesReg (setup : ShimSetup) (ph : Nat) (name : Str) : Prop :=
  (setup.smpFix = true ∧ ph = setup.cpu) ∧ name = str "reg"

/-- The place of the initrd is asked for. -/
def FakesInitrd (setup : ShimSetup) (ph : Nat) (name : Str) : Prop :=
  ¬(setup.smpFix = true ∧ ph = setup.cpu) ∧ (setup.shallowSetprop = true ∧ ph = setup.promChosen) ∧
    (name = str "linux,initrd-start" ∨ name = str "linux,initrd-end")

section Getprop

variable {setup : ShimSetup} {firmware : PromArgs → PromArgs} {fuel ph place size : Nat} {name : Str}

theorem shimOthers_getprop : shimOthers setup firmware (str "getprop") = promEntry firmware := by
  rw [shimOthers, if_neg fun hides => absurd hides.2 (by decide), if_neg fun pauses => absurd pauses.2 (by decide)]

theorem promShim_getprop :
    promShim setup firmware fuel (.start (getprop ph name place size)) =
      (if setup.smpFix = true ∧ Cell.word ph = .word setup.cpu then
        if name ≠ str "reg" then promEntry firmware
        else do
          storeCell 4 (.word (min setup.cpuCount size))
          fakeReg fuel 0 place (min setup.cpuCount size)
      else if setup.shallowSetprop = true ∧ Cell.word ph = .word setup.promChosen then
        if name = str "linux,initrd-start" then do
          fakeInitrd place size (low32 setup.initrdBase)
          storeCell 4 (.word size)
        else if name = str "linux,initrd-end" then do
          fakeInitrd place size (low32 (setup.initrdBase + setup.initrdLen))
          storeCell 4 (.word size)
        else promEntry firmware
      else promEntry firmware : ShimProg PUnit) (.start (getprop ph name place size)) := by
  have others : shimOthers setup firmware (ShimState.start (getprop ph name place size)).call.service =
      promEntry firmware := shimOthers_getprop
  rw [promShim, Prog.view_bind, others, if_pos (show (ShimState.start (getprop ph name place size)).call.service =
    str "getprop" from rfl)]
  rfl

theorem promShim_passed (passed : ¬FakesReg setup ph name ∧ ¬FakesInitrd setup ph name) :
    promShim setup firmware fuel (.start (getprop ph name place size)) =
      promEntry firmware (.start (getprop ph name place size)) := by
  obtain ⟨reg, initrd⟩ := passed
  rw [promShim_getprop]
  simp only [Cell.word.injEq]
  by_cases cpu : setup.smpFix = true ∧ ph = setup.cpu
  · rw [if_pos cpu, if_pos fun asked => reg ⟨cpu, asked⟩]
  · rw [if_neg cpu]
    split
    · rw [if_neg fun asked => initrd ⟨cpu, ‹_›, .inl asked⟩, if_neg fun asked => initrd ⟨cpu, ‹_›, .inr asked⟩]
    · rfl

variable (firmware fuel place size) in
theorem promShim_reg (fakes : FakesReg setup ph name) :
    ∃ shim : ShimState, shim.stores = [] ∧ promShim setup firmware fuel (.start (getprop ph name place size)) =
      fakeReg fuel 0 place (min setup.cpuCount size) shim := by
  let call := getprop ph name place size
  let shim : ShimState :=
    { ShimState.start call with
      call := { call with args := fun i => if i = 4 then .word (min setup.cpuCount size) else call.args i } }
  have stored : storeCell 4 (.word (min setup.cpuCount size)) (.start call) = .ok ⟨⟩ shim := rfl
  refine ⟨shim, rfl, ?_⟩
  rw [promShim_getprop]
  simp only [Cell.word.injEq]
  rw [if_pos fakes.1, if_neg (not_not_intro fakes.2)]
  exact Prog.bind_run_ok stored

variable (firmware fuel place size) in
theorem promShim_initrd (fakes : FakesInitrd setup ph name) :
    ∃ value, promShim setup firmware fuel (.start (getprop ph name place size)) =
      (do
        fakeInitrd place size value
        storeCell 4 (.word size) : ShimProg PUnit) (.start (getprop ph name place size)) := by
  obtain ⟨cpu, chosen, asked⟩ := fakes
  rw [promShim_getprop]
  simp only [Cell.word.injEq]
  rw [if_neg cpu, if_pos chosen]
  by_cases start : name = str "linux,initrd-start"
  · exact ⟨_, by rw [if_pos start]⟩
  · exact ⟨_, by rw [if_neg start, if_pos (asked.resolve_left start)]⟩

/-- What is faked keeps to the buffer where the words of `reg` come out even, and
where there is room for one word of `linux,initrd-start` or `linux,initrd-end`. -/
theorem respectsBuffer_iff (sized : size < 0x100000000) :
    RespectsBuffer setup ph name place size ↔
      (FakesReg setup ph name → min setup.cpuCount size % 4 = 0) ∧ (FakesInitrd setup ph name → 4 ≤ size) := by
  by_cases reg : FakesReg setup ph name
  · have other : ¬FakesInitrd setup ph name := fun initrd => initrd.1 reg.1
    rw [imp_iff_right reg, and_iff_left fun initrd => absurd initrd other]
    constructor
    · rintro ⟨fuel, returns⟩
      by_contra odd
      obtain ⟨after, run, -⟩ := returns id fuel (Nat.le_refl fuel)
      obtain ⟨shim, -, shown⟩ := promShim_reg id fuel place size reg
      rw [shown, fakeReg_endless odd] at run
      cases run
    · intro even
      obtain ⟨count, words⟩ := Nat.dvd_of_mod_eq_zero even
      refine ⟨count + 1, fun firmware more enough => ?_⟩
      obtain ⟨shim, none, shown⟩ := promShim_reg firmware more place size reg
      refine ⟨_, by rw [shown, words, fakeReg_run (by omega) enough], ?_⟩
      · rw [none, List.nil_append]
        have inside : StoresInside place (0 + 4 * count) (regWords count 0 place) := regWords_inside rfl
        rw [Nat.zero_add, ← words] at inside
        exact inside.mono (Nat.min_le_right ..)
  rw [and_iff_right fun fakes => absurd fakes reg]
  by_cases initrd : FakesInitrd setup ph name
  · rw [imp_iff_right initrd]
    constructor
    · rintro ⟨fuel, returns⟩
      obtain ⟨after, run, inside⟩ := returns id fuel (Nat.le_refl fuel)
      obtain ⟨value, shown⟩ := promShim_initrd id fuel place size initrd
      rw [shown, Prog.bind_run_ok fakeInitrd_run] at run
      cases run
      exact initrdWords_inside_iff.mp inside
    · intro enough
      refine ⟨0, fun firmware more _ => ?_⟩
      obtain ⟨value, shown⟩ := promShim_initrd firmware more place size initrd
      rw [shown, Prog.bind_run_ok fakeInitrd_run]
      exact ⟨_, rfl, initrdWords_inside_iff.mpr enough⟩
  · refine iff_of_true ⟨0, fun firmware more _ => ⟨_, promShim_passed ⟨reg, initrd⟩, ?_⟩⟩
      fun fakes => absurd fakes initrd
    intro store mem
    cases mem

/-- Two processors, with a `reg` of eight bytes. -/
def twoProcessors : ShimSetup where
  smpFix := true
  shallowSetprop := false
  hideMediabayAta := false
  debugBeforeBoot := false
  promChosen := 1
  initrdBase := 0
  initrdLen := 0
  mediabayAta := 0
  cpuCount := 8
  cpu := 2

theorem respectsBuffer_processors : RespectsBuffer twoProcessors 2 (str "reg") 0x1000 8 :=
  (respectsBuffer_iff (by decide)).mpr ⟨fun _ => rfl, fun initrd => absurd ⟨rfl, rfl⟩ initrd.1⟩

/-- With a buffer of six bytes, the call does not return. -/
theorem reg_endless :
    (∀ firmware fuel, promShim twoProcessors firmware fuel (.start (getprop 2 (str "reg") 0x1000 6)) =
      .unfinished) ∧
    ¬RespectsBuffer twoProcessors 2 (str "reg") 0x1000 6 := by
  have endless (firmware : PromArgs → PromArgs) (fuel : Nat) :
      promShim twoProcessors firmware fuel (.start (getprop 2 (str "reg") 0x1000 6)) = .unfinished := by
    obtain ⟨shim, -, shown⟩ := promShim_reg firmware fuel 0x1000 6
      (show FakesReg twoProcessors 2 (str "reg") from ⟨⟨rfl, rfl⟩, rfl⟩)
    rw [shown]
    exact fakeReg_endless (by decide)
  refine ⟨endless, ?_⟩
  rintro ⟨fuel, returns⟩
  obtain ⟨after, run, -⟩ := returns id fuel (Nat.le_refl fuel)
  rw [endless] at run
  cases run

end Getprop

end IQuik.Prom
