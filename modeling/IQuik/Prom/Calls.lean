import IQuik.Data.Errors
import IQuik.Data.Strings
import IQuik.Program.Outcome

namespace IQuik.Prom

open IQuik.Data IQuik.Program

/-! # Calls of the firmware

The firmware may answer a call in any way, which may depend on all that went
before. -/

/-- What stands in a cell of `args`: a number, a string, or the address of the
local variable `result`. -/
inductive Cell where
  | word (n : Nat)
  | text (s : Str)
  | resultAddr
deriving DecidableEq

/-- `(void *) -1`. -/
def Cell.bad : Cell := .word 0xFFFFFFFF

structure PromArgs where
  service : Str
  nargs : Nat
  nret : Nat
  args : Nat → Cell

/-- What the firmware is given. -/
def PromArgs.inputs (call : PromArgs) : List Cell := (List.range call.nargs).map call.args

/-- A call, and the cells as the firmware leaves them. -/
structure Exchange where
  call : PromArgs
  answer : Nat → Cell

abbrev Firmware := List Exchange → PromArgs → Nat → Cell

/-- The cells of `prom_args`, and the calls so far. -/
structure PromState where
  args : Nat → Cell
  exchanges : List Exchange

abbrev PromProg := Prog QuikErr PromState

/-- `call_prom`, where `list` is what the caller passes on. -/
def callProm (firmware : Firmware) (service : Str) (nargs nret : Nat) (list : List Cell) : PromProg Cell := do
  Prog.demand (nargs ≤ list.length ∧ nargs + nret ≤ 10)
  let prom ← Prog.view id
  let call : PromArgs :=
    { service, nargs, nret
      args := fun i =>
        if i < nargs then list.getD i (.word 0) else if i < nargs + nret then .word 0 else prom.args i }
  let answer := firmware prom.exchanges call
  Prog.update fun prom => { args := answer, exchanges := prom.exchanges ++ [⟨call, answer⟩] }
  pure (answer nargs)

/-- What `prom_claim` finds in the globals. -/
structure Handles where
  workAround : Bool
  memory : Nat
  mmu : Nat

/-- `prom_claim`. Nothing stores to its local `result`; `held` is what that holds after
the calls so far. -/
def promClaim (firmware : Firmware) (handles : Handles) (held : List Exchange → Cell) (virt size : Nat) :
    PromProg Cell :=
  if handles.workAround then do
    let ret ← callProm firmware (str "call-method") 5 2
      [.resultAddr, .text (str "claim"), .word handles.memory, .word 0, .word size, .word virt]
    let result ← Prog.view fun prom => held prom.exchanges
    if ret ≠ .word 0 ∨ result = .bad then pure .bad
    else do
      let ret ← callProm firmware (str "call-method") 5 2
        [.resultAddr, .text (str "claim"), .word handles.mmu, .word 0, .word size, .word virt]
      if ret ≠ .word 0 then do
        let _ ← callProm firmware (str "call-method") 4 1
          [.text (str "release"), .word handles.memory, .word size, .word virt]
        pure .bad
      else do
        let _ ← callProm firmware (str "call-method") 6 1
          [.text (str "map"), .word handles.mmu, .word 0x12, .word size, .word virt, .word virt]
        pure (.word virt)
  else callProm firmware (str "claim") 3 1 [.word virt, .word size, .word 0]

/-! ## What a claim should do -/

/-- A call of the method `name` of an instance, with its arguments from the last to
the first. -/
def Exchange.Invokes (exchange : Exchange) (name : Str) (handle : Nat) (args : List Nat) : Prop :=
  exchange.call.service = str "call-method" ∧
    exchange.call.inputs = .text name :: .word handle :: args.map .word

/-- The method did not throw. -/
def Exchange.Done (exchange : Exchange) : Prop := exchange.answer exchange.call.nargs = .word 0

/-- The claim that the firmware grants. -/
def Exchange.Grants (exchange : Exchange) (handle virt size : Nat) : Prop :=
  exchange.Invokes (str "claim") handle [0, size, virt] ∧ exchange.Done ∧
    exchange.answer (exchange.call.nargs + 1) ≠ .bad

/-- `prom_claim` asks `/memory` for the range and then, if that grants it, the MMU.
It returns `virt` only for what both granted and the MMU mapped, and keeps
nothing that it was granted if it returns -1. -/
structure AllOrNothing (handles : Handles) (virt size : Nat) (exchanges : List Exchange) (value : Cell) : Prop where
  memory : ∃ first rest, exchanges = first :: rest ∧
    first.Invokes (str "claim") handles.memory [0, size, virt] ∧
    (first.Grants handles.memory virt size → ∃ second more, rest = second :: more ∧
      second.Invokes (str "claim") handles.mmu [0, size, virt])
  succeeds : value = .word virt →
    (∃ exchange ∈ exchanges, exchange.Grants handles.memory virt size) ∧
      (∃ exchange ∈ exchanges, exchange.Grants handles.mmu virt size) ∧
      ∃ exchange ∈ exchanges, exchange.Invokes (str "map") handles.mmu [0x12, size, virt, virt] ∧ exchange.Done
  fails : value = .bad → ∀ handle, ∀ exchange ∈ exchanges, exchange.Grants handle virt size →
    ∃ release ∈ exchanges, release.Invokes (str "release") handle [size, virt]

section Calls

variable {firmware : Firmware} {handles : Handles} {held : List Exchange → Cell} {virt size : Nat} {prom : PromState}

variable (firmware prom) in
/-- What one call does: an exchange more, with what was passed on. -/
theorem callProm_run (service : Str) (nargs nret : Nat) (list : List Cell) (enough : nargs ≤ list.length)
    (room : nargs + nret ≤ 10) :
    ∃ exchange, exchange.call.service = service ∧ exchange.call.nargs = nargs ∧
      exchange.call.inputs = list.take nargs ∧
      callProm firmware service nargs nret list prom =
        .ok (exchange.answer nargs) { args := exchange.answer, exchanges := prom.exchanges ++ [exchange] } := by
  refine ⟨⟨_, _⟩, ?_, ?_, ?_, Prog.bind_run_ok (by rw [Prog.demand_pos ⟨enough, room⟩]; rfl)⟩
  · rfl
  · rfl
  · apply List.ext_getElem
    · simp [PromArgs.inputs, enough]
    · intro i below _
      have known : i < nargs := by simpa [PromArgs.inputs] using below
      simp [PromArgs.inputs, known, Nat.lt_of_lt_of_le known enough]

/-- Without the work-around, one call is made, and its answer returned. -/
theorem promClaim_plain (memory mmu : Nat) :
    ∃ exchange, exchange.call.service = str "claim" ∧
      exchange.call.inputs = [.word virt, .word size, .word 0] ∧
      promClaim firmware ⟨false, memory, mmu⟩ held virt size prom =
        .ok (exchange.answer 3) { args := exchange.answer, exchanges := prom.exchanges ++ [exchange] } := by
  obtain ⟨exchange, service, -, inputs, run⟩ := callProm_run firmware prom (str "claim") 3 1
    [.word virt, .word size, .word 0] (Nat.le_refl 3) (by decide)
  exact ⟨exchange, service, inputs, run⟩

/-- One call of a method, as it is made: the cells that the firmware takes for the
name, the instance and the arguments. -/
def Exchange.Makes (exchange : Exchange) (inputs : List Cell) : Prop :=
  exchange.call.service = str "call-method" ∧ exchange.call.inputs = inputs

/-- The claim of the work-around as the firmware is given it: the address of `result`
where the name of the method belongs, and no address to claim. -/
def misplacedClaim (handle size : Nat) : List Cell :=
  [.resultAddr, .text (str "claim"), .word handle, .word 0, .word size]

/-- The calls that `prom_claim` makes with the work-around, and what it returns. -/
inductive WorksAround (memory mmu virt size : Nat) : List Exchange → Cell → Prop
  | noMemory {first : Exchange} (asked : first.Makes (misplacedClaim memory size)) :
      WorksAround memory mmu virt size [first] .bad
  | noMapping {first second release : Exchange} (asked : first.Makes (misplacedClaim memory size))
      (mapping : second.Makes (misplacedClaim mmu size))
      (undone : release.Invokes (str "release") memory [size, virt]) :
      WorksAround memory mmu virt size [first, second, release] .bad
  | mapped {first second map : Exchange} (asked : first.Makes (misplacedClaim memory size))
      (mapping : second.Makes (misplacedClaim mmu size))
      (done : map.Invokes (str "map") mmu [0x12, size, virt, virt]) :
      WorksAround memory mmu virt size [first, second, map] (.word virt)

variable (firmware held virt size prom) in
theorem promClaim_worksAround (memory mmu : Nat) :
    ∃ value after exchanges, promClaim firmware ⟨true, memory, mmu⟩ held virt size prom = .ok value after ∧
      after.exchanges = prom.exchanges ++ exchanges ∧ WorksAround memory mmu virt size exchanges value := by
  obtain ⟨first, service, -, inputs, run⟩ := callProm_run firmware prom (str "call-method") 5 2
    [.resultAddr, .text (str "claim"), .word memory, .word 0, .word size, .word virt] (Nat.le_succ 5) (by decide)
  have asked : first.Makes (misplacedClaim memory size) := ⟨service, inputs⟩
  rw [promClaim, if_pos rfl, Prog.bind_run_ok run, Prog.view_bind]
  by_cases refused : first.answer 5 ≠ .word 0 ∨ held (prom.exchanges ++ [first]) = .bad
  · rw [if_pos refused]
    exact ⟨_, _, [first], rfl, rfl, .noMemory asked⟩
  rw [if_neg refused]
  obtain ⟨second, service, -, inputs, run⟩ := callProm_run firmware ⟨first.answer, prom.exchanges ++ [first]⟩
    (str "call-method") 5 2
    [.resultAddr, .text (str "claim"), .word mmu, .word 0, .word size, .word virt] (Nat.le_succ 5) (by decide)
  have mapping : second.Makes (misplacedClaim mmu size) := ⟨service, inputs⟩
  rw [Prog.bind_run_ok run]
  by_cases thrown : second.answer 5 ≠ .word 0
  · obtain ⟨release, service, -, inputs, run⟩ :=
      callProm_run firmware ⟨second.answer, prom.exchanges ++ [first] ++ [second]⟩
        (str "call-method") 4 1 [.text (str "release"), .word memory, .word size, .word virt] (Nat.le_refl 4)
        (by decide)
    rw [if_pos thrown, Prog.bind_run_ok run]
    exact ⟨_, _, [first, second, release], rfl, by simp, .noMapping asked mapping ⟨service, inputs⟩⟩
  · obtain ⟨map, service, -, inputs, run⟩ :=
      callProm_run firmware ⟨second.answer, prom.exchanges ++ [first] ++ [second]⟩ (str "call-method") 6 1
        [.text (str "map"), .word mmu, .word 0x12, .word size, .word virt, .word virt] (Nat.le_refl 6) (by decide)
    rw [if_neg thrown, Prog.bind_run_ok run]
    exact ⟨_, _, [first, second, map], rfl, by simp, .mapped asked mapping ⟨service, inputs⟩⟩

theorem WorksAround.begins {memory mmu : Nat} {exchanges : List Exchange} {value : Cell}
    (works : WorksAround memory mmu virt size exchanges value) :
    ∃ first rest, exchanges = first :: rest ∧ first.Makes (misplacedClaim memory size) := by
  cases works with
  | noMemory asked => exact ⟨_, _, rfl, asked⟩
  | noMapping asked mapping undone => exact ⟨_, _, rfl, asked⟩
  | mapped asked mapping done => exact ⟨_, _, rfl, asked⟩

/-- Whatever the firmware answers, the work-around does not claim what it should. -/
theorem claim_never (firmware : Firmware) (memory mmu : Nat) (held : List Exchange → Cell) (virt size : Nat)
    (prom : PromState) :
    ∃ value after exchanges, promClaim firmware ⟨true, memory, mmu⟩ held virt size prom = .ok value after ∧
      after.exchanges = prom.exchanges ++ exchanges ∧
      ¬AllOrNothing ⟨true, memory, mmu⟩ virt size exchanges value := by
  obtain ⟨value, after, exchanges, run, made, works⟩ :=
    promClaim_worksAround firmware held virt size prom memory mmu
  refine ⟨value, after, exchanges, run, made, fun whole => ?_⟩
  obtain ⟨first, rest, rfl, -, inputs⟩ := works.begins
  obtain ⟨other, more, same, ⟨service, asked⟩, -⟩ := whole.memory
  obtain ⟨rfl, rfl⟩ := List.cons.inj same
  rw [inputs] at asked
  cases asked

/-- A firmware that no call fails at. -/
def agreeable : Firmware := fun _ _ _ => .word 0

def noCalls : PromState where
  args := fun _ => .word 0
  exchanges := []

/-- `prom_claim` returns the address and has claimed nothing. -/
theorem claim_unclaimed :
    ∃ after, promClaim agreeable ⟨true, 1, 2⟩ (fun _ => .word 0) 0x800000 0x1000 noCalls =
        .ok (.word 0x800000) after ∧
      (∀ exchange ∈ after.exchanges, ∀ handle,
        ¬exchange.Invokes (str "claim") handle [0, 0x1000, 0x800000]) ∧
      ¬AllOrNothing ⟨true, 1, 2⟩ 0x800000 0x1000 after.exchanges (.word 0x800000) := by
  have missing (exchange : Exchange) (handle : Nat)
      (other : exchange.call.inputs.head? ≠ some (.text (str "claim"))) :
      ¬exchange.Invokes (str "claim") handle [0, 0x1000, 0x800000] := by
    rintro ⟨-, inputs⟩
    rw [inputs] at other
    exact other rfl
  refine ⟨_, rfl, fun exchange mem handle => missing exchange handle ?_, fun whole => ?_⟩
  · revert exchange
    decide +kernel
  · obtain ⟨first, rest, same, asked, -⟩ := whole.memory
    refine missing first 1 ?_ asked
    rw [← (List.cons.inj same).1]
    decide +kernel

end Calls

end IQuik.Prom
