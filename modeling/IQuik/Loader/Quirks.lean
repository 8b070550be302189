import IQuik.Loader.Environment
import IQuik.Program.Frames
import IQuik.Prom.Shim

namespace IQuik.Loader

open IQuik.Data IQuik.Program IQuik.Prom

/-! # What the firmware gets wrong: `prom_flags` of `prom.c` -/

/-- `prom_flags`, with one field for each flag. -/
structure PromFlags where
  claimWorkAround : Bool
  needShim : Bool
  shallowSetprop : Bool
  hideMediabayAta : Bool
  nwFullDisk : Bool
  smpFix : Bool
deriving DecidableEq

/-- The flags in a number. -/
def PromFlags.ofWord (n : Nat) : PromFlags where
  claimWorkAround := n.testBit 1
  needShim := n.testBit 2
  shallowSetprop := n.testBit 3
  hideMediabayAta := n.testBit 4
  nwFullDisk := n.testBit 5
  smpFix := n.testBit 6

/-- The globals of `prom.c`, with `of_shim_state`, and what the firmware was given to interpret. -/
structure PromGlobals where
  flags : PromFlags
  root : Nat
  chosen : Nat
  options : Nat
  mmu : Nat
  memory : Nat
  mediabayAta : Nat
  cpuCount : Nat
  cpu : Nat
  interpreted : List Str

def PromGlobals.start : PromGlobals where
  flags := .ofWord 0
  root := 0
  chosen := 0
  options := 0
  mmu := 0
  memory := 0
  mediabayAta := 0
  cpuCount := 0
  cpu := 0
  interpreted := []

/-- The globals of `prom.c`, and `bi`. -/
structure Globals where
  prom : PromGlobals
  bi : BootInfo

def Globals.start : Globals where
  prom := .start
  bi := .start

abbrev GlobalProg := Prog QuikErr Globals

/-- `(phandle) -1`. -/
def noHandle : Nat := 0xFFFFFFFF

/-- What the firmware answers at some time: node handles by path, the bytes and the number in a
property, the length of one, and instance handles by device. -/
structure Answers where
  finddevice : Str → Nat
  property : Nat → Str → List UInt8
  number : Nat → Str → Nat
  proplen : Nat → Str → Nat
  openDevice : Str → Nat

def Globals.setFlags (change : PromFlags → PromFlags) (globals : Globals) : Globals :=
  { globals with prom.flags := change globals.prom.flags }

/-- `if (condition) return code;`. -/
def failIf (condition : Prop) [Decidable condition] (code : QuikErr) : GlobalProg PUnit :=
  if condition then Prog.fail code else pure ⟨⟩

/-- A block that is run under a condition. -/
def doIf (condition : Prop) [Decidable condition] (program : GlobalProg PUnit) : GlobalProg PUnit :=
  if condition then program else pure ⟨⟩

section Firmware

variable (of : Answers)

/-- The buffer `ver`, empty where there is no property; what is behind the property in it is
undefined. -/
def verBuffer (node : Nat) (name : String) : GlobalProg Str := do
  let bytes := (of.property node (str name)).take 64
  Prog.demand (bytes = [] ∨ 0 ∈ bytes)
  pure (bytes.takeWhile (· ≠ 0))

def promSmpPath : Str := str "/PowerPC,604"

/-- The block of `parse_prom_flags` for `PROM_CLAIM_WORK_AROUND`. -/
def openMemory : GlobalProg PUnit := do
  let memory := of.openDevice (str "/memory")
  Prog.update fun globals => { globals with
    prom.mmu := of.number globals.prom.chosen (str "mmu")
    prom.memory := memory }
  failIf (memory = noHandle) .ofInitNoMemory

/-- The block for `PROM_SMP_FIX`. -/
def findCpu : GlobalProg PUnit := do
  let cpu := of.finddevice promSmpPath
  let cpuCount := of.proplen cpu (str "reg")
  Prog.update fun globals => { globals with
    prom.cpu := cpu
    prom.cpuCount := cpuCount }
  if cpuCount = 4 then Prog.update (·.setFlags fun flags => { flags with smpFix := !flags.smpFix })
  else Prog.update (·.setFlags ({ · with needShim := true }))

/-- No disk is found in the media bay. -/
def Answers.BayEmpty : Prop :=
  of.finddevice (str "/bandit/ohare/media-bay/ata/atapi-disk") = noHandle ∧
    of.finddevice (str "/bandit/ohare/media-bay/ata/ata-disk") = noHandle

instance : Decidable of.BayEmpty := inferInstanceAs (Decidable (_ ∧ _))

/-- The controller of the media bay. -/
def Answers.mediabay : Nat := of.finddevice (str "/bandit/ohare/media-bay/ata")

/-- The block for `PROM_3400_HIDE_MEDIABAY_ATA`. -/
def findBay : GlobalProg PUnit :=
  if of.BayEmpty then do
    Prog.update fun globals => { globals with prom.mediabayAta := of.mediabay }
    if of.mediabay = noHandle then
      Prog.update (·.setFlags fun flags => { flags with hideMediabayAta := !flags.hideMediabayAta })
    else Prog.update (·.setFlags ({ · with needShim := true }))
  else pure ⟨⟩

/-- `parse_prom_flags`. -/
def parsePromFlags : GlobalProg PUnit := do
  let flags ← Prog.view fun globals => globals.prom.flags
  doIf flags.claimWorkAround (openMemory of)
  doIf flags.shallowSetprop (Prog.update (·.setFlags ({ · with needShim := true })))
  doIf flags.smpFix (findCpu of)
  doIf flags.hideMediabayAta (findBay of)
  Prog.update fun globals =>
    { globals with bi.shimOf := globals.bi.shimOf || globals.prom.flags.needShim }

/-- What `prom_init` makes of the firmware's version. -/
def versionFlags (ver : Str) (flags : PromFlags) : PromFlags :=
  if ver = str "Open Firmware, 1.0.5" then { flags with claimWorkAround := true, shallowSetprop := true }
  else if ver = str "Open Firmware, 2.0" ∨ ver = str "Open Firmware, 2.0.1" then
    { flags with shallowSetprop := true }
  else if ver = str "OpenFirmware 3" ∨ ver ≠ str "iMac,1" then { flags with nwFullDisk := true }
  else flags

/-- `prom_init`, where `key` is what `wait_for_key` returns. -/
def promInit (preboot : Str) (key : Int) : GlobalProg PUnit := do
  let root := of.finddevice (str "/")
  Prog.update fun globals => { globals with prom.root := root }
  failIf (root = noHandle) .ofInitNoRoot
  let chosen := of.finddevice (str "/chosen")
  Prog.update fun globals => { globals with prom.chosen := chosen }
  failIf (chosen = noHandle) .ofInitNoChosen
  let options := of.finddevice (str "/options")
  Prog.update fun globals => { globals with prom.options := options }
  failIf (options = noHandle) .ofInitNoOptions
  let oprom := of.finddevice (str "/openprom")
  failIf (oprom = noHandle) .ofInitNoOprom
  let ver ← verBuffer of oprom "model"
  Prog.update (·.setFlags (versionFlags ver))
  let system ← verBuffer of root "compatible"
  doIf (system = str "AAPL,3400/2400") (Prog.update (·.setFlags ({ · with hideMediabayAta := true })))
  doIf (of.finddevice promSmpPath ≠ noHandle) (Prog.update (·.setFlags ({ · with smpFix := true })))
  parsePromFlags of
  doIf (preboot ≠ [] ∧ key = -1) (Prog.update fun globals => { globals with
    bi.withPreboot := true
    prom.interpreted := globals.prom.interpreted ++ [preboot] })

/-- `prom_open`; `room` tells whether the name with `:0` finds room. -/
def promOpen (room : Bool) (device : Str) : GlobalProg Nat := do
  let nwFullDisk ← Prog.view fun globals => globals.prom.flags.nwFullDisk
  failIf (nwFullDisk ∧ ¬room) .noMem
  let c := of.openDevice (if nwFullDisk then device ++ str ":0" else device)
  if c = 0 ∨ c = noHandle then Prog.fail .ofOpen else pure c

/-- `cmd_prom_flags`. -/
def cmdPromFlags (args : Str) : GlobalProg PUnit :=
  if args.length = 0 then pure ⟨⟩
  else do
    Prog.update (·.setFlags fun _ => .ofWord (unsigned (strtol args 0).1))
    parsePromFlags of

end Firmware

/-! ## What `parse_prom_flags` does -/

section Parsing

variable {of : Answers} {globals before after : Globals}

def Globals.withMemory (globals : Globals) (of : Answers) : Globals :=
  { globals with
    prom.mmu := of.number globals.prom.chosen (str "mmu")
    prom.memory := of.openDevice (str "/memory") }

def Globals.withCpu (globals : Globals) (of : Answers) : Globals :=
  let cpuCount := of.proplen (of.finddevice promSmpPath) (str "reg")
  let found := { globals with
    prom.cpu := of.finddevice promSmpPath
    prom.cpuCount := cpuCount }
  found.setFlags fun flags =>
    if cpuCount = 4 then { flags with smpFix := !flags.smpFix } else { flags with needShim := true }

def Globals.withBay (globals : Globals) (of : Answers) : Globals :=
  if of.BayEmpty then
    { globals with prom.mediabayAta := of.mediabay }.setFlags fun flags =>
      if of.mediabay = noHandle then { flags with hideMediabayAta := !flags.hideMediabayAta }
      else { flags with needShim := true }
  else globals

theorem findCpu_run : findCpu of globals = .ok ⟨⟩ (globals.withCpu of) := by
  rw [findCpu, Prog.update_bind, Globals.withCpu]
  split <;> rfl

theorem findBay_run : findBay of globals = .ok ⟨⟩ (globals.withBay of) := by
  rw [findBay, Globals.withBay]
  by_cases empty : of.BayEmpty
  · rw [if_pos empty, if_pos empty, Prog.update_bind]
    split <;> rfl
  · rw [if_neg empty, if_neg empty]
    rfl

/-- The state that `parse_prom_flags` leaves, where it finds the memory. -/
def Globals.parsed (globals : Globals) (of : Answers) : Globals :=
  let flags := globals.prom.flags
  let opened := if flags.claimWorkAround then globals.withMemory of else globals
  let shallow := if flags.shallowSetprop then opened.setFlags ({ · with needShim := true }) else opened
  let counted := if flags.smpFix then shallow.withCpu of else shallow
  let hidden := if flags.hideMediabayAta then counted.withBay of else counted
  { hidden with bi.shimOf := hidden.bi.shimOf || hidden.prom.flags.needShim }

theorem doIf_run {condition : Prop} [Decidable condition] {program : GlobalProg PUnit} {next : Globals}
    (run : condition → program globals = .ok ⟨⟩ next) :
    doIf condition program globals = .ok ⟨⟩ (if condition then next else globals) := by
  rw [doIf]
  split
  · next holds => exact run holds
  · rfl

theorem doIf_update {condition : Prop} [Decidable condition] {store : Globals → Globals} :
    doIf condition (Prog.update store) globals = .ok ⟨⟩ (if condition then store globals else globals) :=
  doIf_run fun _ => rfl

theorem parsePromFlags_run (known : globals.prom.flags.claimWorkAround = true → of.openDevice (str "/memory") ≠ noHandle) :
    parsePromFlags of globals = .ok ⟨⟩ (globals.parsed of) := by
  have opens (claims : globals.prom.flags.claimWorkAround = true) :
      openMemory of globals = .ok ⟨⟩ (globals.withMemory of) := by
    rw [openMemory, Prog.update_bind, failIf, if_neg (known claims)]
    rfl
  rw [parsePromFlags, Prog.view_bind, Prog.bind_run_ok (doIf_run opens), Prog.bind_run_ok doIf_update,
    Prog.bind_run_ok (doIf_run fun _ => findCpu_run), Prog.bind_run_ok (doIf_run fun _ => findBay_run)]
  rfl

theorem parsePromFlags_fails (claims : globals.prom.flags.claimWorkAround = true)
    (unknown : of.openDevice (str "/memory") = noHandle) :
    parsePromFlags of globals = .error .ofInitNoMemory (globals.withMemory of) := by
  have fails : openMemory of globals = .error .ofInitNoMemory (globals.withMemory of) := by
    rw [openMemory, Prog.update_bind, failIf, if_pos unknown]
    rfl
  rw [parsePromFlags, Prog.view_bind, doIf, if_pos claims]
  exact Prog.bind_run_error fails

/-- What `parse_prom_flags` makes of the flags that it finds. -/
structure Parsed (of : Answers) (before after : Globals) : Prop where
  claimWorkAround : after.prom.flags.claimWorkAround = before.prom.flags.claimWorkAround
  nwFullDisk : after.prom.flags.nwFullDisk = before.prom.flags.nwFullDisk
  shallowSetprop : after.prom.flags.shallowSetprop = before.prom.flags.shallowSetprop
  smpFix : after.prom.flags.smpFix = true ↔
    before.prom.flags.smpFix = true ∧ of.proplen (of.finddevice promSmpPath) (str "reg") ≠ 4
  hideMediabayAta : after.prom.flags.hideMediabayAta = true ↔
    before.prom.flags.hideMediabayAta = true ∧ ¬(of.BayEmpty ∧ of.mediabay = noHandle)
  needShim : after.prom.flags.needShim = true ↔ before.prom.flags.needShim = true ∨
    after.prom.flags.shallowSetprop = true ∨ after.prom.flags.smpFix = true ∨
    (after.prom.flags.hideMediabayAta = true ∧ of.BayEmpty)
  mediabayAta : after.prom.mediabayAta =
    if before.prom.flags.hideMediabayAta = true ∧ of.BayEmpty then of.mediabay else before.prom.mediabayAta
  shimOf : after.bi.shimOf = (before.bi.shimOf || after.prom.flags.needShim)
  bi : after.bi = { before.bi with shimOf := after.bi.shimOf }
  kept : after.prom.interpreted = before.prom.interpreted ∧ after.prom.root = before.prom.root ∧
    after.prom.chosen = before.prom.chosen ∧ after.prom.options = before.prom.options

theorem parsed (globals : Globals) (of : Answers) : Parsed of globals (globals.parsed of) := by
  constructor <;>
    simp only [Globals.parsed, Globals.withMemory, Globals.withCpu, Globals.withBay, Globals.setFlags] <;>
    grind

end Parsing

/-! ## When the shim does nothing -/

/-- What `prom_shim` finds, with an initrd. -/
def Globals.shimSetup (globals : Globals) (initrdBase initrdLen : Nat) : ShimSetup where
  smpFix := globals.prom.flags.smpFix
  shallowSetprop := globals.prom.flags.shallowSetprop
  hideMediabayAta := globals.prom.flags.hideMediabayAta
  debugBeforeBoot := globals.bi.debugBeforeBoot
  promChosen := globals.prom.chosen
  initrdBase := initrdBase
  initrdLen := initrdLen
  mediabayAta := globals.prom.mediabayAta
  cpuCount := globals.prom.cpuCount
  cpu := globals.prom.cpu

/-- A service that answers with another node. -/
def Walks (service : Str) : Prop := service = str "child" ∨ service = str "peer" ∨ service = str "parent"

instance (service : Str) : Decidable (Walks service) := inferInstanceAs (Decidable (_ ∨ _ ∨ _))

/-- A call with the arguments that its service takes, to which a firmware that is asked for a node
answers one, or 0. -/
structure Proper (firmware : PromArgs → PromArgs) (call : PromArgs) : Prop where
  getprop : call.service = str "getprop" →
    ∃ name place size, call.args 1 = .text name ∧ call.args 2 = .word place ∧ call.args 3 = .word size
  node : Walks call.service → (firmware call).args (firmware call).nargs ≠ .word noHandle

/-- The shim only passes on what it is asked. -/
def Transparent (setup : ShimSetup) : Prop :=
  ∀ firmware fuel call, Proper firmware call →
    promShim setup firmware fuel (.start call) = promEntry firmware (.start call)

section Transparent

variable {setup : ShimSetup}

/-- A walk that is answered with 0 is not hidden. -/
theorem shimOthers_of_unset {firmware : PromArgs → PromArgs} {call : PromArgs} (proper : Proper firmware call)
    (debug : setup.debugBeforeBoot = false)
    (bay : setup.hideMediabayAta = true → setup.mediabayAta = 0 ∨ setup.mediabayAta = noHandle) :
    shimOthers setup firmware call.service (.start call) = promEntry firmware (.start call) := by
  have quiet : ¬(setup.debugBeforeBoot = true ∧ call.service = str "quiesce") := fun both => by
    rw [debug] at both
    exact Bool.false_ne_true both.1
  rw [shimOthers, if_neg quiet]
  by_cases walks : setup.hideMediabayAta = true ∧
      (call.service = str "child" ∨ call.service = str "peer" ∨ call.service = str "parent")
  · rw [if_pos walks]
    have node := proper.node walks.2
    let served : ShimState := { ShimState.start call with call := firmware call }
    have entry : promEntry firmware (.start call) = .ok ⟨⟩ served := rfl
    rw [Prog.bind_run_ok entry, Prog.view_bind, entry]
    by_cases hidden : served.call.args served.call.nargs = .word setup.mediabayAta
    · rw [if_pos hidden]
      rcases bay walks.1 with zero | none
      · have same : { served with call := { served.call with
            args := fun i => if i = served.call.nargs then .word 0 else served.call.args i } } = served := by
          have args : (fun i => if i = served.call.nargs then .word 0 else served.call.args i) = served.call.args := by
            funext i
            split
            · next here => rw [here, hidden, zero]
            · rfl
          rw [args]
        exact congrArg (Outcome.ok _) same
      · exact absurd (hidden.trans (congrArg Cell.word none)) node
    · rw [if_neg hidden]
      rfl
  · rw [if_neg walks]

theorem transparent_of_unset (smpFix : setup.smpFix = false) (shallowSetprop : setup.shallowSetprop = false)
    (debug : setup.debugBeforeBoot = false)
    (bay : setup.hideMediabayAta = true → setup.mediabayAta = 0 ∨ setup.mediabayAta = noHandle) :
    Transparent setup := by
  intro firmware fuel call proper
  have others := shimOthers_of_unset proper debug bay
  rw [promShim, Prog.view_bind]
  by_cases asks : call.service = str "getprop"
  · obtain ⟨name, place, size, hasName, hasPlace, hasSize⟩ := proper.getprop asks
    rw [show (ShimState.start call).call.service = call.service from rfl, if_pos asks, shimGetprop, Prog.view_bind]
    simp only [ShimState.start, hasName, hasPlace, hasSize, Cell.text?, Cell.number?, Prog.defined_some, Prog.pure_bind,
      smpFix, shallowSetprop, Bool.false_eq_true, false_and, if_false]
    exact others
  · rw [show (ShimState.start call).call.service = call.service from rfl, if_neg asks]
    exact others

/-- A firmware that stores this in the first cell behind four arguments. -/
def answering (value : Nat) (call : PromArgs) : PromArgs :=
  { call with args := fun i => if i = call.nargs then .word value else call.args i }

theorem getprop_proper (firmware : PromArgs → PromArgs) (ph : Nat) (name : Str) (place size : Nat) :
    Proper firmware (getprop ph name place size) := by
  refine ⟨fun _ => ⟨name, place, size, rfl, rfl, rfl⟩, fun walks => ?_⟩
  have other : ¬Walks (str "getprop") := by decide
  exact absurd walks other

/-- The call that a client makes to walk the device tree. -/
def walkCall (service : Str) : PromArgs where
  service := service
  nargs := 1
  nret := 1
  args := fun _ => .word 0

theorem not_transparent_of_smp (smpFix : setup.smpFix = true) : ¬Transparent setup := by
  intro transparent
  have same := transparent (answering 7) 1 _ (getprop_proper (answering 7) setup.cpu (str "reg") 0 0)
  rw [promShim_getprop, if_pos ⟨smpFix, rfl⟩, if_neg (not_not_intro rfl), Nat.min_zero] at same
  have cell := congrArg (fun outcome => outcome.success?.map fun shim => shim.call.args 4) same
  cases cell

theorem not_transparent_of_shallow (smpFix : setup.smpFix = false) (shallowSetprop : setup.shallowSetprop = true) :
    ¬Transparent setup := by
  intro transparent
  have fakes : FakesInitrd setup setup.promChosen (str "linux,initrd-start") := by
    refine ⟨fun both => ?_, ⟨shallowSetprop, rfl⟩, .inl rfl⟩
    rw [smpFix] at both
    exact Bool.false_ne_true both.1
  have same := transparent (answering 7) 1 _
    (getprop_proper (answering 7) setup.promChosen (str "linux,initrd-start") 0 4)
  obtain ⟨value, run⟩ := promShim_initrd (answering 7) 1 0 4 fakes
  rw [run, Prog.bind_run_ok fakeInitrd_run] at same
  have stores := congrArg (fun outcome => outcome.success?.map fun shim => shim.stores) same
  cases stores

theorem not_transparent_of_bay (hides : setup.hideMediabayAta = true) (some' : setup.mediabayAta ≠ 0)
    (known : setup.mediabayAta ≠ noHandle) : ¬Transparent setup := by
  intro transparent
  have proper : Proper (answering setup.mediabayAta) (walkCall (str "child")) := by
    refine ⟨fun asks => absurd asks (by decide), fun _ none => known ?_⟩
    exact Cell.word.inj none
  have same := transparent (answering setup.mediabayAta) 1 _ proper
  let served : ShimState :=
    { ShimState.start (walkCall (str "child")) with call := answering setup.mediabayAta (walkCall (str "child")) }
  have entry : promEntry (answering setup.mediabayAta) (.start (walkCall (str "child"))) = .ok ⟨⟩ served := rfl
  have other : ¬(ShimState.start (walkCall (str "child"))).call.service = str "getprop" := by decide
  have walks : (ShimState.start (walkCall (str "child"))).call.service = str "child" := rfl
  rw [promShim, Prog.view_bind, if_neg other, shimOthers, if_pos ⟨hides, .inl walks⟩, Prog.bind_run_ok entry,
    Prog.view_bind, if_pos (show served.call.args served.call.nargs = .word setup.mediabayAta from rfl)] at same
  have cell := congrArg (fun outcome => outcome.success?.map fun shim => shim.call.args 1) same
  exact some' (Cell.word.inj (Option.some.inj cell)).symm

theorem not_transparent_of_debug (debug : setup.debugBeforeBoot = true) : ¬Transparent setup := by
  intro transparent
  have proper : Proper (answering 7) (walkCall (str "quiesce")) :=
    ⟨fun asks => absurd asks (by decide), fun walks => absurd walks (by decide)⟩
  have same := transparent (answering 7) 1 _ proper
  have other : ¬(ShimState.start (walkCall (str "quiesce"))).call.service = str "getprop" := by decide
  have walks : ¬(setup.hideMediabayAta = true ∧
      ((ShimState.start (walkCall (str "quiesce"))).call.service = str "child" ∨
        (ShimState.start (walkCall (str "quiesce"))).call.service = str "peer" ∨
        (ShimState.start (walkCall (str "quiesce"))).call.service = str "parent")) := by
    rintro ⟨-, walks⟩
    revert walks
    decide
  have quiesces : (ShimState.start (walkCall (str "quiesce"))).call.service = str "quiesce" := rfl
  rw [promShim, Prog.view_bind, if_neg other, shimOthers, if_neg walks, if_pos ⟨debug, quiesces⟩] at same
  have pauses := congrArg (fun outcome => outcome.success?.map fun shim => shim.pauses) same
  cases pauses

/-- The shim is transparent exactly when none of what it mends is to be mended. -/
theorem transparent_iff : Transparent setup ↔ setup.smpFix = false ∧ setup.shallowSetprop = false ∧
    setup.debugBeforeBoot = false ∧
    (setup.hideMediabayAta = true → setup.mediabayAta = 0 ∨ setup.mediabayAta = noHandle) := by
  constructor
  · intro transparent
    have smpFix : setup.smpFix = false := Bool.eq_false_iff.mpr fun set => not_transparent_of_smp set transparent
    refine ⟨smpFix, ?_, ?_, fun hides => ?_⟩
    · exact Bool.eq_false_iff.mpr fun set => not_transparent_of_shallow smpFix set transparent
    · exact Bool.eq_false_iff.mpr fun set => not_transparent_of_debug set transparent
    · by_contra seen
      rw [not_or] at seen
      exact not_transparent_of_bay hides seen.1 seen.2 transparent
  · rintro ⟨smpFix, shallowSetprop, debug, bay⟩
    exact transparent_of_unset smpFix shallowSetprop debug bay

end Transparent

/-! ## What `prom_init` finds -/

section Init

variable {of : Answers} {preboot : Str} {key : Int} {globals after : Globals}

/-- A text property, up to its NUL. -/
def Answers.text (of : Answers) (node : Nat) (name : String) : Str :=
  ((of.property node (str name)).take 64).takeWhile (· ≠ 0)

def Answers.version (of : Answers) : Str := of.text (of.finddevice (str "/openprom")) "model"

def Answers.system (of : Answers) : Str := of.text (of.finddevice (str "/")) "compatible"

theorem verBuffer_ok {node : Nat} {name : String} {ver : Str} (run : verBuffer of node name globals = .ok ver after) :
    ver = of.text node name ∧ after = globals := by
  obtain ⟨-, run⟩ := Prog.demand_bind_eq_ok.mp run
  exact Prog.pure_eq_ok.mp run

/-- The state in which `prom_init` parses the flags. -/
def Answers.detected (of : Answers) : Globals :=
  let found := { Globals.start with
    prom.root := of.finddevice (str "/")
    prom.chosen := of.finddevice (str "/chosen")
    prom.options := of.finddevice (str "/options") }
  found.setFlags fun flags =>
    let flags := versionFlags of.version flags
    { flags with
      hideMediabayAta := flags.hideMediabayAta || of.system = str "AAPL,3400/2400"
      smpFix := flags.smpFix || of.finddevice promSmpPath ≠ noHandle }

/-- The end of `prom_init`, where the user lets the script run. -/
def Globals.prebooted (globals : Globals) (preboot : Str) (key : Int) : Globals :=
  if preboot ≠ [] ∧ key = -1 then
    { globals with
      bi.withPreboot := true
      prom.interpreted := globals.prom.interpreted ++ [preboot] }
  else globals

theorem failIf_bind_ok {condition : Prop} [Decidable condition] {code : QuikErr} {α : Type} {next : GlobalProg α}
    {value : α} : (failIf condition code >>= fun _ => next) globals = .ok value after ↔
      ¬condition ∧ next globals = .ok value after := by
  rw [failIf]
  split
  · next fails => exact iff_of_false nofun fun both => both.1 fails
  · next holds => exact (and_iff_right holds).symm

/-- What `prom_init` leaves: the flags that were detected, parsed. -/
theorem promInit_ok (run : promInit of preboot key .start = .ok ⟨⟩ after) :
    (of.detected.prom.flags.claimWorkAround = true → of.openDevice (str "/memory") ≠ noHandle) ∧
      after = (of.detected.parsed of).prebooted preboot key := by
  have ends {found : Globals} (same : found = of.detected)
      (run : (parsePromFlags of >>= fun _ => doIf (preboot ≠ [] ∧ key = -1) (Prog.update fun globals =>
        { globals with
          bi.withPreboot := true
          prom.interpreted := globals.prom.interpreted ++ [preboot] })) found = .ok ⟨⟩ after) :
      (of.detected.prom.flags.claimWorkAround = true → of.openDevice (str "/memory") ≠ noHandle) ∧
        after = (of.detected.parsed of).prebooted preboot key := by
    subst same
    have known : of.detected.prom.flags.claimWorkAround = true → of.openDevice (str "/memory") ≠ noHandle := by
      intro claims unknown
      rw [Prog.bind_run_error (parsePromFlags_fails claims unknown)] at run
      cases run
    rw [Prog.bind_run_ok (parsePromFlags_run known), doIf_update] at run
    cases run
    exact ⟨known, rfl⟩
  simp only [promInit, Prog.update_bind, failIf_bind_ok] at run
  obtain ⟨-, -, -, -, run⟩ := run
  obtain ⟨ver, found, verRun, run⟩ := Prog.bind_eq_ok.mp run
  obtain ⟨rfl, rfl⟩ := verBuffer_ok verRun
  rw [Prog.update_bind] at run
  obtain ⟨system, found, systemRun, run⟩ := Prog.bind_eq_ok.mp run
  obtain ⟨rfl, rfl⟩ := verBuffer_ok systemRun
  rw [Prog.bind_run_ok doIf_update, Prog.bind_run_ok doIf_update] at run
  refine ends ?_ run
  have version : of.text (of.finddevice (str "/openprom")) "model" = of.version := rfl
  have system : of.text (of.finddevice (str "/")) "compatible" = of.system := rfl
  by_cases portable : of.system = str "AAPL,3400/2400" <;> by_cases several : of.finddevice promSmpPath = noHandle
  all_goals simp [Answers.detected, Globals.setFlags, version, system, portable, several]

theorem prebooted_setup (initrdBase initrdLen : Nat) :
    (globals.prebooted preboot key).shimSetup initrdBase initrdLen = globals.shimSetup initrdBase initrdLen := by
  rw [Globals.prebooted]
  split <;> rfl

theorem prebooted_shimOf : (globals.prebooted preboot key).bi.shimOf = globals.bi.shimOf := by
  rw [Globals.prebooted]
  split <;> rfl

theorem prebooted_flags : (globals.prebooted preboot key).prom.flags = globals.prom.flags := by
  rw [Globals.prebooted]
  split <;> rfl

theorem versionFlags_kept (ver : Str) (flags : PromFlags) : (versionFlags ver flags).needShim = flags.needShim ∧
    (versionFlags ver flags).hideMediabayAta = flags.hideMediabayAta ∧
    (versionFlags ver flags).smpFix = flags.smpFix := by
  rw [versionFlags]
  split_ifs <;> exact ⟨rfl, rfl, rfl⟩

theorem detected_flags (of : Answers) :
    of.detected.prom.flags = { versionFlags of.version (.ofWord 0) with
      hideMediabayAta := of.system = str "AAPL,3400/2400"
      smpFix := of.finddevice promSmpPath ≠ noHandle } := by
  obtain ⟨-, hides, smp⟩ := versionFlags_kept of.version (.ofWord 0)
  rw [show (PromFlags.ofWord 0).hideMediabayAta = false by decide] at hides
  rw [show (PromFlags.ofWord 0).smpFix = false by decide] at smp
  simp [Answers.detected, Globals.setFlags, Globals.start, PromGlobals.start, hides, smp]

/-- `prom_init` installs the shim exactly when the kernel could tell the shim from the firmware. -/
theorem shim_installed_iff (run : promInit of preboot key .start = .ok ⟨⟩ after) (handle : of.mediabay ≠ 0)
    (initrdBase initrdLen : Nat) :
    after.bi.shimOf = true ↔ ¬Transparent (after.shimSetup initrdBase initrdLen) := by
  obtain ⟨-, rfl⟩ := promInit_ok run
  have facts := parsed of.detected of
  have unset : of.detected.prom.flags.needShim = false := by
    rw [detected_flags]
    exact (versionFlags_kept of.version (.ofWord 0)).1.trans (by decide)
  have quiet : (of.detected.parsed of).bi.debugBeforeBoot = false := by rw [facts.bi]; rfl
  have bay : ((of.detected.parsed of).prom.flags.hideMediabayAta = true →
      (of.detected.parsed of).prom.mediabayAta = 0 ∨ (of.detected.parsed of).prom.mediabayAta = noHandle) ↔
      ¬((of.detected.parsed of).prom.flags.hideMediabayAta = true ∧ of.BayEmpty) := by
    rw [facts.mediabayAta, facts.hideMediabayAta]
    have zero : of.detected.prom.mediabayAta = 0 := rfl
    by_cases hides : of.detected.prom.flags.hideMediabayAta = true <;> by_cases empty : of.BayEmpty
    all_goals simp [hides, empty, handle, zero]
  rw [prebooted_setup, prebooted_shimOf, transparent_iff, facts.shimOf, Bool.or_eq_true, facts.needShim]
  simp only [Globals.shimSetup, quiet, bay, unset]
  have off : of.detected.bi.shimOf = false := rfl
  rw [off]
  cases (of.detected.parsed of).prom.flags.smpFix <;> cases (of.detected.parsed of).prom.flags.shallowSetprop
  all_goals simp

/-- A firmware of one version, with no second processor and no media bay. -/
def machineOf (version : String) : Answers where
  finddevice path := if path = str "/" then 1 else if path = str "/chosen" then 2 else if path = str "/options" then 3
    else if path = str "/openprom" then 4 else noHandle
  property node _ := if node = 4 then str version ++ [0] else []
  number _ _ := 0
  proplen _ _ := 0
  openDevice _ := 5

theorem shim_installed_sample : ∃ after, promInit (machineOf "Open Firmware, 2.0.1") [] (-1) .start = .ok ⟨⟩ after ∧
    (after.bi.shimOf = true ↔ ¬Transparent (after.shimSetup 0x900000 0x1000)) := by
  have run : ∃ after, promInit (machineOf "Open Firmware, 2.0.1") [] (-1) .start = .ok ⟨⟩ after := ⟨_, rfl⟩
  obtain ⟨after, run⟩ := run
  exact ⟨after, run, shim_installed_iff run (by decide) 0x900000 0x1000⟩

/-- The versions of the firmware for which `prom_open` asks for a device as it is named. Only the
last of them is a NewWorld globals, which would need the `:0`. -/
def plainVersions : List Str :=
  [str "Open Firmware, 1.0.5", str "Open Firmware, 2.0", str "Open Firmware, 2.0.1", str "iMac,1"]

theorem versionFlags_nwFullDisk (ver : Str) :
    (versionFlags ver (.ofWord 0)).nwFullDisk = true ↔ ver ∉ plainVersions := by
  have unset : (PromFlags.ofWord 0).nwFullDisk = false := by decide
  have apart : str "OpenFirmware 3" ≠ str "iMac,1" := by decide
  rw [versionFlags, plainVersions]
  simp only [List.mem_cons, List.not_mem_nil, or_false]
  split_ifs with first second third
  · simp [unset, first]
  · rcases second with rfl | rfl <;> simp [unset]
  · rw [not_or] at second
    have last : ver ≠ str "iMac,1" := third.elim (fun same => same ▸ apart) id
    simp [first, second.1, second.2, last]
  · rw [not_or] at third
    simp [unset, not_not.mp third.2]

/-- The disk that is opened after `prom_init`, and what comes of it. -/
theorem disk_opened (run : promInit of preboot key .start = .ok ⟨⟩ after) (later : Answers) (device : Str) :
    promOpen later true device after =
      let handle := later.openDevice (if of.version ∈ plainVersions then device else device ++ str ":0")
      if handle = 0 ∨ handle = noHandle then .error .ofOpen after else .ok handle after := by
  obtain ⟨-, rfl⟩ := promInit_ok run
  have full : ((of.detected.parsed of).prebooted preboot key).prom.flags.nwFullDisk = true ↔
      of.version ∉ plainVersions := by
    rw [prebooted_flags, (parsed of.detected of).nwFullDisk, detected_flags]
    exact versionFlags_nwFullDisk of.version
  have room (set : Prop) : ¬(set ∧ ¬true = true) := fun both => both.2 rfl
  rw [promOpen, Prog.view_bind, failIf, if_neg (room _), Prog.pure_bind]
  have name : (if ((of.detected.parsed of).prebooted preboot key).prom.flags.nwFullDisk = true
      then device ++ str ":0" else device) = if of.version ∈ plainVersions then device else device ++ str ":0" := by
    rw [← ite_not (of.version ∈ plainVersions)]
    exact if_congr full rfl rfl
  simp only [name]
  exact apply_ite (fun program : GlobalProg Nat => program _) _ _ _

/-- An iMac is asked for the device as it stands. -/
theorem disk_opened_sample : ∃ after, promInit (machineOf "iMac,1") [] (-1) .start = .ok ⟨⟩ after ∧
    promOpen (machineOf "iMac,1") true (str "hd") after =
      let handle := (machineOf "iMac,1").openDevice
        (if (machineOf "iMac,1").version ∈ plainVersions then str "hd" else str "hd" ++ str ":0")
      if handle = 0 ∨ handle = noHandle then .error .ofOpen after else .ok handle after := by
  have run : ∃ after, promInit (machineOf "iMac,1") [] (-1) .start = .ok ⟨⟩ after := ⟨_, rfl⟩
  obtain ⟨after, run⟩ := run
  exact ⟨after, run, disk_opened run (machineOf "iMac,1") (str "hd")⟩

end Init

end IQuik.Loader
