import IQuik.Loader.Commands
import IQuik.Loader.ConfigFile
import IQuik.Loader.Relocation

namespace IQuik.Loader

open IQuik.Data IQuik.Program IQuik.Program.Prog IQuik.Config IQuik.Prom

/-! # The loader as a whole: `iquik_main` -/

/-- What one call of `try_load_loop` meets: the commands, the answer of `wait_for_key` and the keys
that follow, and what `malloc`, the firmware and the files give. -/
structure Turn where
  shell : Shell
  key : Int
  keys : List Int
  room : Room
  around : Surroundings

/-- What the loader meets before its loop, and the two entries to the firmware. -/
structure Startup where
  of : Answers
  preboot : Str
  key : Int
  heap : Bool
  cmdRoom : Bool
  bootargs : Str
  bootFile : Str
  envRoom : Bool
  machine : Storage.Machine
  fuel : Nat
  garbage : Nat → UInt8
  promEntry : Nat
  promShim : Nat

structure Booting where
  setup : Setup
  claims : Claims

abbrev MainProg := Prog QuikErr Booting

namespace Booting

def globals (booting : Booting) : Globals := booting.setup.globals

def bi (booting : Booting) : BootInfo := booting.globals.bi

def putSetup (setup : Setup) (booting : Booting) : Booting := { booting with setup }

def putGlobals (globals : Globals) (booting : Booting) : Booting := { booting with setup.globals := globals }

def putBi (bi : BootInfo) (booting : Booting) : Booting := { booting with setup.globals.bi := bi }

def putClaims (claims : Claims) (booting : Booting) : Booting := { booting with claims }

/-- Before anything was called, with the ranges `used` in use. -/
def start (used : List Range) : Booting where
  setup := { fs := .startUp, globals := .start, config := .fresh }
  claims := .start used

end Booting

/-! ## The loop -/

/-- The console of a turn. A line with a command is seen to elsewhere. -/
def Turn.console (turn : Turn) : Console where
  key := turn.key
  keys := turn.keys
  command := fun _ bi => bi

/-- The line that `cmd_edit` takes for a command. -/
def Turn.commandLine (turn : Turn) (config : Parser) (bi : BootInfo) : Option Str :=
  let lastkey := lastKey config turn.console bi
  let line := turn.console.line lastkey
  if lastkey ≠ 10 ∧ line.head? = some 33 then some line else none

/-- `get_load_paths`, with `cmd_dispatch` for a line with a command. -/
def turnPaths (config : Parser) (turn : Turn) : GlobalProg LoadPaths := do
  let auto ← Prog.view fun globals : Globals => autoWords config globals.bi
  let _ ← Prog.defined auto
  let command ← Prog.view fun globals : Globals => turn.commandLine config globals.bi
  match command with
  | some line => do
      Prog.update fun globals => { globals with bi.triedAuto := true }.afterLine turn.shell line
      Prog.fail .notReady
  | none => Prog.focus Globals.bi Globals.putBi (getLoadPaths config turn.console turn.room)

/-- `try_load_loop`; the result is the image with the parameters. -/
def bootTurn (turn : Turn) : MainProg (LoadState × Str) := do
  let config ← Prog.view fun booting : Booting => booting.setup.config
  let paths ← Prog.focus Booting.globals Booting.putGlobals (turnPaths config turn)
  let image ← Prog.focus Booting.claims Booting.putClaims (loadPaths turn.around (.ok paths))
  pure (image, paths.params)

/-- The loop of `iquik_main`. -/
def bootTurns : List Turn → MainProg (Turn × LoadState × Str)
  | [] => Prog.unfinished
  | turn :: turns => do
      let result ← Prog.attempt (bootTurn turn)
      match result with
      | .ok image => pure (turn, image)
      | .error _ => bootTurns turns

/-! ## The way into the kernel -/

/-- What the kernel is entered with: the place, the first three arguments, the property `bootargs`,
and the memory. -/
structure Entry where
  start : Nat
  initrdBase : Nat
  initrdLen : Nat
  client : Nat
  bootargs : Str
  memory : Data.Image

/-- The place that `elf_boot` calls. -/
def elfStart (memory : Data.Image) (image : LoadState) : Nat :=
  let start := memory.be32 image.entry
  if start = 0x60000000 then image.linkedBase
  else if start < image.linkedBase ∨ wrap (image.linkedBase + image.textLen) ≤ start ∨
      memory.be32 (wrap (image.entry + 8)) ≠ 0 then wrap (start + image.entry)
  else start

/-- `elf_boot`. What a kernel that returns would find is left out. -/
def elfBoot (startup : Startup) (memory : Data.Image) (image : LoadState) (params : Str) (booting : Booting) : Entry where
  start := elfStart memory image
  initrdBase := booting.claims.initrdBase
  initrdLen := booting.claims.initrdLen
  client := if booting.bi.shimOf then startup.promShim else startup.promEntry
  bootargs := params
  memory := memory

/-- The shim is given up for a kernel older than 2.4. -/
def BootInfo.unshimmed (bi : BootInfo) : BootInfo :=
  if bi.bootPre24 ∧ bi.shimOf then { bi with shimOf := !bi.shimOf } else bi

/-- `iquik_main` from `elf_relo` on. -/
def enterKernel (startup : Startup) (turn : Turn) (image : LoadState) (params : Str) : MainProg Entry := do
  let bi ← Prog.view Booting.bi
  let moved ← Prog.focus Booting.claims Booting.putClaims
    (elfRelo turn.around bi.bootPre24 turn.around.memory image)
  Prog.update fun booting => booting.putBi booting.bi.unshimmed
  Prog.view (elfBoot startup moved.2 moved.1 params)

/-- `malloc_init` and `cmd_init`. -/
def initHeap (startup : Startup) : MainProg PUnit :=
  if startup.heap then do
    Prog.update fun booting => booting.putClaims (booting.claims.claim heapRange)
    if startup.cmdRoom then pure ⟨⟩ else Prog.fail .noMem
  else Prog.fail .mallocInit

/-- `iquik_main`, which leaves for the firmware on an error. -/
def iquikMain (startup : Startup) (turns : List Turn) : MainProg Entry := do
  Prog.focus Booting.globals Booting.putGlobals (promInit startup.of startup.preboot startup.key)
  initHeap startup
  Prog.focus Booting.bi Booting.putBi (envInit startup.bootargs startup.bootFile startup.envRoom)
  let _ ← Prog.attempt (Prog.focus Booting.setup Booting.putSetup
    (loadConfig startup.machine startup.fuel startup.garbage))
  let (turn, image, params) ← bootTurns turns
  enterKernel startup turn image params

/-! ## The client interface of the kernel -/

/-- The flags that decide about the shim, in `bi`. -/
def BootInfo.shimPart (bi : BootInfo) : Bool × Bool := (bi.shimOf, bi.debugBeforeBoot)

theorem Settled.of_same {before after : Globals} (settled : Settled before)
    (bi : after.bi.shimPart = before.bi.shimPart) (flags : after.prom.flags = before.prom.flags)
    (bay : after.prom.mediabayAta = before.prom.mediabayAta) : Settled after := by
  obtain ⟨shimOf, debug⟩ := Prod.mk.inj bi
  refine ⟨?_, ?_, ?_, ?_⟩
  · rw [shimOf, debug]
    exact settled.debug
  · rw [shimOf, bay]
    exact settled.bay
  · rw [shimOf, flags]
    exact settled.smpFix
  · rw [shimOf, flags]
    exact settled.shallowSetprop

section Settling

/-- Not to change those flags is a frame. -/
theorem shimPart_frame : Frame fun before after : BootInfo => after.shimPart = before.shimPart :=
  Frame.of_same BootInfo.shimPart

theorem envInit_keeps (bootargs bootFile : Str) (room : Bool) :
    Keeps (fun before after : BootInfo => after.shimPart = before.shimPart) (envInit bootargs bootFile room) := by
  have device (text : Str) (bi : BootInfo) : (bi.setDevice text).shimPart = bi.shimPart := by
    rw [BootInfo.setDevice]
    split <;> rfl
  refine Keeps.ite ?_ (Keeps.fail shimPart_frame _)
  refine Keeps.bind shimPart_frame (Keeps.demand shimPart_frame _) fun _ => ?_
  refine Keeps.bind shimPart_frame (Keeps.view shimPart_frame _) fun preboot => ?_
  refine Keeps.bind shimPart_frame (Keeps.update fun _ => rfl) fun _ => ?_
  refine Keeps.ite (Keeps.ite (Keeps.fail shimPart_frame _) (Keeps.update (device _))) ?_
  exact Keeps.bind shimPart_frame (Keeps.defined shimPart_frame _) fun _ => Keeps.update (device _)

theorem getLoadPaths_keeps (config : Parser) (turn : Turn) :
    Keeps (fun before after : BootInfo => after.shimPart = before.shimPart)
      (getLoadPaths config turn.console turn.room) := by
  have words : Keeps (fun before after : BootInfo => after.shimPart = before.shimPart)
      (promptWords config turn.console) := by
    refine Keeps.bind shimPart_frame (Keeps.view shimPart_frame _) fun auto => ?_
    refine Keeps.bind shimPart_frame (Keeps.defined shimPart_frame _) fun auto => ?_
    refine Keeps.bind shimPart_frame (Keeps.view shimPart_frame _) fun lastkey => ?_
    refine Keeps.bind shimPart_frame (Keeps.update fun _ => rfl) fun _ => ?_
    refine Keeps.ite (Keeps.pure shimPart_frame _) ?_
    refine Keeps.bind shimPart_frame ?_ fun line => ?_
    · exact Keeps.ite (Keeps.bind shimPart_frame (Keeps.update fun _ => rfl) fun _ => Keeps.pure shimPart_frame _)
        (Keeps.pure shimPart_frame _)
    · cases line with
      | none => exact Keeps.fail shimPart_frame _
      | some line => exact Keeps.pure shimPart_frame _
  have params (buffer : Bool) (words : Option Str × Str) :
      Keeps (fun before after : BootInfo => after.shimPart = before.shimPart) (paramsFrom config buffer words) := by
    intro before after returned
    obtain ⟨-, rfl⟩ | ⟨image, -, rfl⟩ := paramsFrom_state returned
    · rfl
    · rw [BootInfo.withParams, BootInfo.withPause]
      split_ifs <;> rfl
  refine Keeps.bind shimPart_frame (Keeps.bind shimPart_frame words fun words => params _ words) fun result => ?_
  exact Keeps.mono (pathsFrom_keeps _ _) fun before after kept => by rw [kept]

/-- A call that leaves a settled state settled. -/
theorem settles : Frame fun before after : Globals => Settled before → Settled after where
  refl _ := id
  trans first second := second ∘ first

theorem turnPaths_settles {config : Parser} {turn : Turn}
    (memory : turn.shell.of.openDevice (str "/memory") ≠ noHandle) :
    Keeps (fun before after : Globals => Settled before → Settled after) (turnPaths config turn) := by
  refine Keeps.bind settles (Keeps.view settles _) fun auto => ?_
  refine Keeps.bind settles (Keeps.defined settles _) fun auto => ?_
  refine Keeps.bind settles (Keeps.view settles _) fun command => ?_
  cases command with
  | some line =>
      refine Keeps.bind settles (Keeps.update fun globals settled => ?_) fun _ => Keeps.fail settles _
      exact (line_step _ turn.shell line).settled (fun _ _ => memory) (settled.of_same rfl rfl rfl)
  | none =>
      refine Keeps.focus (getLoadPaths_keeps config turn) fun globals bi kept settled => ?_
      exact settled.of_same kept rfl rfl

/-- The same for the whole state. -/
theorem settlesAll : Frame fun before after : Booting => Settled before.globals → Settled after.globals where
  refl _ := id
  trans first second := second ∘ first

theorem bootTurn_settles {turn : Turn} (memory : turn.shell.of.openDevice (str "/memory") ≠ noHandle) :
    Keeps (fun before after : Booting => Settled before.globals → Settled after.globals) (bootTurn turn) := by
  refine Keeps.bind settlesAll (Keeps.view settlesAll _) fun config => ?_
  refine Keeps.bind settlesAll (Keeps.focus (turnPaths_settles memory) fun _ _ kept => kept) fun paths => ?_
  have loads : Keeps (fun _ _ : Claims => True) (loadPaths turn.around (.ok paths)) := fun _ _ _ => trivial
  exact Keeps.bind settlesAll (loads.focus fun _ _ _ => id) fun image => Keeps.pure settlesAll _

/-- What every turn keeps, the loop keeps. -/
theorem bootTurns_keeps {keeps : Booting → Booting → Prop} (frame : Frame keeps) {turns : List Turn}
    (each : ∀ turn ∈ turns, Keeps keeps (bootTurn turn)) : Keeps keeps (bootTurns turns) := by
  induction turns with
  | nil => exact Keeps.unfinished
  | cons turn turns ih =>
      refine Keeps.bind frame (Keeps.attempt (each turn (.head _))) fun result => ?_
      cases result with
      | ok image => exact Keeps.pure frame _
      | error code => exact ih fun later member => each later (.tail _ member)

theorem loadConfig_settles (startup : Startup) :
    Keeps (fun before after : Setup => Settled before.globals → Settled after.globals)
      (loadConfig startup.machine startup.fuel startup.garbage) := by
  have frame : Frame fun before after : Setup => Settled before.globals → Settled after.globals :=
    ⟨fun _ => id, fun first second => second ∘ first⟩
  have reads (bi : BootInfo) : Keeps (fun _ _ : Storage.Fs => True)
      (readConfig startup.machine startup.fuel startup.garbage bi) := fun _ _ _ => trivial
  refine Keeps.bind frame (Keeps.view frame _) fun bi => ?_
  refine Keeps.bind frame ((reads bi).focus fun _ _ _ => id) fun buf => ?_
  refine Keeps.bind frame (fun before after returned => ?_) fun _ => ?_
  · rw [parseBuf] at returned
    split at returned <;> cases returned <;> exact id
  · refine Keeps.bind frame (Keeps.update fun setup settled => settled.of_same rfl rfl rfl) fun _ => ?_
    intro before after returned
    rw [(showMessage_keeps returned).2.1]
    exact id

theorem initHeap_ok {startup : Startup} {before after : Booting} (run : initHeap startup before = .ok ⟨⟩ after) :
    after = before.putClaims (before.claims.claim heapRange) := by
  rw [initHeap] at run
  split at run
  · rw [Prog.update_bind] at run
    split at run <;> cases run
    rfl
  · cases run

theorem unshimmed_old {bi : BootInfo} (old : bi.bootPre24 = true) : bi.unshimmed = { bi with shimOf := false } := by
  obtain ⟨configValid, pause, debug, tried, pre24, shim, preboot, file, dev, args, message⟩ := bi
  obtain rfl : pre24 = true := old
  cases shim <;> rfl

theorem unshimmed_new {bi : BootInfo} (new : bi.bootPre24 = false) : bi.unshimmed = bi :=
  if_neg fun both => Bool.false_ne_true (new.symm.trans both.1)

/-- What the kernel is entered with. -/
theorem enterKernel_ok {startup : Startup} {turn : Turn} {image : LoadState} {params : Str} {entry : Entry}
    {before after : Booting} (run : enterKernel startup turn image params before = .ok entry after) :
    ∃ moved claims,
      elfRelo turn.around before.bi.bootPre24 turn.around.memory image before.claims = .ok moved claims ∧
        after = (before.putClaims claims).putBi before.bi.unshimmed ∧
        entry = elfBoot startup moved.2 moved.1 params after := by
  rw [enterKernel, Prog.view_bind] at run
  obtain ⟨moved, middle, relocated, rest⟩ := Prog.bind_eq_ok.mp run
  obtain ⟨claims, moves, rfl⟩ := Prog.focus_eq_ok.mp relocated
  rw [Prog.update_bind] at rest
  cases rest
  exact ⟨moved, claims, moves, rfl, rfl⟩

end Settling

section Serving

variable {startup : Startup} {turns : List Turn} {used : List Range} {entry : Entry} {after : Booting}

/-- The loader comes to its loop in a settled state, and having claimed nothing but its heap. -/
theorem iquikMain_ok (run : iquikMain startup turns (.start used) = .ok entry after) :
    ∃ before loaded turn image params, Settled before.globals ∧ before.claims = (Claims.start used).claim heapRange ∧
      bootTurns turns before = .ok (turn, image, params) loaded ∧
      enterKernel startup turn image params loaded = .ok entry after := by
  obtain ⟨_, first, inited, run⟩ := Prog.bind_eq_ok.mp run
  obtain ⟨globals, prom, rfl⟩ := Prog.focus_eq_ok.mp inited
  obtain ⟨_, second, heap, run⟩ := Prog.bind_eq_ok.mp run
  obtain rfl := initHeap_ok heap
  obtain ⟨_, third, environment, run⟩ := Prog.bind_eq_ok.mp run
  obtain ⟨bi, env, rfl⟩ := Prog.focus_eq_ok.mp environment
  have environed : Settled { globals with bi } :=
    (promInit_settled prom).of_same (envInit_keeps _ _ _ _ _ (congrArg Outcome.state? env)) rfl rfl
  obtain ⟨result, before, configured, run⟩ := Prog.bind_eq_ok.mp run
  have reads : Keeps (fun before after : Booting =>
      (Settled before.globals → Settled after.globals) ∧ after.claims = before.claims)
      (Prog.focus Booting.setup Booting.putSetup (loadConfig startup.machine startup.fuel startup.garbage)) :=
    (loadConfig_settles startup).focus fun _ _ kept => ⟨kept, rfl⟩
  obtain ⟨settled, claims⟩ := reads.attempt _ before (congrArg Outcome.state? configured)
  obtain ⟨⟨turn, image, params⟩, loaded, looped, run⟩ := Prog.bind_eq_ok.mp run
  exact ⟨before, loaded, turn, image, params, settled environed, claims, looped, run⟩

/-- A kernel is given the shim unless it is older than 2.4, and one that is given the bare firmware
is old, or could not tell the firmware from the shim. -/
theorem kernel_served (memory : ∀ turn ∈ turns, turn.shell.of.openDevice (str "/memory") ≠ noHandle)
    (run : iquikMain startup turns (.start used) = .ok entry after) :
    (entry.client = startup.promShim ∧ after.bi.bootPre24 = false) ∨
      (entry.client = startup.promEntry ∧ (after.bi.bootPre24 = true ∨
        Transparent (after.globals.shimSetup entry.initrdBase entry.initrdLen))) := by
  obtain ⟨before, loaded, turn, image, params, settled, -, looped, enters⟩ := iquikMain_ok run
  have ready : Settled loaded.globals := bootTurns_keeps settlesAll (fun turn member => bootTurn_settles (memory turn member))
    before loaded (congrArg Outcome.state? looped) settled
  obtain ⟨moved, claims, -, rfl, rfl⟩ := enterKernel_ok enters
  cases old : loaded.bi.bootPre24 with
  | true =>
      rw [unshimmed_old old]
      exact .inr ⟨rfl, .inl old⟩
  | false =>
      rw [unshimmed_new old]
      have same : Settled ((loaded.putClaims claims).putBi loaded.bi).globals := ready
      cases shim : loaded.bi.shimOf with
      | true => exact .inl ⟨if_pos shim, old⟩
      | false => exact .inr ⟨if_neg (Bool.eq_false_iff.mp shim), .inr (same.transparent shim _ _)⟩

end Serving

/-- The firmware names a partition, there is no configuration, and the path of a kernel is typed. -/
def typedStartup : Startup where
  of := machineOf "OpenFirmware 3"
  preboot := []
  key := -1
  heap := true
  cmdRoom := true
  bootargs := str "hd:1"
  bootFile := []
  envRoom := true
  machine := { openDevice := fun _ _ => none, read := fun _ _ _ _ => { count := 0, bytes := fun _ => 0 },
               grants := fun _ _ => true, nwFullDisk := true }
  fuel := 1
  garbage := fun _ => 0
  promEntry := 0xFFF00000
  promShim := 0x3E0100

def typedTurn (around : Surroundings) (line : String) : Turn where
  shell := shellOf "OpenFirmware 3"
  key := -1
  keys := (str line).map fun c => (c.toNat : Int)
  room := { buffer := true, kernel := true, initrd := true }
  around := around

/-- A command comes before the kernel. -/
def typedTurns : List Turn := [typedTurn headersOnly "!debug", typedTurn headersOnly "/vmlinux /initrd ro"]

theorem typed_run : ∃ entry after, iquikMain typedStartup typedTurns (.start []) = .ok entry after := by
  have returns : (iquikMain typedStartup typedTurns (.start [])).value?.isSome = true := by decide +kernel
  obtain ⟨entry, value⟩ := Option.isSome_iff_exists.mp returns
  obtain ⟨after, run⟩ := Outcome.value?_eq_some.mp value
  exact ⟨entry, after, run⟩

theorem kernel_served_typed : ∃ entry after, iquikMain typedStartup typedTurns (.start []) = .ok entry after ∧
    ((entry.client = typedStartup.promShim ∧ after.bi.bootPre24 = false) ∨
      (entry.client = typedStartup.promEntry ∧ (after.bi.bootPre24 = true ∨
        Transparent (after.globals.shimSetup entry.initrdBase entry.initrdLen)))) := by
  obtain ⟨entry, after, run⟩ := typed_run
  refine ⟨entry, after, run, kernel_served (fun turn member => ?_) run⟩
  rcases List.mem_cons.mp member with rfl | later
  · decide
  · obtain rfl := List.mem_singleton.mp later
    decide

end IQuik.Loader
