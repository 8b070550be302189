import IQuik.Loader.BootLoop
import IQuik.Loader.Quirks

namespace IQuik.Loader

open IQuik.Data IQuik.Program IQuik.Prom

/-! # Commands: `cmd_dispatch` -/

/-- What a command meets: the firmware, whether `malloc` grants the path of `!dev`, and what
becomes of showing a file and of listing a directory. -/
structure Shell where
  of : Answers
  room : Bool
  cat : Str → Except QuikErr Unit
  ls : Str → Except QuikErr Unit

def Globals.putBi (bi : BootInfo) (globals : Globals) : Globals := { globals with bi }

/-- `file_cmd_dev`. -/
def fileCmdDev (room : Bool) (p : Str) : GlobalProg PUnit :=
  if p.length = 0 then Prog.fail .cmdBadParam
  else do
    let defaultDev ← Prog.view fun globals => globals.bi.defaultDev
    let path ← Prog.focus Globals.bi Globals.putBi (filePath p defaultDev room)
    let dev := envDevSetPart { defaultDev with device := path.device } path.part
    Prog.update fun globals => { globals with bi.defaultDev := dev }
    failIf (¬dev.isValid) .envCurrentBad

def cmdDebug : GlobalProg PUnit :=
  Prog.update fun globals => { globals with
    bi.shimOf := true
    bi.debugBeforeBoot := true }

def cmdOldKernel : GlobalProg PUnit :=
  Prog.update fun globals => { globals with bi.bootPre24 := !globals.bi.bootPre24 }

/-- `cmd_of_interp`. -/
def cmdOfInterp (args : Str) : GlobalProg PUnit :=
  Prog.update fun globals => { globals with prom.interpreted := globals.prom.interpreted ++ [args] }

/-- A command that only prints, with its error. -/
def printing : Except QuikErr Unit → GlobalProg PUnit
  | .ok _ => pure ⟨⟩
  | .error code => Prog.fail code

/-- `command_t`, without the description. -/
structure Command where
  name : Str
  fn : Str → GlobalProg PUnit

/-- The section `.commands`. -/
def commands (shell : Shell) : List Command :=
  [⟨str "!debug", fun _ => cmdDebug⟩,
    ⟨str "!old", fun _ => cmdOldKernel⟩,
    ⟨str "!halt", fun _ => pure ⟨⟩⟩,
    ⟨str "!of", cmdOfInterp⟩,
    ⟨str "!dev", fileCmdDev shell.room⟩,
    ⟨str "!cat", fun p => printing (shell.cat p)⟩,
    ⟨str "!ls", fun args => printing (shell.ls args)⟩,
    ⟨str "!prom_flags", cmdPromFlags shell.of⟩,
    ⟨str "!help", fun _ => pure ⟨⟩⟩]

/-- `cmd_dispatch`, which prints the error of a command. -/
def cmdDispatch (shell : Shell) (line : Str) : GlobalProg PUnit :=
  let words := wordSplit (some line)
  match words.1 with
  | none => Prog.fail .cmdUnknown
  | some args =>
      match (commands shell).find? fun c => c.name = args with
      | none => Prog.fail .cmdUnknown
      | some c => do
          let _ ← Prog.attempt (c.fn (chomp words.2))
          pure ⟨⟩

/-- The globals after a line, whatever came of it. -/
def Globals.afterLine (globals : Globals) (shell : Shell) (line : Str) : Globals :=
  ((cmdDispatch shell line globals).state?).getD globals

/-- The lines that were typed one after the other, with what each met. -/
abbrev Typed := List (Shell × Str)

def Globals.afterLines (globals : Globals) (typed : Typed) : Globals :=
  typed.foldl (fun globals step => globals.afterLine step.1 step.2) globals

/-! ## What a line does -/

/-- The command that a line names, and what is passed to it. -/
def commandOf (line : Str) : Option Str := (wordSplit (some line)).1

def argsOf (line : Str) : Str := chomp (wordSplit (some line)).2

/-- The flags of `prom_flags` in an argument. -/
def flagsOf (args : Str) : PromFlags := .ofWord (unsigned (strtol args 0).1)

inductive LineStep (shell : Shell) (line : Str) (before : Globals) : Globals → Prop
  | nothing (debug : commandOf line ≠ some (str "!debug")) (old : commandOf line ≠ some (str "!old"))
      (of : commandOf line ≠ some (str "!of")) : LineStep shell line before before
  | debug (asked : commandOf line = some (str "!debug")) :
      LineStep shell line before { before with
        bi.shimOf := true
        bi.debugBeforeBoot := true }
  | old (asked : commandOf line = some (str "!old")) :
      LineStep shell line before { before with bi.bootPre24 := !before.bi.bootPre24 }
  | of (asked : commandOf line = some (str "!of")) :
      LineStep shell line before { before with prom.interpreted := before.prom.interpreted ++ [argsOf line] }
  | dev (asked : commandOf line = some (str "!dev")) {path : FsPath}
      (found : filePath (argsOf line) before.bi.defaultDev shell.room before.bi = .ok path before.bi) :
      LineStep shell line before
        { before with bi.defaultDev := envDevSetPart { before.bi.defaultDev with device := path.device } path.part }
  | flags (asked : commandOf line = some (str "!prom_flags")) (argument : argsOf line ≠ [])
      (opens : (flagsOf (argsOf line)).claimWorkAround = true → shell.of.openDevice (str "/memory") ≠ noHandle) :
      LineStep shell line before ((before.setFlags fun _ => flagsOf (argsOf line)).parsed shell.of)
  | unopened (asked : commandOf line = some (str "!prom_flags")) (argument : argsOf line ≠ [])
      (claims : (flagsOf (argsOf line)).claimWorkAround = true)
      (fails : shell.of.openDevice (str "/memory") = noHandle) :
      LineStep shell line before ((before.setFlags fun _ => flagsOf (argsOf line)).withMemory shell.of)

section Lines

variable {shell : Shell} {line : Str} {globals before after : Globals}

/-- A known command leaves what its function leaves. -/
theorem afterLine_known {c : Command} (named : commandOf line = some c.name)
    (found : ((commands shell).find? fun other => other.name = c.name) = some c)
    (returned : (c.fn (argsOf line) globals).state? = some after) : globals.afterLine shell line = after := by
  have run : (cmdDispatch shell line globals).state? = some after := by
    rw [commandOf] at named
    rw [cmdDispatch]
    simp only [named, found]
    exact Prog.ignore_state?.trans returned
  rw [Globals.afterLine, run]
  rfl

/-- Any other line changes nothing. -/
theorem afterLine_unknown (unknown : ∀ c ∈ commands shell, commandOf line ≠ some c.name) :
    globals.afterLine shell line = globals := by
  have run : (cmdDispatch shell line globals).state? = some globals := by
    rw [cmdDispatch]
    cases named : (wordSplit (some line)).1 with
    | none => rfl
    | some name =>
        have missing : ((commands shell).find? fun c => c.name = name) = none := by
          rw [List.find?_eq_none]
          intro c member same
          exact unknown c member (named.trans (congrArg some (of_decide_eq_true same).symm))
        simp only [missing]
        rfl
  rw [Globals.afterLine, run]
  rfl

theorem printing_state? (result : Except QuikErr Unit) : (printing result globals).state? = some globals := by
  cases result <;> rfl

/-- A path that is found is on some device. -/
theorem filePath_device {spec : Str} {dev : EnvDev} {room : Bool} {bi after : BootInfo} {path : FsPath}
    (run : filePath spec dev room bi = .ok path after) : path.device.isSome := by
  rw [filePath] at run
  split at run
  · dsimp only at run
    split at run
    · split at run
      · cases run
      · split at run
        · cases run
        · rw [(fsPath_eq_ok run).1]
          rfl
    · split at run
      · next valid =>
          rw [(fsPath_eq_ok run).1]
          exact (Bool.and_eq_true_iff.mp valid).1
      · cases run
  · cases run

variable (globals) in
/-- `!dev` stores a valid device, or nothing. -/
theorem fileCmdDev_state? (room : Bool) (p : Str) :
    (fileCmdDev room p globals).state? = some globals ∨
      ∃ path, filePath p globals.bi.defaultDev room globals.bi = .ok path globals.bi ∧
        (fileCmdDev room p globals).state? = some
          { globals with bi.defaultDev := envDevSetPart { globals.bi.defaultDev with device := path.device } path.part } := by
  rw [fileCmdDev]
  by_cases empty : p.length = 0
  · rw [if_pos empty]
    exact .inl rfl
  rw [if_neg empty, Prog.view_bind]
  obtain ⟨path, steady⟩ | ⟨code, steady⟩ := filePath_steady p globals.bi.defaultDev room
  · have run : filePath p globals.bi.defaultDev room globals.bi = .ok path globals.bi := by
      rw [steady]
      rfl
    have device := filePath_device run
    have focused : Prog.focus Globals.bi Globals.putBi
        (filePath p globals.bi.defaultDev room) globals = .ok path globals :=
      Prog.focus_eq_ok.mpr ⟨globals.bi, run, rfl⟩
    refine .inr ⟨path, run, ?_⟩
    have valid : (envDevSetPart { globals.bi.defaultDev with device := path.device } path.part).isValid = true :=
      Bool.and_eq_true_iff.mpr ⟨device, rfl⟩
    rw [Prog.bind_run_ok focused, Prog.update_bind, failIf, if_neg (not_not_intro valid)]
    rfl
  · have failed : Prog.focus Globals.bi Globals.putBi
        (filePath p globals.bi.defaultDev room) globals = .error code globals := by
      rw [steady]
      rfl
    rw [Prog.bind_run_error failed]
    exact .inl rfl

variable (globals) in
theorem cmdPromFlags_state? (of : Answers) (args : Str) :
    (args = [] ∧ (cmdPromFlags of args globals).state? = some globals) ∨ args ≠ [] ∧
      (((flagsOf args).claimWorkAround = true → of.openDevice (str "/memory") ≠ noHandle) ∧
        (cmdPromFlags of args globals).state? = some ((globals.setFlags fun _ => flagsOf args).parsed of) ∨
      ((flagsOf args).claimWorkAround = true ∧ of.openDevice (str "/memory") = noHandle) ∧
        (cmdPromFlags of args globals).state? = some ((globals.setFlags fun _ => flagsOf args).withMemory of)) := by
  rw [cmdPromFlags]
  by_cases empty : args = []
  · rw [if_pos (show args.length = 0 by rw [empty]; rfl)]
    exact .inl ⟨empty, rfl⟩
  rw [if_neg (mt List.eq_nil_of_length_eq_zero empty), Prog.update_bind]
  refine .inr ⟨empty, ?_⟩
  by_cases fails : (flagsOf args).claimWorkAround = true ∧ of.openDevice (str "/memory") = noHandle
  · have run : parsePromFlags of (globals.setFlags fun _ => flagsOf args) =
        .error .ofInitNoMemory ((globals.setFlags fun _ => flagsOf args).withMemory of) :=
      parsePromFlags_fails fails.1 fails.2
    exact .inr ⟨fails, congrArg Outcome.state? run⟩
  · have opens : (flagsOf args).claimWorkAround = true → of.openDevice (str "/memory") ≠ noHandle :=
      fun claims unknown => fails ⟨claims, unknown⟩
    have run : parsePromFlags of (globals.setFlags fun _ => flagsOf args) =
        .ok ⟨⟩ ((globals.setFlags fun _ => flagsOf args).parsed of) := parsePromFlags_run opens
    exact .inl ⟨opens, congrArg Outcome.state? run⟩

theorem line_step (globals : Globals) (shell : Shell) (line : Str) :
    LineStep shell line globals (globals.afterLine shell line) := by
  by_cases debug : commandOf line = some (str "!debug")
  · rw [afterLine_known (c := ⟨str "!debug", fun _ => cmdDebug⟩) debug rfl rfl]
    exact .debug debug
  by_cases old : commandOf line = some (str "!old")
  · rw [afterLine_known (c := ⟨str "!old", fun _ => cmdOldKernel⟩) old rfl rfl]
    exact .old old
  by_cases of : commandOf line = some (str "!of")
  · rw [afterLine_known (c := ⟨str "!of", cmdOfInterp⟩) of rfl rfl]
    exact .of of
  by_cases dev : commandOf line = some (str "!dev")
  · have known (final : Globals) (returned : (fileCmdDev shell.room (argsOf line) globals).state? = some final) :
        globals.afterLine shell line = final :=
      afterLine_known (c := ⟨str "!dev", fileCmdDev shell.room⟩) dev rfl returned
    obtain kept | ⟨path, found, stored⟩ := fileCmdDev_state? globals shell.room (argsOf line)
    · rw [known _ kept]
      exact .nothing debug old of
    · rw [known _ stored]
      exact .dev dev found
  by_cases flags : commandOf line = some (str "!prom_flags")
  · have known (final : Globals) (returned : (cmdPromFlags shell.of (argsOf line) globals).state? = some final) :
        globals.afterLine shell line = final :=
      afterLine_known (c := ⟨str "!prom_flags", cmdPromFlags shell.of⟩) flags rfl returned
    obtain ⟨-, kept⟩ | ⟨argument, ⟨opens, parsed⟩ | ⟨⟨claims, fails⟩, unopened⟩⟩ :=
      cmdPromFlags_state? globals shell.of (argsOf line)
    · rw [known _ kept]
      exact .nothing debug old of
    · rw [known _ parsed]
      exact .flags flags argument opens
    · rw [known _ unopened]
      exact .unopened flags argument claims fails
  have kept : globals.afterLine shell line = globals := by
    by_cases halt : commandOf line = some (str "!halt")
    · exact afterLine_known (c := ⟨str "!halt", fun _ => pure ⟨⟩⟩) halt rfl rfl
    by_cases help : commandOf line = some (str "!help")
    · exact afterLine_known (c := ⟨str "!help", fun _ => pure ⟨⟩⟩) help rfl rfl
    by_cases cat : commandOf line = some (str "!cat")
    · exact afterLine_known (c := ⟨str "!cat", fun p => printing (shell.cat p)⟩) cat rfl (printing_state? _)
    by_cases ls : commandOf line = some (str "!ls")
    · exact afterLine_known (c := ⟨str "!ls", fun args => printing (shell.ls args)⟩) ls rfl (printing_state? _)
    refine afterLine_unknown fun c member => ?_
    simp only [commands, List.mem_cons, List.not_mem_nil, or_false] at member
    rcases member with rfl | rfl | rfl | rfl | rfl | rfl | rfl | rfl | rfl <;> assumption
  rw [kept]
  exact .nothing debug old of

end Lines

/-! ## What a session does -/

section Sessions

variable {typed : Typed} {globals before after : Globals}

def Asks (name : String) (line : Str) : Bool := commandOf line = some (str name)

/-- How often a command was given. -/
def Typed.count (typed : Typed) (name : String) : Nat := typed.countP fun step => Asks name step.2

/-- Parity of the `!old` lines decides about the age of the kernel; the shim and the pause, once
asked for, stay; what was to be interpreted was interpreted in the order of the lines; and the rest
is as it was, but for the default device, which stays valid. -/
structure SessionEffects (typed : Typed) (before after : Globals) : Prop where
  bootPre24 : after.bi.bootPre24 = (before.bi.bootPre24 ^^ decide (typed.count "!old" % 2 = 1))
  debugBeforeBoot : after.bi.debugBeforeBoot = (before.bi.debugBeforeBoot || decide (0 < typed.count "!debug"))
  shimOf : before.bi.shimOf = true ∨ 0 < typed.count "!debug" → after.bi.shimOf = true
  interpreted : after.prom.interpreted =
    before.prom.interpreted ++ (typed.filter fun step => Asks "!of" step.2).map fun step => argsOf step.2
  defaultDev : before.bi.defaultDev.isValid = true → after.bi.defaultDev.isValid = true
  bi : after.bi = { before.bi with
    bootPre24 := after.bi.bootPre24
    debugBeforeBoot := after.bi.debugBeforeBoot
    shimOf := after.bi.shimOf
    defaultDev := after.bi.defaultDev }
  handles : after.prom.root = before.prom.root ∧ after.prom.chosen = before.prom.chosen ∧
    after.prom.options = before.prom.options

theorem count_single (shell : Shell) (line : Str) (name : String) :
    Typed.count [(shell, line)] name = if Asks name line then 1 else 0 := by
  rw [Typed.count, List.countP_cons, List.countP_nil, Nat.zero_add]

theorem asks_of {line : Str} {other : String} (asked : commandOf line = some (str other)) (name : String) :
    Asks name line = decide (str other = str name) := by
  rw [Asks, asked]
  exact decide_eq_decide.mpr Option.some_inj

/-- A line that is none of the three commands that are counted. -/
theorem effects_uncounted {shell : Shell} {line : Str} (old : Asks "!old" line = false)
    (debug : Asks "!debug" line = false) (of : Asks "!of" line = false)
    (bi : after.bi = { before.bi with
      shimOf := after.bi.shimOf
      defaultDev := after.bi.defaultDev })
    (shimOf : before.bi.shimOf = true → after.bi.shimOf = true)
    (defaultDev : before.bi.defaultDev.isValid = true → after.bi.defaultDev.isValid = true)
    (prom : after.prom.interpreted = before.prom.interpreted ∧ after.prom.root = before.prom.root ∧
      after.prom.chosen = before.prom.chosen ∧ after.prom.options = before.prom.options) :
    SessionEffects [(shell, line)] before after where
  bootPre24 := by
    rw [bi, count_single, old]
    simp
  debugBeforeBoot := by
    rw [bi, count_single, debug]
    simp
  shimOf := by
    rw [count_single, debug]
    simpa using shimOf
  interpreted := by simp [prom.1, of]
  defaultDev := defaultDev
  bi := by rw [bi]
  handles := prom.2

/-- One line. -/
theorem LineStep.effects {shell : Shell} {line : Str} (step : LineStep shell line before after) :
    SessionEffects [(shell, line)] before after := by
  cases step with
  | nothing debug old of =>
      exact effects_uncounted (decide_eq_false old) (decide_eq_false debug) (decide_eq_false of) rfl id id
        ⟨rfl, rfl, rfl, rfl⟩
  | debug asked =>
      have debug : Asks "!debug" line = true := (asks_of asked _).trans (decide_eq_true rfl)
      have old : Asks "!old" line = false := (asks_of asked _).trans (by decide)
      have of : Asks "!of" line = false := (asks_of asked _).trans (by decide)
      exact ⟨by simp [count_single, old], by simp [count_single, debug], fun _ => rfl, by simp [of], id, rfl, rfl, rfl,
        rfl⟩
  | old asked =>
      have debug : Asks "!debug" line = false := (asks_of asked _).trans (by decide)
      have old : Asks "!old" line = true := (asks_of asked _).trans (decide_eq_true rfl)
      have of : Asks "!of" line = false := (asks_of asked _).trans (by decide)
      exact ⟨by simp [count_single, old], by simp [count_single, debug], by simp [count_single, debug], by simp [of], id,
        rfl, rfl, rfl, rfl⟩
  | of asked =>
      have debug : Asks "!debug" line = false := (asks_of asked _).trans (by decide)
      have old : Asks "!old" line = false := (asks_of asked _).trans (by decide)
      have of : Asks "!of" line = true := (asks_of asked _).trans (decide_eq_true rfl)
      exact ⟨by simp [count_single, old], by simp [count_single, debug], by simp [count_single, debug], by simp [of], id,
        rfl, rfl, rfl, rfl⟩
  | dev asked found =>
      refine effects_uncounted ((asks_of asked _).trans (by decide)) ((asks_of asked _).trans (by decide))
        ((asks_of asked _).trans (by decide)) rfl id (fun _ => ?_) ⟨rfl, rfl, rfl, rfl⟩
      exact Bool.and_eq_true_iff.mpr ⟨filePath_device found, rfl⟩
  | flags asked argument opens =>
      have facts := parsed (before.setFlags fun _ => flagsOf (argsOf line)) shell.of
      refine effects_uncounted ((asks_of asked _).trans (by decide)) ((asks_of asked _).trans (by decide))
        ((asks_of asked _).trans (by decide)) ?_ (fun set => ?_) (fun valid => ?_) facts.kept
      · rw [facts.bi]
        rfl
      · rw [facts.shimOf]
        exact Bool.or_eq_true_iff.mpr (.inl set)
      · rw [facts.bi]
        exact valid
  | unopened asked argument claims fails =>
      exact effects_uncounted ((asks_of asked _).trans (by decide)) ((asks_of asked _).trans (by decide))
        ((asks_of asked _).trans (by decide)) rfl id id ⟨rfl, rfl, rfl, rfl⟩

theorem count_append (typed more : Typed) (name : String) :
    (typed ++ more).count name = typed.count name + more.count name := List.countP_append ..

/-- The parity of a sum. -/
theorem decide_xor_odd (m n : Nat) : (decide (m % 2 = 1) ^^ decide (n % 2 = 1)) = decide ((m + n) % 2 = 1) := by
  rcases Nat.mod_two_eq_zero_or_one m with even | odd <;> rcases Nat.mod_two_eq_zero_or_one n with even' | odd'
  all_goals simp [Nat.add_mod, *]

theorem SessionEffects.trans {more : Typed} {middle : Globals} (first : SessionEffects typed before middle)
    (second : SessionEffects more middle after) : SessionEffects (typed ++ more) before after where
  bootPre24 := by
    rw [second.bootPre24, first.bootPre24, Bool.xor_assoc]
    congr 1
    rw [count_append, ← decide_xor_odd]
  debugBeforeBoot := by
    rw [second.debugBeforeBoot, first.debugBeforeBoot, Bool.or_assoc]
    congr 1
    rw [count_append, ← Bool.decide_or]
    exact decide_eq_decide.mpr (by omega)
  shimOf set := by
    rw [count_append] at set
    refine second.shimOf ?_
    by_cases later : 0 < more.count "!debug"
    · exact .inr later
    · exact .inl (first.shimOf (set.imp_right (by omega)))
  interpreted := by
    rw [second.interpreted, first.interpreted, List.filter_append, List.map_append, List.append_assoc]
  defaultDev valid := second.defaultDev (first.defaultDev valid)
  bi := by rw [second.bi, first.bi]
  handles := ⟨second.handles.1.trans first.handles.1, second.handles.2.1.trans first.handles.2.1,
    second.handles.2.2.trans first.handles.2.2⟩

/-- What any lines at all come to, whatever they meet. -/
theorem session_effects (typed : Typed) (globals : Globals) :
    SessionEffects typed globals (globals.afterLines typed) := by
  induction typed generalizing globals with
  | nil =>
      exact ⟨by simp [Globals.afterLines, Typed.count], by simp [Globals.afterLines, Typed.count],
        by simp [Globals.afterLines, Typed.count], by simp [Globals.afterLines], id, rfl, rfl, rfl, rfl⟩
  | cons step typed ih =>
      obtain ⟨shell, line⟩ := step
      exact (line_step globals shell line).effects.trans (ih (globals.afterLine shell line))

/-- Without the shim there is nothing for it to mend. -/
structure Settled (globals : Globals) : Prop where
  debug : globals.bi.shimOf = false → globals.bi.debugBeforeBoot = false
  bay : globals.bi.shimOf = false → globals.prom.mediabayAta = 0 ∨ globals.prom.mediabayAta = noHandle
  smpFix : globals.bi.shimOf = false → globals.prom.flags.smpFix = false
  shallowSetprop : globals.bi.shimOf = false → globals.prom.flags.shallowSetprop = false

theorem Settled.transparent (settled : Settled globals) (bare : globals.bi.shimOf = false) (initrdBase initrdLen : Nat) :
    Transparent (globals.shimSetup initrdBase initrdLen) :=
  transparent_iff.mpr ⟨settled.smpFix bare, settled.shallowSetprop bare, settled.debug bare, fun _ => settled.bay bare⟩

/-- The flags are parsed in a state in which nothing is hidden that should not be. -/
theorem Parsed.settled {of : Answers} (facts : Parsed of before after)
    (debug : before.bi.shimOf = false → before.bi.debugBeforeBoot = false)
    (bay : before.bi.shimOf = false → before.prom.mediabayAta = 0 ∨ before.prom.mediabayAta = noHandle) :
    Settled after := by
  have needless (bare : after.bi.shimOf = false) : before.bi.shimOf = false ∧ ¬after.prom.flags.needShim = true := by
    rw [facts.shimOf, Bool.or_eq_false_iff] at bare
    exact ⟨bare.1, Bool.eq_false_iff.mp bare.2⟩
  refine ⟨fun bare => ?_, fun bare => ?_, fun bare => ?_, fun bare => ?_⟩
  · rw [facts.bi]
    exact debug (needless bare).1
  · obtain ⟨bare, needless⟩ := needless bare
    rw [facts.mediabayAta]
    split
    · next empty =>
        rw [facts.needShim, not_or, not_or, not_or] at needless
        have seen : ¬after.prom.flags.hideMediabayAta = true := fun hides => needless.2.2.2 ⟨hides, empty.2⟩
        rw [facts.hideMediabayAta, not_and, not_not] at seen
        exact .inr (seen empty.1).2
    · exact bay bare
  · have needless := (needless bare).2
    rw [facts.needShim, not_or, not_or, not_or] at needless
    exact Bool.eq_false_iff.mpr needless.2.2.1
  · have needless := (needless bare).2
    rw [facts.needShim, not_or, not_or, not_or] at needless
    exact Bool.eq_false_iff.mpr needless.2.1

/-- `!prom_flags` finds the memory where it asks for it. -/
def FindsMemory (step : Shell × Str) : Prop :=
  commandOf step.2 = some (str "!prom_flags") → (flagsOf (argsOf step.2)).claimWorkAround = true →
    step.1.of.openDevice (str "/memory") ≠ noHandle

theorem LineStep.settled {shell : Shell} {line : Str} (step : LineStep shell line before after)
    (finds : FindsMemory (shell, line)) (settled : Settled before) : Settled after := by
  cases step with
  | nothing debug old of => exact settled
  | debug asked => exact ⟨nofun, nofun, nofun, nofun⟩
  | old asked => exact ⟨settled.debug, settled.bay, settled.smpFix, settled.shallowSetprop⟩
  | of asked => exact ⟨settled.debug, settled.bay, settled.smpFix, settled.shallowSetprop⟩
  | dev asked found => exact ⟨settled.debug, settled.bay, settled.smpFix, settled.shallowSetprop⟩
  | flags asked argument opens =>
      exact (parsed (before.setFlags fun _ => flagsOf (argsOf line)) shell.of).settled settled.debug settled.bay
  | unopened asked argument claims fails => exact absurd fails (finds asked claims)

theorem settled_lines (settled : Settled globals) (finds : ∀ step ∈ typed, FindsMemory step) :
    Settled (globals.afterLines typed) := by
  induction typed generalizing globals with
  | nil => exact settled
  | cons step typed ih =>
      obtain ⟨shell, line⟩ := step
      have first := (line_step globals shell line).settled (finds _ (.head _)) settled
      exact ih first fun later member => finds later (.tail _ member)

theorem promInit_settled {of : Answers} {preboot : Str} {key : Int} (run : promInit of preboot key .start = .ok ⟨⟩ after) :
    Settled after := by
  obtain ⟨-, rfl⟩ := promInit_ok run
  have settled := (parsed of.detected of).settled (fun _ => rfl) fun _ => .inl rfl
  rw [Globals.prebooted]
  split
  · exact ⟨settled.debug, settled.bay, settled.smpFix, settled.shallowSetprop⟩
  · exact settled

/-- Whatever was typed, if the shim is not asked for, the firmware itself answers a kernel as the
shim would. -/
theorem bare_entry_suffices {of : Answers} {preboot : Str} {key : Int} {initial : Globals}
    (run : promInit of preboot key .start = .ok ⟨⟩ initial) (finds : ∀ step ∈ typed, FindsMemory step)
    (bare : (initial.afterLines typed).bi.shimOf = false) (initrdBase initrdLen : Nat) :
    Transparent ((initial.afterLines typed).shimSetup initrdBase initrdLen) :=
  (settled_lines (promInit_settled run) finds).transparent bare initrdBase initrdLen

/-- A shell in which no file can be shown. -/
def shellOf (version : String) : Shell where
  of := machineOf version
  room := true
  cat := fun _ => .error .fsNotFound
  ls := fun _ => .error .fsNotFound

/-- A kernel of either age, and a firmware that names whole disks in its own way. -/
def plainLines : Typed :=
  [(shellOf "OpenFirmware 3", str "!old"), (shellOf "OpenFirmware 3", str "!prom_flags 0x20")]

theorem bare_entry_suffices_sample : ∃ initial, promInit (machineOf "OpenFirmware 3") [] (-1) .start = .ok ⟨⟩ initial ∧
    Transparent ((initial.afterLines plainLines).shimSetup 0 0) := by
  have run : ∃ initial, promInit (machineOf "OpenFirmware 3") [] (-1) .start = .ok ⟨⟩ initial ∧
      (initial.afterLines plainLines).bi.shimOf = false := ⟨_, rfl, rfl⟩
  obtain ⟨initial, run, bare⟩ := run
  refine ⟨initial, run, bare_entry_suffices run (fun step member => ?_) bare 0 0⟩
  rcases List.mem_cons.mp member with rfl | later
  · exact fun asked => absurd asked (by decide)
  · obtain rfl := List.mem_singleton.mp later
    exact fun _ _ => by decide

end Sessions

end IQuik.Loader
