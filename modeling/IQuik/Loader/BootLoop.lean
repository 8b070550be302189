import IQuik.Loader.LoadPaths
import IQuik.Program.Agreement

namespace IQuik.Loader

open IQuik.Data IQuik.Program IQuik.Program.Prog IQuik.Config

/-! # The boot loop of `iquik_main`

Attempts follow each other until one loads an image. -/

/-- What an attempt meets: the user, the heap, and whether the kernel and the
initrd at these paths can be loaded. -/
structure Attempt where
  console : Console
  room : Room
  loads : LoadPaths → Bool

/-- `try_load_loop`, as far as it concerns what is booted. An image that cannot
be loaded fails with a code that nobody looks at. -/
def tryLoadLoop (config : Parser) (attempt : Attempt) : BootProg LoadPaths := do
  let paths ← getLoadPaths config attempt.console attempt.room
  if attempt.loads paths then pure paths else Prog.fail .invalid

/-- The loop of `iquik_main`. -/
def bootLoop (config : Parser) : List Attempt → BootProg LoadPaths
  | [] => Prog.unfinished
  | attempt :: attempts => do
      let result ← Prog.attempt (tryLoadLoop config attempt)
      match result with
      | .ok paths => pure paths
      | .error _ => bootLoop config attempts

/-! ## What an attempt does to the state -/

/-- The image whose options an attempt with the label `label` uses. -/
def usedImage (config : Parser) (valid : Bool) (label : Option Str) : Option Table :=
  if valid then
    let image := match label with
      | none => some []
      | some label => (findImage label config.images).join
    image.filter fun image => ((valueFor config image "image").filter (· ≠ [])).isSome
  else none

/-- The state in which an image has been chosen. -/
def BootInfo.withKernelAge (bi : BootInfo) (config : Parser) (image : Table) : BootInfo :=
  { bi with bootPre24 := (valueFor config image "old-kernel").isSome }

/-- To change nothing is a frame. -/
theorem same : Frame fun before after : BootInfo => after = before where
  refl _ := rfl
  trans first second := second.trans first

section Effects

variable {config : Parser} {bi after : BootInfo}

theorem typedParams_state {kernel initrd : Option Str} {params : Str} {dev : EnvDev}
    (returned : (typedParams kernel initrd params dev bi).state? = some after) : after = bi := by
  cases kernel with
  | none => exact (Option.some.inj returned).symm
  | some kernel =>
      rw [typedParams] at returned
      dsimp only at returned
      split at returned <;> exact (Option.some.inj returned).symm

/-- The pause is not looked at without a buffer. -/
def BootInfo.withParams (bi : BootInfo) (config : Parser) (image : Table) (buffer : Bool) : BootInfo :=
  if buffer then bi.withPause config image else bi

theorem makeParams_state {label : Option Str} {image : Table} (refers : Refers config label image)
    {buffer : Bool} {params : Str} (returned : (makeParams config buffer label params bi).state? = some after) :
    after = bi.withParams config image buffer := by
  cases buffer with
  | false =>
      rw [makeParams, if_neg Bool.false_ne_true] at returned
      exact (Option.some.inj returned).symm
  | true =>
      rw [makeParams_granted refers] at returned
      exact Keeps.bind same (Keeps.demand same _) (fun _ => Keeps.pure same _) _ _ returned

theorem labelParams_state {label : Option Str} {image : Table} (refers : Refers config label image)
    {buffer : Bool} {path params : Str} {initrd : Option Str}
    (returned : (labelParams config buffer label path initrd params bi).state? = some after) :
    after = (bi.withKernelAge config image).withParams config image buffer := by
  rw [labelParams, labelDev_refers refers, Prog.pure_bind, cfgStrg_refers _ refers, Prog.pure_bind,
    cfgStrg_refers _ refers, Prog.pure_bind, Prog.update_bind] at returned
  change ((makeParams config buffer label params >>= _) (bi.withKernelAge config image)).state? =
    some after at returned
  obtain ⟨code, failed⟩ | ⟨text, state, made, rest⟩ := Prog.bind_state?.mp returned
  · exact makeParams_state refers (congrArg Outcome.state? failed)
  · obtain rfl := Option.some.inj rest
    exact makeParams_state refers (congrArg Outcome.state? made)

/-- What an attempt with these words does with the options. -/
theorem paramsFrom_refers {words : Option Str × Str} {image : Table} (valid : bi.configValid = true)
    (refers : Refers config words.1 image) (buffer : Bool) :
    paramsFrom config buffer words bi =
      (match (valueFor config image "image").filter (· ≠ []) with
        | none => typedParams words.1 (cfgGetStrgI config.options (str "initrd")) words.2 EnvDev.none
        | some path => do
            let named ← labelParams config buffer words.1 path (cfgGetStrgI config.options (str "initrd"))
              words.2
            if words.1.isSome then pure named
            else typedParams (some named.kernel) named.initrd named.params named.curDev) bi := by
  rw [paramsFrom, Prog.view_bind, if_pos valid, cfgStrg_refers _ (refers_none config), Prog.pure_bind,
    cfgStrg_refers _ refers, Prog.pure_bind]
  cases path : valueFor config image "image" with
  | none => rfl
  | some text =>
      by_cases empty : text = []
      · subst empty
        rfl
      · have kept : (some text).filter (fun path => decide (path ≠ [])) = some text := by simp [empty]
        rw [kept]
        dsimp only
        rw [if_neg empty]
        rfl

/-- An attempt whose words refer to `image` uses its options if it has a path. -/
theorem paramsFrom_state_refers {words : Option Str × Str} {image : Table} {buffer : Bool}
    (valid : bi.configValid = true) (refers : Refers config words.1 image)
    (returned : (paramsFrom config buffer words bi).state? = some after) :
    ((valueFor config image "image").filter (· ≠ [])).isSome = false ∧ after = bi ∨
      ((valueFor config image "image").filter (· ≠ [])).isSome = true ∧ after = (bi.withKernelAge config image).withParams config image buffer := by
  rw [paramsFrom_refers valid refers] at returned
  cases path : (valueFor config image "image").filter (· ≠ []) with
  | none =>
      rw [path] at returned
      exact .inl ⟨rfl, typedParams_state returned⟩
  | some path' =>
      rw [path] at returned
      refine .inr ⟨rfl, ?_⟩
      obtain ⟨code, failed⟩ | ⟨named, state, made, rest⟩ := Prog.bind_state?.mp returned
      · exact labelParams_state refers (congrArg Outcome.state? failed)
      · have stored := labelParams_state refers (congrArg Outcome.state? made)
        have kept : after = state := by
          split at rest
          · exact (Option.some.inj rest).symm
          · exact typedParams_state rest
        rw [kept]
        exact stored

/-- What is stored is what the options of the image used say. -/
theorem paramsFrom_state {words : Option Str × Str} {buffer : Bool}
    (returned : (paramsFrom config buffer words bi).state? = some after) :
    usedImage config bi.configValid words.1 = none ∧ after = bi ∨
      ∃ image, usedImage config bi.configValid words.1 = some image ∧ after = (bi.withKernelAge config image).withParams config image buffer := by
  cases valid : bi.configValid with
  | false =>
      rw [paramsFrom, Prog.view_bind, valid, if_neg Bool.false_ne_true] at returned
      exact .inl ⟨rfl, typedParams_state returned⟩
  | true =>
      have whenRefers : ∀ image, Refers config words.1 image →
          usedImage config true words.1 = (some image).filter (fun image =>
            ((valueFor config image "image").filter (· ≠ [])).isSome) →
          usedImage config true words.1 = none ∧ after = bi ∨
            ∃ image, usedImage config true words.1 = some image ∧ after = (bi.withKernelAge config image).withParams config image buffer := by
        intro image refers used
        rw [used]
        obtain ⟨noPath, kept⟩ | ⟨path, stored⟩ := paramsFrom_state_refers valid refers returned
        · exact .inl ⟨by simp only [Option.filter_some, noPath, Bool.false_eq_true, if_false], kept⟩
        · exact .inr ⟨image, by simp only [Option.filter_some, path, if_true], stored⟩
      obtain ⟨label, params⟩ := words
      cases label with
      | none => exact whenRefers [] (refers_none config) rfl
      | some label =>
          cases found : findImage label config.images with
          | none =>
              have missed : cfgStrg config (some label) "image" = Prog.undefined := by
                rw [cfgStrg, cfgGetStrg, found]
                rfl
              rw [paramsFrom, Prog.view_bind, if_pos valid, cfgStrg_refers _ (refers_none config),
                Prog.pure_bind, missed, Prog.undefined_bind] at returned
              cases returned
          | some image? =>
              cases image? with
              | none =>
                  have nothing : cfgStrg config (some label) "image" = pure none := by
                    rw [cfgStrg, cfgGetStrg, found]
                    rfl
                  rw [paramsFrom, Prog.view_bind, if_pos valid, cfgStrg_refers _ (refers_none config),
                    Prog.pure_bind, nothing, Prog.pure_bind] at returned
                  exact .inl ⟨by rw [usedImage, if_pos rfl, found]; rfl, typedParams_state returned⟩
              | some image =>
                  exact whenRefers image (refers_found found) (by rw [usedImage, if_pos rfl, found]; rfl)

/-- The image used is the one that the label refers to. -/
theorem usedImage_refers {valid : Bool} {label : Option Str} {image : Table}
    (used : usedImage config valid label = some image) :
    valid = true ∧ Refers config label image ∧
      ((valueFor config image "image").filter (· ≠ [])).isSome = true := by
  cases valid with
  | false => cases used
  | true =>
      obtain ⟨chosen, path⟩ := Option.filter_eq_some_iff.mp used
      refine ⟨rfl, ?_, path⟩
      cases label with
      | none =>
          obtain rfl := Option.some.inj chosen
          exact refers_none config
      | some label => exact refers_found (Option.join_eq_some_iff.mp chosen)

/-- The options of an image are used up to the end by a call that succeeds. -/
theorem paramsFrom_buffer {words : Option Str × Str} {buffer : Bool} {image : Table}
    {result : BootParams} (run : paramsFrom config buffer words bi = .ok result after)
    (used : usedImage config bi.configValid words.1 = some image) : buffer = true := by
  obtain ⟨valid, refers, path⟩ := usedImage_refers used
  obtain ⟨text, path⟩ := Option.isSome_iff_exists.mp path
  rw [paramsFrom_refers valid refers, path] at run
  obtain ⟨named, state, made, -⟩ := Prog.bind_eq_ok.mp run
  exact ((labelParams_eq_ok refers).mp made).1

end Effects

/-! ## What is booted depends on the words only -/

/-- Two calls with the same configuration and the same words, of which each may
fail on its own, return the same when they succeed. -/
abbrev SameValue {α : Type} (left right : BootProg α) : Prop :=
  Agrees True True (fun bi bi' => bi.configValid = bi'.configValid)
    (fun bi bi' => bi.configValid = bi'.configValid) (fun _ _ => True) (fun _ => True) left right

section Values

variable {config : Parser}

theorem sameValue_update {α : Type} {store : BootInfo → BootInfo} {next next' : BootProg α}
    (rest : SameValue next next') (keeps : ∀ bi, (store bi).configValid = bi.configValid) :
    SameValue (Prog.update store >>= fun _ => next) (Prog.update store >>= fun _ => next') := by
  have step : Agrees True True (fun bi bi' : BootInfo => bi.configValid = bi'.configValid)
      (fun bi bi' => bi.configValid = bi'.configValid) (fun _ _ => True) (fun _ => True)
      (Prog.update store : BootProg PUnit) (Prog.update store) :=
    Agrees.update fun bi bi' same => by rw [keeps, keeps, same]
  exact step.bind fun _ _ => rest

theorem sameValue_fail {α : Type} (code : QuikErr) :
    SameValue (Prog.fail code : BootProg α) (Prog.fail code) :=
  Agrees.fail code fun _ _ _ => trivial

theorem makeParams_sameValue (buffer buffer' : Bool) (label : Option Str) (params : Str) :
    SameValue (makeParams config buffer label params) (makeParams config buffer' label params) := by
  cases buffer with
  | false => exact fun _ _ _ => .of_short_left trivial rfl
  | true =>
      cases buffer' with
      | false => exact fun _ _ _ => .of_short_right trivial rfl
      | true =>
          rw [makeParams, if_pos rfl]
          refine Agrees.definedAny.bind fun literal _ => ?_
          cases literal with
          | some p => exact (Agrees.demand _).bind fun _ _ => Agrees.pure trivial
          | none =>
              refine Agrees.definedAny.bind fun root _ => ?_
              refine Agrees.definedAny.bind fun readOnly _ => ?_
              refine Agrees.definedAny.bind fun readWrite _ => ?_
              refine Agrees.definedAny.bind fun ramdisk _ => ?_
              refine Agrees.definedAny.bind fun append _ => ?_
              refine Agrees.definedAny.bind fun pauseAfter _ => ?_
              refine sameValue_update ?_ fun _ => rfl
              refine Agrees.definedAny.bind fun pauseMessage _ => ?_
              refine sameValue_update ?_ fun _ => rfl
              exact (Agrees.demand _).bind fun _ _ => Agrees.pure trivial

theorem labelParams_sameValue (buffer buffer' : Bool) (label : Option Str) (path : Str)
    (initrd : Option Str) (params : Str) :
    SameValue (labelParams config buffer label path initrd params)
      (labelParams config buffer' label path initrd params) := by
  have device : SameValue (labelDev config label) (labelDev config label) :=
    Agrees.definedAny.bind fun _ _ => Agrees.definedAny.bind fun _ _ => Agrees.pure trivial
  refine device.bind fun dev _ => ?_
  refine Agrees.definedAny.bind fun own _ => ?_
  refine Agrees.definedAny.bind fun oldKernel _ => ?_
  refine sameValue_update ?_ fun _ => rfl
  exact (makeParams_sameValue buffer buffer' label params).bind fun _ _ => Agrees.pure trivial

theorem typedParams_sameValue (kernel initrd : Option Str) (params : Str) (dev : EnvDev) :
    SameValue (typedParams kernel initrd params dev) (typedParams kernel initrd params dev) := by
  cases kernel with
  | none => exact sameValue_fail _
  | some kernel => exact Agrees.ite (fun _ => Agrees.pure trivial) fun _ => Agrees.pure trivial

variable (config) in
theorem paramsFrom_sameValue (buffer buffer' : Bool) (words : Option Str × Str) :
    SameValue (paramsFrom config buffer words) (paramsFrom config buffer' words) := by
  have valid : SameValue (Prog.view BootInfo.configValid) (Prog.view BootInfo.configValid) :=
    Agrees.view fun _ _ same => ⟨same, trivial⟩
  refine valid.bind fun valid _ => ?_
  refine Agrees.ite (fun _ => ?_) fun _ => typedParams_sameValue _ _ _ _
  refine Agrees.definedAny.bind fun initrd _ => ?_
  refine Agrees.definedAny.bind fun image _ => ?_
  cases image with
  | none => exact typedParams_sameValue _ _ _ _
  | some path =>
      refine Agrees.ite (fun _ => typedParams_sameValue _ _ _ _) fun _ => ?_
      refine (labelParams_sameValue buffer buffer' words.1 path initrd words.2).bind fun named _ => ?_
      exact Agrees.ite (fun _ => Agrees.pure trivial) fun _ => typedParams_sameValue _ _ _ _

end Values

theorem fsPath_steady (device : Option Str) (part : Nat) (path : Str) :
    (∃ result, fsPath device part path = pure result) ∨ ∃ code, fsPath device part path = Prog.fail code := by
  rw [fsPath]
  split
  · exact .inl ⟨_, rfl⟩
  · split
    · exact .inl ⟨_, rfl⟩
    · exact .inr ⟨_, rfl⟩

/-- A path is the same in every state. -/
theorem filePath_steady (spec : Str) (dev : EnvDev) (room : Bool) :
    (∃ result, filePath spec dev room = pure result) ∨ ∃ code, filePath spec dev room = Prog.fail code := by
  rw [filePath]
  split
  · dsimp only
    split
    · split
      · exact .inr ⟨_, rfl⟩
      · split
        · exact .inr ⟨_, rfl⟩
        · exact fsPath_steady _ _ _
    · split
      · exact fsPath_steady _ _ _
      · exact .inr ⟨_, rfl⟩
  · exact .inr ⟨_, rfl⟩

theorem filePath_room {spec : Str} {dev : EnvDev} {room : Bool} {bi after : BootInfo} {path : FsPath}
    (run : filePath spec dev room bi = .ok path after) : room = true := by
  cases room with
  | true => rfl
  | false =>
      rw [filePath, if_neg Bool.false_ne_true] at run
      cases run

theorem filePath_same {spec : Str} {dev : EnvDev} {room room' : Bool} {bi bi' after after' : BootInfo}
    {path path' : FsPath} (run : filePath spec dev room bi = .ok path after)
    (run' : filePath spec dev room' bi' = .ok path' after') : path = path' := by
  obtain rfl := filePath_room run
  obtain rfl := filePath_room run'
  obtain ⟨result, steady⟩ | ⟨code, steady⟩ := filePath_steady spec dev true
  · rw [steady] at run run'
    exact (Prog.pure_eq_ok.mp run).1.trans (Prog.pure_eq_ok.mp run').1.symm
  · rw [steady] at run
    cases run

theorem filePath_keeps (spec : Str) (dev : EnvDev) (room : Bool) :
    Keeps (fun before after : BootInfo => after = before) (filePath spec dev room) := by
  obtain ⟨result, steady⟩ | ⟨code, steady⟩ := filePath_steady spec dev room
  · rw [steady]
    exact Keeps.pure same result
  · rw [steady]
    exact Keeps.fail same code

theorem envDevUpdateFromDefault_keeps :
    Keeps (fun before after : BootInfo => after = before) envDevUpdateFromDefault :=
  Keeps.bind same (Keeps.view same _) fun _ => Keeps.ite (Keeps.pure same _) (Keeps.fail same _)

theorem pathsFrom_keeps (room : Room) (params : BootParams) :
    Keeps (fun before after : BootInfo => after = before) (pathsFrom room params) := by
  refine Keeps.bind same (Keeps.attempt envDevUpdateFromDefault_keeps) fun propagated => ?_
  refine Keeps.bind same (filePath_keeps _ _ _) fun kernel => ?_
  cases params.initrd with
  | none => exact Keeps.pure same _
  | some spec => exact Keeps.bind same (filePath_keeps _ _ _) fun initrd => Keeps.pure same _

/-- The paths of the same parameters with the same default device. -/
theorem pathsFrom_same {room room' : Room} {params : BootParams} {bi bi' after after' : BootInfo}
    {paths paths' : LoadPaths} (default : bi.defaultDev = bi'.defaultDev)
    (run : pathsFrom room params bi = .ok paths after)
    (run' : pathsFrom room' params bi' = .ok paths' after') : paths = paths' := by
  rw [pathsFrom] at run run'
  obtain ⟨result, state, updated, run⟩ := Prog.bind_eq_ok.mp run
  obtain ⟨result', state', updated', run'⟩ := Prog.bind_eq_ok.mp run'
  have device := (propagated_run params.curDev updated).1
  have device' := (propagated_run params.curDev updated').1
  rw [← default, ← device] at device'
  rw [device'] at run'
  obtain ⟨kernel, other, opened, run⟩ := Prog.bind_eq_ok.mp run
  obtain ⟨kernel', other', opened', run'⟩ := Prog.bind_eq_ok.mp run'
  obtain rfl := filePath_same opened opened'
  cases spec : params.initrd with
  | none =>
      rw [spec] at run run'
      exact (Prog.pure_eq_ok.mp run).1.trans (Prog.pure_eq_ok.mp run').1.symm
  | some spec' =>
      rw [spec] at run run'
      obtain ⟨initrd, last, found, run⟩ := Prog.bind_eq_ok.mp run
      obtain ⟨initrd', last', found', run'⟩ := Prog.bind_eq_ok.mp run'
      obtain rfl := filePath_same found found'
      exact (Prog.pure_eq_ok.mp run).1.trans (Prog.pure_eq_ok.mp run').1.symm

/-! ## Runs of the loop -/

section Attempts

variable {config : Parser} {attempt : Attempt} {bi prompted after : BootInfo} {words : Option Str × Str}

/-- What changes nothing leaves the state of the call before it. -/
theorem state?_of_keeps {α β : Type} {first : BootProg α} {next : α → BootProg β}
    (keeps : ∀ value, Keeps (fun before after : BootInfo => after = before) (next value))
    (returned : ((first >>= next) bi).state? = some after) : (first bi).state? = some after := by
  obtain ⟨code, failed⟩ | ⟨value, state, run, rest⟩ := Prog.bind_state?.mp returned
  · rw [failed]
    rfl
  · obtain rfl := keeps value state after rest
    rw [run]
    rfl

theorem tryLoadLoop_state (prompt : promptWords config attempt.console bi = .ok words prompted)
    (returned : (tryLoadLoop config attempt bi).state? = some after) :
    usedImage config bi.configValid words.1 = none ∧ after = { bi with triedAuto := true } ∨
      ∃ image, usedImage config bi.configValid words.1 = some image ∧
        after = ({ bi with triedAuto := true : BootInfo }.withKernelAge config image).withParams config image
          attempt.room.buffer := by
  obtain rfl := promptWords_state prompt
  have paths := state?_of_keeps (fun paths => Keeps.ite (Keeps.pure same _) (Keeps.fail same _)) returned
  have params := state?_of_keeps (fun params => pathsFrom_keeps attempt.room params) paths
  rw [getParams, Prog.bind_run_ok prompt] at params
  exact paramsFrom_state params

theorem paramsFrom_defaultDev {buffer : Bool}
    (returned : (paramsFrom config buffer words bi).state? = some after) : after.defaultDev = bi.defaultDev := by
  obtain ⟨-, rfl⟩ | ⟨image, -, stored⟩ := paramsFrom_state returned
  · rfl
  · rw [stored]
    cases buffer with
    | false => rfl
    | true => exact withPause_defaultDev _ _ _

/-- The two halves of an attempt that succeeds. -/
theorem tryLoadLoop_eq_ok {paths : LoadPaths}
    (prompt : promptWords config attempt.console bi = .ok words prompted)
    (boots : tryLoadLoop config attempt bi = .ok paths after) :
    ∃ params middle, paramsFrom config attempt.room.buffer words prompted = .ok params middle ∧
      pathsFrom attempt.room params middle = .ok paths after := by
  rw [tryLoadLoop, getLoadPaths, getParams] at boots
  obtain ⟨found, state, run, rest⟩ := Prog.bind_eq_ok.mp boots
  split at rest
  · obtain ⟨rfl, rfl⟩ := Prog.pure_eq_ok.mp rest
    obtain ⟨params, middle, made, opened⟩ := Prog.bind_eq_ok.mp run
    rw [Prog.bind_run_ok prompt] at made
    exact ⟨params, middle, made, opened⟩
  · cases rest

/-- Two attempts that succeed with the same words and the same default device
give the same paths. -/
theorem tryLoadLoop_same {attempt' : Attempt} {bi' prompted' after' : BootInfo} {paths paths' : LoadPaths}
    (valid : bi.configValid = bi'.configValid) (default : bi.defaultDev = bi'.defaultDev)
    (prompt : promptWords config attempt.console bi = .ok words prompted)
    (prompt' : promptWords config attempt'.console bi' = .ok words prompted')
    (boots : tryLoadLoop config attempt bi = .ok paths after)
    (boots' : tryLoadLoop config attempt' bi' = .ok paths' after') : paths = paths' := by
  obtain rfl := promptWords_state prompt
  obtain rfl := promptWords_state prompt'
  obtain ⟨params, middle, made, opened⟩ := tryLoadLoop_eq_ok prompt boots
  obtain ⟨params', middle', made', opened'⟩ := tryLoadLoop_eq_ok prompt' boots'
  have values := paramsFrom_sameValue config attempt.room.buffer attempt'.room.buffer words
    { bi with triedAuto := true } { bi' with triedAuto := true } valid
  rw [made, made'] at values
  obtain ⟨rfl, -, -⟩ := values
  have device := paramsFrom_defaultDev (congrArg Outcome.state? made)
  have device' := paramsFrom_defaultDev (congrArg Outcome.state? made')
  exact pathsFrom_same (device.trans (default.trans device'.symm)) opened opened'

end Attempts

/-- The attempts fail one after the other, without a command at any prompt, and
use the options of `images`. -/
inductive Failing (config : Parser) : BootInfo → List Attempt → List Table → BootInfo → Prop
  | nil (bi : BootInfo) : Failing config bi [] [] bi
  | cons {bi prompted middle after : BootInfo} {attempt : Attempt} {attempts : List Attempt}
      {words : Option Str × Str} {code : QuikErr} {images : List Table}
      (prompt : promptWords config attempt.console bi = .ok words prompted)
      (failed : tryLoadLoop config attempt bi = .error code middle)
      (rest : Failing config middle attempts images after) :
      Failing config bi (attempt :: attempts)
        ((usedImage config bi.configValid words.1).toList ++ images) after

/-- A run of the loop without commands, whose last attempt succeeds with the
words `words`. -/
structure BootRun (config : Parser) (start : BootInfo) (words : Option Str × Str) where
  failed : List Attempt
  images : List Table
  before : BootInfo
  last : Attempt
  prompted : BootInfo
  paths : LoadPaths
  after : BootInfo
  fails : Failing config start failed images before
  prompt : promptWords config last.console before = .ok words prompted
  boots : tryLoadLoop config last before = .ok paths after

/-- It is what the loop does with these attempts. -/
theorem Failing.loop_run {config : Parser} {start before after : BootInfo} {failed : List Attempt}
    {images : List Table} {last : Attempt} {paths : LoadPaths}
    (fails : Failing config start failed images before)
    (boots : tryLoadLoop config last before = .ok paths after) (more : List Attempt) :
    bootLoop config (failed ++ last :: more) start = .ok paths after := by
  induction fails with
  | nil bi =>
      have step : Prog.attempt (tryLoadLoop config last) bi = .ok (.ok paths) after :=
        Prog.attempt_eq_ok.mpr (.inl ⟨paths, rfl, boots⟩)
      rw [List.nil_append, bootLoop, Prog.bind_run_ok step]
      rfl
  | cons prompt failed rest ih =>
      have step := Prog.attempt_eq_ok.mpr (.inr ⟨_, rfl, failed⟩)
      rw [List.cons_append, bootLoop, Prog.bind_run_ok step]
      exact ih boots

/-- What is booted, and how. -/
def BootRun.booted {config : Parser} {start : BootInfo} {words : Option Str × Str}
    (run : BootRun config start words) : LoadPaths × Bool × Bool × Option Str :=
  (run.paths, run.after.bootPre24, run.after.pauseBeforeBoot, run.after.pauseMessage)

/-! ## Traces -/

/-- The options of the image ask for a pause, or for a message with it. -/
def Pauses (config : Parser) (image : Table) : Prop :=
  valueFor config image "literal" = none ∧ (valueFor config image "pause-after").isSome

def SaysPause (config : Parser) (image : Table) : Prop :=
  valueFor config image "literal" = none ∧ (valueFor config image "pause-message").isSome

/-- A failed attempt with the options of `image` stores nothing that is new or
that the last attempt, with the image `last`, would not store as well. -/
structure Traceless (config : Parser) (start : BootInfo) (last : Option Table) (image : Table) : Prop where
  kernelAge : last.isSome ∨ (valueFor config image "old-kernel").isSome = start.bootPre24
  pause : Pauses config image → start.pauseBeforeBoot = true ∨ ∃ used ∈ last, Pauses config used
  message : SaysPause config image → valueFor config image "pause-message" = start.pauseMessage ∨
    ∃ used ∈ last, SaysPause config used

/-- What the last attempt finds, as far as it does not store it itself. -/
structure Clean (config : Parser) (start : BootInfo) (last : Option Table) (bi : BootInfo) : Prop where
  valid : bi.configValid = start.configValid
  default : bi.defaultDev = start.defaultDev
  kernelAge : last.isSome ∨ bi.bootPre24 = start.bootPre24
  pause : bi.pauseBeforeBoot = start.pauseBeforeBoot ∨ ∃ used ∈ last, Pauses config used
  message : bi.pauseMessage = start.pauseMessage ∨ ∃ used ∈ last, SaysPause config used

/-- The state after a first attempt that succeeds with the options of `last`. -/
def BootInfo.afterLast (start : BootInfo) (config : Parser) : Option Table → BootInfo
  | none => start
  | some image => (start.withKernelAge config image).withPause config image

section Clean

variable {config : Parser} {start bi after : BootInfo} {last : Option Table}

theorem withPause_configValid (bi : BootInfo) (config : Parser) (image : Table) :
    (bi.withPause config image).configValid = bi.configValid := by
  rw [BootInfo.withPause]
  split <;> rfl

theorem withPause_bootPre24 (bi : BootInfo) (config : Parser) (image : Table) :
    (bi.withPause config image).bootPre24 = bi.bootPre24 := by
  rw [BootInfo.withPause]
  split <;> rfl

theorem withPause_pause (bi : BootInfo) (config : Parser) (image : Table) :
    (bi.withPause config image).pauseBeforeBoot = true ↔ bi.pauseBeforeBoot = true ∨ Pauses config image := by
  rw [BootInfo.withPause, Pauses]
  cases valueFor config image "literal" <;> simp

theorem withPause_message (bi : BootInfo) (config : Parser) (image : Table) :
    (bi.withPause config image).pauseMessage = bi.pauseMessage ∧ ¬SaysPause config image ∨
      (bi.withPause config image).pauseMessage = valueFor config image "pause-message" ∧
        SaysPause config image := by
  rw [BootInfo.withPause, SaysPause]
  cases valueFor config image "literal" <;> cases valueFor config image "pause-message" <;> simp

theorem withPause_pause_congr {bi' : BootInfo} {image : Table}
    (same : bi.pauseBeforeBoot = bi'.pauseBeforeBoot ∨ Pauses config image) :
    (bi.withPause config image).pauseBeforeBoot = (bi'.withPause config image).pauseBeforeBoot := by
  rw [Bool.eq_iff_iff, withPause_pause, withPause_pause]
  obtain kept | pauses := same
  · rw [kept]
  · exact iff_of_true (.inr pauses) (.inr pauses)

theorem withPause_message_congr {bi' : BootInfo} {image : Table}
    (same : bi.pauseMessage = bi'.pauseMessage ∨ SaysPause config image) :
    (bi.withPause config image).pauseMessage = (bi'.withPause config image).pauseMessage := by
  obtain ⟨kept, silent⟩ | ⟨told, asks⟩ := withPause_message bi config image
  · obtain ⟨kept', -⟩ | ⟨-, asks⟩ := withPause_message bi' config image
    · rw [kept, kept', same.resolve_right silent]
    · exact absurd asks silent
  · obtain ⟨-, silent⟩ | ⟨told', -⟩ := withPause_message bi' config image
    · exact absurd asks silent
    · rw [told, told']

/-- With the pause of an image that leaves no trace the state stays clean. -/
theorem Clean.paused {image : Table} (clean : Clean config start last bi)
    (traceless : Traceless config start last image) : Clean config start last (bi.withPause config image) where
  valid := (withPause_configValid bi config image).trans clean.valid
  default := (withPause_defaultDev bi config image).trans clean.default
  kernelAge := by
    rw [withPause_bootPre24]
    exact clean.kernelAge
  pause := by
    have known := withPause_pause bi config image
    by_cases pauses : Pauses config image
    · refine (traceless.pause pauses).imp_left fun already => ?_
      rw [already]
      exact known.mpr (.inr pauses)
    · refine clean.pause.imp_left fun kept => ?_
      rw [← kept, Bool.eq_iff_iff, known]
      simp [pauses]
  message := by
    obtain ⟨kept, -⟩ | ⟨told, asks⟩ := withPause_message bi config image
    · rw [kept]
      exact clean.message
    · rw [told]
      exact traceless.message asks

/-- A failed attempt whose options leave no trace keeps the state clean. -/
theorem Clean.stored {image : Table} (clean : Clean config start last bi)
    (traceless : Traceless config start last image)
    {buffer : Bool} (stored : after =
      ({ bi with triedAuto := true : BootInfo }.withKernelAge config image).withParams config image buffer) :
    Clean config start last after := by
  have aged : Clean config start last
      ({ bi with triedAuto := true : BootInfo }.withKernelAge config image) :=
    ⟨clean.valid, clean.default, traceless.kernelAge, clean.pause, clean.message⟩
  rw [stored]
  cases buffer with
  | false => exact aged
  | true => exact aged.paused traceless

theorem Clean.step {attempt : Attempt} {words : Option Str × Str} {prompted : BootInfo}
    (clean : Clean config start last bi)
    (traceless : ∀ image ∈ usedImage config bi.configValid words.1, Traceless config start last image)
    (prompt : promptWords config attempt.console bi = .ok words prompted)
    (returned : (tryLoadLoop config attempt bi).state? = some after) : Clean config start last after := by
  obtain ⟨-, rfl⟩ | ⟨image, used, stored⟩ := tryLoadLoop_state prompt returned
  · exact ⟨clean.valid, clean.default, clean.kernelAge, clean.pause, clean.message⟩
  · exact clean.stored (traceless image used) stored

/-- So the last attempt finds a clean state. -/
theorem Clean.run {failed : List Attempt} {images : List Table}
    (clean : Clean config start last bi) (traceless : ∀ image ∈ images, Traceless config start last image)
    (fails : Failing config bi failed images after) : Clean config start last after := by
  induction fails with
  | nil bi => exact clean
  | cons prompt failed rest ih =>
      refine ih (clean.step (fun image used => ?_) prompt (congrArg Outcome.state? failed)) fun image later => ?_
      · exact traceless image (List.mem_append_left _ (Option.mem_toList.mpr used))
      · exact traceless image (List.mem_append_right _ later)

/-- The flags and the message after the last attempt are those it would have
left as the first one. -/
theorem Clean.final {attempt : Attempt} {words : Option Str × Str} {before prompted : BootInfo}
    {paths : LoadPaths} (used : usedImage config start.configValid words.1 = last)
    (clean : Clean config start last before)
    (prompt : promptWords config attempt.console before = .ok words prompted)
    (boots : tryLoadLoop config attempt before = .ok paths after) :
    after.bootPre24 = (start.afterLast config last).bootPre24 ∧
      after.pauseBeforeBoot = (start.afterLast config last).pauseBeforeBoot ∧
      after.pauseMessage = (start.afterLast config last).pauseMessage := by
  rw [← clean.valid] at used
  obtain ⟨params, middle, made, -⟩ := tryLoadLoop_eq_ok prompt boots
  obtain rfl := promptWords_state prompt
  obtain ⟨unused, rfl⟩ | ⟨image, chosen, stored⟩ := tryLoadLoop_state prompt (congrArg Outcome.state? boots)
  · obtain rfl : last = none := used.symm.trans unused
    refine ⟨(clean.kernelAge.resolve_left Bool.false_ne_true :), ?_, ?_⟩
    · exact clean.pause.resolve_right fun ⟨_, member, _⟩ => by cases member
    · exact clean.message.resolve_right fun ⟨_, member, _⟩ => by cases member
  · obtain rfl : last = some image := used.symm.trans chosen
    rw [paramsFrom_buffer made chosen] at stored
    rw [stored]
    refine ⟨?_, ?_, ?_⟩
    · exact (withPause_bootPre24 _ config image).trans
        (withPause_bootPre24 (start.withKernelAge config image) config image).symm
    · refine withPause_pause_congr (clean.pause.imp_right ?_)
      rintro ⟨other, member, pauses⟩
      exact Option.some.inj member ▸ pauses
    · refine withPause_message_congr (clean.message.imp_right ?_)
      rintro ⟨other, member, told⟩
      exact Option.some.inj member ▸ told

end Clean

/-! ## Two runs -/

/-- Two states before the loop, of which only the first prompt may differ. -/
structure SameStart (start start' : BootInfo) : Prop where
  valid : start.configValid = start'.configValid
  default : start.defaultDev = start'.defaultDev
  kernelAge : start.bootPre24 = start'.bootPre24
  pause : start.pauseBeforeBoot = start'.pauseBeforeBoot
  message : start.pauseMessage = start'.pauseMessage

section TwoRuns

variable {config : Parser} {start start' : BootInfo} {words : Option Str × Str}

theorem BootRun.clean (run : BootRun config start words)
    (traceless : ∀ image ∈ run.images,
      Traceless config start (usedImage config start.configValid words.1) image) :
    Clean config start (usedImage config start.configValid words.1) run.before :=
  Clean.run ⟨rfl, rfl, .inr rfl, .inl rfl, .inl rfl⟩ traceless run.fails

variable (config) in
theorem SameStart.afterLast (same : SameStart start start') (last : Option Table) :
    (start.afterLast config last).bootPre24 = (start'.afterLast config last).bootPre24 ∧
      (start.afterLast config last).pauseBeforeBoot = (start'.afterLast config last).pauseBeforeBoot ∧
      (start.afterLast config last).pauseMessage = (start'.afterLast config last).pauseMessage := by
  cases last with
  | none => exact ⟨same.kernelAge, same.pause, same.message⟩
  | some image =>
      refine ⟨?_, withPause_pause_congr (.inl same.pause), withPause_message_congr (.inl same.message)⟩
      exact (withPause_bootPre24 (start.withKernelAge config image) config image).trans
        (withPause_bootPre24 (start'.withKernelAge config image) config image).symm

/-- Two runs in which no failed attempt leaves a trace boot the same with the
same words. -/
theorem booted_same (same : SameStart start start') (run : BootRun config start words)
    (run' : BootRun config start' words)
    (traceless : ∀ image ∈ run.images,
      Traceless config start (usedImage config start.configValid words.1) image)
    (traceless' : ∀ image ∈ run'.images,
      Traceless config start' (usedImage config start'.configValid words.1) image) :
    run.booted = run'.booted := by
  have clean := run.clean traceless
  have clean' := run'.clean traceless'
  have paths : run.paths = run'.paths :=
    tryLoadLoop_same (clean.valid.trans (same.valid.trans clean'.valid.symm))
      (clean.default.trans (same.default.trans clean'.default.symm)) run.prompt run'.prompt run.boots
      run'.boots
  obtain ⟨kernelAge, pause, message⟩ := clean.final rfl run.prompt run.boots
  obtain ⟨kernelAge', pause', message'⟩ := clean'.final rfl run'.prompt run'.boots
  obtain ⟨sameAge, samePause, sameMessage⟩ :=
    same.afterLast config (usedImage config start.configValid words.1)
  rw [← same.valid] at kernelAge' pause' message'
  simp only [BootRun.booted, Prod.mk.injEq]
  exact ⟨paths, kernelAge.trans (sameAge.trans kernelAge'.symm), pause.trans (samePause.trans pause'.symm),
    message.trans (sameMessage.trans message'.symm)⟩

end TwoRuns

/-! ## An attempt with a pause, and one without -/

/-- The image `rescue` asks for a pause, the image `Linux` does not. -/
def pauseConfig : Parser :=
  { Parser.fresh with
    images :=
      [cfImage.map fun entry =>
        if entry.name = str "image" then entry.set (some (str "/rescue"))
        else if entry.name = str "pause-after" then entry.set none
        else entry,
       cfImage.map fun entry =>
        if entry.name = str "image" then entry.set (some (str "/Linux")) else entry] }

/-- The loop begins. -/
def loopStart : BootInfo := { defaultKnown with triedAuto := false, bootargs := some [] }

/-- The user asks for `label`, which can be loaded or not. -/
def asks (label : String) (loads : Bool) : Attempt where
  console := typing (str label)
  room := roomy
  loads := fun _ => loads

def rescuePaths : LoadPaths where
  kernel := { device := some (str "ata0/ata-disk@0"), part := 3, path := str "/rescue" }
  initrd := none
  params := []

/-- The state after the attempt with a pause. -/
def paused : BootInfo := { defaultKnown with bootargs := some [], pauseBeforeBoot := true }

theorem rescue_prompt : promptWords pauseConfig (asks "rescue" false).console loopStart =
    .ok (some (str "rescue"), []) { loopStart with triedAuto := true } := by
  have run : (promptWords pauseConfig (asks "rescue" false).console loopStart).result? =
      some ((some (str "rescue"), []), { loopStart with triedAuto := true }) := by decide +kernel
  exact Outcome.result?_eq_some.mp run

theorem rescue_fails : tryLoadLoop pauseConfig (asks "rescue" false) loopStart = .error .invalid paused := by
  have run : (getLoadPaths pauseConfig (asks "rescue" false).console roomy loopStart).result? =
      some (rescuePaths, paused) := by decide +kernel
  rw [tryLoadLoop]
  exact Prog.bind_run_ok (Outcome.result?_eq_some.mp run)

/-- Only `Linux` is asked for. -/
def plainRun : BootRun pauseConfig loopStart (some (str "Linux"), []) where
  failed := []
  images := []
  before := loopStart
  last := asks "Linux" true
  prompted := { loopStart with triedAuto := true }
  paths := linuxPaths
  after := { loopStart with triedAuto := true }
  fails := .nil _
  prompt := by
    have run : (promptWords pauseConfig (asks "Linux" true).console loopStart).result? =
        some ((some (str "Linux"), []), { loopStart with triedAuto := true }) := by decide +kernel
    exact Outcome.result?_eq_some.mp run
  boots := by
    have run : (tryLoadLoop pauseConfig (asks "Linux" true) loopStart).result? =
        some (linuxPaths, { loopStart with triedAuto := true }) := by decide +kernel
    exact Outcome.result?_eq_some.mp run

/-- `rescue` is asked for first, in vain. -/
def rescueRun : BootRun pauseConfig loopStart (some (str "Linux"), []) where
  failed := [asks "rescue" false]
  images := (usedImage pauseConfig loopStart.configValid (some (str "rescue"))).toList ++ []
  before := paused
  last := asks "Linux" true
  prompted := paused
  paths := linuxPaths
  after := paused
  fails := .cons rescue_prompt rescue_fails (.nil _)
  prompt := by
    have run : (promptWords pauseConfig (asks "Linux" true).console paused).result? =
        some ((some (str "Linux"), []), paused) := by decide +kernel
    exact Outcome.result?_eq_some.mp run
  boots := by
    have run : (tryLoadLoop pauseConfig (asks "Linux" true) paused).result? =
        some (linuxPaths, paused) := by decide +kernel
    exact Outcome.result?_eq_some.mp run

/-- `Linux` is asked for twice. -/
def retryRun : BootRun pauseConfig loopStart (some (str "Linux"), []) :=
  { plainRun with
    failed := [asks "Linux" false]
    images := (usedImage pauseConfig loopStart.configValid (some (str "Linux"))).toList ++ []
    before := { loopStart with triedAuto := true }
    fails := by
      have prompt : promptWords pauseConfig (asks "Linux" false).console loopStart =
          .ok (some (str "Linux"), []) { loopStart with triedAuto := true } := plainRun.prompt
      have run : (getLoadPaths pauseConfig (asks "Linux" false).console roomy loopStart).result? =
          some (linuxPaths, { loopStart with triedAuto := true }) := by decide +kernel
      have failed : tryLoadLoop pauseConfig (asks "Linux" false) loopStart =
          .error .invalid { loopStart with triedAuto := true } := by
        rw [tryLoadLoop]
        exact Prog.bind_run_ok (Outcome.result?_eq_some.mp run)
      exact .cons prompt failed (.nil _)
    prompt := by
      have run : (promptWords pauseConfig (asks "Linux" true).console
          { loopStart with triedAuto := true }).result? =
          some ((some (str "Linux"), []), { loopStart with triedAuto := true }) := by decide +kernel
      exact Outcome.result?_eq_some.mp run
    boots := by
      have run : (tryLoadLoop pauseConfig (asks "Linux" true) { loopStart with triedAuto := true }).result? =
          some (linuxPaths, { loopStart with triedAuto := true }) := by decide +kernel
      exact Outcome.result?_eq_some.mp run }

theorem retry_traceless : ∀ image ∈ retryRun.images,
    Traceless pauseConfig loopStart (usedImage pauseConfig loopStart.configValid (some (str "Linux"))) image := by
  have quiet : ∀ image ∈ retryRun.images, (valueFor pauseConfig image "pause-after").isSome = false ∧
      (valueFor pauseConfig image "pause-message").isSome = false := by decide +kernel
  intro image member
  obtain ⟨noPause, noMessage⟩ := quiet image member
  refine ⟨.inl (by decide +kernel), fun ⟨_, pauses⟩ => ?_, fun ⟨_, told⟩ => ?_⟩
  · rw [noPause] at pauses
    cases pauses
  · rw [noMessage] at told
    cases told

theorem booted_same_retry : retryRun.booted = plainRun.booted :=
  booted_same ⟨rfl, rfl, rfl, rfl, rfl⟩ retryRun plainRun retry_traceless fun _ member => nomatch member

/-- With the failed attempt before it `Linux` is booted with a pause. -/
theorem pause_stays : ¬rescueRun.booted = plainRun.booted := by
  decide +kernel

end IQuik.Loader
