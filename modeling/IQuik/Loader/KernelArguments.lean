import IQuik.Config.Sections
import IQuik.Data.Buffers
import IQuik.Loader.Parameters

namespace IQuik.Loader

open IQuik.Data IQuik.Program IQuik.Config

/-! # The buffer of the kernel arguments: `make_params` -/

/-- The size that is asked of `malloc`. -/
def paramsSize : Nat := 2048

/-- The static buffer, whether it is there, and what the options change besides. -/
structure Arguments where
  buffer : Cells
  held : Bool
  bi : BootInfo

abbrev ArgProg := Prog QuikErr Arguments

/-- `strcpy (q, s)`, where `q` is an index of the buffer. -/
def copyTo (q : Nat) (s : Str) : ArgProg Unit := do
  Prog.demand (q + s.length < paramsSize)
  Prog.update fun args => { args with buffer := args.buffer.store q (s ++ [0]) }

/-- `*q = c`. -/
def putByte (q : Nat) (c : UInt8) : ArgProg Unit := do
  Prog.demand (q < paramsSize)
  Prog.update fun args => { args with buffer := args.buffer.store q [c] }

/-- `strchr (q, 0)`. -/
def stringEnd (q : Nat) : ArgProg Nat := do
  let s ← Prog.view fun args => args.buffer.string (paramsSize - q) q
  let s ← Prog.defined s
  pure (q + s.length)

/-- `q = strchr (q, 0); *q++ = ' '`. -/
def endWord (q : Nat) : ArgProg Nat := do
  let q ← stringEnd q
  putByte q 32
  pure (q + 1)

section Options

variable (config : Parser) (label : Option Str)

def argStrg (item : String) : ArgProg (Option Str) := Prog.defined (cfgGetStrg config label (str item))

def argFlag (item : String) : ArgProg Bool := Prog.defined (cfgGetFlag config label (str item))

/-- An option that is written with `name` in front of its value. -/
def putStrg (item name : String) (q : Nat) : ArgProg Nat := do
  let p ← argStrg config label item
  match p with
  | some p => do
      copyTo q (str name)
      copyTo (q + (str name).length) p
      endWord q
  | none => pure q

/-- An option that stands for three characters. -/
def putFlag (item text : String) (q : Nat) : ArgProg Nat := do
  let set ← argFlag config label item
  if set then do
    copyTo q (str text)
    pure (q + 3)
  else pure q

/-- The value of `append` goes to the buffer as it is. -/
def putAppend (q : Nat) : ArgProg Nat := do
  let p ← argStrg config label "append"
  match p with
  | some p => do
      copyTo q p
      endWord q
  | none => pure q

def fillLiteral (p params : Str) : ArgProg Unit := do
  copyTo 0 p
  let q ← stringEnd 0
  if params ≠ [] then
    if p ≠ [] then do
      putByte q 32
      copyTo (q + 1) params
    else copyTo q params
  else pure ()

def fillOptions (params : Str) : ArgProg Unit := do
  let q ← putStrg config label "root" "root=" 0
  let q ← putFlag config label "read-only" "ro " q
  let q ← putFlag config label "read-write" "rw " q
  let q ← putStrg config label "ramdisk" "ramdisk=" q
  let q ← putAppend config label q
  putByte q 0
  let pauseAfter ← argFlag config label "pause-after"
  Prog.update fun args => { args with bi := { args.bi with pauseBeforeBoot := args.bi.pauseBeforeBoot || pauseAfter } }
  let pauseMessage ← argStrg config label "pause-message"
  Prog.update fun args => { args with bi := { args.bi with pauseMessage := pauseMessage.or args.bi.pauseMessage } }
  if params ≠ [] then copyTo q params else pure ()

/-- `make_params` once its buffer is there. -/
def fillParams (params : Str) : ArgProg Unit := do
  putByte 0 0
  let p ← argStrg config label "literal"
  match p with
  | some p => fillLiteral p params
  | none => fillOptions config label params

/-- `make_params`, where `block` has what `malloc` returns; the result tells whether the
buffer is returned, and not a null pointer. -/
def makeParamsIn (block : Option Cells) (params : Str) : ArgProg Bool := do
  let held ← Prog.view Arguments.held
  if held then do
    fillParams config label params
    pure true
  else
    match block with
    | some cells => do
        Prog.update fun args => { args with buffer := cells, held := true }
        fillParams config label params
        pure true
    | none => pure false

/-! ## What the kernel is told -/

/-- The value of an option, as it is looked up with the label. -/
def optionOf (item : String) : Option Str := (cfgGetStrg config label (str item)).join

/-- The options that are there, in order. -/
def optionsFor : Str :=
  withValue "root=" (optionOf config label "root") ++
    (if (optionOf config label "read-only").isSome then str "ro " else []) ++
    (if (optionOf config label "read-write").isSome then str "rw " else []) ++
    withValue "ramdisk=" (optionOf config label "ramdisk") ++
    withValue "" (optionOf config label "append")

def argumentsText (params : Str) : Str :=
  match optionOf config label "literal" with
  | some literal => if params = [] then literal else if literal = [] then params else literal ++ [32] ++ params
  | none => optionsFor config label ++ params

end Options

/-- The buffer is returned with exactly that text, whatever it held before, and nothing is
stored behind it. -/
def ArgumentsExact (config : Parser) (label : Option Str) (block : Option Cells) (params : Str) (args : Arguments) :
    Prop :=
  ∃ cells after, (if args.held then some args.buffer else block) = some cells ∧
    makeParamsIn config label block params args = .ok true after ∧
    after.buffer.string paramsSize 0 = some (argumentsText config label params) ∧
    ∀ i, paramsSize ≤ i → after.buffer i = cells i

/-! ## Stores -/

/-- The text that was built so far; besides, only the buffer has changed, and not behind its end. -/
structure Arguments.Built (start args : Arguments) (text : Str) : Prop where
  holds : args.buffer.Holds 0 text
  outside : ∀ i, paramsSize ≤ i → args.buffer i = start.buffer i
  same : args = { start with buffer := args.buffer }

section Stores

variable {start args : Arguments} {text s : Str} {config : Parser} {label : Option Str}

theorem Arguments.Built.store (built : start.Built args text) (fits : text.length + s.length ≤ paramsSize) :
    start.Built { args with buffer := args.buffer.store text.length s } (text ++ s) := by
  refine ⟨?_, fun i behind => ?_, by rw [built.same]⟩
  · have extended := built.holds.extend s
    rwa [Nat.zero_add] at extended
  · simp only
    rw [Cells.store_outside (.inr (by omega))]
    exact built.outside i behind

theorem Arguments.Built.front (built : start.Built args (text ++ s)) : start.Built args text :=
  ⟨built.holds.front, built.outside, built.same⟩

theorem copyTo_run (built : start.Built args text) (fits : text.length + s.length < paramsSize) :
    ∃ after, copyTo text.length s args = .ok () after ∧ start.Built after (text ++ (s ++ [0])) := by
  rw [copyTo, Prog.demand_pos fits]
  refine ⟨_, rfl, built.store ?_⟩
  rw [List.length_append, List.length_singleton]
  exact fits

theorem putByte_run (built : start.Built args text) (c : UInt8) (fits : text.length < paramsSize) :
    ∃ after, putByte text.length c args = .ok () after ∧ start.Built after (text ++ [c]) := by
  rw [putByte, Prog.demand_pos fits]
  exact ⟨_, rfl, built.store fits⟩

theorem stringEnd_run (built : start.Built args (text ++ (s ++ [0]))) (noNul : ∀ c ∈ s, c ≠ 0)
    (fits : text.length + s.length < paramsSize) :
    stringEnd text.length args = .ok (text ++ s).length args := by
  have behind := built.holds.back
  rw [Nat.zero_add] at behind
  rw [stringEnd, Prog.view_bind, behind.string_whole noNul (by omega), List.length_append]
  rfl

/-- The word that was copied gets a space behind it. -/
theorem endWord_run (built : start.Built args (text ++ (s ++ [0]))) (noNul : ∀ c ∈ s, c ≠ 0)
    (fits : text.length + s.length < paramsSize) :
    ∃ after, endWord text.length args = .ok (text ++ (s ++ [32])).length after ∧
      start.Built after (text ++ (s ++ [32])) := by
  have front : start.Built args (text ++ s) := by
    rw [← List.append_assoc] at built
    exact built.front
  obtain ⟨after, run, final⟩ := putByte_run front 32 (by rwa [List.length_append])
  rw [List.append_assoc] at final
  have length : (text ++ s ++ [32]).length = (text ++ s).length + 1 := List.length_append
  refine ⟨after, ?_, final⟩
  rw [endWord, Prog.bind_run_ok (stringEnd_run built noNul fits), Prog.bind_run_ok run, ← List.append_assoc, length]
  rfl

/-! ## Options -/

/-- The lookups with the label are defined. -/
def Known (config : Parser) (label : Option Str) : Prop := ∀ item, cfgGetStrg config label item ≠ none

/-- The options that are looked up are strings that fit. -/
def OptionsValued (config : Parser) (label : Option Str) : Prop :=
  ∀ item, ∀ value ∈ optionOf config label item, Valued value

theorem Known.optionOf (known : Known config label) (item : String) :
    cfgGetStrg config label (str item) = some (optionOf config label item) := by
  obtain ⟨value, found⟩ := Option.ne_none_iff_exists'.mp (known (str item))
  rw [Loader.optionOf, found]
  rfl

theorem argStrg_known (known : Known config label) (item : String) :
    argStrg config label item = pure (optionOf config label item) := by
  rw [argStrg, known.optionOf]
  rfl

theorem argFlag_known (known : Known config label) (item : String) :
    argFlag config label item = pure (optionOf config label item).isSome := by
  rw [argFlag, cfgGetFlag, known.optionOf]
  rfl

theorem putAppend_run (known : Known config label) (valued : OptionsValued config label)
    (built : start.Built args text)
    (fits : (text ++ withValue "" (optionOf config label "append")).length < paramsSize) :
    ∃ after, putAppend config label text.length args =
        .ok (text ++ withValue "" (optionOf config label "append")).length after ∧
      start.Built after (text ++ withValue "" (optionOf config label "append")) := by
  rw [putAppend, argStrg_known known, Prog.pure_bind]
  cases value : optionOf config label "append" with
  | none =>
      rw [withValue, List.append_nil]
      exact ⟨args, rfl, built⟩
  | some p =>
      have same : withValue "" (some p) = p ++ [32] := rfl
      rw [value, same, List.length_append, List.length_append, List.length_singleton] at fits
      obtain ⟨middle, copies, goes⟩ := copyTo_run built (show text.length + p.length < paramsSize by omega)
      obtain ⟨after, ends, final⟩ := endWord_run goes (valued "append" p value).noNul (by omega)
      refine ⟨after, ?_, final⟩
      simp only [Prog.bind_run_ok copies]
      exact ends

theorem putStrg_run {name : String} (item : String) (known : Known config label)
    (valued : OptionsValued config label) (plain : ∀ c ∈ str name, c ≠ 0) (built : start.Built args text)
    (fits : (text ++ withValue name (optionOf config label item)).length < paramsSize) :
    ∃ after, putStrg config label item name text.length args =
        .ok (text ++ withValue name (optionOf config label item)).length after ∧
      start.Built after (text ++ withValue name (optionOf config label item)) := by
  rw [putStrg, argStrg_known known, Prog.pure_bind]
  cases value : optionOf config label item with
  | none =>
      rw [withValue, List.append_nil]
      exact ⟨args, rfl, built⟩
  | some p =>
      have noNul : ∀ c ∈ str name ++ p, c ≠ 0 :=
        List.forall_mem_append.mpr ⟨plain, (valued item p value).noNul⟩
      rw [value, withValue, List.length_append, List.length_append, List.length_append, List.length_singleton] at fits
      obtain ⟨first, names, named⟩ := copyTo_run built (show text.length + (str name).length < paramsSize by omega)
      rw [← List.append_assoc] at named
      obtain ⟨second, copies, goes⟩ := copyTo_run named.front
        (show (text ++ str name).length + p.length < paramsSize by rw [List.length_append]; omega)
      rw [List.append_assoc, ← List.append_assoc (str name)] at goes
      obtain ⟨after, ends, final⟩ := endWord_run goes noNul (by rw [List.length_append]; omega)
      refine ⟨after, ?_, final⟩
      rw [List.length_append] at copies
      simp only [Prog.bind_run_ok names, Prog.bind_run_ok copies]
      exact ends

theorem putFlag_run {letters : String} (item : String) (known : Known config label) (three : (str letters).length = 3)
    (built : start.Built args text)
    (fits : (text ++ if (optionOf config label item).isSome then str letters else []).length < paramsSize) :
    ∃ after, putFlag config label item letters text.length args =
        .ok (text ++ if (optionOf config label item).isSome then str letters else []).length after ∧
      start.Built after (text ++ if (optionOf config label item).isSome then str letters else []) := by
  rw [putFlag, argFlag_known known, Prog.pure_bind]
  by_cases set : (optionOf config label item).isSome = true
  · rw [if_pos set, List.length_append] at fits
    obtain ⟨after, copies, goes⟩ := copyTo_run built fits
    rw [← List.append_assoc] at goes
    rw [if_pos set, if_pos set]
    refine ⟨after, ?_, goes.front⟩
    rw [Prog.bind_run_ok copies, List.length_append, three]
    rfl
  · rw [if_neg set, if_neg set, List.append_nil]
    exact ⟨args, rfl, built⟩

/-! ## The whole text -/

theorem Arguments.Built.withBi (built : start.Built args text) (bi : BootInfo) :
    Arguments.Built { start with bi := bi } { args with bi := bi } text :=
  ⟨built.holds, built.outside, by rw [built.same]⟩

/-- The pause that the options ask for. -/
def BootInfo.pausedBy (bi : BootInfo) (config : Parser) (label : Option Str) : BootInfo :=
  { bi with
    pauseBeforeBoot := bi.pauseBeforeBoot || (optionOf config label "pause-after").isSome
    pauseMessage := (optionOf config label "pause-message").or bi.pauseMessage }

variable {params : Str}

theorem fillLiteral_run {p : Str} (noNul : ∀ c ∈ p, c ≠ 0) (built : start.Built args [])
    (fits : p.length + 1 + params.length < paramsSize) :
    ∃ after, fillLiteral p params args = .ok () after ∧ start.Built after
      ((if params = [] then p else if p = [] then params else p ++ [32] ++ params) ++ [0]) := by
  obtain ⟨middle, copies, goes⟩ := copyTo_run built (show ([] : Str).length + p.length < paramsSize by
    rw [List.length_nil]
    omega)
  have ends := stringEnd_run goes noNul (by rw [List.length_nil]; omega)
  rw [List.nil_append] at goes ends
  rw [List.length_nil] at copies ends
  rw [fillLiteral, Prog.bind_run_ok copies, Prog.bind_run_ok ends]
  by_cases empty : params = []
  · rw [if_pos empty, if_neg (not_not_intro empty)]
    exact ⟨middle, rfl, goes⟩
  · rw [if_neg empty, if_pos empty]
    by_cases nothing : p = []
    · obtain ⟨after, follows, final⟩ := copyTo_run goes.front (show p.length + params.length < paramsSize by omega)
      rw [if_pos nothing, if_neg (not_not_intro nothing)]
      refine ⟨after, follows, ?_⟩
      rwa [nothing, List.nil_append] at final
    · obtain ⟨spaced, space, ready⟩ := putByte_run goes.front 32 (show p.length < paramsSize by omega)
      obtain ⟨after, follows, final⟩ := copyTo_run ready
        (show (p ++ [32]).length + params.length < paramsSize by rwa [List.length_append])
      rw [← List.append_assoc] at final
      rw [if_neg nothing, if_pos nothing, Prog.bind_run_ok space]
      rw [List.length_append] at follows
      exact ⟨after, follows, final⟩

theorem length_front {s t : Str} (fits : (s ++ t).length < paramsSize) : s.length < paramsSize := by
  rw [List.length_append] at fits
  omega

theorem noNul_root : ∀ c ∈ str "root=", c ≠ 0 := (show Valued (str "root=") by decide).noNul

theorem noNul_ramdisk : ∀ c ∈ str "ramdisk=", c ≠ 0 := (show Valued (str "ramdisk=") by decide).noNul

theorem fillOptions_run (known : Known config label) (valued : OptionsValued config label)
    (built : start.Built args []) (fits : (optionsFor config label ++ params).length < paramsSize) :
    ∃ after, fillOptions config label params args = .ok () after ∧
      Arguments.Built { start with bi := start.bi.pausedBy config label } after
        (optionsFor config label ++ params ++ [0]) := by
  have room : (optionsFor config label).length < paramsSize := length_front fits
  -- each option needs the room of those in front of it
  have ramdisk := length_front room
  have readWrite := length_front ramdisk
  have readOnly := length_front readWrite
  obtain ⟨one, root, rooted⟩ := putStrg_run "root" known valued noNul_root built (length_front readOnly)
  obtain ⟨two, ro, read⟩ := putFlag_run "read-only" known rfl rooted readOnly
  obtain ⟨three, rw', written⟩ := putFlag_run "read-write" known rfl read readWrite
  obtain ⟨four, disk, loaded⟩ := putStrg_run "ramdisk" known valued noNul_ramdisk written ramdisk
  obtain ⟨five, append, appended⟩ := putAppend_run known valued loaded room
  obtain ⟨six, put, ended⟩ := putByte_run appended 0 room
  rw [List.length_nil] at root
  have text : [] ++ withValue "root=" (optionOf config label "root") ++
      (if (optionOf config label "read-only").isSome then str "ro " else []) ++
      (if (optionOf config label "read-write").isSome then str "rw " else []) ++
      withValue "ramdisk=" (optionOf config label "ramdisk") ++
      withValue "" (optionOf config label "append") = optionsFor config label := rfl
  rw [text] at ended append put
  have bi : six.bi = start.bi := by rw [ended.same]
  have final := ended.withBi (start.bi.pausedBy config label)
  rw [fillOptions, Prog.bind_run_ok root, Prog.bind_run_ok ro, Prog.bind_run_ok rw', Prog.bind_run_ok disk,
    Prog.bind_run_ok append, Prog.bind_run_ok put, argFlag_known known, Prog.pure_bind, Prog.update_bind,
    argStrg_known known, Prog.pure_bind, Prog.update_bind]
  simp only [bi]
  by_cases empty : params = []
  · rw [if_neg (not_not_intro empty), empty, List.append_nil]
    exact ⟨_, rfl, final⟩
  · obtain ⟨after, follows, done⟩ := copyTo_run final.front (show (optionsFor config label).length + params.length <
      paramsSize by rwa [← List.length_append])
    rw [if_pos empty]
    rw [← List.append_assoc] at done
    exact ⟨after, follows, done⟩

theorem withValue_length (name : String) {value : Option Str} (valued : ∀ text ∈ value, Valued text) :
    (withValue name value).length ≤ (str name).length + maxToken := by
  cases value with
  | none => exact Nat.zero_le _
  | some text =>
      have short := (valued text rfl).short
      rw [withValue, List.length_append, List.length_append, List.length_singleton]
      omega

theorem optionsFor_length (valued : OptionsValued config label) : (optionsFor config label).length ≤ 619 := by
  have root := withValue_length "root=" (valued "root")
  have ramdisk := withValue_length "ramdisk=" (valued "ramdisk")
  have append := withValue_length "" (valued "append")
  have flag (set : Bool) (text : String) (three : (str text).length = 3) :
      (if set then str text else []).length ≤ 3 := by
    cases set
    · exact Nat.zero_le _
    · exact Nat.le_of_eq three
  have readOnly := flag (optionOf config label "read-only").isSome "ro " rfl
  have readWrite := flag (optionOf config label "read-write").isSome "rw " rfl
  have names : (str "root=").length = 5 ∧ (str "ramdisk=").length = 8 ∧ (str "").length = 0 := ⟨rfl, rfl, rfl⟩
  have most : maxToken = 200 := rfl
  simp only [optionsFor, List.length_append]
  omega

theorem noNul_withValue {name : String} {value : Option Str} (plain : ∀ c ∈ str name, c ≠ 0)
    (valued : ∀ text ∈ value, Valued text) : ∀ c ∈ withValue name value, c ≠ 0 := by
  cases value with
  | none => exact noNul_nil
  | some text =>
      exact List.forall_mem_append.mpr ⟨List.forall_mem_append.mpr ⟨plain, (valued text rfl).noNul⟩,
        List.forall_mem_singleton.mpr (by decide)⟩

theorem noNul_optionsFor (valued : OptionsValued config label) : ∀ c ∈ optionsFor config label, c ≠ 0 := by
  have flag (set : Bool) {text : Str} (plain : ∀ c ∈ text, c ≠ 0) : ∀ c ∈ if set then text else [], c ≠ 0 := by
    cases set
    · exact noNul_nil
    · exact plain
  have readOnly := flag (optionOf config label "read-only").isSome (show Valued (str "ro ") by decide).noNul
  have readWrite := flag (optionOf config label "read-write").isSome (show Valued (str "rw ") by decide).noNul
  rw [optionsFor, List.forall_mem_append, List.forall_mem_append, List.forall_mem_append, List.forall_mem_append]
  exact ⟨⟨⟨⟨noNul_withValue noNul_root (valued "root"), readOnly⟩, readWrite⟩,
    noNul_withValue noNul_ramdisk (valued "ramdisk")⟩, noNul_withValue noNul_nil (valued "append")⟩

theorem noNul_argumentsText (valued : OptionsValued config label) (noNul : ∀ c ∈ params, c ≠ 0) :
    ∀ c ∈ argumentsText config label params, c ≠ 0 := by
  rw [argumentsText]
  cases literal : optionOf config label "literal" with
  | none => exact List.forall_mem_append.mpr ⟨noNul_optionsFor valued, noNul⟩
  | some p =>
      have plain := (valued "literal" p literal).noNul
      simp only
      split
      · exact plain
      · split
        · exact noNul
        · exact List.forall_mem_append.mpr ⟨noNul_snoc plain (by decide), noNul⟩

/-- The pause is not looked at with `literal`. -/
def BootInfo.afterParams (bi : BootInfo) (config : Parser) (label : Option Str) : BootInfo :=
  if (optionOf config label "literal").isSome then bi else bi.pausedBy config label

theorem fillParams_run (known : Known config label) (valued : OptionsValued config label)
    (short : params.length ≤ 511) (args : Arguments) :
    ∃ after, fillParams config label params args = .ok () after ∧
      Arguments.Built { args with bi := args.bi.afterParams config label } after
        (argumentsText config label params ++ [0]) := by
  have size : paramsSize = 2048 := rfl
  have most : maxToken = 200 := rfl
  obtain ⟨middle, put, goes⟩ := putByte_run (show args.Built args [] from ⟨Cells.holds_nil args.buffer 0, fun _ _ => rfl, rfl⟩) 0
    (show ([] : Str).length < paramsSize by decide)
  rw [List.length_nil] at put
  rw [fillParams, Prog.bind_run_ok put, argStrg_known known, Prog.pure_bind, argumentsText, BootInfo.afterParams]
  cases literal : optionOf config label "literal" with
  | none =>
      have length := optionsFor_length valued
      rw [Option.isSome_none, if_neg Bool.false_ne_true]
      exact fillOptions_run known valued goes.front (by rw [List.length_append]; omega)
  | some p =>
      have fits := valued "literal" p literal
      have length := fits.short
      rw [Option.isSome_some, if_pos rfl]
      exact fillLiteral_run fits.noNul goes.front (by omega)

/-! ## After a parse -/

theorem findImage_mem {name : Str} {images : List Table} {table : Table}
    (found : findImage name images = some (some table)) : table ∈ images := by
  induction images with
  | nil => cases found
  | cons image images ih =>
      rw [findImage] at found
      cases called : isCalled image name with
      | none =>
          rw [called] at found
          cases found
      | some same =>
          rw [called, Option.bind_eq_bind, Option.bind_some] at found
          cases same with
          | true =>
              cases found
              exact List.mem_cons_self
          | false => exact List.mem_cons_of_mem _ (ih found)

/-- The values that are looked up are those of the tables. -/
theorem optionsValued (valued : config.tables.Valued) (label : Option Str) : OptionsValued config label := by
  intro item value found
  cases label with
  | none => exact valued.options.lookup _ value found
  | some name =>
      rw [optionOf, cfgGetStrg] at found
      cases search : findImage name config.images with
      | none =>
          rw [search] at found
          cases found
      | some image =>
          rw [search] at found
          cases image with
          | none => cases found
          | some table =>
              have either : (cfgGetStrgI table (str item)).or (cfgGetStrgI config.options (str item)) = some value :=
                found
              obtain own | ⟨-, global⟩ := Option.or_eq_some_iff.mp either
              · exact (valued.images table (findImage_mem search)).lookup _ value own
              · exact valued.options.lookup _ value global

theorem known_of_found (found : ∀ name ∈ label, findImage name config.images ≠ none) : Known config label := by
  intro item
  cases label with
  | none => exact Option.some_ne_none _
  | some name =>
      obtain ⟨image, search⟩ := Option.ne_none_iff_exists'.mp (found name rfl)
      rw [cfgGetStrg, search]
      exact Option.some_ne_none _

variable {block : Option Cells}

/-- Without a buffer a null pointer is returned, and nothing is stored. -/
theorem makeParamsIn_refused (config : Parser) (label : Option Str) (params : Str) (held : args.held = false) :
    makeParamsIn config label none params args = .ok false args := by
  rw [makeParamsIn, Prog.view_bind, held, if_neg Bool.false_ne_true]
  rfl

theorem makeParamsIn_run {cells : Cells} (known : Known config label) (valued : OptionsValued config label)
    (short : params.length ≤ 511) (there : (if args.held then some args.buffer else block) = some cells) :
    ∃ after, makeParamsIn config label block params args = .ok true after ∧
      Arguments.Built ⟨cells, true, args.bi.afterParams config label⟩ after
        (argumentsText config label params ++ [0]) := by
  unfold makeParamsIn
  rw [Prog.view_bind]
  cases held : args.held with
  | true =>
      rw [held, if_pos rfl] at there
      obtain ⟨after, run, built⟩ := fillParams_run known valued short args
      rw [if_pos rfl, Prog.bind_run_ok run]
      refine ⟨after, rfl, ?_⟩
      rwa [held, Option.some.inj there] at built
  | false =>
      rw [held, if_neg Bool.false_ne_true] at there
      subst there
      obtain ⟨after, run, built⟩ := fillParams_run known valued short { args with buffer := cells, held := true }
      rw [if_neg Bool.false_ne_true]
      simp only
      rw [Prog.update_bind, Prog.bind_run_ok run]
      exact ⟨after, rfl, built⟩

theorem argumentsText_length (valued : OptionsValued config label) (short : params.length ≤ 511) :
    (argumentsText config label params).length < paramsSize := by
  have size : paramsSize = 2048 := rfl
  have most : maxToken = 200 := rfl
  rw [argumentsText]
  cases literal : optionOf config label "literal" with
  | none =>
      have length := optionsFor_length valued
      rw [List.length_append]
      omega
  | some p =>
      have length := (valued "literal" p literal).short
      simp only
      split
      · omega
      · split
        · omega
        · rw [List.length_append, List.length_append, List.length_singleton]
          omega

theorem Arguments.Built.string (built : start.Built args (argumentsText config label params ++ [0]))
    (valued : OptionsValued config label) (noNul : ∀ c ∈ params, c ≠ 0) (short : params.length ≤ 511) :
    args.buffer.string paramsSize 0 = some (argumentsText config label params) :=
  built.holds.string_whole (noNul_argumentsText valued noNul) (argumentsText_length valued short)

theorem cfgStrg_known (known : Known config label) (item : String) :
    cfgStrg config label item = pure (optionOf config label item) := by
  rw [cfgStrg, known.optionOf]
  rfl

theorem cfgFlag_known (known : Known config label) (item : String) :
    cfgFlag config label item = pure (optionOf config label item).isSome := by
  rw [cfgFlag, cfgGetFlag, known.optionOf]
  rfl

theorem makeParams_known (known : Known config label) (fits : (argumentsText config label params).length < paramsSize)
    (bi : BootInfo) :
    makeParams config true label params bi =
      .ok (argumentsText config label params) (bi.afterParams config label) := by
  rw [makeParams, if_pos rfl, cfgStrg_known known, Prog.pure_bind, BootInfo.afterParams]
  cases literal : optionOf config label "literal" with
  | some p =>
      have text : argumentsText config label params =
          if params = [] then p else if p = [] then params else p ++ [32] ++ params := by
        rw [argumentsText, literal]
      rw [text] at fits ⊢
      simp only
      rw [Prog.demand_pos (show _ < 2048 from fits), Option.isSome_some, if_pos rfl]
      rfl
  | none =>
      have text : argumentsText config label params = optionsFor config label ++ params := by
        rw [argumentsText, literal]
      rw [text, optionsFor] at fits ⊢
      simp only [cfgStrg_known known, cfgFlag_known known, Prog.pure_bind, Prog.update_bind]
      rw [Prog.demand_pos (show _ < 2048 from fits), Option.isSome_none, if_neg Bool.false_ne_true]
      rfl

/-- The buffer has the text that `makeParams` hands on. -/
theorem makeParamsIn_refines {cells : Cells} (known : Known config label) (valued : OptionsValued config label)
    (short : params.length ≤ 511) (noNul : ∀ c ∈ params, c ≠ 0)
    (there : (if args.held then some args.buffer else block) = some cells) :
    ∃ after text, makeParamsIn config label block params args = .ok true after ∧
      after.buffer.string paramsSize 0 = some text ∧
      makeParams config true label params args.bi = .ok text after.bi := by
  obtain ⟨after, run, built⟩ := makeParamsIn_run known valued short there
  refine ⟨after, _, run, built.string valued noNul short, ?_⟩
  rw [makeParams_known known (argumentsText_length valued short), built.same]

/-- After a parse, the kernel arguments are exactly those of the options, in a buffer of 2048
bytes, as long as there is a buffer; otherwise a null pointer is returned. -/
theorem arguments_exact_iff (grants : Nat → Nat → Bool) (buff : List UInt8) (fuel : Nat) (code : Int) (config : Parser)
    (returned : cfgParse grants buff fuel .fresh = .ok code config) (label : Option Str) (params : Str)
    (noNul : ∀ c ∈ params, c ≠ 0) (short : params.length ≤ 511)
    (found : ∀ name ∈ label, findImage name config.images ≠ none) (block : Option Cells) (args : Arguments) :
    (ArgumentsExact config label block params args ↔ args.held = true ∨ block ≠ none) ∧
      (args.held = false → block = none → makeParamsIn config label block params args = .ok false args) := by
  have tables : config.tables.Valued := cfgParse_tables returned ▸ (ofSettings_tables buff fuel).2
  have valued : OptionsValued config label := optionsValued tables label
  refine ⟨⟨?_, fun there => ?_⟩, ?_⟩
  · rintro ⟨cells, after, there, -⟩
    cases held : args.held with
    | true => exact .inl rfl
    | false =>
        rw [held, if_neg Bool.false_ne_true] at there
        exact .inr (there ▸ Option.some_ne_none _)
  · obtain ⟨cells, there⟩ : ∃ cells, (if args.held then some args.buffer else block) = some cells := by
      cases held : args.held with
      | true => exact ⟨_, if_pos rfl⟩
      | false =>
          obtain ⟨cells, given⟩ := Option.ne_none_iff_exists'.mp
            (there.resolve_left (held ▸ Bool.false_ne_true))
          exact ⟨cells, (if_neg Bool.false_ne_true).trans given⟩
    obtain ⟨after, run, built⟩ := makeParamsIn_run (known_of_found found) valued short there
    exact ⟨cells, after, there, run, built.string valued noNul short, built.outside⟩
  · rintro held rfl
    exact makeParamsIn_refused config label params held

end Stores

/-- Where the static buffer is a null pointer. -/
def Arguments.unused : Arguments where
  buffer := fun _ => 0
  held := false
  bi := BootInfo.start

theorem arguments_exact_empty : ∃ code config, cfgParse (fun _ _ => true) (str "append=a") 100 .fresh = .ok code config ∧
    ArgumentsExact config none (some fun _ => 7) (str "b") .unused := by
  obtain ⟨code, config, returned, -⟩ := cfgParse_granted
    (show 2 * (str "append=a").length + 1 < 100 by decide)
    (show Granted (fun _ _ => true) (requestsOf (str "append=a") 100) from fun _ _ => rfl)
  exact ⟨code, config, returned, (arguments_exact_iff _ _ _ _ _ returned none (str "b")
    (show Valued (str "b") by decide).noNul (by decide) nofun _ _).1.mpr (.inr (Option.some_ne_none _))⟩

/-- The empty configuration, without memory for the buffer. -/
theorem arguments_refused : ∃ config, cfgParse (fun _ _ => true) [] 10 .fresh = .ok 0 config ∧
    ¬ArgumentsExact config none none [] .unused := by
  refine ⟨Parser.fresh, rfl, ?_⟩
  rintro ⟨cells, after, there, -⟩
  cases there

end IQuik.Loader
