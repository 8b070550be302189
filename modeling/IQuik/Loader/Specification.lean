import IQuik.Loader.Environment
import Mathlib.Data.List.TakeWhile

namespace IQuik.Loader

open IQuik.Data IQuik.Program

/-! # Boot specifications

A device, a partition and the path of a configuration file are named in one
string, which reaches `env_init` in three ways. -/

/-! ## First words -/

/-- What follows the first word of a line, with the spaces in between. -/
def trailing (line : Str) : Str := fromFirst 32 (chomp line)

/-- A line is its first word and what follows. -/
theorem chomp_eq_append {line word : Str} (first : (wordSplit (some line)).1 = some word) :
    chomp line = word ++ trailing line ∧ word ≠ [] ∧ 32 ∉ word := by
  cases line' : chomp line with
  | nil => simp [wordSplit, line'] at first
  | cons c rest =>
      have notSpace : c ≠ 32 := by
        have head := List.head?_dropWhile_not (fun c : UInt8 => decide (c = 32)) line
        rw [show line.dropWhile (fun c : UInt8 => decide (c = 32)) = c :: rest from line'] at head
        simpa using head
      simp only [wordSplit, line', Option.some.injEq] at first
      subst first
      refine ⟨?_, ?_, ?_⟩
      · rw [trailing, fromFirst, line', List.takeWhile_append_dropWhile]
      · simp [notSpace]
      · intro member
        simpa using List.mem_takeWhile_imp member

/-- What follows the first word starts with a space. -/
theorem trailing_head (line : Str) : trailing line = [] ∨ ∃ more, trailing line = 32 :: more := by
  cases rest : trailing line with
  | nil => exact .inl rfl
  | cons c more =>
      have head := List.head?_dropWhile_not (fun c : UInt8 => decide (c ≠ 32)) (chomp line)
      rw [show (chomp line).dropWhile (fun c : UInt8 => decide (c ≠ 32)) = c :: more from rest] at head
      have space : c = 32 := by simpa using head
      exact .inr ⟨more, by rw [space]⟩

theorem wordSplit_word {word : Str} (some' : word ≠ []) (noSpace : 32 ∉ word) :
    wordSplit (some word) = (some word, []) := by
  cases word with
  | nil => exact absurd rfl some'
  | cons c rest =>
      have notSpace : c ≠ 32 := fun same => noSpace (by simp [same])
      have whole : chomp (c :: rest) = c :: rest := by simp [chomp, notSpace]
      have other : ∀ x ∈ c :: rest, decide (x ≠ 32) = true := by
        intro x member
        exact decide_eq_true fun same => noSpace (same ▸ member)
      simp only [wordSplit, whole, Prod.mk.injEq, Option.some.injEq]
      constructor
      · exact List.takeWhile_eq_self_iff.mpr other
      · rw [List.dropWhile_eq_nil_iff.mpr other]
        rfl

/-! ## Runs -/

/-- The device, the partition and the path. -/
def BootInfo.specification (bi : BootInfo) : EnvDev × Option Str := (bi.defaultDev, bi.configFile)

/-- What `env_init` derives, with and without a preboot script. -/
def derived (bi : BootInfo) (room preboot : Bool) (bootargs bootFile : Str) :
    Option (EnvDev × Option Str) :=
  (envInit bootargs bootFile room { bi with withPreboot := preboot }).state?.map BootInfo.specification

/-- The device given so far does not matter, nor do other fields. -/
theorem setDevice_specification {bi other : BootInfo} {device : Str}
    (part : other.defaultDev.part = bi.defaultDev.part)
    (valid : other.defaultDev.partValid = bi.defaultDev.partValid)
    (path : other.configFile = bi.configFile) :
    (other.setDevice device).specification = (bi.setDevice device).specification := by
  simp only [BootInfo.setDevice, BootInfo.specification, envDevSetPart]
  split <;> simp [part, valid, path]

section Derived

variable {bi : BootInfo} {preboot : Bool} {bootargs bootFile word : Str}

/-- Without room for the buffers nothing is derived. -/
theorem derived_no_room : derived bi false preboot bootargs bootFile = some bi.specification := rfl

theorem derived_long (long : ¬(bootargs.length < envSz ∧ bootFile.length < envSz)) :
    derived bi true preboot bootargs bootFile = none := by
  have run : envInit bootargs bootFile true { bi with withPreboot := preboot } = .undefined := by
    rw [envInit, if_pos rfl, Prog.demand_neg long]
    exact Prog.bind_run_undefined rfl
  rw [derived, run]
  rfl

variable (bi preboot) in
/-- The string looked at names a device. -/
theorem derived_word (short : bootargs.length < envSz ∧ bootFile.length < envSz)
    (first : (wordSplit (some (if preboot then bootFile else bootargs))).1 = some word)
    (names : fallsBack (some word) = false) :
    derived bi true preboot bootargs bootFile = some (bi.setDevice word).specification := by
  rw [derived, envInit, if_pos rfl, Prog.demand_pos short]
  rw [Prog.bind_run_ok (Prog.pure_run _), Prog.bind_run_ok (Prog.view_run _)]
  dsimp only
  rw [first, Prog.bind_run_ok (Prog.update_run _), if_neg (by simp [names]), Prog.defined_some,
    Prog.bind_run_ok (Prog.pure_run _), Prog.update_run, Outcome.state?_ok, Option.map_some]
  exact congrArg some (setDevice_specification rfl rfl rfl)

/-- `boot-file` is fallen back on, without the script. -/
theorem derived_fallback (short : bootargs.length < envSz ∧ bootFile.length < envSz)
    (falls : fallsBack (wordSplit (some bootargs)).1 = true) :
    derived bi true false bootargs bootFile = some (bi.setDevice (chomp bootFile)).specification := by
  rw [derived, envInit, if_pos rfl, Prog.demand_pos short]
  rw [Prog.bind_run_ok (Prog.pure_run _), Prog.bind_run_ok (Prog.view_run _)]
  dsimp only
  rw [if_neg Bool.false_ne_true, Prog.bind_run_ok (Prog.update_run _), if_pos falls,
    if_neg Bool.false_ne_true, Prog.update_run, Outcome.state?_ok, Option.map_some]
  exact congrArg some (setDevice_specification rfl rfl rfl)

end Derived

/-! ## The number behind a colon -/

/-- A blank ends a number. -/
theorem strtolDigits_append (base : Nat) (s more : Str) (i : Nat) (overflow : Bool) (count : Nat) :
    strtolDigits base (s ++ 32 :: more) i overflow count = strtolDigits base s i overflow count := by
  induction s generalizing i overflow count with
  | nil => rfl
  | cons c rest ih => simp only [List.cons_append, strtolDigits, ih]

theorem hexPrefix_cons (c d : UInt8) (rest : Str) :
    hexPrefix (c :: d :: rest) = (c == 48 && (d == 88 || d == 120)) := by
  by_cases zero : c = 48
  · subst zero
    rfl
  · have other : (c == 48) = false := beq_eq_false_iff_ne.mpr zero
    rw [other, Bool.false_and, hexPrefix]
    exact fun _ _ same => zero (List.cons.inj same).1

theorem hexPrefix_single (c : UInt8) : hexPrefix [c] = false := by
  rw [hexPrefix]
  exact fun _ _ same => by simp at same

theorem hexPrefix_append (s more : Str) : hexPrefix (s ++ 32 :: more) = hexPrefix s := by
  match s with
  | [] => cases more <;> rfl
  | [c] => rw [hexPrefix_single, List.singleton_append, hexPrefix_cons]; simp
  | c :: d :: rest => simp only [List.cons_append, hexPrefix_cons]

theorem strtolBase_append (s more : Str) :
    strtolBase 0 (s ++ 32 :: more) = ((strtolBase 0 s).1, (strtolBase 0 s).2 ++ 32 :: more) := by
  simp only [strtolBase, hexPrefix_append]
  cases s with
  | nil => simp
  | cons c rest =>
      by_cases zero : c = 48
      · by_cases hex : hexPrefix (c :: rest) = true
        · cases rest with
          | nil => simp [hexPrefix] at hex
          | cons d rest => simp [zero, hexPrefix] at hex ⊢; simp [hex]
        · simp [zero] at hex ⊢; simp [hex]
      · simp [zero]

/-- The value of a number, from its sign on. -/
def signedValue : Str → Int
  | [] => 0
  | sign :: rest =>
      let s := strtolBase 0 (if sign = 45 ∨ sign = 43 then rest else sign :: rest)
      let digits := strtolDigits s.1 s.2 0 false 0
      if digits.2.2 = 0 then 0
      else if digits.2.1 then (if sign == 45 then -0x80000000 else 0x7FFFFFFF)
      else if sign == 45 then -digits.1 else digits.1

/-- The value `strtol` returns is that of the string without leading blanks. -/
theorem strtol_value (s : Str) :
    (strtol s 0).1 = signedValue (s.dropWhile fun c => decide (c ≤ 32)) := by
  simp only [strtol]
  split
  next blank => rw [blank]; rfl
  next sign rest text =>
    rw [text]
    dsimp only [signedValue]
    by_cases none : (strtolDigits (strtolBase 0 (if sign = 45 ∨ sign = 43 then rest else sign :: rest)).1
        (strtolBase 0 (if sign = 45 ∨ sign = 43 then rest else sign :: rest)).2 0 false 0).2.2 = 0
    · rw [if_pos none, if_pos none]
      exact (apply_ite Prod.fst _ _ _).trans (ite_self _)
    · rw [if_neg none, if_neg none]

theorem signedValue_append (c : UInt8) (s more : Str) :
    signedValue (c :: (s ++ 32 :: more)) = signedValue (c :: s) := by
  have text : (if c = 45 ∨ c = 43 then s ++ 32 :: more else c :: (s ++ 32 :: more))
      = (if c = 45 ∨ c = 43 then s else c :: s) ++ 32 :: more := by
    split <;> rfl
  simp only [signedValue, text, strtolBase_append, strtolDigits_append]

/-- A blank after a number does not change it, nor does what follows. -/
theorem strtol_append {s : Str} (more : Str) (number : ∃ c ∈ s, 32 < c) :
    (strtol (s ++ 32 :: more) 0).1 = (strtol s 0).1 := by
  rw [strtol_value, strtol_value, List.dropWhile_append]
  cases text : s.dropWhile fun c => decide (c ≤ 32) with
  | nil =>
      obtain ⟨c, member, above⟩ := number
      have blank := List.dropWhile_eq_nil_iff.mp text c member
      exact absurd (of_decide_eq_true blank) (UInt8.not_le.mpr above)
  | cons c rest => exact signedValue_append c rest more

/-- Blanks before a number do not change it. -/
theorem strtol_blank {s : Str} (more : Str) (blank : ∀ c ∈ s, c ≤ 32) :
    (strtol (s ++ more) 0).1 = (strtol more 0).1 ∧ (strtol s 0).1 = 0 := by
  have skipped : (s.dropWhile fun c => decide (c ≤ 32)) = [] :=
    List.dropWhile_eq_nil_iff.mpr fun c member => decide_eq_true (blank c member)
  constructor
  · rw [strtol_value, strtol_value, List.dropWhile_append, skipped]
    rfl
  · rw [strtol_value, skipped]
    rfl

/-! ## What follows the first word -/

/-- The number of a partition, and the path of the configuration file, behind a
colon. -/
def partNumber (p : Str) : Nat := unsigned (strtol p 0).1

def configPath (p : Str) : Str := if 47 ∈ p then fromFirst 47 p else str "/etc/quik.conf"

/-- What follows the word `word` is not taken for a part of it: nothing does,
or it can only be seen behind a colon, where it gives no other partition and no
other path. -/
def Apart (word rest : Str) : Prop :=
  rest = [] ∨ (58 ∈ word ∧ 47 ∉ afterColon word ∧ configPath rest = str "/etc/quik.conf" ∧
    ((∃ c ∈ afterColon word, 32 < c) ∨ partNumber rest = 0))

theorem fromFirst_append {c : UInt8} {s : Str} (more : Str) (member : c ∈ s) :
    fromFirst c (s ++ more) = fromFirst c s ++ more := by
  rw [fromFirst, fromFirst, List.dropWhile_append]
  cases rest : s.dropWhile fun x => decide (x ≠ c) with
  | nil =>
      have other := List.dropWhile_eq_nil_iff.mp rest c member
      exact absurd rfl (of_decide_eq_true other)
  | cons x tail => rfl

theorem afterColon_append {s : Str} (more : Str) (member : 58 ∈ s) :
    afterColon (s ++ more) = afterColon s ++ more := by
  rw [afterColon, afterColon, fromFirst_append more member]
  refine List.tail_append_of_ne_nil fun empty => ?_
  have other := List.dropWhile_eq_nil_iff.mp empty 58 member
  exact absurd rfl (of_decide_eq_true other)

theorem setDevice_colon {bi : BootInfo} {device : Str} (colon : 58 ∈ device) :
    (bi.setDevice device).specification =
      ({ device := some (device.takeWhile (· ≠ 58)), part := partNumber (afterColon device),
         partValid := true }, some (configPath (afterColon device))) := by
  rw [BootInfo.setDevice, if_pos colon]
  rfl

theorem setDevice_plain {bi : BootInfo} {device : Str} (plain : 58 ∉ device) :
    (bi.setDevice device).specification =
      ({ bi.defaultDev with device := some device }, bi.configFile) := by
  rw [BootInfo.setDevice, if_neg plain]
  rfl

/-- The part of a name before its colon, with more behind the name. -/
theorem takeWhile_colon {word : Str} (rest : Str) (colon : 58 ∈ word) :
    (word ++ rest).takeWhile (· ≠ 58) = word.takeWhile (· ≠ 58) := by
  rw [List.takeWhile_append, if_neg]
  intro all
  have whole := (List.takeWhile_prefix fun x : UInt8 => decide (x ≠ 58)).eq_of_length all
  have other := List.takeWhile_eq_self_iff.mp whole 58 colon
  exact absurd rfl (of_decide_eq_true other)

theorem configPath_append_iff (p : Str) {rest : Str} (more : rest ≠ []) :
    configPath (p ++ rest) = configPath p ↔ 47 ∉ p ∧ configPath rest = str "/etc/quik.conf" := by
  by_cases slash : 47 ∈ p
  · have both : 47 ∈ p ++ rest := List.mem_append_left rest slash
    rw [configPath, if_pos both, configPath, if_pos slash, fromFirst_append rest slash]
    simp [slash, more]
  · have skipped : fromFirst 47 (p ++ rest) = fromFirst 47 rest :=
      List.dropWhile_append_of_pos fun c member => decide_eq_true fun same => slash (same ▸ member)
    have same : configPath (p ++ rest) = configPath rest := by
      simp only [configPath, List.mem_append, slash, false_or, skipped]
    rw [same, configPath.eq_1 p, if_neg slash]
    simp [slash]

theorem partNumber_append_iff (p more : Str) :
    partNumber (p ++ 32 :: more) = partNumber p ↔
      (∃ c ∈ p, 32 < c) ∨ partNumber (32 :: more) = 0 := by
  by_cases number : ∃ c ∈ p, 32 < c
  · rw [partNumber, strtol_append more number]
    exact iff_of_true rfl (.inl number)
  · have blank : ∀ c ∈ p, c ≤ 32 := fun c member => UInt8.not_lt.mp fun above => number ⟨c, member, above⟩
    obtain ⟨behind, zero⟩ := strtol_blank (32 :: more) blank
    rw [partNumber, behind, partNumber, zero]
    simp only [number, false_or]
    rfl

/-- The name of a device and more behind it give the same as the name alone
exactly if the rest stays apart. -/
theorem setDevice_append_iff (bi : BootInfo) {word rest : Str} (noSpace : 32 ∉ word)
    (head : rest = [] ∨ ∃ more, rest = 32 :: more) :
    (bi.setDevice (word ++ rest)).specification = (bi.setDevice word).specification ↔
      Apart word rest := by
  obtain rfl | ⟨more, rfl⟩ := head
  · rw [List.append_nil]
    exact iff_of_true rfl (.inl rfl)
  by_cases colon : 58 ∈ word
  · have both : 58 ∈ word ++ 32 :: more := List.mem_append_left _ colon
    rw [setDevice_colon both, setDevice_colon colon, takeWhile_colon _ colon,
      afterColon_append _ colon]
    simp only [Prod.mk.injEq, EnvDev.mk.injEq, Option.some.injEq, true_and, and_true,
      partNumber_append_iff, configPath_append_iff (afterColon word) (List.cons_ne_nil 32 more), Apart,
      colon, List.cons_ne_nil, false_or]
    exact ⟨fun ⟨part, path, conf⟩ => ⟨path, conf, part⟩, fun ⟨path, conf, part⟩ => ⟨part, path, conf⟩⟩
  · -- the device itself has a space in it
    refine iff_of_false (fun same => ?_) fun apart => ?_
    · rw [setDevice_plain colon] at same
      have device : (bi.setDevice (word ++ 32 :: more)).specification.1.device = some word := by
        rw [same]
      have space : ∃ tail, (bi.setDevice (word ++ 32 :: more)).specification.1.device
          = some (word ++ 32 :: tail) := by
        by_cases later : 58 ∈ word ++ 32 :: more
        · refine ⟨more.takeWhile (· ≠ 58), ?_⟩
          rw [setDevice_colon later]
          have front : ∀ c ∈ word, decide (c ≠ 58) = true :=
            fun c member => decide_eq_true fun same => colon (same ▸ member)
          rw [List.takeWhile_append_of_pos front]
          rfl
        · exact ⟨more, by rw [setDevice_plain later]⟩
      obtain ⟨tail, space⟩ := space
      rw [space, Option.some.injEq] at device
      exact noSpace (device ▸ List.mem_append_right word (List.mem_cons_self ..))
    · obtain none | ⟨found, -⟩ := apart
      · exact List.cons_ne_nil _ _ none
      · exact colon found

/-! ## One meaning -/

/-- The specification `spec` means what its first word `word` means, in
`bootargs`, in `boot-file` after a preboot script, and in `boot-file` when it is
fallen back on from `bootargs`, which is then `fallback`. -/
def OneMeaning (bi : BootInfo) (room : Bool) (spec word bootFile bootargs fallback : Str) : Prop :=
  let meaning := derived bi room false word bootFile
  meaning.isSome ∧ derived bi room false spec bootFile = meaning ∧
    derived bi room true bootargs spec = meaning ∧ derived bi room false fallback spec = meaning

instance (bi : BootInfo) (room : Bool) (spec word bootFile bootargs fallback : Str) :
    Decidable (OneMeaning bi room spec word bootFile bootargs fallback) :=
  inferInstanceAs (Decidable (_ ∧ _ ∧ _ ∧ _))

/-- A string that is looked at fits its buffer. -/
theorem fits_of_derived {bi : BootInfo} {preboot : Bool} {bootargs bootFile : Str}
    (some' : (derived bi true preboot bootargs bootFile).isSome) :
    bootargs.length < envSz ∧ bootFile.length < envSz := by
  by_contra long
  rw [derived_long long] at some'
  simp at some'

theorem word_length_le {spec word : Str} (first : (wordSplit (some spec)).1 = some word) :
    word.length ≤ spec.length := by
  have inner := congrArg List.length (chomp_eq_append first).1
  have outer := (List.dropWhile_suffix (l := spec) fun c : UInt8 => decide (c = 32)).length_le
  rw [List.length_append] at inner
  exact (Nat.le_add_right _ _).trans (inner ▸ outer)

/-- With the buffers granted, every string has to fit its buffer, and what
follows the first word has to stay apart from it. -/
theorem oneMeaning_iff (bi : BootInfo) (room : Bool) {spec word fallback : Str} (bootFile bootargs : Str)
    (first : (wordSplit (some spec)).1 = some word) (names : fallsBack (some word) = false)
    (falls : fallsBack (wordSplit (some fallback)).1 = true) :
    OneMeaning bi room spec word bootFile bootargs fallback ↔
      (room = true → (spec.length < envSz ∧ bootFile.length < envSz ∧ bootargs.length < envSz ∧
        fallback.length < envSz) ∧ Apart word (trailing spec)) := by
  cases room with
  | false => simp [OneMeaning, derived_no_room]
  | true =>
      obtain ⟨split, some', noSpace⟩ := chomp_eq_append first
      have apart := setDevice_append_iff bi noSpace (trailing_head spec)
      rw [← split] at apart
      rw [OneMeaning]
      constructor
      · rintro ⟨means, asArgs, asFile, asFallback⟩ -
        have argsFit := fits_of_derived (asArgs ▸ means)
        have fileFits := fits_of_derived (asFile ▸ means)
        have fallbackFits := fits_of_derived (asFallback ▸ means)
        refine ⟨⟨argsFit.1, argsFit.2, fileFits.1, fallbackFits.1⟩, apart.mp ?_⟩
        rw [← asArgs, derived_fallback fallbackFits falls,
          derived_word bi false argsFit first names] at asFallback
        exact Option.some.inj asFallback
      · intro condition
        obtain ⟨⟨specFits, fileFits, argsFit, fallbackFits⟩, apart'⟩ := condition rfl
        have wordFits : word.length < envSz := (word_length_le first).trans_lt specFits
        have alone : (wordSplit (some word)).1 = some word := by rw [wordSplit_word some' noSpace]
        have means := derived_word bi false ⟨wordFits, fileFits⟩ alone names
        refine ⟨by rw [means]; rfl, ?_, ?_, ?_⟩ <;> rw [means]
        · exact derived_word bi false ⟨specFits, fileFits⟩ first names
        · exact derived_word bi true ⟨argsFit, specFits⟩ first names
        · rw [derived_fallback ⟨fallbackFits, specFits⟩ falls, apart.mpr apart']

theorem oneMeaning_iff_partition :
    OneMeaning BootInfo.start true (str " ata0/ata-disk@0:4") (str "ata0/ata-disk@0:4") (str "/x")
        (str "") (str "-- Linux26") ↔
      (true = true → ((str " ata0/ata-disk@0:4").length < envSz ∧ (str "/x").length < envSz ∧
        (str "").length < envSz ∧ (str "-- Linux26").length < envSz) ∧
        Apart (str "ata0/ata-disk@0:4") (trailing (str " ata0/ata-disk@0:4"))) :=
  oneMeaning_iff BootInfo.start true (str "/x") (str "") (by decide +kernel) (by decide +kernel)
    (by decide +kernel)

/-- One of the strings the example menu sets: with it as `boot-file` and no
`bootargs`, the word `expert` becomes a part of the path. -/
theorem path_takes_word :
    ¬OneMeaning BootInfo.start true (str "ata3/pccard45,401@0:3/installer/quik.conf expert")
      (str "ata3/pccard45,401@0:3/installer/quik.conf") [] [] [] ∧
    (derived BootInfo.start true false []
        (str "ata3/pccard45,401@0:3/installer/quik.conf expert")).map Prod.snd =
      some (some (str "/installer/quik.conf expert")) := by
  decide +kernel

end IQuik.Loader
