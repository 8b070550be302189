import IQuik.Data.Strings
import Mathlib.Data.List.TakeWhile

namespace IQuik.Data

/-! # What `strtol` should convert

The C standard: behind white space, the longest text of the expected form is
converted. Here a `long` has 32 bits, and the bytes up to 32 are white. -/

/-- The value of a digit that is permitted in a base. -/
def digitIn (base : Nat) (c : UInt8) : Option Nat := (digit? c).filter (· < base)

/-- A digit or more. -/
def Numeral (base : Nat) (digits : Str) : Prop := digits ≠ [] ∧ ∀ c ∈ digits, (digitIn base c).isSome

/-- The value of digits, behind others of the value `front`. -/
def valueFrom (base front : Nat) (digits : Str) : Nat :=
  digits.foldl (fun value c => value * base + (digitIn base c).getD 0) front

/-- A number without a sign, as `base` asks for it, and its value. -/
inductive Expected : (base : Nat) → (text : Str) → (value : Nat) → Prop where
  | given {base : Nat} {digits : Str} (known : base ≠ 0) (numeral : Numeral base digits) :
      Expected base digits (valueFrom base 0 digits)
  | hexadecimal {base : Nat} {x : UInt8} {digits : Str} (allowed : base = 0 ∨ base = 16)
      (letter : x = 88 ∨ x = 120) (numeral : Numeral 16 digits) :
      Expected base (48 :: x :: digits) (valueFrom 16 0 digits)
  | octal {digits : Str} (numeral : Numeral 8 (48 :: digits)) :
      Expected 0 (48 :: digits) (valueFrom 8 0 (48 :: digits))
  | decimal {c : UInt8} {digits : Str} (leading : c ≠ 48) (numeral : Numeral 10 (c :: digits)) :
      Expected 0 (c :: digits) (valueFrom 10 0 (c :: digits))

/-- A number, perhaps with a sign. -/
inductive Subject (base : Nat) : (text : Str) → (value : Int) → Prop where
  | unsigned {text : Str} {value : Nat} (expected : Expected base text value) : Subject base text value
  | plus {text : Str} {value : Nat} (expected : Expected base text value) : Subject base (43 :: text) value
  | minus {text : Str} {value : Nat} (expected : Expected base text value) : Subject base (45 :: text) (-value)

/-- The nearest `long`. -/
def clamp (value : Int) : Int := max (-0x80000000) (min value 0x7FFFFFFF)

def isWhite (c : UInt8) : Bool := 1 ≤ c ∧ c ≤ 32

/-- What a conversion of `nptr` returns, with the place of the end pointer. -/
inductive Converts (base : Nat) (nptr : Str) : Int × Nat → Prop where
  | number {text : Str} {value : Int} (subject : Subject base text value)
      (initial : text <+: nptr.dropWhile isWhite)
      (longest : ∀ other value, Subject base other value → other <+: nptr.dropWhile isWhite →
        other.length ≤ text.length) :
      Converts base nptr (clamp value, (nptr.takeWhile isWhite).length + text.length)
  | nothing (none : ∀ other value, Subject base other value → ¬other <+: nptr.dropWhile isWhite) :
      Converts base nptr (0, 0)

/-! ## One result -/

section Unique

variable {base : Nat} {text : Str}

theorem Numeral.digit {c : UInt8} {rest : Str} (numeral : Numeral base (c :: rest)) : (digit? c).isSome :=
  Option.isSome_of_isSome_filter _ _ (numeral.2 c List.mem_cons_self)

theorem Expected.digit {c : UInt8} {value : Nat} (expected : Expected base (c :: text) value) :
    (digit? c).isSome := by
  cases expected with
  | given known numeral => exact numeral.digit
  | hexadecimal allowed letter numeral => rfl
  | octal numeral => rfl
  | decimal leading numeral => exact numeral.digit

theorem Expected.ne_nil {value : Nat} (expected : Expected base text value) : text ≠ [] := by
  cases expected with
  | given known numeral => exact numeral.1
  | hexadecimal allowed letter numeral => exact List.cons_ne_nil _ _
  | octal numeral => exact List.cons_ne_nil _ _
  | decimal leading numeral => exact List.cons_ne_nil _ _

/-- The `x` of a prefix is no digit. -/
theorem Numeral.no_prefix {radix : Nat} {x : UInt8} {digits : Str} (small : radix ≤ 16) (letter : x = 88 ∨ x = 120)
    (numeral : Numeral radix (48 :: x :: digits)) : False := by
  have permitted := numeral.2 x (List.mem_cons_of_mem _ List.mem_cons_self)
  have known : digit? x = some 33 := by
    obtain rfl | rfl := letter
    · rfl
    · rfl
  rw [digitIn, known, Option.filter_some_neg (by simp; omega)] at permitted
  cases permitted

theorem Expected.unique {value other : Nat} (expected : Expected base text value)
    (again : Expected base text other) : value = other := by
  cases expected with
  | given known numeral =>
      cases again with
      | given => rfl
      | hexadecimal allowed letter =>
          exact (numeral.no_prefix (Nat.le_of_eq (allowed.resolve_left known)) letter).elim
      | octal => exact absurd rfl known
      | decimal => exact absurd rfl known
  | hexadecimal allowed letter =>
      cases again with
      | given known numeral =>
          exact (numeral.no_prefix (Nat.le_of_eq (allowed.resolve_left known)) letter).elim
      | hexadecimal => rfl
      | octal numeral => exact (numeral.no_prefix (by decide) letter).elim
      | decimal leading => exact absurd rfl leading
  | octal numeral =>
      cases again with
      | given known => exact absurd rfl known
      | hexadecimal allowed letter => exact (numeral.no_prefix (by decide) letter).elim
      | octal => rfl
      | decimal leading => exact absurd rfl leading
  | decimal leading =>
      cases again with
      | given known => exact absurd rfl known
      | hexadecimal => exact absurd rfl leading
      | octal => exact absurd rfl leading
      | decimal => rfl

theorem Subject.unique {value other : Int} (subject : Subject base text value)
    (again : Subject base text other) : value = other := by
  cases subject with
  | unsigned expected =>
      cases again with
      | unsigned expected' => rw [expected.unique expected']
      | plus => exact absurd expected.digit (by decide)
      | minus => exact absurd expected.digit (by decide)
  | plus expected =>
      cases again with
      | unsigned expected' => exact absurd expected'.digit (by decide)
      | plus expected' => rw [expected.unique expected']
  | minus expected =>
      cases again with
      | unsigned expected' => exact absurd expected'.digit (by decide)
      | minus expected' => rw [expected.unique expected']

theorem Converts.unique {nptr : Str} {result other : Int × Nat} (converts : Converts base nptr result)
    (again : Converts base nptr other) : result = other := by
  cases converts with
  | number subject initial longest =>
      cases again with
      | number subject' initial' longest' =>
          have length := Nat.le_antisymm (longest' _ _ subject initial) (longest _ _ subject' initial')
          obtain rfl := List.IsPrefix.eq_of_length (List.prefix_of_prefix_length_le initial initial' (Nat.le_of_eq length)) length
          rw [subject.unique subject']
      | nothing none => exact absurd initial (none _ _ subject)
  | nothing none =>
      cases again with
      | number subject initial => exact absurd initial (none _ _ subject)
      | nothing => rfl

end Unique

/-! ## The digit loop -/

section Digits

variable {base : Nat}

/-- The digits at the start of a text. -/
def digitRun (base : Nat) (s : Str) : Str := s.takeWhile fun c => (digitIn base c).isSome

theorem valueFrom_le (low : 1 ≤ base) (front : Nat) (digits : Str) : front ≤ valueFrom base front digits := by
  induction digits generalizing front with
  | nil => exact Nat.le_refl front
  | cons c rest ih =>
      have wider : front ≤ front * base := Nat.le_mul_of_pos_right front low
      exact Nat.le_trans (by omega) (ih (front * base + (digitIn base c).getD 0))

theorem valueFrom_append (front : Nat) (digits more : Str) :
    valueFrom base front (digits ++ more) = valueFrom base (valueFrom base front digits) more :=
  List.foldl_append

theorem strtolDigits_digit {c : UInt8} {d i count : Nat} {rest : Str} {overflow : Bool}
    (permitted : digitIn base c = some d) :
    strtolDigits base (c :: rest) i overflow count =
      if 0x7FFFFFFF / base < i ∨ (i = 0x7FFFFFFF / base ∧ 0x7FFFFFFF % base < d) then
        strtolDigits base rest i true (count + 1)
      else strtolDigits base rest (i * base + d) overflow (count + 1) := by
  obtain ⟨known, below⟩ := Option.filter_eq_some_iff.mp permitted
  rw [strtolDigits, known]
  simp only [if_neg (Nat.not_le.mpr (of_decide_eq_true below))]

theorem strtolDigits_stop {c : UInt8} {i count : Nat} {rest : Str} {overflow : Bool}
    (forbidden : digitIn base c = none) :
    strtolDigits base (c :: rest) i overflow count = (i, overflow, count) := by
  rw [strtolDigits]
  cases known : digit? c with
  | none => rfl
  | some d =>
      have large : base ≤ d := by
        rw [digitIn, known] at forbidden
        simpa using forbidden
      simp only [if_pos large]

/-- The overflow test, without a wider type. -/
theorem overflows_iff (low : 1 ≤ base) {i d : Nat} (permitted : d < base) :
    (0x7FFFFFFF / base < i ∨ (i = 0x7FFFFFFF / base ∧ 0x7FFFFFFF % base < d)) ↔ 0x7FFFFFFF < i * base + d := by
  have parts : 0x7FFFFFFF / base * base + 0x7FFFFFFF % base = 0x7FFFFFFF := Nat.div_add_mod' _ _
  have rest : 0x7FFFFFFF % base < base := Nat.mod_lt _ low
  generalize 0x7FFFFFFF / base = cutoff at *
  generalize 0x7FFFFFFF % base = cutlim at *
  rcases Nat.lt_trichotomy i cutoff with less | rfl | more
  · have next : (i + 1) * base ≤ cutoff * base := Nat.mul_le_mul_right base less
    rw [Nat.succ_mul] at next
    exact iff_of_false (by omega) (by omega)
  · rw [← parts]
    omega
  · have next : (cutoff + 1) * base ≤ i * base := Nat.mul_le_mul_right base more
    rw [Nat.succ_mul] at next
    exact iff_of_true (.inl more) (by omega)

/-- After an overflow the digits are still counted. -/
theorem strtolDigits_overflowed (s : Str) (i count : Nat) :
    ∃ j, strtolDigits base s i true count = (j, true, count + (digitRun base s).length) := by
  induction s generalizing i count with
  | nil => exact ⟨i, rfl⟩
  | cons c rest ih =>
      cases permitted : digitIn base c with
      | none =>
          rw [strtolDigits_stop permitted, digitRun, List.takeWhile_cons_of_neg (by rw [permitted]; decide)]
          exact ⟨i, rfl⟩
      | some d =>
          have counted : count + (digitRun base (c :: rest)).length =
              count + 1 + (digitRun base rest).length := by
            rw [digitRun, List.takeWhile_cons_of_pos (by rw [permitted]; rfl), List.length_cons, digitRun]
            omega
          rw [strtolDigits_digit permitted, counted]
          split
          · exact ih i (count + 1)
          · exact ih (i * base + d) (count + 1)

/-- The loop reads the run of digits; the number is theirs unless it is too large. -/
theorem strtolDigits_run (low : 1 ≤ base) (s : Str) {i : Nat} (small : i ≤ 0x7FFFFFFF) (count : Nat) :
    ∃ j, strtolDigits base s i false count =
        (j, decide (0x7FFFFFFF < valueFrom base i (digitRun base s)), count + (digitRun base s).length) ∧
      (valueFrom base i (digitRun base s) ≤ 0x7FFFFFFF → j = valueFrom base i (digitRun base s)) := by
  induction s generalizing i count with
  | nil =>
      have fits : decide (0x7FFFFFFF < i) = false := decide_eq_false (Nat.not_lt.mpr small)
      exact ⟨i, congrArg (fun beyond => (i, beyond, count)) fits.symm, fun _ => rfl⟩
  | cons c rest ih =>
      cases permitted : digitIn base c with
      | none =>
          have run : digitRun base (c :: rest) = [] := by
            rw [digitRun, List.takeWhile_cons_of_neg (by rw [permitted]; decide)]
          have fits : decide (0x7FFFFFFF < i) = false := decide_eq_false (Nat.not_lt.mpr small)
          rw [strtolDigits_stop permitted, run]
          exact ⟨i, congrArg (fun beyond => (i, beyond, count)) fits.symm, fun _ => rfl⟩
      | some d =>
          have below : d < base := of_decide_eq_true (Option.filter_eq_some_iff.mp permitted).2
          have run : digitRun base (c :: rest) = c :: digitRun base rest := by
            rw [digitRun, List.takeWhile_cons_of_pos (by rw [permitted]; rfl), digitRun]
          have value : valueFrom base i (c :: digitRun base rest) =
              valueFrom base (i * base + d) (digitRun base rest) := by
            rw [valueFrom, List.foldl_cons, permitted]
            rfl
          have counted : count + (c :: digitRun base rest).length =
              count + 1 + (digitRun base rest).length := by
            rw [List.length_cons]
            omega
          rw [strtolDigits_digit permitted, run, value, counted]
          by_cases large : 0x7FFFFFFF < i * base + d
          · obtain ⟨j, loop⟩ : ∃ j, strtolDigits base rest i true (count + 1) =
                (j, true, count + 1 + (digitRun base rest).length) := strtolDigits_overflowed rest i (count + 1)
            have grown := valueFrom_le low (i * base + d) (digitRun base rest)
            rw [if_pos ((overflows_iff low below).mpr large), loop]
            exact ⟨j, by rw [decide_eq_true (by omega)], fun fits => by omega⟩
          · rw [if_neg fun beyond => large ((overflows_iff low below).mp beyond)]
            exact ih (Nat.not_lt.mp large) (count + 1)

end Digits

/-! ## Behind the sign -/

section Unsigned

variable {base radix : Nat} {u tail : Str} {x : UInt8}

/-- The longest expected text at the start of `u`. -/
structure Longest (base : Nat) (u text : Str) (value : Nat) : Prop where
  expected : Expected base text value
  initial : text <+: u
  longest : ∀ other value, Expected base other value → other <+: u → other.length ≤ text.length

/-- At the start of `u` just the numerals of this radix are expected. -/
structure Plain (base radix : Nat) (u : Str) : Prop where
  expects : ∀ digits, digits <+: u → Numeral radix digits → Expected base digits (valueFrom radix 0 digits)
  only : ∀ other value, Expected base other value → other <+: u → Numeral radix other

theorem Numeral.length_le {digits : Str} (numeral : Numeral radix digits) (initial : digits <+: u) :
    digits.length ≤ (digitRun radix u).length := by
  obtain ⟨rest, rfl⟩ := initial
  rw [digitRun, List.takeWhile_append_of_pos numeral.2, List.length_append]
  exact Nat.le_add_right _ _

theorem digitRun_numeral (some' : digitRun radix u ≠ []) : Numeral radix (digitRun radix u) :=
  ⟨some', fun _ member => List.mem_takeWhile_imp (p := fun c => (digitIn radix c).isSome) member⟩

theorem Plain.number (plain : Plain base radix u) (some' : digitRun radix u ≠ []) :
    Longest base u (digitRun radix u) (valueFrom radix 0 (digitRun radix u)) where
  expected := plain.expects _ (List.takeWhile_prefix _) (digitRun_numeral some')
  initial := List.takeWhile_prefix _
  longest other value expected initial := (plain.only other value expected initial).length_le initial

theorem Plain.nothing (plain : Plain base radix u) (none : digitRun radix u = []) (other : Str) (value : Nat)
    (expected : Expected base other value) : ¬other <+: u := by
  intro initial
  have short := (plain.only other value expected initial).length_le initial
  rw [none] at short
  exact expected.ne_nil (List.length_eq_zero_iff.mp (Nat.le_zero.mp short))

/-- No numeral goes on behind the zero of a prefix. -/
theorem Numeral.zero_only {digits : Str} (small : radix ≤ 16) (letter : x = 88 ∨ x = 120)
    (numeral : Numeral radix digits) (initial : digits <+: 48 :: x :: tail) : digits.length ≤ 1 := by
  cases digits with
  | nil => exact Nat.zero_le 1
  | cons c digits =>
      cases digits with
      | nil => exact Nat.le_refl 1
      | cons d digits =>
          obtain ⟨rfl, behind⟩ := List.cons_prefix_cons.mp initial
          obtain ⟨rfl, -⟩ := List.cons_prefix_cons.mp behind
          exact (numeral.no_prefix small letter).elim

/-- Behind a prefix, the hexadecimal digits count, or the zero alone. -/
theorem Expected.prefix_length {other : Str} {value : Nat} (letter : x = 88 ∨ x = 120) (allowed : base = 0 ∨ base = 16)
    (expected : Expected base other value) (initial : other <+: 48 :: x :: tail) :
    other.length ≤ 1 ∨ digitRun 16 tail ≠ [] ∧ other.length ≤ 2 + (digitRun 16 tail).length := by
  cases expected with
  | given known numeral => exact .inl (numeral.zero_only (Nat.le_of_eq (allowed.resolve_left known)) letter initial)
  | hexadecimal allowed letter' numeral =>
      right
      obtain ⟨-, initial⟩ := List.cons_prefix_cons.mp initial
      obtain ⟨-, initial⟩ := List.cons_prefix_cons.mp initial
      have length := numeral.length_le initial
      have some' := List.length_pos_of_ne_nil numeral.1
      refine ⟨List.ne_nil_of_length_pos (by omega), ?_⟩
      rw [List.length_cons, List.length_cons]
      omega
  | octal numeral => exact .inl (numeral.zero_only (by decide) letter initial)
  | decimal leading numeral => exact absurd (List.cons_prefix_cons.mp initial).1 leading

theorem prefix_number (letter : x = 88 ∨ x = 120) (allowed : base = 0 ∨ base = 16)
    (some' : digitRun 16 tail ≠ []) :
    Longest base (48 :: x :: tail) (48 :: x :: digitRun 16 tail) (valueFrom 16 0 (digitRun 16 tail)) where
  expected := .hexadecimal allowed letter (digitRun_numeral some')
  initial := List.cons_prefix_cons.mpr ⟨rfl, List.cons_prefix_cons.mpr ⟨rfl, List.takeWhile_prefix _⟩⟩
  longest other value expected initial := by
    rw [List.length_cons, List.length_cons]
    rcases expected.prefix_length letter allowed initial with short | ⟨-, short⟩
    · omega
    · omega

/-- A prefix without digits behind it is a zero. -/
theorem prefix_zero (letter : x = 88 ∨ x = 120) (allowed : base = 0 ∨ base = 16) (none : digitRun 16 tail = []) :
    Longest base (48 :: x :: tail) [48] 0 where
  expected := by
    obtain rfl | rfl := allowed
    · exact .octal ⟨List.cons_ne_nil _ _, List.forall_mem_singleton.mpr rfl⟩
    · exact .given (by decide) ⟨List.cons_ne_nil _ _, List.forall_mem_singleton.mpr rfl⟩
  initial := List.cons_prefix_cons.mpr ⟨rfl, List.nil_prefix⟩
  longest other value expected initial :=
    (expected.prefix_length letter allowed initial).resolve_right fun more => more.1 none

theorem hexPrefix_eq (s : Str) : hexPrefix s = true ↔ ∃ x tail, s = 48 :: x :: tail ∧ (x = 88 ∨ x = 120) := by
  constructor
  · intro known
    unfold hexPrefix at known
    split at known
    · next x tail => exact ⟨x, tail, rfl, by simpa using known⟩
    · cases known
  · rintro ⟨x, tail, rfl, letter⟩
    simpa [hexPrefix] using letter

theorem hexPrefix_of_starts {digits : Str} (letter : x = 88 ∨ x = 120) (initial : 48 :: x :: digits <+: u) :
    hexPrefix u = true := by
  obtain ⟨rest, rfl⟩ := initial
  exact (hexPrefix_eq _).mpr ⟨x, digits ++ rest, rfl, letter⟩

theorem head_of_starts {c : UInt8} (initial : c :: tail <+: u) : u.head? = some c := by
  obtain ⟨rest, rfl⟩ := initial
  rfl

/-- Behind a leading zero the digits are octal. -/
theorem plain_octal (leading : u.head? = some 48) (bare : ¬hexPrefix u = true) : Plain 0 8 u := by
  have zero {c : UInt8} {digits : Str} (initial : c :: digits <+: u) : c = 48 :=
    Option.some.inj ((head_of_starts initial).symm.trans leading)
  refine ⟨fun digits initial numeral => ?_, fun other value expected initial => ?_⟩
  · obtain ⟨c, digits, rfl⟩ := List.exists_cons_of_ne_nil numeral.1
    obtain rfl := zero initial
    exact .octal numeral
  · cases expected with
    | given known => exact absurd rfl known
    | hexadecimal _ letter => exact absurd (hexPrefix_of_starts letter initial) bare
    | octal numeral => exact numeral
    | decimal other => exact absurd (zero initial) other

theorem plain_decimal (leading : u.head? ≠ some 48) : Plain 0 10 u := by
  refine ⟨fun digits initial numeral => ?_, fun other value expected initial => ?_⟩
  · obtain ⟨c, digits, rfl⟩ := List.exists_cons_of_ne_nil numeral.1
    refine .decimal ?_ numeral
    rintro rfl
    exact leading (head_of_starts initial)
  · cases expected with
    | given known => exact absurd rfl known
    | hexadecimal => exact absurd (head_of_starts initial) leading
    | octal => exact absurd (head_of_starts initial) leading
    | decimal _ numeral => exact numeral

/-- The base is the one that was asked for. -/
theorem plain_given (known : base ≠ 0) (bare : ¬(hexPrefix u = true ∧ (base = 0 ∨ base = 16))) : Plain base base u := by
  refine ⟨fun digits _ numeral => .given known numeral, fun other value expected initial => ?_⟩
  cases expected with
  | given _ numeral => exact numeral
  | hexadecimal allowed letter => exact absurd ⟨hexPrefix_of_starts letter initial, allowed⟩ bare
  | octal => exact absurd rfl known
  | decimal => exact absurd rfl known

theorem strtolBase_cases (valid : base = 0 ∨ 2 ≤ base ∧ base ≤ 36) (u : Str) :
    (∃ x tail, u = 48 :: x :: tail ∧ (x = 88 ∨ x = 120) ∧ (base = 0 ∨ base = 16) ∧
      strtolBase base u = (16, tail)) ∨
    ∃ radix, 1 ≤ radix ∧ strtolBase base u = (radix, u) ∧ Plain base radix u := by
  by_cases hex : hexPrefix u = true ∧ (base = 0 ∨ base = 16)
  · obtain ⟨x, tail, rfl, letter⟩ := (hexPrefix_eq u).mp hex.1
    refine .inl ⟨x, tail, rfl, letter, hex.2, ?_⟩
    obtain rfl | rfl := hex.2
    · rw [strtolBase, if_neg (by decide), if_pos (by decide), if_pos List.head?_cons, if_pos hex.1]
      rfl
    · rw [strtolBase, if_pos (by decide), if_pos hex.1]
      rfl
  · right
    by_cases zero : base = 0
    · subst zero
      have bare : ¬hexPrefix u = true := fun known => hex ⟨known, .inl rfl⟩
      by_cases leading : u.head? = some 48
      · refine ⟨8, by decide, ?_, plain_octal leading bare⟩
        rw [strtolBase, if_neg (by decide), if_pos (by decide), if_pos leading, if_neg bare]
      · refine ⟨10, by decide, ?_, plain_decimal leading⟩
        rw [strtolBase, if_neg (by decide), if_pos (by decide), if_neg leading]
    · refine ⟨base, by omega, ?_, plain_given zero hex⟩
      have range := valid.resolve_left zero
      have inside : ¬((base : Int) < 0 ∨ (base : Int) = 1 ∨ 36 < (base : Int)) := by omega
      rw [strtolBase]
      by_cases sixteen : base = 16
      · subst sixteen
        rw [if_pos (by decide), if_neg fun known => hex ⟨known, .inr rfl⟩]
      · rw [if_neg (by omega), if_neg (by omega), if_neg inside]
        rfl

end Unsigned

/-! ## The whole text -/

section Whole

variable {base : Nat} {nptr u text : Str}

/-- The text behind white space is a sign and `u`, or `u` without a sign. -/
structure Signed (rest sign u : Str) : Prop where
  whole : rest = sign ++ u
  known : sign = [] ∨ sign = [43] ∨ sign = [45]
  bare : sign = [] → u.head? ≠ some 43 ∧ u.head? ≠ some 45

def withSign (sign : Str) (value : Nat) : Int := if sign = [45] then -value else value

theorem Expected.head {value : Nat} (expected : Expected base text value) :
    text.head? ≠ some 43 ∧ text.head? ≠ some 45 := by
  obtain ⟨c, digits, rfl⟩ := List.exists_cons_of_ne_nil expected.ne_nil
  have digit := expected.digit
  constructor
  · rintro same
    rw [Option.some.inj same] at digit
    cases digit
  · rintro same
    rw [Option.some.inj same] at digit
    cases digit

/-- A subject at the start of a signed text has the same sign. -/
theorem Signed.behind {rest sign : Str} (signed : Signed rest sign u) {other : Str} {value : Int}
    (subject : Subject base other value) (initial : other <+: rest) :
    ∃ body magnitude, other = sign ++ body ∧ Expected base body magnitude ∧ body <+: u := by
  obtain ⟨rfl, known, bare⟩ := signed
  cases subject with
  | unsigned expected =>
      obtain ⟨c, digits, rfl⟩ := List.exists_cons_of_ne_nil expected.ne_nil
      obtain ⟨plus, minus⟩ := expected.head
      obtain rfl | rfl | rfl := known
      · exact ⟨_, _, rfl, expected, initial⟩
      · exact absurd (congrArg some (List.cons_prefix_cons.mp initial).1) plus
      · exact absurd (congrArg some (List.cons_prefix_cons.mp initial).1) minus
  | plus expected =>
      obtain rfl | rfl | rfl := known
      · obtain ⟨behind, rfl⟩ := initial
        exact absurd rfl (bare rfl).1
      · exact ⟨_, _, rfl, expected, (List.cons_prefix_cons.mp initial).2⟩
      · exact absurd (List.cons_prefix_cons.mp initial).1 (by decide)
  | minus expected =>
      obtain rfl | rfl | rfl := known
      · obtain ⟨behind, rfl⟩ := initial
        exact absurd rfl (bare rfl).2
      · exact absurd (List.cons_prefix_cons.mp initial).1 (by decide)
      · exact ⟨_, _, rfl, expected, (List.cons_prefix_cons.mp initial).2⟩

theorem Expected.signed {sign : Str} {value : Nat} (expected : Expected base text value)
    (known : sign = [] ∨ sign = [43] ∨ sign = [45]) : Subject base (sign ++ text) (withSign sign value) := by
  obtain rfl | rfl | rfl := known
  · exact .unsigned expected
  · exact .plus expected
  · exact .minus expected

theorem Longest.converts {sign : Str} {value : Nat} (longest : Longest base u text value)
    (signed : Signed (nptr.dropWhile isWhite) sign u) :
    Converts base nptr
      (clamp (withSign sign value), (nptr.takeWhile isWhite).length + (sign ++ text).length) := by
  refine .number (longest.expected.signed signed.known) ?_ fun other value subject initial => ?_
  · rw [signed.whole]
    exact (List.prefix_append_right_inj sign).mpr longest.initial
  · obtain ⟨body, magnitude, rfl, expected, behind⟩ := signed.behind subject initial
    have length := longest.longest body magnitude expected behind
    rw [List.length_append, List.length_append]
    omega

theorem Signed.nothing {sign : Str} (signed : Signed (nptr.dropWhile isWhite) sign u)
    (none : ∀ other value, Expected base other value → ¬other <+: u) : Converts base nptr (0, 0) := by
  refine .nothing fun other value subject initial => ?_
  obtain ⟨body, magnitude, -, expected, behind⟩ := signed.behind subject initial
  exact none body magnitude expected behind

/-- The end of `strtol`, for the digits that were found behind `save` bytes. -/
def converted (nptr : Str) (negative : Bool) (save i : Nat) (overflow : Bool) (count : Nat) : Int × Nat :=
  if count = 0 then
    if 2 ≤ save ∧ (nptr[save - 1]?).map tolower = some 120 ∧ nptr[save - 2]? = some 48 then (0, save - 1)
    else (0, 0)
  else
    (if overflow then (if negative then -0x80000000 else 0x7FFFFFFF) else if negative then -i else i, save + count)

theorem converted_number {sign : Str} {value count save j : Nat} (some' : count ≠ 0)
    (fits : value ≤ 0x7FFFFFFF → j = value) :
    converted nptr (sign = [45]) save j (decide (0x7FFFFFFF < value)) count =
      (clamp (withSign sign value), save + count) := by
  rw [converted, if_neg some', Prod.mk.injEq]
  refine ⟨?_, rfl⟩
  rw [clamp, withSign]
  by_cases large : 0x7FFFFFFF < value
  · rw [if_pos (decide_eq_true large)]
    by_cases minus : sign = [45]
    · rw [if_pos (decide_eq_true minus), if_pos minus]
      omega
    · rw [if_neg (by simpa using minus), if_neg minus]
      omega
  · rw [decide_eq_false large, if_neg Bool.false_ne_true, fits (Nat.not_lt.mp large)]
    by_cases minus : sign = [45]
    · rw [if_pos (decide_eq_true minus), if_pos minus]
      omega
    · rw [if_neg (by simpa using minus), if_neg minus]
      omega

/-- Nothing but white space and a sign stands in front of the end. -/
theorem converted_nothing {blanks : Str} {negative overflow : Bool} {i : Nat} (low : ∀ c ∈ blanks, c ≤ 45) :
    converted (blanks ++ u) negative blanks.length i overflow 0 = (0, 0) := by
  rw [converted, if_pos rfl, if_neg]
  rintro ⟨some', last, -⟩
  have inside : blanks.length - 1 < blanks.length := by omega
  rw [List.getElem?_append_left inside, List.getElem?_eq_getElem inside, Option.map_some, Option.some.injEq] at last
  have small := low _ (List.getElem_mem inside)
  rw [tolower, if_neg] at last
  · rw [last] at small
    exact absurd small (by decide)
  · exact fun upper => absurd (UInt8.le_trans upper.1 small) (by decide)

/-- The end is the `x` of a prefix. -/
theorem converted_zero {blanks : Str} {x : UInt8} (letter : x = 88 ∨ x = 120) {negative overflow : Bool} {i : Nat} :
    converted (blanks ++ 48 :: x :: u) negative (blanks.length + 2) i overflow 0 = (0, blanks.length + 1) := by
  have lower : tolower x = 120 := by
    obtain rfl | rfl := letter
    · rfl
    · rfl
  have first : (blanks ++ 48 :: x :: u)[blanks.length + 2 - 2]? = some 48 := by
    rw [Nat.add_sub_cancel, List.getElem?_append_right (Nat.le_refl _), Nat.sub_self]
    rfl
  have second : (blanks ++ 48 :: x :: u)[blanks.length + 2 - 1]? = some x := by
    rw [Nat.add_sub_assoc (by decide), List.getElem?_append_right (Nat.le_add_right _ _), Nat.add_sub_cancel_left]
    rfl
  rw [converted, if_pos rfl, first, second, Option.map_some, lower, if_pos ⟨Nat.le_add_left _ _, rfl, rfl⟩]
  rfl

theorem strtol_signed {blanks sign s : Str} {base : Int} {radix i count : Nat} {overflow : Bool}
    (white : ∀ c ∈ blanks, c ≤ 32) (black : ∀ c ∈ (sign ++ u).head?, ¬c ≤ 32) (some' : sign ++ u ≠ [])
    (signed : Signed (sign ++ u) sign u) (based : strtolBase base u = (radix, s))
    (digits : strtolDigits radix s 0 false 0 = (i, overflow, count)) :
    strtol (blanks ++ (sign ++ u)) base =
      converted (blanks ++ (sign ++ u)) (sign = [45]) ((blanks ++ (sign ++ u)).length - s.length) i overflow count := by
  obtain ⟨c, behind, first⟩ := List.exists_cons_of_ne_nil some'
  have skipped : (blanks ++ (sign ++ u)).dropWhile (· ≤ 32) = c :: behind := by
    rw [List.dropWhile_append_of_pos fun b member => decide_eq_true (white b member), first,
      List.dropWhile_cons_of_neg]
    exact fun isWhite => black c (by rw [first]; rfl) (of_decide_eq_true isWhite)
  have shape : (c == 45) = decide (sign = [45]) ∧ (if c = 45 ∨ c = 43 then behind else c :: behind) = u := by
    obtain rfl | rfl | rfl := signed.known
    · rw [List.nil_append] at first
      obtain ⟨plus, minus⟩ := signed.bare rfl
      rw [first, List.head?_cons] at plus minus
      have notPlus : c ≠ 43 := fun same => plus (congrArg some same)
      have notMinus : c ≠ 45 := fun same => minus (congrArg some same)
      exact ⟨by simp [notMinus], by rw [if_neg (by simp [notMinus, notPlus]), first]⟩
    · obtain ⟨rfl, rfl⟩ := List.cons.inj first
      exact ⟨by decide, if_pos (.inr rfl)⟩
    · obtain ⟨rfl, rfl⟩ := List.cons.inj first
      exact ⟨by decide, if_pos (.inl rfl)⟩
  obtain ⟨negative, unsigned⟩ := shape
  unfold strtol
  simp only [skipped, negative, unsigned, based, digits]
  rfl

theorem signed_exists (rest : Str) : ∃ sign u, Signed rest sign u := by
  cases rest with
  | nil => exact ⟨[], [], rfl, .inl rfl, fun _ => ⟨nofun, nofun⟩⟩
  | cons c rest =>
      by_cases plus : c = 43
      · exact ⟨[43], rest, by rw [plus]; rfl, .inr (.inl rfl), nofun⟩
      · by_cases minus : c = 45
        · exact ⟨[45], rest, by rw [minus]; rfl, .inr (.inr rfl), nofun⟩
        · exact ⟨[], c :: rest, rfl, .inl rfl, fun _ => ⟨fun same => plus (Option.some.inj same),
            fun same => minus (Option.some.inj same)⟩⟩

theorem strtol_blank {blanks : Str} (white : ∀ c ∈ blanks, c ≤ 32) (base : Int) : strtol blanks base = (0, 0) := by
  have skipped : blanks.dropWhile (· ≤ 32) = [] :=
    List.dropWhile_eq_nil_iff.mpr fun c member => decide_eq_true (white c member)
  unfold strtol
  simp only [skipped]

/-- Behind a prefix there are digits, or the number is its zero. -/
theorem strtol_prefixed {blanks sign tail : Str} {x : UInt8} (starts : nptr.takeWhile isWhite = blanks)
    (signed : Signed (nptr.dropWhile isWhite) sign (48 :: x :: tail)) (white : ∀ c ∈ blanks, c ≤ 32)
    (black : ∀ c ∈ (sign ++ 48 :: x :: tail).head?, ¬c ≤ 32) (letter : x = 88 ∨ x = 120)
    (allowed : base = 0 ∨ base = 16) (based : strtolBase base (48 :: x :: tail) = (16, tail)) :
    Converts base nptr (strtol (blanks ++ (sign ++ 48 :: x :: tail)) base) := by
  obtain ⟨i, digits, fits⟩ := strtolDigits_run (show 1 ≤ 16 by decide) tail (Nat.zero_le _) 0
  have run := strtol_signed white black (List.append_ne_nil_of_right_ne_nil sign (List.cons_ne_nil _ _))
    ⟨rfl, signed.known, signed.bare⟩ based digits
  have save : (blanks ++ (sign ++ 48 :: x :: tail)).length - tail.length = (blanks ++ sign).length + 2 := by
    simp only [List.length_append, List.length_cons]
    omega
  rw [run, save, Nat.zero_add]
  by_cases none : digitRun 16 tail = []
  · have number := (prefix_zero letter allowed none).converts signed
    have zero : clamp (withSign sign 0) = 0 := by
      rw [withSign]
      split
      · decide
      · decide
    rw [none, List.length_nil, ← List.append_assoc, converted_zero letter]
    rwa [zero, starts, ← List.length_append, ← List.append_assoc, List.length_append,
      List.length_singleton] at number
  · have number := (prefix_number letter allowed none).converts signed
    have count : (digitRun 16 tail).length ≠ 0 := fun zero => none (List.length_eq_zero_iff.mp zero)
    have place : (blanks ++ sign).length + 2 + (digitRun 16 tail).length =
        blanks.length + (sign ++ 48 :: x :: digitRun 16 tail).length := by
      simp only [List.length_append, List.length_cons]
      omega
    rw [converted_number count fits, place]
    rwa [starts] at number

/-- Without a prefix there are digits, or there is no number. -/
theorem strtol_plain {blanks sign : Str} {radix : Nat} (starts : nptr.takeWhile isWhite = blanks)
    (signed : Signed (nptr.dropWhile isWhite) sign u) (white : ∀ c ∈ blanks, c ≤ 32)
    (black : ∀ c ∈ (sign ++ u).head?, ¬c ≤ 32) (some' : sign ++ u ≠ []) (positive : 1 ≤ radix)
    (based : strtolBase base u = (radix, u)) (plain : Plain base radix u) :
    Converts base nptr (strtol (blanks ++ (sign ++ u)) base) := by
  have low : ∀ c ∈ blanks ++ sign, c ≤ 45 := by
    intro c member
    obtain blank | mark := List.mem_append.mp member
    · exact UInt8.le_trans (white c blank) (by decide)
    · obtain rfl | rfl | rfl := signed.known
      · cases mark
      · rw [List.mem_singleton.mp mark]
        decide
      · rw [List.mem_singleton.mp mark]
        decide
  obtain ⟨i, digits, fits⟩ := strtolDigits_run positive u (Nat.zero_le _) 0
  have run := strtol_signed white black some' ⟨rfl, signed.known, signed.bare⟩ based digits
  have save : (blanks ++ (sign ++ u)).length - u.length = (blanks ++ sign).length := by
    simp only [List.length_append]
    omega
  rw [run, save, Nat.zero_add]
  by_cases none : digitRun radix u = []
  · rw [none, List.length_nil, ← List.append_assoc, converted_nothing low]
    exact signed.nothing (plain.nothing none)
  · have number := (plain.number none).converts signed
    have count : (digitRun radix u).length ≠ 0 := fun zero => none (List.length_eq_zero_iff.mp zero)
    have place : (blanks ++ sign).length + (digitRun radix u).length =
        blanks.length + (sign ++ digitRun radix u).length := by
      simp only [List.length_append]
      omega
    rw [converted_number count fits, place]
    rwa [starts] at number

theorem strtol_converts (noNul : 0 ∉ nptr) (valid : base = 0 ∨ 2 ≤ base ∧ base ≤ 36) :
    Converts base nptr (strtol nptr base) := by
  obtain ⟨sign, u, signed⟩ := signed_exists (nptr.dropWhile isWhite)
  have white : ∀ c ∈ nptr.takeWhile isWhite, c ≤ 32 := by
    intro c member
    have known : isWhite c = true := List.mem_takeWhile_imp member
    exact (of_decide_eq_true known).2
  by_cases none : sign ++ u = []
  · have blank : nptr.takeWhile isWhite = nptr := by
      have rest : nptr.dropWhile isWhite = [] := signed.whole.trans none
      rw [← List.append_nil (nptr.takeWhile isWhite), ← rest, List.takeWhile_append_dropWhile]
    rw [blank] at white
    rw [strtol_blank white]
    refine signed.nothing fun other value expected initial => expected.ne_nil ?_
    rw [(List.append_eq_nil_iff.mp none).2] at initial
    exact List.prefix_nil.mp initial
  · have black : ∀ c ∈ (sign ++ u).head?, ¬c ≤ 32 := by
      intro c first blank
      rw [← signed.whole, Option.mem_def] at first
      have member : c ∈ nptr := (List.dropWhile_suffix _).subset (List.mem_of_mem_head? first)
      have nonzero : c ≠ 0 := fun zero => noNul (zero ▸ member)
      have black := List.head?_dropWhile_not isWhite nptr
      rw [first] at black
      exact Bool.eq_false_iff.mp black (decide_eq_true ⟨UInt8.pos_iff_ne_zero.mpr nonzero, blank⟩)
    have whole : strtol nptr base = strtol (nptr.takeWhile isWhite ++ (sign ++ u)) base := by
      rw [← signed.whole, List.takeWhile_append_dropWhile]
    rw [whole]
    rcases strtolBase_cases valid u with ⟨x, tail, rfl, letter, allowed, based⟩ | ⟨radix, positive, based, plain⟩
    · exact strtol_prefixed rfl signed white black letter allowed based
    · exact strtol_plain rfl signed white black none positive based plain

/-- `strtol` is the conversion of the standard. -/
theorem strtol_standard (noNul : 0 ∉ nptr) (valid : base = 0 ∨ 2 ≤ base ∧ base ≤ 36) (result : Int × Nat) :
    Converts base nptr result ↔ strtol nptr base = result := by
  constructor
  · exact (strtol_converts noNul valid).unique
  · rintro rfl
    exact strtol_converts noNul valid

theorem strtol_standard_octal : Converts 0 (str " -017x") (-15, 5) :=
  (strtol_standard (by decide) (.inl rfl) (-15, 5)).mpr (by decide)

end Whole

end IQuik.Data
