import IQuik.Loader.LoadPaths
import Mathlib.Data.Nat.Digits.Lemmas

namespace IQuik.Loader

open IQuik.Data

/-! # Printing: `printf.c`

What is printed is the list of the characters that `putchar` is given. `none`
stands for no defined behaviour. -/

/-- The texts of `QUIK_ERR_LIST`, by the number of the code. -/
def errors : List Str := List.map str
  ["no error", "operation should be retried", "malloc claim failed", "no OF /chosen",
   "no OF /memory", "no OF /options", "no OF /openprom", "no OF /", "cannot open device",
   "short read on device", "partitioning not macintosh", "partitioning not dos",
   "invalid disk partitioning", "partition not found", "access beyond partition size",
   "cannot open volume as file system", "bad path", "file not found", "not a directory",
   "not a regular file", "FS is not ext2", "FS is corrupted", "symlink loop detected",
   "invalid kernel image", "invalid kernel architecture", "not a loadable image",
   "kernel returned", "pre-2.4 kernel too large ", "malloc failed", "no configuration file found",
   "bad default device path", "bad current device path", "no boot-file set by preboot script",
   "unknown command", "invalid parameters", "invalid error, likely a bug"]

def errInvalid : Nat := 35

def printks (s : Option Str) : Str := s.getD (str "<NULL>")

def printkr (err : Nat) : Option Str :=
  (if err < errInvalid then errors[err]? else errors[errInvalid]?).map fun text => printks (some text)

def digitChars : Str := str "0123456789ABCDEF"

/-- The first loop of `printknu` and of `printkns`: the digits from the last one
on. `room` cells of `prbuf` are left. -/
def storeDigits (b : Nat) : (room n : Nat) → Option Str
  | 0, _ => none
  | room + 1, n => do
      let digit ← digitChars[n % b]?
      let n := n / b &&& 0x0FFFFFFF
      if n ≠ 0 then (storeDigits b room n).map (digit :: ·) else some [digit]

def prbufSize : Nat := 24

/-- `printknu`: the digits are printed backwards. -/
def printknu (n b : Nat) : Option Str := (storeDigits b prbufSize n).map List.reverse

/-- `printkns`; the least `long` has no negative. -/
def printkns (n : Int) (b : Nat) : Option Str :=
  if n < 0 then
    if n = -0x80000000 then none
    else (storeDigits b prbufSize (-n).toNat).map fun prbuf => 45 :: prbuf.reverse
  else (storeDigits b prbufSize n.toNat).map List.reverse

/-- `printkp`. Behind `<NULL>`, the fields of no path are printed. -/
def printkp (path : Option FsPath) : Option Str := do
  let path ← path
  let part ← printknu path.part 10
  some (printks path.device ++ [58] ++ part ++ printks (some path.path))

/-- An argument of `vprintk`. -/
inductive Arg where
  | word (n : Nat)
  | text (s : Option Str)
  | fsPath (path : Option FsPath)

def Arg.word? : Arg → Option Nat
  | .word n => some n
  | _ => none

def Arg.text? : Arg → Option (Option Str)
  | .text s => some s
  | _ => none

def Arg.fsPath? : Arg → Option (Option FsPath)
  | .fsPath path => some path
  | _ => none

def signedWord (n : Nat) : Int := if n < 0x80000000 then n else n - 0x100000000

/-- One conversion, with the arguments behind it. -/
def convert (c : UInt8) (args : List Arg) : Option (Str × List Arg) :=
  if c = 117 ∨ c = 111 ∨ c = 120 ∨ c = 88 then do
    let n ← args.head?.bind Arg.word?
    let text ← printknu n (if c = 111 then 8 else if c = 117 then 10 else 16)
    some (text, args.tail)
  else if c = 105 ∨ c = 100 then do
    let n ← args.head?.bind Arg.word?
    let text ← printkns (signedWord n) 10
    some (text, args.tail)
  else if c = 99 then do
    let n ← args.head?.bind Arg.word?
    some ([(n % 256).toUInt8], args.tail)
  else if c = 115 then do
    let s ← args.head?.bind Arg.text?
    some (printks s, args.tail)
  else if c = 114 then do
    let err ← args.head?.bind Arg.word?
    let text ← printkr err
    some (text, args.tail)
  else if c = 80 then do
    let path ← args.head?.bind Arg.fsPath?
    let text ← printkp path
    some (text, args.tail)
  else if c = 112 then do
    let s ← args.head?.bind Arg.word?
    if s ≠ 0 then do
      let text ← printknu s 16
      some (str "0x" ++ text, args.tail)
    else some (printks none, args.tail)
  else some ([], args)

/-- `vprintk`. A NUL is printed at the end of the format; behind a last `%`, the
format is read past its end. -/
def vprintk : (fmt : Str) → (args : List Arg) → Option Str
  | [], _ => some [0]
  | 37 :: c :: fmt, args => do
      let (text, args) ← convert c args
      let rest ← vprintk fmt args
      some (text ++ rest)
  | [37], _ => none
  | c :: fmt, args => (vprintk fmt args).map (c :: ·)

/-! ## Numbers -/

/-- The digits of a number without leading zeros. -/
def numeral (b n : Nat) : Str :=
  if n = 0 then [48] else ((Nat.digits b n).map fun digit => digitChars.getD digit 0).reverse

/-- The decimal number, with a sign in front of a negative one. -/
def signedNumeral (n : Int) : Str := if n < 0 then 45 :: numeral 10 n.natAbs else numeral 10 n.natAbs

section Digits

variable {b n : Nat}

theorem digitChar_at {digit : Nat} (below : digit < 16) : digitChars[digit]? = some (digitChars.getD digit 0) := by
  have inside : digit < digitChars.length := below
  rw [List.getElem?_eq_getElem inside, List.getD_eq_getElem?_getD, List.getElem?_eq_getElem inside,
    Option.getD_some]

theorem mask_eq (n : Nat) : n &&& 0x0FFFFFFF = n % 2 ^ 28 := Nat.and_two_pow_sub_one_eq_mod n 28

theorem numeral_step (low : 2 ≤ b) (n : Nat) :
    numeral b n = (if n / b = 0 then [] else numeral b (n / b)) ++ [digitChars.getD (n % b) 0] := by
  by_cases zero : n = 0
  · subst zero
    rw [Nat.zero_div, if_pos rfl, Nat.zero_mod]
    rfl
  · have digits : Nat.digits b n = n % b :: Nat.digits b (n / b) :=
      Nat.digits_def' low (Nat.pos_of_ne_zero zero)
    rw [numeral, if_neg zero, digits, List.map_cons, List.reverse_cons]
    split
    · next short => rw [short, Nat.digits_zero, List.map_nil, List.reverse_nil]
    · next long => rw [numeral, if_neg long]

/-- The digits that are stored are those of the number, without what the mask
takes off. -/
theorem storeDigits_eq (low : 2 ≤ b) (high : b ≤ 16) {room : Nat} (enough : n % (b * 2 ^ 28) < b ^ (room + 1)) :
    storeDigits b (room + 1) n = some (numeral b (n % (b * 2 ^ 28))).reverse := by
  induction room generalizing n with
  | zero =>
      have digit : n % b < b := Nat.mod_lt n (by omega)
      have quotient : n % (b * 2 ^ 28) / b = n / b % 2 ^ 28 := Nat.mod_mul_right_div_self n b (2 ^ 28)
      have short : n / b % 2 ^ 28 = 0 := by
        rw [← quotient]
        exact Nat.div_eq_of_lt (by simpa using enough)
      rw [storeDigits, digitChar_at (Nat.lt_of_lt_of_le digit high), Option.bind_eq_bind, Option.bind_some,
        mask_eq, short, if_neg (not_not_intro rfl), numeral_step low, quotient, if_pos short,
        Nat.mod_mul_right_mod]
      rfl
  | succ room ih =>
      have digit : n % b < b := Nat.mod_lt n (by omega)
      have quotient : n % (b * 2 ^ 28) / b = n / b % 2 ^ 28 := Nat.mod_mul_right_div_self n b (2 ^ 28)
      rw [storeDigits, digitChar_at (Nat.lt_of_lt_of_le digit high), Option.bind_eq_bind, Option.bind_some,
        mask_eq, numeral_step low, quotient, Nat.mod_mul_right_mod]
      by_cases short : n / b % 2 ^ 28 = 0
      · rw [if_neg (not_not_intro short), if_pos short]
        rfl
      · have masked : n / b % 2 ^ 28 < 2 ^ 28 := Nat.mod_lt _ (by decide)
        have whole : n / b % 2 ^ 28 % (b * 2 ^ 28) = n / b % 2 ^ 28 :=
          Nat.mod_eq_of_lt (Nat.lt_of_lt_of_le masked (Nat.le_mul_of_pos_left _ (by omega)))
        have fits : n / b % 2 ^ 28 % (b * 2 ^ 28) < b ^ (room + 1) := by
          rw [whole, ← quotient]
          exact Nat.div_lt_of_lt_mul (by rwa [← Nat.pow_succ'])
        rw [if_pos short, if_neg short, ih fits, whole, Option.map_some, List.reverse_append]
        rfl

theorem prbuf_enough (low : 8 ≤ b) (high : b ≤ 16) (n : Nat) : n % (b * 2 ^ 28) < b ^ 24 := by
  have below : n % (b * 2 ^ 28) < b * 2 ^ 28 := Nat.mod_lt n (by omega)
  have wide : 8 ^ 24 ≤ b ^ 24 := Nat.pow_le_pow_left low 24
  have room : (16 * 2 ^ 28 : Nat) ≤ 8 ^ 24 := by decide
  omega

theorem printknu_eq (low : 8 ≤ b) (high : b ≤ 16) (n : Nat) :
    printknu n b = some (numeral b (n % (b * 2 ^ 28))) := by
  rw [printknu, show prbufSize = 23 + 1 from rfl,
    storeDigits_eq (Nat.le_trans (by decide) low) high (prbuf_enough low high n), Option.map_some,
    List.reverse_reverse]

theorem digitChar_inj {m n : Nat} (mBelow : m < 16) (nBelow : n < 16)
    (same : digitChars.getD m 0 = digitChars.getD n 0) : m = n := by
  have chars : (digitChars : List UInt8).Nodup := by decide
  rw [List.getD_eq_getElem?_getD, List.getD_eq_getElem?_getD,
    List.getElem?_eq_getElem (show m < digitChars.length from mBelow),
    List.getElem?_eq_getElem (show n < digitChars.length from nBelow)] at same
  exact (chars.getElem_inj_iff).mp same

theorem numeral_ne_nil (low : 2 ≤ b) (n : Nat) : numeral b n ≠ [] := by
  rw [numeral_step low]
  exact List.append_ne_nil_of_right_ne_nil _ (List.cons_ne_nil _ _)

theorem numeral_inj (low : 2 ≤ b) (high : b ≤ 16) {m n : Nat} (same : numeral b m = numeral b n) : m = n := by
  induction m using Nat.strong_induction_on generalizing n with
  | _ m ih =>
      rw [numeral_step low m, numeral_step low n] at same
      obtain ⟨front, last⟩ := List.append_inj' same rfl
      have mDigit : m % b < b := Nat.mod_lt m (by omega)
      have nDigit : n % b < b := Nat.mod_lt n (by omega)
      have digits : m % b = n % b :=
        digitChar_inj (by omega) (by omega) (List.singleton_inj.mp last)
      have quotients : m / b = n / b := by
        by_cases mShort : m / b = 0
        · by_cases nShort : n / b = 0
          · rw [mShort, nShort]
          · rw [if_pos mShort, if_neg nShort] at front
            exact absurd front.symm (numeral_ne_nil low _)
        · have less : m / b < m := Nat.div_lt_self (Nat.pos_of_ne_zero fun zero => mShort (by simp [zero])) low
          by_cases nShort : n / b = 0
          · rw [if_neg mShort, if_pos nShort] at front
            exact absurd front (numeral_ne_nil low _)
          · rw [if_neg mShort, if_neg nShort] at front
            exact ih _ less front
      rw [← Nat.div_add_mod m b, ← Nat.div_add_mod n b, quotients, digits]

theorem minus_not_mem (b n : Nat) : 45 ∉ numeral b n := by
  intro minus
  have digits : ∀ digit, digitChars.getD digit 0 ≠ 45 := by
    intro digit
    by_cases below : digit < digitChars.length
    · rw [List.getD_eq_getElem?_getD, List.getElem?_eq_getElem below, Option.getD_some]
      have none : (45 : UInt8) ∉ (digitChars : List UInt8) := by decide
      exact fun minus => none (minus ▸ List.getElem_mem below)
    · rw [List.getD_eq_getElem?_getD, List.getElem?_eq_none (Nat.not_lt.mp below)]
      decide
  rw [numeral] at minus
  split at minus
  · exact absurd minus (by decide)
  · obtain ⟨digit, -, same⟩ := List.mem_map.mp (List.mem_reverse.mp minus)
    exact digits digit same

/-- A number is printed as it is when the mask takes nothing off. -/
theorem printknu_faithful_iff (low : 8 ≤ b) (high : b ≤ 16) (n : Nat) :
    printknu n b = some (numeral b n) ↔ n / b < 2 ^ 28 := by
  have masked : n % (b * 2 ^ 28) = n ↔ n / b < 2 ^ 28 := by
    rw [Nat.mod_eq_iff_lt (by omega), Nat.div_lt_iff_lt_mul (by omega), Nat.mul_comm]
  rw [printknu_eq low high, ← masked]
  constructor
  · intro same
    exact numeral_inj (Nat.le_trans (by decide) low) high (Option.some.inj same)
  · intro whole
    rw [whole]

theorem printkns_eq (low : 8 ≤ b) (high : b ≤ 16) {n : Int} (least : n ≠ -0x80000000) :
    printkns n b =
      if n < 0 then some (45 :: numeral b (n.natAbs % (b * 2 ^ 28)))
      else some (numeral b (n.natAbs % (b * 2 ^ 28))) := by
  have stored (m : Nat) : storeDigits b prbufSize m = some (numeral b (m % (b * 2 ^ 28))).reverse :=
    storeDigits_eq (Nat.le_trans (by decide) low) high (prbuf_enough low high m)
  rw [printkns]
  by_cases negative : n < 0
  · have magnitude : (-n).toNat = n.natAbs := by omega
    rw [if_pos negative, if_neg least, if_pos negative, magnitude, stored, Option.map_some, List.reverse_reverse]
  · have magnitude : n.toNat = n.natAbs := by omega
    rw [if_neg negative, if_neg negative, magnitude, stored, Option.map_some, List.reverse_reverse]

/-- A `long` that is not the least one is printed as it is in decimal. -/
theorem printkns_faithful_iff {n : Int} (low : -0x80000000 ≤ n) (high : n < 0x80000000) :
    printkns n 10 = some (signedNumeral n) ↔ n ≠ -0x80000000 := by
  constructor
  · rintro faithful rfl
    cases faithful
  · intro least
    have whole : n.natAbs % (10 * 2 ^ 28) = n.natAbs := Nat.mod_eq_of_lt (by omega)
    rw [printkns_eq (by decide) (by decide) least, whole, signedNumeral]
    split
    · rfl
    · rfl

theorem signedNumeral_inj {m n : Int} (same : signedNumeral m = signedNumeral n) : m = n := by
  have sign {m n : Int} (positive : 0 ≤ n) : 45 :: numeral 10 m.natAbs ≠ numeral 10 n.natAbs := by
    intro same
    exact minus_not_mem 10 n.natAbs (same ▸ List.mem_cons_self)
  have magnitude {m n : Int} (digits : numeral 10 m.natAbs = numeral 10 n.natAbs) : m.natAbs = n.natAbs :=
    numeral_inj (by decide) (by decide) digits
  rw [signedNumeral, signedNumeral] at same
  by_cases mNegative : m < 0
  · by_cases nNegative : n < 0
    · rw [if_pos mNegative, if_pos nNegative] at same
      have := magnitude (List.cons.inj same).2
      omega
    · rw [if_pos mNegative, if_neg nNegative] at same
      exact absurd same (sign (Int.not_lt.mp nNegative))
  · by_cases nNegative : n < 0
    · rw [if_neg mNegative, if_pos nNegative] at same
      exact absurd same.symm (sign (Int.not_lt.mp mNegative))
    · rw [if_neg mNegative, if_neg nNegative] at same
      have := magnitude same
      omega

/-- The digits are those of the number, and two numbers of which this holds are
never printed alike. -/
theorem numbers_faithful_iff (base : b = 8 ∨ b = 10 ∨ b = 16) :
    (∀ n < 0x100000000, printknu n b = some (numeral b n) ↔ n / b < 2 ^ 28) ∧
    (∀ m n, m / b < 2 ^ 28 → n / b < 2 ^ 28 → printknu m b = printknu n b → m = n) ∧
    (∀ n : Int, -0x80000000 ≤ n → n < 0x80000000 →
      (printkns n 10 = some (signedNumeral n) ↔ n ≠ -0x80000000)) ∧
    ∀ m n : Int, -0x80000000 < m → m < 0x80000000 → -0x80000000 < n → n < 0x80000000 →
      printkns m 10 = printkns n 10 → m = n := by
  have low : 8 ≤ b := by omega
  have high : b ≤ 16 := by omega
  refine ⟨fun n _ => printknu_faithful_iff low high n, fun m n mWhole nWhole same => ?_,
    fun n least most => printkns_faithful_iff least most, fun m n mLeast mMost nLeast nMost same => ?_⟩
  · rw [(printknu_faithful_iff low high m).mpr mWhole, (printknu_faithful_iff low high n).mpr nWhole] at same
    exact numeral_inj (Nat.le_trans (by decide) low) high (Option.some.inj same)
  · rw [(printkns_faithful_iff (Int.le_of_lt mLeast) mMost).mpr (Int.ne_of_gt mLeast),
      (printkns_faithful_iff (Int.le_of_lt nLeast) nMost).mpr (Int.ne_of_gt nLeast)] at same
    exact signedNumeral_inj (Option.some.inj same)

theorem numbers_faithful_decimal :
    printknu 2684354559 10 = some (numeral 10 2684354559) ∧ printkns (-1) 10 = some (signedNumeral (-1)) :=
  have decimal := numbers_faithful_iff (b := 10) (.inr (.inl rfl))
  ⟨(decimal.1 2684354559 (by decide)).mpr (by decide),
    (decimal.2.2.1 (-1) (by decide) (by decide)).mpr (by decide)⟩

/-- A size of 2.5 GB is printed as nothing. -/
theorem sizes_alike :
    printknu 0xA0000000 10 = some (str "0") ∧ printknu 0 10 = some (str "0") ∧
      printknu 0xA0000000 10 ≠ some (numeral 10 0xA0000000) := by
  refine ⟨rfl, rfl, fun faithful => ?_⟩
  exact absurd ((printknu_faithful_iff (by decide) (by decide) _).mp faithful) (by decide)

end Digits

end IQuik.Loader
