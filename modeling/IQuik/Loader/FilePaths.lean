import IQuik.Data.Conversion
import IQuik.Loader.Printing
import IQuik.Memory.Heap

namespace IQuik.Loader

open IQuik.Data IQuik.Program IQuik.Memory

/-! # `file_path` and the heap -/

/-- The heap with its blocks, and the `*path` of the caller. -/
structure PathState where
  session : Session
  path : Option FsPath

abbrev PathProg := Prog QuikErr PathState

/-- `malloc (size)`. -/
def mallocBlock (size : UInt32) : PathProg (Option Block) := fun state =>
  .ok (state.session.returned (.malloc size)) { state with session := state.session.after (.malloc size) }

/-- `free (p)`. -/
def freeBlock (p : Block) : PathProg Unit :=
  Prog.update fun state => { state with session := state.session.after (.free p) }

/-- `slen + sizeof(path_t)`. -/
def pathSize (pathspec : Str) : UInt32 := (pathspec.length + 1 + 12).toUInt32

def badPath (p : Block) : PathProg Unit := do
  freeBlock p
  Prog.fail .fsPath

/-- The end of `file_path`: `*path = p`, unless the path starts wrongly. -/
def storePath (p : Block) (device : Option Str) (part : Nat) (path : Str) : PathProg Unit :=
  if path.head? = some 47 then
    Prog.update fun state => { state with path := some { device := device, part := part, path := path } }
  else if path = [] then
    Prog.update fun state => { state with path := some { device := device, part := part, path := str "/" } }
  else badPath p

/-- `file_path` behind its `malloc`, on the copy of the string. -/
def splitPath (p : Block) (pathspec : Str) (defaultDev : EnvDev) : PathProg Unit :=
  if 58 ∈ pathspec then
    let device := pathspec.takeWhile (· ≠ 58)
    let text := afterColon pathspec
    if device = [] then badPath p
    else
      let n := strtol text 0
      if n.2 = 0 then badPath p
      else storePath p (some device) (unsigned n.1) (text.drop n.2)
  else if defaultDev.isValid then storePath p defaultDev.device defaultDev.part pathspec
  else Prog.fail .envCurrentBad

/-- `file_path` with the heap that it uses. -/
def filePathHeap (pathspec : Str) (defaultDev : EnvDev) : PathProg Unit := do
  let p ← mallocBlock (pathSize pathspec)
  match p with
  | none => Prog.fail .noMem
  | some p => splitPath p (chomp pathspec) defaultDev

/-- With no colon, the default device is needed. -/
def NeedsDefault (pathspec : Str) (defaultDev : EnvDev) : Prop :=
  58 ∉ chomp pathspec ∧ defaultDev.isValid = false

section Calls

variable {pathspec : Str} {defaultDev : EnvDev} {state after : PathState} {code : QuikErr}

theorem storePath_cases (state : PathState) (p : Block) (device : Option Str) (part : Nat) (path : Str) (bi : BootInfo) :
    (∃ found, storePath p device part path state = .ok () { state with path := some found } ∧
      fsPath device part path bi = .ok found bi) ∨
    (storePath p device part path state = .error .fsPath { state with session := state.session.after (.free p) } ∧
      fsPath device part path bi = .error .fsPath bi) := by
  rw [storePath, fsPath]
  by_cases slash : path.head? = some 47
  · rw [if_pos slash, if_pos slash]
    exact .inl ⟨_, rfl, rfl⟩
  · rw [if_neg slash, if_neg slash]
    by_cases leftOut : path = []
    · rw [if_pos leftOut, if_pos leftOut]
      exact .inl ⟨_, rfl, rfl⟩
    · rw [if_neg leftOut, if_neg leftOut]
      exact .inr ⟨rfl, rfl⟩

/-- What becomes of the block, next to what `file_path` returns. -/
theorem splitPath_cases (p : Block) (pathspec : Str) (defaultDev : EnvDev) (state : PathState) (bi : BootInfo) :
    (∃ found, splitPath p (chomp pathspec) defaultDev state = .ok () { state with path := some found } ∧
      filePath pathspec defaultDev true bi = .ok found bi) ∨
    (¬NeedsDefault pathspec defaultDev ∧
      splitPath p (chomp pathspec) defaultDev state =
        .error .fsPath { state with session := state.session.after (.free p) } ∧
      filePath pathspec defaultDev true bi = .error .fsPath bi) ∨
    (NeedsDefault pathspec defaultDev ∧
      splitPath p (chomp pathspec) defaultDev state = .error .envCurrentBad state ∧
      filePath pathspec defaultDev true bi = .error .envCurrentBad bi) := by
  have stored {device : Option Str} {part : Nat} {path : Str} (other : ¬NeedsDefault pathspec defaultDev) :=
    (storePath_cases state p device part path bi).imp_right (And.intro other)
  rw [splitPath, filePath, if_pos rfl]
  by_cases colon : 58 ∈ chomp pathspec
  · have other : ¬NeedsDefault pathspec defaultDev := fun needs => needs.1 colon
    simp only [if_pos colon]
    by_cases device : (chomp pathspec).takeWhile (· ≠ 58) = []
    · rw [if_pos device, if_pos device]
      exact .inr (.inl ⟨other, rfl, rfl⟩)
    · rw [if_neg device, if_neg device]
      by_cases part : (strtol (afterColon (chomp pathspec)) 0).2 = 0
      · rw [if_pos part, if_pos part]
        exact .inr (.inl ⟨other, rfl, rfl⟩)
      · rw [if_neg part, if_neg part]
        exact (stored other).imp_right .inl
  · simp only [if_neg colon]
    cases valid : defaultDev.isValid with
    | true =>
        rw [if_pos rfl, if_pos rfl]
        exact (stored fun needs => Bool.noConfusion (valid.symm.trans needs.2)).imp_right .inl
    | false =>
        rw [if_neg Bool.false_ne_true, if_neg Bool.false_ne_true]
        exact .inr (.inr ⟨⟨colon, valid⟩, rfl, rfl⟩)

theorem filePathHeap_refused (refused : state.session.returned (.malloc (pathSize pathspec)) = none) :
    filePathHeap pathspec defaultDev state =
      .error .noMem { state with session := state.session.after (.malloc (pathSize pathspec)) } := by
  have run : mallocBlock (pathSize pathspec) state =
      .ok none { state with session := state.session.after (.malloc (pathSize pathspec)) } :=
    congrArg (fun block => Outcome.ok block _) refused
  rw [filePathHeap, Prog.bind_run_ok run]
  rfl

theorem filePathHeap_granted {p : Block} (granted : state.session.returned (.malloc (pathSize pathspec)) = some p) :
    filePathHeap pathspec defaultDev state =
      splitPath p (chomp pathspec) defaultDev
        { state with session := state.session.after (.malloc (pathSize pathspec)) } := by
  have run : mallocBlock (pathSize pathspec) state =
      .ok (some p) { state with session := state.session.after (.malloc (pathSize pathspec)) } :=
    congrArg (fun block => Outcome.ok block _) granted
  rw [filePathHeap, Prog.bind_run_ok run]

/-- With the heap, `file_path` returns what it returns for the answer of `malloc`. -/
theorem filePathHeap_refines (pathspec : Str) (defaultDev : EnvDev) (state : PathState) (bi : BootInfo) :
    (filePathHeap pathspec defaultDev state).code? =
      (filePath pathspec defaultDev (state.session.returned (.malloc (pathSize pathspec))).isSome bi).code? ∧
    (filePath pathspec defaultDev (state.session.returned (.malloc (pathSize pathspec))).isSome bi).value? =
      (filePathHeap pathspec defaultDev state).success?.bind PathState.path := by
  cases granted : state.session.returned (.malloc (pathSize pathspec)) with
  | none =>
      rw [filePathHeap_refused granted]
      exact ⟨rfl, rfl⟩
  | some p =>
      rw [filePathHeap_granted granted, Option.isSome_some]
      obtain ⟨found, run, plain⟩ | ⟨-, run, plain⟩ | ⟨-, run, plain⟩ := splitPath_cases p pathspec defaultDev
        { state with session := state.session.after (.malloc (pathSize pathspec)) } bi
      · rw [run, plain]
        exact ⟨rfl, rfl⟩
      · rw [run, plain]
        exact ⟨rfl, rfl⟩
      · rw [run, plain]
        exact ⟨rfl, rfl⟩

end Calls

/-! ## What a rejected path leaves behind -/

/-- The heap is given back, and `*path` is not written. -/
structure PathState.Clean (before after : PathState) : Prop where
  mallocPtr : after.session.heap.mallocPtr = before.session.heap.mallocPtr
  allocated : after.session.allocated = before.session.allocated
  path : after.path = before.path

/-- Calls of `file_path`, each of which returns an error. -/
inductive Rejected : (calls : List (Str × EnvDev)) → (before after : PathState) → Prop where
  | nil (state : PathState) : Rejected [] state state
  | cons {pathspec : Str} {defaultDev : EnvDev} {rest : List (Str × EnvDev)} {state middle after : PathState}
      {code : QuikErr} (fails : filePathHeap pathspec defaultDev state = .error code middle)
      (behind : Rejected rest middle after) : Rejected ((pathspec, defaultDev) :: rest) state after

/-- No block is needed for the path, or it is given back. -/
def Returned (heap : Heap) (call : Str × EnvDev) : Prop :=
  heap.full (pathSize call.1).toNat ∨ ¬NeedsDefault call.1 call.2

section Errors

variable {pathspec : Str} {defaultDev : EnvDev} {state after : PathState} {code : QuikErr}

/-- A call that returns an error is clean, or it keeps the block for the path. -/
theorem filePathHeap_error (below : state.session.heap.mallocPtr + 4 < 2 ^ 32)
    (fails : filePathHeap pathspec defaultDev state = .error code after) :
    after.session.heap.mallocEnd = state.session.heap.mallocEnd ∧
    (Returned state.session.heap (pathspec, defaultDev) ∧ state.Clean after ∨
      ¬Returned state.session.heap (pathspec, defaultDev) ∧
        state.session.allocated.length < after.session.allocated.length) := by
  cases granted : state.session.returned (.malloc (pathSize pathspec)) with
  | none =>
      have full := (Session.refused_iff below).mp granted
      rw [filePathHeap_refused granted, Session.after_refused full] at fails
      cases fails
      exact ⟨rfl, .inl ⟨.inl full, rfl, rfl, rfl⟩⟩
  | some p =>
      have room : ¬state.session.heap.full (pathSize pathspec).toNat := by
        intro full
        rw [(Session.refused_iff below).mpr full] at granted
        cases granted
      rw [filePathHeap_granted granted] at fails
      obtain ⟨found, run, -⟩ | ⟨default, run, -⟩ | ⟨needs, run, -⟩ := splitPath_cases p pathspec defaultDev
        { state with session := state.session.after (.malloc (pathSize pathspec)) } .start
      · rw [run] at fails
        cases fails
      · rw [run] at fails
        cases fails
        obtain ⟨back, limit, allocated⟩ := Session.freed_again below granted
        exact ⟨limit, .inl ⟨.inr default, back, allocated, rfl⟩⟩
      · rw [run] at fails
        cases fails
        refine ⟨Session.after_mallocEnd _, .inr ⟨fun known => known.elim room fun default => default needs, ?_⟩⟩
        rw [Session.after_granted granted]
        exact Nat.lt_succ_self _

/-- No call takes back a block that was there before. -/
theorem filePathHeap_keeps (fails : filePathHeap pathspec defaultDev state = .error code after) :
    state.session.allocated.length ≤ after.session.allocated.length := by
  cases granted : state.session.returned (.malloc (pathSize pathspec)) with
  | none =>
      rw [filePathHeap_refused granted] at fails
      cases fails
      rw [Session.after, granted]
      exact Nat.le_refl _
  | some p =>
      rw [filePathHeap_granted granted] at fails
      obtain ⟨found, run, -⟩ | ⟨default, run, -⟩ | ⟨needs, run, -⟩ := splitPath_cases p pathspec defaultDev
        { state with session := state.session.after (.malloc (pathSize pathspec)) } .start
      · rw [run] at fails
        cases fails
      · rw [run] at fails
        cases fails
        have erased : ((state.session.after (.malloc (pathSize pathspec))).after (.free p)).allocated =
            state.session.allocated := by
          rw [Session.after_freed, Session.after_granted granted]
          exact List.erase_cons_head ..
        rw [erased]
      · rw [run] at fails
        cases fails
        rw [Session.after_granted granted]
        exact Nat.le_succ _

theorem Rejected.keeps {calls : List (Str × EnvDev)} (rejected : Rejected calls state after) :
    state.session.allocated.length ≤ after.session.allocated.length := by
  induction rejected with
  | nil => exact Nat.le_refl _
  | cons fails _ ih => exact Nat.le_trans (filePathHeap_keeps fails) ih

theorem PathState.Clean.trans {middle : PathState} (first : state.Clean middle) (second : middle.Clean after) :
    state.Clean after :=
  ⟨second.mallocPtr.trans first.mallocPtr, second.allocated.trans first.allocated, second.path.trans first.path⟩

/-- What is full depends on `malloc_ptr` and `malloc_end` only. -/
theorem Returned.congr {heap other : Heap} (place : other.mallocPtr = heap.mallocPtr)
    (limit : other.mallocEnd = heap.mallocEnd) (call : Str × EnvDev) : Returned other call ↔ Returned heap call := by
  rw [Returned, Returned, Heap.full, Heap.full, place, limit]

theorem rejected_clean_iff {calls : List (Str × EnvDev)} (below : state.session.heap.mallocPtr + 4 < 2 ^ 32)
    (rejected : Rejected calls state after) :
    state.Clean after ↔ ∀ call ∈ calls, Returned state.session.heap call := by
  induction rejected with
  | nil state => exact iff_of_true ⟨rfl, rfl, rfl⟩ nofun
  | @cons pathspec defaultDev rest state middle after code fails behind ih =>
      rw [List.forall_mem_cons]
      obtain ⟨limit, ⟨returned, clean⟩ | ⟨kept, longer⟩⟩ := filePathHeap_error below fails
      · have same (call : Str × EnvDev) := Returned.congr clean.mallocPtr limit call
        rw [and_iff_right returned, ← forall₂_congr fun call _ => same call, ← ih (by rw [clean.mallocPtr]; exact below)]
        refine ⟨fun whole => ?_, clean.trans⟩
        exact ⟨whole.mallocPtr.trans clean.mallocPtr.symm, whole.allocated.trans clean.allocated.symm,
          whole.path.trans clean.path.symm⟩
      · refine iff_of_false (fun whole => ?_) fun returned => kept returned.1
        have length := behind.keeps
        rw [whole.allocated] at length
        omega

/-- Rejected calls are clean exactly when each gives back the copy of its string. -/
theorem rejected_paths_iff (ordered : state.session.Ordered) {calls : List (Str × EnvDev)}
    (rejected : Rejected calls state after) :
    state.Clean after ↔ ∀ call ∈ calls, Returned state.session.heap call := by
  have limit := ordered.limit
  have inside := ordered.inRange.2
  have constants : mallocBase + mallocSize < 2 ^ 31 := by decide
  exact rejected_clean_iff (by omega) rejected

/-- After `malloc_init`. -/
def PathState.start : PathState where
  session := { heap := freshHeap, allocated := [] }
  path := none

theorem start_ordered : PathState.start.session.Ordered :=
  mallocInit_ordered (show ClaimsExactly grantingClaim from fun _ _ => .inl rfl)
    (show mallocInit grantingClaim noHeap = .ok () freshHeap from rfl)

/-- Two paths without a device and without a partition. -/
def badPaths : List (Str × EnvDev) := [(str ":1", EnvDev.none), (str "hd:", EnvDev.none)]

theorem rejected_paths_bad : ∃ after, Rejected badPaths .start after ∧ PathState.start.Clean after := by
  obtain ⟨after, rejected⟩ : ∃ after, Rejected badPaths .start after := ⟨_, .cons rfl (.cons rfl (.nil _))⟩
  refine ⟨after, rejected, (rejected_paths_iff start_ordered rejected).mpr ?_⟩
  refine List.forall_mem_cons.mpr ⟨.inr ?_, List.forall_mem_singleton.mpr (.inr ?_)⟩
  · exact fun needs => absurd (show 58 ∈ chomp (str ":1") by decide) needs.1
  · exact fun needs => absurd (show 58 ∈ chomp (str "hd:") by decide) needs.1

/-- Without a default device, a path keeps its block. -/
theorem default_missing_keeps :
    ∃ after, filePathHeap (str "/vmlinux") EnvDev.none .start = .error .envCurrentBad after ∧
      after.session.heap.mallocPtr = 0x50001C ∧ ¬PathState.start.Clean after := by
  refine ⟨_, rfl, rfl, fun clean => ?_⟩
  exact absurd clean.mallocPtr (by decide)

end Errors

/-! ## Paths that are printed -/

section Printed

theorem digitIn_char {radix digit : Nat} (small : radix ≤ 16) (below : digit < radix) :
    digitIn radix (digitChars.getD digit 0) = some digit := by
  have known : ∀ digit < 16, digit? (digitChars.getD digit 0) = some digit := by decide
  rw [digitIn, known digit (Nat.lt_of_lt_of_le below small)]
  exact Option.filter_some_pos (decide_eq_true below)

theorem numeral_digits {radix : Nat} (low : 2 ≤ radix) (high : radix ≤ 16) (n : Nat) :
    (∀ c ∈ numeral radix n, (digitIn radix c).isSome) ∧ valueFrom radix 0 (numeral radix n) = n := by
  induction n using Nat.strong_induction_on with
  | _ n ih =>
      have last : digitIn radix (digitChars.getD (n % radix) 0) = some (n % radix) :=
        digitIn_char high (Nat.mod_lt n (by omega))
      have front : (∀ c ∈ (if n / radix = 0 then [] else numeral radix (n / radix)), (digitIn radix c).isSome) ∧
          valueFrom radix 0 (if n / radix = 0 then [] else numeral radix (n / radix)) = n / radix := by
        by_cases short : n / radix = 0
        · rw [if_pos short, short]
          exact ⟨nofun, rfl⟩
        · rw [if_neg short]
          exact ih _ (Nat.div_lt_self (Nat.pos_of_ne_zero fun zero => short (by simp [zero])) low)
      rw [numeral_step low]
      constructor
      · intro c member
        obtain old | new := List.mem_append.mp member
        · exact front.1 c old
        · rw [List.mem_singleton.mp new, last]
          rfl
      · rw [valueFrom_append, front.2, valueFrom, List.foldl_cons, List.foldl_nil, last]
        exact Nat.div_add_mod' n radix

/-- Only zero is printed with a zero in front. -/
theorem numeral_head {radix n : Nat} (low : 2 ≤ radix) (high : radix ≤ 16) (positive : n ≠ 0) :
    (numeral radix n).head? ≠ some 48 := by
  induction n using Nat.strong_induction_on with
  | _ n ih =>
      rw [numeral_step low]
      by_cases short : n / radix = 0
      · rw [if_pos short, List.nil_append, List.head?_cons]
        intro zero
        have below : n % radix < radix := Nat.mod_lt n (by omega)
        have digit : n % radix = 0 :=
          digitChar_inj (by omega) (by decide) (Option.some.inj zero)
        exact positive (by rw [← Nat.div_add_mod n radix, short, digit, Nat.mul_zero])
      · rw [if_neg short, List.head?_append_of_ne_nil _ (numeral_ne_nil low _)]
        exact ih _ (Nat.div_lt_self (Nat.pos_of_ne_zero positive) low) short

theorem digit_black {c : UInt8} (digit : (digit? c).isSome) : ¬c ≤ 32 := by
  intro white
  have small : ∀ low : UInt8, 48 ≤ low → ¬low ≤ c := fun low above below =>
    absurd (UInt8.le_trans above (UInt8.le_trans below white)) (by decide)
  rw [digit?, if_neg fun both => small 48 (by decide) both.1, if_neg fun both => small 65 (by decide) both.1,
    if_neg fun both => small 97 (by decide) both.1] at digit
  cases digit

/-- What is printed of a number is read back. -/
theorem strtol_numeral {n : Nat} (small : n < 0x80000000) {path : Str} (slash : path.head? = some 47) :
    strtol (numeral 10 n ++ path) 0 = ((n : Int), (numeral 10 n).length) := by
  obtain ⟨rest, rfl⟩ : ∃ rest, path = 47 :: rest := ⟨path.tail, by
    rw [← List.cons_head?_tail slash]
    rfl⟩
  obtain ⟨digits, value⟩ := numeral_digits (show 2 ≤ 10 by decide) (by decide) n
  have some' := numeral_ne_nil (b := 10) (by decide) n
  have expected : Expected 10 (numeral 10 n) n := by
    have given : Expected 10 (numeral 10 n) (valueFrom 10 0 (numeral 10 n)) := .given (by decide) ⟨some', digits⟩
    rwa [value] at given
  have based : ∃ radix, strtolBase 0 (numeral 10 n ++ 47 :: rest) = (radix, numeral 10 n ++ 47 :: rest) ∧
      1 ≤ radix ∧ (∀ c ∈ numeral 10 n, (digitIn radix c).isSome) ∧ valueFrom radix 0 (numeral 10 n) = n := by
    by_cases zero : n = 0
    · subst zero
      exact ⟨8, rfl, by decide, List.forall_mem_singleton.mpr rfl, rfl⟩
    · have leading : (numeral 10 n ++ 47 :: rest).head? ≠ some 48 := by
        rw [List.head?_append_of_ne_nil _ some']
        exact numeral_head (by decide) (by decide) zero
      refine ⟨10, ?_, by decide, digits, value⟩
      rw [strtolBase, if_neg (by decide), if_pos rfl, if_neg leading]
  obtain ⟨radix, based, low, digits, value⟩ := based
  have slashed : digitIn radix 47 = none := rfl
  have run : digitRun radix (numeral 10 n ++ 47 :: rest) = numeral 10 n := by
    rw [digitRun, List.takeWhile_append_of_pos digits,
      List.takeWhile_cons_of_neg (by rw [slashed]; exact Bool.false_ne_true), List.append_nil]
  have signed : Signed ([] ++ (numeral 10 n ++ 47 :: rest)) [] (numeral 10 n ++ 47 :: rest) := by
    refine ⟨rfl, .inl rfl, fun _ => ?_⟩
    rw [List.head?_append_of_ne_nil _ some']
    exact expected.head
  have black : ∀ c ∈ ([] ++ (numeral 10 n ++ 47 :: rest)).head?, ¬c ≤ 32 := by
    intro c first
    rw [List.nil_append, List.head?_append_of_ne_nil _ some'] at first
    have member : c ∈ numeral 10 n := List.mem_of_mem_head? first
    exact digit_black (Option.isSome_of_isSome_filter _ _ (digits c member))
  obtain ⟨i, loop, fits⟩ := strtolDigits_run low (numeral 10 n ++ 47 :: rest) (Nat.zero_le _) 0
  rw [run, value, Nat.zero_add] at loop
  rw [run, value] at fits
  have converts := strtol_signed (show ∀ c ∈ ([] : Str), c ≤ 32 from List.forall_mem_nil _) black (by simp) signed based loop
  have count : (numeral 10 n).length ≠ 0 := fun zero => some' (List.length_eq_zero_iff.mp zero)
  rw [List.nil_append, List.nil_append, Nat.sub_self, converted_number count fits] at converts
  rw [converts, Nat.zero_add, clamp, withSign, if_neg (by decide)]
  refine Prod.ext ?_ rfl
  show max (-0x80000000) (min (n : Int) 0x7FFFFFFF) = n
  omega

variable {device path : Str} {part : Nat}

/-- What is printed of a path. -/
def printedPath (device path : Str) (part : Nat) : Str := device ++ 58 :: (numeral 10 part ++ path)

theorem printkp_eq (small : part < 0x80000000) :
    printkp (some { device := some device, part := part, path := path }) = some (printedPath device path part) := by
  have decimal := (printknu_faithful_iff (by decide) (by decide) part).mpr
    (show part / 10 < 2 ^ 28 by omega)
  rw [printkp, Option.bind_eq_bind, Option.bind_some, decimal]
  simp [printks, printedPath]

theorem filePath_printed (some' : device ≠ []) (colon : 58 ∉ device) (space : device.head? ≠ some 32)
    (small : part < 0x80000000) (slash : path.head? = some 47) (defaultDev : EnvDev) (bi : BootInfo) :
    filePath (printedPath device path part) defaultDev true bi =
      .ok { device := some device, part := part, path := path } bi := by
  obtain ⟨c, letters, rfl⟩ := List.exists_cons_of_ne_nil some'
  have chomped : chomp (printedPath (c :: letters) path part) = printedPath (c :: letters) path part := by
    rw [printedPath, chomp, List.cons_append, List.dropWhile_cons_of_neg]
    exact fun isSpace => space (congrArg some (of_decide_eq_true isSpace))
  have other : ∀ b ∈ c :: letters, decide (b ≠ 58) = true :=
    fun b member => decide_eq_true fun same => colon (same ▸ member)
  have before : (printedPath (c :: letters) path part).takeWhile (· ≠ 58) = c :: letters := by
    rw [printedPath, List.takeWhile_append_of_pos other, List.takeWhile_cons_of_neg (by decide), List.append_nil]
  have behind : afterColon (printedPath (c :: letters) path part) = numeral 10 part ++ path := by
    rw [printedPath, afterColon, fromFirst, List.dropWhile_append_of_pos other, List.dropWhile_cons_of_neg (by decide),
      List.tail_cons]
  have found : 58 ∈ printedPath (c :: letters) path part := by simp [printedPath]
  have length : (numeral 10 part).length ≠ 0 :=
    fun zero => numeral_ne_nil (by decide) part (List.length_eq_zero_iff.mp zero)
  have whole : unsigned part = part := by
    rw [unsigned]
    omega
  rw [filePath, if_pos rfl]
  simp only [chomped, if_pos found, before, behind, strtol_numeral small slash, if_neg length, List.drop_left,
    whole, fsPath, if_pos slash]
  rw [if_neg (List.cons_ne_nil _ _)]
  rfl

/-- A path that is printed is read back, whatever the default device is, unless
`malloc` refuses the copy. -/
theorem printed_path_read (some' : device ≠ []) (colon : 58 ∉ device) (space : device.head? ≠ some 32)
    (small : part < 0x80000000) (slash : path.head? = some 47) (defaultDev : EnvDev) (state : PathState) :
    ∃ text, printkp (some { device := some device, part := part, path := path }) = some text ∧
      (state.session.returned (.malloc (pathSize text)) ≠ none →
        ∃ after, filePathHeap text defaultDev state = .ok () after ∧
          after.path = some { device := some device, part := part, path := path }) ∧
      (state.session.returned (.malloc (pathSize text)) = none →
        ∃ after, filePathHeap text defaultDev state = .error .noMem after) := by
  refine ⟨_, printkp_eq small, fun granted => ?_, fun refused => ⟨_, filePathHeap_refused refused⟩⟩
  obtain ⟨p, granted⟩ := Option.ne_none_iff_exists'.mp granted
  have read := filePath_printed some' colon space small slash defaultDev .start
  rw [filePathHeap_granted granted]
  obtain ⟨found, run, plain⟩ | ⟨-, run, plain⟩ | ⟨-, run, plain⟩ :=
    splitPath_cases p (printedPath device path part) defaultDev
      { state with session := state.session.after (.malloc (pathSize (printedPath device path part))) } .start
  · rw [plain] at read
    cases read
    exact ⟨_, run, rfl⟩
  · rw [plain] at read
    cases read
  · rw [plain] at read
    cases read

theorem printed_path_vmlinux :
    ∃ text, printkp (some { device := some (str "hd"), part := 1, path := str "/a:b c" }) = some text ∧
      (PathState.start.session.returned (.malloc (pathSize text)) ≠ none →
        ∃ after, filePathHeap text EnvDev.none .start = .ok () after ∧
          after.path = some { device := some (str "hd"), part := 1, path := str "/a:b c" }) ∧
      (PathState.start.session.returned (.malloc (pathSize text)) = none →
        ∃ after, filePathHeap text EnvDev.none .start = .error .noMem after) :=
  printed_path_read (by decide) (by decide) (by decide) (by decide) rfl EnvDev.none .start

/-- The heap has 12 bytes left. -/
def PathState.crowded : PathState where
  session := PathState.start.session.after (.malloc 0x2FFFF0)
  path := none

theorem printed_path_refused :
    printkp (some { device := some (str "hd"), part := 1, path := str "/vmlinux" }) = some (str "hd:1/vmlinux") ∧
      ∃ after, filePathHeap (str "hd:1/vmlinux") EnvDev.none .crowded = .error .noMem after :=
  ⟨rfl, _, rfl⟩

end Printed

end IQuik.Loader
