import IQuik.Loader.Granted
import IQuik.Program.Inspections

namespace IQuik.Loader

open IQuik.Data IQuik.Program

/-! # What `elf_parse` reads -/

abbrev Looks (α : Type) := Inspection Nat UInt8 α

def lookByte (address : Nat) : Looks UInt8 := .look address .done

def lookHalf (address : Nat) : Looks Nat := do
  let high ← lookByte address
  let low ← lookByte (address + 1)
  pure (256 * high.toNat + low.toNat)

def lookWord (address : Nat) : Looks Nat := do
  let high ← lookHalf address
  let low ← lookHalf (address + 2)
  pure (65536 * high + low)

/-- Compares byte after byte, and stops at the first that differs. -/
def lookSame : (expected : List UInt8) → (address : Nat) → Looks Bool
  | [], _ => pure true
  | byte :: rest, address => do
      let found ← lookByte address
      if found = byte then lookSame rest (address + 1) else pure false

/-- The loop of `elf_parse` over the program headers from `p` on. It reads `e_phnum`
again for each of them, which was read before. -/
def lookHeaders : (count : Nat) → (p : Nat) → Extent → Looks Extent
  | 0, _, extent => pure extent
  | count + 1, p, extent => do
      let type ← lookWord p
      if type ≠ 1 then lookHeaders count (wrap (p + 32)) extent
      else do
        let offset ← lookWord (p + 4)
        if offset = 0 then lookHeaders count (wrap (p + 32)) extent
        else do
          let memsz ← lookWord (p + 20)
          if extent.len = 0 then do
            let vaddr ← lookWord (p + 8)
            lookHeaders count (wrap (p + 32)) { off := offset, len := memsz, linkedBase := addrMask vaddr }
          else
            lookHeaders count (wrap (p + 32))
              { extent with len := wrap (offset + memsz + (0x100000000 - extent.off)) }

/-- `elf_parse` up to the claim behind the file: the extent and the entry. -/
def lookExtent (loadBuf : Nat) : Looks (Except QuikErr (Extent × Nat)) := do
  let isElf ← lookSame [0x7F, 69, 76, 70] loadBuf
  if isElf then do
    let isRight ← lookSame [1, 2] (loadBuf + 4)
    if isRight then do
      let phoff ← lookWord (loadBuf + 28)
      let phnum ← lookHalf (loadBuf + 44)
      let extent ← lookHeaders phnum (wrap (loadBuf + phoff)) { off := 0, len := 0, linkedBase := 0 }
      if extent.len = 0 then pure (.error .elfNotLoadable)
      else do
        let entry ← lookWord (loadBuf + 24)
        pure (.ok (extent, addrMask entry))
    else pure (.error .elfWrong)
  else pure (.error .elfNot)

section Values

variable {memory : Image}

@[simp] theorem lookByte_value (address : Nat) : (lookByte address).value memory = memory address := rfl

@[simp] theorem lookHalf_value (address : Nat) : (lookHalf address).value memory = memory.be16 address := by
  unfold Image.be16
  rfl

@[simp] theorem lookWord_value (address : Nat) : (lookWord address).value memory = memory.be32 address := by
  unfold Image.be32
  simp [lookWord]

theorem lookSame_true {expected : List UInt8} {address : Nat} :
    (lookSame expected address).value memory = true ↔ memory.list address expected.length = expected := by
  induction expected generalizing address with
  | nil => exact iff_of_true rfl rfl
  | cons byte rest ih =>
      rw [lookSame, Inspection.value_bind, lookByte_value]
      by_cases same : memory address = byte
      · rw [if_pos same, ih]
        simp [Image.list, same]
      · rw [if_neg same]
        simp [Image.list, same]

theorem lookHeaders_value (count p : Nat) (extent : Extent) :
    (lookHeaders count p extent).value memory = programHeaders memory count p extent := by
  induction count generalizing p extent with
  | zero => rfl
  | succ count ih =>
      rw [lookHeaders, programHeaders, Inspection.value_bind, lookWord_value]
      by_cases load : memory.be32 p = 1
      · rw [if_neg (not_not_intro load), Inspection.value_bind, lookWord_value]
        by_cases empty : memory.be32 (p + 4) = 0
        · rw [if_pos empty, ih, if_pos (.inr empty)]
        · have loaded : ¬(memory.be32 p ≠ 1 ∨ memory.be32 (p + 4) = 0) :=
            fun skipped => skipped.elim (fun other => other load) empty
          rw [if_neg empty, Inspection.value_bind, lookWord_value, if_neg loaded]
          by_cases none : extent.len = 0
          · rw [if_pos none, if_pos none, Inspection.value_bind, lookWord_value, ih]
          · rw [if_neg none, if_neg none, ih]
      · rw [if_pos load, ih, if_pos (.inl load)]

/-- Without the record of what it reads, this is `elf_parse`. -/
theorem lookExtent_value (loadBuf : Nat) :
    (lookExtent loadBuf).value memory =
      (elfExtent memory loadBuf).map fun extent => (extent, addrMask (memory.be32 (loadBuf + 24))) := by
  rw [lookExtent, Inspection.value_bind, elfExtent]
  by_cases isElf : memory.list loadBuf 4 = [0x7F, 69, 76, 70]
  · have right : (lookSame [1, 2] (loadBuf + 4)).value memory = true ↔
        memory (loadBuf + 4) = 1 ∧ memory (loadBuf + 5) = 2 := by
      rw [lookSame_true]
      simp [Image.list]
    rw [if_pos isElf, if_pos (lookSame_true.mpr isElf), Inspection.value_bind]
    by_cases isRight : memory (loadBuf + 4) = 1 ∧ memory (loadBuf + 5) = 2
    · rw [if_pos isRight, if_pos (right.mpr isRight), Inspection.value_bind, Inspection.value_bind,
        Inspection.value_bind, lookWord_value, lookHalf_value, lookHeaders_value]
      dsimp only
      split
      · rfl
      · rw [Inspection.value_bind, lookWord_value]
        rfl
    · rw [if_neg isRight, if_neg fun same => isRight (right.mp same)]
      rfl
  · rw [if_neg isElf, if_neg fun same => isElf (lookSame_true.mp same)]
    rfl

end Values

/-! ## What stays in the file -/

def identBytes : List UInt8 := [0x7F, 69, 76, 70, 1, 2]

/-- Where the program header `i` is. -/
def phdrAddr (memory : Image) (loadBuf i : Nat) : Nat := wrap (loadBuf + memory.be32 (loadBuf + 28) + 32 * i)

/-- How much of a program header is read. -/
def phdrRead (memory : Image) (p : Nat) : Nat :=
  if memory.be32 p ≠ 1 then 4 else if memory.be32 (p + 4) = 0 then 8 else 24

/-- The header at `p` is in the file as far as it is read. -/
def PhdrInside (memory : Image) (range : Range) (p : Nat) : Prop :=
  range.1 ≤ p ∧ p + phdrRead memory p ≤ range.1 + range.2

/-- The file holds what is compared of its first bytes, and the headers that are
read when they compare equal. -/
structure HeaderInside (memory : Image) (loadBuf len : Nat) : Prop where
  ident : ∀ i < 6, memory.list loadBuf i = identBytes.take i → i < len
  header : memory.list loadBuf 6 = identBytes → 46 ≤ len
  headers : memory.list loadBuf 6 = identBytes → ∀ i < memory.be16 (loadBuf + 44),
    PhdrInside memory (loadBuf, len) (phdrAddr memory loadBuf i)

section Reads

variable {memory : Image} {range : Range} {address : Nat}

theorem lookByte_stays : (lookByte address).Stays range.Holds memory ↔ range.Holds address := by
  simp [lookByte, Inspection.Stays, Inspection.seen]

theorem lookHalf_stays : (lookHalf address).Stays range.Holds memory ↔
    range.1 ≤ address ∧ address + 2 ≤ range.1 + range.2 := by
  simp only [lookHalf, Inspection.stays_bind, lookByte_stays, Inspection.stays_pure, and_true, Range.Holds]
  omega

theorem lookWord_stays : (lookWord address).Stays range.Holds memory ↔
    range.1 ≤ address ∧ address + 4 ≤ range.1 + range.2 := by
  simp only [lookWord, Inspection.stays_bind, lookHalf_stays, Inspection.stays_pure, and_true]
  omega

/-- Of the bytes compared, each is read that follows equal ones. -/
theorem lookSame_stays {expected : List UInt8} : (lookSame expected address).Stays range.Holds memory ↔
    ∀ i < expected.length, memory.list address i = expected.take i → range.Holds (address + i) := by
  induction expected generalizing address with
  | nil => exact iff_of_true (Inspection.stays_pure true) fun i below => absurd below (Nat.not_lt_zero i)
  | cons byte rest ih =>
      rw [lookSame, Inspection.stays_bind, lookByte_stays, lookByte_value]
      have next (i : Nat) (same : memory address = byte) :
          memory.list address (i + 1) = (byte :: rest).take (i + 1) ↔
            memory.list (address + 1) i = rest.take i := by
        rw [Image.list, List.take_succ_cons, List.cons.injEq, and_iff_right same]
      constructor
      · rintro ⟨here, stays⟩ i below equal
        cases i with
        | zero => exact here
        | succ i =>
            have same : memory address = byte := by
              rw [Image.list, List.take_succ_cons, List.cons.injEq] at equal
              exact equal.1
            rw [if_pos same] at stays
            have held := ih.mp stays i (Nat.lt_of_succ_lt_succ below) ((next i same).mp equal)
            rwa [Nat.add_assoc, Nat.add_comm 1 i] at held
      · intro holds
        refine ⟨holds 0 (Nat.zero_lt_succ _) rfl, ?_⟩
        split
        · rename_i same
          apply ih.mpr
          intro i below equal
          have held := holds (i + 1) (Nat.succ_lt_succ below) ((next i same).mpr equal)
          rwa [Nat.add_assoc, Nat.add_comm 1 i]
        · exact Inspection.stays_pure false

theorem lookHeaders_stays {count q : Nat} {extent : Extent} :
    (lookHeaders count (wrap q) extent).Stays range.Holds memory ↔
      ∀ i < count, PhdrInside memory range (wrap (q + 32 * i)) := by
  induction count generalizing q extent with
  | zero => exact iff_of_true (Inspection.stays_pure extent) fun i below => absurd below (Nat.not_lt_zero i)
  | succ count ih =>
      have next : wrap (wrap q + 32) = wrap (q + 32) := by
        rw [wrap, wrap, wrap]
        omega
      have later (i : Nat) : q + 32 * (i + 1) = q + 32 + 32 * i := by omega
      rw [Nat.forall_lt_succ_left, lookHeaders, Inspection.stays_bind, lookWord_stays, lookWord_value]
      simp only [later, Nat.mul_zero, Nat.add_zero]
      rw [PhdrInside, phdrRead]
      by_cases load : memory.be32 (wrap q) = 1
      · rw [if_neg (not_not_intro load), if_neg (not_not_intro load), Inspection.stays_bind, lookWord_stays,
          lookWord_value]
        by_cases empty : memory.be32 (wrap q + 4) = 0
        · rw [if_pos empty, if_pos empty, next, ih, ← and_assoc]
          refine and_congr_left' ?_
          omega
        · rw [if_neg empty, if_neg empty, Inspection.stays_bind, lookWord_stays]
          split
          · rw [Inspection.stays_bind, lookWord_stays, next, ih, ← and_assoc, ← and_assoc, ← and_assoc]
            refine and_congr_left' ?_
            omega
          · rw [next, ih, ← and_assoc, ← and_assoc]
            refine and_congr_left' ?_
            omega
      · rw [if_pos load, if_pos load, next, ih]

theorem lookSame_append (front back : List UInt8) (address : Nat) :
    lookSame (front ++ back) address = (do
      let same ← lookSame front address
      if same then lookSame back (address + front.length) else pure false) := by
  induction front generalizing address with
  | nil => rfl
  | cons byte front ih =>
      apply congrArg (Inspection.look address)
      funext found
      change (if found = byte then lookSame (front ++ back) (address + 1) else pure false) =
        (if found = byte then lookSame front (address + 1) else pure false) >>= fun same =>
          if same then lookSame back (address + (front.length + 1)) else pure false
      split
      · rw [ih, Nat.add_assoc, Nat.add_comm 1]
      · rfl

theorem matched_iff {loadBuf : Nat} : memory.list loadBuf 6 = identBytes ↔
    (lookSame [0x7F, 69, 76, 70] loadBuf).value memory = true ∧
      (lookSame [1, 2] (loadBuf + 4)).value memory = true := by
  have whole : (lookSame identBytes loadBuf).value memory = true ↔ memory.list loadBuf 6 = identBytes := lookSame_true
  rw [← whole, show identBytes = [0x7F, 69, 76, 70] ++ [1, 2] from rfl, lookSame_append, Inspection.value_bind]
  by_cases isElf : (lookSame [0x7F, 69, 76, 70] loadBuf).value memory = true
  · rw [if_pos isElf, and_iff_right isElf]
    rfl
  · rw [if_neg isElf]
    exact iff_of_false Bool.false_ne_true fun both => isElf both.1

theorem lookExtent_stays {loadBuf len : Nat} :
    (lookExtent loadBuf).Stays (Range.Holds (loadBuf, len)) memory ↔ HeaderInside memory loadBuf len := by
  have held (i : Nat) : Range.Holds (loadBuf, len) (loadBuf + i) ↔ i < len :=
    ⟨fun inside => Nat.lt_of_add_lt_add_left inside.2,
      fun inside => ⟨Nat.le_add_right .., Nat.add_lt_add_left inside loadBuf⟩⟩
  have ident : (lookSame ([0x7F, 69, 76, 70] ++ [1, 2]) loadBuf).Stays (Range.Holds (loadBuf, len)) memory ↔
      ∀ i < 6, memory.list loadBuf i = identBytes.take i → i < len := by
    rw [lookSame_stays]
    simp only [held]
    rfl
  rw [lookSame_append, Inspection.stays_bind, show ([0x7F, 69, 76, 70] : List UInt8).length = 4 from rfl] at ident
  rw [lookExtent, Inspection.stays_bind]
  by_cases isElf : (lookSame [0x7F, 69, 76, 70] loadBuf).value memory = true
  · rw [if_pos isElf] at ident ⊢
    rw [Inspection.stays_bind, ← and_assoc, ident]
    by_cases isRight : (lookSame [1, 2] (loadBuf + 4)).value memory = true
    · have matched := matched_iff.mpr ⟨isElf, isRight⟩
      rw [if_pos isRight, Inspection.stays_bind, Inspection.stays_bind, Inspection.stays_bind, lookWord_stays,
        lookHalf_stays, lookWord_value, lookHalf_value, lookHeaders_stays]
      constructor
      · rintro ⟨first, phoff, phnum, headers, -⟩
        exact ⟨first, fun _ => by omega, fun _ => headers⟩
      · rintro ⟨first, header, headers⟩
        have enough := header matched
        refine ⟨first, ⟨by omega, by omega⟩, ⟨by omega, by omega⟩, headers matched, ?_⟩
        split
        · exact Inspection.stays_pure _
        · rw [Inspection.stays_bind, lookWord_stays]
          exact ⟨⟨by omega, by omega⟩, Inspection.stays_pure _⟩
    · rw [if_neg isRight]
      have other (matched : memory.list loadBuf 6 = identBytes) : False := isRight (matched_iff.mp matched).2
      exact ⟨fun inside => ⟨inside.1, fun matched => (other matched).elim, fun matched => (other matched).elim⟩,
        fun inside => ⟨inside.ident, Inspection.stays_pure _⟩⟩
  · rw [if_neg isElf] at ident ⊢
    have other (matched : memory.list loadBuf 6 = identBytes) : False := isElf (matched_iff.mp matched).1
    exact ⟨fun inside => ⟨ident.mp ⟨inside.1, Inspection.stays_pure _⟩, fun matched => (other matched).elim,
        fun matched => (other matched).elim⟩,
      fun inside => ⟨(ident.mpr inside.ident).1, Inspection.stays_pure _⟩⟩

/-- What follows the file in memory does not matter then. -/
theorem elfExtent_congr {other : Image} {loadBuf len : Nat} (inside : HeaderInside memory loadBuf len)
    (agree : ∀ address, Range.Holds (loadBuf, len) address → memory address = other address) :
    elfExtent memory loadBuf = elfExtent other loadBuf := by
  have first (result : Except QuikErr Extent) (entry : Nat) :
      (result.map fun extent => (extent, entry)).map Prod.fst = result := by
    cases result <;> rfl
  have same := congrArg (Except.map Prod.fst) ((lookExtent_stays.mpr inside).value_eq agree)
  rwa [lookExtent_value, lookExtent_value, first, first] at same

end Reads

/-! ## Coming to an end -/

/-- The claim for what the segments take behind the file, from the first that is counted
to the end of the last, does not end in the last page of the address space. -/
def TailEnds (memory : Image) (loadBuf len : Nat) : Prop :=
  memory.list loadBuf 6 = identBytes → ∀ first last,
    anchor (segments memory loadBuf) = some first → (segments memory loadBuf).getLast? = some last →
    len < first.offset + first.upTo last → wrap (loadBuf + last.finish) ≤ 0xFFFFF000 + (loadBuf + len) % 4096

section Ending

variable {memory : Image} {loadBuf len : Nat}

theorem pagesAsked_ends_iff {limit addr : Nat} (fits : addr < 0x100000000) (limited : limit < 0x100000000) :
    (∃ fuel, ∀ more, fuel ≤ more → ∃ pages, pagesAsked limit more addr = some pages) ↔
      limit ≤ 0xFFFFF000 + addr % 4096 := by
  constructor
  · rintro ⟨fuel, ends⟩
    by_contra last
    obtain ⟨pages, asked⟩ := ends fuel (Nat.le_refl fuel)
    rw [pagesAsked_endless fits (Nat.lt_of_not_le last)] at asked
    cases asked
  · intro last
    refine ⟨(limit - addr + 4095) / 4096 + 1, fun more enough => ⟨_, pagesAsked_row ?_ enough rfl⟩⟩
    omega

theorem identified_iff : memory.list loadBuf 6 = identBytes ↔
    memory.list loadBuf 4 = [0x7F, 69, 76, 70] ∧ memory (loadBuf + 4) = 1 ∧ memory (loadBuf + 5) = 2 := by
  have isElf : (lookSame [0x7F, 69, 76, 70] loadBuf).value memory = true ↔
      memory.list loadBuf 4 = [0x7F, 69, 76, 70] := lookSame_true
  have isRight : (lookSame [1, 2] (loadBuf + 4)).value memory = true ↔ memory.list (loadBuf + 4) 2 = [1, 2] :=
    lookSame_true
  rw [matched_iff, isElf, isRight]
  simp [Image.list]

/-- `elf_parse` accepts a file with the right first bytes and a segment to count
from. -/
theorem elfExtent_ok_iff : (∃ extent, elfExtent memory loadBuf = .ok extent) ↔
    memory.list loadBuf 6 = identBytes ∧ ∃ first, anchor (segments memory loadBuf) = some first := by
  constructor
  · rintro ⟨extent, header⟩
    obtain ⟨first, -, anchored, -⟩ := elfExtent_reaches header
    refine ⟨?_, first, anchored⟩
    rw [elfExtent] at header
    split at header
    · split at header
      · exact identified_iff.mpr ⟨‹_›, ‹_›⟩
      · cases header
    · cases header
  · rintro ⟨matched, first, anchored⟩
    obtain ⟨isElf, isRight⟩ := identified_iff.mp matched
    rw [elfExtent, if_pos isElf, if_pos isRight]
    dsimp only
    rw [programHeaders_eq]
    cases counted fun segment mem => segmentsAt_fits (show segment ∈ segments memory loadBuf from mem) with
    | nothing unanchored len => cases anchored.symm.trans unanchored
    | since first last anchored mem ends reaches some' => exact ⟨_, if_neg some'⟩

variable (memory loadBuf len) in
/-- `elf_parse` returns, whatever the firmware grants. -/
def ParseReturns : Prop :=
  ∃ fuel, ∀ around : Surroundings, around.memory = memory → fuel ≤ around.fuel → ∀ claims,
    ∃ after, (elfParse around loadBuf len claims).state? = some after

theorem elfParse_returns_iff {around : Surroundings} {extent : Extent} {claims : Claims}
    (header : elfExtent around.memory loadBuf = .ok extent) :
    (∃ after, (elfParse around loadBuf len claims).state? = some after) ↔
      (len < extent.len + extent.off →
        ∃ pages, pagesAsked (wrap (loadBuf + (extent.len + extent.off))) around.fuel (wrap (loadBuf + len)) =
          some pages) := by
  rw [elfParse, header]
  dsimp only
  by_cases more : len < extent.len + extent.off
  · rw [if_pos more, imp_iff_right more, promEnsureClaimed_tail more]
    have run := ensureFrom_asks around (wrap (loadBuf + (extent.len + extent.off))) around.fuel
      (wrap (loadBuf + len)) claims
    cases asked : pagesAsked (wrap (loadBuf + (extent.len + extent.off))) around.fuel (wrap (loadBuf + len)) with
    | some pages =>
        obtain ⟨after, claimed⟩ := claimEach_ok around pages claims
        rw [asked] at run
        rw [Prog.bind_run_ok (run.trans claimed)]
        exact iff_of_true ⟨after, rfl⟩ ⟨pages, rfl⟩
    | none =>
        rw [asked] at run
        rw [Prog.bind_run_unfinished run]
        constructor
        · rintro ⟨after, returned⟩
          cases returned
        · rintro ⟨pages, found⟩
          cases found
  · rw [if_neg more]
    exact iff_of_true ⟨claims, rfl⟩ fun longer => absurd longer more

theorem parseReturns_of_ok {extent : Extent} (header : elfExtent memory loadBuf = .ok extent) :
    ParseReturns memory loadBuf len ↔
      (len < extent.len + extent.off →
        wrap (loadBuf + (extent.len + extent.off)) ≤ 0xFFFFF000 + wrap (loadBuf + len) % 4096) := by
  have fits : wrap (loadBuf + len) < 0x100000000 := Nat.mod_lt _ (by decide)
  have limited : wrap (loadBuf + (extent.len + extent.off)) < 0x100000000 := Nat.mod_lt _ (by decide)
  rw [← pagesAsked_ends_iff fits limited]
  constructor
  · rintro ⟨fuel, returns⟩ longer
    refine ⟨fuel, fun more enough => ?_⟩
    exact (elfParse_returns_iff (show elfExtent (grantless memory more).memory loadBuf = .ok extent from header)).mp
      (returns (grantless memory more) rfl enough (Claims.start [])) longer
  · intro ends
    by_cases longer : len < extent.len + extent.off
    · obtain ⟨fuel, asked⟩ := ends longer
      refine ⟨fuel, ?_⟩
      rintro around rfl enough claims
      exact (elfParse_returns_iff header).mpr fun _ => asked around.fuel enough
    · refine ⟨0, ?_⟩
      rintro around rfl - claims
      exact (elfParse_returns_iff header).mpr fun more => absurd more longer

theorem parseReturns_iff : ParseReturns memory loadBuf len ↔ TailEnds memory loadBuf len := by
  cases header : elfExtent memory loadBuf with
  | error code =>
      constructor
      · intro _ matched first last anchored _
        obtain ⟨extent, accepted⟩ := elfExtent_ok_iff.mpr ⟨matched, first, anchored⟩
        cases header.symm.trans accepted
      · refine fun _ => ⟨0, ?_⟩
        rintro around rfl - claims
        rw [elfParse, header]
        exact ⟨claims, rfl⟩
  | ok extent =>
      obtain ⟨first, last, anchored, mem, ends, reaches⟩ := elfExtent_reaches header
      have offset := (segmentsAt_fits mem).offset
      have start : wrap (loadBuf + len) % 4096 = (loadBuf + len) % 4096 := by
        rw [wrap]
        omega
      have limit : wrap (loadBuf + (first.upTo last + first.offset)) = wrap (loadBuf + last.finish) := by
        rw [Segment.upTo, wrap, wrap]
        omega
      rw [parseReturns_of_ok header, reaches.len, reaches.off, start, limit, Nat.add_comm (first.upTo last)]
      constructor
      · intro returns _ first' last' anchored' ends' longer
        obtain rfl : first = first' := Option.some.inj (anchored.symm.trans anchored')
        obtain rfl : last = last' := Option.some.inj (ends.symm.trans ends')
        exact returns longer
      · exact fun tail longer => tail (elfExtent_ok_iff.mp ⟨extent, header⟩).1 first last anchored ends longer

end Ending

/-- `elf_parse` reads only the file, and returns. -/
structure ParsesInside (memory : Image) (loadBuf len : Nat) : Prop where
  reads : (lookExtent loadBuf).Stays (Range.Holds (loadBuf, len)) memory
  returns : ParseReturns memory loadBuf len

theorem parsesInside_iff {memory : Image} {loadBuf len : Nat} :
    ParsesInside memory loadBuf len ↔ HeaderInside memory loadBuf len ∧ TailEnds memory loadBuf len := by
  rw [← lookExtent_stays, ← parseReturns_iff]
  exact ⟨fun inside => ⟨inside.reads, inside.returns⟩, fun inside => ⟨inside.1, inside.2⟩⟩

/-- Of a file of six bytes, `e_phoff` is read behind its end. -/
theorem short_file_read :
    0x80001C ∈ (lookExtent 0x800000).seen (kernelFile 0 []) ∧ ¬ParsesInside (kernelFile 0 []) 0x800000 6 := by
  have read : 0x80001C ∈ (lookExtent 0x800000).seen (kernelFile 0 []) := by decide +kernel
  exact ⟨read, fun inside => absurd (inside.reads _ read).2 (by decide)⟩

end IQuik.Loader
