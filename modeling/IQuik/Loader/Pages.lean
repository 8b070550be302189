import IQuik.Loader.Loading

namespace IQuik.Loader

open IQuik.Data IQuik.Program

/-! # The pages that `prom_ensure_claimed` asks for -/

/-- The addresses of the pages that the loop claims from `addr` on, if it ends. -/
def pagesAsked (limit : Nat) : (fuel : Nat) → (addr : Nat) → Option (List Nat)
  | 0, _ => none
  | fuel + 1, addr =>
      if addr < limit then (pagesAsked limit fuel (wrap (addr + size4K))).map (addr :: ·) else some []

def claimEach (around : Surroundings) : List Nat → LoadProg PUnit
  | [] => pure ⟨⟩
  | addr :: pages => do
      let _ ← promClaim around addr size4K
      claimEach around pages

section Claiming

variable {around : Surroundings} {limit fuel addr : Nat} {claims : Claims}

/-- A firmware that grants nothing, without files. -/
def grantless (memory : Image) (fuel : Nat) : Surroundings where
  grant := fun _ _ => false
  workAround := none
  files := fun _ => { len := .error .fsNotFound, load := .error .fsNotFound }
  memory := memory
  fuel := fuel

theorem promClaim_ok (around : Surroundings) (virt size : Nat) (claims : Claims) :
    ∃ found middle, promClaim around virt size claims = .ok found middle := by
  rw [promClaim, Prog.view_bind]
  cases around.workAround with
  | some calls =>
      dsimp only
      cases calls claims.inUse (virt, size) with
      | noMemory => exact ⟨_, _, rfl⟩
      | noMapping => exact ⟨_, _, rfl⟩
      | mapped => exact ⟨_, _, rfl⟩
  | none =>
      dsimp only
      split
      · exact ⟨_, _, rfl⟩
      · exact ⟨_, _, rfl⟩

theorem promRelease_ok (around : Surroundings) (virt size : Nat) (claims : Claims) :
    ∃ after, promRelease around virt size claims = .ok ⟨⟩ after := by
  rw [promRelease]
  split
  · exact ⟨_, rfl⟩
  · exact ⟨_, rfl⟩

/-- The firmware has no say in which pages the loop claims. -/
theorem ensureFrom_asks (around : Surroundings) (limit fuel addr : Nat) (claims : Claims) :
    ensureFrom around limit fuel addr claims =
      match pagesAsked limit fuel addr with
      | some pages => claimEach around pages claims
      | none => .unfinished := by
  induction fuel generalizing addr claims with
  | zero => rfl
  | succ fuel ih =>
      rw [ensureFrom, pagesAsked]
      by_cases below : addr < limit
      · obtain ⟨found, middle, claimed⟩ := promClaim_ok around addr size4K claims
        rw [if_pos below, if_pos below, Prog.bind_run_ok claimed, ih]
        cases pagesAsked limit fuel (wrap (addr + size4K)) with
        | none => rfl
        | some pages =>
            have first : claimEach around (addr :: pages) claims = claimEach around pages middle :=
              Prog.bind_run_ok claimed
            exact first.symm
      · rw [if_neg below, if_neg below]
        rfl

/-- With the limit behind the last page, the loop runs round the address space. -/
theorem pagesAsked_endless (fits : addr < 0x100000000) (last : 0xFFFFF000 + addr % 4096 < limit) :
    pagesAsked limit fuel addr = none := by
  induction fuel generalizing addr with
  | zero => rfl
  | succ fuel ih =>
      have below : addr < limit := by omega
      have next : wrap (addr + size4K) = (addr + 4096) % 0x100000000 := rfl
      rw [pagesAsked, if_pos below, ih (by omega) (by omega)]
      rfl

/-- `count` pages from `addr` on, one behind the other. -/
def pageRow : (count : Nat) → (addr : Nat) → List Nat
  | 0, _ => []
  | count + 1, addr => addr :: pageRow count (addr + 4096)

@[simp] theorem pageRow_length (count addr : Nat) : (pageRow count addr).length = count := by
  induction count generalizing addr with
  | zero => rfl
  | succ count ih => simp [pageRow, ih]

/-- A loop that stays in the address space claims one page after the other. -/
theorem pagesAsked_row {count : Nat} (inside : addr + 4096 * count < 0x100000000) (enough : count < fuel)
    (limits : count = (limit - addr + 4095) / 4096) : pagesAsked limit fuel addr = some (pageRow count addr) := by
  induction count generalizing fuel addr with
  | zero =>
      obtain ⟨fuel, rfl⟩ : ∃ less, fuel = less + 1 := ⟨fuel - 1, by omega⟩
      rw [pagesAsked, if_neg (by omega)]
      rfl
  | succ count ih =>
      obtain ⟨fuel, rfl⟩ : ∃ less, fuel = less + 1 := ⟨fuel - 1, by omega⟩
      have step : addr + 4096 ≤ addr + 4096 * (count + 1) := by omega
      have here : addr + 4096 < 0x100000000 := Nat.lt_of_le_of_lt step inside
      have next : wrap (addr + size4K) = addr + 4096 := by
        rw [wrap, size4K]
        exact Nat.mod_eq_of_lt here
      rw [pagesAsked, if_pos (by omega), next, ih (by omega) (by omega) (by omega)]
      rfl

theorem pageRow_covers {count byte : Nat} (lower : addr ≤ byte) (upper : byte < addr + 4096 * count) :
    ∃ page ∈ pageRow count addr, page ≤ byte ∧ byte < page + size4K := by
  induction count generalizing addr with
  | zero => omega
  | succ count ih =>
      by_cases here : byte < addr + 4096
      · exact ⟨addr, List.mem_cons_self, lower, here⟩
      · obtain ⟨page, mem, held⟩ := ih (Nat.le_of_not_lt here) (by omega)
        exact ⟨page, List.mem_cons_of_mem _ mem, held⟩

theorem claimEach_ok (around : Surroundings) (pages : List Nat) (claims : Claims) :
    ∃ after, claimEach around pages claims = .ok ⟨⟩ after := by
  induction pages generalizing claims with
  | nil => exact ⟨claims, rfl⟩
  | cons page pages ih =>
      obtain ⟨found, middle, claimed⟩ := promClaim_ok around page size4K claims
      obtain ⟨after, run⟩ := ih middle
      exact ⟨after, (Prog.bind_run_ok claimed).trans run⟩

/-- The pages of a range that does not end in the last page. -/
theorem promEnsureClaimed_row {virt size : Nat} (inside : virt + 4096 * ((size + 4095) / 4096) < 0x100000000)
    (enough : (size + 4095) / 4096 < around.fuel) (claims : Claims) :
    promEnsureClaimed around virt size claims =
      claimEach around (pageRow ((size + 4095) / 4096) virt) claims := by
  have limit : wrap (virt + size) = virt + size := Nat.mod_eq_of_lt (by omega)
  rw [promEnsureClaimed, limit, ensureFrom_asks, pagesAsked_row inside enough (by omega)]

/-- A firmware that grants everything is asked for these pages. -/
theorem claimEach_granted {around : Surroundings} (plain : around.workAround = none)
    (grants : ∀ used range, around.grant used range = true) (pages : List Nat) (claims : Claims) :
    ∃ after, claimEach around pages claims = .ok ⟨⟩ after ∧
      after.granted = claims.granted ++ pages.map fun page => (page, size4K) := by
  induction pages generalizing claims with
  | nil => exact ⟨claims, rfl, (List.append_nil _).symm⟩
  | cons page pages ih =>
      have claimed : promClaim around page size4K claims = .ok page (claims.claim (page, size4K)) := by
        rw [promClaim, Prog.view_bind, plain]
        exact if_pos (grants _ _) ▸ rfl
      obtain ⟨after, run, granted⟩ := ih (claims.claim (page, size4K))
      refine ⟨after, (Prog.bind_run_ok claimed).trans run, ?_⟩
      rw [granted, Claims.claim, List.append_assoc]
      rfl

end Claiming

section Ensuring

/-- `prom_ensure_claimed` ends, whatever the firmware grants, having asked for
`pages`, which are no more than the size takes and hold all of the range. -/
structure Ensures (virt size : Nat) (pages : List Nat) : Prop where
  asks : ∃ fuel, ∀ around : Surroundings, fuel ≤ around.fuel → ∀ claims,
    promEnsureClaimed around virt size claims = claimEach around pages claims
  few : pages.length ≤ (size + 4095) / 4096
  covers : ∀ byte, virt ≤ byte → byte < virt + size → ∃ page ∈ pages, page ≤ byte ∧ byte < page + size4K

variable {virt size : Nat}

/-- What a firmware that grants everything is asked for is what the loop asks for. -/
theorem Ensures.pagesAsked {pages : List Nat} (ensures : Ensures virt size pages) :
    ∃ fuel, pagesAsked (wrap (virt + size)) fuel virt = some pages := by
  obtain ⟨fuel, asks⟩ := ensures.asks
  let open' : Surroundings :=
    { grant := fun _ _ => true, workAround := none, files := fun _ => ⟨.ok 0, .ok ()⟩, memory := fun _ => 0, fuel }
  have run := asks open' (Nat.le_refl fuel) (Claims.start [])
  rw [promEnsureClaimed, ensureFrom_asks] at run
  have plain : open'.workAround = none := rfl
  obtain ⟨after, returned, granted⟩ := claimEach_granted plain (fun _ _ => rfl) pages (Claims.start [])
  rw [returned] at run
  refine ⟨fuel, ?_⟩
  cases asked : Loader.pagesAsked (wrap (virt + size)) fuel virt with
  | none =>
      rw [asked] at run
      cases run
  | some other =>
      rw [asked] at run
      obtain ⟨after', returned', granted'⟩ := claimEach_granted plain (fun _ _ => rfl) other (Claims.start [])
      obtain rfl : after' = after := by
        cases returned'.symm.trans run
        rfl
      have same : other.map (fun page => (page, size4K)) = pages.map fun page => (page, size4K) :=
        List.append_cancel_left (granted'.symm.trans granted)
      have injective : Function.Injective fun page : Nat => (page, size4K) := fun _ _ same => (Prod.mk.inj same).1
      rw [List.map_injective_iff.mpr injective same]

/-- The loop ends, and covers its range, exactly where the page behind the range
is still in the address space. -/
theorem ensures_iff (virtFits : virt < 0x100000000) (sizeFits : size < 0x100000000) :
    (∃ pages, Ensures virt size pages) ↔ size = 0 ∨ virt + 4096 * ((size + 4095) / 4096) < 0x100000000 := by
  constructor
  · rintro ⟨pages, ensures⟩
    by_contra neither
    obtain ⟨some', outside⟩ := not_or.mp neither
    obtain ⟨fuel, asked⟩ := ensures.pagesAsked
    by_cases inside : virt + size < 0x100000000
    · have limit : wrap (virt + size) = virt + size := Nat.mod_eq_of_lt inside
      rw [limit, pagesAsked_endless virtFits (by omega)] at asked
      cases asked
    · have limit : ¬virt < wrap (virt + size) := by
        have wrapped : wrap (virt + size) = (virt + size) % 0x100000000 := rfl
        omega
      obtain ⟨page, mem, -⟩ := ensures.covers virt (Nat.le_refl virt) (by omega)
      cases fuel with
      | zero => cases asked
      | succ fuel =>
          rw [Loader.pagesAsked, if_neg limit] at asked
          cases asked
          cases mem
  · intro fits
    have row : virt + 4096 * ((size + 4095) / 4096) < 0x100000000 := by omega
    exact ⟨pageRow ((size + 4095) / 4096) virt,
      ⟨(size + 4095) / 4096 + 1, fun _ enough => promEnsureClaimed_row row enough⟩,
      Nat.le_of_eq (pageRow_length ..), fun byte lower upper => pageRow_covers lower (by omega)⟩

theorem ensures_sample : ∃ pages, Ensures 0x800054 0x2000 pages :=
  (ensures_iff (by decide) (by decide)).mpr (.inr (by decide))

/-- In front of the last byte of the address space the loop does not end. -/
theorem ensure_endless :
    (∀ around claims, promEnsureClaimed around 0xFFFFF000 0xFFF claims = .unfinished) ∧
      ¬∃ pages, Ensures 0xFFFFF000 0xFFF pages := by
  have endless (around : Surroundings) (claims : Claims) :
      promEnsureClaimed around 0xFFFFF000 0xFFF claims = .unfinished := by
    rw [promEnsureClaimed, ensureFrom_asks, pagesAsked_endless (by decide) (by decide)]
  refine ⟨endless, fun ⟨pages, ensures⟩ => ?_⟩
  obtain ⟨fuel, asked⟩ := ensures.pagesAsked
  rw [pagesAsked_endless (by decide) (by decide)] at asked
  cases asked

end Ensuring

end IQuik.Loader
