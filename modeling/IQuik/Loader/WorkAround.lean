import IQuik.Loader.Pages
import IQuik.Prom.Calls

namespace IQuik.Loader

open IQuik.Data IQuik.Program

/-! # Loading with `PROM_CLAIM_WORK_AROUND`

With the bit set `prom_claim` returns an address that nothing was claimed at, which
`prom_release` still releases. -/

/-- What `prom_claim` returns when the calls come back so. -/
def MethodCalls.value (virt : Nat) : MethodCalls → Nat
  | .noMemory => badAddress
  | .noMapping => badAddress
  | .mapped => virt

/-- What `prom_claim` releases then. -/
def MethodCalls.released (range : Range) : MethodCalls → List Range
  | .noMemory => []
  | .noMapping => [range]
  | .mapped => []

section Simulating

variable {virt size memory mmu : Nat} {exchanges : List Prom.Exchange} {value : Prom.Cell}

theorem promClaim_workAround {around : Surroundings} {calls : List Range → Range → MethodCalls}
    (flag : around.workAround = some calls) (virt size : Nat) (claims : Claims) :
    ∃ after, promClaim around virt size claims = .ok ((calls claims.inUse (virt, size)).value virt) after ∧
      after.granted = claims.granted ∧
      after.released = claims.released ++ (calls claims.inUse (virt, size)).released (virt, size) := by
  rw [promClaim, Prog.view_bind, flag]
  dsimp only
  cases calls claims.inUse (virt, size) with
  | noMemory => exact ⟨_, rfl, rfl, (List.append_nil _).symm⟩
  | noMapping => exact ⟨_, rfl, rfl, rfl⟩
  | mapped => exact ⟨_, rfl, rfl, (List.append_nil _).symm⟩

/-- The call claims the range, of an instance or of the firmware itself. -/
def ClaimsRange (exchange : Prom.Exchange) : Prop :=
  exchange.call.service = str "claim" ∨ ∃ handle args, exchange.Invokes (str "claim") handle args

theorem not_claims_of_makes {exchange : Prom.Exchange} {cell : Prom.Cell} {cells : List Prom.Cell}
    (made : exchange.Makes (cell :: cells)) (other : cell ≠ .text (str "claim")) : ¬ClaimsRange exchange := by
  rintro (service | ⟨handle, args, -, inputs⟩)
  · exact absurd (made.1.symm.trans service) (by decide)
  · exact other (List.cons.inj (made.2.symm.trans inputs)).1

theorem not_releases_of_makes {exchange : Prom.Exchange} {cell : Prom.Cell} {cells : List Prom.Cell}
    (made : exchange.Makes (cell :: cells)) (other : cell ≠ .text (str "release")) (handle : Nat)
    (args : List Nat) : ¬exchange.Invokes (str "release") handle args :=
  fun invoked => other (List.cons.inj (made.2.symm.trans invoked.2)).1

/-- The calls of the work-around claim nothing, and are of one of the kinds that the
loader tells apart. -/
theorem worksAround_calls (works : Prom.WorksAround memory mmu virt size exchanges value) :
    (∀ exchange ∈ exchanges, ¬ClaimsRange exchange) ∧
      ∃ calls : MethodCalls, value = .word (calls.value virt) ∧
        ((∃ exchange ∈ exchanges, exchange.Invokes (str "release") memory [size, virt]) ↔
          calls.released (virt, size) ≠ []) := by
  cases works with
  | noMemory asked =>
      refine ⟨?_, .noMemory, rfl, iff_of_false ?_ (not_not_intro rfl)⟩
      · simpa using not_claims_of_makes asked nofun
      · simpa using not_releases_of_makes asked nofun memory [size, virt]
  | noMapping asked mapping undone =>
      refine ⟨?_, .noMapping, rfl, iff_of_true ⟨_, by simp, undone⟩ (List.cons_ne_nil _ _)⟩
      simpa using ⟨not_claims_of_makes asked nofun, not_claims_of_makes mapping nofun,
        not_claims_of_makes undone (by decide)⟩
  | mapped asked mapping done =>
      refine ⟨?_, .mapped, rfl, iff_of_false ?_ (not_not_intro rfl)⟩
      · simpa using ⟨not_claims_of_makes asked nofun, not_claims_of_makes mapping nofun,
          not_claims_of_makes done (by decide)⟩
      · simpa using ⟨not_releases_of_makes asked nofun memory [size, virt],
          not_releases_of_makes mapping nofun memory [size, virt],
          not_releases_of_makes done (by decide) memory [size, virt]⟩

/-- The loader's `prom_claim` does what the one on the calls of the firmware does:
with the kind of answers that it gets it returns the same address, is granted nothing,
and releases the range when `release` is called. -/
theorem promClaim_simulates (firmware : Prom.Firmware) (memory mmu : Nat)
    (held : List Prom.Exchange → Prom.Cell) (virt size : Nat) (prom : Prom.PromState) :
    ∃ (calls : MethodCalls) (after : Prom.PromState) (exchanges : List Prom.Exchange),
      Prom.promClaim firmware ⟨true, memory, mmu⟩ held virt size prom = .ok (.word (calls.value virt)) after ∧
      after.exchanges = prom.exchanges ++ exchanges ∧
      (∀ exchange ∈ exchanges, ¬ClaimsRange exchange) ∧
      ∀ (around : Surroundings) (claims : Claims), around.workAround = some (fun _ _ => calls) →
        ∃ done, promClaim around virt size claims = .ok (calls.value virt) done ∧
          done.granted = claims.granted ∧
          ((∃ exchange ∈ exchanges, exchange.Invokes (str "release") memory [size, virt]) →
            done.released = claims.released ++ [(virt, size)]) ∧
          ((¬∃ exchange ∈ exchanges, exchange.Invokes (str "release") memory [size, virt]) →
            done.released = claims.released) := by
  obtain ⟨value, after, exchanges, run, made, works⟩ :=
    Prom.promClaim_worksAround firmware held virt size prom memory mmu
  obtain ⟨unclaimed, calls, rfl, releases⟩ := worksAround_calls works
  refine ⟨calls, after, exchanges, run, made, unclaimed, fun around claims flag => ?_⟩
  obtain ⟨done, claimed, granted, released⟩ := promClaim_workAround flag virt size claims
  refine ⟨done, claimed, granted, fun undone => ?_, fun kept => ?_⟩
  · have some' := releases.mp undone
    rw [released]
    cases calls with
    | noMemory => exact absurd rfl some'
    | noMapping => rfl
    | mapped => exact absurd rfl some'
  · have none : calls.released (virt, size) = [] := not_not.mp (mt releases.mpr kept)
    rw [released, none, List.append_nil]

end Simulating

/-! ## Attempts -/

/-- No range is granted. -/
def Unclaimed (before after : Claims) : Prop := after.granted = before.granted

theorem frameUnclaimed : Prog.Frame Unclaimed := .of_same Claims.granted

section Returns

variable {around : Surroundings} {claims after : Claims} {code : QuikErr}

theorem promClaim_value {virt size found : Nat} (run : promClaim around virt size claims = .ok found after) :
    found = virt ∨ found = badAddress := by
  rw [promClaim, Prog.view_bind] at run
  cases flag : around.workAround with
  | some calls =>
      rw [flag] at run
      dsimp only at run
      cases answer : calls claims.inUse (virt, size) <;> rw [answer] at run <;> cases run
      · exact .inr rfl
      · exact .inr rfl
      · exact .inl rfl
  | none =>
      rw [flag] at run
      dsimp only at run
      split at run
      · cases run
        exact .inl rfl
      · cases run
        exact .inr rfl

theorem claimFrom_not_error {size fuel addr : Nat} : claimFrom around size fuel addr claims ≠ .error code after := by
  induction fuel generalizing addr claims with
  | zero =>
      intro run
      cases run
  | succ fuel ih =>
      intro run
      rw [claimFrom] at run
      split at run
      · obtain ⟨found, middle, claimed⟩ := promClaim_ok around addr size claims
        rw [Prog.bind_run_ok claimed] at run
        split at run
        · cases run
        · exact ih run
      · cases run

/-- The loop goes up. -/
theorem claimFrom_place {size fuel addr place : Nat}
    (run : claimFrom around size fuel addr claims = .ok place after) : place = badAddress ∨ addr ≤ place := by
  induction fuel generalizing addr claims with
  | zero => cases run
  | succ fuel ih =>
      rw [claimFrom] at run
      split at run
      · have known : addr ≤ 0x10000000 := ‹_›
        obtain ⟨found, middle, claimed, rest⟩ := Prog.bind_eq_ok.mp run
        split at rest
        · obtain ⟨rfl, rfl⟩ := Prog.pure_eq_ok.mp rest
          exact .inr (Nat.le_of_eq ((promClaim_value claimed).resolve_right ‹_›).symm)
        · have next : wrap (addr + size1M) = addr + 0x100000 :=
            Nat.mod_eq_of_lt (show addr + 0x100000 < 0x100000000 by omega)
          refine (ih rest).imp_right fun above => ?_
          rw [next] at above
          omega
      · obtain ⟨rfl, rfl⟩ := Prog.pure_eq_ok.mp run
        exact .inl rfl

theorem loadImage_not_error {file : File} {start : Nat} :
    loadImage around file start claims ≠ .error code after := by
  intro run
  rw [loadImage] at run
  cases known : file.len with
  | error code =>
      rw [known] at run
      cases run
  | ok len =>
      rw [known] at run
      obtain failed | ⟨place, middle, -, rest⟩ := Prog.bind_eq_error.mp run
      · exact claimFrom_not_error failed
      · split at rest
        · cases rest
        · cases load : file.load with
          | ok =>
              rw [load] at rest
              cases rest
          | error code =>
              rw [load] at rest
              obtain ⟨released, run⟩ := promRelease_ok around place len.toNat middle
              dsimp only at rest
              rw [Prog.bind_run_ok run] at rest
              cases rest

theorem place_ne_zero {place : Nat} (above : alignUp loadBase size1M ≤ place) : place ≠ 0 := by
  have base : alignUp loadBase size1M = 0x800000 := by decide
  omega

/-- What is released of a kernel is not at address zero. -/
theorem loadImage_place {file : File} {loaded : Loaded}
    (run : loadImage around file loadBase claims = .ok loaded after) : loaded.place ≠ 0 := by
  rw [loadImage] at run
  cases known : file.len with
  | error code =>
      rw [known] at run
      cases run
      exact Nat.noConfusion
  | ok len =>
      rw [known] at run
      obtain ⟨place, middle, claimed, rest⟩ := Prog.bind_eq_ok.mp run
      have some' : place ≠ 0 := (claimFrom_place claimed).elim (fun bad => bad ▸ by decide) place_ne_zero
      split at rest
      · cases rest
        exact some'
      · cases load : file.load with
        | ok =>
            rw [load] at rest
            cases rest
            exact some'
        | error code =>
            rw [load] at rest
            obtain ⟨-, released, -, rest⟩ := Prog.bind_eq_ok.mp rest
            cases rest
            exact some'

theorem attempt_not_error {α : Type} {program : LoadProg α} : Prog.attempt program claims ≠ .error code after := by
  intro run
  rw [Prog.attempt] at run
  cases step : program claims <;> rw [step] at run <;> cases run

end Returns

section Attempt

variable {around : Surroundings} {calls : List Range → Range → MethodCalls}

theorem promRelease_unclaimed (around : Surroundings) (virt size : Nat) :
    Prog.Keeps Unclaimed (promRelease around virt size) := by
  have once : Prog.Keeps Unclaimed (Prog.update fun claims => claims.release (virt, size) : LoadProg PUnit) :=
    .update fun _ => rfl
  rw [promRelease]
  split
  · exact .bind frameUnclaimed once fun _ => .bind frameUnclaimed once fun _ => once
  · exact once

theorem loadFails_unclaimed (around : Surroundings) (kernel : Loaded) (code : QuikErr) :
    Prog.Keeps Unclaimed (loadFails around kernel code) := by
  rw [loadFails]
  split
  · exact .bind frameUnclaimed (promRelease_unclaimed around _ _) fun _ => .fail frameUnclaimed code
  · exact .fail frameUnclaimed code

section Unclaiming

variable (flag : around.workAround = some calls)
include flag

theorem promClaim_unclaimed (virt size : Nat) : Prog.Keeps Unclaimed (promClaim around virt size) := by
  intro before after returned
  obtain ⟨done, run, granted, -⟩ := promClaim_workAround flag virt size before
  rw [run] at returned
  cases returned
  exact granted

theorem claimFrom_unclaimed (size fuel addr : Nat) : Prog.Keeps Unclaimed (claimFrom around size fuel addr) := by
  induction fuel generalizing addr with
  | zero => exact .unfinished
  | succ fuel ih =>
      exact .ite (.bind frameUnclaimed (promClaim_unclaimed flag addr size)
        fun _ => .ite (.pure frameUnclaimed _) (ih _)) (.pure frameUnclaimed _)

theorem ensureFrom_unclaimed (limit fuel addr : Nat) : Prog.Keeps Unclaimed (ensureFrom around limit fuel addr) := by
  induction fuel generalizing addr with
  | zero => exact .unfinished
  | succ fuel ih =>
      exact .ite (.bind frameUnclaimed (promClaim_unclaimed flag addr size4K) fun _ => ih _)
        (.pure frameUnclaimed _)

theorem elfParse_unclaimed (loadBuf len : Nat) : Prog.Keeps Unclaimed (elfParse around loadBuf len) := by
  rw [elfParse]
  cases elfExtent around.memory loadBuf with
  | error code => exact .fail frameUnclaimed code
  | ok extent =>
      exact .ite (.bind frameUnclaimed (ensureFrom_unclaimed flag _ _ _) fun _ => .pure frameUnclaimed _)
        (.pure frameUnclaimed _)

theorem loadImage_unclaimed (file : File) (start : Nat) : Prog.Keeps Unclaimed (loadImage around file start) := by
  rw [loadImage]
  cases file.len with
  | error code => exact .pure frameUnclaimed _
  | ok size =>
      refine .bind frameUnclaimed (claimFrom_unclaimed flag _ _ _) fun place =>
        .ite (.pure frameUnclaimed _) ?_
      cases file.load with
      | ok => exact .pure frameUnclaimed _
      | error code => exact .bind frameUnclaimed (promRelease_unclaimed around _ _) fun _ => .pure frameUnclaimed _

theorem loadInitrd_unclaimed (kernel : Loaded) (image : LoadState) (initrd : Option FsPath) :
    Prog.Keeps Unclaimed (loadInitrd around kernel image initrd) := by
  cases initrd with
  | none => exact .bind frameUnclaimed (.update fun _ => rfl) fun _ => .pure frameUnclaimed _
  | some path =>
      refine .bind frameUnclaimed (loadImage_unclaimed flag _ _) fun loaded => ?_
      cases loaded.result with
      | error code => exact loadFails_unclaimed around kernel code
      | ok => exact .bind frameUnclaimed (.update fun _ => rfl) fun _ => .pure frameUnclaimed _

/-- An attempt is granted nothing. -/
theorem loadPaths_unclaimed (paths : Except QuikErr LoadPaths) :
    Prog.Keeps Unclaimed (loadPaths around paths) := by
  cases paths with
  | error code => exact .fail frameUnclaimed code
  | ok paths =>
      refine .bind frameUnclaimed (loadImage_unclaimed flag _ _) fun kernel => ?_
      cases kernel.result with
      | error code => exact loadFails_unclaimed around kernel code
      | ok =>
          refine .bind frameUnclaimed (.attempt (elfParse_unclaimed flag _ _)) fun image => ?_
          cases image with
          | error code => exact loadFails_unclaimed around kernel code
          | ok image => exact loadInitrd_unclaimed flag kernel image paths.initrd

theorem loadFails_released {kernel : Loaded} {reason code : QuikErr} {claims after : Claims}
    (place : kernel.place ≠ 0) (run : loadFails around kernel reason claims = .error code after) :
    after.released ≠ [] := by
  rw [loadFails, if_pos place, promRelease, if_pos (by rw [flag]; rfl)] at run
  cases run
  simp [Claims.release]

/-- An attempt that fails with its paths known has released something. -/
theorem loadPaths_releases {paths : LoadPaths} {used : List Range} {code : QuikErr} {after : Claims}
    (run : loadPaths around (.ok paths) (Claims.start used) = .error code after) : after.released ≠ [] := by
  rw [loadPaths] at run
  obtain failed | ⟨kernel, middle, loads, rest⟩ := Prog.bind_eq_error.mp run
  · exact absurd failed loadImage_not_error
  have place : kernel.place ≠ 0 := loadImage_place loads
  cases result : kernel.result with
  | error reason =>
      rw [result] at rest
      exact loadFails_released flag place rest
  | ok =>
      rw [result] at rest
      obtain failed | ⟨image, state, -, rest⟩ := Prog.bind_eq_error.mp rest
      · exact absurd failed attempt_not_error
      cases image with
      | error reason => exact loadFails_released flag place rest
      | ok image =>
          cases initrd : paths.initrd with
          | none =>
              rw [initrd] at rest
              cases rest
          | some path =>
              rw [initrd] at rest
              obtain failed | ⟨loaded, last, -, rest⟩ := Prog.bind_eq_error.mp rest
              · exact absurd failed loadImage_not_error
              cases result : loaded.result with
              | error reason =>
                  rw [result] at rest
                  exact loadFails_released flag place rest
              | ok =>
                  rw [result] at rest
                  cases rest

end Unclaiming

end Attempt

end IQuik.Loader
