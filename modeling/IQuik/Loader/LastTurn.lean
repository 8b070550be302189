import IQuik.Loader.Main

namespace IQuik.Loader

open IQuik.Data IQuik.Program IQuik.Config

/-! # What the last turn hands over -/

/-- A file of this length was loaded to a place that was granted with `before` in use, and that is
one of those in use now. -/
structure InMemory (around : Surroundings) (path : FsPath) (before : List Range) (place len : Nat)
    (used : List Range) : Prop where
  known : ∃ size, (around.files path).len = .ok size ∧ size.toNat = len
  load : (around.files path).load = .ok ()
  granted : ∃ others, before ⊆ others ∧ around.grant others (place, len) = true
  inUse : (place, len) ∈ used

/-- What `elf_parse` makes of a kernel at `place`. -/
def parsedImage (memory : Data.Image) (place : Nat) (extent : Extent) : LoadState where
  buf := place
  linkedBase := extent.linkedBase
  textOffset := extent.off
  textLen := extent.len
  entry := addrMask (memory.be32 (place + 24))

/-- The kernel and the initrd of `paths` are in memory, and `image` is that kernel. -/
structure Holding (around : Surroundings) (paths : LoadPaths) (image : LoadState) (before claims : Claims) : Prop where
  kernel : ∃ place len extent, InMemory around paths.kernel before.inUse place len claims.inUse ∧
    elfExtent around.memory place = .ok extent ∧ image = parsedImage around.memory place extent
  noInitrd : paths.initrd = none → claims.initrdBase = 0 ∧ claims.initrdLen = 0
  initrd : ∀ path, paths.initrd = some path →
    InMemory around path before.inUse claims.initrdBase claims.initrdLen claims.inUse

section Loading

variable {around : Surroundings} {paths : LoadPaths} {image result : LoadState} {claims after : Claims}

theorem InMemory.mono {path : FsPath} {place len : Nat} {first before used more : List Range}
    (held : InMemory around path before place len used) (earlier : first ⊆ before) (kept : used ⊆ more) :
    InMemory around path first place len more := by
  obtain ⟨others, within, granted⟩ := held.granted
  exact ⟨held.known, held.load, ⟨others, List.Subset.trans earlier within, granted⟩, kept held.inUse⟩

/-- An image that is loaded is in memory. -/
theorem loadImage_ok {path : FsPath} {start : Nat} {loaded : Loaded} (plain : around.workAround = none)
    (run : loadImage around (around.files path) start claims = .ok loaded after) (fine : loaded.result = .ok ()) :
    InMemory around path claims.inUse loaded.place loaded.len after.inUse ∧ claims.inUse ⊆ after.inUse := by
  cases loadImage_cases plain run with
  | noLength len => cases fine
  | noPlace known none => cases fine
  | noLoad known found above load => cases fine
  | loaded known found above granted load =>
      exact ⟨⟨⟨_, known, rfl⟩, load, ⟨_, List.Subset.refl _, granted⟩, .head _⟩, fun _ member => .tail _ member⟩

theorem claimAll_subset (claims : Claims) (ranges : List Range) : claims.inUse ⊆ (claims.claimAll ranges).inUse := by
  rw [claimAll_inUse]
  exact List.subset_append_right ..

theorem loadPaths_holding (plain : around.workAround = none)
    (run : loadPaths around (.ok paths) claims = .ok result after) :
    Holding around paths result claims after := by
  obtain ⟨kernel, first, loads, run⟩ := Prog.bind_eq_ok.mp run
  cases fine : kernel.result with
  | error code =>
      rw [fine] at run
      exact absurd run loadFails_ne_ok
  | ok value =>
      rw [fine] at run
      obtain ⟨inside, early⟩ := loadImage_ok plain loads fine
      obtain ⟨parsed, second, parses, run⟩ := Prog.bind_eq_ok.mp run
      obtain ⟨code, -, rfl, -⟩ | ⟨extent, header, rfl, rfl⟩ := elfParse_cases plain parses
      · exact absurd run loadFails_ne_ok
      have tail := claimAll_subset first (tailGranted around first.inUse kernel.place kernel.len extent)
      have held := inside.mono (List.Subset.refl _) tail
      cases path : paths.initrd with
      | none =>
          rw [path] at run
          cases run
          refine ⟨⟨_, _, extent, held, header, rfl⟩, fun _ => ⟨rfl, rfl⟩, fun other same => ?_⟩
          cases path.symm.trans same
      | some path' =>
          rw [path] at run
          obtain ⟨initrd, third, second, run⟩ := Prog.bind_eq_ok.mp run
          cases loaded : initrd.result with
          | error code =>
              rw [loaded] at run
              exact absurd run loadFails_ne_ok
          | ok value =>
              rw [loaded] at run
              cases run
              obtain ⟨more, kept⟩ := loadImage_ok plain second loaded
              refine ⟨⟨_, _, extent, held.mono (List.Subset.refl _) kept, header, rfl⟩, fun nothing => ?_, ?_⟩
              · cases path.symm.trans nothing
              · intro other same
                obtain rfl := Option.some.inj (path.symm.trans same)
                exact more.mono (List.Subset.trans early tail) (List.Subset.refl _)

theorem claimAll_initrd (claims : Claims) (ranges : List Range) : (claims.claimAll ranges).initrdBase = claims.initrdBase ∧
    (claims.claimAll ranges).initrdLen = claims.initrdLen := by
  induction ranges generalizing claims with
  | nil => exact ⟨rfl, rfl⟩
  | cons range ranges ih => exact ih (claims.claim range)

/-- Moving the kernel only adds to what is in use. -/
theorem elfRelo_keeps {pre24 : Bool} {memory : Data.Image} {moved : LoadState × Data.Image}
    (plain : around.workAround = none) (run : elfRelo around pre24 memory image claims = .ok moved after) :
    claims.inUse ⊆ after.inUse ∧ after.initrdBase = claims.initrdBase ∧ after.initrdLen = claims.initrdLen := by
  rw [elfRelo] at run
  split at run
  · split at run
    · cases run
    · obtain ⟨_, middle, claimed, run⟩ := Prog.bind_eq_ok.mp run
      cases run
      rw [ensureFrom_cases plain claimed]
      exact ⟨claimAll_subset _ _, claimAll_initrd _ _⟩
  · cases run
    exact ⟨List.Subset.refl _, rfl, rfl⟩

end Loading

/-- A turn, with the ranges `before` in use, found what the kernel is entered with, and left the
ranges `used` in use. -/
structure HandsOver (turn : Turn) (paths : LoadPaths) (pre24 : Bool) (entry : Entry) (before used : List Range) :
    Prop where
  prompt : ∃ config globals next, turnPaths config turn globals = .ok paths next
  bootargs : entry.bootargs = paths.params
  kernel : ∃ place len extent, InMemory turn.around paths.kernel before place len used ∧
    elfExtent turn.around.memory place = .ok extent ∧ ∃ claims moved after,
      elfRelo turn.around pre24 turn.around.memory (parsedImage turn.around.memory place extent) claims =
        .ok moved after ∧ entry.memory = moved.2 ∧ entry.start = elfStart moved.2 moved.1
  noInitrd : paths.initrd = none → entry.initrdBase = 0 ∧ entry.initrdLen = 0
  initrd : ∀ path, paths.initrd = some path → InMemory turn.around path before entry.initrdBase entry.initrdLen used

section Handing

variable {startup : Startup} {turns : List Turn} {used : List Range} {entry : Entry} {before after : Booting}
  {turn : Turn} {image : LoadState} {params : Str}

theorem bootTurn_ok (plain : turn.around.workAround = none) (run : bootTurn turn before = .ok (image, params) after) :
    ∃ paths globals, turnPaths before.setup.config turn before.globals = .ok paths globals ∧ params = paths.params ∧
      Holding turn.around paths image before.claims after.claims := by
  rw [bootTurn, Prog.view_bind] at run
  obtain ⟨paths, first, found, run⟩ := Prog.bind_eq_ok.mp run
  obtain ⟨globals, prompt, rfl⟩ := Prog.focus_eq_ok.mp found
  obtain ⟨result, second, loaded, run⟩ := Prog.bind_eq_ok.mp run
  obtain ⟨claims, loads, rfl⟩ := Prog.focus_eq_ok.mp loaded
  cases run
  exact ⟨paths, globals, prompt, rfl, loadPaths_holding plain loads⟩

/-- The last turn is the first that succeeds, and finds what the turns before it keep. -/
theorem bootTurns_ok {Kept : Booting → Prop}
    (keeps : ∀ turn ∈ turns, Prog.Keeps (fun before after : Booting => Kept before → Kept after) (bootTurn turn))
    (kept : Kept before) (run : bootTurns turns before = .ok (turn, image, params) after) :
    turn ∈ turns ∧ ∃ middle, Kept middle ∧ bootTurn turn middle = .ok (image, params) after := by
  induction turns generalizing before with
  | nil => cases run
  | cons first turns ih =>
      obtain ⟨result, middle, tried, rest⟩ := Prog.bind_eq_ok.mp run
      obtain ⟨booted, rfl, boots⟩ | ⟨code, rfl, failed⟩ := Prog.attempt_eq_ok.mp tried
      · cases rest
        exact ⟨.head _, before, kept, boots⟩
      · have next := keeps first (.head _) before middle (congrArg Outcome.state? failed) kept
        obtain ⟨member, found⟩ := ih (fun turn member => keeps turn (.tail _ member)) next rest
        exact ⟨.tail _ member, found⟩

/-- The kernel is entered with what its own turn found, after turns that keep something. -/
theorem iquikMain_handsOver (Kept : Booting → Prop) (plain : ∀ turn ∈ turns, turn.around.workAround = none)
    (keeps : ∀ turn ∈ turns, Prog.Keeps (fun before after : Booting => Kept before → Kept after) (bootTurn turn))
    (begins : ∀ before : Booting, before.claims = (Claims.start used).claim heapRange → Kept before)
    (run : iquikMain startup turns (.start used) = .ok entry after) :
    ∃ turn ∈ turns, ∃ paths middle loaded, Kept middle ∧ Kept loaded ∧ loaded.claims.inUse ⊆ after.claims.inUse ∧
      HandsOver turn paths after.bi.bootPre24 entry middle.claims.inUse after.claims.inUse := by
  obtain ⟨before, loaded, turn, image, params, -, started, looped, enters⟩ := iquikMain_ok run
  obtain ⟨member, middle, kept', boots⟩ := bootTurns_ok keeps (begins before started) looped
  obtain ⟨paths, globals, prompt, rfl, holding⟩ := bootTurn_ok (plain turn member) boots
  obtain ⟨moved, claims, relocates, rfl, rfl⟩ := enterKernel_ok enters
  obtain ⟨kept, base, len⟩ := elfRelo_keeps (plain turn member) relocates
  obtain ⟨place, size, extent, kernel, header, rfl⟩ := holding.kernel
  have last : Kept loaded := keeps turn member middle loaded (congrArg Outcome.state? boots) kept'
  refine ⟨turn, member, paths, middle, loaded, kept', last, kept, ⟨_, _, globals, prompt⟩, rfl, ?_, fun nothing => ?_, ?_⟩
  · have age : loaded.bi.unshimmed.bootPre24 = loaded.bi.bootPre24 := by
      rw [BootInfo.unshimmed]
      split <;> rfl
    rw [← age] at relocates
    exact ⟨place, size, extent, kernel.mono (List.Subset.refl _) kept, header, loaded.claims, moved, claims, relocates,
      rfl, rfl⟩
  · obtain ⟨noBase, noLen⟩ := holding.noInitrd nothing
    exact ⟨base.trans noBase, len.trans noLen⟩
  · intro path same
    have held := (holding.initrd path same).mono (List.Subset.refl _) kept
    rw [← base, ← len] at held
    exact held

/-- Whatever was tried before, the kernel is entered with what its own turn found: its parameters,
and, without the work-around, the kernel and the initrd in memory that was granted and is in use. -/
theorem handed_over (plain : ∀ turn ∈ turns, turn.around.workAround = none)
    (run : iquikMain startup turns (.start used) = .ok entry after) :
    ∃ turn ∈ turns, ∃ paths before, HandsOver turn paths after.bi.bootPre24 entry before after.claims.inUse := by
  obtain ⟨turn, member, paths, middle, -, -, -, -, hands⟩ :=
    iquikMain_handsOver (fun _ => True) plain (fun _ _ _ _ _ => id) (fun _ _ => trivial) run
  exact ⟨turn, member, paths, _, hands⟩

end Handing

theorem typedTurns_plain : ∀ turn ∈ typedTurns, turn.around.workAround = none := by
  intro turn member
  rcases List.mem_cons.mp member with rfl | later
  · rfl
  · obtain rfl := List.mem_singleton.mp later
    rfl

theorem handed_over_typed : ∃ entry after, iquikMain typedStartup typedTurns (.start []) = .ok entry after ∧
    ∃ turn ∈ typedTurns, ∃ paths before,
      HandsOver turn paths after.bi.bootPre24 entry before after.claims.inUse := by
  obtain ⟨entry, after, run⟩ := typed_run
  exact ⟨entry, after, run, handed_over typedTurns_plain run⟩

/-! ## What nobody gives back

A kernel that cannot be loaded is released twice, or released without having been claimed. -/

section Owning

variable {around : Surroundings} {range : Range} {claims after : Claims} {image : LoadState}

/-- A range that has bytes, and does not start at the address that stands for none. -/
structure Range.Proper (range : Range) : Prop where
  bytes : 0 < range.2
  place : range.1 ≠ badAddress

/-- What is granted is not what is in use. -/
theorem Range.Proper.granted_ne {other : Range} (proper : range.Proper) (careful : Careful around.grant)
    (owned : range ∈ claims.inUse) (granted : around.grant claims.inUse other = true) : range ≠ other := by
  rintro rfl
  have first : range.Holds range.1 := ⟨Nat.le_refl _, Nat.lt_add_of_pos_right proper.bytes⟩
  exact careful _ _ granted range owned range.1 first first

theorem release_keeps {other : Range} (owned : range ∈ claims.inUse) (differs : range ≠ other) :
    range ∈ (claims.release other).inUse := (List.mem_erase_of_ne differs).mpr owned

theorem firstGranted_granted {used : List Range} {size fuel addr place : Nat}
    (found : firstGranted around used size fuel addr = some place) : around.grant used (place, size) = true := by
  induction fuel generalizing addr with
  | zero => cases found
  | succ fuel ih =>
      rw [firstGranted] at found
      split_ifs at found with inside granted
      · obtain rfl := Option.some.inj found
        exact granted
      · exact ih found

/-- An image that is loaded, or not, is another range than one in use, and leaves that there. -/
theorem loadImage_owned {file : File} {start : Nat} {loaded : Loaded} (plain : around.workAround = none)
    (careful : Careful around.grant)
    (proper : range.Proper) (owned : range ∈ claims.inUse)
    (run : loadImage around file start claims = .ok loaded after) :
    range ∈ after.inUse ∧ range ≠ (loaded.place, loaded.len) := by
  have empty (place : Nat) : range ≠ (place, 0) := by
    rintro rfl
    exact absurd proper.bytes (Nat.lt_irrefl 0)
  have nowhere (len : Nat) : range ≠ (badAddress, len) := by
    rintro rfl
    exact proper.place rfl
  cases loadImage_cases plain run with
  | noLength len => exact ⟨owned, empty _⟩
  | noPlace known none => exact ⟨owned, nowhere _⟩
  | noLoad known found above load =>
      have differs := proper.granted_ne careful owned (firstGranted_granted found)
      exact ⟨release_keeps (.tail _ owned) differs, differs⟩
  | loaded known found above granted load =>
      exact ⟨.tail _ owned, proper.granted_ne careful owned granted⟩

theorem loadFails_owned {kernel : Loaded} {code : QuikErr} (plain : around.workAround = none)
    (differs : range ≠ (kernel.place, kernel.len))
    (owned : range ∈ claims.inUse) (returned : (loadFails around kernel code claims).state? = some after) :
    range ∈ after.inUse := by
  rw [loadFails] at returned
  split at returned
  · rw [Prog.bind_run_ok (promRelease_run plain _ _ _)] at returned
    cases returned
    exact release_keeps owned differs
  · cases returned
    exact owned

/-- One attempt, however it ends, gives back nothing that was in use before it. -/
theorem loadPaths_owned {paths : Except QuikErr LoadPaths} (plain : around.workAround = none) (careful : Careful around.grant) (proper : range.Proper)
    (owned : range ∈ claims.inUse) (returned : (loadPaths around paths claims).state? = some after) :
    range ∈ after.inUse := by
  cases paths with
  | error code =>
      cases returned
      exact owned
  | ok paths =>
      obtain ⟨code, failed⟩ | ⟨kernel, first, loads, rest⟩ := Prog.bind_state?.mp returned
      · exact absurd failed loadImage_not_error
      obtain ⟨kept, differs⟩ := loadImage_owned plain careful proper owned loads
      cases fine : kernel.result with
      | error code =>
          rw [fine] at rest
          exact loadFails_owned plain differs kept rest
      | ok value =>
          rw [fine] at rest
          obtain ⟨code, failed⟩ | ⟨parsed, second, parses, next⟩ := Prog.bind_state?.mp rest
          · exact absurd failed attempt_not_error
          obtain ⟨code, -, rfl, rfl⟩ | ⟨extent, -, rfl, rfl⟩ := elfParse_cases plain parses
          · exact loadFails_owned plain differs kept next
          have claimed := claimAll_subset first (tailGranted around first.inUse kernel.place kernel.len extent) kept
          cases path : paths.initrd with
          | none =>
              rw [path] at next
              cases next
              exact claimed
          | some path' =>
              rw [path] at next
              obtain ⟨code, failed⟩ | ⟨initrd, third, second, ends⟩ := Prog.bind_state?.mp next
              · exact absurd failed loadImage_not_error
              obtain ⟨last, -⟩ := loadImage_owned plain careful proper claimed second
              cases loaded : initrd.result with
              | error code =>
                  rw [loaded] at ends
                  exact loadFails_owned plain differs last ends
              | ok value =>
                  rw [loaded] at ends
                  cases ends
                  exact last

end Owning

section Safety

variable {startup : Startup} {turns : List Turn} {used : List Range} {entry : Entry} {after : Booting} {range : Range}

theorem bootTurn_owned {turn : Turn} (plain : turn.around.workAround = none) (careful : Careful turn.around.grant) (proper : range.Proper) :
    Prog.Keeps (fun before after : Booting => range ∈ before.claims.inUse → range ∈ after.claims.inUse)
      (bootTurn turn) := by
  have frame : Prog.Frame fun before after : Booting => range ∈ before.claims.inUse → range ∈ after.claims.inUse :=
    ⟨fun _ => id, fun first second => second ∘ first⟩
  have finds (config : Parser) : Prog.Keeps (fun _ _ : Globals => True) (turnPaths config turn) := fun _ _ _ => trivial
  have loads (paths : LoadPaths) : Prog.Keeps (fun before after : Claims => range ∈ before.inUse → range ∈ after.inUse)
      (loadPaths turn.around (.ok paths)) := fun _ _ returned owned => loadPaths_owned plain careful proper owned returned
  refine Prog.Keeps.bind frame (Prog.Keeps.view frame _) fun config => ?_
  refine Prog.Keeps.bind frame ((finds config).focus fun _ _ _ => id) fun paths => ?_
  exact Prog.Keeps.bind frame ((loads paths).focus fun _ _ kept => kept) fun image => Prog.Keeps.pure frame _

/-- With a firmware that grants no memory that is in use, and without the work-around, what was in
use before the loop, and the heap, stay in use whatever attempts fail, and the kernel and the initrd
are loaded apart from them. -/
theorem owned_kept (plain : ∀ turn ∈ turns, turn.around.workAround = none)
    (careful : ∀ turn ∈ turns, Careful turn.around.grant) (owned : range ∈ heapRange :: used)
    (proper : range.Proper) (run : iquikMain startup turns (.start used) = .ok entry after) :
    range ∈ after.claims.inUse ∧ Range.Apart (entry.initrdBase, entry.initrdLen) range ∧
      ∃ turn ∈ turns, ∃ paths before place len,
        HandsOver turn paths after.bi.bootPre24 entry before after.claims.inUse ∧
        InMemory turn.around paths.kernel before place len after.claims.inUse ∧ Range.Apart (place, len) range := by
  obtain ⟨turn, member, paths, middle, loaded, mine, still, kept, hands⟩ :=
    iquikMain_handsOver (fun booting => range ∈ booting.claims.inUse) plain
      (fun turn member => bootTurn_owned (plain turn member) (careful turn member) proper) (fun before started => started ▸ owned) run
  obtain ⟨place, len, extent, held, -⟩ := hands.kernel
  have apart {path : FsPath} {place len : Nat}
      (held : InMemory turn.around path middle.claims.inUse place len after.claims.inUse) :
      Range.Apart (place, len) range := by
    obtain ⟨others, within, granted⟩ := held.granted
    exact careful turn member _ _ granted range (within mine)
  refine ⟨kept still, ?_, turn, member, paths, _, place, len, hands, held, apart held⟩
  cases path : paths.initrd with
  | none =>
      obtain ⟨-, empty⟩ := hands.noInitrd path
      rw [empty]
      intro byte holds
      exact absurd holds.2 (Nat.not_lt.mpr holds.1)
  | some path' => exact apart (hands.initrd path' path)

end Safety

theorem owned_kept_typed : ∃ entry after, iquikMain typedStartup typedTurns (.start []) = .ok entry after ∧
    (heapRange ∈ after.claims.inUse ∧ Range.Apart (entry.initrdBase, entry.initrdLen) heapRange ∧
      ∃ turn ∈ typedTurns, ∃ paths before place len,
        HandsOver turn paths after.bi.bootPre24 entry before after.claims.inUse ∧
        InMemory turn.around paths.kernel before place len after.claims.inUse ∧
        Range.Apart (place, len) heapRange) := by
  obtain ⟨entry, after, run⟩ := typed_run
  refine ⟨entry, after, run, owned_kept typedTurns_plain (fun turn member => ?_) (.head _) ⟨by decide, by decide⟩ run⟩
  rcases List.mem_cons.mp member with rfl | later
  · exact careful_grantFree
  · obtain rfl := List.mem_singleton.mp later
    exact careful_grantFree

end IQuik.Loader
