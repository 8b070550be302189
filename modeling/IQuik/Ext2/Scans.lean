import Mathlib.Data.Fintype.EquivFin
import Mathlib.Logic.Relation
import IQuik.Ext2.BlockMap
import IQuik.Ext2.Records

namespace IQuik.Ext2

open IQuik.Data IQuik.Program IQuik.Storage Relation

/-! # Scans of directories

A scan goes from entry to entry by the lengths they state. On a steady machine
what it does at a position does not depend on how it got there, so it ends if and
only if no position comes up twice.
-/

section Cycles

variable {step : Nat → Nat → Prop} {start bound : Nat}

/-- Nothing that a walk comes to comes up again, if the walk ends. -/
theorem acyclic_of_acc (ends : Acc (fun q p => step p q) start) {p : Nat}
    (reached : ReflTransGen step start p) : ¬TransGen step p p := by
  have later : Acc (fun q p => step p q) p := by
    induction reached with
    | refl => exact ends
    | tail _ goes ih => exact ih.inv goes
  induction later with
  | intro p _ ih =>
      intro cycle
      obtain ⟨q, goes, back⟩ := TransGen.head'_iff.mp cycle
      exact ih q goes (reached.tail goes) (TransGen.tail' back goes)

/-- A walk on numbers below a bound ends if nothing that it comes to comes up
again. -/
theorem acc_of_acyclic (bounded : ∀ p q, step p q → p < bound)
    (acyclic : ∀ p, ReflTransGen step start p → ¬TransGen step p p) :
    Acc (fun q p => step p q) start := by
  have finite : Finite { p // p < bound ∧ ReflTransGen step start p } :=
    .of_injective (fun p => (⟨p.1, p.2.1⟩ : Fin bound)) fun _ _ same => Subtype.ext (Fin.mk.inj same)
  have transitive : IsTrans { p // p < bound ∧ ReflTransGen step start p } fun q p =>
      TransGen step p.1 q.1 := ⟨fun _ _ _ first second => second.trans first⟩
  have irreflexive : Std.Irrefl fun q p : { p // p < bound ∧ ReflTransGen step start p } =>
      TransGen step p.1 q.1 := ⟨fun p => acyclic p.1 p.2.2⟩
  have wellFounded := Finite.wellFounded_of_trans_of_irrefl
    fun q p : { p // p < bound ∧ ReflTransGen step start p } => TransGen step p.1 q.1
  have inside : ∀ p : { p // p < bound ∧ ReflTransGen step start p }, Acc (fun q p => step p q) p.1 := by
    intro p
    induction p using wellFounded.induction with
    | h p ih =>
        refine .intro _ fun q goes => ?_
        by_cases below : q < bound
        · exact ih ⟨q, below, p.2.2.tail goes⟩ (.single goes)
        · exact .intro _ fun next goes => absurd (bounded _ _ goes) below
  by_cases below : start < bound
  · exact inside ⟨start, below, .refl⟩
  · exact .intro _ fun next goes => absurd (bounded _ _ goes) below

end Cycles

variable {machine : Machine} {image : Nat → Image} {start fs : Fs} {dir : Node} {name : Option Str}

section Entries

/-- What a scan does after an entry. -/
inductive Scan where
  | found (node : Node) (type : FileType)
  | goOn (fpos : Nat)

/-- One iteration of `ext2fs_iterate_dir`, inside the directory. -/
def scanEntry (machine : Machine) (dir : Node) (name : Option Str) (fpos : Nat) : FsProg Scan := do
  let (direntlen, entry) ← direntAt machine dir fpos
  let next := (fpos + direntlen) % 2 ^ 32
  match entry, name with
  | none, _ => pure (.goOn next)
  | some entry, some name => do
      if ← Prog.defined (nameMatches entry.filename 0 entry.namelen name) then
        pure (.found entry.node entry.type)
      else pure (.goOn next)
  | some entry, none => do
      let _ ← nodeInode machine entry.node
      pure (.goOn next)

def Scan.after (loop : Nat → FsProg (Node × FileType)) : Scan → FsProg (Node × FileType)
  | .found node type => pure (node, type)
  | .goOn fpos => loop fpos

/-- Where the scan goes on. -/
def Scan.next? : Scan → Option Nat
  | .found _ _ => none
  | .goOn fpos => some fpos

theorem iterateDirFrom_inside (fuel : Nat) {fpos : Nat} (inside : fpos < dir.inode.size) :
    iterateDirFrom machine dir name (fuel + 1) fpos =
      scanEntry machine dir name fpos >>= Scan.after (iterateDirFrom machine dir name fuel) := by
  unfold scanEntry
  rw [iterateDirFrom, if_pos inside, Prog.bind_assoc]
  congr 1
  funext read
  obtain ⟨direntlen, entry⟩ := read
  cases entry with
  | none => rfl
  | some entry =>
      cases name with
      | none =>
          change (nodeInode machine entry.node >>= fun _ =>
              iterateDirFrom machine dir none fuel ((fpos + direntlen) % 2 ^ 32)) =
            (nodeInode machine entry.node >>= fun _ => pure (.goOn ((fpos + direntlen) % 2 ^ 32))) >>= Scan.after _
          rw [Prog.bind_assoc]
          rfl
      | some name =>
          change (Prog.defined (nameMatches entry.filename 0 entry.namelen name) >>= fun matching =>
              if matching then pure (entry.node, entry.type)
              else iterateDirFrom machine dir (some name) fuel ((fpos + direntlen) % 2 ^ 32)) =
            (Prog.defined (nameMatches entry.filename 0 entry.namelen name) >>= fun matching =>
              if matching then pure (.found entry.node entry.type)
              else pure (.goOn ((fpos + direntlen) % 2 ^ 32))) >>= Scan.after _
          rw [Prog.bind_assoc]
          congr 1
          funext matching
          split <;> rfl

theorem iterateDirFrom_outside (fuel : Nat) {fpos : Nat} (outside : ¬fpos < dir.inode.size) :
    iterateDirFrom machine dir name (fuel + 1) fpos = Prog.fail .fsNotFound := if_neg outside

theorem scanEntry_near (fpos : Nat) : KeepsNear (scanEntry machine dir name fpos) := by
  unfold scanEntry
  refine .bind frameNear (direntAt_near _ _) fun read => ?_
  obtain ⟨direntlen, entry⟩ := read
  cases entry with
  | none => exact .pure frameNear _
  | some entry =>
      cases name with
      | none => exact .bind frameNear (nodeInode_near _) fun _ => .pure frameNear _
      | some name =>
          exact .bind frameNear (.defined frameNear _) fun _ =>
            .ite (.pure frameNear _) (.pure frameNear _)

theorem scanEntry_repeats {part : Part} {keep : Fs → Fs → Prop} {short : Prop} (fixed : machine.Fixed image)
    (reliable : short ∨ machine.Reliable) (stable : Stable keep) (sizes : SameSizes keep)
    (usable : OfUsable short dir) (fpos : Nat) :
    Repeats image part keep short (fun _ => True) (scanEntry machine dir name fpos) := by
  unfold scanEntry
  refine .bind (direntAt_repeats fixed reliable stable sizes usable fpos) fun read entries => ?_
  obtain ⟨direntlen, entry⟩ := read
  cases entry with
  | none => exact .pure trivial
  | some entry =>
      cases name with
      | none => exact .bind (nodeInode_repeats fixed reliable stable sizes _) fun _ _ => .pure trivial
      | some name =>
          exact .bind .definedAny fun _ _ => .ite (fun _ => .pure trivial) fun _ => .pure trivial

end Entries

section Leading

/-- A scan goes on from one position to another one. -/
def Goes (machine : Machine) (dir : Node) (name : Option Str) (start : Fs) (fpos next : Nat) : Prop :=
  fpos < dir.inode.size ∧ ∃ after, scanEntry machine dir name fpos start = .ok (.goOn next) after

/-- A scan reads the inode of an entry that states no type, and a listing that of
every entry. -/
def ReadsInode (name : Option Str) (entry : NamedEntry) : Prop := entry.filetype = 0 ∨ name = none

/-- An entry that a scan goes by: its inode can be read, where the scan reads it, and it
has not the name that is looked for. -/
structure Passes (machine : Machine) (dir : Node) (name : Option Str) (start : Fs) (entry : NamedEntry) : Prop where
  inode : ReadsInode name entry → ∃ inode after, ext2fsReadInode machine dir.data entry.inode start = .ok inode after
  other : ∀ wanted, name = some wanted → nameMatches entry.filename 0 entry.namelen.toNat wanted = some false

/-- The record at `fpos` leads a scan to another position. -/
inductive RecordLeads (machine : Machine) (image : Nat → Image) (dir : Node) (name : Option Str) (start : Fs)
    (fpos : Nat) : Nat → Prop
  | record {direntlen : Nat} {entry : Option NamedEntry} (inside : fpos < dir.inode.size)
      (record : RecordAt image start.part dir fpos direntlen entry)
      (passes : ∀ named, entry = some named → Passes machine dir name start named) :
      RecordLeads machine image dir name start fpos ((fpos + direntlen) % 2 ^ 32)

/-- A scan comes to its end at `fpos`: there is no record that can be read, the inode of
the entry cannot be read, or the entry has the name that is looked for. -/
inductive Stops (machine : Machine) (image : Nat → Image) (dir : Node) (name : Option Str) (start : Fs)
    (fpos : Nat) : Prop
  | unreadable (unreadable : Unreadable image start.part dir fpos)
  | inode {direntlen : Nat} {entry : NamedEntry} (record : RecordAt image start.part dir fpos direntlen (some entry))
      (reads : ReadsInode name entry)
      (fails : ∃ code after, ext2fsReadInode machine dir.data entry.inode start = .error code after)
  | found {direntlen : Nat} {entry : NamedEntry} {wanted : Str}
      (record : RecordAt image start.part dir fpos direntlen (some entry))
      (inode : ReadsInode name entry →
        ∃ inode after, ext2fsReadInode machine dir.data entry.inode start = .ok inode after)
      (lookup : name = some wanted) (same : nameMatches entry.filename 0 entry.namelen.toNat wanted = some true)

theorem RecordLeads.inside {fpos next : Nat} (leads : RecordLeads machine image dir name start fpos next) :
    fpos < dir.inode.size := by
  cases leads with
  | record inside => exact inside

/-- Following the record lengths from the start of the directory, as far as a scan goes,
each position in the directory has a record or ends the scan, and none comes up twice. -/
structure ScanEnds (machine : Machine) (image : Nat → Image) (dir : Node) (name : Option Str) (start : Fs) :
    Prop where
  records : ∀ fpos, ReflTransGen (RecordLeads machine image dir name start) 0 fpos → fpos < dir.inode.size →
    Stops machine image dir name start fpos ∨ ∃ next, RecordLeads machine image dir name start fpos next
  progress : ∀ fpos, ReflTransGen (RecordLeads machine image dir name start) 0 fpos →
    ¬TransGen (RecordLeads machine image dir name start) fpos fpos

/-- What a scan does with an entry that has a node. -/
def judge (name : Option Str) (entry : NamedEntry) (found : Node × FileType) (next : Nat) : FsProg Scan :=
  match name with
  | some wanted => do
      if ← Prog.defined (nameMatches entry.filename 0 entry.namelen.toNat wanted) then
        pure (.found found.1 found.2)
      else pure (.goOn next)
  | none => pure (.goOn next)

variable {entry : NamedEntry} {found : Node × FileType} {fpos direntlen next : Nat}

theorem judge_some (wanted : Str) : judge (some wanted) entry found next =
    (Prog.defined (nameMatches entry.filename 0 entry.namelen.toNat wanted) >>= fun matching =>
      if matching then pure (.found found.1 found.2) else pure (.goOn next)) := rfl

theorem judge_passes (passes : Passes machine dir name start entry) :
    judge name entry found next fs = .ok (.goOn next) fs := by
  cases name with
  | none => rfl
  | some wanted =>
      rw [judge_some, passes.other wanted rfl]
      rfl

theorem judge_found {wanted : Str} (same : nameMatches entry.filename 0 entry.namelen.toNat wanted = some true) :
    judge (some wanted) entry found next fs = .ok (.found found.1 found.2) fs := by
  rw [judge_some, same]
  rfl

/-- The name that is looked for is compared with bytes that were stored. -/
theorem judge_returned (returned : (judge name entry found next fs).state?.isSome) :
    (∀ wanted, name = some wanted → nameMatches entry.filename 0 entry.namelen.toNat wanted = some false) ∨
      ∃ wanted, name = some wanted ∧ nameMatches entry.filename 0 entry.namelen.toNat wanted = some true := by
  cases name with
  | none => exact .inl nofun
  | some wanted =>
      rw [judge_some] at returned
      cases matching : nameMatches entry.filename 0 entry.namelen.toNat wanted with
      | none =>
          rw [matching] at returned
          cases returned
      | some known =>
          cases known with
          | false => exact .inl fun other same => Option.some.inj same ▸ matching
          | true => exact .inr ⟨wanted, rfl, matching⟩

theorem readInode_later (fixed : machine.Fixed image) (reliable : machine.Reliable) (data : Ext2Data) (ino : Nat) :
    Repeats image start.part EqualSizes False (fun _ => True) (ext2fsReadInode machine data ino) :=
  readInode_repeats fixed (.inr reliable) EqualSizes.stable EqualSizes.sizes _ _

variable (fixed : machine.Fixed image) (reliable : machine.Reliable) (usable : dir.data.log2Ext2BlockSize ≠ 0)
  (warm : Warm image start start)
include fixed reliable usable warm

theorem scanEntry_unnamed (record : RecordAt image start.part dir fpos direntlen none) :
    ∃ after, scanEntry machine dir name fpos start = .ok (.goOn ((fpos + direntlen) % 2 ^ 32)) after := by
  obtain ⟨after, -, run⟩ := direntAt_unnamed fixed reliable usable record (.refl warm)
  exact ⟨after, Prog.bind_run_ok run⟩

/-- An entry whose inode is not read. -/
theorem scanEntry_stated (record : RecordAt image start.part dir fpos direntlen (some entry))
    (states : ¬ReadsInode name entry) :
    ∃ found ready, scanEntry machine dir name fpos start =
      judge name entry found ((fpos + direntlen) % 2 ^ 32) ready := by
  obtain ⟨typed, lookup⟩ := not_or.mp states
  obtain ⟨wanted, rfl⟩ := Option.ne_none_iff_exists'.mp lookup
  obtain ⟨middle, later, run⟩ := direntAt_named fixed reliable usable record (.refl warm)
  obtain ⟨after, node, -⟩ := direntNode_stated reliable later typed
  rw [Prog.bind_run_ok node] at run
  exact ⟨({ data := dir.data, ino := entry.inode, inode := { raw := fun _ => 0 }, inodeRead := false },
    .ofDirent entry.filetype), after, Prog.bind_run_ok run⟩

/-- An entry whose inode is read, by the lookup or by the listing. -/
theorem scanEntry_reads (record : RecordAt image start.part dir fpos direntlen (some entry))
    (reads : ReadsInode name entry) :
    ∃ (found : Inode → Node × FileType) (ready : Fs), Later image start ready ∧
      scanEntry machine dir name fpos start =
        (ext2fsReadInode machine dir.data entry.inode >>= fun inode =>
          judge name entry (found inode) ((fpos + direntlen) % 2 ^ 32)) ready := by
  obtain ⟨middle, later, run⟩ := direntAt_named fixed reliable usable record (.refl warm)
  unfold scanEntry
  by_cases typed : entry.filetype = 0
  · obtain ⟨ready, later, node⟩ := direntNode_reads reliable later
    rw [typed, Prog.bind_run_congr node, Prog.bind_assoc] at run
    rw [Prog.bind_run_congr run, Prog.bind_assoc]
    refine ⟨fun inode => ({ data := dir.data, ino := entry.inode, inode, inodeRead := true }, .ofMode inode.mode),
      ready, later, congrFun (congrArg _ (funext fun inode => ?_)) ready⟩
    cases name <;> rfl
  · obtain ⟨after, node, later⟩ := direntNode_stated reliable later typed
    rw [Prog.bind_run_ok node] at run
    obtain rfl : name = none := reads.resolve_left typed
    rw [Prog.bind_run_ok run]
    exact ⟨fun _ => (dir, .reg), after, later, rfl⟩

/-- An entry whose inode can be read, where it is read. -/
theorem scanEntry_named (record : RecordAt image start.part dir fpos direntlen (some entry))
    (inode : ReadsInode name entry →
      ∃ inode after, ext2fsReadInode machine dir.data entry.inode start = .ok inode after) :
    ∃ found ready, scanEntry machine dir name fpos start =
      judge name entry found ((fpos + direntlen) % 2 ^ 32) ready := by
  by_cases reads : ReadsInode name entry
  · obtain ⟨found, ready, later, run⟩ := scanEntry_reads fixed reliable usable warm record reads
    obtain ⟨inode, first, read⟩ := inode reads
    have repeats : Repeats image start.part EqualSizes False (fun _ => True)
        (ext2fsReadInode machine dir.data entry.inode) := readInode_later fixed reliable dir.data entry.inode
    obtain ⟨after, read, -⟩ := repeats.later_ok (readInode_near _ _) later read
    rw [run, Prog.bind_run_ok read]
    exact ⟨_, after, rfl⟩
  · exact scanEntry_stated fixed reliable usable warm record reads

/-- A record that leads to a position leads the scan there. -/
theorem scanEntry_leads (leads : RecordLeads machine image dir name start fpos next) :
    ∃ after, scanEntry machine dir name fpos start = .ok (.goOn next) after := by
  cases leads with
  | @record direntlen entry inside record passes =>
      cases entry with
      | none => exact scanEntry_unnamed fixed reliable usable warm record
      | some entry =>
          have passes := passes entry rfl
          obtain ⟨found, ready, run⟩ := scanEntry_named fixed reliable usable warm record passes.inode
          exact ⟨ready, run.trans (judge_passes passes)⟩

/-- Where a scan stops it has found the entry, or fails. -/
theorem scanEntry_stops (stops : Stops machine image dir name start fpos) :
    (∃ node type after, scanEntry machine dir name fpos start = .ok (.found node type) after) ∨
      ∃ code after, scanEntry machine dir name fpos start = .error code after := by
  cases stops with
  | unreadable unreadable =>
      obtain ⟨code, after, run⟩ := direntAt_unreadable fixed reliable usable unreadable (.refl warm)
      exact .inr ⟨code, after, Prog.bind_run_error run⟩
  | @inode direntlen entry record reads fails =>
      obtain ⟨found, ready, later, run⟩ := scanEntry_reads fixed reliable usable warm record reads
      obtain ⟨code, first, fails⟩ := fails
      obtain ⟨after, fails⟩ := (readInode_later fixed reliable dir.data entry.inode).later_error later fails
      exact .inr ⟨code, after, run.trans (Prog.bind_run_error fails)⟩
  | found record inode lookup same =>
      subst lookup
      obtain ⟨found, ready, run⟩ := scanEntry_named fixed reliable usable warm record inode
      exact .inl ⟨found.1, found.2, ready, run.trans (judge_found same)⟩

/-- An iteration that returns was at a record, or where the scan stops. -/
theorem scanEntry_returned (inside : fpos < dir.inode.size)
    (returned : (scanEntry machine dir name fpos start).state?.isSome) :
    Stops machine image dir name start fpos ∨ ∃ next, RecordLeads machine image dir name start fpos next := by
  have begins : (direntAt machine dir fpos start).state?.isSome := Prog.state?_of_bind returned
  obtain unreadable | ⟨direntlen, entry, record⟩ := direntAt_cases fixed reliable usable (.refl warm) begins
  · exact .inl (.unreadable unreadable)
  cases entry with
  | none => exact .inr ⟨_, .record inside record nofun⟩
  | some entry =>
      have judged (inode : ReadsInode name entry →
          ∃ inode after, ext2fsReadInode machine dir.data entry.inode start = .ok inode after) :
          Stops machine image dir name start fpos ∨ ∃ next, RecordLeads machine image dir name start fpos next := by
        obtain ⟨found, ready, run⟩ := scanEntry_named fixed reliable usable warm record inode
        rw [run] at returned
        obtain other | ⟨wanted, lookup, same⟩ := judge_returned returned
        · exact .inr ⟨_, .record inside record fun named same => Option.some.inj same ▸ ⟨inode, other⟩⟩
        · exact .inl (.found record inode lookup same)
      by_cases reads : ReadsInode name entry
      swap
      · exact judged fun needed => absurd needed reads
      cases read : ext2fsReadInode machine dir.data entry.inode start with
      | ok inode after => exact judged fun _ => ⟨inode, after, read⟩
      | error code after => exact .inl (.inode record reads ⟨code, after, read⟩)
      | fault | undefined | unfinished =>
          obtain ⟨found, ready, later, run⟩ := scanEntry_reads fixed reliable usable warm record reads
          have stopped := (readInode_later fixed reliable dir.data entry.inode).later_stopped later (by rw [read]; rfl)
          rw [run, Prog.bind_state?_none stopped] at returned
          cases returned

/-- A scan goes where the records lead. -/
theorem goes_iff : Goes machine dir name start fpos next ↔ RecordLeads machine image dir name start fpos next := by
  constructor
  · rintro ⟨inside, after, run⟩
    obtain stops | ⟨other, leads⟩ := scanEntry_returned fixed reliable usable warm inside (by rw [run]; rfl)
    · obtain ⟨node, type, final, same⟩ | ⟨code, final, same⟩ := scanEntry_stops fixed reliable usable warm stops
      · rw [run] at same
        cases same
      · rw [run] at same
        cases same
    · obtain ⟨final, same⟩ := scanEntry_leads fixed reliable usable warm leads
      rw [run] at same
      cases same
      exact leads
  · intro leads
    obtain ⟨after, run⟩ := scanEntry_leads fixed reliable usable warm leads
    cases leads with
    | record inside => exact ⟨inside, after, run⟩

/-- An iteration returns if and only if there is a record, or the scan stops. -/
theorem scanEntry_returns_iff (inside : fpos < dir.inode.size) :
    (scanEntry machine dir name fpos start).state?.isSome ↔
      Stops machine image dir name start fpos ∨ ∃ next, RecordLeads machine image dir name start fpos next := by
  refine ⟨scanEntry_returned fixed reliable usable warm inside, ?_⟩
  rintro (stops | ⟨next, leads⟩)
  · obtain ⟨node, type, after, run⟩ | ⟨code, after, run⟩ := scanEntry_stops fixed reliable usable warm stops
    · rw [run]
      rfl
    · rw [run]
      rfl
  · obtain ⟨after, run⟩ := scanEntry_leads fixed reliable usable warm leads
    rw [run]
    rfl

end Leading

section Ends

variable (fixed : machine.Fixed image) (reliable : machine.Reliable) (usable : dir.data.log2Ext2BlockSize ≠ 0)
include fixed reliable usable

theorem scanEntry_later (fpos : Nat) :
    Repeats image start.part EqualSizes False (fun _ => True) (scanEntry machine dir name fpos) :=
  scanEntry_repeats fixed (.inr reliable) EqualSizes.stable EqualSizes.sizes (.inr usable) fpos

/-- A scan that returns goes a way that ends. -/
theorem acc_of_returns {fuel fpos : Nat} (later : Later image start fs)
    (returned : (iterateDirFrom machine dir name fuel fpos fs).state?.isSome) :
    Acc (fun q p => Goes machine dir name start p q) fpos ∧
      ∀ p, ReflTransGen (Goes machine dir name start) fpos p → p < dir.inode.size →
        (scanEntry machine dir name p start).state?.isSome := by
  induction fuel generalizing fpos fs with
  | zero => cases returned
  | succ fuel ih =>
      have whole : (fpos < dir.inode.size → (scanEntry machine dir name fpos start).state?.isSome) →
          (∀ next, Goes machine dir name start fpos next →
            Acc (fun q p => Goes machine dir name start p q) next ∧
              ∀ p, ReflTransGen (Goes machine dir name start) next p → p < dir.inode.size →
                (scanEntry machine dir name p start).state?.isSome) →
          Acc (fun q p => Goes machine dir name start p q) fpos ∧
            ∀ p, ReflTransGen (Goes machine dir name start) fpos p → p < dir.inode.size →
              (scanEntry machine dir name p start).state?.isSome := by
        intro here beyond
        refine ⟨.intro _ fun next goes => (beyond next goes).1, fun p reached below => ?_⟩
        obtain rfl | ⟨next, goes, rest⟩ := reached.cases_head
        · exact here below
        · exact (beyond next goes).2 p rest below
      by_cases inside : fpos < dir.inode.size
      swap
      · exact whole (fun below => absurd below inside) fun _ goes => absurd goes.1 inside
      have repeats : Repeats image start.part EqualSizes False (fun _ => True)
          (scanEntry machine dir name fpos) := scanEntry_later fixed reliable usable fpos
      rw [iterateDirFrom_inside fuel inside] at returned
      cases run : scanEntry machine dir name fpos start with
      | ok scan first =>
          obtain ⟨after, same, later', -⟩ := repeats.later_ok (scanEntry_near fpos) later run
          rw [Prog.bind_run_ok same] at returned
          refine whole (fun _ => by rw [run]; rfl) fun next goes => ?_
          obtain ⟨-, other, goes⟩ := goes
          rw [run] at goes
          cases goes
          exact ih later' returned
      | error code first =>
          refine whole (fun _ => by rw [run]; rfl) fun next goes => ?_
          obtain ⟨-, other, goes⟩ := goes
          rw [run] at goes
          cases goes
      | fault | undefined | unfinished =>
          rw [Prog.bind_state?_none (repeats.later_stopped later (by rw [run]; rfl))] at returned
          cases returned

/-- A way that ends is gone by a scan that returns. -/
theorem returns_of_acc {fpos : Nat} (ends : Acc (fun q p => Goes machine dir name start p q) fpos)
    (defined : ∀ p, ReflTransGen (Goes machine dir name start) fpos p → p < dir.inode.size →
      (scanEntry machine dir name p start).state?.isSome) (later : Later image start fs) :
    ∃ fuel, (iterateDirFrom machine dir name fuel fpos fs).state?.isSome := by
  induction ends generalizing fs with
  | intro fpos _ ih =>
      by_cases inside : fpos < dir.inode.size
      swap
      · refine ⟨1, ?_⟩
        rw [iterateDirFrom_outside 0 inside]
        rfl
      have repeats : Repeats image start.part EqualSizes False (fun _ => True)
          (scanEntry machine dir name fpos) := scanEntry_later fixed reliable usable fpos
      have here := defined fpos .refl inside
      cases run : scanEntry machine dir name fpos start with
      | ok scan first =>
          obtain ⟨after, same, later', -⟩ := repeats.later_ok (scanEntry_near fpos) later run
          cases scan with
          | found node type =>
              refine ⟨1, ?_⟩
              rw [iterateDirFrom_inside 0 inside, Prog.bind_run_ok same]
              rfl
          | goOn next =>
              have goes : Goes machine dir name start fpos next := ⟨inside, first, run⟩
              obtain ⟨fuel, returned⟩ := ih next goes (fun p reached => defined p (reached.head goes)) later'
              refine ⟨fuel + 1, ?_⟩
              rwa [iterateDirFrom_inside fuel inside, Prog.bind_run_ok same]
      | error code first =>
          obtain ⟨after, same⟩ := repeats.later_error later run
          refine ⟨1, ?_⟩
          rw [iterateDirFrom_inside 0 inside, Prog.bind_run_error same]
          rfl
      | fault => rw [run] at here; cases here
      | undefined => rw [run] at here; cases here
      | unfinished => rw [run] at here; cases here

/-- A directory is scanned to an end if and only if following the record lengths from
the start ends. -/
theorem iterateDir_returns_iff {inode : Inode} {middle : Fs} (warm : Warm image fs fs)
    (read : nodeInode machine dir fs = .ok inode middle) :
    (∃ fuel, (ext2fsIterateDir machine fuel dir name fs).state?.isSome) ↔
      ScanEnds machine image { dir with inode } name fs := by
  have usable' : ({ dir with inode } : Node).data.log2Ext2BlockSize ≠ 0 := usable
  have repeats : Repeats image fs.part EqualSizes False (fun _ => True) (nodeInode machine dir) :=
    nodeInode_repeats fixed (.inr reliable) EqualSizes.stable EqualSizes.sizes dir
  obtain ⟨after, same, later, -⟩ := repeats.later_ok (nodeInode_near dir) (.refl warm) read
  obtain rfl : after = middle := by
    rw [read] at same
    cases same
    rfl
  have scan : ∀ fuel, ext2fsIterateDir machine fuel dir name fs =
      iterateDirFrom machine { dir with inode } name fuel 0 after := fun fuel => Prog.bind_run_ok read
  have goes : Goes machine { dir with inode } name fs = RecordLeads machine image { dir with inode } name fs :=
    funext fun _ => funext fun _ => propext (goes_iff fixed reliable usable' warm)
  simp only [scan]
  constructor
  · rintro ⟨fuel, returned⟩
    obtain ⟨ends, defined⟩ := acc_of_returns fixed reliable usable' later returned
    rw [goes] at ends defined
    exact ⟨fun fpos reached inside =>
      (scanEntry_returns_iff fixed reliable usable' warm inside).mp (defined fpos reached inside),
      fun fpos reached => acyclic_of_acc ends reached⟩
  · intro ends
    refine returns_of_acc fixed reliable usable' ?_ ?_ later
    · rw [goes]
      exact acc_of_acyclic (fun _ _ leads => leads.inside) ends.progress
    · rw [goes]
      exact fun fpos reached inside =>
        (scanEntry_returns_iff fixed reliable usable' warm inside).mpr (ends.records fpos reached inside)

end Ends

/-- Where the records that a scan comes to have lengths that lead forward, no position
comes up twice. -/
theorem ScanEnds.of_lengths
    (records : ∀ fpos, ReflTransGen (RecordLeads machine image dir name start) 0 fpos → fpos < dir.inode.size →
      Stops machine image dir name start fpos ∨ ∃ next, RecordLeads machine image dir name start fpos next)
    (lengths : ∀ fpos direntlen entry, ReflTransGen (RecordLeads machine image dir name start) 0 fpos →
      RecordAt image start.part dir fpos direntlen entry → 0 < direntlen ∧ fpos + direntlen < 2 ^ 32) :
    ScanEnds machine image dir name start where
  records := records
  progress := by
    have forward : ∀ {fpos next}, ReflTransGen (RecordLeads machine image dir name start) 0 fpos →
        RecordLeads machine image dir name start fpos next → fpos < next := by
      intro fpos next reached leads
      cases leads with
      | record inside record =>
          obtain ⟨positive, fits⟩ := lengths fpos _ _ reached record
          rw [Nat.mod_eq_of_lt fits]
          omega
    intro fpos reached cycle
    have onward : ∀ {next}, TransGen (RecordLeads machine image dir name start) fpos next → fpos < next := by
      intro next leads
      induction leads with
      | single leads => exact forward reached leads
      | tail passed leads ih => exact ih.trans (forward (reached.trans passed.to_reflTransGen) leads)
    exact Nat.lt_irrefl _ (onward cycle)

/-- A directory of one entry without a name, `length` bytes long. -/
def emptyEntry (length : UInt8) : Image := .ofRuns [(32768 + 5 * 1024 + 4, [length])]

def entryDir : Node := { zeroNode with inode := { raw := .ofRuns [(4, [8]), (40, [5])] } }

theorem iterateDir_returns_sample :
    (∃ fuel, (ext2fsIterateDir (diskMachine (emptyEntry 8)) fuel entryDir none zeroDisk).state?.isSome) ∧
    ScanEnds (diskMachine (emptyEntry 8)) (fun _ => emptyEntry 8) entryDir none zeroDisk := by
  have steady := diskMachine_steady (emptyEntry 8)
  have usable : entryDir.data.log2Ext2BlockSize ≠ 0 := by decide +kernel
  have returns : ∃ fuel,
      (ext2fsIterateDir (diskMachine (emptyEntry 8)) fuel entryDir none zeroDisk).state?.isSome :=
    ⟨2, by decide +kernel⟩
  exact ⟨returns, (iterateDir_returns_iff steady.fixed steady.reliable usable (zeroDisk_warm fun _ => emptyEntry 8)
    (rfl : nodeInode _ entryDir zeroDisk = _)).mp returns⟩

/-- An entry with length 0 is scanned again and again. -/
theorem iterateDir_loops :
    ¬∀ (machine : Machine) (image : Nat → Image) (dir : Node) (name : Option Str) (fs middle : Fs) (inode : Inode),
      machine.Fixed image → machine.Reliable → dir.data.log2Ext2BlockSize ≠ 0 → Warm image fs fs →
      nodeInode machine dir fs = .ok inode middle →
      ∃ fuel, (ext2fsIterateDir machine fuel dir name fs).state?.isSome := by
  intro returns
  have steady := diskMachine_steady (emptyEntry 0)
  have usable : entryDir.data.log2Ext2BlockSize ≠ 0 := by decide +kernel
  have warm := zeroDisk_warm fun _ => emptyEntry 0
  obtain ⟨fuel, returned⟩ := returns _ _ entryDir none _ _ _ steady.fixed steady.reliable usable warm rfl
  have ends := (acc_of_returns steady.fixed steady.reliable usable (.refl warm) returned).1
  have inside : 0 < entryDir.inode.size := by decide +kernel
  have again : (scanEntry (diskMachine (emptyEntry 0)) entryDir none 0 zeroDisk).value?.bind Scan.next? = some 0 := by
    decide +kernel
  have goes : Goes (diskMachine (emptyEntry 0)) entryDir none zeroDisk 0 0 := by
    refine ⟨inside, ?_⟩
    cases run : scanEntry (diskMachine (emptyEntry 0)) entryDir none 0 zeroDisk with
    | ok scan after =>
        rw [run] at again
        cases scan with
        | found node type => cases again
        | goOn next =>
            obtain rfl : next = 0 := Option.some.inj again
            exact ⟨after, rfl⟩
    | error code after => rw [run] at again; cases again
    | fault => rw [run] at again; cases again
    | undefined => rw [run] at again; cases again
    | unfinished => rw [run] at again; cases again
  exact acyclic_of_acc ends .refl (.single goes)

end IQuik.Ext2
