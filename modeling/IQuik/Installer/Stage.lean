import IQuik.Installer.Install
import Mathlib.Data.List.GetD

namespace IQuik.Installer

open IQuik.Data IQuik.Program

/-! # What `install_stage` writes -/

variable {host : Host} {device : Device} {body script : List UInt8} {doff : Nat}

/-- Nothing that the installer asks of the system is refused, and it is to write. How
much a `write` transfers is left open. -/
structure Host.Obliging (host : Host) : Prop where
  readable : host.readable = true
  writable : host.writable = true
  grants : ∀ size, host.grants size = true
  seeks : ∀ offset, host.seeks offset = true
  writes : host.testMode = false

/-- One `write` of `count` bytes at `offset` transfers them all. On Linux a `write`
transfers 0x7ffff000 bytes at most. -/
def Host.Moves (host : Host) (offset count : Nat) : Prop := count ≤ host.transfers offset count

theorem image_list_eq {image : Image} {offset : Nat} {bytes : List UInt8}
    (same : ∀ i, i < bytes.length → image (offset + i) = bytes.getD i 0) :
    image.list offset bytes.length = bytes := by
  induction bytes generalizing offset with
  | nil => rfl
  | cons byte rest ih =>
      have first : image offset = byte := same 0 (Nat.succ_pos _)
      have tail : image.list (offset + 1) rest.length = rest := by
        apply ih
        intro i below
        have next := same (i + 1) (Nat.succ_lt_succ below)
        simpa only [Nat.add_assoc, Nat.add_comm 1 i, List.getD_cons_succ] using next
      simp only [List.length_cons, Image.list, first, tail]

theorem doWrite_whole (obliging : host.Obliging) {offset count : Nat} (moves : host.Moves offset count)
    (contents : Image) :
    doWrite host offset count contents device = .ok count (device.store offset count contents) := by
  have whole : min (host.transfers offset count) count = count := Nat.min_eq_right moves
  simp [doWrite, obliging.writes, whole]

/-- A `do_write` that writes all of it has moved it. -/
theorem doWrite_moves (obliging : host.Obliging) {offset count : Nat} {contents : Image} {after : Device}
    (returned : doWrite host offset count contents device = .ok count after) : host.Moves offset count := by
  simp only [doWrite, obliging.writes, Bool.false_eq_true, if_false] at returned
  have whole : min (host.transfers offset count) count = count := (Outcome.ok.inj returned).1
  unfold Host.Moves
  omega

/-- The buffer when the files have been read. -/
def stageBuffer (body script : List UInt8) : Buffer :=
  ((Buffer.blank.store 0 body.length (listImage body)).store body.length script.length
    (listImage script)).store (body.length + script.length) 1 fun _ => 0

theorem stageBuffer_image {i : Nat} (inside : i < (body ++ script ++ [0]).length) :
    (stageBuffer body script).image i = (body ++ script ++ [0]).getD i 0 := by
  simp only [List.length_append, List.length_singleton] at inside
  unfold stageBuffer Buffer.image
  by_cases code : i < body.length
  · rw [Buffer.store_outside (by omega), Buffer.store_outside (by omega),
      Buffer.store_inside (by omega) (by omega), List.append_assoc, List.getD_append _ _ _ _ code]
    rfl
  · by_cases last : i < body.length + script.length
    · rw [Buffer.store_outside (by omega), Buffer.store_inside (by omega) (by omega),
        List.getD_append _ _ _ _ (by simpa using last), List.getD_append_right _ _ _ _ (by omega)]
      rfl
    · have here : i = body.length + script.length := by omega
      subst here
      rw [Buffer.store_inside (by omega) (by omega),
        List.getD_append_right _ _ _ _ (by simp)]
      simp

theorem codeBuffer_image {i : Nat} (inside : i < body.length) :
    (Buffer.blank.store 0 body.length (listImage body)).image i = body.getD i 0 := by
  unfold Buffer.image
  rw [Buffer.store_inside (by omega) (by omega)]
  rfl

variable {code preboot : File}

theorem stageSizes_script (ends : code.bytes = body ++ prebootMagic) :
    stageSizes code (some preboot) = (body.length, body.length + preboot.bytes.length + 1) := by
  have codeSmall := code.small
  have scriptSmall := preboot.small
  have length : code.bytes.length = body.length + 4 := by rw [ends, List.length_append]; rfl
  simp only [stageSizes, length]
  have size : (body.length + 4 + 2 ^ 64 - 4) % 2 ^ 64 = body.length := by omega
  rw [size]
  have sum : (body.length + preboot.bytes.length + 1) % 2 ^ 64 = body.length + preboot.bytes.length + 1 := by
    omega
  rw [sum]

variable (device preboot) in
/-- The files are read as long as the counts of `fread` are positive as `int`s. -/
theorem readStage_script (ends : code.bytes = body ++ prebootMagic) :
    readStage code (some preboot) body.length (body.length + preboot.bytes.length + 1) device =
      if ¬Positive body.length then .error .cantReadCode device
      else if ¬Positive preboot.bytes.length then .error .cantReadScript device
      else .ok (stageBuffer body preboot.bytes) device := by
  have scriptSmall := preboot.small
  have codeRead : code.bytes.take body.length = body := by rw [ends, List.take_left]
  have signature : (code.bytes.drop body.length).take 4 = prebootMagic := by rw [ends, List.drop_left]; rfl
  have count : (body.length + preboot.bytes.length + 1 + 2 ^ 65 - body.length - 1) % 2 ^ 64 =
      preboot.bytes.length := by omega
  have magic : Positive prebootMagic.length := by decide
  have last : body.length + preboot.bytes.length + 1 - 1 = body.length + preboot.bytes.length := by omega
  simp only [readStage, codeRead]
  by_cases codePositive : Positive body.length
  · rw [if_neg (not_not.mpr codePositive), if_neg (not_not.mpr codePositive)]
    simp only [readScript, signature, count, List.take_length, last]
    rw [if_neg (not_not.mpr magic), if_neg (not_not.mpr rfl)]
    by_cases scriptPositive : Positive preboot.bytes.length
    · rw [if_neg (not_not.mpr scriptPositive), if_neg (not_not.mpr scriptPositive)]
      rfl
    · rw [if_pos scriptPositive, if_pos scriptPositive]
      rfl
  · rw [if_pos codePositive, if_pos codePositive]
    rfl

variable (device code) in
theorem readStage_plain : readStage code none code.bytes.length code.bytes.length device =
    if ¬Positive code.bytes.length then .error .cantReadCode device
    else .ok (Buffer.blank.store 0 code.bytes.length (listImage code.bytes)) device := by
  simp only [readStage, List.take_length]
  split
  · rfl
  · rfl

variable (device preboot) in
/-- The files are refused when the signature is not there. -/
theorem readStage_unsigned (unsigned : ¬prebootMagic <:+ code.bytes) (stageSize : Nat) :
    ∃ fatal, readStage code (some preboot) (stageSizes code (some preboot)).1 stageSize device =
      .error fatal device := by
  have small := code.small
  simp only [readStage]
  split
  · exact ⟨_, rfl⟩
  simp only [readScript]
  split
  · exact ⟨_, rfl⟩
  rename_i positive signature
  have wrong : (code.bytes.drop (stageSizes code (some preboot)).1).take 4 ≠ prebootMagic := by
    intro same
    have length := congrArg List.length same
    simp only [List.length_take, List.length_drop, prebootMagic, List.length_cons, List.length_nil] at length
    simp only [stageSizes] at length same
    have size : (code.bytes.length + 2 ^ 64 - 4) % 2 ^ 64 = code.bytes.length - 4 := by omega
    rw [size] at same length
    rw [List.take_of_length_le (by simp; omega)] at same
    exact unsigned (same ▸ List.drop_suffix _ _)
  rw [if_pos wrong]
  exact ⟨_, rfl⟩

/-- A call that gets past the files writes the buffer. -/
theorem writeStage_ok (obliging : host.Obliging) {script : Option File} {stageSize codeSize : Nat}
    (sizes : stageSizes code script = (codeSize, stageSize)) {buff : Buffer}
    (read : readStage code script codeSize stageSize device = .ok buff device)
    (moves : host.Moves (doff * 512) stageSize) :
    writeStage host code script doff device =
      .ok stageSize (device.store (doff * 512) stageSize buff.image) := by
  simp only [writeStage, sizes, obliging.grants, not_true, if_false]
  rw [Prog.bind_run_ok read]
  simp only [obliging.seeks, not_true, if_false]
  rw [Prog.bind_run_ok (doWrite_whole obliging moves _)]
  simp only [ne_eq, not_true, if_false]
  rfl

/-- A call that succeeds has written the stage with one `write`. -/
theorem writeStage_moves (obliging : host.Obliging) {script : Option File} {size : Nat} {after : Device}
    (returned : writeStage host code script doff device = .ok size after) :
    size = (stageSizes code script).2 ∧ host.Moves (doff * 512) size := by
  simp only [writeStage, obliging.grants, obliging.seeks, not_true, if_false] at returned
  obtain ⟨buff, middle, -, rest⟩ := Prog.bind_eq_ok.mp returned
  obtain ⟨written, final, write, last⟩ := Prog.bind_eq_ok.mp rest
  split at last
  · cases last
  · rename_i whole
    cases last
    rw [not_not.mp whole] at write
    exact ⟨rfl, doWrite_moves obliging write⟩

/-- Whatever the system does, nothing is written when the files are refused. -/
theorem writeStage_refuses {script : Option File} {fatal : Fatal}
    (read : readStage code script (stageSizes code script).1 (stageSizes code script).2 device =
      .error fatal device) (doff : Nat) :
    ∃ fatal, writeStage host code script doff device = .error fatal device := by
  simp only [writeStage]
  split
  · exact ⟨_, rfl⟩
  · exact ⟨fatal, Prog.bind_run_error read⟩

theorem writeStage_error (obliging : host.Obliging) {script : Option File} {stageSize codeSize : Nat}
    (sizes : stageSizes code script = (codeSize, stageSize)) {fatal : Fatal}
    (read : readStage code script codeSize stageSize device = .error fatal device) :
    writeStage host code script doff device = .error fatal device := by
  simp only [writeStage, sizes, obliging.grants, not_true, if_false]
  exact Prog.bind_run_error read

/-! # The boot code with a script -/

/-- `install_stage` succeeds, and puts these bytes on the device and no others. -/
def Writes (host : Host) (device : Device) (code : File) (preboot : Preboot) (doff : Nat)
    (bytes : List UInt8) : Prop :=
  ∃ after, installStage host (some code) preboot doff device = .ok bytes.length after ∧
    after.bytes.list (doff * 512) bytes.length = bytes ∧
    ∀ index, index < doff * 512 ∨ doff * 512 + bytes.length ≤ index →
      after.bytes index = device.bytes index

theorem Writes.of_buffer {preboot : Preboot} {bytes : List UInt8} {buff : Buffer}
    (holds : ∀ i, i < bytes.length → buff.image i = bytes.getD i 0)
    (run : installStage host (some code) preboot doff device =
      .ok bytes.length (device.store (doff * 512) bytes.length buff.image)) :
    Writes host device code preboot doff bytes := by
  refine ⟨_, run, image_list_eq fun i below => ?_, fun index outside => ?_⟩
  · have inside : doff * 512 ≤ doff * 512 + i ∧ doff * 512 + i < doff * 512 + bytes.length := by omega
    simp only [Device.store, if_pos inside, Nat.add_sub_cancel_left]
    exact holds i below
  · have outside : ¬(doff * 512 ≤ index ∧ index < doff * 512 + bytes.length) := by omega
    simp only [Device.store, if_neg outside]

/-- The string at `_preboot_script` when `image` is loaded. The section
`.preboot` holds the last four bytes of the boot code. -/
def prebootScript (code : File) (image : List UInt8) : Str :=
  (image.drop (code.bytes.length - 4)).takeWhile (· ≠ 0)

theorem prebootScript_installed (ends : code.bytes = body ++ prebootMagic) (noNul : 0 ∉ script) :
    prebootScript code (body ++ script ++ [0]) = script := by
  have length : code.bytes.length - 4 = body.length := by
    rw [ends, List.length_append]
    rfl
  rw [prebootScript, length, List.append_assoc, List.drop_left]
  induction script with
  | nil => rfl
  | cons c rest ih =>
      obtain ⟨first, tail⟩ := List.ne_and_not_mem_of_not_mem_cons noNul
      simp only [List.cons_append, List.takeWhile_cons]
      rw [ih tail, if_pos (by simpa using Ne.symm first)]

theorem prebootScript_plain (ends : code.bytes = body ++ prebootMagic) :
    prebootScript code code.bytes = [] := by
  have length : code.bytes.length - 4 = body.length := by
    rw [ends, List.length_append]
    rfl
  rw [prebootScript, length, ends, List.drop_left]
  rfl

theorem installStage_script (obliging : host.Obliging) :
    installStage host (some code) (some (some preboot)) doff device =
      writeStage host code (some preboot) doff device := by
  simp [installStage, obliging.writable]

theorem installStage_plain (obliging : host.Obliging) :
    installStage host (some code) none doff device = writeStage host code none doff device := by
  simp [installStage, obliging.writable]

/-- With a script the boot code loses its signature to it, if the sizes are
positive as `int`s and one `write` moves the whole stage. -/
theorem writes_script_iff (obliging : host.Obliging) (ends : code.bytes = body ++ prebootMagic) :
    Writes host device code (some (some preboot)) doff (body ++ preboot.bytes ++ [0]) ↔
      Positive body.length ∧ Positive preboot.bytes.length ∧
        host.Moves (doff * 512) (body.length + preboot.bytes.length + 1) := by
  have length : (body ++ preboot.bytes ++ [0]).length = body.length + preboot.bytes.length + 1 := by
    rw [List.length_append, List.length_append, List.length_singleton]
  have read := readStage_script device preboot ends
  constructor
  · intro ⟨after, run, _⟩
    rw [installStage_script obliging] at run
    by_cases codePositive : Positive body.length
    · refine ⟨codePositive, ?_, length ▸ (writeStage_moves obliging run).2⟩
      by_contra scriptSize
      rw [if_neg (not_not.mpr codePositive), if_pos scriptSize] at read
      rw [writeStage_error obliging (stageSizes_script ends) read] at run
      cases run
    · rw [if_pos codePositive] at read
      rw [writeStage_error obliging (stageSizes_script ends) read] at run
      cases run
  · intro ⟨codePositive, scriptPositive, moves⟩
    rw [if_neg (not_not.mpr codePositive), if_neg (not_not.mpr scriptPositive)] at read
    apply Writes.of_buffer fun i => stageBuffer_image
    rw [installStage_script obliging, length]
    exact writeStage_ok obliging (stageSizes_script ends) read moves

/-- Without one the boot code is written as it is. -/
theorem writes_plain_iff (obliging : host.Obliging) :
    Writes host device code none doff code.bytes ↔
      Positive code.bytes.length ∧ host.Moves (doff * 512) code.bytes.length := by
  have read := readStage_plain device code
  constructor
  · intro ⟨after, run, _⟩
    rw [installStage_plain obliging] at run
    refine ⟨?_, (writeStage_moves obliging run).2⟩
    by_contra codeSize
    rw [if_pos codeSize] at read
    rw [writeStage_error obliging rfl read] at run
    cases run
  · intro ⟨codePositive, moves⟩
    rw [if_neg (not_not.mpr codePositive)] at read
    apply Writes.of_buffer fun i => codeBuffer_image
    rw [installStage_plain obliging]
    exact writeStage_ok obliging rfl read moves

/-- Boot code without the signature is refused with a script, on any host and with any
script, before anything is written. -/
theorem installStage_unsigned (unsigned : ¬prebootMagic <:+ code.bytes) (preboot : Option File) :
    ∃ fatal, installStage host (some code) (some preboot) doff device = .error fatal device := by
  unfold installStage
  split
  · exact ⟨_, rfl⟩
  cases preboot with
  | none => exact ⟨_, rfl⟩
  | some preboot =>
      obtain ⟨fatal, read⟩ := readStage_unsigned device preboot unsigned (stageSizes code (some preboot)).2
      exact writeStage_refuses read doff

/-- The installer puts a script in the place of the signature, where the loader
looks for it, exactly as long as no size is zero or negative as an `int` and one `write`
moves the stage. Boot code without a signature it refuses before it writes anything. -/
theorem script_roundTrip_iff (host : Host) (device : Device) (doff : Nat) (code : File) :
    (host.Obliging → ∀ body (preboot : File), code.bytes = body ++ prebootMagic → 0 ∉ preboot.bytes →
      ((Writes host device code (some (some preboot)) doff (body ++ preboot.bytes ++ [0]) ∧
        prebootScript code (body ++ preboot.bytes ++ [0]) = preboot.bytes) ↔
          Positive body.length ∧ Positive preboot.bytes.length ∧
            host.Moves (doff * 512) (body.length + preboot.bytes.length + 1))) ∧
    (host.Obliging → ∀ body, code.bytes = body ++ prebootMagic →
      ((Writes host device code none doff code.bytes ∧ prebootScript code code.bytes = []) ↔
        Positive code.bytes.length ∧ host.Moves (doff * 512) code.bytes.length)) ∧
    (¬prebootMagic <:+ code.bytes → ∀ preboot : Option File, ∃ fatal,
      installStage host (some code) (some preboot) doff device = .error fatal device) := by
  refine ⟨fun obliging body preboot ends noNul => ?_, fun obliging body ends => ?_, installStage_unsigned⟩
  · rw [writes_script_iff obliging ends]
    exact and_iff_left (prebootScript_installed ends noNul)
  · rw [writes_plain_iff obliging]
    exact and_iff_left (prebootScript_plain ends)

/-- A system that refuses nothing, with the limit of Linux. -/
def obligingHost : Host where
  readable := true
  writable := true
  grants _ := true
  seeks _ := true
  transfers _ count := min count 0x7ffff000
  testMode := false

theorem obligingHost_obliging : obligingHost.Obliging :=
  ⟨rfl, rfl, fun _ => rfl, fun _ => rfl, rfl⟩

def emptyDevice : Device := { size := 0, bytes := fun _ => 0 }

def sampleCode : File := { bytes := [0x48, 0x00, 0x00, 0xB0, 0x07, 0xED], small := by decide }

def sampleScript : File := { bytes := str "boot", small := by decide }

theorem script_roundTrip_sample :
    Writes obligingHost emptyDevice sampleCode (some (some sampleScript)) 64
      ([0x48, 0x00] ++ str "boot" ++ [0]) ∧
    prebootScript sampleCode ([0x48, 0x00] ++ str "boot" ++ [0]) = str "boot" :=
  ((script_roundTrip_iff obligingHost emptyDevice 64 sampleCode).1 obligingHost_obliging [0x48, 0x00] sampleScript
    rfl (by decide)).mpr ⟨by decide, by decide, by unfold Host.Moves; decide⟩

/-- Boot code of 2 GiB and a signature: the count that `fread` returns is
negative as an `int`. -/
def hugeCode : File where
  bytes := List.replicate (2 ^ 31) 1 ++ prebootMagic
  small := by
    rw [List.length_append, List.length_replicate]
    decide

/-- It is read, and refused for not having been read. -/
theorem script_not_roundTrip : hugeCode.bytes = List.replicate (2 ^ 31) 1 ++ prebootMagic ∧
    installStage obligingHost (some hugeCode) (some (some sampleScript)) 64 emptyDevice =
      .error .cantReadCode emptyDevice ∧
    ¬Writes obligingHost emptyDevice hugeCode (some (some sampleScript)) 64
      (List.replicate (2 ^ 31) 1 ++ sampleScript.bytes ++ [0]) := by
  have refused : installStage obligingHost (some hugeCode) (some (some sampleScript)) 64 emptyDevice =
      .error .cantReadCode emptyDevice := by
    have negative : ¬Positive (List.replicate (2 ^ 31) (1 : UInt8)).length := by
      rw [List.length_replicate]
      decide
    have ends : hugeCode.bytes = List.replicate (2 ^ 31) 1 ++ prebootMagic := rfl
    have read := readStage_script emptyDevice sampleScript ends
    rw [if_pos negative] at read
    rw [installStage_script obligingHost_obliging]
    exact writeStage_error obligingHost_obliging (stageSizes_script rfl) read
  refine ⟨rfl, refused, fun ⟨after, run, _⟩ => ?_⟩
  rw [refused] at run
  cases run

end IQuik.Installer
