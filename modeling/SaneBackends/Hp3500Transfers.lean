import SaneBackends.Hp3500Stream

/-!
# Register, SRAM and data transfers of an HP ScanJet 3500

The requests of the functions that transfer more than one command can carry, and every sequence of
calls.
-/

namespace SaneBackends.Hp3500

open ByteStuffing LabelledRun RingMemory

variable {rt rt' : Rt} {r : Request} {rs : List Request} {memory : Nat → SaneByte}

/-! ### Registers -/

def getRegRequest (reg bytes data : Nat) : Request := ⟨.getreg, reg, bytes, [], bytes, data⟩

def setRegRequest (reg : Nat) (data : List SaneByte) : Request :=
  ⟨.setreg, reg, data.length, data, 0, 0⟩

/-- The registers that a request sets, with their values. -/
def Request.registers (r : Request) : List (Nat × SaneByte) :=
  (List.range' r.reg r.data.length).zip r.data

/-- The requests of `rt_set_register_immediate`. -/
def setRegisterRequests (reg : Nat) (data : List SaneByte) : List Request :=
  if reg < REG_MOVE_CONTROL_TEST ∧ reg + data.length > REG_MOVE_CONTROL_TEST then
    [setRegRequest reg (data.take (REG_MOVE_CONTROL_TEST - reg)),
      setRegRequest 0xb4 (data.drop (REG_MOVE_CONTROL_TEST - reg + 1))]
  else [setRegRequest reg data]

theorem getRegRequest_sound {reg bytes : Nat} (data : Nat) (h : reg + bytes ≤ 256) :
    (getRegRequest reg bytes data).Sound where
  count := by
    change bytes < 65536
    omega
  data := rfl
  room := show 4 + 2 * 0 ≤ 131072 by decide
  answer := by
    change bytes ≤ 0xffc0
    omega

theorem setRegRequest_sound {reg : Nat} {data : List SaneByte} (h : reg + data.length ≤ 256) :
    (setRegRequest reg data).Sound where
  count := by
    change data.length < 65536
    omega
  data := rfl
  room := by
    change 4 + 2 * data.length ≤ 131072
    omega
  answer := Nat.zero_le _

/-- The range does not reach over the hole. -/
def Block (reg : Nat) (data : List SaneByte) : Prop :=
  reg + data.length ≤ 256 ∧
    ¬ (reg < REG_MOVE_CONTROL_TEST ∧ reg + data.length > REG_MOVE_CONTROL_TEST)

/-- The two ranges beside the hole. -/
theorem blocks_of_hole {reg : Nat} {data : List SaneByte} (hrange : reg + data.length ≤ 256)
    (hhole : reg < REG_MOVE_CONTROL_TEST ∧ reg + data.length > REG_MOVE_CONTROL_TEST) :
    Block reg (data.take (REG_MOVE_CONTROL_TEST - reg)) ∧
      Block 0xb4 (data.drop (REG_MOVE_CONTROL_TEST - reg + 1)) := by
  rw [Block, Block, List.length_take, List.length_drop, REG_MOVE_CONTROL_TEST] at *
  omega

theorem setRegisterImmediate_block {reg : Nat} {data : List SaneByte} (hblock : Block reg data) :
    setRegisterImmediate rt reg data = queueAndExecute rt (setRegRequest reg data) := by
  rw [setRegisterImmediate, if_neg hblock.2]
  rfl

theorem setRegisterImmediate_reaches {reg : Nat} {data : List SaneByte}
    (hrange : reg + data.length ≤ 256) (h : rt.Inv memory) :
    Reaches memory rt (setRegisterImmediate rt reg data) (setRegisterRequests reg data)
      (2 * (setRegisterRequests reg data).length) fun rt' => rt'.waiting = [] := by
  have hone : ∀ {rt : Rt} {reg : Nat} {data : List SaneByte}, Block reg data → rt.Inv memory →
      Reaches memory rt (setRegisterImmediate rt reg data) [setRegRequest reg data] 2
        fun rt' => rt'.waiting = [] := by
    intro rt reg data hblock h
    rw [setRegisterImmediate_block hblock]
    exact queueAndExecute_reaches h (setRegRequest_sound hblock.1)
  rw [setRegisterRequests]
  split
  · rename_i hhole
    obtain ⟨hleft, hright⟩ := blocks_of_hole hrange hhole
    rw [setRegisterImmediate, if_pos hhole]
    exact (hone hleft h).andThen fun rt₁ h₁ _ => hone hright h₁
  · rename_i hblock
    exact hone ⟨hrange, hblock⟩ h

/-- Every register of the range is set once, with its own value; the hole is left out, unless the
    range begins with it. -/
theorem setRegisterRequests_registers (reg : Nat) (data : List SaneByte) :
    (setRegisterRequests reg data).flatMap Request.registers =
      ((List.range' reg data.length).zip data).filter fun p =>
        p.1 ≠ REG_MOVE_CONTROL_TEST ∨ reg = REG_MOVE_CONTROL_TEST := by
  have hkeep : ∀ (a : Nat) (xs : List SaneByte),
      (∀ i ∈ List.range' a xs.length, i ≠ 0xb3 ∨ reg = 0xb3) →
      ((List.range' a xs.length).zip xs).filter (fun p => p.1 ≠ 0xb3 ∨ reg = 0xb3) =
        (List.range' a xs.length).zip xs := by
    intro a xs hall
    rw [List.filter_eq_self]
    intro p hp
    exact decide_eq_true (hall p.1 (List.of_mem_zip hp).1)
  rw [setRegisterRequests, REG_MOVE_CONTROL_TEST]
  split
  · rename_i hhole
    obtain ⟨k, hk⟩ : ∃ k, 0xb3 - reg = k := ⟨_, rfl⟩
    have hlt : k < data.length := by omega
    have hfirst : (data.take k).length = k := List.length_take_of_le hlt.le
    have hsecond : (data.drop (k + 1)).length = data.length - (k + 1) := List.length_drop
    have hdata : data = data.take k ++ data[k] :: data.drop (k + 1) := by
      rw [← List.drop_eq_getElem_cons hlt, List.take_append_drop]
    have hrange : List.range' reg data.length =
        List.range' reg k ++ 0xb3 :: List.range' 0xb4 (data.length - (k + 1)) := by
      have hlen : data.length = k + (data.length - (k + 1) + 1) := by omega
      have hhead : reg + k = 0xb3 := by omega
      conv_lhs => rw [hlen, ← List.range'_append_1, hhead, List.range'_succ]
    have hzip : (List.range' reg data.length).zip data =
        (List.range' reg k).zip (data.take k) ++
          (0xb3, data[k]) :: (List.range' 0xb4 (data.length - (k + 1))).zip
            (data.drop (k + 1)) := by
      rw [hrange]
      generalize data.length - (k + 1) = m
      conv_lhs => rw [hdata]
      rw [List.zip_append (by rw [List.length_range', hfirst]), List.zip_cons_cons]
    have hleft := hkeep reg (data.take k) fun i hi => by
      rw [List.mem_range'_1, hfirst] at hi
      omega
    have hright := hkeep 0xb4 (data.drop (k + 1)) fun i hi => by
      rw [List.mem_range'_1] at hi
      omega
    rw [hk, hzip, List.filter_append, List.filter_cons, if_neg]
    · rw [hfirst] at hleft
      rw [hsecond] at hright
      rw [hleft, hright]
      simp only [List.flatMap_cons, List.flatMap_nil, List.append_nil, Request.registers,
        setRegRequest, hfirst, hsecond]
    · rw [decide_eq_true_iff]
      omega
  · rename_i hblock
    rw [List.flatMap_singleton]
    refine (hkeep reg data fun i hi => ?_).symm
    rw [List.mem_range'_1] at hi
    omega

/-! ### SRAM and data -/

theorem blockSize_bounds (block : List SaneByte) (bufsize : Nat) :
    bufsize + block.length ≤ blockSize bufsize block ∧
      blockSize bufsize block ≤ bufsize + 2 * block.length := by
  induction block generalizing bufsize with
  | nil => exact ⟨Nat.le_refl _, Nat.le_refl _⟩
  | cons x block ih =>
    rw [blockSize, List.foldl_cons, ← blockSize, List.length_cons]
    split
    · have hnext := ih (bufsize + 2)
      omega
    · have hnext := ih (bufsize + 1)
      omega

/-- A chunk is the front of the data, and not too long. -/
theorem sramChunk_spec (bufsize : Nat) (data : List SaneByte) (h : bufsize ≤ 0xf03f) :
    sramChunk bufsize data <+: data ∧ bufsize + (sramChunk bufsize data).length ≤ 0xf03f := by
  induction bufsize, data using sramChunk.induct_unfolding with
  | case1 => exact ⟨List.prefix_rfl, h⟩
  | case2 bufsize data hne hless ih =>
    have hblock := blockSize_bounds (data.take 32) bufsize
    have hlen : (data.take 32).length ≤ 32 := List.length_take_le ..
    obtain ⟨hfront, hroom⟩ := ih (by omega)
    constructor
    · have happend := (List.prefix_append_right_inj (data.take 32)).mpr hfront
      rwa [List.take_append_drop] at happend
    · rw [List.length_append]
      omega
  | case3 bufsize data hne hless => exact ⟨List.nil_prefix, h⟩

/-- The requests of `rt_write_sram`. -/
def writeSramRequests (data : List SaneByte) : List Request :=
  if data = [] then []
  else
    writeSramRequest (sramChunk 0 data) ::
      writeSramRequests (data.drop (sramChunk 0 data).length)
termination_by data.length
decreasing_by
  have hdata := List.length_pos_iff.mpr ‹data ≠ []›
  have hchunk := List.length_pos_iff.mpr (sramChunk_ne_nil ‹data ≠ []›)
  rw [List.length_drop]
  omega

theorem writeSramRequest_sound (data : List SaneByte) :
    (writeSramRequest (sramChunk 0 data)).Sound where
  count := by
    have hlen := (sramChunk_spec 0 data (by decide)).2
    change (sramChunk 0 data).length < 65536
    omega
  data := rfl
  room := by
    have hlen := (sramChunk_spec 0 data (by decide)).2
    change 4 + 2 * (sramChunk 0 data).length ≤ 131072
    omega
  answer := Nat.zero_le _

/-- The requests carry the data, and none of them too much. -/
theorem writeSramRequests_data (data : List SaneByte) :
    (writeSramRequests data).flatMap Request.data = data ∧
      ∀ r ∈ writeSramRequests data, r.command = .writesram ∧ r.data.length ≤ MAX_READ_BYTES := by
  induction data using writeSramRequests.induct_unfolding with
  | case1 => exact ⟨rfl, fun r hr => nomatch hr⟩
  | case2 data hne ih =>
    obtain ⟨hfront, hlen⟩ := sramChunk_spec 0 data (by decide)
    obtain ⟨hdata, hall⟩ := ih
    constructor
    · rw [List.flatMap_cons, hdata]
      exact (List.prefix_iff_eq_append.mp hfront)
    · intro r hr
      rcases List.mem_cons.mp hr with rfl | hmem
      · refine ⟨rfl, ?_⟩
        change (sramChunk 0 data).length ≤ 0xffc0
        omega
      · exact hall r hmem

theorem writeSram_reaches (data : List SaneByte) (h : rt.Inv memory)
    (hroom : data ≠ [] → rt.Room (writeSramRequest (sramChunk 0 data))) :
    Reaches memory rt (writeSram rt data) (writeSramRequests data)
      (2 * (writeSramRequests data).length) fun rt' => data ≠ [] → rt'.waiting = [] := by
  induction data using writeSramRequests.induct_unfolding generalizing rt with
  | case1 =>
    rw [writeSram]
    exact .done h fun hne => absurd rfl hne
  | case2 data hne ih =>
    rw [writeSram, if_neg hne, List.length_cons, Nat.mul_succ]
    have hsound := writeSramRequest_sound data
    refine (sendCommandImmediate_reaches h hsound (hroom hne)).andThen fun rt₁ h₁ hwaiting => ?_
    obtain ⟨ok, rt₂, hrun, h₂, hpart, hok, hserved⟩ := ih h₁ fun _ hfull => by
      rw [h₁.not_full (writeSramRequest_sound _) hwaiting] at hfull
      cases hfull
    refine ⟨ok, rt₂, hrun, h₂, hpart, fun htrue => ⟨(hok htrue).1, fun _ => ?_⟩, hserved⟩
    by_cases hrest : data.drop (sramChunk 0 data).length = []
    · rw [hrest, writeSram, if_pos rfl] at hrun
      cases hrun
      exact hwaiting
    · exact (hok htrue).2 hrest

/-- Requests that read so many bytes, at most `limit` of them at once. -/
def readRequests (command : RtCommand) (limit : Nat) (hlimit : 0 < limit) (bytes data : Nat) :
    List Request :=
  if bytes = 0 then []
  else
    ⟨command, 0, min bytes limit, [], min bytes limit, data⟩ ::
      readRequests command limit hlimit (bytes - min bytes limit) (data + min bytes limit)
termination_by bytes

/-- The bytes are stored one behind the other. -/
theorem readRequests_cells (command : RtCommand) (limit : Nat) (hlimit : 0 < limit)
    (bytes data : Nat) :
    (readRequests command limit hlimit bytes data).flatMap
        (fun r => List.range' r.readdata r.readbytes) = List.range' data bytes ∧
      ∀ r ∈ readRequests command limit hlimit bytes data,
        r.command = command ∧ r.count = r.readbytes ∧ r.readbytes ≤ limit := by
  induction bytes, data using readRequests.induct_unfolding command limit hlimit with
  | case1 => exact ⟨rfl, fun r hr => nomatch hr⟩
  | case2 bytes data hne ih =>
    obtain ⟨hcells, hall⟩ := ih
    constructor
    · rw [List.flatMap_cons, hcells, List.range'_append_1]
      change List.range' data (min bytes limit + (bytes - min bytes limit)) = _
      rw [Nat.add_sub_cancel' (Nat.min_le_left ..)]
    · intro r hr
      rcases List.mem_cons.mp hr with rfl | hmem
      · exact ⟨rfl, rfl, Nat.min_le_right ..⟩
      · exact hall r hmem

theorem readbytesRequest_sound (bytes data : Nat) :
    Request.Sound ⟨.readbytes, 0, min bytes 0xffc0, [], min bytes 0xffc0, data⟩ where
  count := by
    change min bytes 0xffc0 < 65536
    omega
  data := rfl
  room := show 4 + 2 * 0 ≤ 131072 by decide
  answer := Nat.min_le_right ..

/-- `rt_get_data` reads at most 0xffc0 bytes at once. -/
theorem getData_step {bytes : Nat} (data : Nat) (hne : bytes ≠ 0) :
    getData rt bytes data =
      RtResult.andThen
        (queueAndExecute rt ⟨.readbytes, 0, min bytes 0xffc0, [], min bytes 0xffc0, data⟩)
        fun rt => getData rt (bytes - min bytes 0xffc0) (data + min bytes 0xffc0) := by
  have hnow : (if bytes > 0xffc0 then 0xffc0 else bytes) = min bytes 0xffc0 := by
    split <;> omega
  rw [getData, if_neg hne]
  dsimp only
  rw [hnow]

theorem getData_reaches (bytes data : Nat) (h : rt.Inv memory) :
    Reaches memory rt (getData rt bytes data)
      (readRequests .readbytes 0xffc0 (by decide) bytes data)
      (2 * (readRequests .readbytes 0xffc0 (by decide) bytes data).length)
      fun rt' => bytes ≠ 0 → rt'.waiting = [] := by
  induction bytes, data using readRequests.induct_unfolding .readbytes 0xffc0 (by decide)
    generalizing rt with
  | case1 =>
    rw [getData]
    exact .done h fun hne => absurd rfl hne
  | case2 bytes data hne ih =>
    rw [getData_step data hne, List.length_cons, Nat.mul_succ]
    refine (queueAndExecute_reaches h (readbytesRequest_sound bytes data)).andThen
      fun rt₁ h₁ hwaiting => ?_
    obtain ⟨ok, rt₂, hrun, h₂, hpart, hok, hserved⟩ := ih h₁
    refine ⟨ok, rt₂, hrun, h₂, hpart, fun htrue => ⟨(hok htrue).1, fun _ => ?_⟩, hserved⟩
    by_cases hrest : bytes - min bytes 0xffc0 = 0
    · rw [hrest, getData, if_pos rfl] at hrun
      cases hrun
      exact hwaiting
    · exact (hok htrue).2 hrest

def readSramRequest (bytes data : Nat) : Request := ⟨.readsram, 0, bytes, [], bytes, data⟩

theorem readSramRequest_sound {bytes : Nat} (data : Nat) (hbytes : bytes ≤ 0xf000) :
    (readSramRequest bytes data).Sound where
  count := by
    change bytes < 65536
    omega
  data := rfl
  room := show 4 + 2 * 0 ≤ 131072 by decide
  answer := by
    change bytes ≤ 0xffc0
    omega

/-- As many bytes as go into one command need one command. -/
theorem readSram_one {bytes : Nat} (data : Nat) (hbytes : bytes ≤ 0xf000) (hne : bytes ≠ 0) :
    readRequests .readsram 0xf000 (by decide) bytes data = [readSramRequest bytes data] ∧
      readSram rt bytes data =
        RtResult.andThen (sendCommandImmediate rt (readSramRequest bytes data))
          fun rt => some (true, rt) := by
  constructor
  · rw [readRequests, if_neg hne, Nat.min_eq_left hbytes, Nat.sub_self, readRequests, if_pos rfl]
    rfl
  · rw [readSram, if_neg hne]
    dsimp only
    rw [if_neg (Nat.not_lt.mpr hbytes), Nat.sub_self, readSramRequest]
    congr 1
    funext rt
    rw [readSram, if_pos rfl]

theorem readSram_reaches (bytes data : Nat) (hbytes : bytes ≤ 0xf000) (h : rt.Inv memory)
    (hroom : rt.Room (readSramRequest bytes data)) :
    Reaches memory rt (readSram rt bytes data)
      (readRequests .readsram 0xf000 (by decide) bytes data)
      (2 * (readRequests .readsram 0xf000 (by decide) bytes data).length)
      fun rt' => bytes ≠ 0 → rt'.waiting = [] := by
  by_cases hzero : bytes = 0
  · subst hzero
    rw [readSram, readRequests, if_pos rfl, if_pos rfl]
    exact .done h fun hne => absurd rfl hne
  · obtain ⟨hone, hrun⟩ := @readSram_one rt bytes data hbytes hzero
    have hsound := readSramRequest_sound data hbytes
    rw [hrun, hone]
    exact (sendCommandImmediate_reaches h hsound hroom).andThen fun rt₁ h₁ hwaiting =>
      .done h₁ fun _ => hwaiting

/-! ### Sequences of calls -/

/-- The calls; registers are those of the chip. -/
inductive RtOp
  | queueReadRegister (reg bytes data : Nat) (range : reg + bytes ≤ 256)
  | readRegister (reg bytes data : Nat) (range : reg + bytes ≤ 256)
  | queueSetRegister (reg : Nat) (data : List SaneByte) (range : reg + data.length ≤ 256)
  | setRegister (reg : Nat) (data : List SaneByte) (range : reg + data.length ≤ 256)
  | writeSram (data : List SaneByte)
  | readSram (bytes data : Nat)
  | availableBytes (data : Nat)
  | getData (bytes data : Nat)
  | execute

def RtOp.exec (rt : Rt) : RtOp → RtResult
  | .queueReadRegister reg bytes data _ => Hp3500.queueReadRegister rt reg bytes data
  | .readRegister reg bytes data _ => readRegisterImmediate rt reg bytes data
  | .queueSetRegister reg data _ => Hp3500.queueSetRegister rt reg data
  | .setRegister reg data _ => setRegisterImmediate rt reg data
  | .writeSram data => Hp3500.writeSram rt data
  | .readSram bytes data => Hp3500.readSram rt bytes data
  | .availableBytes data => getAvailableBytes rt data
  | .getData bytes data => Hp3500.getData rt bytes data
  | .execute => executeCommands rt

/-- The call does not leave its requests in the command buffer. -/
def RtOp.immediate : RtOp → Bool
  | .queueReadRegister .. => false
  | .queueSetRegister .. => false
  | _ => true

/-- What the requests of a call have to be. -/
def RtOp.Meets (rs : List Request) : RtOp → Prop
  | .queueReadRegister reg bytes data _ => rs = [getRegRequest reg bytes data]
  | .readRegister reg bytes data _ => rs = [getRegRequest reg bytes data]
  | .queueSetRegister reg data _ => rs = [setRegRequest reg data]
  | .setRegister reg data _ =>
    (∀ r ∈ rs, r.command = .setreg) ∧
      rs.flatMap Request.registers = ((List.range' reg data.length).zip data).filter fun p =>
        p.1 ≠ REG_MOVE_CONTROL_TEST ∨ reg = REG_MOVE_CONTROL_TEST
  | .writeSram data =>
    rs.flatMap Request.data = data ∧
      ∀ r ∈ rs, r.command = .writesram ∧ r.data.length ≤ MAX_READ_BYTES
  | .readSram bytes data =>
    rs.flatMap (fun r => List.range' r.readdata r.readbytes) = List.range' data bytes ∧
      ∀ r ∈ rs, r.command = .readsram ∧ r.count = r.readbytes ∧ r.readbytes ≤ MAX_READ_BYTES
  | .availableBytes data => rs = [⟨.bytesavail, 0, 3, [], 3, data⟩]
  | .getData bytes data =>
    rs.flatMap (fun r => List.range' r.readdata r.readbytes) = List.range' data bytes ∧
      ∀ r ∈ rs, r.command = .readbytes ∧ r.count = r.readbytes ∧ r.readbytes ≤ MAX_READ_BYTES
  | .execute => rs = []

/-- SRAM is read with one command, and if the command buffer has to be written before the first
    command of an SRAM transfer, this succeeds. -/
def RtOp.Clear (rt : Rt) : RtOp → Prop
  | .writeSram data => data ≠ [] → rt.Room (writeSramRequest (sramChunk 0 data))
  | .readSram bytes data => bytes ≤ 0xf000 ∧ rt.Room (readSramRequest bytes data)
  | _ => True

/-- No buffer is overrun.  The requests of the call follow those before; if it fails, the last ones
    may be missing, otherwise they have been executed or wait to be.  It does not fail when the USB
    layer answers two writes and reads for each request and one more. -/
def RtOp.Works (rt : Rt) (op : RtOp) : Prop :=
  ∃ ok rt' rs, op.exec rt = some (ok, rt') ∧ op.Meets rs ∧ rt.Partly rt' rs ∧
    (ok = true → rt.Advances rt' rs ∧ (op.immediate = true → rs ≠ [] → rt'.waiting = [])) ∧
    ∀ n, rt.Served (n + (2 * rs.length + 1)) → ok = true ∧ rt'.Served n

/-- What one call does. -/
theorem RtOp.reaches (op : RtOp) (h : rt.Inv memory) (hclear : op.Clear rt) :
    ∃ rs, op.Meets rs ∧ Reaches memory rt (op.exec rt) rs (2 * rs.length + 1) fun rt' =>
      op.immediate = true → rs ≠ [] → rt'.waiting = [] := by
  cases op with
  | queueReadRegister reg bytes data range =>
    have hsound := getRegRequest_sound data range
    refine ⟨_, rfl, (queueCommand_reaches h hsound).mono (Nat.le_add_left ..) ?_⟩
    intro rt' _ himmediate
    cases himmediate
  | readRegister reg bytes data range =>
    have hsound := getRegRequest_sound data range
    exact ⟨_, rfl, (queueAndExecute_reaches h hsound).mono (Nat.le_succ _)
      fun rt' hwaiting _ _ => hwaiting⟩
  | queueSetRegister reg data range =>
    have hsound := setRegRequest_sound range
    refine ⟨_, rfl, (queueCommand_reaches h hsound).mono (Nat.le_add_left ..) ?_⟩
    intro rt' _ himmediate
    cases himmediate
  | setRegister reg data range =>
    refine ⟨_, ⟨?_, setRegisterRequests_registers reg data⟩,
      (setRegisterImmediate_reaches range h).mono (Nat.le_succ _)
        fun rt' hwaiting _ _ => hwaiting⟩
    intro r hr
    rw [setRegisterRequests] at hr
    split at hr
    · rcases List.mem_pair.mp hr with rfl | rfl
      · rfl
      · rfl
    · rw [List.mem_singleton.mp hr]
      rfl
  | writeSram data =>
    refine ⟨_, writeSramRequests_data data, (writeSram_reaches data h hclear).mono (Nat.le_succ _)
      fun rt' hwaiting _ hne => hwaiting ?_⟩
    rintro rfl
    rw [writeSramRequests] at hne
    exact hne rfl
  | readSram bytes data =>
    obtain ⟨hcells, hall⟩ := readRequests_cells .readsram 0xf000 (by decide) bytes data
    refine ⟨_, ⟨hcells, fun r hr => ?_⟩,
      (readSram_reaches bytes data hclear.1 h hclear.2).mono (Nat.le_succ _)
        fun rt' hwaiting _ hne => hwaiting ?_⟩
    · obtain ⟨hcommand, hcount, hlimit⟩ := hall r hr
      exact ⟨hcommand, hcount, hlimit.trans (by decide)⟩
    · rintro rfl
      rw [readRequests] at hne
      exact hne rfl
  | availableBytes data =>
    have hsound : Request.Sound ⟨.bytesavail, 0, 3, [], 3, data⟩ :=
      ⟨show 3 < 65536 by decide, rfl, show 4 + 2 * 0 ≤ 131072 by decide,
        show 3 ≤ 0xffc0 by decide⟩
    exact ⟨_, rfl, (queueAndExecute_reaches h hsound).mono (Nat.le_succ _)
      fun rt' hwaiting _ _ => hwaiting⟩
  | getData bytes data =>
    refine ⟨_, readRequests_cells .readbytes 0xffc0 (by decide) bytes data,
      (getData_reaches bytes data h).mono (Nat.le_succ _) fun rt' hwaiting _ hne => hwaiting ?_⟩
    rintro rfl
    rw [readRequests] at hne
    exact hne rfl
  | execute =>
    exact ⟨[], rfl, (executeCommands_reaches h).mono (Nat.le_refl 1)
      fun rt' _ _ hne => absurd rfl hne⟩

/-- The stream, read back, is the requests in their order; the command buffer is not overrun, and
    each answer is in the memory given for it. -/
structure Rt.Correct (memory : Nat → SaneByte) (rt : Rt) : Prop where
  stream : parseStream (rt.written ++ rt.commandBuffer) =
    some ((rt.sent ++ rt.waiting).map Request.wire)
  device : parseStream rt.written = some (rt.sent.map Request.wire)
  fits : rt.commandBuffer.length ≤ MAX_COMMANDS_BYTES
  stored : rt.memory = storeReads (rt.executed.filterMap Request.read?) rt.received memory
  received : rt.received.length = (rt.executed.map Request.readbytes).sum

theorem Rt.Inv.correct (h : rt.Inv memory) : rt.Correct memory where
  stream := by
    rw [h.written, h.buffer, ← List.flatMap_append]
    exact parseStream_encode h.sound
  device := by
    rw [h.written]
    exact parseStream_encode fun r hr => h.sound r (List.mem_append_left _ hr)
  fits := h.fits
  stored := h.stored
  received := h.received

theorem idle_inv (memory : Nat → SaneByte) (writeAnswers : List Bool)
    (readAnswers : List (Option (List SaneByte))) :
    (Rt.idle memory writeAnswers readAnswers).Inv memory :=
  ⟨rfl, rfl, Nat.zero_le _, rfl, rfl, Nat.zero_le _, rfl, rfl, fun _ hr => nomatch hr⟩

/-- In every run whose calls meet the condition the stream and the memory are right in every
    state, and every such call does what it is for. -/
theorem commandStream (memory : Nat → SaneByte) (writeAnswers : List Bool)
    (readAnswers : List (Option (List SaneByte))) (ops : List RtOp) (rt : Rt)
    (hrun : Run (fun rt op rt' => op.Clear rt ∧ ∃ ok, op.exec rt = some (ok, rt'))
      (Rt.idle memory writeAnswers readAnswers) ops rt) :
    rt.Correct memory ∧ ∀ op : RtOp, op.Clear rt → op.Works rt := by
  have hinv : rt.Inv memory := by
    refine hrun.invariant (I := fun rt => rt.Inv memory)
      (idle_inv memory writeAnswers readAnswers) ?_
    rintro rt op rt' h ⟨hclear, ok, hexec⟩
    obtain ⟨rs, -, ok', rt'', hexec', hinv, -⟩ := op.reaches h hclear
    rw [hexec] at hexec'
    cases hexec'
    exact hinv
  refine ⟨hinv.correct, fun op hclear => ?_⟩
  obtain ⟨rs, hmeets, ok, rt', hexec, -, hpart, hok, hserved⟩ := op.reaches hinv hclear
  exact ⟨ok, rt', rs, hexec, hmeets, hpart, hok, hserved⟩

/-- Registers are set, two of them to the mark, and two are read with the same bulk write. -/
theorem commandStream_mark :
    ∃ rt, Run (fun rt (op : RtOp) rt' => op.Clear rt ∧ ∃ ok, op.exec rt = some (ok, rt'))
        (Rt.idle (fun _ => 0) [true] [some [3, 4]])
        [.queueSetRegister 0x10 [0xaa, 7] (by decide), .queueSetRegister 0x40 [0, 0xaa] (by decide),
          .queueReadRegister 0x20 2 5 (by decide), .execute] rt ∧
      parseStream rt.written = some [⟨.setreg, 0x10, 2, [0xaa, 7]⟩, ⟨.setreg, 0x40, 2, [0, 0xaa]⟩,
        ⟨.getreg, 0x20, 2, []⟩] ∧
      [rt.memory 5, rt.memory 6, rt.memory 7] = [3, 4, 0] ∧
      rt.Correct (fun _ => 0) ∧ RtOp.Works rt (.getData 70000 8) := by
  let step : Rt → RtOp → Rt → Prop :=
    fun rt op rt' => op.Clear rt ∧ ∃ ok, op.exec rt = some (ok, rt')
  have hqueue : ∀ {rt₀ rt rt' : Rt} {ops : List RtOp} (op : RtOp), Run step rt₀ ops rt →
      op.Clear rt → op.exec rt = some (true, rt') → Run step rt₀ (ops ++ [op]) rt' :=
    fun op h hclear hexec => h.snoc ⟨hclear, true, hexec⟩
  have hstart : Run step (Rt.idle (fun _ => 0) [true] [some [3, 4]]) [] _ := .nil
  have hfirst := hqueue (.queueSetRegister 0x10 [0xaa, 7] (by decide)) hstart trivial rfl
  have hsecond := hqueue (.queueSetRegister 0x40 [0, 0xaa] (by decide)) hfirst trivial rfl
  have hthird := hqueue (.queueReadRegister 0x20 2 5 (by decide)) hsecond trivial rfl
  have hrun := hqueue .execute hthird trivial rfl
  obtain ⟨hcorrect, hworks⟩ := commandStream (fun _ => 0) [true] [some [3, 4]] _ _ hrun
  exact ⟨_, hrun, by decide, by decide, hcorrect, hworks (.getData 70000 8) trivial⟩

/-- A read of more SRAM than `readbuf` holds is requested at once. -/
theorem readSram_overruns :
    ¬ ∀ (memory : Nat → SaneByte) (writeAnswers : List Bool)
      (readAnswers : List (Option (List SaneByte))) (ops : List RtOp) (rt : Rt),
      Run (fun rt op rt' => ∃ ok, op.exec rt = some (ok, rt'))
        (Rt.idle memory writeAnswers readAnswers) ops rt →
      rt.Correct memory ∧ ∀ op : RtOp, op.Works rt := by
  intro h
  obtain ⟨ok, rt', rs, hexec, -⟩ := (h (fun _ => 0) [true] [] [] _ .nil).2 (.readSram 0xffc1 0)
  have hsend : sendCommandImmediate (Rt.idle (fun _ => 0) [true] []) (readSramRequest 0xffc1 0) =
      none := rfl
  rw [readSramRequest] at hsend
  rw [RtOp.exec, readSram, if_neg (by decide), hsend] at hexec
  cases hexec

end SaneBackends.Hp3500
