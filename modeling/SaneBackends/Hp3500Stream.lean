import SaneBackends.Hp3500Commands
import SaneBackends.LabelledRun

/-!
# The command stream of an HP ScanJet 3500

What goes over the wire, read back, is the requests that have been queued; what is read back from
the device goes to the memory that was given for it.
-/

namespace SaneBackends.Hp3500

open ByteStuffing LabelledRun RingMemory

variable {rt rt' : Rt} {r : Request} {rs : List Request} {memory : Nat → SaneByte}

/-! ### Reading the stream back -/

def RtCommand.ofCode (b : SaneByte) : Option RtCommand :=
  if b = 0x80 then some .getreg
  else if b = 0x81 then some .readsram
  else if b = 0x88 then some .setreg
  else if b = 0x89 then some .writesram
  else if b = 0x90 then some .bytesavail
  else if b = 0x91 then some .readbytes
  else none

/-- Data follow the header. -/
def RtCommand.writes : RtCommand → Bool
  | .setreg => true
  | .writesram => true
  | _ => false

/-- A command as the device gets it. -/
structure Wire where
  command : RtCommand
  reg : SaneByte
  count : Nat
  data : List SaneByte
deriving DecidableEq, Repr

def Request.wire (r : Request) : Wire := ⟨r.command, BitVec.ofNat 8 r.reg, r.count, r.data⟩

/-- The data of a command, and the bytes behind them. -/
def RtCommand.body (command : RtCommand) (count : Nat) (bytes : List SaneByte) :
    Option (List SaneByte × List SaneByte) :=
  if command.writes then unstuff 0xaa 0 count bytes else some ([], bytes)

/-- Four bytes of header, then the data with the bytes behind 0xaa removed. -/
def parseCommands : Nat → List SaneByte → Option (List Wire)
  | _, [] => some []
  | fuel + 1, code :: reg :: high :: low :: bytes => do
    let command ← RtCommand.ofCode code
    let count := high.toNat * 256 + low.toNat
    let (data, bytes) ← command.body count bytes
    let wires ← parseCommands fuel bytes
    pure (⟨command, reg, count, data⟩ :: wires)
  | _, _ => none

/-- Every command has four bytes at least. -/
def parseStream (bytes : List SaneByte) : Option (List Wire) := parseCommands bytes.length bytes

/-- What the functions of the driver ask for: the count is that of the data, if there are any, and
    neither it nor the room for them is too large. -/
structure Request.Sound (r : Request) : Prop where
  count : r.count < 65536
  data : r.data.length = if r.command.writes then r.count else 0
  room : 4 + 2 * r.data.length ≤ MAX_COMMANDS_BYTES
  answer : r.readbytes ≤ MAX_READ_BYTES

theorem RtCommand.ofCode_code (command : RtCommand) :
    RtCommand.ofCode command.code = some command := by
  cases command <;> rfl

theorem count_bytes {count : Nat} (h : count < 65536) :
    (BitVec.ofNat 8 (count >>> 8)).toNat * 256 + (BitVec.ofNat 8 count).toNat = count := by
  rw [BitVec.toNat_ofNat, BitVec.toNat_ofNat, Nat.shiftRight_eq_div_pow]
  omega

theorem length_encode_le (r : Request) : r.encode.length ≤ 4 + 2 * r.data.length := by
  have hstuff := @length_stuff_le SaneByte _ 0xaa 0 r.data
  rw [Request.encode, List.length_append]
  exact Nat.add_le_add_left hstuff 4

/-- One command is read. -/
theorem parseCommands_encode (h : r.Sound) (fuel : Nat) (bytes : List SaneByte) :
    parseCommands (fuel + 1) (r.encode ++ bytes) =
      (parseCommands fuel bytes).map (r.wire :: ·) := by
  have hbody : r.command.body r.count (stuff 0xaa 0 r.data ++ bytes) = some (r.data, bytes) := by
    have hlen := h.data
    rw [RtCommand.body]
    split
    · rename_i hwrites
      rw [if_pos hwrites] at hlen
      rw [← hlen, unstuff_stuff]
    · rename_i hwrites
      rw [if_neg hwrites] at hlen
      rw [List.eq_nil_of_length_eq_zero hlen]
      rfl
  rw [Request.encode]
  simp only [List.cons_append, List.nil_append, parseCommands, RtCommand.ofCode_code,
    count_bytes h.count, hbody, Option.bind_eq_bind, Option.bind_some]
  cases parseCommands fuel bytes <;> rfl

/-- A stream of requests is read back. -/
theorem parseStream_encode (h : ∀ r ∈ rs, r.Sound) :
    parseStream (rs.flatMap Request.encode) = some (rs.map Request.wire) := by
  have hall : ∀ fuel, (rs.flatMap Request.encode).length ≤ fuel →
      parseCommands fuel (rs.flatMap Request.encode) = some (rs.map Request.wire) := by
    induction rs with
    | nil =>
      intro fuel _
      cases fuel <;> rfl
    | cons r rs ih =>
      intro fuel hfuel
      rw [List.flatMap_cons, List.length_append] at hfuel
      have hfour : 4 ≤ r.encode.length := by
        rw [Request.encode, List.length_append]
        exact Nat.le_add_right 4 _
      obtain ⟨fuel, rfl⟩ : ∃ n, fuel = n + 1 := ⟨fuel - 1, by omega⟩
      rw [List.flatMap_cons, parseCommands_encode (h r List.mem_cons_self),
        ih (fun r hr => h r (List.mem_cons_of_mem _ hr)) fuel (by omega)]
      rfl
  exact hall _ (Nat.le_refl _)

/-! ### The memory -/

theorem storeReads_append {reads more : List (Nat × Nat)} {readbuf rest : List SaneByte}
    (h : readbuf.length = (reads.map Prod.snd).sum) :
    storeReads (reads ++ more) (readbuf ++ rest) memory =
      storeReads more rest (storeReads reads readbuf memory) := by
  induction reads generalizing readbuf memory with
  | nil =>
    rw [List.eq_nil_of_length_eq_zero h]
    rfl
  | cons read reads ih =>
    obtain ⟨readmem, readbytes⟩ := read
    rw [List.map_cons, List.sum_cons] at h
    have hle : readbytes ≤ readbuf.length := by omega
    rw [List.cons_append, storeReads, storeReads, List.drop_append_of_le_length hle,
      List.take_append_of_le_length hle, ih]
    rw [List.length_drop]
    omega

/-- A bulk read that succeeds gives all bytes. -/
theorem length_readBulk {answers : List (Option (List SaneByte))} {total : Nat}
    {readbuf bytes : List SaneByte} (hroom : readbuf.length ≤ total)
    (h : (readBulk answers total readbuf).1 = some bytes) : bytes.length = total := by
  induction answers generalizing readbuf with
  | nil => cases h
  | cons answer answers ih =>
    cases answer with
    | none => cases h
    | some xs =>
      rw [readBulk] at h
      have hgot : (readbuf ++ xs.take (total - readbuf.length)).length ≤ total := by
        rw [List.length_append, List.length_take]
        omega
      split at h
      · cases h
      · split at h
        · exact ih hgot h
        · cases h
          omega

theorem readBulk_whole {answers : List (Option (List SaneByte))} {bytes : List SaneByte}
    {total : Nat} (hhead : answers[0]? = some (some bytes)) (hpos : 0 < total)
    (hlen : total ≤ bytes.length) :
    readBulk answers total [] = (some (bytes.take total), answers.tail) := by
  cases answers with
  | nil => cases hhead
  | cons answer answers =>
    cases hhead
    have htake : (bytes.take total).length = total := List.length_take_of_le hlen
    rw [readBulk, List.length_nil, Nat.sub_zero, List.nil_append, htake, if_neg,
      if_neg (Nat.lt_irrefl _)]
    · rfl
    · intro hnil
      rw [hnil] at htake
      exact Nat.ne_of_lt hpos htake

/-! ### The invariant -/

/-- What went over the wire and what is in the command buffer are requests one after the other, and
    the memory holds the answers to those that have been executed. -/
structure Rt.Inv (memory : Nat → SaneByte) (rt : Rt) : Prop where
  written : rt.written = rt.sent.flatMap Request.encode
  buffer : rt.commandBuffer = rt.waiting.flatMap Request.encode
  fits : rt.commandBuffer.length ≤ MAX_COMMANDS_BYTES
  reads : rt.reads = rt.waiting.filterMap Request.read?
  receive : rt.receiveBytes = (rt.waiting.map Request.readbytes).sum
  answer : rt.receiveBytes ≤ MAX_READ_BYTES
  stored : rt.memory = storeReads (rt.executed.filterMap Request.read?) rt.received memory
  received : rt.received.length = (rt.executed.map Request.readbytes).sum
  sound : ∀ r ∈ rt.sent ++ rt.waiting, r.Sound

/-- These requests have followed the others; all of them have been executed or wait. -/
structure Rt.Advances (rt rt' : Rt) (rs : List Request) : Prop where
  sent : rt'.sent ++ rt'.waiting = rt.sent ++ rt.waiting ++ rs
  executed : rt'.executed ++ rt'.waiting = rt.executed ++ rt.waiting ++ rs

/-- Of these requests the first ones have followed the others. -/
def Rt.Partly (rt rt' : Rt) (rs : List Request) : Prop :=
  ∃ first, first <+: rs ∧ rt'.sent ++ rt'.waiting = rt.sent ++ rt.waiting ++ first

/-- Each of the next `n` bulk writes succeeds, and each of the next `n` bulk reads gives all bytes
    at once, however many are asked for. -/
structure Rt.Served (rt : Rt) (n : Nat) : Prop where
  writes : ∀ i < n, rt.writeAnswers[i]? = some true
  reads : ∀ i < n, ∃ bytes, rt.readAnswers[i]? = some (some bytes) ∧ MAX_READ_BYTES ≤ bytes.length

/-- No buffer is overrun and the invariant is kept; if the call fails some of the requests may be
    missing, otherwise all have followed and `Q` holds.  It does not fail when `k` writes and reads
    are answered. -/
def Reaches (memory : Nat → SaneByte) (rt : Rt) (result : RtResult) (rs : List Request) (k : Nat)
    (Q : Rt → Prop) : Prop :=
  ∃ ok rt', result = some (ok, rt') ∧ rt'.Inv memory ∧ rt.Partly rt' rs ∧
    (ok = true → rt.Advances rt' rs ∧ Q rt') ∧
    ∀ n, rt.Served (n + k) → ok = true ∧ rt'.Served n

variable {Q Q' : Rt → Prop} {result : RtResult} {next : Rt → RtResult} {rt'' : Rt}
  {rs' : List Request} {k k' : Nat}

theorem Rt.Served.mono {m n : Nat} (h : rt.Served n) (hmn : m ≤ n) : rt.Served m where
  writes i hi := h.writes i (hi.trans_le hmn)
  reads i hi := h.reads i (hi.trans_le hmn)

theorem Rt.Served.writes_head {n : Nat} (h : rt.Served (n + 1)) :
    rt.writeAnswers.headD false = true := by
  have hfirst := h.writes 0 (Nat.succ_pos n)
  cases hanswers : rt.writeAnswers with
  | nil =>
    rw [hanswers] at hfirst
    cases hfirst
  | cons ok answers =>
    rw [hanswers] at hfirst
    exact Option.some.inj hfirst

theorem Rt.Advances.trans (h : rt.Advances rt' rs) (h' : rt'.Advances rt'' rs') :
    rt.Advances rt'' (rs ++ rs') where
  sent := by rw [h'.sent, h.sent, List.append_assoc]
  executed := by rw [h'.executed, h.executed, List.append_assoc]

theorem Reaches.mono (h : Reaches memory rt result rs k Q) (hk : k ≤ k')
    (hQ : ∀ rt', Q rt' → Q' rt') : Reaches memory rt result rs k' Q' := by
  obtain ⟨ok, rt', hrun, hinv, hpart, hok, hserved⟩ := h
  exact ⟨ok, rt', hrun, hinv, hpart, fun htrue => ⟨(hok htrue).1, hQ _ (hok htrue).2⟩,
    fun n hn => hserved n (hn.mono (Nat.add_le_add_left hk n))⟩

/-- Nothing is to be done. -/
theorem Reaches.done (h : rt.Inv memory) (hQ : Q rt) :
    Reaches memory rt (some (true, rt)) [] 0 Q :=
  ⟨true, rt, rfl, h, ⟨[], List.prefix_rfl, (List.append_nil _).symm⟩,
    fun _ => ⟨⟨(List.append_nil _).symm, (List.append_nil _).symm⟩, hQ⟩, fun _ hn => ⟨rfl, hn⟩⟩

/-- One call after the other. -/
theorem Reaches.andThen (h : Reaches memory rt result rs k Q)
    (hnext : ∀ rt', rt'.Inv memory → Q rt' → Reaches memory rt' (next rt') rs' k' Q') :
    Reaches memory rt (result.andThen next) (rs ++ rs') (k' + k) Q' := by
  obtain ⟨ok, rt₁, rfl, hinv, ⟨first, hfirst, hpart⟩, hok, hserved⟩ := h
  cases ok with
  | false =>
    refine ⟨false, rt₁, rfl, hinv, ⟨first, ?_, hpart⟩, fun h => absurd h Bool.false_ne_true, fun n hn => ?_⟩
    · exact hfirst.trans (List.prefix_append ..)
    · rw [← Nat.add_assoc] at hn
      exact absurd (hserved _ hn).1 Bool.false_ne_true
  | true =>
    obtain ⟨hadvances, hQ⟩ := hok rfl
    obtain ⟨ok, rt₂, hrun, hinv, ⟨second, hsecond, hpart⟩, hok, hserved'⟩ := hnext rt₁ hinv hQ
    refine ⟨ok, rt₂, hrun, hinv, ⟨rs ++ second, ?_, ?_⟩, fun htrue => ?_, fun n hn => ?_⟩
    · exact (List.prefix_append_right_inj rs).mpr hsecond
    · rw [hpart, hadvances.sent, List.append_assoc]
    · obtain ⟨hmore, hQ'⟩ := hok htrue
      exact ⟨hadvances.trans hmore, hQ'⟩
    · rw [← Nat.add_assoc] at hn
      exact hserved' n (hserved _ hn).2

theorem read_sum (rs : List Request) :
    ((rs.filterMap Request.read?).map Prod.snd).sum = (rs.map Request.readbytes).sum := by
  induction rs with
  | nil => rfl
  | cons r rs ih =>
    rw [List.filterMap_cons, Request.read?, List.map_cons, List.sum_cons]
    by_cases hzero : r.readbytes = 0
    · rw [if_pos hzero, hzero, Nat.zero_add]
      exact ih
    · rw [if_neg hzero]
      dsimp only
      rw [List.map_cons, List.sum_cons, ih]

theorem Rt.Inv.waiting_nil (h : rt.Inv memory) (hnil : rt.commandBuffer = []) :
    rt.waiting = [] := by
  have hbuffer := h.buffer
  rw [hnil] at hbuffer
  cases hwaiting : rt.waiting with
  | nil => rfl
  | cons r rs =>
    rw [hwaiting] at hbuffer
    cases hbuffer

/-- The command buffer has been written; nothing has been read. -/
theorem Rt.Inv.flushed (h : rt.Inv memory)
    (readAnswers : List (Option (List SaneByte))) :
    ({ rt.flushed with readAnswers } : Rt).Inv memory where
  written := by
    change rt.written ++ rt.commandBuffer = (rt.sent ++ rt.waiting).flatMap Request.encode
    rw [h.written, h.buffer, List.flatMap_append]
  buffer := rfl
  fits := Nat.zero_le _
  reads := rfl
  receive := rfl
  answer := Nat.zero_le _
  stored := h.stored
  received := h.received
  sound := by
    change ∀ r ∈ rt.sent ++ rt.waiting ++ [], r.Sound
    rw [List.append_nil]
    exact h.sound

/-- The same when all answers have been read. -/
theorem Rt.Inv.answered (h : rt.Inv memory) {readbuf : List SaneByte}
    (readAnswers : List (Option (List SaneByte))) (hlen : readbuf.length = rt.receiveBytes) :
    ({ rt.flushed with
      readAnswers
      memory := storeReads rt.reads readbuf rt.memory
      received := rt.received ++ readbuf
      executed := rt.executed ++ rt.waiting } : Rt).Inv memory where
  written := (h.flushed readAnswers).written
  buffer := rfl
  fits := Nat.zero_le _
  reads := rfl
  receive := rfl
  answer := Nat.zero_le _
  stored := by
    change storeReads rt.reads readbuf rt.memory = storeReads
      ((rt.executed ++ rt.waiting).filterMap Request.read?) (rt.received ++ readbuf) memory
    rw [List.filterMap_append, storeReads_append (by rw [h.received, read_sum]), h.stored, h.reads]
  received := by
    change (rt.received ++ readbuf).length =
      ((rt.executed ++ rt.waiting).map Request.readbytes).sum
    rw [List.length_append, List.map_append, List.sum_append, h.received, hlen, h.receive]
  sound := (h.flushed readAnswers).sound

theorem Rt.Inv.reads_served (h : rt.Inv memory) {n : Nat} (hserved : rt.Served (n + 1))
    (hbytes : rt.receiveBytes ≠ 0) :
    ∃ readbuf, readBulk rt.readAnswers rt.receiveBytes [] =
      (some readbuf, rt.readAnswers.tail) := by
  obtain ⟨bytes, hanswer, hlen⟩ := hserved.reads 0 (Nat.succ_pos n)
  exact ⟨_, readBulk_whole hanswer (Nat.pos_of_ne_zero hbytes) (h.answer.trans hlen)⟩

/-- One answered write is taken, and a read if answers are outstanding. -/
theorem Rt.Served.flushed {n : Nat} (h : rt.Served (n + 1)) {rt' : Rt}
    (hwrites : rt'.writeAnswers = rt.writeAnswers.tail)
    (hreads : rt'.readAnswers = rt.readAnswers ∨ rt'.readAnswers = rt.readAnswers.tail) :
    rt'.Served n where
  writes i hi := by
    rw [hwrites, List.getElem?_tail]
    exact h.writes (i + 1) (Nat.succ_lt_succ hi)
  reads i hi := by
    rcases hreads with hsame | htail
    · rw [hsame]
      exact h.reads i (Nat.lt_succ_of_lt hi)
    · rw [htail, List.getElem?_tail]
      exact h.reads (i + 1) (Nat.succ_lt_succ hi)

theorem executeCommands_reaches (h : rt.Inv memory) :
    Reaches memory rt (executeCommands rt) [] 1 fun rt' => rt'.waiting = [] := by
  rw [executeCommands]
  split
  · rename_i hnil
    exact (Reaches.done h (h.waiting_nil hnil)).mono (Nat.zero_le 1) fun _ hwaiting => hwaiting
  have hpart : rt.Partly rt.flushed [] := ⟨[], List.prefix_rfl, rfl⟩
  split
  · rename_i hfails
    refine ⟨false, rt.flushed, rfl, h.flushed rt.readAnswers, hpart, fun h => absurd h Bool.false_ne_true,
      fun n hserved => ?_⟩
    rw [hserved.writes_head] at hfails
    cases hfails
  split
  · rename_i hzero
    have hreads : storeReads rt.reads [] rt.memory = rt.memory := by
      have hsum := read_sum rt.waiting
      rw [← h.receive, hzero, ← h.reads] at hsum
      cases hlist : rt.reads with
      | nil => rfl
      | cons read reads =>
        have hmem : read ∈ rt.waiting.filterMap Request.read? := by
          rw [← h.reads, hlist]
          exact List.mem_cons_self
        obtain ⟨r, -, hread⟩ := List.mem_filterMap.mp hmem
        rw [hlist, List.map_cons, List.sum_cons] at hsum
        rw [Request.read?] at hread
        split at hread
        · cases hread
        · cases hread
          omega
    have hinv := @Rt.Inv.answered rt memory h [] rt.readAnswers hzero.symm
    rw [hreads, List.append_nil] at hinv
    exact ⟨true, _, rfl, hinv, hpart, fun _ => ⟨⟨rfl, rfl⟩, rfl⟩,
      fun n hserved => ⟨rfl, hserved.flushed rfl (.inl rfl)⟩⟩
  rename_i hbytes
  split
  · rename_i hlarge
    exact absurd h.answer (Nat.not_le.mpr hlarge)
  split
  · rename_i readAnswers hbulk
    refine ⟨false, _, rfl, h.flushed readAnswers, hpart, fun h => absurd h Bool.false_ne_true, fun n hserved => ?_⟩
    obtain ⟨readbuf, hread⟩ := h.reads_served hserved hbytes
    cases hbulk.symm.trans hread
  · rename_i readbuf readAnswers hbulk
    have hlen : readbuf.length = rt.receiveBytes :=
      length_readBulk (Nat.zero_le _) (congrArg Prod.fst hbulk)
    refine ⟨true, _, rfl, h.answered readAnswers hlen, hpart, fun _ => ⟨⟨rfl, rfl⟩, rfl⟩,
      fun n hserved => ⟨rfl, hserved.flushed rfl (.inr ?_)⟩⟩
    obtain ⟨readbuf', hread⟩ := h.reads_served hserved hbytes
    cases hbulk.symm.trans hread
    rfl

/-! ### Queueing -/

theorem Rt.Inv.append (h : rt.Inv memory) (hr : r.Sound) (hfull : rt.full r = false) :
    Reaches memory rt (rt.append r) [r] 0 fun _ => True := by
  rw [Rt.full, decide_eq_false_iff_not, not_or, not_and_or] at hfull
  obtain ⟨hroom, hreads⟩ := hfull
  have hencode := length_encode_le r
  have hfits : (rt.commandBuffer ++ r.encode).length ≤ MAX_COMMANDS_BYTES := by
    rw [List.length_append]
    omega
  have hanswer : rt.receiveBytes + r.readbytes ≤ MAX_READ_BYTES := by
    rcases hreads with hzero | hfew
    · rw [not_ne_iff.mp hzero]
      exact h.answer
    · have hnone : rt.reads = [] := by
        rw [not_or, MAX_READ_COMMANDS] at hfew
        exact List.eq_nil_of_length_eq_zero (by omega)
      have hsum := read_sum rt.waiting
      rw [← h.reads, ← h.receive, hnone] at hsum
      have hzero : rt.receiveBytes = 0 := hsum.symm
      rw [hzero, Nat.zero_add]
      exact hr.answer
  rw [Rt.append, if_neg (Nat.not_lt.mpr hfits)]
  refine ⟨true, _, rfl, ⟨h.written, ?_, hfits, ?_, ?_, hanswer, h.stored, h.received, ?_⟩,
    ⟨[r], List.prefix_rfl, ?_⟩, fun _ => ⟨⟨?_, ?_⟩, trivial⟩,
    fun n hserved => ⟨rfl, hserved.writes, hserved.reads⟩⟩
  · dsimp only
    rw [List.flatMap_append, h.buffer, List.flatMap_singleton]
  · dsimp only
    rw [List.filterMap_append, h.reads, List.filterMap_cons, List.filterMap_nil]
    cases r.read? <;> rfl
  · dsimp only
    rw [List.map_append, List.sum_append, h.receive, List.map_singleton, List.sum_singleton]
  · intro r' hr'
    rw [← List.append_assoc, List.mem_append, List.mem_singleton] at hr'
    rcases hr' with hold | rfl
    · exact h.sound r' hold
    · exact hr
  · exact (List.append_assoc ..).symm
  · exact (List.append_assoc ..).symm
  · exact (List.append_assoc ..).symm

/-- An empty command buffer has room for every request. -/
theorem Rt.Inv.not_full (h : rt.Inv memory) (hr : r.Sound) (hwaiting : rt.waiting = []) :
    rt.full r = false := by
  have hbuffer := h.buffer
  have hreads := h.reads
  have hreceive := h.receive
  have hroom := hr.room
  rw [hwaiting] at hbuffer hreads hreceive
  rw [Rt.full, hbuffer, hreads, hreceive, decide_eq_false_iff_not, MAX_READ_COMMANDS,
    MAX_READ_BYTES]
  simp only [List.flatMap_nil, List.filterMap_nil, List.map_nil, List.sum_nil, List.length_nil]
  omega

theorem queueCommand_reaches (h : rt.Inv memory) (hr : r.Sound) :
    Reaches memory rt (queueCommand rt r) [r] 1 fun _ => True := by
  rw [queueCommand]
  split
  · exact (executeCommands_reaches h).andThen fun rt₁ h₁ hwaiting =>
      h₁.append hr (h₁.not_full hr hwaiting)
  · rename_i hfull
    exact (h.append hr (Bool.eq_false_iff.mpr hfull)).mono (Nat.zero_le 1) fun _ h => h

theorem queueAndExecute_reaches (h : rt.Inv memory) (hr : r.Sound) :
    Reaches memory rt (queueAndExecute rt r) [r] 2 fun rt' => rt'.waiting = [] :=
  (queueCommand_reaches h hr).andThen fun _ h₁ _ => executeCommands_reaches h₁

/-- The USB layer writes the command buffer and reads all answers. -/
def Rt.Answered (rt : Rt) : Prop :=
  rt.writeAnswers.headD false = true ∧
    (rt.receiveBytes ≠ 0 → (readBulk rt.readAnswers rt.receiveBytes []).1 ≠ none)

/-- If the command buffer has to be written for a request, this succeeds. -/
def Rt.Room (rt : Rt) (r : Request) : Prop := rt.full r = true → rt.Answered

theorem Rt.Inv.executes (h : rt.Inv memory) (hanswered : rt.Answered) :
    ∃ rt', executeCommands rt = some (true, rt') := by
  obtain ⟨hwrite, hread⟩ := hanswered
  rw [executeCommands]
  split
  · exact ⟨_, rfl⟩
  rw [if_neg (by rw [hwrite]; decide)]
  split
  · exact ⟨_, rfl⟩
  rename_i hbytes
  rw [if_neg (Nat.not_lt.mpr h.answer)]
  split
  · rename_i hbulk
    exact absurd (congrArg Prod.fst hbulk) (hread hbytes)
  · exact ⟨_, rfl⟩

theorem Rt.Inv.queues (h : rt.Inv memory) (hr : r.Sound) (hroom : rt.Room r) :
    ∃ rt', queueCommand rt r = some (true, rt') := by
  have happend : ∀ {rt : Rt}, rt.Inv memory → rt.full r = false →
      ∃ rt', rt.append r = some (true, rt') := by
    intro rt h hfull
    obtain ⟨ok, rt', hrun, -⟩ := h.append hr hfull
    rw [Rt.append] at hrun ⊢
    split at hrun
    · cases hrun
    · rename_i hfits
      rw [if_neg hfits]
      exact ⟨_, rfl⟩
  rw [queueCommand]
  split
  · rename_i hfull
    obtain ⟨rt₁, hrun⟩ := h.executes (hroom hfull)
    obtain ⟨ok, rt₂, hrun', h₁, -, hok, -⟩ := executeCommands_reaches h
    rw [hrun] at hrun'
    cases hrun'
    rw [hrun]
    exact happend h₁ (h₁.not_full hr (hok rfl).2)
  · rename_i hfull
    exact happend h (Bool.eq_false_iff.mpr hfull)

theorem sendCommandImmediate_reaches (h : rt.Inv memory) (hr : r.Sound) (hroom : rt.Room r) :
    Reaches memory rt (sendCommandImmediate rt r) [r] 2 fun rt' => rt'.waiting = [] := by
  obtain ⟨rt₁, hrun⟩ := h.queues hr hroom
  have hreaches := queueAndExecute_reaches h hr
  rw [queueAndExecute, hrun] at hreaches
  rw [sendCommandImmediate, hrun]
  exact hreaches

end SaneBackends.Hp3500
