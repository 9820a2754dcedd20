import SaneBackends.SaneTypes
import SaneBackends.LabelledRun
import Mathlib.Data.List.Perm.Basic
import Mathlib.Data.List.Nodup
import Mathlib.Tactic.SplitIfs

/-!
# The shared memory channel

Two processes share a number of buffers.  The byte that names a buffer travels through
the pipe of the reader while the buffer is free and through the pipe of the writer when
it has been filled; how many bytes a buffer holds is noted in an array both processes
see.  Every access to a pipe or to that array is a step of its own, so that the steps of
the two processes can come in any order.
-/

namespace SaneBackends

open LabelledRun

/-- A buffer as it is handed over: its number, the byte count and the contents. -/
structure FilledBuffer where
  id : Nat
  bytes : Int
  contents : List SaneByte
deriving DecidableEq, Repr

/-- The channel, and where the two processes are.  `writerPutting` holds the arguments of
    the call that has stored the byte count but not written the number; `started` counts
    the buffers `shm_channel_reader_start` has passed on; `readerGetting` is the number
    that has been read but whose byte count has not been loaded. -/
structure ShmChannel where
  bufCount : Nat
  buffers : List (List SaneByte)
  bufferBytes : List Int
  readerPutPipe : List SaneByte
  writerPutPipe : List SaneByte
  writerOpen : Bool
  writerHeld : List Nat
  writerPutting : Option (Nat × Int)
  started : Nat
  readerGetting : Option Nat
  readerHeld : List FilledBuffer
deriving DecidableEq, Repr

/-- A new channel, with what happens to be in the shared memory. -/
def ShmChannel.new (buffers : List (List SaneByte)) (bufferBytes : List Int) : ShmChannel :=
  ⟨buffers.length, buffers, bufferBytes, [], [], true, [], none, 0, none, []⟩

/-- The number of a buffer as a byte of a pipe. -/
def bufIndex (id : Nat) : SaneByte := BitVec.ofNat 8 id

/-- `shm_channel_writer_get_buffer`: it waits for a free buffer. -/
def ShmChannel.writerGetBuffer (s : ShmChannel) : Option (SaneStatus × ShmChannel) :=
  match s.readerPutPipe with
  | [] => none
  | index :: pipe =>
      if index.toNat < s.bufCount then
        some (.good,
          { s with readerPutPipe := pipe, writerHeld := index.toNat :: s.writerHeld })
      else some (.ioError, { s with readerPutPipe := pipe })

/-- The writer fills a buffer. -/
def ShmChannel.writerFill (s : ShmChannel) (id : Nat) (contents : List SaneByte) : ShmChannel :=
  { s with buffers := s.buffers.set id contents }

/-- `shm_channel_writer_put_buffer`, up to the store of the byte count. -/
def ShmChannel.writerPutBegin (s : ShmChannel) (id : Nat) (bytes : Int) : SaneStatus × ShmChannel :=
  if id ≥ s.bufCount then (.inval, s)
  else
    (.good, { s with bufferBytes := s.bufferBytes.set id bytes, writerPutting := some (id, bytes) })

/-- What the shared memory says about a buffer. -/
def ShmChannel.filled (s : ShmChannel) (id : Nat) : FilledBuffer :=
  ⟨id, s.bufferBytes.getD id 0, s.buffers.getD id []⟩

/-- The rest of `shm_channel_writer_put_buffer`: the number is written, unless the pipe
    has been closed. -/
def ShmChannel.writerPutEnd (s : ShmChannel) (id : Nat) : SaneStatus × ShmChannel :=
  let s := { s with writerPutting := none }
  if s.writerOpen then
    (.good,
      { s with
        writerPutPipe := s.writerPutPipe ++ [bufIndex id]
        writerHeld := s.writerHeld.erase id })
  else (.ioError, s)

/-- `shm_channel_writer_close`. -/
def ShmChannel.writerClose (s : ShmChannel) : ShmChannel := { s with writerOpen := false }

/-- A turn of the loop of `shm_channel_reader_start`. -/
def ShmChannel.readerStart (s : ShmChannel) : ShmChannel :=
  { s with readerPutPipe := s.readerPutPipe ++ [bufIndex s.started], started := s.started + 1 }

/-- `shm_channel_reader_get_buffer`, up to the read from the pipe: it waits for a buffer
    unless the pipe has been closed. -/
def ShmChannel.readerGetBegin (s : ShmChannel) : Option (SaneStatus × ShmChannel) :=
  match s.writerPutPipe with
  | [] => if s.writerOpen then none else some (.eof, s)
  | index :: pipe =>
      if index.toNat < s.bufCount then
        some (.good, { s with writerPutPipe := pipe, readerGetting := some index.toNat })
      else some (.ioError, { s with writerPutPipe := pipe })

/-- The rest of `shm_channel_reader_get_buffer`: the byte count is loaded. -/
def ShmChannel.readerGetEnd (s : ShmChannel) (id : Nat) : FilledBuffer × ShmChannel :=
  (s.filled id, { s with readerGetting := none, readerHeld := s.filled id :: s.readerHeld })

/-- `shm_channel_reader_put_buffer`. -/
def ShmChannel.readerPutBuffer (s : ShmChannel) (b : FilledBuffer) : SaneStatus × ShmChannel :=
  if b.id ≥ s.bufCount then (.inval, s)
  else
    (.good,
      { s with
        readerPutPipe := s.readerPutPipe ++ [bufIndex b.id]
        readerHeld := s.readerHeld.erase b })

/-- What the processes do, with the arguments and the results of the calls; `b` is what the
    writer hands over and what the reader gets. -/
inductive ShmEvent where
  | writerGetBuffer (status : SaneStatus)
  | writerFill (id : Nat) (contents : List SaneByte)
  | writerPutBegin (id : Nat) (bytes : Int) (status : SaneStatus)
  | writerPutEnd (b : FilledBuffer) (status : SaneStatus)
  | writerClose
  | readerStart
  | readerGetBegin (status : SaneStatus)
  | readerGetEnd (b : FilledBuffer)
  | readerPutBuffer (b : FilledBuffer) (status : SaneStatus)
deriving DecidableEq, Repr

/-- Each process does one thing after the other; it fills and passes on the buffers it has
    got, and the channel is started once. -/
def ShmEvent.Step (s : ShmChannel) (e : ShmEvent) (s' : ShmChannel) : Prop :=
  match e with
  | .writerGetBuffer status => s.writerPutting = none ∧ s.writerGetBuffer = some (status, s')
  | .writerFill id contents =>
      s.writerPutting = none ∧ id ∈ s.writerHeld ∧ s' = s.writerFill id contents
  | .writerPutBegin id bytes status =>
      s.writerPutting = none ∧ id ∈ s.writerHeld ∧ s.writerPutBegin id bytes = (status, s')
  | .writerPutEnd b status =>
      s.writerPutting = some (b.id, b.bytes) ∧ s.buffers.getD b.id [] = b.contents ∧
        s.writerPutEnd b.id = (status, s')
  | .writerClose => s.writerPutting = none ∧ s' = s.writerClose
  | .readerStart => s.readerGetting = none ∧ s.started < s.bufCount ∧ s' = s.readerStart
  | .readerGetBegin status => s.readerGetting = none ∧ s.readerGetBegin = some (status, s')
  | .readerGetEnd b => s.readerGetting = some b.id ∧ s.readerGetEnd b.id = (b, s')
  | .readerPutBuffer b status =>
      s.readerGetting = none ∧ b ∈ s.readerHeld ∧ s.readerPutBuffer b = (status, s')

/-! ### Where the buffers are -/

/-- The buffers the reader process has: those it has not passed on when it started the
    channel, the one it is getting, and those it has got. -/
def ShmChannel.readerOwned (s : ShmChannel) : List Nat :=
  s.readerGetting.toList ++ s.readerHeld.map (·.id) ++ (List.range s.bufCount).drop s.started

/-- All places a buffer can be in, one after the other. -/
def ShmChannel.places (s : ShmChannel) : List Nat :=
  s.readerPutPipe.map (·.toNat) ++ s.writerHeld ++ s.writerPutPipe.map (·.toNat) ++ s.readerOwned

/-- The shared memory still says what has been handed over. -/
def ShmChannel.Keeps (s : ShmChannel) (b : FilledBuffer) : Prop := s.filled b.id = b

/-- The buffers that the writer has handed over, with the counts it has given. -/
def handedOver (es : List ShmEvent) : List FilledBuffer :=
  es.filterMap fun
    | .writerPutEnd b .good => some b
    | _ => none

/-- The buffers that the reader has got. -/
def taken (es : List ShmEvent) : List FilledBuffer :=
  es.filterMap fun
    | .readerGetEnd b => some b
    | _ => none

/-- The buffers that have been handed over and not been taken. -/
structure ShmChannel.InFlight (es : List ShmEvent) (s : ShmChannel) (bs : List FilledBuffer) :
    Prop where
  sent : handedOver es = taken es ++ bs
  ids : bs.map (·.id) = s.readerGetting.toList ++ s.writerPutPipe.map (·.toNat)
  keeps : ∀ b ∈ bs, s.Keeps b

/-- Each buffer is in exactly one place, the reader gets what the writer has put, in the
    same order, and has seen the end only after that. -/
structure ShmChannel.Safe (es : List ShmEvent) (s : ShmChannel) : Prop where
  places : s.places.Perm (List.range s.bufCount)
  order : ∃ bs, s.InFlight es bs
  held : ∀ b ∈ s.readerHeld, s.Keeps b
  ended : .readerGetBegin .eof ∈ es → s.writerOpen = false ∧ taken es = handedOver es

/-- A free buffer can be had by the writer; the reader can get the next buffer that has been
    handed over, and the end if there is none and the writer has closed the channel. -/
structure ShmChannel.Live (es : List ShmEvent) (s : ShmChannel) : Prop where
  free : s.writerPutting = none → ∀ index pipe, s.readerPutPipe = index :: pipe →
    ∃ u, ShmEvent.Step s (.writerGetBuffer .good) u ∧ index.toNat ∈ u.writerHeld
  next : s.readerGetting = none → ∀ b bs, handedOver es = taken es ++ b :: bs →
    ∃ u v, ShmEvent.Step s (.readerGetBegin .good) u ∧ ShmEvent.Step u (.readerGetEnd b) v
  closed : s.readerGetting = none → taken es = handedOver es → s.writerOpen = false →
    ShmEvent.Step s (.readerGetBegin .eof) s

/-! ### What the steps keep -/

/-- `Safe`, and what it rests on. -/
structure ShmChannel.Inv (es : List ShmEvent) (s : ShmChannel) : Prop where
  small : s.bufCount ≤ 255
  size : s.bufferBytes.length = s.bufCount
  contents : s.buffers.length = s.bufCount
  putting : ∀ id bytes, s.writerPutting = some (id, bytes) →
    id ∈ s.writerHeld ∧ s.bufferBytes.getD id 0 = bytes
  safe : s.Safe es

section
variable {es : List ShmEvent} {s s' : ShmChannel} {e : ShmEvent} {id : Nat} {b : FilledBuffer}
  {bs : List FilledBuffer} {status : SaneStatus}

theorem handedOver_snoc : handedOver (es ++ [e]) = handedOver es ++ handedOver [e] :=
  List.filterMap_append

theorem taken_snoc : taken (es ++ [e]) = taken es ++ taken [e] := List.filterMap_append

/-- A step that neither hands over a buffer nor gets one nor sees the end. -/
theorem ShmChannel.Inv.quiet (h : s.Inv es) (hsent : handedOver [e] = []) (htaken : taken [e] = [])
    (hend : e ≠ .readerGetBegin .eof) : s.Inv (es ++ [e]) := by
  have hsent' : handedOver (es ++ [e]) = handedOver es := by
    rw [handedOver_snoc, hsent, List.append_nil]
  have htaken' : taken (es ++ [e]) = taken es := by rw [taken_snoc, htaken, List.append_nil]
  obtain ⟨bs, hbs⟩ := h.safe.order
  refine ⟨h.small, h.size, h.contents, h.putting, h.safe.places, ⟨bs, ?_, hbs.ids, hbs.keeps⟩,
    h.safe.held, ?_⟩
  · rw [hsent', htaken']
    exact hbs.sent
  · intro hmem
    rw [hsent', htaken']
    rcases List.mem_append.mp hmem with hmem | hmem
    · exact h.safe.ended hmem
    · exact absurd (List.mem_singleton.mp hmem).symm hend

theorem toNat_bufIndex (h : id ≤ 255) : (bufIndex id).toNat = id := by
  rw [bufIndex, BitVec.toNat_ofNat]
  exact Nat.mod_eq_of_lt (Nat.lt_succ_of_le h)

theorem mem_places (h : s.Safe es) : id ∈ s.places ↔ id < s.bufCount := by
  rw [h.places.mem_iff, List.mem_range]

theorem places_nodup (h : s.Safe es) : s.places.Nodup :=
  h.places.symm.nodup List.nodup_range

/-- No process and no pipe has a buffer the writer holds. -/
theorem writerHeld_apart (h : s.Safe es) (hid : id ∈ s.writerHeld) :
    id ∉ s.writerPutPipe.map (·.toNat) ++ s.readerOwned := by
  have hnodup := places_nodup h
  rw [ShmChannel.places, List.append_assoc, List.append_assoc] at hnodup
  intro hother
  exact (List.nodup_append.mp (List.nodup_append.mp hnodup).2.1).2.2 id hid id hother rfl

theorem inFlight_apart (h : s.Safe es) (hid : id ∈ s.writerHeld) (hbs : s.InFlight es bs) :
    ∀ b ∈ bs, b.id ≠ id := by
  rintro b hb rfl
  apply writerHeld_apart h hid
  have hmem : b.id ∈ s.readerGetting.toList ++ s.writerPutPipe.map (·.toNat) := by
    rw [← hbs.ids]
    exact List.mem_map_of_mem hb
  rcases List.mem_append.mp hmem with hget | hpipe
  · apply List.mem_append_right
    apply List.mem_append_left
    exact List.mem_append_left _ hget
  · exact List.mem_append_left _ hpipe

theorem readerHeld_apart (h : s.Safe es) (hid : id ∈ s.writerHeld) :
    ∀ b ∈ s.readerHeld, b.id ≠ id := by
  rintro b hb rfl
  apply writerHeld_apart h hid
  apply List.mem_append_right
  apply List.mem_append_left
  apply List.mem_append_right
  exact List.mem_map_of_mem hb

/-- A store to a buffer the writer holds is not seen by the reader. -/
theorem store_safe (h : s.Safe es) (hid : id ∈ s.writerHeld)
    {buffers : List (List SaneByte)} {bufferBytes : List Int} {putting : Option (Nat × Int)}
    (hfilled : ∀ j, j ≠ id → { s with buffers := buffers, bufferBytes := bufferBytes }.filled j =
      s.filled j) :
    { s with
      buffers := buffers, bufferBytes := bufferBytes, writerPutting := putting }.Safe es := by
  obtain ⟨bs, hbs⟩ := h.order
  refine ⟨h.places, ⟨bs, hbs.sent, hbs.ids, ?_⟩, ?_, h.ended⟩
  · intro b hb
    exact (hfilled b.id (inFlight_apart h hid hbs b hb)).trans (hbs.keeps b hb)
  · intro b hb
    exact (hfilled b.id (readerHeld_apart h hid b hb)).trans (h.held b hb)

theorem writerFill_inv (h : s.Inv es) (hid : id ∈ s.writerHeld) (contents : List SaneByte) :
    (s.writerFill id contents).Inv es := by
  refine ⟨h.small, h.size, (List.length_set ..).trans h.contents, h.putting, ?_⟩
  apply store_safe h.safe hid
  intro j hne
  simp only [ShmChannel.filled, List.getD_eq_getElem?_getD, List.getElem?_set_ne hne.symm]

theorem writerHeld_lt (h : s.Safe es) (hid : id ∈ s.writerHeld) : id < s.bufCount := by
  apply (mem_places h).mp
  simp [ShmChannel.places, hid]

theorem writerPutBegin_inv (h : s.Inv es) (hid : id ∈ s.writerHeld) {bytes : Int}
    (hput : s.writerPutBegin id bytes = (status, s')) : s'.Inv es := by
  have hlt := writerHeld_lt h.safe hid
  rw [ShmChannel.writerPutBegin, if_neg (by omega)] at hput
  cases hput
  refine ⟨h.small, (List.length_set ..).trans h.size, h.contents, ?_, ?_⟩
  · intro j count hj
    cases hj
    refine ⟨hid, ?_⟩
    rw [List.getD_eq_getElem?_getD, List.getElem?_set_self (by rwa [h.size])]
    rfl
  · apply store_safe h.safe hid
    intro j hne
    simp only [ShmChannel.filled, List.getD_eq_getElem?_getD, List.getElem?_set_ne hne.symm]

/-- The buffers are the same ones, whatever place each of them has moved to. -/
theorem places_perm (h : s.Safe es) (hcount : s'.bufCount = s.bufCount)
    (hmoved : ∀ id, s'.places.count id = s.places.count id) :
    s'.places.Perm (List.range s'.bufCount) := by
  rw [hcount]
  exact (List.perm_iff_count.mpr hmoved).trans h.places

/-- A number that comes from the pipe of the reader is that of a buffer. -/
theorem writerGetBuffer_eq (h : s.Safe es) {index : SaneByte} {pipe : List SaneByte}
    (hpipe : s.readerPutPipe = index :: pipe) :
    s.writerGetBuffer = some (.good,
      { s with readerPutPipe := pipe, writerHeld := index.toNat :: s.writerHeld }) := by
  have hlt : index.toNat < s.bufCount := by
    apply (mem_places h).mp
    rw [ShmChannel.places, hpipe]
    simp
  rw [ShmChannel.writerGetBuffer, hpipe]
  exact if_pos hlt

theorem writerGetBuffer_inv (h : s.Inv es) (hget : s.writerGetBuffer = some (status, s')) :
    s'.Inv es := by
  cases hpipe : s.readerPutPipe with
  | nil =>
    rw [ShmChannel.writerGetBuffer, hpipe] at hget
    cases hget
  | cons index pipe =>
    rw [writerGetBuffer_eq h.safe hpipe] at hget
    cases hget
    obtain ⟨bs, hbs⟩ := h.safe.order
    refine ⟨h.small, h.size, h.contents, ?_, ?_, ?_, h.safe.held, h.safe.ended⟩
    · intro id bytes hid
      obtain ⟨hheld, hbytes⟩ := h.putting id bytes hid
      exact ⟨List.mem_cons_of_mem _ hheld, hbytes⟩
    · apply places_perm h.safe
      · rfl
      · intro id
        simp only [ShmChannel.places, ShmChannel.readerOwned, hpipe, List.map_cons,
          List.count_append, List.count_cons]
        omega
    · exact ⟨bs, hbs.sent, hbs.ids, hbs.keeps⟩

/-- The call has stored the count it was given, and the contents are those of the buffer. -/
theorem filled_of_putting (h : s.Inv es) (hputting : s.writerPutting = some (b.id, b.bytes))
    (hcontents : s.buffers.getD b.id [] = b.contents) : s.filled b.id = b := by
  rw [ShmChannel.filled, (h.putting _ _ hputting).2, hcontents]

theorem writerPutEnd_inv (h : s.Inv es) (hputting : s.writerPutting = some (b.id, b.bytes))
    (hcontents : s.buffers.getD b.id [] = b.contents)
    (hput : s.writerPutEnd b.id = (status, s')) :
    s'.Inv (es ++ [.writerPutEnd b status]) := by
  have hid : b.id ∈ s.writerHeld := (h.putting _ _ hputting).1
  have hlt := writerHeld_lt h.safe hid
  have hindex : (bufIndex b.id).toNat = b.id := toNat_bufIndex (by have := h.small; omega)
  have hfilled := filled_of_putting h hputting hcontents
  obtain ⟨bs, hbs⟩ := h.safe.order
  rw [ShmChannel.writerPutEnd] at hput
  split_ifs at hput with hopen
  · cases hput
    refine ⟨h.small, h.size, h.contents, ?_, ?_, ⟨bs ++ [b], ?_, ?_, ?_⟩, h.safe.held, ?_⟩
    · intro j count hj
      cases hj
    · apply places_perm h.safe
      · rfl
      · intro j
        have hone : 0 < s.writerHeld.count b.id := List.count_pos_iff.mpr hid
        simp only [ShmChannel.places, ShmChannel.readerOwned, List.map_append, List.map_cons,
          List.map_nil, hindex, List.count_append]
        rcases eq_or_ne b.id j with heq | hne
        · rw [← heq, List.count_erase_self, List.count_singleton_self]
          omega
        · have hother : List.count j [b.id] = 0 :=
            List.count_eq_zero_of_not_mem fun hj => hne (List.mem_singleton.mp hj).symm
          rw [List.count_erase_of_ne hne.symm, hother]
          omega
    · rw [handedOver_snoc, taken_snoc, hbs.sent, List.append_assoc, List.append_assoc]
      rfl
    · simp only [List.map_append, List.map_cons, List.map_nil, hbs.ids, hindex, List.append_assoc]
    · intro c hc
      rcases List.mem_append.mp hc with hc | hc
      · exact hbs.keeps c hc
      · cases List.mem_singleton.mp hc
        exact hfilled
    · intro hend
      rcases List.mem_append.mp hend with hend | hend
      · have hclosed := (h.safe.ended hend).1
        rw [hclosed] at hopen
        cases hopen
      · cases List.mem_singleton.mp hend
  · cases hput
    have hs : ({ s with writerPutting := none } : ShmChannel).Inv es := by
      refine ⟨h.small, h.size, h.contents, ?_, h.safe.places, ⟨bs, hbs.sent, hbs.ids, hbs.keeps⟩,
        h.safe.held, h.safe.ended⟩
      intro j count hj
      cases hj
    exact hs.quiet rfl rfl ShmEvent.noConfusion

theorem writerClose_inv (h : s.Inv es) : s.writerClose.Inv es := by
  obtain ⟨bs, hbs⟩ := h.safe.order
  refine ⟨h.small, h.size, h.contents, h.putting, h.safe.places, ?_, h.safe.held, ?_⟩
  · exact ⟨bs, hbs.sent, hbs.ids, hbs.keeps⟩
  · intro hend
    exact ⟨rfl, (h.safe.ended hend).2⟩

theorem readerStart_inv (h : s.Inv es) (hlt : s.started < s.bufCount) : s.readerStart.Inv es := by
  have hindex : (bufIndex s.started).toNat = s.started :=
    toNat_bufIndex (by have := h.small; omega)
  obtain ⟨bs, hbs⟩ := h.safe.order
  refine ⟨h.small, h.size, h.contents, h.putting, ?_, ⟨bs, hbs.sent, hbs.ids, hbs.keeps⟩,
    h.safe.held, h.safe.ended⟩
  apply places_perm h.safe
  · rfl
  · intro id
    have hdrop : (List.range s.bufCount).drop s.started =
        s.started :: (List.range s.bufCount).drop (s.started + 1) := by
      rw [List.drop_eq_getElem_cons (by rwa [List.length_range]), List.getElem_range]
    simp only [ShmChannel.places, ShmChannel.readerOwned, ShmChannel.readerStart, List.map_append,
      List.map_cons, List.map_nil, hindex, List.count_append, hdrop, List.count_cons]
    simp only [List.count_nil]
    omega

/-- A number that comes from the pipe of the writer is that of a buffer. -/
theorem readerGetBegin_eq (h : s.Safe es) {index : SaneByte} {pipe : List SaneByte}
    (hpipe : s.writerPutPipe = index :: pipe) :
    s.readerGetBegin =
      some (.good, { s with writerPutPipe := pipe, readerGetting := some index.toNat }) := by
  have hlt : index.toNat < s.bufCount := by
    apply (mem_places h).mp
    rw [ShmChannel.places, hpipe]
    simp
  rw [ShmChannel.readerGetBegin, hpipe]
  exact if_pos hlt

theorem readerGetBegin_inv (h : s.Inv es) (hidle : s.readerGetting = none)
    (hget : s.readerGetBegin = some (status, s')) :
    s'.Inv (es ++ [.readerGetBegin status]) := by
  obtain ⟨bs, hbs⟩ := h.safe.order
  cases hpipe : s.writerPutPipe with
  | nil =>
    rw [ShmChannel.readerGetBegin, hpipe] at hget
    dsimp only at hget
    split_ifs at hget with hopen
    cases hget
    have hnone : bs = [] := by
      have hids := hbs.ids
      rw [hidle, hpipe] at hids
      exact List.map_eq_nil_iff.mp hids
    have hsent : handedOver (es ++ [.readerGetBegin .eof]) = handedOver es := by
      rw [handedOver_snoc]
      exact List.append_nil _
    have htaken : taken (es ++ [.readerGetBegin .eof]) = taken es := by
      rw [taken_snoc]
      exact List.append_nil _
    refine ⟨h.small, h.size, h.contents, h.putting, h.safe.places,
      ⟨bs, ?_, hbs.ids, hbs.keeps⟩, h.safe.held, ?_⟩
    · rw [hsent, htaken]
      exact hbs.sent
    · intro _
      refine ⟨by simpa using hopen, ?_⟩
      rw [hsent, htaken, hbs.sent, hnone, List.append_nil]
  | cons index pipe =>
    rw [readerGetBegin_eq h.safe hpipe] at hget
    cases hget
    have hs : ({ s with writerPutPipe := pipe, readerGetting := some index.toNat } :
        ShmChannel).Inv es := by
      refine ⟨h.small, h.size, h.contents, h.putting, ?_, ⟨bs, hbs.sent, ?_, hbs.keeps⟩,
        h.safe.held, h.safe.ended⟩
      · apply places_perm h.safe
        · rfl
        · intro id
          simp only [ShmChannel.places, ShmChannel.readerOwned, hpipe, hidle, List.map_cons,
            Option.toList_some, Option.toList_none, List.count_append, List.count_cons,
            List.count_nil]
          omega
      · rw [hbs.ids, hidle, hpipe]
        rfl
    refine hs.quiet rfl rfl fun heq => ?_
    injection heq with hstatus
    cases hstatus

theorem readerGetEnd_inv (h : s.Inv es) (hgetting : s.readerGetting = some b.id)
    (hget : s.readerGetEnd b.id = (b, s')) : s'.Inv (es ++ [.readerGetEnd b]) := by
  obtain ⟨hfilled, rfl⟩ := Prod.mk.inj hget
  obtain ⟨bs, hbs⟩ := h.safe.order
  have hids := hbs.ids
  rw [hgetting] at hids
  cases bs with
  | nil => cases hids
  | cons c bs =>
    obtain ⟨hc, hrest⟩ := List.cons.inj hids
    -- what is loaded is what has been handed over
    have hkeeps : b = c := by
      rw [← hfilled, ← show c.id = b.id from hc]
      exact hbs.keeps c (List.mem_cons_self ..)
    subst hkeeps
    refine ⟨h.small, h.size, h.contents, h.putting, ?_, ⟨bs, ?_, hrest, ?_⟩, ?_, ?_⟩
    · apply places_perm h.safe
      · rfl
      · intro j
        simp only [ShmChannel.places, ShmChannel.readerOwned, hgetting, ShmChannel.filled,
          List.map_cons, Option.toList_some, Option.toList_none, List.count_append,
          List.count_cons, List.count_nil]
        omega
    · rw [handedOver_snoc, taken_snoc, hbs.sent, List.append_assoc, List.append_assoc]
      exact congrArg (taken es ++ ·) (List.append_nil (b :: bs))
    · intro d hd
      exact hbs.keeps d (List.mem_cons_of_mem _ hd)
    · intro d hd
      rcases List.mem_cons.mp hd with rfl | hd
      · rfl
      · exact h.safe.held d hd
    · intro hend
      rcases List.mem_append.mp hend with hend | hend
      · have hall := (h.safe.ended hend).2
        have hlen := congrArg List.length (hbs.sent.symm.trans hall.symm)
        rw [List.length_append, List.length_cons] at hlen
        omega
      · cases List.mem_singleton.mp hend

theorem readerPutBuffer_inv (h : s.Inv es) (hb : b ∈ s.readerHeld)
    (hput : s.readerPutBuffer b = (status, s')) : s'.Inv es := by
  have hlt : b.id < s.bufCount := by
    apply (mem_places h.safe).mp
    apply List.mem_append_right
    apply List.mem_append_left
    exact List.mem_append_right _ (List.mem_map_of_mem hb)
  have hindex : (bufIndex b.id).toNat = b.id := toNat_bufIndex (by have := h.small; omega)
  obtain ⟨bs, hbs⟩ := h.safe.order
  rw [ShmChannel.readerPutBuffer, if_neg (by omega)] at hput
  cases hput
  refine ⟨h.small, h.size, h.contents, h.putting, ?_, ⟨bs, hbs.sent, hbs.ids, hbs.keeps⟩, ?_,
    h.safe.ended⟩
  · apply places_perm h.safe
    · rfl
    · intro id
      have hcount := ((List.perm_cons_erase hb).map (·.id)).count_eq id
      simp only [ShmChannel.places, ShmChannel.readerOwned, List.map_append, List.map_cons,
        List.map_nil, hindex, List.count_append, List.count_cons, List.count_nil] at hcount ⊢
      omega
  · intro c hc
    exact h.safe.held c (List.mem_of_mem_erase hc)

/-! ### Whole runs -/

theorem ShmEvent.Step.inv (hstep : e.Step s s') (h : s.Inv es) : s'.Inv (es ++ [e]) := by
  cases e with
  | writerGetBuffer status =>
    exact (writerGetBuffer_inv h hstep.2).quiet rfl rfl ShmEvent.noConfusion
  | writerFill id contents =>
    obtain ⟨-, hid, rfl⟩ := hstep
    exact (writerFill_inv h hid contents).quiet rfl rfl ShmEvent.noConfusion
  | writerPutBegin id bytes status =>
    exact (writerPutBegin_inv h hstep.2.1 hstep.2.2).quiet rfl rfl ShmEvent.noConfusion
  | writerPutEnd b status => exact writerPutEnd_inv h hstep.1 hstep.2.1 hstep.2.2
  | writerClose =>
    obtain ⟨-, rfl⟩ := hstep
    exact (writerClose_inv h).quiet rfl rfl ShmEvent.noConfusion
  | readerStart =>
    obtain ⟨-, hlt, rfl⟩ := hstep
    exact (readerStart_inv h hlt).quiet rfl rfl ShmEvent.noConfusion
  | readerGetBegin status => exact readerGetBegin_inv h hstep.1 hstep.2
  | readerGetEnd b => exact readerGetEnd_inv h hstep.1 hstep.2
  | readerPutBuffer b status =>
    exact (readerPutBuffer_inv h hstep.2.1 hstep.2.2).quiet rfl rfl ShmEvent.noConfusion

/-- Whoever waits for a buffer that is in the pipe gets it. -/
theorem ShmChannel.Inv.live (h : s.Inv es) : s.Live es where
  free hidle index pipe hpipe :=
    ⟨_, ⟨hidle, writerGetBuffer_eq h.safe hpipe⟩, List.mem_cons_self ..⟩
  next hidle b bs hsent := by
    obtain ⟨bs', hbs⟩ := h.safe.order
    obtain rfl : bs' = b :: bs := List.append_cancel_left (hbs.sent.symm.trans hsent)
    have hids := hbs.ids
    rw [hidle] at hids
    cases hpipe : s.writerPutPipe with
    | nil =>
      rw [hpipe] at hids
      cases hids
    | cons index pipe =>
      rw [hpipe] at hids
      have hindex : b.id = index.toNat := (List.cons.inj hids).1
      refine ⟨_, (ShmChannel.readerGetEnd
        { s with writerPutPipe := pipe, readerGetting := some index.toNat } b.id).2,
        ⟨hidle, readerGetBegin_eq h.safe hpipe⟩, congrArg some hindex.symm, ?_⟩
      exact Prod.ext (hbs.keeps b (List.mem_cons_self ..)) rfl
  closed hidle hall hclosed := by
    obtain ⟨bs, hbs⟩ := h.safe.order
    have hnone : bs = [] := by
      have hlen := congrArg List.length (hbs.sent.symm.trans hall.symm)
      rw [List.length_append] at hlen
      exact List.length_eq_zero_iff.mp (by omega)
    have hids := hbs.ids
    rw [hidle, hnone] at hids
    have hpipe : s.writerPutPipe = [] := List.map_eq_nil_iff.mp hids.symm
    refine ⟨hidle, ?_⟩
    rw [ShmChannel.readerGetBegin, hpipe]
    exact if_neg (by rw [hclosed]; exact Bool.false_ne_true)

end

theorem new_inv {buffers : List (List SaneByte)} {bufferBytes : List Int}
    (hsmall : buffers.length ≤ 255) (hsize : bufferBytes.length = buffers.length) :
    (ShmChannel.new buffers bufferBytes).Inv [] := by
  refine ⟨hsmall, hsize, rfl, ?_, List.Perm.refl _, ⟨[], rfl, rfl, ?_⟩, ?_, ?_⟩
  · intro id bytes hid
    cases hid
  · intro b hb
    cases hb
  · intro b hb
    cases hb
  · intro hend
    cases hend

/-- After every run of the two processes on a channel of 1 to 255 buffers. -/
theorem channel_safe {buffers : List (List SaneByte)} {bufferBytes : List Int}
    (hcount : 1 ≤ buffers.length ∧ buffers.length ≤ 255)
    (hsize : bufferBytes.length = buffers.length) {es : List ShmEvent} {s : ShmChannel}
    (hrun : Run ShmEvent.Step (.new buffers bufferBytes) es s) : s.Safe es ∧ s.Live es := by
  have hinv : s.Inv es :=
    hrun.history (I := fun es s => s.Inv es) (new_inv hcount.2 hsize)
      fun _ _ _ _ h hstep => ShmEvent.Step.inv hstep h
  exact ⟨hinv.safe, hinv.live⟩

/-- The writer passes on a buffer with three bytes, the reader takes it and gives it back;
    then the writer closes the channel, and the reader sees the end. -/
def passAndClose : List ShmEvent :=
  [.readerStart, .readerStart, .writerGetBuffer .good, .writerFill 0 [7, 8, 9],
    .writerPutBegin 0 3 .good, .writerPutEnd ⟨0, 3, [7, 8, 9]⟩ .good, .readerGetBegin .good,
    .readerGetEnd ⟨0, 3, [7, 8, 9]⟩, .writerClose, .readerPutBuffer ⟨0, 3, [7, 8, 9]⟩ .good,
    .readerGetBegin .eof]

theorem channel_safe_closed :
    ∃ s, Run ShmEvent.Step (.new [[], []] [0, 0]) passAndClose s ∧ s.Safe passAndClose ∧
      s.Live passAndClose ∧ taken passAndClose = [⟨0, 3, [7, 8, 9]⟩] ∧
      taken passAndClose = handedOver passAndClose := by
  have hnew : Run ShmEvent.Step (.new [[], []] [0, 0]) [] (.new [[], []] [0, 0]) := .nil
  have hrun := ((((((((((hnew.snoc
    (i := ShmEvent.readerStart) ⟨rfl, by decide, rfl⟩).snoc
    (i := ShmEvent.readerStart) ⟨rfl, by decide, rfl⟩).snoc
    (i := ShmEvent.writerGetBuffer .good) ⟨rfl, rfl⟩).snoc
    (i := ShmEvent.writerFill 0 [7, 8, 9]) ⟨rfl, by decide, rfl⟩).snoc
    (i := ShmEvent.writerPutBegin 0 3 .good) ⟨rfl, by decide, rfl⟩).snoc
    (i := ShmEvent.writerPutEnd ⟨0, 3, [7, 8, 9]⟩ .good) ⟨rfl, rfl, rfl⟩).snoc
    (i := ShmEvent.readerGetBegin .good) ⟨rfl, rfl⟩).snoc
    (i := ShmEvent.readerGetEnd ⟨0, 3, [7, 8, 9]⟩) ⟨rfl, rfl⟩).snoc
    (i := ShmEvent.writerClose) ⟨rfl, rfl⟩).snoc
    (i := ShmEvent.readerPutBuffer ⟨0, 3, [7, 8, 9]⟩ .good) ⟨rfl, by decide, rfl⟩).snoc
    (i := ShmEvent.readerGetBegin .eof) ⟨rfl, rfl⟩
  obtain ⟨hsafe, hlive⟩ := channel_safe (by decide) rfl hrun
  exact ⟨_, hrun, hsafe, hlive, rfl, rfl⟩

end SaneBackends
