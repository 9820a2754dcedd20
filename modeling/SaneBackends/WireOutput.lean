import SaneBackends.MessageTypes
import SaneBackends.LabelledRun

/-!
# What the operations on a wire send

`sanei_w_call` and `sanei_w_reply` encode, flush and turn the wire around.  An
operation that starts with an empty buffer sends a prefix of its own encoding and
nothing else.  When a write fails in the middle, the bytes that were accepted stay in
the buffer, and the next operation sends them a second time.
-/

namespace SaneBackends

open FaultState WordBytes LabelledRun

/-- One operation of a client or a server on its wire. -/
inductive WireOp where
  | call (procnum : SaneWord) (argType : MessageType) (arg : argType.Val)
      (replyType : MessageType) (prior : replyType.Val)
  | reply (type : MessageType) (value : type.Val)

def WireOp.run : WireOp → WireM Unit
  | .call procnum argType arg replyType prior => do
      let _ ← saneiWCall saneiCodecBin procnum (argType.wMessage saneiCodecBin) arg
        (replyType.wMessage saneiCodecBin) prior
  | .reply type value => do
      let _ ← saneiWReply (type.wMessage saneiCodecBin) value

/-- The bytes an operation has to send. -/
def WireOp.encoding (ver : Int) : WireOp → Option (List SaneByte)
  | .call procnum argType arg _ _ =>
      ((argType.format ver).encoding arg).map (bytesBE procnum ++ ·)
  | .reply type value => (type.format ver).encoding value

/-- A wire between two operations. -/
structure Wire.Idle (ver : Int) (w : Wire) : Prop where
  dir : w.direction = .encode ∨ w.direction = .decode
  version : w.version = ver
  buf : w.buffer.Ok

/-- No byte of an earlier operation waits in the buffer. -/
def Wire.Drained (w : Wire) : Prop := w.direction = .decode ∨ w.buffer.curr = 0

instance (w : Wire) : Decidable w.Drained := inferInstanceAs (Decidable (_ ∨ _))

variable {ver : Int}

/-! ### Turning the wire around -/

/-- Draining an empty buffer sends nothing. -/
theorem Wire.drain_of_empty {w : Wire} (h : w.buffer.curr = 0) :
    w.drain = { w with buffer := { w.buffer with curr := 0, endp := w.buffer.size } } := by
  have hloop : writeLoop w.io.writes (w.buffer.mem.take w.buffer.curr) =
      ⟨w.io.writes, [], none⟩ := by
    rw [h, List.take_zero]
    cases w.io.writes with
    | nil => rfl
    | cons r ws => cases r <;> rfl
  simp only [Wire.drain, hloop, List.append_nil]

/-- The wire at the start of an operation. -/
def Wire.started (w : Wire) : Wire :=
  { w with
    status := 0
    direction := .encode
    buffer := { w.buffer with curr := 0, endp := w.buffer.size } }

theorem clearStatus_run (w : Wire) : clearStatus w = .ok ((), { w with status := 0 }) := rfl

/-- The second half of turning the wire to `WIRE_ENCODE`. -/
theorem turn_encode {w : Wire} (hs : w.status = 0) (hb : w.buffer.Ok) (h0 : w.buffer.curr = 0) :
    (do modify (fun w => { w with direction := .encode }); flush : WireM Unit) w =
      .ok ((), { w with
        direction := .encode
        buffer := { w.buffer with curr := 0, endp := w.buffer.size } }) := by
  rw [bind_of_ok (modify_run _ w), flush_encode (w := { w with direction := .encode }) rfl hb hs,
    Wire.drain_of_empty (w := { w with direction := .encode }) h0]

/-- With nothing in the buffer, nothing is sent before the operation encodes. -/
theorem setDir_encode {w : Wire} (hw : w.Idle ver) (hd : w.Drained) :
    saneiWSetDir .encode { w with status := 0 } = .ok ((), w.started) := by
  rw [saneiWSetDir]
  rcases hw.dir with hdir | hdir
  · have h0 : w.buffer.curr = 0 := hd.resolve_left (by rw [hdir]; decide)
    have hflush : flush { w with status := 0 } = .ok ((), { w with
        status := 0, buffer := { w.buffer with curr := 0, endp := w.buffer.size } }) := by
      rw [flush_encode (w := { w with status := 0 }) hdir hw.buf rfl,
        Wire.drain_of_empty (w := { w with status := 0 }) h0]
    rw [bind_of_ok hflush]
    exact turn_encode rfl ⟨Nat.zero_le _, Nat.le_refl _, hw.buf.length, hw.buf.room⟩ rfl
  · have hflush : flush { w with status := 0 } =
        .ok ((), { w with status := 0, buffer := { w.buffer with curr := 0, endp := 0 } }) := by
      rw [flush, bind_of_ok (wireDirection_run _)]
      simp only [hdir, modify_run]
    rw [bind_of_ok hflush]
    exact turn_encode rfl ⟨Nat.le_refl 0, Nat.zero_le _, hw.buf.length, hw.buf.room⟩ rfl

theorem Wire.Idle.started {w : Wire} (hw : w.Idle ver) : w.started.InEncode ver :=
  ⟨rfl, hw.version, ⟨Nat.zero_le _, Nat.le_refl _, hw.buf.length, hw.buf.room⟩, rfl⟩

theorem Wire.stream_started (w : Wire) : w.started.stream = w.io.sent := by
  simp [Wire.stream, WireBuffer.unsent, Wire.started]

/-! ### One operation -/

/-- What an operation may do: the wire is idle again, and a prefix of `bs` has been sent. -/
structure Sends (ver : Int) (w w' : Wire) (bs : List SaneByte) : Prop where
  idle : w'.Idle ver
  sent : ∃ cs, cs <+: bs ∧ w'.io.sent = w.io.sent ++ cs

theorem exists_of_sent {w w' : Wire} {bs : List SaneByte} (h₁ : w.io.sent <+: w'.io.sent)
    (h₂ : w'.io.sent <+: w.io.sent ++ bs) : ∃ cs, cs <+: bs ∧ w'.io.sent = w.io.sent ++ cs := by
  obtain ⟨cs, hcs⟩ := h₁
  rw [← hcs] at h₂
  exact ⟨cs, (List.prefix_append_right_inj _).mp h₂, hcs.symm⟩

/-- An encoder that was given the whole stream has sent a prefix of it at any time. -/
theorem EncodeStep.sends {w w' : Wire} {bs : List SaneByte} {ok : Prop}
    (h : EncodeStep ver w.started w' bs ok) : Sends ver w w' bs := by
  refine ⟨⟨.inl h.dir, h.version, h.buf⟩, exists_of_sent h.sent ?_⟩
  rcases h.out with ⟨-, -, hstream⟩ | ⟨-, hsent⟩
  · rw [w.stream_started] at hstream
    rw [← hstream]
    exact List.prefix_append _ _
  · rw [w.stream_started] at hsent
    exact hsent

/-- A flush at the end of the encoding sends what is left, or a prefix of it. -/
theorem EncodeStep.sends_flush {w w' : Wire} {bs : List SaneByte} {ok : Prop}
    (h : EncodeStep ver w.started w' bs ok) :
    ∃ w'', flush w' = .ok ((), w'') ∧ w''.direction = .encode ∧ Sends ver w w'' bs := by
  rcases h.out with ⟨hs, -, hstream⟩ | ⟨hs, -⟩
  · obtain ⟨hok, hsame, hout, -⟩ := w'.drain_keeps h.buf hs
    refine ⟨w'.drain, flush_encode h.dir h.buf hs, hsame.dir.trans h.dir,
      ⟨.inl (hsame.dir.trans h.dir), hsame.version.trans h.version, hok⟩,
      exists_of_sent (h.sent.trans hsame.sent) ?_⟩
    rw [w.stream_started] at hstream
    rw [← hstream]
    rcases hout with ⟨-, -, -, hsent⟩ | ⟨-, hsent⟩
    · rw [hsent]
    · exact hsent
  · refine ⟨w', ?_, h.dir, h.sends⟩
    simp only [flush, bind_run, wireDirection_run, h.dir, get_run, saneiWSpace_run,
      Wire.space_of_bad hs]

theorem setDir_decode {w w₁ : Wire} {bs : List SaneByte} (hflush : flush w = .ok ((), w₁))
    {u : Wire} (h : Sends ver u w₁ bs) :
    ∃ w₂, saneiWSetDir .decode w = .ok ((), w₂) ∧ w₂.InDecode ver ∧ w₂.io.sent = w₁.io.sent := by
  refine ⟨{ w₁ with direction := .decode, buffer := { w₁.buffer with curr := 0, endp := 0 } }, ?_,
    ⟨rfl, h.idle.version, Nat.le_refl 0, Nat.zero_le _, h.idle.buf.length, h.idle.buf.room⟩, rfl⟩
  rw [saneiWSetDir, bind_of_ok hflush, bind_of_ok (modify_run _ w₁)]
  simp only [flush, bind_run, wireDirection_run, modify_run]

theorem DecodeStep.sends {u w w' : Wire} {bs : List SaneByte} {Q : List SaneByte → Nat → Prop}
    (h : DecodeStep ver w w' Q) (hw : ∃ cs, cs <+: bs ∧ w.io.sent = u.io.sent ++ cs) :
    Sends ver u w' bs :=
  ⟨⟨.inr h.after.dir, h.after.version, h.after.buf⟩, by rw [h.sent]; exact hw⟩

/-- An operation on a drained wire sends a prefix of its own encoding. -/
theorem WireOp.sends {op : WireOp} {w w' : Wire} {bs : List SaneByte} (hw : w.Idle ver)
    (hd : w.Drained) (henc : op.encoding ver = some bs) (hrun : op.run w = .ok ((), w')) :
    Sends ver w w' bs := by
  have hstart := setDir_encode hw hd
  cases op with
  | call procnum argType arg replyType prior =>
    obtain ⟨cs, hcs, rfl⟩ := Option.map_eq_some_iff.mp henc
    have harg := (argType.wMessage_implements ver).writes arg cs hcs
    have hboth := (@binWWord_writes ver procnum).bind
      (f := fun _ => argType.wMessage saneiCodecBin arg) harg
    obtain ⟨w₁, hrun₁, hstep⟩ := hboth.good w.started hw.started rfl
    obtain ⟨k, u, hword, harg₁⟩ := bind_ok.mp hrun₁
    obtain ⟨v, w₂, hcall, hend⟩ := bind_ok.mp hrun
    cases hend
    rw [saneiWCall, bind_of_ok (clearStatus_run w), bind_of_ok hstart,
      bind_of_ok (show saneiWWord saneiCodecBin.toCodecPrims procnum w.started = _ from hword),
      bind_of_ok harg₁, bind_of_ok (wireStatus_run w₁)] at hcall
    by_cases hs : w₁.status ≠ 0
    · rw [if_pos hs] at hcall
      cases hcall
      exact hstep.sends
    · rw [if_neg hs] at hcall
      obtain ⟨w₃, hflush, -, hsends⟩ := hstep.sends_flush
      obtain ⟨w₄, hset, hdec, hsent⟩ := setDir_decode hflush hsends
      rw [bind_of_ok hset] at hcall
      apply ((replyType.wMessage_implements ver).accepts prior w₄ v w' hdec hcall).sends
      rw [hsent]
      exact hsends.sent
  | reply type value =>
    have hvalue := (type.wMessage_implements ver).writes value bs henc
    obtain ⟨w₁, hrun₁, hstep⟩ := hvalue.good w.started hw.started rfl
    obtain ⟨w₂, hflush, -, hsends⟩ := hstep.sends_flush
    obtain ⟨v, w₃, hreply, hend⟩ := bind_ok.mp hrun
    cases hend
    rw [saneiWReply, bind_of_ok (clearStatus_run w), bind_of_ok hstart, bind_of_ok hrun₁,
      bind_of_ok hflush] at hreply
    cases hreply
    exact hsends

/-! ### Whole runs -/

/-- An operation with arguments that can be encoded, on a drained wire. -/
def WireOp.Step (ver : Int) (w : Wire) (op : WireOp) (w' : Wire) : Prop :=
  w.Drained ∧ (op.encoding ver).isSome ∧ op.run w = .ok ((), w')

theorem saneiWInit_idle (io : WireIo) (mallocs : List Bool) (junk : SaneWord) :
    (saneiWInit io mallocs junk).Idle 0 :=
  ⟨.inl rfl, rfl, Nat.zero_le _, Nat.le_refl _, List.length_replicate,
    show 4 ≤ 8192 by decide⟩

/-- In a run whose operations all start on a drained wire, each operation sends a
    prefix of its own encoding, in order, and nothing else is sent. -/
theorem no_stale_output {w₀ w : Wire} {ops : List WireOp} (hw₀ : w₀.Idle ver)
    (hrun : Run (WireOp.Step ver) w₀ ops w) :
    ∃ css : List (List SaneByte),
      List.Forall₂ (fun cs op => ∃ bs, op.encoding ver = some bs ∧ cs <+: bs) css ops ∧
        w.io.sent = w₀.io.sent ++ css.flatten := by
  have hinv : w.Idle ver ∧ ∃ css : List (List SaneByte),
      List.Forall₂ (fun cs op => ∃ bs, op.encoding ver = some bs ∧ cs <+: bs) css ops ∧
        w.io.sent = w₀.io.sent ++ css.flatten := by
    refine hrun.history (I := fun ops w => w.Idle ver ∧ ∃ css : List (List SaneByte),
      List.Forall₂ (fun cs op => ∃ bs, op.encoding ver = some bs ∧ cs <+: bs) css ops ∧
        w.io.sent = w₀.io.sent ++ css.flatten) ⟨hw₀, [], .nil, by simp⟩ ?_
    rintro ops w op w' ⟨hw, css, hcss, hsent⟩ ⟨hd, henc, hrun⟩
    obtain ⟨bs, hbs⟩ := Option.isSome_iff_exists.mp henc
    obtain ⟨hidle, cs, hcs, hsent'⟩ := WireOp.sends hw hd hbs hrun
    refine ⟨hidle, css ++ [cs], ?_, ?_⟩
    · exact List.rel_append hcss (.cons ⟨bs, hbs, hcs⟩ .nil)
    · rw [hsent', hsent]
      simp
  exact hinv.2

/-- A peer that takes two bytes of what it is sent and then fails. -/
def failingPeer : Wire := saneiWInit ⟨[], [], [.accept 2, .fail EINVAL], []⟩ [] 0

/-- The failed reply itself sends a prefix of its encoding. -/
theorem no_stale_output_failingPeer :
    ∃ w, (WireOp.reply (.wire .word) 0x01020304).run failingPeer = .ok ((), w) ∧
      ∃ css : List (List SaneByte),
        List.Forall₂ (fun cs op => ∃ bs, WireOp.encoding 0 op = some bs ∧ cs <+: bs) css
          [.reply (.wire .word) 0x01020304] ∧
        w.io.sent = failingPeer.io.sent ++ css.flatten := by
  have hok : ((WireOp.reply (.wire .word) 0x01020304).run failingPeer).isOk = true := by
    decide +kernel
  cases hrun : (WireOp.reply (.wire .word) 0x01020304).run failingPeer with
  | error e => rw [hrun] at hok; cases hok
  | ok r =>
    obtain ⟨⟨⟩, w⟩ := r
    exact ⟨w, rfl, no_stale_output (saneiWInit_idle _ _ _)
      (Run.nil.snoc ⟨.inr rfl, rfl, hrun⟩)⟩

/-- The bytes that have been accepted after each of the operations. -/
def sentAfter : List WireOp → Wire → List (List SaneByte)
  | [], _ => []
  | op :: ops, w =>
      match op.run w with
      | .ok (_, w') => w'.io.sent :: sentAfter ops w'
      | .error _ => []

/-- After the failed write the second reply sends two bytes of the first one again. -/
theorem stale_output :
    sentAfter [.reply (.wire .word) 0x01020304, .reply (.wire .word) 5] failingPeer =
        [[1, 2], [1, 2] ++ [1, 2, 0, 0, 0, 5]] ∧
      WireOp.encoding 0 (.reply (.wire .word) 5) = some [0, 0, 0, 5] ∧
      ¬ [1, 2, 0, 0, 0, 5] <+: ([0, 0, 0, 5] : List SaneByte) :=
  ⟨by decide +kernel, by decide, by decide⟩

end SaneBackends
