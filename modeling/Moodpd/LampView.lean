import Moodpd.Daemon

/-!
# What the lamp sees of a reaction

The lamp view of the daemon is its raw mode and its write queue. Every reaction but that of
the serial link submits a list of chunks that depends on the raw mode and the input only.
-/
namespace Moodpd
open Memory HexText Oscpkt

abbrev Lamp := Bool × NonblockWriter

def Daemon.lamp (s : Daemon) : Lamp := (s.allowRawMode, s.serial)

def lampView (r : Except Halt Daemon) : Except Halt Lamp := r.map Daemon.lamp

/-- Submit some chunks, and keep the raw mode. -/
def submits (k : Kernel) (chunks : List Chunk) (l : Lamp) : Except Halt Lamp :=
  (l.2.writeAll k chunks).map fun w => (l.1, w)

@[simp] theorem lampView_ok (s : Daemon) : lampView (.ok s) = .ok s.lamp := rfl

@[simp] theorem submits_nil (k : Kernel) (l : Lamp) : submits k [] l = .ok l := rfl

theorem writeAll_append (k : Kernel) (cs ds : List Chunk) (w : NonblockWriter) :
    w.writeAll k (cs ++ ds) = (do
      let w ← w.writeAll k cs
      w.writeAll k ds) := by
  unfold NonblockWriter.writeAll
  rw [List.foldlM_append]

/-- Reactions in sequence submit their chunks in sequence. -/
theorem lampView_bind {k : Kernel} {r : Except Halt Daemon} {f : Daemon → Except Halt Daemon}
    {cs ds : List Chunk} {l : Lamp} (hr : lampView r = submits k cs l)
    (hf : ∀ s : Daemon, s.lamp.1 = l.1 → lampView (f s) = submits k ds s.lamp) :
    lampView (r >>= f) = submits k (cs ++ ds) l := by
  unfold submits at hr ⊢
  rw [writeAll_append]
  cases r with
  | error e =>
    cases hw : l.2.writeAll k cs with
    | error e' =>
      rw [hw] at hr
      exact hr
    | ok w =>
      rw [hw] at hr
      simp [lampView, Except.map] at hr
  | ok s =>
    cases hw : l.2.writeAll k cs with
    | error e' =>
      rw [hw] at hr
      simp [lampView, Except.map] at hr
    | ok w =>
      rw [hw] at hr
      have hl : s.lamp = (l.1, w) := by simpa [lampView, Except.map] using hr
      rw [ok_bind, ok_bind, hf s (by rw [hl]), submits, hl]

/-- What does not show in the view may follow a reaction. -/
theorem lampView_log {r : Except Halt Daemon} {f : Daemon → Daemon}
    (hf : ∀ s, (f s).lamp = s.lamp) : lampView (r >>= fun s => .ok (f s)) = lampView r := by
  cases r with
  | error e => rfl
  | ok s => simp [hf]

namespace Daemon

@[simp] theorem fprintf_lamp (fmt : String) (args : List LogArg) (s : Daemon) :
    (s.fprintf fmt args).lamp = s.lamp := rfl

@[simp] theorem flog_lamp (level : Loglevel) (fmt : String) (args : List LogArg) (s : Daemon) :
    (s.flog level fmt args).lamp = s.lamp := by
  unfold flog
  split_ifs <;> rfl

theorem foldl_fprintf_lamp (f : UInt8 → String × List LogArg) (data : Chunk) (s : Daemon) :
    (data.foldl (fun s b => s.fprintf (f b).1 (f b).2) s).lamp = s.lamp := by
  induction data generalizing s with
  | nil => rfl
  | cons b data ih => rw [List.foldl_cons, ih, fprintf_lamp]

@[simp] theorem logCommand_lamp (data : Chunk) (s : Daemon) :
    (s.logCommand data).lamp = s.lamp := by
  unfold logCommand
  rw [fprintf_lamp, foldl_fprintf_lamp fun b =>
    (if isprint b then "%c" else "\\x%02X", [.int (promote b)]), flog_lamp]

@[simp] theorem logRaw_lamp (data : Chunk) (s : Daemon) : (s.logRaw data).lamp = s.lamp := by
  unfold logRaw
  rw [fprintf_lamp, foldl_fprintf_lamp fun b => ("%02X ", [.int b.toNat]), flog_lamp]

theorem write_view (k : Kernel) (data : Chunk) (s : Daemon) :
    lampView (s.write k data) = submits k [data] s.lamp := by
  unfold Daemon.write submits NonblockWriter.writeAll
  cases h : s.serial.write k data with
  | error e => simp [h, lampView, lamp, Except.map]
  | ok w => simp [h, lampView, lamp, Except.map]

theorem writeCommand_view (k : Kernel) {commandBytes : List UInt8} {n : ℕ} (hpos : 0 < n)
    (hn : n ≤ commandBytes.length) (s : Daemon) :
    lampView (s.writeCommand k commandBytes n) = submits k [commandBytes.take n] s.lamp := by
  unfold writeCommand
  rw [if_neg (by omega), Int.toNat_natCast, readRange_zero hn]
  simp only [checked_ok, ok_bind]
  rw [lampView_log fun s' : Daemon => ?_, write_view]
  split_ifs <;> simp

/-- A text that fits in the buffer is submitted as it was formatted. -/
theorem writeCommandF_view (k : Kernel) {fmt : List Piece} {args : List ℤ}
    (hpos : 0 < (format fmt args).length) (hn : (format fmt args).length ≤ 1022) (s : Daemon) :
    lampView (s.writeCommandF k fmt args) = submits k [format fmt args] s.lamp := by
  unfold writeCommandF
  rw [vsnprintf_of_le hn]
  simp only
  rw [if_pos (by omega), writeCommand_view k hpos (by simp), List.take_left]

end Daemon

/-- A text of this many hexadecimal digits. -/
def DigitText (n : ℕ) (text : List UInt8) : Prop :=
  text.length = n ∧ ∀ b ∈ text, isHexDigit b = true

instance (n : ℕ) : DecidablePred (DigitText n) := fun _ => inferInstanceAs (Decidable (_ ∧ _))

/-- The part of a message that fits in the receive buffer. -/
def receivedMessage (msg : List UInt8) : List UInt8 :=
  msg.take (Daemon.maxPacketSize - Daemon.packetSize)

/-- The text of a message: up to its first NUL, without the line ending. -/
def messageText (msg : List UInt8) : List UInt8 := stripEol (msg.takeWhile (· ≠ 0))

/-- What a `#` message submits. -/
def colorChunks (text : List UInt8) : List Chunk :=
  if (sscanf [2, 2, 2] text).1 ≠ 3 then []
  else [format Daemon.colorFormat (sscanf [2, 2, 2] text).2]

/-- A text starts with three fields, whose values are then scanned, or the count tells. -/
theorem colorScan_cases (text : List UInt8) :
    (∃ r g b, Fields text [r, g, b] ∧ sscanf [2, 2, 2] text = (3, [r, g, b])) ∨
    ((sscanf [2, 2, 2] text).1 ≠ 3 ∧ ¬ ∃ vs, vs.length = 3 ∧ Fields text vs) := by
  rcases sscanf_cases (show 0 < 3 by decide) text with ⟨vs, hlen, hf, hs⟩ | h
  · obtain ⟨r, g, b, rfl⟩ := List.length_eq_three.mp hlen
    exact .inl ⟨r, g, b, hf, hs⟩
  · exact .inr h

/-- What a message of some type submits in a raw mode. -/
def messageChunks (raw : Bool) (type : UInt8) (msg : List UInt8) : List Chunk :=
  if type = Daemon.rawMsg then (if raw then [msg] else [])
  else if type = Daemon.color then colorChunks (messageText msg)
  else []

def Accepted (d : List UInt8) : Prop := d.take 4 = Daemon.magic ∧ 6 ≤ d.length

instance (d : List UInt8) : Decidable (Accepted d) := inferInstanceAs (Decidable (_ ∧ _))

/-- What the received bytes of a datagram on the command port submit. -/
def commandChunks (raw : Bool) (d : List UInt8) : List Chunk :=
  if Accepted d then messageChunks raw (d.getD 4 0) (d.drop 5) else []

/-- The string at the start of a message, with what follows its terminator. -/
theorem message_split (msg post : List UInt8) : ∃ post',
    msg ++ 0 :: post = msg.takeWhile (· ≠ 0) ++ 0 :: post' := by
  by_cases h : (0 : UInt8) ∈ msg
  · obtain ⟨s, t, rfl, hs⟩ := List.eq_append_cons_of_mem h
    exact ⟨t ++ 0 :: post, by rw [takeWhile_nul hs, List.append_assoc, List.cons_append]⟩
  · have hall : ∀ b ∈ msg, (decide (b ≠ 0)) = true := by
      intro b hb
      simp only [decide_eq_true_eq]
      rintro rfl
      exact h hb
    exact ⟨post, by rw [List.takeWhile_eq_self_iff.mpr hall]⟩

theorem takeWhile_no_nul (msg : List UInt8) : 0 ∉ msg.takeWhile (· ≠ 0) := by
  intro h
  simpa using List.mem_takeWhile_imp h

/-- The text of a line is the line without its end. -/
theorem messageText_line {text eol : List UInt8} (h0 : 0 ∉ text)
    (ht : ∀ b ∈ text, ¬ (b = 13 ∨ b = 10)) (he : ∀ b ∈ eol, b = 13 ∨ b = 10) :
    messageText (text ++ eol) = text := by
  have hall : ∀ b ∈ text ++ eol, decide (b ≠ 0) = true := by
    intro b hb
    rw [decide_eq_true_eq]
    rintro rfl
    rcases List.mem_append.mp hb with hb | hb
    · exact h0 hb
    · exact absurd (he 0 hb) (by decide)
  unfold messageText
  rw [List.takeWhile_eq_self_iff.mpr hall, stripEol_append text he]
  exact List.rdropWhile_eq_self_iff.mpr fun hl => by simpa using ht _ (List.getLast_mem hl)

/-- Cutting a message behind its text does not change the text. -/
theorem messageText_take {msg : List UInt8} {n : ℕ} (h : (messageText msg).length ≤ n) :
    messageText (msg.take n) = messageText msg := by
  unfold messageText at h ⊢
  obtain ⟨eol, hsplit, heol⟩ := stripEol_split (msg.takeWhile (· ≠ 0))
  have hcut : (msg.take n).takeWhile (· ≠ 0) =
      stripEol (msg.takeWhile (· ≠ 0)) ++ eol.take (n - (stripEol (msg.takeWhile (· ≠ 0))).length) := by
    rw [← List.take_takeWhile]
    conv_lhs => rw [hsplit]
    rw [List.take_append, List.take_of_length_le h]
  rw [hcut, stripEol_append _ fun b hb => heol b (List.mem_of_mem_take hb), stripEol_idempotent]

namespace Daemon

section ParseMessage
variable (k : Kernel) {pre msg : List UInt8} {message : ℕ} (hpre : pre.length = message)
  (post : List UInt8) (s : Daemon)
include hpre

theorem parseMessage_raw : s.parseMessage k rawMsg (pre ++ (msg ++ 0 :: post)) message msg.length =
    if !s.allowRawMode then .ok (s.flog .info "raw message rejected.\n" [])
    else (do
      let s ← s.write k msg
      .ok (if s.logs .info then s.logRaw msg else s)) := by
  unfold parseMessage
  rw [if_pos rfl, readRange_append hpre rfl]
  rfl

variable (hfit : msg.length < 2 ^ 31)
include hfit

omit k s in
/-- What `chomp` leaves of a message is its text. -/
theorem chomp_message : ∃ mem, chomp (pre ++ (msg ++ 0 :: post)) message = .ok mem ∧
    cstring (mem.drop message) = .ok (messageText msg) := by
  obtain ⟨post', hsplit⟩ := message_split msg post
  have hle := (List.takeWhile_prefix (l := msg) fun b => decide (b ≠ 0)).length_le
  obtain ⟨mem, hchomp, hc⟩ := cstring_chomp pre _ post' (takeWhile_no_nul msg) (by omega)
  rw [← hsplit, hpre] at hchomp
  rw [hpre] at hc
  exact ⟨mem, hchomp, hc⟩

/-- A colour message is judged by its text alone. -/
theorem parseMessage_color (msgsize : ℕ) :
    s.parseMessage k color (pre ++ (msg ++ 0 :: post)) message msgsize =
      if (sscanf [2, 2, 2] (messageText msg)).1 ≠ 3 then
        .ok (s.flog .error "bad color string %s\n" [.text (messageText msg)])
      else s.writeCommandF k colorFormat (sscanf [2, 2, 2] (messageText msg)).2 := by
  obtain ⟨mem, hchomp, hc⟩ := chomp_message hpre post hfit
  unfold parseMessage
  rw [if_neg (by decide), if_pos rfl, hchomp]
  simp only [checked_ok, ok_bind, hc]

theorem parseMessage_view (type : UInt8) :
    lampView (s.parseMessage k type (pre ++ (msg ++ 0 :: post)) message msg.length) =
      submits k (messageChunks s.allowRawMode type msg) s.lamp := by
  unfold messageChunks
  by_cases hraw : type = rawMsg
  · subst hraw
    rw [parseMessage_raw k hpre, if_pos rfl]
    cases hmode : s.allowRawMode with
    | false => simp
    | true =>
      simp only [Bool.not_true, Bool.false_eq_true, if_false, if_true]
      rw [lampView_log fun s' : Daemon => ?_, write_view]
      split_ifs <;> simp
  by_cases hcolor : type = color
  · subst hcolor
    rw [parseMessage_color k hpre post s hfit, if_neg hraw, if_pos rfl, colorChunks]
    by_cases hn : (sscanf [2, 2, 2] (messageText msg)).1 ≠ 3
    · rw [if_pos hn, if_pos hn]
      simp
    · have hle := format_length_le colorFormat (sscanf [2, 2, 2] (messageText msg)).2
      rw [if_neg hn, if_neg hn]
      exact writeCommandF_view k (by simp [colorFormat, format])
        (le_trans hle (by simp [colorFormat])) s
  · unfold parseMessage
    simp [hraw, hcolor]

end ParseMessage

/-- Of a datagram with the magic, only the message is cut. -/
theorem take_datagram (type : UInt8) (msg : List UInt8) : (magic ++ type :: msg).take maxPacketSize =
    magic ++ type :: receivedMessage msg := by
  have hlen : magic.length = 4 := rfl
  rw [List.take_append, hlen, List.take_of_length_le (by rw [hlen]; decide)]
  rfl

/-- A datagram with the magic is accepted when there is a message. -/
theorem accepted_datagram {type : UInt8} {msg : List UInt8} :
    Accepted (magic ++ type :: msg) ↔ msg ≠ [] := by
  have hlen : (magic ++ type :: msg).length = msg.length + 5 := by
    rw [List.length_append, List.length_cons]
    exact Nat.add_comm 4 _
  unfold Accepted
  rw [hlen]
  constructor
  · rintro ⟨-, h⟩ rfl
    exact absurd h (by decide)
  · intro h
    have hpos := List.length_pos_of_ne_nil h
    exact ⟨rfl, by omega⟩

/-- The receive buffer has room for a terminator behind the datagram. -/
theorem recvfrom_eq (stale : Stale) (datagram : List UInt8) : ∃ b post,
    recvfrom stale datagram = (datagram.take maxPacketSize ++ b :: post,
      (datagram.take maxPacketSize).length) ∧
    4 ≤ (datagram.take maxPacketSize).length + 1 + post.length := by
  have hn : (datagram.take maxPacketSize).length ≤ 1024 := List.length_take_le _ _
  have hstale : (stale.toList.drop (datagram.take maxPacketSize).length).length =
      1025 - (datagram.take maxPacketSize).length := by
    rw [List.length_drop, Vector.length_toList]
  unfold recvfrom
  cases hd : stale.toList.drop (datagram.take maxPacketSize).length with
  | nil =>
    rw [hd, List.length_nil] at hstale
    omega
  | cons b post =>
    rw [hd, List.length_cons] at hstale
    exact ⟨b, post, by simp only [hd], by omega⟩

/-- A datagram is handled from the receive buffer, its terminator's place being in it. -/
theorem handle_command (k : Kernel) (stale : Stale) (datagram : Option (List UInt8)) (s : Daemon) :
    ∃ b post, 4 ≤ ((datagram.getD []).take maxPacketSize).length + 1 + post.length ∧
      s.handle k (.command stale datagram) =
        s.receiveCommand k ((datagram.getD []).take maxPacketSize ++ b :: post)
          ((datagram.getD []).take maxPacketSize).length := by
  obtain ⟨b, post, hbuf, hpost⟩ := recvfrom_eq stale (datagram.getD [])
  refine ⟨b, post, hpost, ?_⟩
  unfold handle
  simp only [hbuf]

/-- The header check looks at the datagram only, where the magic can be read at all. -/
theorem accept_eq (d : List UInt8) (b : UInt8) {post : List UInt8}
    (hpost : 4 ≤ d.length + 1 + post.length) :
    accept (d ++ b :: post) d.length = .ok (if Accepted d then some (d ++ 0 :: post) else none) := by
  have hw := write_append (rfl : d.length = d.length) b 0 post
  have hr : readRange (d ++ 0 :: post) 0 4 = .ok ((d ++ 0 :: post).take 4) :=
    readRange_zero (by simp; omega)
  have hbad : decide ((d ++ 0 :: post).take 4 ≠ magic ∨ d.length ≤ packetSize) =
      !decide (Accepted d) := by
    rw [← decide_not]
    apply decide_eq_decide.mpr
    by_cases hlen : 6 ≤ d.length
    · rw [List.take_append_of_le_length (by omega)]
      simp [Accepted, hlen, packetSize, Nat.not_le.mpr hlen]
    · simp only [Accepted, hlen, and_false, not_false_iff, iff_true]
      exact .inr (by unfold packetSize; omega)
  unfold accept malformed
  rw [hw]
  simp only [ok_bind, hr, hbad]
  by_cases h : Accepted d <;> simp [h]

/-- The type of an accepted packet. -/
theorem read_type {d : List UInt8} (h : Accepted d) (post : List UInt8) :
    Memory.read (d ++ 0 :: post) 4 = .ok (d.getD 4 0) := by
  have hlen := h.2
  rw [read_of_lt (by simp; omega), List.getElem_append_left (by omega),
    List.getD_eq_getElem d 0 (by omega)]

/-- The message of a packet follows its header. -/
theorem header_append (d post : List UInt8) :
    d ++ 0 :: post = d.take 5 ++ (d.drop 5 ++ 0 :: post) := by
  rw [← List.append_assoc, List.take_append_drop]

theorem header_length {d : List UInt8} (h : Accepted d) : (d.take 5).length = packetSize := by
  have hlen := h.2
  exact List.length_take_of_le (by omega)

/-- The message of a packet that was received is short enough for `chomp`. -/
theorem message_length {d : List UInt8} (h : d.length ≤ maxPacketSize) :
    (d.drop 5).length < 2 ^ 31 := by
  rw [List.length_drop]
  unfold maxPacketSize at h
  omega

theorem receiveCommand_of_accepted (k : Kernel) {d : List UInt8} (h : Accepted d) (b : UInt8)
    (post : List UInt8) (s : Daemon) :
    s.receiveCommand k (d ++ b :: post) d.length =
      s.parseMessage k (d.getD 4 0) (d.take 5 ++ (d.drop 5 ++ 0 :: post)) packetSize
        (d.drop 5).length := by
  have hlen := h.2
  have ha := accept_eq d b (show 4 ≤ d.length + 1 + post.length by omega)
  unfold receiveCommand
  rw [if_neg (by omega), ha, if_pos h]
  simp only [checked_ok, ok_bind, read_type h]
  rw [← header_append, List.length_drop]
  rfl

/-- A datagram that is not accepted is logged, and nothing else happens. -/
theorem receiveCommand_of_not_accepted (k : Kernel) {d : List UInt8} (h : ¬ Accepted d) (b : UInt8)
    {post : List UInt8} (hpost : 4 ≤ d.length + 1 + post.length) (s : Daemon) :
    s.receiveCommand k (d ++ b :: post) d.length =
      .ok (if d = [] then s.logerror "recvfrom"
        else s.flog .error "received malformed packet from %s.\n" [.system]) := by
  unfold receiveCommand
  by_cases hd : d = []
  · simp [hd]
  · rw [if_neg (by simpa using hd), if_neg hd, accept_eq d b hpost, if_neg h]
    rfl

theorem receiveCommand_view (k : Kernel) {d : List UInt8} (hd : d.length ≤ maxPacketSize) (b : UInt8)
    {post : List UInt8} (hpost : 4 ≤ d.length + 1 + post.length) (s : Daemon) :
    lampView (s.receiveCommand k (d ++ b :: post) d.length) =
      submits k (commandChunks s.allowRawMode d) s.lamp := by
  unfold commandChunks
  by_cases h : Accepted d
  · rw [if_pos h, receiveCommand_of_accepted k h,
      parseMessage_view k (header_length h) _ _ (message_length hd)]
  · rw [if_neg h, receiveCommand_of_not_accepted k h b hpost]
    split_ifs <;> simp [logerror]

end Daemon

end Moodpd
