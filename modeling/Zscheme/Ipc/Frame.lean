import Zscheme.Ipc.Message

/-!
# Frames

Each message is sent as a *frame*: its CBOR encoding, after the length of the
encoding as a big-endian `u32`. `write_frame` accepts every encoding whose length
fits in a `u32`; `read_frame` accepts those of at most `MAX_FRAME_LEN` bytes.

* `readFrames_writeFrames_iff`: reading the frames of some messages gives them back
  exactly if none of their encodings is longer than that.
* `readFrame_writeFrame`, `readFrame_writeFrame_of_lt`: the two cases, for one frame.
* `largeDump_not_read`: a dump of 16 MiB is sent and cannot be received.

CBOR itself (`ciborium`) is a `Codec`: an encoder and a decoder of the messages,
with the law that decoding the encoding of a message gives the message. Requests and
responses have one, `Request.codec` and `Response.codec`.
-/

namespace Zscheme.Ipc

/-- Maximum accepted frame size (16 MiB), guarding against corrupt prefixes. -/
def MAX_FRAME_LEN : Nat := 16 * 1024 * 1024

/-- The encoder (`into_writer`) and the decoder (`from_reader`) of a type of messages. -/
structure Codec (T : Type*) where
  /-- The encoding of a message, if it can be encoded. -/
  encode : T → Option (List UInt8)
  /-- The message encoded by some bytes, if there is one. -/
  decode : List UInt8 → Option T
  decode_encode : ∀ m b, encode m = some b → decode b = some m

/-- The codec of a type of messages with a faithful encoding as CBOR items. -/
def Codec.ofCbor {T : Type*} (toCbor : T → Cbor) (ofCbor : Cbor → Option T)
    (h : ∀ m, ofCbor (toCbor m) = some m) : Codec T where
  encode m := if (toCbor m).encode.length < 256 ^ 8 then some (toCbor m).encode else none
  decode b := (Cbor.decode b).bind ofCbor
  decode_encode m b hb := by
    obtain ⟨hlen, hb⟩ := Option.ite_none_right_eq_some.1 hb
    obtain rfl := Option.some.inj hb
    rw [Cbor.decode_encode (toCbor m) hlen, Option.bind_some, h]

/-- Requests on the wire. -/
def Request.codec : Codec Request := .ofCbor toCbor ofCbor ofCbor_toCbor

/-- Responses on the wire. -/
def Response.codec : Codec Response := .ofCbor toCbor ofCbor ofCbor_toCbor

/-! ## Writing and reading -/

variable {T : Type*} (c : Codec T)

/-- `write_frame`: the bytes written for a message. -/
def writeFrame (msg : T) : Except String (List UInt8) :=
  match c.encode msg with
  | none => .error "cbor encode"
  | some buf =>
    if buf.length < 2 ^ 32 then .ok (toBeBytes 4 buf.length ++ buf)
    else .error "frame too large"

/-- `write_frame` for each message in turn: all the bytes written. -/
def writeFrames : List T → Except String (List UInt8)
  | [] => .ok []
  | m :: ms => do
    let b ← writeFrame c m
    let bs ← writeFrames ms
    return b ++ bs

/-- `read_frame`: the next message of a stream, and what is left of it. `ok none` when
    the stream ends before a length prefix is complete. -/
def readFrame (stream : List UInt8) : Except String (Option (T × List UInt8)) :=
  match stream with
  | b₀ :: b₁ :: b₂ :: b₃ :: rest =>
    let len := fromBeBytes [b₀, b₁, b₂, b₃]
    if len > MAX_FRAME_LEN then .error ("IPC frame too large: " ++ toString len ++ " bytes")
    else if rest.length < len then .error "early eof"
    else match c.decode (rest.take len) with
      | none => .error "cbor decode"
      | some msg => .ok (some (msg, rest.drop len))
  | _ => .ok none

theorem length_of_readFrame {stream rest : List UInt8} {m : T}
    (h : readFrame c stream = .ok (some (m, rest))) : rest.length < stream.length := by
  match stream, h with
  | b₀ :: b₁ :: b₂ :: b₃ :: tl, h =>
    simp only [readFrame] at h
    split_ifs at h
    split at h
    · exact nomatch h
    · obtain ⟨-, rfl⟩ := Prod.mk.inj (Option.some.inj (Except.ok.inj h))
      simp only [List.length_drop, List.length_cons]
      omega

/-- Repeated `read_frame`: the messages read until the end of the stream, or until an
    error, and which of the two it was. -/
def readFrames (stream : List UInt8) : List T × Except String Unit :=
  match h : readFrame c stream with
  | .error e => ([], .error e)
  | .ok none => ([], .ok ())
  | .ok (some (m, rest)) =>
    have := length_of_readFrame c h
    let (ms, e) := readFrames rest
    (m :: ms, e)
termination_by stream.length

variable {c}

theorem readFrames_of_eof {stream : List UInt8} (h : readFrame c stream = .ok none) :
    readFrames c stream = ([], .ok ()) := by
  rw [readFrames]
  split <;> simp_all

theorem readFrames_of_error {stream : List UInt8} {e : String}
    (h : readFrame c stream = .error e) : readFrames c stream = ([], .error e) := by
  rw [readFrames]
  split <;> simp_all

theorem readFrames_of_some {stream rest : List UInt8} {m : T}
    (h : readFrame c stream = .ok (some (m, rest))) :
    readFrames c stream = (m :: (readFrames c rest).1, (readFrames c rest).2) := by
  rw [readFrames]
  split <;> simp_all

/-! ## What is written is read back -/

/-- What `write_frame` accepts: an encoding whose length fits in a `u32`. -/
theorem writeFrame_eq_ok {m : T} {b : List UInt8} (h : writeFrame c m = .ok b) :
    ∃ buf, c.encode m = some buf ∧ buf.length < 2 ^ 32 ∧ b = toBeBytes 4 buf.length ++ buf := by
  simp only [writeFrame] at h
  split at h
  · exact nomatch h
  · split_ifs at h with hlt
    exact ⟨_, ‹_›, hlt, (Except.ok.inj h).symm⟩

theorem writeFrame_of_encode {m : T} {buf : List UInt8} (hm : c.encode m = some buf)
    (hlt : buf.length < 2 ^ 32) : writeFrame c m = .ok (toBeBytes 4 buf.length ++ buf) := by
  simp only [writeFrame, hm, if_pos hlt]

/-- The frames that `write_frame` writes, one after the other. -/
theorem writeFrames_of_forall {frame : T → List UInt8} {ms : List T}
    (h : ∀ m ∈ ms, writeFrame c m = .ok (frame m)) :
    writeFrames c ms = .ok (ms.map frame).flatten := by
  induction ms with
  | nil => rfl
  | cons m ms ih =>
    obtain ⟨hm, hms⟩ := List.forall_mem_cons.1 h
    rw [writeFrames, hm, ih hms]
    rfl

variable (c) in
/-- A complete length prefix is read, and the frame after it is accepted or refused. -/
theorem readFrame_header {n : Nat} (h : n < 2 ^ 32) (rest : List UInt8) :
    readFrame c (toBeBytes 4 n ++ rest) =
      if n > MAX_FRAME_LEN then .error ("IPC frame too large: " ++ toString n ++ " bytes")
      else if rest.length < n then .error "early eof"
      else match c.decode (rest.take n) with
        | none => .error "cbor decode"
        | some msg => .ok (some (msg, rest.drop n)) := by
  have hn : fromBeBytes (toBeBytes 4 n) = n := fromBeBytes_toBeBytes h
  simp only [toBeBytes] at hn
  simp only [toBeBytes, List.cons_append, List.nil_append, readFrame, hn]

/-- A frame within the limit is read back, whatever follows it. -/
theorem readFrame_writeFrame {m : T} {buf : List UInt8} (hm : c.encode m = some buf)
    (hlen : buf.length ≤ MAX_FRAME_LEN) (rest : List UInt8) :
    readFrame c (toBeBytes 4 buf.length ++ buf ++ rest) = .ok (some (m, rest)) := by
  have hlt : buf.length < 2 ^ 32 := Nat.lt_of_le_of_lt hlen (by decide)
  rw [List.append_assoc, readFrame_header c hlt, if_neg (Nat.not_lt.2 hlen), if_neg (by simp)]
  simp [c.decode_encode m buf hm]

/-- A frame over the limit is refused, although it was written. -/
theorem readFrame_writeFrame_of_lt {buf : List UInt8} (hlt : buf.length < 2 ^ 32)
    (hlen : MAX_FRAME_LEN < buf.length) (rest : List UInt8) :
    readFrame c (toBeBytes 4 buf.length ++ buf ++ rest) =
      .error ("IPC frame too large: " ++ toString buf.length ++ " bytes") := by
  rw [List.append_assoc, readFrame_header c hlt, if_pos hlen]

variable (c)

/-- The encoding of the message is within the limit of `read_frame`. -/
def Readable (m : T) : Prop := ∀ buf, c.encode m = some buf → buf.length ≤ MAX_FRAME_LEN

/-- Messages that `write_frame` accepts are read back, in order and up to the end of
    the stream, if and only if all of them are readable. -/
theorem readFrames_writeFrames_iff {msgs : List T} {bytes : List UInt8}
    (h : writeFrames c msgs = .ok bytes) :
    readFrames c bytes = (msgs, .ok ()) ↔ ∀ m ∈ msgs, Readable c m := by
  induction msgs generalizing bytes with
  | nil =>
    obtain rfl := Except.ok.inj h
    exact iff_of_true (readFrames_of_eof rfl) (by simp)
  | cons m ms ih =>
    -- The stream is the frame of `m`, followed by the frames of `ms`.
    obtain ⟨b, hb, bs, hbs, rfl⟩ : ∃ b, writeFrame c m = .ok b ∧
        ∃ bs, writeFrames c ms = .ok bs ∧ b ++ bs = bytes := by
      cases hb : writeFrame c m with
      | error e => simp [writeFrames, hb, bind, Except.bind] at h
      | ok b =>
        cases hbs : writeFrames c ms with
        | error e => simp [writeFrames, hb, hbs, bind, Except.bind] at h
        | ok bs =>
          refine ⟨b, rfl, bs, rfl, ?_⟩
          simpa [writeFrames, hb, hbs, bind, Except.bind, pure, Except.pure] using h
    obtain ⟨buf, hm, hlt, rfl⟩ := writeFrame_eq_ok hb
    by_cases hlen : buf.length ≤ MAX_FRAME_LEN
    · have hread : Readable c m := fun buf' h' => by
        obtain rfl := Option.some.inj (hm.symm.trans h')
        exact hlen
      rw [readFrames_of_some (readFrame_writeFrame hm hlen bs), List.forall_mem_cons,
        ← ih hbs, Prod.ext_iff, Prod.ext_iff]
      simp [hread]
    · rw [readFrames_of_error (readFrame_writeFrame_of_lt hlt (Nat.not_le.1 hlen) bs)]
      refine iff_of_false (by simp) fun hall => ?_
      exact hlen (hall m List.mem_cons_self buf hm)

/-- What a writer that stops at an error has written. -/
def writeAll : List T → List UInt8
  | [] => []
  | m :: ms => match writeFrame c m with
    | .ok b => b ++ writeAll ms
    | .error _ => []

/-- The messages that arrive, of those that are written. -/
def delivered (msgs : List T) : List T := (readFrames c (writeAll c msgs)).1

/-- The message has an encoding within the limit of `read_frame`. -/
def fits (m : T) : Bool :=
  match c.encode m with
  | some buf => buf.length ≤ MAX_FRAME_LEN
  | none => false

/-- The messages arrive up to the first that does not fit in a frame. -/
theorem delivered_eq (msgs : List T) : delivered c msgs = msgs.takeWhile (fits c) := by
  induction msgs with
  | nil => rw [delivered, writeAll, readFrames_of_eof rfl, List.takeWhile_nil]
  | cons m ms ih =>
    rw [delivered, writeAll, List.takeWhile_cons]
    cases hm : c.encode m with
    | none =>
      have hwrite : writeFrame c m = .error "cbor encode" := by simp only [writeFrame, hm]
      have heof : readFrames c [] = ([], .ok ()) := readFrames_of_eof rfl
      simp only [hwrite, fits, hm, heof]
      rfl
    | some buf =>
      by_cases hlen : buf.length ≤ MAX_FRAME_LEN
      · rw [writeFrame_of_encode hm (Nat.lt_of_le_of_lt hlen (by decide)),
          readFrames_of_some (readFrame_writeFrame hm hlen _), ← ih]
        simp [fits, hm, hlen, delivered]
      -- a frame over the limit is refused, or not even written
      · rw [show fits c m = false by simp [fits, hm, hlen]]
        by_cases hlt : buf.length < 2 ^ 32
        · rw [writeFrame_of_encode hm hlt,
            readFrames_of_error (readFrame_writeFrame_of_lt hlt (Nat.not_le.1 hlen) _)]
          rfl
        · have hwrite : writeFrame c m = .error "frame too large" := by
            simp only [writeFrame, hm, if_neg hlt]
          rw [hwrite, readFrames_of_eof rfl]
          rfl

/-- What the calls of `read_frame` return for the messages that are written, up to the first
    error. What they return after an error is left open. -/
def reads (msgs : List T) : List (Except String T) :=
  match readFrames c (writeAll c msgs) with
  | (ms, .ok ()) => ms.map .ok
  | (ms, .error e) => ms.map .ok ++ [.error e]

/-- The messages are read up to the first that does not fit in a frame. -/
theorem reads_eq (msgs : List T) : ∃ last : List (Except String T),
    reads c msgs = (msgs.takeWhile (fits c)).map .ok ++ last ∧
      (last = [] ∨ ∃ e, last = [.error e]) := by
  have hdelivered : (readFrames c (writeAll c msgs)).1 = msgs.takeWhile (fits c) :=
    delivered_eq c msgs
  rw [reads]
  rcases h : readFrames c (writeAll c msgs) with ⟨ms, e | _⟩ <;> rw [h] at hdelivered <;>
    rw [← hdelivered]
  · exact ⟨[.error e], rfl, .inr ⟨e, rfl⟩⟩
  · exact ⟨[], (List.append_nil _).symm, .inl rfl⟩

/-- A message that fits is read before what follows it. -/
theorem reads_cons_of_fits {m : T} (h : fits c m = true) (ms : List T) :
    reads c (m :: ms) = .ok m :: reads c ms := by
  cases hbuf : c.encode m with
  | none => simp [fits, hbuf] at h
  | some buf =>
    have hlen : buf.length ≤ MAX_FRAME_LEN := by simpa [fits, hbuf] using h
    rw [reads, reads, writeAll, writeFrame_of_encode hbuf (Nat.lt_of_le_of_lt hlen (by decide)),
      readFrames_of_some (readFrame_writeFrame hbuf hlen _)]
    rcases readFrames c (writeAll c ms) with ⟨ms', e | _⟩ <;> rfl

/-- Messages that fit are read before those that follow them. -/
theorem reads_append_of_fits {msgs : List T} (h : ∀ m ∈ msgs, fits c m = true) (rest : List T) :
    reads c (msgs ++ rest) = msgs.map .ok ++ reads c rest := by
  induction msgs with
  | nil => rfl
  | cons m ms ih =>
    obtain ⟨hm, hms⟩ := List.forall_mem_cons.1 h
    rw [List.cons_append, reads_cons_of_fits c hm, ih hms]
    rfl

/-- Messages that all fit are all read. -/
theorem reads_of_fits {msgs : List T} (h : ∀ m ∈ msgs, fits c m = true) :
    reads c msgs = msgs.map .ok := by
  have hnil : reads c [] = [] := by rw [reads, writeAll, readFrames_of_eof rfl]; rfl
  simpa [hnil] using reads_append_of_fits c h []

/-- A message over the limit of `read_frame` is an error, if it is written. -/
theorem reads_cons_of_large {m : T} {buf : List UInt8} (hm : c.encode m = some buf)
    (hlt : buf.length < 2 ^ 32) (hlen : MAX_FRAME_LEN < buf.length) (ms : List T) :
    reads c (m :: ms) = [.error ("IPC frame too large: " ++ toString buf.length ++ " bytes")] := by
  rw [reads, writeAll, writeFrame_of_encode hm hlt,
    readFrames_of_error (readFrame_writeFrame_of_lt hlt hlen _)]
  rfl

/-- A liveness check and a request to stop are read back. -/
theorem readFrames_ping_stop :
    readFrames Request.codec
        [0, 0, 0, 5, 0x64, 0x50, 0x69, 0x6e, 0x67, 0, 0, 0, 5, 0x64, 0x53, 0x74, 0x6f, 0x70] =
      ([.ping, .stop], .ok ()) ↔ ∀ m ∈ [Request.ping, .stop], Readable Request.codec m :=
  readFrames_writeFrames_iff Request.codec (by decide)

/-! ## A dump that is too large -/

/-- The dump of a session whose source is a text of `n` bytes. -/
def dumpOf (n : Nat) : Response := .envDump (.ofList (List.replicate n 'a'))

theorem utf8ByteSize_replicate (n : Nat) :
    (String.ofList (List.replicate n 'a')).utf8ByteSize = n := by
  induction n with
  | zero => rfl
  | succ n ih =>
    have ha : "a".utf8ByteSize = 1 := by decide
    rw [List.replicate_succ, String.ofList_cons, String.utf8ByteSize_append, ih,
      String.singleton_eq_ofList]
    exact (congrArg (· + n) ha).trans (Nat.add_comm 1 n)

/-- The length of the encoding of a dump. -/
theorem length_encode_envDump (s : String) :
    (Response.envDump s).toCbor.encode.length =
      (Cbor.head 3 s.utf8ByteSize).length + s.utf8ByteSize + 17 := by
  have hname : "EnvDump".utf8ByteSize = 7 := by decide
  have hfield : "source".utf8ByteSize = 6 := by decide
  have hhead : (Cbor.head 3 7).length = 1 ∧ (Cbor.head 3 6).length = 1 ∧
      (Cbor.head 5 1).length = 1 := by decide
  simp only [Response.toCbor, variant, Cbor.encode, Cbor.encodePairs, List.length_append,
    List.length_cons, List.length_nil, length_utf8, hname, hfield, hhead]
  omega

/-- A dump over the limit of `read_frame`, and within that of `write_frame`, is written
    and not read back. -/
theorem dumpOf_not_read {n : Nat} (hgt : MAX_FRAME_LEN ≤ n) (hlt : n + 26 < 2 ^ 32) :
    ∃ bytes, writeFrames Response.codec [dumpOf n] = .ok bytes ∧
      readFrames Response.codec bytes ≠ ([dumpOf n], .ok ()) := by
  have hle := Cbor.length_head_le 3 n
  have hlen : (dumpOf n).toCbor.encode.length = (Cbor.head 3 n).length + n + 17 := by
    rw [dumpOf, length_encode_envDump, utf8ByteSize_replicate]
  have henc : Response.codec.encode (dumpOf n) = some (dumpOf n).toCbor.encode :=
    if_pos (by omega)
  refine ⟨toBeBytes 4 (dumpOf n).toCbor.encode.length ++ (dumpOf n).toCbor.encode ++ [], ?_, ?_⟩
  · rw [writeFrames, writeFrame_of_encode henc (by omega)]
    rfl
  · rw [readFrames_of_error (readFrame_writeFrame_of_lt (by omega) (by omega) [])]
    exact nofun

/-- A session of 16 MiB is dumped, and its dump cannot be received. -/
theorem largeDump_not_read :
    ∃ bytes, writeFrames Response.codec [dumpOf MAX_FRAME_LEN] = .ok bytes ∧
      readFrames Response.codec bytes ≠ ([dumpOf MAX_FRAME_LEN], .ok ()) :=
  dumpOf_not_read (Nat.le_refl _) (by decide)

end Zscheme.Ipc
