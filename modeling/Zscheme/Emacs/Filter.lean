import Zscheme.Emacs.Response
import Zscheme.Ipc.Frame
import Zscheme.Lib.Feed

/-!
# The filter of the Emacs frontend

The bytes of the daemon arrive in chunks. `processFilter` puts each chunk after what has
been kept, and takes the frames that are complete off the front.

* `feed_frames`: frames that are decoded arrive as their responses, newest first and once
  each, however the stream of them is cut;
* `feed_writeFrames`: such are the frames that the daemon writes, if the responses have
  fields and their texts keep their line ends.
-/

namespace Zscheme.Emacs

namespace Filter

/-- `ma-ipc--max-frame-len` -/
def maxFrameLen : Nat := 16 * 1024 * 1024

/-- The error for a frame that is too large. -/
def tooLarge (len : Nat) : Signal := .error "zscheme IPC frame too large: %s" [.int len]

/-- `ma-ipc--frame` -/
def frame (bytes : List UInt8) : Except Signal (List UInt8) :=
  let len := bytes.length
  if maxFrameLen < len then .error (tooLarge len)
  else
    .ok (unibyteString [len >>> 24 &&& 255, len >>> 16 &&& 255, len >>> 8 &&& 255, len &&& 255]
      ++ bytes)

/-- The response that the body of a frame is. -/
def answer (body : List UInt8) : Except Signal Lisp := do
  let (value, _) ← decode body 0
  response value

/-- The length of the first frame, if all of it is in the buffer: the condition of the loop. -/
def complete (buffer : List UInt8) : Except Signal (Option Nat) :=
  if 4 ≤ buffer.length then do
    let len ← u32 buffer 0
    if maxFrameLen < len then .error (tooLarge len)
    else return if 4 + len ≤ buffer.length then some len else none
  else .ok none

/-- The body of the first frame, and what is after it. -/
def cut (buffer : List UInt8) (len : Nat) : Except Signal (List UInt8 × List UInt8) := do
  return (← substring buffer 4 (4 + len), ← substring buffer (4 + len) buffer.length)

/-- What is done with a frame that is off the buffer. -/
def push (plist : Except Signal Lisp) (rest : List UInt8) : Turn UInt8 Lisp Signal :=
  match plist with
  | .error e => .fail e rest
  | .ok plist => .take plist rest

/-- A turn of the loop. The frame is off the buffer before it is decoded. -/
def turn (buffer : List UInt8) : Turn UInt8 Lisp Signal :=
  match complete buffer with
  | .error e => .fail e buffer
  | .ok none => .wait
  | .ok (some len) =>
    match cut buffer len with
    | .error e => .fail e buffer
    | .ok (body, rest) => push (answer body) rest

section Turn

variable {buffer : List UInt8}

/-- Nothing is done before the length is complete. -/
theorem turn_of_length_lt (h : buffer.length < 4) : turn buffer = .wait := by
  rw [turn, complete, if_neg (by omega)]

/-- A frame that is there as a whole is cut off. -/
theorem cut_cons (b₀ b₁ b₂ b₃ : UInt8) {len : Nat} (h : len ≤ buffer.length) :
    cut (b₀ :: b₁ :: b₂ :: b₃ :: buffer) len = .ok (buffer.take len, buffer.drop len) := by
  have hbody : substring (b₀ :: b₁ :: b₂ :: b₃ :: buffer) 4 (4 + len) = .ok (buffer.take len) := by
    rw [substring, if_pos (by simp only [List.length_cons]; omega), Nat.add_sub_cancel_left]
    rfl
  have hrest : substring (b₀ :: b₁ :: b₂ :: b₃ :: buffer) (4 + len)
      (b₀ :: b₁ :: b₂ :: b₃ :: buffer).length = .ok (buffer.drop len) := by
    rw [substring, if_pos (Nat.le_refl _), List.take_of_length_le (Nat.le_of_eq List.length_drop),
      ← List.drop_drop]
    rfl
  rw [cut, hbody, hrest]
  rfl

/-- What is done once it is. -/
theorem turn_cons (b₀ b₁ b₂ b₃ : UInt8) (buffer : List UInt8) :
    turn (b₀ :: b₁ :: b₂ :: b₃ :: buffer) =
      let len := fromBeBytes [b₀, b₁, b₂, b₃]
      if maxFrameLen < len then .fail (tooLarge len) (b₀ :: b₁ :: b₂ :: b₃ :: buffer)
      else if len ≤ buffer.length then push (answer (buffer.take len)) (buffer.drop len)
      else .wait := by
  have hat : At (b₀ :: b₁ :: b₂ :: b₃ :: buffer) 0 _ := ⟨Nat.zero_le _, rfl⟩
  rw [turn, complete, hat.u32]
  generalize fromBeBytes [b₀, b₁, b₂, b₃] = len
  simp only [List.length_cons, ok_bind]
  rw [if_pos (by omega)]
  split_ifs with hmax hlen hlen'
  · rfl
  · simp only [pure, Except.pure, cut_cons b₀ b₁ b₂ b₃ hlen']
  · omega
  · omega
  · rfl

/-- What arrives later is left over. -/
theorem push_append (plist : Except Signal Lisp) (rest more : List UInt8) :
    push plist (rest ++ more) = (push plist rest).append more := by
  cases plist <;> rfl

/-- A turn of the loop takes at least the length bytes. -/
theorem length_of_turn {plist : Lisp} {rest : List UInt8} (h : turn buffer = .take plist rest) :
    rest.length < buffer.length := by
  match buffer with
  | b₀ :: b₁ :: b₂ :: b₃ :: tl =>
    rw [turn_cons] at h
    dsimp only at h
    split_ifs at h with hmax hlen
    cases hanswer : answer (tl.take (fromBeBytes [b₀, b₁, b₂, b₃])) with
    | error e =>
      rw [hanswer] at h
      cases h
    | ok plist' =>
      rw [hanswer] at h
      cases h
      simp only [List.length_drop, List.length_cons]
      omega
  | [] | [_] | [_, _] | [_, _, _] =>
    rw [turn_of_length_lt (by simp)] at h
    cases h

/-- A turn that does something does the same when more is there. -/
theorem turn_append (more : List UInt8) (h : turn buffer ≠ .wait) :
    turn (buffer ++ more) = (turn buffer).append more := by
  match buffer with
  | b₀ :: b₁ :: b₂ :: b₃ :: tl =>
    have hmore := turn_cons b₀ b₁ b₂ b₃ (tl ++ more)
    rw [turn_cons] at h ⊢
    rw [List.cons_append, List.cons_append, List.cons_append, List.cons_append, hmore]
    dsimp only at h ⊢
    by_cases hmax : maxFrameLen < fromBeBytes [b₀, b₁, b₂, b₃]
    · rw [if_pos hmax, if_pos hmax]
      rfl
    rw [if_neg hmax] at h ⊢
    rw [if_neg hmax]
    -- a frame that is complete stays so
    have hlen : fromBeBytes [b₀, b₁, b₂, b₃] ≤ tl.length := by
      by_contra hlen
      exact h (if_neg hlen)
    rw [if_pos hlen, if_pos (by rw [List.length_append]; omega), ← push_append,
      List.take_append_of_le_length hlen, List.drop_append_of_le_length hlen]
  | [] | [_] | [_, _] | [_, _, _] => exact absurd (turn_of_length_lt (by simp)) h

/-- The filter takes frames off the front of its buffer. -/
def reader : Reader UInt8 Lisp Signal := ⟨turn, length_of_turn, turn_append⟩

end Turn

/-- What is in `ma-ipc--buffer` and in `ma-ipc--frames`. -/
abbrev Input := Inbox UInt8 Lisp

/-- `ma-ipc--open-process` -/
def openProcess : Input := ⟨[], []⟩

/-- `ma-ipc--process-filter`. The chunk is bytes as it is. -/
def processFilter (s : Input) (chunk : List UInt8) : Input × Option Signal := reader.receive s chunk

/-- The filter is called with each chunk in turn, also after a signal. -/
def feed (s : Input) (chunks : List (List UInt8)) : Input × List Signal := reader.feed s chunks

/-- A frame that is decoded. -/
structure Answer where
  body : List UInt8
  bytes : List UInt8
  value : Lisp
  next : Nat
  plist : Lisp
  framed : frame body = .ok bytes
  decoded : decode body 0 = .ok (value, next)
  responded : response value = .ok plist

/-- A frame is its length and its body, if it is not too large. -/
theorem frame_eq (body : List UInt8) : frame body =
    if maxFrameLen < body.length then .error (tooLarge body.length)
    else .ok (toBeBytes 4 body.length ++ body) := by
  simp only [frame, unibyteString, List.map_cons, List.map_nil, ofNat_and,
    Nat.shiftRight_eq_div_pow, toBeBytes, Nat.reducePow, Nat.div_one]

/-- A frame is taken if its body is decoded. -/
theorem turn_frame {body : List UInt8} {plist : Lisp} (hlen : body.length ≤ maxFrameLen)
    (hanswer : answer body = .ok plist) :
    turn (toBeBytes 4 body.length ++ body) = .take plist [] := by
  have hlt : body.length < 256 ^ 4 := Nat.lt_of_le_of_lt hlen (by decide)
  have harg := fromBeBytes_toBeBytes hlt
  simp only [toBeBytes] at harg
  simp only [toBeBytes, List.cons_append, List.nil_append, turn_cons, harg]
  rw [if_neg (Nat.not_lt.2 hlen), if_pos (Nat.le_refl _), List.take_length, List.drop_length,
    hanswer]
  rfl

/-- A frame of the daemon is taken. -/
theorem Answer.turn (a : Answer) : Filter.turn a.bytes = .take a.plist [] := by
  have hframed := a.framed
  rw [frame_eq] at hframed
  split_ifs at hframed with hlen
  have hanswer : answer a.body = .ok a.plist := by
    rw [answer, a.decoded]
    exact a.responded
  rw [← Except.ok.inj hframed]
  exact turn_frame (Nat.not_lt.1 hlen) hanswer

/-- An empty buffer waits. -/
theorem turn_nil : reader.turn [] = .wait := rfl

/-- Frames that are decoded arrive as their responses, newest first and once each, however
    the stream of them is cut. -/
theorem feed_frames (answers : List Answer) (chunks : List (List UInt8))
    (hcut : chunks.flatten = (answers.map Answer.bytes).flatten) :
    feed openProcess chunks = (⟨[], (answers.map Answer.plist).reverse⟩, []) := by
  have hitems : ∀ a ∈ answers, reader.turn a.bytes = .take a.plist [] := fun a _ => a.turn
  have := Reader.feed_items turn_nil hitems hcut []
  rwa [List.append_nil] at this

/-! ## The frames of the daemon -/

/-- The response is one that the frontend decodes. -/
structure Decoded (r : Ipc.Response) : Prop where
  fits : r.toCbor.encode.length ≤ maxFrameLen
  hasFields : HasFields r
  keepsLines : ∀ s ∈ texts r, KeepsLines (chars s)

/-- The frame that the daemon writes for a response. -/
def daemonFrame (r : Ipc.Response) : List UInt8 :=
  toBeBytes 4 r.toCbor.encode.length ++ r.toCbor.encode

/-- Such a frame is decoded. -/
def Answer.ofResponse (r : Ipc.Response) (h : Decoded r) : Answer where
  body := r.toCbor.encode
  bytes := daemonFrame r
  value := ((lisp r.toCbor).getD .nil).mapStrings decodeEol
  next := r.toCbor.encode.length
  plist := (Emacs.frame r).plist
  framed := by
    rw [frame_eq, if_neg (Nat.not_lt.2 h.fits)]
    rfl
  decoded := by
    obtain ⟨v, hv, -⟩ := response_of_hasFields h.hasFields
    have hlen : r.toCbor.encode.length < 2 ^ 61 := Nat.lt_of_le_of_lt h.fits (by decide)
    rw [hv]
    simpa using decode_encode hv (by omega) []
  responded := by
    obtain ⟨v, hv, hr⟩ := response_of_hasFields h.hasFields
    have hkeeps : (Emacs.frame r).plist.mapStrings decodeEol = (Emacs.frame r).plist := by
      rw [Lisp.mapStrings_eq_iff, strings_plist, List.forall_mem_map]
      exact fun s hs => (decodeEol_eq_iff _).2 (h.keepsLines s hs)
    rw [hv, Option.getD_some, hr, hkeeps]

/-- Three frames: a chunk ends in the length of the first, and another, with the second in
    it, in the length of the third. -/
theorem feed_frames_hei :
    let bytes := [0, 0, 0, 23, 0xa1, 0x67] ++ utf8 "Display" ++ [0xa2, 0x62] ++ utf8 "id" ++
      [7, 0x64] ++ utf8 "text" ++ [0x63] ++ utf8 "hei"
    feed openProcess [[0, 0], bytes.drop 2 ++ bytes ++ [0, 0, 0], bytes.drop 3] =
      (⟨[], List.replicate 3 (Frame.display 7 "hei").plist⟩, []) :=
  let a := Answer.ofResponse (.display 7 "hei") ⟨by decide +kernel, trivial, by decide +kernel⟩
  feed_frames [a, a, a] _ (by decide +kernel)

/-- What the daemon writes for responses that are decoded arrives as these, newest first
    and once each, however it is cut. -/
theorem feed_writeFrames {rs : List Ipc.Response} {bytes : List UInt8} {chunks : List (List UInt8)}
    (h : Ipc.writeFrames Ipc.Response.codec rs = .ok bytes) (hrs : ∀ r ∈ rs, Decoded r)
    (hcut : chunks.flatten = bytes) :
    feed openProcess chunks = (⟨[], (rs.map fun r => (Emacs.frame r).plist).reverse⟩, []) := by
  have hlen {r : Ipc.Response} (hr : r ∈ rs) : r.toCbor.encode.length < 2 ^ 32 :=
    Nat.lt_of_le_of_lt (hrs r hr).fits (by decide)
  have hwrite : ∀ r ∈ rs, Ipc.writeFrame Ipc.Response.codec r = .ok (daemonFrame r) :=
    fun r hr => Ipc.writeFrame_of_encode (if_pos (by have := hlen hr; omega)) (hlen hr)
  have hturn : ∀ r ∈ rs, reader.turn (daemonFrame r) = .take (Emacs.frame r).plist [] :=
    fun r hr => (Answer.ofResponse r (hrs r hr)).turn
  have hbytes := Except.ok.inj (h.symm.trans (Ipc.writeFrames_of_forall hwrite))
  have := Reader.feed_items turn_nil hturn (hcut.trans hbytes) []
  rwa [List.append_nil] at this

end Filter

end Zscheme.Emacs
