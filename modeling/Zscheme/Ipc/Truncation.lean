import Zscheme.Ipc.Frame

/-!
# Truncated streams

A connection that breaks leaves a prefix of the frames that were sent: those that are
complete (`completed`), and perhaps a part of the next one. `read_frame` is to report
the end of the stream only where a frame ends. It finds that the stream has ended in
the same way at a boundary and inside a length prefix, so that it does exactly if the
stream is not cut inside a length prefix (`cleanEnd_iff`).
-/

namespace Zscheme.Ipc

variable {T : Type*} (c : Codec T)

/-- The messages whose frames are complete in a prefix of what was sent, and what is
    left after them. -/
def completed : List T → List UInt8 → List T × List UInt8
  | [], stream => ([], stream)
  | m :: ms, stream =>
    match writeFrame c m with
    | .error _ => ([], stream)
    | .ok frame =>
      if frame.length ≤ stream.length then
        let (done, left) := completed ms (stream.drop frame.length)
        (m :: done, left)
      else ([], stream)

/-- Repeated `read_frame` returns the messages whose frames are complete, and ends
    without an error exactly if nothing is left after them. -/
def CleanEnd (msgs : List T) (stream : List UInt8) : Prop :=
  (readFrames c stream).1 = (completed c msgs stream).1 ∧
    ((readFrames c stream).2 = .ok () ↔ (completed c msgs stream).2 = [])

/-- The stream is cut inside a length prefix. -/
def CutInLength (msgs : List T) (stream : List UInt8) : Prop :=
  0 < (completed c msgs stream).2.length ∧ (completed c msgs stream).2.length < 4

instance (msgs : List T) (stream : List UInt8) : Decidable (CutInLength c msgs stream) :=
  inferInstanceAs (Decidable (_ ∧ _))

variable {c}

/-- Fewer bytes than a length prefix has are taken for the end of the stream. -/
theorem readFrame_of_length_lt {stream : List UInt8} (h : stream.length < 4) :
    readFrame c stream = .ok none := by
  match stream, h with
  | [], _ | [_], _ | [_, _], _ | [_, _, _], _ => rfl

/-- A frame that is cut inside its body is an error. -/
theorem readFrame_of_cut {buf stream : List UInt8} (hlen : buf.length ≤ MAX_FRAME_LEN)
    (hp : stream <+: toBeBytes 4 buf.length ++ buf) (h₄ : 4 ≤ stream.length)
    (hlt : stream.length < 4 + buf.length) : readFrame c stream = .error "early eof" := by
  -- The length prefix is there, and not all of the bytes it announces.
  have hlt32 : buf.length < 2 ^ 32 := Nat.lt_of_le_of_lt hlen (by decide)
  have hpre : toBeBytes 4 buf.length <+: stream :=
    List.prefix_of_prefix_length_le (List.prefix_append _ _) hp (by simpa using h₄)
  obtain ⟨rest, rfl⟩ := hpre
  rw [List.length_append, length_toBeBytes] at hlt
  rw [readFrame_header c hlt32, if_neg (Nat.not_lt.2 hlen), if_pos (by omega)]

/-- The frames of some messages are the frame of the first and those of the others. -/
theorem writeFrames_cons {m : T} {ms : List T} {bytes : List UInt8}
    (h : writeFrames c (m :: ms) = .ok bytes) : ∃ frame, writeFrame c m = .ok frame ∧
      ∃ rest, writeFrames c ms = .ok rest ∧ bytes = frame ++ rest := by
  rcases hf : writeFrame c m with _ | frame
  · simp [writeFrames, hf, bind, Except.bind] at h
  rcases hr : writeFrames c ms with _ | rest
  · simp [writeFrames, hf, hr, bind, Except.bind] at h
  refine ⟨frame, rfl, rest, rfl, ?_⟩
  simpa [writeFrames, hf, hr, bind, Except.bind, pure, Except.pure, eq_comm] using h

/-- In every prefix of the frames of readable messages, repeated `read_frame` returns the
    messages whose frames are complete, and takes the end of the prefix for the end of
    the stream exactly if it is a boundary, if and only if the prefix is not cut inside
    a length prefix. -/
theorem cleanEnd_iff {msgs : List T} {bytes stream : List UInt8}
    (h : writeFrames c msgs = .ok bytes) (hr : ∀ m ∈ msgs, Readable c m)
    (hp : stream <+: bytes) : CleanEnd c msgs stream ↔ ¬ CutInLength c msgs stream := by
  induction msgs generalizing bytes stream with
  | nil =>
    obtain rfl := Except.ok.inj h
    obtain rfl := List.prefix_nil.1 hp
    have hread : readFrames c [] = ([], .ok ()) := readFrames_of_eof rfl
    simp [CleanEnd, CutInLength, completed, hread]
  | cons m ms ih =>
    obtain ⟨frame, hf, rest, hrest, rfl⟩ := writeFrames_cons h
    obtain ⟨buf, hm, _, rfl⟩ := writeFrame_eq_ok hf
    have hlen : buf.length ≤ MAX_FRAME_LEN := hr m List.mem_cons_self buf hm
    simp only [CleanEnd, CutInLength, completed]
    simp only [hf]
    split
    · next hle =>
      -- The first frame is complete: what follows it decides.
      obtain ⟨tail, rfl⟩ := List.prefix_of_prefix_length_le (List.prefix_append _ _) hp hle
      have htail : tail <+: rest := (List.prefix_append_right_inj _).1 hp
      rw [readFrames_of_some (readFrame_writeFrame hm hlen tail), List.drop_left]
      have := ih hrest (fun m hm => hr m (List.mem_cons_of_mem _ hm)) htail
      simpa [CleanEnd, CutInLength] using this
    · next hlt =>
      have hp' : stream <+: toBeBytes 4 buf.length ++ buf :=
        List.prefix_of_prefix_length_le hp (List.prefix_append _ _) (Nat.le_of_not_le hlt)
      rw [List.length_append, length_toBeBytes, Nat.not_le] at hlt
      by_cases h₄ : stream.length < 4
      · rw [readFrames_of_eof (readFrame_of_length_lt h₄)]
        simp [h₄, List.length_pos_iff]
      · rw [readFrames_of_error (readFrame_of_cut hlen hp' (Nat.le_of_not_lt h₄) hlt)]
        have hne : stream ≠ [] := by
          rintro rfl
          exact h₄ (by decide)
        simp [h₄, hne]

/-- From a prefix of the frames of readable messages the first few of these are read. -/
theorem readFrames_of_prefix {msgs : List T} {bytes stream : List UInt8}
    (h : writeFrames c msgs = .ok bytes) (hr : ∀ m ∈ msgs, Readable c m)
    (hp : stream <+: bytes) : (readFrames c stream).1 <+: msgs := by
  induction msgs generalizing bytes stream with
  | nil =>
    obtain rfl := Except.ok.inj h
    obtain rfl := List.prefix_nil.1 hp
    rw [List.prefix_nil, readFrames_of_eof rfl]
  | cons m ms ih =>
    obtain ⟨frame, hf, rest, hrest, rfl⟩ := writeFrames_cons h
    obtain ⟨buf, hm, _, rfl⟩ := writeFrame_eq_ok hf
    have hlen : buf.length ≤ MAX_FRAME_LEN := hr m List.mem_cons_self buf hm
    rcases Nat.lt_or_ge stream.length (toBeBytes 4 buf.length ++ buf).length with hlt | hle
    · have hp' : stream <+: toBeBytes 4 buf.length ++ buf :=
        List.prefix_of_prefix_length_le hp (List.prefix_append _ _) (Nat.le_of_lt hlt)
      rw [List.length_append, length_toBeBytes] at hlt
      -- nothing is read from a part of a frame
      by_cases h₄ : stream.length < 4
      · rw [readFrames_of_eof (readFrame_of_length_lt h₄)]
        exact List.nil_prefix
      · rw [readFrames_of_error (readFrame_of_cut hlen hp' (Nat.le_of_not_lt h₄) hlt)]
        exact List.nil_prefix
    · obtain ⟨tail, rfl⟩ := List.prefix_of_prefix_length_le (List.prefix_append _ _) hp hle
      have htail : tail <+: rest := (List.prefix_append_right_inj _).1 hp
      rw [readFrames_of_some (readFrame_writeFrame hm hlen tail)]
      exact List.cons_prefix_cons.2
        ⟨rfl, ih hrest (fun m hm => hr m (List.mem_cons_of_mem _ hm)) htail⟩

/-- A connection that breaks inside the body of a liveness check. -/
theorem cleanEnd_ping : CleanEnd Request.codec [.ping] [0, 0, 0, 5, 0x64, 0x50] ↔
    ¬ CutInLength Request.codec [.ping] [0, 0, 0, 5, 0x64, 0x50] := by
  have hbytes : writeFrames Request.codec [.ping] =
      .ok [0, 0, 0, 5, 0x64, 0x50, 0x69, 0x6e, 0x67] := rfl
  refine cleanEnd_iff hbytes ?_ (by decide)
  intro m hm buf hbuf
  obtain rfl := List.mem_singleton.1 hm
  obtain rfl := Option.some.inj hbuf
  decide

/-- A connection that breaks inside the length prefix of a liveness check looks like an
    orderly close. -/
theorem cut_not_cleanEnd :
    writeFrames Request.codec [.ping] = .ok [0, 0, 0, 5, 0x64, 0x50, 0x69, 0x6e, 0x67] ∧
      readFrames Request.codec [0, 0] = ([], .ok ()) ∧
      ¬ CleanEnd Request.codec [.ping] [0, 0] := by
  have hread : readFrames Request.codec [0, 0] = ([], .ok ()) :=
    readFrames_of_eof (readFrame_of_length_lt (by decide))
  refine ⟨rfl, hread, fun h => ?_⟩
  have hleft := h.2.1 (by rw [hread])
  exact absurd hleft (by decide)

end Zscheme.Ipc
