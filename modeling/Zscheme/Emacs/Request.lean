import Zscheme.Emacs.Filter
import Zscheme.Ipc.Truncation

/-!
# The requests of the Emacs frontend

`ma-ipc-request` builds a request as a Lisp value (`request`), encodes it and sends it as
a frame (`send`). The handshake and the evaluation are the requests that the frontend
makes of the daemon.

* `requests_read`: each of these is sent, unless its encoding is too large, as the bytes
  that `write_frame` would write for it, and the daemon reads from what has arrived of
  them the requests that are complete, in order.
-/

namespace Zscheme.Emacs

open Lisp

/-- A request, as `ma-ipc-request` takes it. -/
inductive Request
  | hello (version : String)
  | eval (id : Nat) (source : String) (isolated : Bool)
  | ping
  | stop
  | reset
  | dumpEnv
  deriving DecidableEq

namespace Request

/-- `ma-ipc--variant` -/
def variant (name : String) (value : Lisp) : Lisp :=
  .cons (.sym ":map") (list [.cons (.text name) value])

/-- `ma-ipc--fields` -/
def fields (pairs : List Lisp) : Lisp := .cons (.sym ":map") (list pairs)

/-- `ma-ipc--request` -/
def request : Request → Lisp
  | hello version => variant "Hello" (fields [.cons (.text "version") (.text version)])
  | eval id source isolated => variant "Eval" (fields [
      .cons (.text "id") (.int id),
      .cons (.text "source") (.text source),
      .cons (.text "isolated") (.sym (if isolated then "t" else ":false"))])
  | ping => variant "Ping" .nil
  | stop => variant "Stop" .nil
  | reset => variant "Reset" .nil
  | dumpEnv => variant "DumpEnv" .nil

/-- What `ma-ipc-request` sends for a request. -/
def send (r : Request) : Except Signal (List UInt8) := do
  Filter.frame (← encode r.request)

/-- The request that the daemon knows it as. -/
def ipc : Request → Ipc.Request
  | hello version => .hello version
  | eval id source isolated => .eval (.ofNat id) source isolated
  | ping => .ping
  | stop => .stop
  | reset => .reset
  | dumpEnv => .dumpEnv

/-- A handshake, or an evaluation with an id of the protocol. -/
def Known : Request → Prop
  | hello _ => True
  | eval id _ _ => id < 2 ^ 64
  | _ => False

/-- The encoding is within the limit of a frame. -/
def Fits (r : Request) : Prop := r.ipc.toCbor.encode.length ≤ Filter.maxFrameLen

instance (r : Request) : Decidable r.Fits := inferInstanceAs (Decidable (_ ≤ _))

/-- The frame of the request. -/
def bytes (r : Request) : List UInt8 :=
  toBeBytes 4 r.ipc.toCbor.encode.length ++ r.ipc.toCbor.encode

/-- The value stands for the item that the daemon expects. -/
theorem lisp_ipc {r : Request} (h : r.Known) : lisp r.ipc.toCbor = some r.request := by
  cases r with
  | hello version => rfl
  | eval id source isolated =>
    have hid : (UInt64.ofNat id).toNat = id := UInt64.toNat_ofNat_of_lt' h
    have hlisp : lisp (Ipc.Request.toCbor (.eval (.ofNat id) source isolated)) =
        some (request (.eval (UInt64.ofNat id).toNat source isolated)) := rfl
    rw [ipc, hlisp, hid]
  | ping | stop | reset | dumpEnv => cases h

/-- A request is sent unless it is too large. -/
theorem send_eq {r : Request} (h : r.Known) :
    r.send = if r.Fits then .ok r.bytes
      else .error (Filter.tooLarge r.ipc.toCbor.encode.length) := by
  rw [send, encode_lisp _ (lisp_ipc h), ok_bind, Filter.frame_eq]
  by_cases hlen : r.Fits
  · rw [if_pos hlen, if_neg (Nat.not_lt.2 hlen)]
    rfl
  · rw [if_neg hlen, if_pos (Nat.not_le.1 hlen)]

/-- What is sent is what `write_frame` writes. -/
theorem writeFrame_ipc {r : Request} (h : r.Fits) :
    Ipc.writeFrame Ipc.Request.codec r.ipc = .ok r.bytes := by
  have hlen : r.ipc.toCbor.encode.length < 2 ^ 32 := Nat.lt_of_le_of_lt h (by decide)
  exact Ipc.writeFrame_of_encode (if_pos (by omega)) hlen

theorem writeFrames_ipc {rs : List Request} (h : ∀ r ∈ rs, r.Fits) :
    Ipc.writeFrames Ipc.Request.codec (rs.map ipc) = .ok (rs.map bytes).flatten := by
  induction rs with
  | nil => rfl
  | cons r rs ih =>
    obtain ⟨hr, hrs⟩ := List.forall_mem_cons.1 h
    rw [List.map_cons, Ipc.writeFrames, writeFrame_ipc hr, ih hrs]
    rfl

theorem readable_ipc {r : Request} (h : r.Fits) : Ipc.Readable Ipc.Request.codec r.ipc := by
  intro buf hbuf
  obtain ⟨-, hbuf⟩ := Option.ite_none_right_eq_some.1 hbuf
  exact Option.some.inj hbuf ▸ h

/-- The requests that the daemon reads from the frames of some requests. -/
theorem readFrames_bytes {rs : List Request} (h : ∀ r ∈ rs, r.Fits) :
    Ipc.readFrames Ipc.Request.codec (rs.map bytes).flatten = (rs.map ipc, .ok ()) := by
  refine (Ipc.readFrames_writeFrames_iff _ (writeFrames_ipc h)).2 ?_
  rw [List.forall_mem_map]
  exact fun r hr => readable_ipc (h r hr)

/-- Requests are sent if all of them fit. -/
theorem mapM_send {rs : List Request} (h : ∀ r ∈ rs, r.Known) {frames : List (List UInt8)} :
    rs.mapM send = .ok frames ↔ (∀ r ∈ rs, r.Fits) ∧ rs.map bytes = frames := by
  induction rs generalizing frames with
  | nil => simp [pure, Except.pure]
  | cons r rs ih =>
    obtain ⟨hr, hrs⟩ := List.forall_mem_cons.1 h
    rw [List.mapM_cons, send_eq hr, List.forall_mem_cons]
    by_cases hfits : r.Fits
    · rcases hmap : rs.mapM send with e | fs
      · have hno : ¬∀ r ∈ rs, r.Fits := fun hall => by
          cases hmap.symm.trans ((ih hrs).2 ⟨hall, rfl⟩)
        simp [hfits, hno]
      · obtain ⟨hall, rfl⟩ := (ih hrs).1 hmap
        rw [if_pos hfits]
        exact ⟨fun h => ⟨⟨hfits, hall⟩, Except.ok.inj h⟩, fun h => congrArg Except.ok h.2⟩
    · rw [if_neg hfits]
      exact iff_of_false (by rintro ⟨⟩) fun h => hfits h.1.1

/-- The handshakes and the evaluations of the frontend are sent if each of them is within
    the limit of a frame, and then as `write_frame` would write them. From what has arrived
    of them the daemon reads the first few, and all of them once all has arrived. -/
theorem requests_read {rs : List Request} (h : ∀ r ∈ rs, r.Known) :
    ((∃ frames, rs.mapM send = .ok frames) ↔ ∀ r ∈ rs, r.Fits) ∧
      ∀ frames, rs.mapM send = .ok frames →
        Ipc.writeFrames Ipc.Request.codec (rs.map ipc) = .ok frames.flatten ∧
          ∀ stream, stream <+: frames.flatten →
            (Ipc.readFrames Ipc.Request.codec stream).1 <+: rs.map ipc ∧
              (stream = frames.flatten →
                Ipc.readFrames Ipc.Request.codec stream = (rs.map ipc, .ok ())) := by
  refine ⟨⟨?_, fun hfits => ⟨_, (mapM_send h).2 ⟨hfits, rfl⟩⟩⟩, fun frames hframes => ?_⟩
  · rintro ⟨frames, hframes⟩
    exact ((mapM_send h).1 hframes).1
  obtain ⟨hfits, rfl⟩ := (mapM_send h).1 hframes
  have hwrite := writeFrames_ipc hfits
  have hread : ∀ m ∈ rs.map ipc, Ipc.Readable Ipc.Request.codec m := by
    rw [List.forall_mem_map]
    exact fun r hr => readable_ipc (hfits r hr)
  refine ⟨hwrite, fun stream hp => ⟨Ipc.readFrames_of_prefix hwrite hread hp, ?_⟩⟩
  rintro rfl
  exact readFrames_bytes hfits

/-- A handshake and an evaluation. -/
theorem requests_read_hello :
    ∃ frames, [hello "0.2.0", eval 1 "(display 1)" false].mapM send = .ok frames ∧
      Ipc.readFrames Ipc.Request.codec frames.flatten =
        ([.hello "0.2.0", .eval 1 "(display 1)" false], .ok ()) := by
  have hknown : ∀ r ∈ [hello "0.2.0", eval 1 "(display 1)" false], r.Known := by
    simp [Known]
  obtain ⟨hsent, hread⟩ := requests_read hknown
  obtain ⟨frames, hframes⟩ := hsent.2 (by decide +kernel)
  exact ⟨frames, hframes, ((hread frames hframes).2 _ List.prefix_rfl).2 rfl⟩

end Request

end Zscheme.Emacs
