import Mathlib.Data.List.Basic

/-!
# Reading a stream in chunks

A reader takes items off the front of a buffer as long as there is a complete one
(`drain`), and keeps what is left until more of the stream arrives (`feed`). What it does
in a turn is not changed by what arrives later (`Reader.turn_append`).

* `drain_append`, `drain_append_of_fail`: draining part of a stream first;
* `feed_of_drain`: a stream that is drained without a failure gives the same items however
  it is cut into chunks;
* `feed_items`: in particular, items written one after the other are all taken;
* `drain_prefix`: those that are complete in a prefix of the stream are.
-/

namespace Zscheme

variable {α β ε ι : Type*}

/-- What a reader does with a buffer. -/
inductive Turn (α β ε : Type*)
  /-- No item is complete. -/
  | wait
  /-- An item is taken, and the rest is left. -/
  | take (item : β) (rest : List α)
  /-- The reader fails, and the rest is left. -/
  | fail (e : ε) (rest : List α)

/-- The same, with more in the buffer. -/
def Turn.append (more : List α) : Turn α β ε → Turn α β ε
  | wait => wait
  | take item rest => take item (rest ++ more)
  | fail e rest => fail e (rest ++ more)

/-- A reader of items. -/
structure Reader (α β ε : Type*) where
  turn : List α → Turn α β ε
  length_lt : ∀ {buffer item rest}, turn buffer = .take item rest → rest.length < buffer.length
  turn_append : ∀ {buffer} more, turn buffer ≠ .wait →
    turn (buffer ++ more) = (turn buffer).append more

/-- The part of the stream that is left to read, and the items taken, newest first. -/
structure Inbox (α β : Type*) where
  buffer : List α
  items : List β
  deriving DecidableEq

namespace Reader

variable (r : Reader α β ε)

/-- Takes items until none is complete, or until a failure. -/
def drain (s : Inbox α β) : Inbox α β × Option ε :=
  match h : r.turn s.buffer with
  | .wait => (s, none)
  | .take item rest =>
    have := r.length_lt h
    drain ⟨rest, item :: s.items⟩
  | .fail e rest => (⟨rest, s.items⟩, some e)
termination_by s.buffer.length

/-- A chunk arrives. -/
def receive (s : Inbox α β) (chunk : List α) : Inbox α β × Option ε :=
  r.drain { s with buffer := s.buffer ++ chunk }

/-- Chunks arrive one by one: what there is in the end, and the failures on the way. -/
def feed : Inbox α β → List (List α) → Inbox α β × List ε
  | s, [] => (s, [])
  | s, chunk :: chunks =>
    let (s, e) := r.receive s chunk
    let (s, es) := feed s chunks
    (s, e.toList ++ es)

variable {r}

section Drain

variable {buffer rest : List α} {items : List β}

theorem drain_of_wait (h : r.turn buffer = .wait) :
    r.drain ⟨buffer, items⟩ = (⟨buffer, items⟩, none) := by
  rw [drain]
  split <;> simp_all

theorem drain_of_take {item : β} (h : r.turn buffer = .take item rest) :
    r.drain ⟨buffer, items⟩ = r.drain ⟨rest, item :: items⟩ := by
  rw [drain]
  split <;> simp_all

theorem drain_of_fail {e : ε} (h : r.turn buffer = .fail e rest) :
    r.drain ⟨buffer, items⟩ = (⟨rest, items⟩, some e) := by
  rw [drain]
  split <;> simp_all

/-- An item is taken whatever follows it. -/
theorem turn_append_of_take {item : β} (h : r.turn buffer = .take item rest) (more : List α) :
    r.turn (buffer ++ more) = .take item (rest ++ more) := by
  rw [r.turn_append more (by simp [h]), h]
  rfl

theorem turn_append_of_fail {e : ε} (h : r.turn buffer = .fail e rest) (more : List α) :
    r.turn (buffer ++ more) = .fail e (rest ++ more) := by
  rw [r.turn_append more (by simp [h]), h]
  rfl

/-- Nothing complete is left. -/
theorem turn_of_drain {s s' : Inbox α β} (h : r.drain s = (s', none)) :
    r.turn s'.buffer = .wait := by
  fun_induction r.drain s with
  | case1 s hturn =>
    cases h
    exact hturn
  | case2 s item rest hturn hlt ih => exact ih h
  | case3 s e rest hturn => cases h

/-- A stream can be drained up to some point first. -/
theorem drain_append {s s' : Inbox α β} (h : r.drain s = (s', none)) (more : List α) :
    r.drain ⟨s.buffer ++ more, s.items⟩ = r.drain ⟨s'.buffer ++ more, s'.items⟩ := by
  fun_induction r.drain s with
  | case1 s hturn =>
    cases h
    rfl
  | case2 s item rest hturn hlt ih =>
    rw [drain_of_take (turn_append_of_take hturn more), ← ih h]
  | case3 s e rest hturn => cases h

/-- A failure is one whatever follows. -/
theorem drain_append_of_fail {s s' : Inbox α β} {e : ε} (h : r.drain s = (s', some e))
    (more : List α) :
    r.drain ⟨s.buffer ++ more, s.items⟩ = (⟨s'.buffer ++ more, s'.items⟩, some e) := by
  fun_induction r.drain s with
  | case1 s hturn => cases h
  | case2 s item rest hturn hlt ih =>
    rw [drain_of_take (turn_append_of_take hturn more), ← ih h]
  | case3 s e' rest hturn =>
    cases h
    exact drain_of_fail (turn_append_of_fail hturn more)

end Drain

/-- A stream that is drained without a failure is read alike however it is cut. -/
theorem feed_of_drain {s s' : Inbox α β} {chunks : List (List α)} (hwait : r.turn s.buffer = .wait)
    (h : r.drain ⟨s.buffer ++ chunks.flatten, s.items⟩ = (s', none)) :
    r.feed s chunks = (s', []) := by
  induction chunks generalizing s with
  | nil =>
    rw [List.flatten_nil, List.append_nil, drain_of_wait hwait] at h
    cases h
    rfl
  | cons chunk chunks ih =>
    rw [List.flatten_cons, ← List.append_assoc] at h
    rcases hchunk : r.drain ⟨s.buffer ++ chunk, s.items⟩ with ⟨s₁, _ | e⟩
    · rw [drain_append hchunk chunks.flatten] at h
      rw [feed, receive, hchunk]
      simp only [ih (turn_of_drain hchunk) h]
      rfl
    · rw [drain_append_of_fail hchunk chunks.flatten] at h
      cases h

/-- Items that are written one after the other are taken in turn. -/
theorem drain_items {bytes : ι → List α} {item : ι → β} {is : List ι} (hempty : r.turn [] = .wait)
    (h : ∀ i ∈ is, r.turn (bytes i) = .take (item i) []) (items : List β) :
    r.drain ⟨(is.map bytes).flatten, items⟩ = (⟨[], (is.map item).reverse ++ items⟩, none) := by
  induction is generalizing items with
  | nil => exact drain_of_wait hempty
  | cons i is ih =>
    obtain ⟨hi, his⟩ := List.forall_mem_cons.1 h
    rw [List.map_cons, List.flatten_cons, drain_of_take (turn_append_of_take hi _),
      List.nil_append, ih his]
    simp

/-- Of items that are written one after the other, those that are complete in a prefix are
    taken, and the reader waits for the next. -/
theorem drain_prefix {bytes : ι → List α} {item : ι → β} {is : List ι} (hempty : r.turn [] = .wait)
    (h : ∀ i ∈ is, r.turn (bytes i) = .take (item i) []) {stream : List α}
    (hp : stream <+: (is.map bytes).flatten) (items : List β) :
    ∃ done rest buffer, is = done ++ rest ∧ stream = (done.map bytes).flatten ++ buffer ∧
      r.turn buffer = .wait ∧
      r.drain ⟨stream, items⟩ = (⟨buffer, (done.map item).reverse ++ items⟩, none) := by
  induction is generalizing stream items with
  | nil =>
    obtain rfl := List.prefix_nil.1 hp
    exact ⟨[], [], [], rfl, rfl, hempty, drain_of_wait hempty⟩
  | cons i is ih =>
    obtain ⟨hi, his⟩ := List.forall_mem_cons.1 h
    rw [List.map_cons, List.flatten_cons] at hp
    rcases Nat.lt_or_ge stream.length (bytes i).length with hlt | hle
    · obtain ⟨more, hmore⟩ :=
        List.prefix_of_prefix_length_le hp (List.prefix_append _ _) (Nat.le_of_lt hlt)
      -- what the reader did with a part of an item it would do with all of it
      have hwait : r.turn stream = .wait := by
        by_contra hne
        have happ := r.turn_append more hne
        rw [hmore, hi] at happ
        cases hturn : r.turn stream with
        | wait => exact hne hturn
        | take x rest =>
          rw [hturn] at happ
          obtain ⟨-, hrest⟩ := Turn.take.inj happ
          rw [← hmore, (List.append_eq_nil_iff.1 hrest.symm).2, List.append_nil] at hlt
          exact Nat.lt_irrefl _ hlt
        | fail e rest =>
          rw [hturn] at happ
          cases happ
      exact ⟨[], i :: is, stream, rfl, rfl, hwait, drain_of_wait hwait⟩
    · obtain ⟨tail, rfl⟩ := List.prefix_of_prefix_length_le (List.prefix_append _ _) hp hle
      obtain ⟨done, rest, buffer, rfl, rfl, hwait, hdrain⟩ :=
        ih his ((List.prefix_append_right_inj _).1 hp) (item i :: items)
      refine ⟨i :: done, rest, buffer, rfl, by simp, hwait, ?_⟩
      rw [drain_of_take (turn_append_of_take hi _), List.nil_append, hdrain]
      simp

/-- Items that are written one after the other are all taken, once each, however the
    stream of them is cut. -/
theorem feed_items {bytes : ι → List α} {item : ι → β} {is : List ι} (hempty : r.turn [] = .wait)
    (h : ∀ i ∈ is, r.turn (bytes i) = .take (item i) []) {chunks : List (List α)}
    (hcut : chunks.flatten = (is.map bytes).flatten) (items : List β) :
    r.feed ⟨[], items⟩ chunks = (⟨[], (is.map item).reverse ++ items⟩, []) :=
  feed_of_drain hempty (by simpa only [List.nil_append, hcut] using drain_items hempty h items)

end Reader

end Zscheme
