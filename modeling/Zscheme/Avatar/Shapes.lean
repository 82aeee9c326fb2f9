import Zscheme.Avatar.Room
import Zscheme.Shuffle

/-!
# The two shapes of children

A room publishes its children as an ordered list, or as a map keyed by actor. Readers see
the same pools in both, up to their order (`SameRoom.entries`), and whatever else they read
of the room is the same.
-/

namespace Zscheme

namespace Avatar

open Prim Zscheme.Runtime

/-! ## Children -/

/-- A child of a room: a ctx that names an actor. -/
structure Child where
  /-- The ctx it is published with. -/
  ctx : Ctx
  /-- Its `entry-actor`. -/
  actor : String
  /-- The ctx names the actor. -/
  ctx_actor : ctxActor ctx = .str actor

/-- The children of a room, no two of the same actor. -/
structure Children where
  /-- The children, in the order of the room. -/
  all : List Child
  /-- Their actors are distinct. -/
  nodup : (all.map Child.actor).Nodup

namespace Children

/-- The children as an ordered list. -/
def listed (cs : Children) : SchemeVal := .list (cs.all.map fun c => .map c.ctx)

/-- The ctxs of the children by their actors. -/
def byActor (cs : Children) : Dict String Ctx := .ofPairs (cs.all.map fun c => (c.actor, c.ctx))

/-- The children as a map keyed by actor. -/
def keyed (cs : Children) : SchemeVal := .map (cs.byActor.map fun p => (p.1, .map p.2))

/-- Both shapes list the same entries. -/
theorem shuffled (cs : Children) :
    Shuffled (eventListValues cs.listed) (eventListValues cs.keyed) := by
  have hperm : (cs.all.map Child.ctx).Perm (cs.byActor.map Prod.snd) := by
    have hkeys : ((cs.all.map fun c => (c.actor, c.ctx)).map Prod.fst).Nodup := by
      rw [List.map_map]
      exact cs.nodup
    refine (List.Perm.of_eq ?_).trans ((Dict.ofPairs_perm hkeys).map Prod.snd).symm
    rw [List.map_map]
    rfl
  have hactors : ((cs.all.map Child.ctx).map ctxActor).Nodup := by
    have heq : (cs.all.map Child.ctx).map ctxActor = (cs.all.map Child.actor).map .str := by
      rw [List.map_map, List.map_map]
      exact List.map_congr_left fun c _ => c.ctx_actor
    rw [heq]
    exact cs.nodup.map fun _ _ => SchemeVal.str.inj
  have htexts : ∀ ctx ∈ cs.all.map Child.ctx, (ctxActor ctx).string? = true := by
    simp only [List.forall_mem_map]
    exact fun c _ => SchemeVal.string?_iff.2 ⟨_, c.ctx_actor⟩
  have h := Shuffled.mk [] [] hperm hactors htexts
  simp only [List.nil_append, List.append_nil, List.map_map] at h
  simp only [listed, keyed, eventListValues, List.map_map]
  exact h

end Children

/-! ## Rooms -/

/-- Two snapshots that are equal, or publish the same children, the first as a list and the
    second as a map. -/
inductive SameRoom (r : Ctx) : Ctx → Prop
  | refl : SameRoom r r
  | shapes (cs : Children) (h : r.get? "children" = some cs.listed) :
      SameRoom r (r.insert "children" cs.keyed)

/-- The pools of a room. -/
inductive RoomPool
  | children | persons | occupants | things | triggers | exits

/-- What is in a pool. -/
def RoomPool.entries [Evaluator] : RoomPool → Ctx → Except String (List SchemeVal)
  | children, r => .ok (roomChildPool r)
  | persons, r => personPool r
  | occupants, r => occupantPool r
  | things, r => thingPool r
  | triggers, r => triggerPool r
  | exits, r => exitPool r

namespace SameRoom

variable {r r' : Ctx}

/-- Only the children are published otherwise. -/
theorem get? (h : SameRoom r r') {key : String} (hkey : key ≠ "children") :
    r.get? key = r'.get? key := by
  cases h with
  | refl => rfl
  | shapes cs _ => rw [Dict.get?_insert, if_neg hkey]

theorem roomChildPool (h : SameRoom r r') : Shuffled (roomChildPool r) (roomChildPool r') := by
  cases h with
  | refl => exact refl_of Shuffled _
  | shapes cs h =>
    rw [Avatar.roomChildPool, Avatar.roomChildPool, h, Dict.get?_insert_self]
    exact cs.shuffled

variable [Evaluator]

theorem roomChildKindsPool (h : SameRoom r r') (kinds : List String) :
    Agree Eq Shuffled (roomChildKindsPool r kinds) (roomChildKindsPool r' kinds) :=
  h.roomChildPool.filterM (.inl ⟨_, fun _ => rfl⟩)

theorem exitPool (h : SameRoom r r') : exitPool r = exitPool r' := by
  have hexits : roomExits r = roomExits r' := by
    rw [roomExits, roomExits, h.get? (by decide)]
  rw [Avatar.exitPool, Avatar.exitPool, hexits]

/-- Each pool has the same entries. -/
theorem entries (h : SameRoom r r') (pool : RoomPool) :
    Agree Eq Shuffled (pool.entries r) (pool.entries r') := by
  cases pool with
  | children => exact .ok h.roomChildPool
  | exits =>
    rw [RoomPool.entries, RoomPool.entries, h.exitPool]
    exact agree_self _
  | persons | occupants | things | triggers => exact h.roomChildKindsPool _

end SameRoom

end Avatar

end Zscheme
