import Tuniq.Library.Lockstep
import Tuniq.Prover.ImageId

/-!
# The image id as the client passes it on

The coordinator keeps an image id as 32 bytes, the little-endian bytes of every
word.  The client has its own `parse_image_id`: it cuts the same eight slices out of
the text, parses each of them and writes the bytes of the word down.  It makes no
check of its own, and unwraps where the prover returns an error.

`parseImageId_of_prover` ties the two together: what the prover accepts, the client
turns into the bytes of the prover's words.  The two loops run in lockstep.
`leBytes_injective` says that the bytes determine the words.
-/

namespace Tuniq
namespace Client

open Prover (ImageId)

/-! ## The function -/

/-- The body of the closure: the bytes of word `i`. -/
def wordBytes (hex : Str) (i : ℕ) : Except Fault (List UInt8) := do
  let chunk ← strSlice hex (i * 8) ((i + 1) * 8)
  let w ← unwrap (u32FromStrRadix16 chunk)
  return toLe 4 w.toNat

/-- `parse_image_id` of the client. -/
def parseImageId (s : Str) : Except Fault (Vector UInt8 32) := do
  let hex := trim s
  let bytes ← forUpTo (fun i bytes => do return bytes ++ (← wordBytes hex i)) 8 []
  tryIntoArray 32 bytes

/-! ## The bytes of the words -/

/-- The little-endian bytes of the first `k` words, in order. -/
def leWords (k : ℕ) (id : ImageId) : List UInt8 :=
  ((id.toList.take k).map fun w => toLe 4 w.toNat).flatten

theorem length_of_mem_words {ws : List UInt32} :
    ∀ bs ∈ ws.map fun w => toLe 4 w.toNat, bs.length = 4 := by
  intro bs hbs
  obtain ⟨w, -, rfl⟩ := List.mem_map.mp hbs
  exact length_toLe 4 w.toNat

theorem length_leWords (id : ImageId) : (leWords 8 id).length = 32 := by
  have hmap : ((id.toList.take 8).map fun w => toLe 4 w.toNat).map List.length =
      List.replicate 8 4 := by
    rw [List.eq_replicate_iff]
    refine ⟨by simp, fun n hn => ?_⟩
    obtain ⟨bs, hbs, rfl⟩ := List.mem_map.mp hn
    exact length_of_mem_words bs hbs
  rw [leWords, List.length_flatten, hmap]
  rfl

/-- The bytes of an image id as the coordinator keeps them. -/
def leBytes (id : ImageId) : Vector UInt8 32 := ⟨(leWords 8 id).toArray, length_leWords id⟩

theorem leWords_succ {k : ℕ} (hk : k < 8) (id : ImageId) (w : UInt32) :
    leWords (k + 1) (id.setIfInBounds k w) = leWords k id ++ toLe 4 w.toNat := by
  have hlen : k < (id.setIfInBounds k w).toList.length := by
    rw [Vector.length_toList]
    exact hk
  have htake : (id.setIfInBounds k w).toList.take k = id.toList.take k := by
    rw [Vector.toList_setIfInBounds, List.take_set_of_le le_rfl]
  rw [leWords, List.take_succ_eq_append_getElem hlen, htake, List.map_append,
    List.flatten_append, Vector.getElem_toList, Vector.getElem_setIfInBounds_self, leWords]
  simp

/-- **The bytes determine the words.** -/
theorem leBytes_injective {id id' : ImageId} (h : leBytes id = leBytes id') : id = id' := by
  have hwords : leWords 8 id = leWords 8 id' :=
    congrArg (fun v : Vector UInt8 32 => v.toList) h
  ext i hi : 1
  have hget : ∀ (id : ImageId), ((id.toList.take 8).map fun w => toLe 4 w.toNat)[i]? =
      some (toLe 4 id[i].toNat) := by
    intro id
    rw [List.getElem?_map, List.getElem?_take_of_lt hi, Vector.getElem?_toList,
      Vector.getElem?_eq_getElem hi, Option.map_some]
  have hword := window_flatten length_of_mem_words (hget id)
  rw [← leWords, hwords, leWords, window_flatten length_of_mem_words (hget id')] at hword
  have hlt : ∀ w : UInt32, w.toNat < 256 ^ 4 := fun w => lt_of_lt_of_eq w.toNat_lt (by decide)
  have hnat := congrArg ofLe hword
  rw [ofLe_toLe_of_lt (hlt _), ofLe_toLe_of_lt (hlt _)] at hnat
  exact (UInt32.toNat_inj.mp hnat).symm

/-! ## The two loops in lockstep -/

/-- **One round of the prover's loop and of the client's.** -/
theorem round_related (hex : Str) {i : ℕ} (hi : i < 8) {id : ImageId} {bytes : List UInt8}
    (h : bytes = leWords i id) :
    Related (fun id bytes => bytes = leWords (i + 1) id) (fun _ _ => True)
      (Prover.parseWord hex i id) (do return bytes ++ (← wordBytes hex i) : Except Fault _) := by
  rw [Prover.parseWord, wordBytes]
  cases strSlice hex (i * 8) ((i + 1) * 8) with
  | error f => exact .error trivial
  | ok chunk =>
    simp only [liftFault_ok, ok_bind]
    cases u32FromStrRadix16 chunk with
    | error e => exact .error trivial
    | ok w =>
      refine .ok ?_
      rw [h, leWords_succ hi]

/-- **What the prover accepts, the client turns into the bytes of the words.** -/
theorem parseImageId_of_prover {s : Str} {id : ImageId} (h : Prover.parseImageId s = .ok id) :
    parseImageId s = .ok (leBytes id) := by
  have hloops := forUpTo_related_at (R := fun i id bytes => bytes = leWords i id)
    (n := 8) (s := Vector.replicate 8 0) (u := [])
    (by rw [leWords, List.take_zero]; rfl)
    fun i hi id bytes hR => round_related (trim s) hi hR
  rw [Prover.parseImageId] at h
  split at h
  · cases h
  · obtain ⟨bytes, hbytes, hR⟩ := hloops.exists_ok h
    rw [parseImageId]
    refine bind_eq_ok.mpr ⟨bytes, hbytes, ?_⟩
    rw [hR, tryIntoArray_of_length (length_leWords id)]
    rfl

end Client
end Tuniq
