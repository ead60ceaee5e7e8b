import Tuniq.Client.Instructions
import Tuniq.Prover.ImageIdText

/-!
# The image id from the prover to the coordinator

An image id is eight words for the prover, 64 hexadecimal digits in its answer, and 32
bytes in the configuration of the coordinator, the little-endian bytes of every word.
The client is in between: it parses the digits and puts the bytes into the data of
`initialize`, and Anchor takes them out again.

`imageId_forms` says that nothing is lost on the way, for every image id.
-/

namespace Tuniq
namespace Client

open Coordinator
open Prover (ImageId IsHex64 imageIdToHex)

/-- The client sends `initialize` for the image id of a response: what is left of it is
the ledger behind the instruction. -/
def submitInitialize (sha256 : List UInt8 → Bytes32) (imageIdHex : Str) (payer : Pubkey)
    (s : Ledger) : Option Ledger := do
  let imageId ← (parseImageId imageIdHex).toOption
  let arg ← decodeInitialize sha256 (initializeData sha256 imageId payer)
  (initializeCoordinator payer arg s).toOption

variable {sha256 : List UInt8 → Bytes32}

/-- The image id in the data of `initialize` is decoded; the key behind it is not looked
at. -/
theorem decode_initializeData (imageId : Bytes32) (payer : Pubkey) :
    decodeInitialize sha256 (initializeData sha256 imageId payer) = some imageId :=
  decodeInstruction_write "initialize".toList (Codec.vector UInt8 32) imageId payer.toList

/-- What `initialize` leaves behind. -/
theorem submitInitialize_of_parse {hex : Str} {imageId : Bytes32} {payer : Pubkey} {s : Ledger}
    (hparse : parseImageId hex = .ok imageId) (hs : s.config = none) :
    submitInitialize sha256 hex payer s =
      some { s with
        config := some { imageId := imageId, authority := payer, verifiedCount := 0 } } := by
  rw [submitInitialize, hparse]
  show (decodeInitialize sha256 (initializeData sha256 imageId payer)).bind
    (fun arg => (initializeCoordinator payer arg s).toOption) = _
  rw [decode_initializeData, Option.bind_some, initializeCoordinator, hs]
  rfl

/-- **The forms of an image id.**  The prover reads back what it wrote.  The client makes
the little-endian bytes of the words of it, whatever white space is around the text, and
these are the bytes the coordinator keeps; they determine the image id.  A text of 64
digits is written again as it was, in lower case. -/
theorem imageId_forms (id : ImageId) :
    Prover.parseImageId (imageIdToHex id) = .ok id ∧
      (∀ front back : Str, (∀ c ∈ front, isWhitespace c = true) →
        (∀ c ∈ back, isWhitespace c = true) →
        parseImageId (front ++ imageIdToHex id ++ back) = .ok (leBytes id) ∧
          ∀ (sha256 : List UInt8 → Bytes32) (payer : Pubkey) (s : Ledger), s.config = none →
            submitInitialize sha256 (front ++ imageIdToHex id ++ back) payer s =
              some { s with
                config := some
                  { imageId := leBytes id, authority := payer, verifiedCount := 0 } }) ∧
      (∀ id' : ImageId, leBytes id' = leBytes id → id' = id) ∧
      (∀ text : Str, IsHex64 text →
        ∃ id', Prover.parseImageId text = .ok id' ∧ imageIdToHex id' = text.map Char.toLower) := by
  refine ⟨?_, fun front back hfront hback => ?_, fun id' h => leBytes_injective h,
    fun text htext => Prover.imageIdToHex_of_isHex64 htext⟩
  · have h : Prover.parseImageId ([] ++ imageIdToHex id ++ []) = .ok id :=
      Prover.parseImageId_imageIdToHex id (by simp) (by simp)
    rwa [List.nil_append, List.append_nil] at h
  · have hparse := parseImageId_of_prover (Prover.parseImageId_imageIdToHex id hfront hback)
    exact ⟨hparse, fun sha256 payer s hs => submitInitialize_of_parse hparse hs⟩

/-- An image id whose words are numbered. -/
def numberedId : ImageId := #v[1, 2, 3, 4, 5, 6, 7, 8]

/-- The text of an image id with a line break behind it, and a text in upper case. -/
theorem imageId_forms_numbered :
    (parseImageId ([] ++ imageIdToHex numberedId ++ ['\n']) = .ok (leBytes numberedId) ∧
      submitInitialize (fun _ => Vector.replicate 32 0) ([] ++ imageIdToHex numberedId ++ ['\n'])
          (Vector.replicate 32 9) Ledger.deployed =
        some { Ledger.deployed with
          config := some { imageId := leBytes numberedId, authority := Vector.replicate 32 9,
                           verifiedCount := 0 } }) ∧
      (∃ id', Prover.parseImageId (List.replicate 64 'A') = .ok id' ∧
        imageIdToHex id' = (List.replicate 64 'A').map Char.toLower) := by
  obtain ⟨-, hstored, -, hlower⟩ := imageId_forms numberedId
  have h := hstored [] ['\n'] (by simp) (List.forall_mem_singleton.mpr (by decide))
  have hupper : IsHex64 (List.replicate 64 'A') := by
    refine ⟨by rw [List.length_replicate], fun c hc => ?_⟩
    rw [List.eq_of_mem_replicate hc]
    decide
  exact ⟨⟨h.1, h.2 _ _ _ rfl⟩, hlower _ hupper⟩

end Client
end Tuniq
