import Tuniq.Coordinator.Ledger
import Tuniq.Library.Codec
import Tuniq.Rust.Strings

/-!
# The data of an instruction

An instruction reaches the coordinator as bytes.  Anchor tells the instructions apart
by their first eight bytes, the discriminator, and reads the arguments of the handler
behind it in Borsh: arrays and integers of one byte as they are, one after the
other.  Bytes behind the last argument are not looked at.

The arguments of `verify_predicate` take 325 bytes (`hasWidth_verifyPredicateCodec`).
-/

namespace Tuniq
namespace Coordinator

variable (sha256 : List UInt8 → Bytes32)

/-- The discriminator of an instruction, `hash("global:{name}")[..8]`. -/
def discriminator (name : Str) : Vector UInt8 8 :=
  Vector.ofFn fun i => (sha256 (asBytes ("global:".toList ++ name)))[i.val]

/-- What Anchor makes of the data of an instruction with arguments in `codec`. -/
def decodeInstruction {α : Type} (name : Str) (codec : Codec UInt8 α) (data : List UInt8) :
    Option α :=
  if data.take 8 = (discriminator sha256 name).toList then
    (codec.read (data.drop 8)).map Prod.fst
  else none

variable {sha256}

/-- Arguments that were written behind the discriminator are read back. -/
theorem decodeInstruction_write {α : Type} (name : Str) (codec : Codec UInt8 α) (x : α)
    (rest : List UInt8) :
    decodeInstruction sha256 name codec
      ((discriminator sha256 name).toList ++ (codec.write x ++ rest)) = some x := by
  have htake : ((discriminator sha256 name).toList ++ (codec.write x ++ rest)).take 8 =
      (discriminator sha256 name).toList := List.take_left' (by simp)
  have hdrop : ((discriminator sha256 name).toList ++ (codec.write x ++ rest)).drop 8 =
      codec.write x ++ rest := List.drop_left' (by simp)
  rw [decodeInstruction, if_pos htake, hdrop, codec.read_write]
  rfl

/-- **Data that ends before the last argument does is not decoded.** -/
theorem decodeInstruction_eq_none {α : Type} {codec : Codec UInt8 α} {n : ℕ}
    (hcodec : codec.HasWidth n) (name : Str) {data : List UInt8} (hlen : data.length < 8 + n) :
    decodeInstruction sha256 name codec data = none := by
  rw [decodeInstruction]
  split
  · next hdisc =>
    have hlong := congrArg List.length hdisc
    rw [List.length_take, Vector.length_toList] at hlong
    rw [hcodec.read_eq_none (by rw [List.length_drop]; omega)]
    rfl
  · rfl

/-! ## The arguments -/

/-- The arguments of `verify_predicate`. -/
structure VerifyPredicateData where
  proofSeal : Seal
  journalDigest : Bytes32
  nullifierIndex : UInt8
  claimedNullifier : Bytes32
  deriving DecidableEq

/-- Borsh of a `Seal`. -/
def sealCodec : Codec UInt8 Seal :=
  ((Codec.vector UInt8 4).pair ((Codec.vector UInt8 64).pair
    ((Codec.vector UInt8 128).pair (Codec.vector UInt8 64)))).via
    (fun s => (s.selector, s.piA, s.piB, s.piC))
    (fun p => some ⟨p.1, p.2.1, p.2.2.1, p.2.2.2⟩) fun _ => rfl

/-- Borsh of the arguments of `verify_predicate`. -/
def verifyPredicateCodec : Codec UInt8 VerifyPredicateData :=
  (sealCodec.pair ((Codec.vector UInt8 32).pair
    ((Codec.word UInt8).pair (Codec.vector UInt8 32)))).via
    (fun d => (d.proofSeal, d.journalDigest, d.nullifierIndex, d.claimedNullifier))
    (fun p => some ⟨p.1, p.2.1, p.2.2.1, p.2.2.2⟩) fun _ => rfl

theorem write_sealCodec (s : Seal) :
    sealCodec.write s =
      s.selector.toList ++ (s.piA.toList ++ (s.piB.toList ++ s.piC.toList)) := rfl

theorem hasWidth_sealCodec : sealCodec.HasWidth 260 :=
  ((Codec.hasWidth_vector 4).pair ((Codec.hasWidth_vector 64).pair
    ((Codec.hasWidth_vector 128).pair (Codec.hasWidth_vector 64)))).via _

theorem hasWidth_verifyPredicateCodec : verifyPredicateCodec.HasWidth 325 :=
  (hasWidth_sealCodec.pair ((Codec.hasWidth_vector 32).pair
    (Codec.hasWidth_word.pair (Codec.hasWidth_vector 32)))).via _

variable (sha256)

/-- The arguments of `verify_predicate` in the data of an instruction. -/
def decodeVerifyPredicate (data : List UInt8) : Option VerifyPredicateData :=
  decodeInstruction sha256 "verify_predicate".toList verifyPredicateCodec data

/-- The image id in the data of an `initialize` instruction. -/
def decodeInitialize (data : List UInt8) : Option Bytes32 :=
  decodeInstruction sha256 "initialize".toList (Codec.vector UInt8 32) data

end Coordinator
end Tuniq
