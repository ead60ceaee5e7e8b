import Tuniq.Prover.ImageId

/-!
# The text of an image id

`image_id_to_hex` writes every word as eight digits in lower case, zeros in front
included, one word after the other.

* `parseImageId_imageIdToHex`: `parse_image_id` reads the words back, also with
  white space around the text.
* `imageIdToHex_of_isHex64`: a string of 64 hexadecimal digits is written again as
  it was, up to the case of its letters.
-/

namespace Tuniq
namespace Prover

theorem imageIdToHex_eq (id : ImageId) :
    imageIdToHex id = (id.toList.map lowerHex08).flatten := by
  rw [imageIdToHex, List.flatMap_def]

theorem numbers_lowerHex08 (id : ImageId) : Numbers (id.toList.map lowerHex08) := by
  intro c hc
  obtain ⟨w, -, rfl⟩ := List.mem_map.mp hc
  exact ⟨length_lowerHex08 w, Or.inl (allHex_lowerHex08 w)⟩

theorem allHex_imageIdToHex (id : ImageId) : AllHex (imageIdToHex id) := by
  rw [imageIdToHex_eq]
  refine AllHex.flatten fun c hc => ?_
  obtain ⟨w, -, rfl⟩ := List.mem_map.mp hc
  exact allHex_lowerHex08 w

/-- **The words are read back**, whatever white space stands around the text. -/
theorem parseImageId_imageIdToHex (id : ImageId) {front back : Str}
    (hfront : ∀ c ∈ front, isWhitespace c = true) (hback : ∀ c ∈ back, isWhitespace c = true) :
    parseImageId (front ++ imageIdToHex id ++ back) = .ok id := by
  have htrim := trim_append hfront (allHex_imageIdToHex id).not_whitespace hback
  have hlen : (id.toList.map lowerHex08).length = 8 := by
    rw [List.length_map, Vector.length_toList]
  rw [imageIdToHex_eq id] at htrim ⊢
  obtain ⟨id', hid', hwords⟩ := parseImageId_of_numbers hlen (numbers_lowerHex08 id) htrim
  rw [hid', Except.ok.injEq]
  ext i hi : 1
  have hget : (id.toList.map lowerHex08)[i]? = some (lowerHex08 id[i]) := by
    rw [List.getElem?_map, Vector.getElem?_toList, Vector.getElem?_eq_getElem hi, Option.map_some]
  have hw := hwords ⟨i, hi⟩ (lowerHex08 id[i]) hget
  rw [u32FromStrRadix16_lowerHex08, Except.ok.injEq] at hw
  exact hw.symm

/-- **Written again, 64 digits are what they were, in lower case.** -/
theorem imageIdToHex_of_isHex64 {s : Str} (h : IsHex64 s) :
    ∃ id, parseImageId s = .ok id ∧ imageIdToHex id = s.map Char.toLower := by
  have htrim : trim s = s := trim_of_no_whitespace h.2.not_whitespace
  rw [← htrim] at h
  obtain ⟨chunks, id, hlen, ht, hpieces, hid, hwords⟩ := parseImageId_pieces h
  refine ⟨id, hid, ?_⟩
  have hmap : id.toList.map lowerHex08 = chunks.map (List.map Char.toLower) := by
    refine List.ext_getElem ?_ fun i hi hi' => ?_
    · rw [List.length_map, List.length_map, Vector.length_toList, hlen]
    · rw [List.length_map] at hi hi'
      obtain ⟨hlen8, hall⟩ := hpieces _ (List.getElem_mem hi')
      have hword : id[i] = UInt32.ofNat (hexValue chunks[i]) :=
        hwords ⟨i, by omega⟩ chunks[i] (List.getElem?_eq_getElem hi')
      rw [List.getElem_map, List.getElem_map, Vector.getElem_toList, hword,
        lowerHex08_hexValue hall hlen8]
  rw [imageIdToHex_eq, hmap, ← List.map_flatten, ← ht, htrim]

end Prover
end Tuniq
