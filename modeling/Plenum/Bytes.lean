namespace Plenum

abbrev Bytes := List UInt8

namespace Bytes

-- The UTF-8 form of a text.
def ofText (s : String) : Bytes :=
  s.toByteArray.data.toList

-- The text whose UTF-8 form the bytes are, if there is one.
def text? (b : Bytes) : Option String :=
  String.fromUTF8? ⟨b.toArray⟩

-- The same bytes with their length in the type.
def exactly? (n : Nat) (b : Bytes) : Option (Vector UInt8 n) :=
  if h : b.length = n then some ⟨b.toArray, by simpa using h⟩ else none

-- The number whose base 256 digits the bytes are, least significant first.
def toNat (b : Bytes) : Nat :=
  b.foldr (fun x n => x.toNat + 256 * n) 0

-- The low `size` base 256 digits of a number, least significant first.
def ofNat (size n : Nat) : Bytes :=
  (List.range size).map fun i => UInt8.ofNat (n >>> (8 * i) % 256)

@[simp]
theorem length_ofNat (size n : Nat) : (ofNat size n).length = size := by
  simp [ofNat]

theorem text?_ofText (s : String) : text? (ofText s) = some s := by
  unfold text? ofText String.fromUTF8?
  exact dif_pos s.isValidUTF8

theorem exactly?_toList {n : Nat} (v : Vector UInt8 n) : exactly? n v.toList = some v := by
  have h : v.toList.length = n := by simp
  rw [exactly?, dif_pos h]
  cases v
  simp [Vector.toList]

theorem toList_of_exactly? {n : Nat} {b : Bytes} {v : Vector UInt8 n}
    (h : exactly? n b = some v) : v.toList = b := by
  unfold exactly? at h
  split at h
  · cases h
    rfl
  · cases h

end Bytes
end Plenum
