import Mathlib.Data.UInt

/-!
Words of 32 bits in byte memory, in either byte order, and the conversion
between network order and the order of a host.
-/

inductive ByteOrder
  | little
  | big
deriving DecidableEq

namespace ByteOrder

def pack : ByteOrder → UInt8 → UInt8 → UInt8 → UInt8 → UInt32
  | little, b0, b1, b2, b3 =>
      UInt32.ofNat (b0.toNat + 256 * b1.toNat + 65536 * b2.toNat + 16777216 * b3.toNat)
  | big, b0, b1, b2, b3 =>
      UInt32.ofNat (b3.toNat + 256 * b2.toNat + 65536 * b1.toNat + 16777216 * b0.toNat)

def byte : ByteOrder → UInt32 → Nat → UInt8
  | little, word, offset => UInt8.ofNat (word.toNat / 256 ^ offset)
  | big, word, offset => UInt8.ofNat (word.toNat / 256 ^ (3 - offset))

def load (order : ByteOrder) (memory : Nat → UInt8) (address : Nat) : UInt32 :=
  order.pack (memory address) (memory (address + 1)) (memory (address + 2)) (memory (address + 3))

/-- The bytes of the word read in network order, which is big endian. -/
def ntohl (order : ByteOrder) (word : UInt32) : UInt32 :=
  big.pack (order.byte word 0) (order.byte word 1) (order.byte word 2) (order.byte word 3)

variable {order : ByteOrder}

theorem pack_byte (word : UInt32) :
    order.pack (order.byte word 0) (order.byte word 1) (order.byte word 2) (order.byte word 3) =
      word := by
  apply UInt32.toNat_inj.mp
  have bound := word.toNat_lt
  cases order with
  | little =>
      simp only [pack, byte, UInt32.toNat_ofNat', UInt8.toNat_ofNat']
      omega
  | big =>
      simp only [pack, byte, UInt32.toNat_ofNat', UInt8.toNat_ofNat']
      omega

theorem byte_pack (b0 b1 b2 b3 : UInt8) :
    order.byte (order.pack b0 b1 b2 b3) 0 = b0 ∧ order.byte (order.pack b0 b1 b2 b3) 1 = b1 ∧
      order.byte (order.pack b0 b1 b2 b3) 2 = b2 ∧ order.byte (order.pack b0 b1 b2 b3) 3 = b3 := by
  have bound0 := b0.toNat_lt
  have bound1 := b1.toNat_lt
  have bound2 := b2.toNat_lt
  have bound3 := b3.toNat_lt
  cases order with
  | little =>
      refine ⟨?_, ?_, ?_, ?_⟩ <;> apply UInt8.toNat_inj.mp <;>
        simp only [pack, byte, UInt32.toNat_ofNat', UInt8.toNat_ofNat'] <;> omega
  | big =>
      refine ⟨?_, ?_, ?_, ?_⟩ <;> apply UInt8.toNat_inj.mp <;>
        simp only [pack, byte, UInt32.toNat_ofNat', UInt8.toNat_ofNat'] <;> omega

theorem load_eq {memory : Nat → UInt8} {address : Nat} {word : UInt32}
    (stored : ∀ offset < 4, memory (address + offset) = order.byte word offset) :
    order.load memory address = word := by
  have first : memory address = order.byte word 0 := stored 0 (by omega)
  rw [load, first, stored 1 (by omega), stored 2 (by omega), stored 3 (by omega), pack_byte]

theorem load_congr {memory other : Nat → UInt8} {address place : Nat}
    (same : ∀ offset < 4, memory (address + offset) = other (place + offset)) :
    order.load memory address = order.load other place := by
  have first : memory address = other place := same 0 (by omega)
  rw [load, load, first, same 1 (by omega), same 2 (by omega), same 3 (by omega)]

theorem ntohl_load (memory : Nat → UInt8) (address : Nat) :
    order.ntohl (order.load memory address) = big.load memory address := by
  obtain ⟨byte0, byte1, byte2, byte3⟩ := byte_pack (memory address)
    (memory (address + 1)) (memory (address + 2)) (memory (address + 3))
  rw [ntohl, load, byte0, byte1, byte2, byte3, load]

theorem byte_ntohl (word : UInt32) {offset : Nat} (bound : offset < 4) :
    order.byte (order.ntohl word) offset = big.byte word offset := by
  cases order with
  | big =>
      rw [ntohl, pack_byte]
  | little =>
      -- a big endian word is the little endian one of the reversed bytes
      have reversed : little.ntohl word = little.pack (little.byte word 3) (little.byte word 2)
          (little.byte word 1) (little.byte word 0) := rfl
      obtain ⟨byte0, byte1, byte2, byte3⟩ := byte_pack (little.byte word 3) (little.byte word 2)
        (little.byte word 1) (little.byte word 0)
      have cases : offset = 0 ∨ offset = 1 ∨ offset = 2 ∨ offset = 3 := by omega
      rw [reversed]
      rcases cases with rfl | rfl | rfl | rfl
      · exact byte0
      · exact byte1
      · exact byte2
      · exact byte3

theorem ntohl_ntohl (word : UInt32) : order.ntohl (order.ntohl word) = word := by
  rw [ntohl, byte_ntohl word (by omega), byte_ntohl word (by omega), byte_ntohl word (by omega),
    byte_ntohl word (by omega), pack_byte]

end ByteOrder
