import BlockTally.Grammar.Opcode

/-! Version words, and what the version of a module decides.

A version word has the major number above its lowest 16 bits and the minor number in the 8 bits below
those. Words and numbers may be any integers and are then taken in two's complement.
-/

set_option autoImplicit false

namespace BlockTally

/-- The bits of either of two integers in two's complement. -/
def eitherBits : Int → Int → Int
  | .ofNat a, .ofNat b => .ofNat (a ||| b)
  | .ofNat a, .negSucc b => .negSucc (b - (a &&& b))
  | .negSucc a, .ofNat b => .negSucc (a - (a &&& b))
  | .negSucc a, .negSucc b => .negSucc (a &&& b)

namespace Version

def word (major minor : Int) : Int :=
  eitherBits (major * 65536) (minor * 256)

/-- The major and the minor number of a word, each 8 bits wide. -/
def numbers (word : Int) : Int × Int :=
  (word / 65536 % 256, word / 256 % 256)

def v1_0 : Int := 0x10000
def v1_3 : Int := 0x10300
def v1_4 : Int := 0x10400

theorem word_v1_3 : word 1 3 = v1_3 := rfl

theorem word_v1_4 : word 1 4 = v1_4 := rfl

end Version

/-- The extension that brings the storage class of the counters. -/
def storageBufferExtension : String := "SPV_KHR_storage_buffer_storage_class"

/-- Extensions that became part of the instruction set, with the version in which they did. -/
def promotedExtensions : List (String × Int) :=
  [("SPV_KHR_16bit_storage", Version.v1_3),
   (storageBufferExtension, Version.v1_3),
   ("SPV_KHR_variable_pointers", Version.v1_3)]

/-- No id may reach this number. -/
def maxIdBound : Int := 0x3FFFFF

end BlockTally
