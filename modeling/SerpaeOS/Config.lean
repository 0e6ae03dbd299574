import Mathlib.Data.Nat.Notation
import Mathlib.Data.Int.Notation

/-!
# Constants of the kernel

The values of `config.h`, `status.h` and `paging.h` that the modelled functions
use.  Status codes are positive numbers; a function that fails returns one of
them negated.  A pointer is a 32-bit physical address and `0` is `NULL`.
-/

namespace SerpaeOS

/-- A 32-bit address; `0` is the `NULL` pointer. -/
abbrev Ptr := ℕ

/-! ## Status codes -/

def allOk : ℤ := 0
def eio : ℤ := 1
def einvarg : ℤ := 2
def enomem : ℤ := 3
def ebadpath : ℤ := 4
def erdonly : ℤ := 6
def eistkn : ℤ := 8
def einformat : ℤ := 9
def enodiskspace : ℤ := 10
def etimedout : ℤ := 13

/-! ## Sizes and addresses -/

def heapSizeBytes : ℕ := 104857600 * 16
def heapBlockSize : ℕ := 4096
def heapAddress : ℕ := 0x01000000

def defaultSectorSize : ℕ := 512
def maxPath : ℕ := 108
def maxFileDescriptors : ℕ := 512
def maxDisks : ℕ := 13
def maxProgramAllocations : ℕ := 1024

def programVirtualAddress : ℕ := 0x400000
def userProgramStackSize : ℕ := 1024 * 16
def programVirtualStackAddressStart : ℕ := 0x3FF000

def userDataSegment : ℕ := 0x23
def userCodeSegment : ℕ := 0x1b

end SerpaeOS
